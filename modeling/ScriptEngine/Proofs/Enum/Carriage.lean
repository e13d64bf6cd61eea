import ScriptEngine.Proofs.Enum.Minting
import ScriptEngine.Proofs.Enum.Native
import ScriptEngine.Proofs.Eval.Watch

/-!
# Evaluation carries variants

Each construct carries variants, given that its parts do (`Interp.Carrying`): what it gives, throws and leaves
behind bears variants that were there before or that have been declared by then. Only declarations of enums
add any.

* `carrying_ofLevel`: the interpreter of every level carries variants.
* `carrying_watched`: so do runs that are stopped at any point.
-/

namespace ScriptEngine

namespace Interp

open Eval

/-- An interpreter that carries the variants of its arguments and of the machine. -/
structure Carrying (I : Interp) : Prop where
  eval : ∀ {P e s}, Carries P Value.Only (I.eval e s)
  exec : ∀ {P ss s}, Carries P Value.Only (I.exec ss s)
  call : ∀ {P f args span}, f.Only P → AllOnly P args → Carries P Value.Only (I.call f args span)

variable {P : VariantTag → Prop} {I : Interp} {s : Nat} {v w : Value} {span : Span}

/-! ## Constructs that are given their parts -/

theorem carries_round {x : Eval Value} (hx : Carries P Value.Only x) :
    Carries P (fun _ _ => True) (round x) := by
  refine hx.attempt.bind fun outcome Q _ ho => ?_
  split
  · exact carries_pure trivial
  · exact carries_pure trivial
  · exact carries_pure trivial
  · exact carries_exit ho

theorem carries_rounds {test : Eval Bool} {x : Eval Value} (htest : ∀ {P}, Carries P (fun _ _ => True) test)
    (hx : ∀ {P}, Carries P Value.Only x) (fuel : Nat) : Carries P Value.Only (rounds test x fuel) := by
  induction fuel generalizing P with
  | zero => exact carries_exit trivial
  | succ n ih =>
    refine htest.bind fun _ Q _ _ => .ite (fun _ => ?_) fun _ => carries_pure Value.only_null
    exact (carries_round hx).bind fun _ Q' _ _ => .ite (fun _ => ih) fun _ => carries_pure Value.only_null

theorem carries_forEach {turn : Value → Value → Eval Bool} {items : List (Value × Value)}
    (hturn : ∀ {P i item}, i.Only P → item.Only P → Carries P (fun _ _ => True) (turn i item))
    (hitems : ∀ p ∈ items, p.1.Only P ∧ p.2.Only P) : Carries P Value.Only (forEach turn items) := by
  induction items generalizing P with
  | nil => exact carries_pure Value.only_null
  | cons p rest ih =>
    obtain ⟨hp, hrest⟩ := List.forall_mem_cons.1 hitems
    refine (hturn hp.1 hp.2).bind fun _ Q hQ _ => .ite (fun _ => ih fun p hp => ?_) fun _ =>
      carries_pure Value.only_null
    exact ⟨(hrest p hp).1.mono hQ, (hrest p hp).2.mono hQ⟩

theorem carries_forNumbers {turn : Value → Value → Eval Bool}
    (hturn : ∀ {P i item}, i.Only P → item.Only P → Carries P (fun _ _ => True) (turn i item))
    {p : Progression} {i left : Nat} : Carries P Value.Only (forNumbers turn p i left) := by
  induction left generalizing P i with
  | zero => exact carries_pure Value.only_null
  | succ n ih =>
    exact (hturn Value.only_number Value.only_number).bind fun _ _ _ _ => .ite (fun _ => ih) fun _ =>
      carries_pure Value.only_null

theorem carries_withCleanup {x cleanup : Eval Value} (hx : Carries P Value.Only x)
    (hc : ∀ {P}, Carries P Value.Only cleanup) : Carries P Value.Only (withCleanup x cleanup) := by
  refine hx.attempt.bind fun outcome Q _ ho => ?_
  split
  · exact hc.attempt.bind fun _ _ _ _ => carries_exit trivial
  · exact hc.bind fun _ Q' hQ' _ => (relays_resume (ho.mono hQ')).carries

theorem carries_noted {c : Block} {x : Eval Value} (hx : Carries P Value.Only x) :
    Carries P Value.Only (noted c x) :=
  relays_note.andThen fun _ _ => hx.attempt.bind fun _ _ _ ho => relays_note.andThen fun _ _ =>
    (relays_resume ho).carries

/-! ## Expressions -/

theorem only_literal {l : Literal} : (literal l).Only P := by
  cases l with
  | number q => exact Value.only_number
  | _ => exact Value.only_plain trivial

namespace Carrying

variable (hI : I.Carrying)

include hI

theorem evalList {es : List Expr} : Carries P AllOnly (I.evalList s es) := by
  induction es generalizing P with
  | nil => exact carries_pure .nil
  | cons e es ih =>
    exact hI.eval.bind fun v Q _ hv => ih.bind fun vs Q' hQ' hvs => carries_pure (.cons (hv.mono hQ') hvs)

theorem entries {es : List ObjectEntry} :
    Carries P (fun Q entries => ∀ e ∈ entries, e.2.Only Q) (I.entries s es) := by
  induction es generalizing P with
  | nil => exact carries_pure nofun
  | cons e es ih =>
    refine hI.eval.bind fun v Q _ hv => ih.bind fun rest Q' hQ' hrest => carries_pure ?_
    exact List.forall_mem_cons.2 ⟨hv.mono hQ', hrest⟩

theorem optional {e : Option Expr} : Carries P Value.Only (I.optional e s) := by
  cases e with
  | none => exact carries_pure Value.only_null
  | some e => exact hI.eval

theorem condition {e : Expr} {construct : Text} :
    Carries P (fun _ _ => True) (I.condition e s construct) := by
  refine hI.eval.bind fun v Q _ _ => ?_
  split
  · exact carries_pure trivial
  · exact relays_failWith.carries

theorem isTest (hv : v.Only P) (hw : w.Only P) : Carries P (fun _ _ => True) (I.isTest v w span) := by
  unfold Interp.isTest
  split
  · exact carries_pure trivial
  · exact carries_pure trivial
  · refine .ite (fun _ => ?_) fun _ => relays_equal.carries
    refine (hI.call hw (.cons hv .nil)).bind fun result Q _ _ => ?_
    split
    · exact carries_pure trivial
    · exact relays_failWith.carries

theorem binary {op : BinaryOp} (hv : v.Only P) (hw : w.Only P) :
    Carries P Value.Only (I.binary op v w span) := by
  cases op with
  | arith op => exact relays_arithmetic.carries
  | compare op =>
    exact (relays_readHeap fun _ _ => Heap.reads_comparison).andThen fun _ _ => carries_pure Value.only_bool
  | within =>
    exact (relays_readHeap fun _ _ => Heap.reads_membership).andThen fun _ _ => carries_pure Value.only_bool
  | isVariant => exact (hI.isTest hv hw).bind fun _ _ _ _ => carries_pure Value.only_bool

theorem logicalOperand {op : LogicalOp} {side : Text} {e : Expr} :
    Carries P (fun Q r => r.1.Only Q) (I.logicalOperand op side e s) := by
  refine hI.eval.bind fun v Q _ hv => ?_
  split
  · exact carries_pure hv
  · exact relays_failWith.carries

theorem logical {l r : Expr} {op : LogicalOp} : Carries P Value.Only (I.logical l op r s) :=
  hI.logicalOperand.bind fun _ _ _ hl =>
    .ite (fun _ => carries_pure hl) fun _ => hI.logicalOperand.bind fun _ _ _ hr => carries_pure hr

theorem target {e : Expr} : Carries P (fun _ _ => True) (I.target e s) := by
  cases e with
  | name span n => exact carries_pure trivial
  | member span object n => exact hI.eval.bind fun _ _ _ _ => carries_pure trivial
  | index span object i =>
    exact hI.eval.bind fun _ _ _ _ => hI.eval.bind fun _ _ _ _ => carries_pure trivial
  | _ => exact relays_failWith.carries

theorem assignment {l r : Expr} {op : AssignOp} : Carries P Value.Only (I.assignment l op r span s) := by
  refine hI.target.bind fun place Q _ _ => ?_
  have hwrite {Q : VariantTag → Prop} {v : Value} (hv : v.Only Q) :
      Carries Q Value.Only (do place.write v; return v) :=
    (relays_writeTarget hv).andThen fun _ _ => carries_pure hv
  split
  · exact hI.eval.bind fun _ _ _ hv => hwrite hv
  · exact relays_readTarget.andThen fun _ _ => hI.eval.bind fun _ _ _ _ =>
      relays_arithmetic.andThen fun _ hv => hwrite hv

theorem update {e : Expr} {op : UpdateOp} {yieldsNew : Bool} :
    Carries P Value.Only (I.update op e yieldsNew span s) := by
  refine hI.target.bind fun place Q _ _ => relays_readTarget.andThen fun current hcurrent => ?_
  split
  · refine (relays_writeTarget Value.only_number).andThen fun _ _ => carries_pure ?_
    split
    · exact Value.only_number
    · exact hcurrent
  · exact relays_failWith.carries

theorem progression {r : RangeParts} {size : Option Nat} :
    Carries P (fun _ _ => True) (I.progression r size s) := by
  unfold Interp.progression
  extract_lets bound place
  have hnumber {Q : VariantTag → Prop} {v : Value} {what : Text} {span : Span} :
      Relays Q (fun _ => True) (readHeap fun _ => rangeNumber v what span) :=
    relays_readHeap fun _ _ => reads_rangeNumber
  have hbound {Q : VariantTag → Prop} {e : Expr} {what : Text} : Carries Q (fun _ _ => True) (bound e what) :=
    hI.eval.bind fun _ _ _ _ => hnumber.carries
  refine hbound.bind fun start _ _ _ => hbound.bind fun stop Q _ _ => ?_
  extract_lets k
  have hk : ∀ step Q, Carries Q (fun _ _ => True) (k step) := by
    intro step Q
    unfold k
    split
    · exact carries_pure trivial
    · exact relays_failWith.carries
  split
  · exact hk _ _
  · exact hI.eval.bind fun _ _ _ _ => hnumber.andThen fun _ _ => hk _ _

theorem rangeArray {r : RangeParts} : Carries P Value.Only (I.rangeArray r s) := by
  refine hI.progression.bind fun p Q _ _ => (relays_newArray fun v hv => ?_).carries
  obtain ⟨n, -, rfl⟩ := List.mem_map.1 hv
  exact Value.only_number

theorem sliceBy {r : RangeParts} : Carries P Value.Only (I.sliceBy v r s) :=
  .ite (fun _ => relays_failWith.carries) fun _ => relays_heap.andThen fun _ _ =>
    hI.progression.bind fun _ _ _ _ => relays_picked.andThen fun _ hvs => (relays_gathered hvs).carries

theorem block {b : Block} {frame : Nat} : Carries P Value.Only (I.block b frame) :=
  relays_childFrame.andThen fun _ _ => hI.exec

theorem forRound {indexName : Option Text} {valueName : Text} {body : Block} {frame : Nat} {i item : Value}
    (hi : i.Only P) (hitem : item.Only P) :
    Carries P (fun _ _ => True) (I.forRound indexName valueName body frame i item) := by
  refine relays_childFrame.andThen fun inner _ => ?_
  have hk : Carries P (fun _ _ => True) (do
      Eval.define inner (some valueName) item false none
      round (I.exec body.statements inner)) :=
    (relays_define hitem).andThen fun _ _ => carries_round hI.exec
  split
  · exact (relays_define hi).andThen fun _ _ => hk
  · exact hk

theorem forIn {indexName : Option Text} {valueName : Text} {iterable : Expr} {body : Block} :
    Carries P Value.Only (I.forIn indexName valueName iterable body s) := by
  have hturn {P : VariantTag → Prop} {i item : Value} (hi : i.Only P) (hitem : item.Only P) :
      Carries P (fun _ _ => True) (I.forRound indexName valueName body s i item) := hI.forRound hi hitem
  cases iterable with
  | range sp start stop withStart withStop step =>
    exact hI.progression.bind fun _ _ _ _ => carries_forNumbers hturn
  | _ =>
    exact hI.eval.bind fun _ _ _ hv => (relays_elements hv).andThen fun _ hitems =>
      carries_forEach hturn hitems

theorem handle {name : Option Text} {handler : Block} {frame : Nat} (hv : v.Only P) :
    Carries P Value.Only (I.handle name handler frame v) := by
  refine relays_childFrame.andThen fun inner _ => ?_
  split
  · exact (relays_define hv).andThen fun _ _ => hI.exec
  · exact hI.exec

theorem guarded {body : Block} {name : Option Text} {handler : Option Block} {frame : Nat} :
    Carries P Value.Only (I.guarded body name handler frame) := by
  refine hI.block.attempt.bind fun outcome Q _ ho => ?_
  split
  · refine (relays_caught ho).andThen fun error herror => ?_
    split
    · exact hI.handle (herror _ rfl)
    · exact carries_exit ho
  · exact (relays_resume ho).carries

theorem tryCatch {body : Block} {name : Option Text} {handler cleanup : Option Block} {frame : Nat} :
    Carries P Value.Only (I.tryCatch body name handler cleanup frame) := by
  cases cleanup with
  | none => exact hI.guarded
  | some c =>
    exact carries_noted (carries_withCleanup hI.guarded (relays_note.andThen fun _ _ => hI.block))

theorem armMatches {arm : MatchArm} (hv : v.Only P) :
    Carries P (fun _ _ => True) (I.armMatches arm v s) := by
  unfold Interp.armMatches
  split
  · exact carries_pure trivial
  · exact hI.eval.bind fun _ _ _ _ => relays_equal.carries
  · exact hI.eval.bind fun _ _ hQ hw => hI.isTest (hv.mono hQ) hw
  · exact hI.eval.bind fun _ _ _ _ => (relays_readHeap fun _ _ => Heap.reads_comparison).carries

theorem arms {arms : List MatchArm} (hv : v.Only P) : Carries P Value.Only (I.arms v span s arms) := by
  induction arms generalizing P with
  | nil => exact relays_quotedForm.andThen fun _ _ => relays_failWith.carries
  | cons arm rest ih =>
    exact (hI.armMatches hv).bind fun _ _ hQ _ => .ite (fun _ => hI.block) fun _ => ih (hv.mono hQ)

theorem callExpr {callee : Expr} {args : List Expr} :
    Carries P Value.Only (I.callExpr callee args span s) := by
  cases callee with
  | member sp object name =>
    refine hI.eval.bind fun receiver _ _ hreceiver => (relays_readHeap fun _ hh => hh.method).andThen
      fun f hf => hI.evalList.bind fun values _ hQ hvalues => hI.call (hf.mono hQ) ?_
    split
    · exact .cons (hreceiver.mono hQ) hvalues
    · exact hvalues
  | _ => exact hI.eval.bind fun _ _ _ hf => hI.evalList.bind fun _ _ hQ hvs => hI.call (hf.mono hQ) hvs

theorem indexExpr {object index : Expr} : Carries P Value.Only (I.indexExpr object index span s) := by
  refine hI.eval.bind fun v _ _ _ => ?_
  cases index with
  | range sp start stop withStart withStop step => exact hI.sliceBy
  | _ => exact hI.eval.bind fun _ _ _ _ => relays_index.carries

/-- One level of evaluation of an expression. -/
theorem expr {e : Expr} : Carries P Value.Only (I.expr e s) := by
  cases e with
  | literal sp l => exact carries_pure only_literal
  | name sp n => exact relays_lookup.carries
  | binary sp l op r =>
    exact hI.eval.bind fun _ _ _ hl => hI.eval.bind fun _ _ hQ hr => hI.binary (hl.mono hQ) hr
  | logical sp l op r => exact hI.logical
  | unary sp op e => exact hI.eval.bind fun _ _ _ _ => relays_unary.carries
  | update sp op e yieldsNew => exact hI.update
  | assign sp l op r => exact hI.assignment
  | member sp object name =>
    exact hI.eval.bind fun _ _ _ _ => (relays_readHeap fun _ hh => hh.member).carries
  | index sp object i => exact hI.indexExpr
  | call sp callee args => exact hI.callExpr
  | array sp es => exact hI.evalList.bind fun _ _ _ hvs => (relays_newArray hvs).carries
  | object sp es =>
    exact hI.entries.bind fun _ _ _ hes => (relays_newObject (OrderedMap.forall_ofList hes)).carries
  | range sp start stop withStart withStop step => exact hI.rangeArray
  | block b => exact hI.block
  | ifElse sp test thenBranch elseBranch =>
    refine hI.condition.bind fun _ _ _ _ => .ite (fun _ => hI.block) fun _ => ?_
    cases elseBranch with
    | none => exact carries_pure Value.only_null
    | some e => exact hI.eval
  | ternary sp test a b =>
    exact hI.condition.bind fun _ _ _ _ => .ite (fun _ => hI.eval) fun _ => hI.eval
  | whileLoop sp test body negate =>
    exact carries_rounds (hI.condition.bind fun _ _ _ _ => carries_pure trivial) hI.block _
  | loop sp body => exact carries_rounds (carries_pure trivial) hI.block _
  | forIn sp indexName valueName iterable body => exact hI.forIn
  | tryCatch sp body name handler cleanup => exact hI.tryCatch
  | matchOn sp subject arms => exact hI.eval.bind fun _ _ _ hv => hI.arms hv
  | function f => exact relays_function.carries

/-! ## Modules -/

theorem runProgram {p : Program} : Carries P Value.Only (I.runProgram p s) :=
  relays_recordFile.andThen fun _ _ => hI.exec.attempt.bind fun _ _ _ ho => (relays_programResult ho).carries

theorem runModule {p : Path} : Carries P (fun _ _ => True) (I.runModule p) := by
  refine relays_get.andThen fun m _ => ?_
  split
  · exact relays_crash.carries
  · refine relays_parse.andThen fun program _ => ?_
    exact (relays_newFrame rfl).andThen fun _ _ => hI.runProgram.bind fun _ _ _ _ => carries_pure trivial

theorem evaluateModule {p : Path} : Carries P (fun _ _ => True) (I.evaluateModule p) :=
  hI.runModule.bind fun _ _ _ _ => Relays.andThen (relays_modify fun _ => ⟨rfl, rfl, rfl, rfl⟩) fun _ _ =>
    carries_pure trivial

theorem loadModule {path : Text} {importer : Option Text} {place : Option Span} :
    Carries P (fun _ _ => True) (I.loadModule path importer place) := by
  refine relays_resolveModule.andThen fun p _ => relays_get.andThen fun m _ => ?_
  dsimp only
  split
  · exact Relays.andThen (relays_modify fun _ => ⟨rfl, rfl, rfl, rfl⟩) fun _ _ =>
      carries_pure trivial
  · refine .ite (fun _ => relays_failWith.carries) fun _ => carries_whileLoading ?_
    exact hI.evaluateModule.bind fun _ _ _ _ =>
      Relays.andThen (relays_modify fun _ => ⟨rfl, rfl, rfl, rfl⟩) fun _ _ =>
        carries_pure trivial

/-! ## Statements -/

theorem declareVariables {d : VarDecl} : Carries P Value.Only (I.declareVariables d s) := by
  unfold Interp.declareVariables
  extract_lets k
  have hk {Q : VariantTag → Prop} {v : Value} (hv : v.Only Q) : Carries Q Value.Only (k v) := by
    unfold k
    split
    · exact (relays_define hv).andThen fun _ _ => carries_pure hv
    · exact relays_arrayItems.andThen fun _ hitems => (relays_destructure hitems).andThen fun _ _ =>
        carries_pure hv
    · exact (relays_failWith (R := fun _ => True)).andThen fun _ _ => carries_pure hv
  split
  · exact hI.eval.bind fun _ _ _ hv => hk hv
  · exact hk Value.only_null

theorem importNames {i : Import} : Carries P Value.Only (I.importNames i s) := by
  refine relays_heap.andThen fun h _ => hI.loadModule.bind fun moduleFrame Q _ _ => ?_
  refine .ite (fun _ => relays_heap.andThen fun h hh => ?_) fun _ => ?_
  · refine (relays_forM fun name _ => relays_define ?_).andThen fun _ _ => carries_pure Value.only_null
    cases he : h.export? moduleFrame name with
    | none => exact Value.only_null
    | some v => exact hh.exported he
  · exact (relays_forM fun _ _ => relays_importName).andThen fun _ _ => carries_pure Value.only_null

theorem declare {d : Declaration} : Carries P Value.Only (I.declare d s) := by
  cases d with
  | bindings d => exact hI.declareVariables
  | enum d => exact carries_declareEnum
  | function f => exact relays_function.carries

theorem stmt {st : Stmt} : Carries P Value.Only (I.stmt st s) := by
  cases st with
  | expression sp e => exact hI.eval
  | bindings d => exact hI.declareVariables
  | returnValue sp e => exact hI.optional.bind fun _ _ _ hv => carries_exit hv
  | breakLoop sp => exact carries_exit trivial
  | continueLoop sp => exact carries_exit trivial
  | throwValue sp e => exact hI.eval.bind fun _ _ _ hv => carries_exit hv
  | enum d => exact carries_declareEnum
  | importNames i => exact hI.importNames
  | exportDeclared sp d =>
    exact hI.declare.bind fun _ _ _ hv => (relays_forM fun _ _ => relays_declareExport).andThen fun _ _ =>
      carries_pure hv
  | exportNames sp names =>
    exact (relays_forM fun _ _ => relays_declareExport).andThen fun _ _ => carries_pure Value.only_null

theorem stmts {ss : List Stmt} : Carries P Value.Only (I.stmts s ss) := by
  induction ss generalizing P with
  | nil => exact carries_pure Value.only_null
  | cons st rest ih =>
    cases rest with
    | nil => exact hI.stmt
    | cons t rest => exact hI.stmt.bind fun _ _ _ _ => ih

end Carrying

/-! ## Calls -/

variable {c : Closure} {args : List Value} {place : Option Span}

theorem carries_deeper {depth : Nat} {x : Eval Value} (hx : Carries P Value.Only x) :
    Carries P (fun Q => Eval.Ends Q (Value.Only Q)) (Eval.deeper depth x) := by
  have hdepth {Q : VariantTag → Prop} (d : Nat) :
      Relays Q (fun _ => True) (modify fun m : Machine => { m with depth := d } : Eval Unit) :=
    relays_modify fun _ => ⟨rfl, rfl, rfl, rfl⟩
  exact (hdepth _).andThen fun _ _ => hx.attempt.bind fun _ _ _ ho => (hdepth _).andThen fun _ _ =>
    carries_pure ho

theorem carries_asThread {x : Text → Eval Unit} (hx : ∀ {name}, Carries P (fun _ _ => True) (x name)) :
    Carries P (fun _ _ => True) (Native.asThread x) := by
  refine relays_get.andThen fun m _ =>
    Relays.andThen (relays_modify fun _ => ⟨rfl, rfl, rfl, rfl⟩) fun _ _ => relays_get.andThen fun _ _ =>
      hx.attempt.bind fun outcome Q _ _ =>
        Relays.andThen (relays_modify fun _ => ⟨rfl, rfl, rfl, rfl⟩) fun _ _ => ?_
  split
  · exact carries_exit trivial
  · exact carries_pure trivial

theorem carries_logged {what : Text → Text} {x : Eval Value} (hx : Carries P Value.Only x) :
    Carries P (fun _ _ => True) (Native.logged what x) := by
  refine hx.attempt.bind fun outcome Q _ ho => ?_
  split
  · exact carries_pure trivial
  · exact relays_display.andThen fun _ _ => relays_logError.carries
  · exact relays_logError.carries
  · exact carries_exit ho

namespace Carrying

variable (hI : I.Carrying)

include hI

theorem emit {id : Nat} {event : Text} (hargs : AllOnly P args) :
    Carries P (fun _ _ => True) (Native.emit I id event args) := by
  refine relays_get.andThen fun m hm => .bind (carries_forM fun Q hQ listener hl => ?_) fun _ _ _ _ =>
    carries_pure trivial
  exact carries_logged (hI.call ((hm.listeners id event listener hl).mono hQ) (hargs.mono hQ))

theorem pump {id : Nat} (rounds : Nat) : Carries P (fun _ _ => True) (Native.pump I id rounds) := by
  induction rounds generalizing P with
  | zero => exact carries_pure trivial
  | succ n ih =>
    refine (relays_receive.carries (R := fun _ _ => True)).attempt.bind fun outcome Q _ _ => ?_
    split
    · exact relays_bufferValue.andThen fun v hv =>
        (hI.emit (.cons hv .nil)).bind fun _ _ _ _ => ih
    · exact (hI.emit .nil).bind fun _ _ _ _ => carries_pure trivial

theorem spawn (hv : v.Only P) : Carries P Value.Only (Native.spawn I place v) :=
  .ite (fun _ => (carries_asThread (carries_logged (hI.call hv .nil))).bind fun _ _ _ _ =>
    carries_pure Value.only_null) fun _ => relays_reject.carries

theorem listenStream : Carries P Value.Only (Native.listenStream I place) :=
  relays_get.andThen fun _ _ => .ite (fun _ => relays_reject.carries) fun _ =>
    Relays.andThen (relays_modify fun _ => ⟨rfl, rfl, rfl, rfl⟩) fun _ _ =>
      (carries_asThread (hI.pump _)).bind fun _ _ _ _ => carries_pure Value.only_null

theorem nativeRun {n : Native} (hargs : AllOnly P args) : Carries P Value.Only (n.run I args place) := by
  obtain h | ⟨rfl, f, xs, rfl⟩ | ⟨rfl, f, rfl⟩ | rfl := relays_run (I := I) n place hargs
  · exact h.carries
  · exact relays_itemsOf.andThen fun _ hitems => hI.call (hargs f (.head _)) hitems
  · exact hI.spawn (hargs f (.head _))
  · exact hI.listenStream

theorem nativeCall {n : Native} (hargs : AllOnly P args) : Carries P Value.Only (n.call I args place) := by
  refine .ite (fun _ => relays_wrongArity.carries) fun _ =>
    (hI.nativeRun hargs).attempt.bind fun outcome Q _ ho => ?_
  split
  · exact (relays_fail (Fault.Only.locatedAt ho)).carries
  · exact .ite (fun _ => relays_reject.carries) fun _ => carries_exit trivial
  · exact (relays_resume ho).carries

/-- The fault of a predicate has the argument that it refused. -/
theorem checkParameter {p : Parameter} : Carries P (fun _ _ => True) (I.checkParameter c s place p) := by
  unfold Interp.checkParameter
  split
  · exact carries_pure trivial
  · refine hI.eval.bind fun test _ _ htest => hI.evalList.bind fun extra _ hQ hextra =>
      relays_lookup.andThen fun argument hargument =>
        (hI.call (htest.mono hQ) (.cons hargument hextra)).bind fun result _ hQ' _ => ?_
    split
    · exact carries_pure trivial
    · refine relays_quotedForm.andThen fun _ _ => (relays_fail fun v hv => ?_).carries
      cases hv
      exact hargument.mono hQ'

theorem checkClause {clause : Expr} : Carries P (fun _ _ => True) (I.checkClause c s place clause) := by
  refine hI.eval.bind fun result Q _ _ => ?_
  split
  · exact carries_pure trivial
  · exact relays_failWith.carries
  · exact relays_failWith.carries

theorem checkConstraints : Carries P (fun _ _ => True) (I.checkConstraints c s place) :=
  (carries_forM fun _ _ _ _ => hI.checkParameter).bind fun _ _ _ _ =>
    carries_forM fun _ _ _ _ => hI.checkClause

theorem callClosure (hargs : AllOnly P args) : Carries P Value.Only (I.callClosure c args place) := by
  refine relays_get.andThen fun m _ => .ite (fun _ => relays_failWith.carries) fun _ =>
    relays_childFrame.andThen fun frame _ => (relays_bindParameters hargs).andThen fun _ _ => ?_
  exact hI.checkConstraints.bind fun _ _ _ _ => (carries_deeper hI.exec).bind fun _ _ _ ho =>
    (relays_bodyResult ho).andThen fun _ hv => (relays_checkPredicate hv).carries

theorem apply {f : Value} (hf : f.Only P) (hargs : AllOnly P args) :
    Carries P Value.Only (I.apply f args place) := by
  unfold Interp.apply
  split
  · refine relays_heap.andThen fun h _ => ?_
    split
    · exact hI.callClosure hargs
    · exact carries_pure Value.only_null
  · exact hI.nativeCall hargs
  · next hvariant => exact (relays_construct hf hvariant hargs).carries
  · exact relays_failWith.carries

end Carrying

/-! ## Levels -/

theorem carrying_exhausted : exhausted.Carrying :=
  ⟨carries_exit trivial, carries_exit trivial, fun _ _ => carries_exit trivial⟩

theorem carrying_ofLevel (n : Nat) : (ofLevel n).Carrying := by
  induction n with
  | zero => exact carrying_exhausted
  | succ n ih => exact ⟨ih.expr, ih.stmts, ih.apply⟩

theorem carrying_session : session.Carrying := carrying_ofLevel sessionLevel

/-! ## Runs that are stopped -/

variable {allows : Activity → Machine → Bool}

theorem carries_watch {a : Activity} {x : Eval Value} (hx : Carries P Value.Only x) :
    Carries P Value.Only (watch allows (Eval.exit .exhausted) a x) :=
  relays_get.andThen fun _ _ => .ite (fun _ => hx) fun _ => carries_exit trivial

/-- A run that is stopped where a condition fails carries variants up to there. -/
theorem carrying_watched (n : Nat) (a : Activity) : (watched allows (Eval.exit .exhausted) n a).Carrying := by
  induction n generalizing a with
  | zero => exact carrying_exhausted
  | succ n ih =>
    have hduring (f : Value) : (duringCall (watched allows (Eval.exit .exhausted) n) a f).Carrying := by
      unfold duringCall
      split
      · exact ⟨(ih _).eval, (ih _).exec, (ih _).call⟩
      · exact ih _
      · exact ih _
    exact ⟨carries_watch (ih a).expr, carries_watch (ih a).stmts, fun hf hargs =>
      carries_watch ((hduring _).apply hf hargs)⟩

end Interp

end ScriptEngine

import ScriptEngine.Eval.Statement
import ScriptEngine.Proofs.Eval.Effect
import ScriptEngine.Proofs.Eval.Native

/-!
# Evaluation within frames

Each construct stays within the frame that it is evaluated in, given that its parts do
(`Interp.Confined`). What opens a frame of its own (a block, a round of a loop, a handler, a call, the
evaluation of a module) is within any frame at all: it changes no frame that was there by a declaration.

* `confined_ofLevel`: the interpreter of every level is confined.
-/

namespace ScriptEngine

namespace Interp

open Eval

/-- An interpreter that evaluates within the frames that it is given, and calls within any frame. -/
structure Confined (I : Interp) : Prop where
  eval : ∀ e s, Within s (I.eval e s)
  exec : ∀ ss s, Within s (I.exec ss s)
  call : ∀ {s f args span}, Within s (I.call f args span)

variable {I : Interp} {s : Nat} {v w : Value} {span : Span}

/-! ## Constructs that are given their parts -/

theorem within_writeTarget {t : Target} : Within s (t.write v) := by
  cases t with
  | name frame n span => exact within_assign
  | member object n span => exact isPlain_setAt.within
  | index object i span => exact isPlain_setAt.within

theorem within_readTarget {t : Target} : Within s t.read := by
  cases t with
  | name frame n span => exact within_readHeap
  | member object n span => exact within_readHeap
  | index object i span => exact isPlain_index.within

theorem within_round {x : Eval Value} (hx : Within s x) : Within s (round x) := by
  refine hx.attempt.bind fun outcome => ?_
  split <;> simp

theorem within_rounds {test : Eval Bool} {x : Eval Value} (htest : Within s test) (hx : Within s x)
    (fuel : Nat) : Within s (rounds test x fuel) := by
  induction fuel with
  | zero => exact within_exit
  | succ n ih =>
    exact htest.bind fun _ => .ite (fun _ => (within_round hx).bind fun _ =>
      .ite (fun _ => ih) fun _ => within_pure) fun _ => within_pure

theorem within_forEach {turn : Value → Value → Eval Bool} (hturn : ∀ i item, Within s (turn i item))
    (items : List (Value × Value)) : Within s (forEach turn items) := by
  induction items with
  | nil => exact within_pure
  | cons p rest ih => exact (hturn _ _).bind fun _ => .ite (fun _ => ih) fun _ => within_pure

theorem within_forNumbers {turn : Value → Value → Eval Bool}
    (hturn : ∀ i item, Within s (turn i item)) {p : Progression} {i left : Nat} :
    Within s (forNumbers turn p i left) := by
  induction left generalizing i with
  | zero => exact within_pure
  | succ n ih => exact (hturn _ _).bind fun _ => .ite (fun _ => ih) fun _ => within_pure

theorem within_withCleanup {x cleanup : Eval Value} (hx : Within s x) (hc : Within s cleanup) :
    Within s (withCleanup x cleanup) := by
  refine hx.attempt.bind fun outcome => ?_
  split
  · exact hc.attempt.bind fun _ => within_exit
  · exact hc.bind fun _ => within_resume

theorem within_noted {c : Block} {x : Eval Value} (hx : Within s x) : Within s (noted c x) :=
  within_note.bind fun _ => hx.attempt.bind fun _ => within_note.bind fun _ => within_resume

theorem within_function {f : FunctionDef} : Within s (function f s) := by
  refine within_readHeap.bind fun _ => within_newClosure.bind fun v => ?_
  split
  · exact within_define.bind fun _ => within_pure
  · exact within_pure

/-! ## Expressions -/

namespace Confined

variable (hI : I.Confined)

include hI

theorem evalList {es : List Expr} : Within s (I.evalList s es) := by
  induction es with
  | nil => exact within_pure
  | cons e es ih => exact (hI.eval e s).bind fun _ => ih.bind fun _ => within_pure

theorem entries {es : List ObjectEntry} : Within s (I.entries s es) := by
  induction es with
  | nil => exact within_pure
  | cons e es ih => exact (hI.eval e.value s).bind fun _ => ih.bind fun _ => within_pure

theorem optional {e : Option Expr} : Within s (I.optional e s) := by
  cases e with
  | none => exact within_pure
  | some e => exact hI.eval e s

theorem condition {e : Expr} {construct : Text} : Within s (I.condition e s construct) := by
  refine (hI.eval e s).bind fun v => ?_
  split <;> simp

theorem isTest : Within s (I.isTest v w span) := by
  unfold Interp.isTest
  split
  · exact within_pure
  · exact within_pure
  · refine .ite (fun _ => hI.call.bind fun result => ?_) fun _ => isPlain_equal.within
    split <;> simp

theorem binary {op : BinaryOp} : Within s (I.binary op v w span) := by
  cases op with
  | arith op => exact isPlain_arithmetic.within
  | compare op => exact within_readHeap.bind fun _ => within_pure
  | within => exact within_readHeap.bind fun _ => within_pure
  | isVariant => exact hI.isTest.bind fun _ => within_pure

theorem logicalOperand {op : LogicalOp} {side : Text} {e : Expr} :
    Within s (I.logicalOperand op side e s) := by
  refine (hI.eval e s).bind fun v => ?_
  split <;> simp

theorem logical {l r : Expr} {op : LogicalOp} : Within s (I.logical l op r s) :=
  hI.logicalOperand.bind fun _ =>
    .ite (fun _ => within_pure) fun _ => hI.logicalOperand.bind fun _ => within_pure

theorem target {e : Expr} : Within s (I.target e s) := by
  cases e with
  | name span n => exact within_pure
  | member span object n => exact (hI.eval object s).bind fun _ => within_pure
  | index span object i =>
    exact (hI.eval object s).bind fun _ => (hI.eval i s).bind fun _ => within_pure
  | _ => exact within_failWith

theorem assignment {l r : Expr} {op : AssignOp} : Within s (I.assignment l op r span s) := by
  refine hI.target.bind fun place => ?_
  split
  · exact (hI.eval r s).bind fun _ => within_writeTarget.bind fun _ => within_pure
  · exact within_readTarget.bind fun _ => (hI.eval r s).bind fun _ =>
      isPlain_arithmetic.within.bind fun _ => within_writeTarget.bind fun _ => within_pure

theorem update {e : Expr} {op : UpdateOp} {yieldsNew : Bool} :
    Within s (I.update op e yieldsNew span s) := by
  refine hI.target.bind fun place => within_readTarget.bind fun current => ?_
  split
  · exact within_writeTarget.bind fun _ => within_pure
  · exact within_failWith

theorem progression {r : RangeParts} {size : Option Nat} : Within s (I.progression r size s) := by
  unfold Interp.progression
  extract_lets bound place
  have hbound {e : Expr} {what : Text} : Within s (bound e what) :=
    (hI.eval e s).bind fun _ => within_readHeap
  refine hbound.bind fun start => hbound.bind fun stop => ?_
  extract_lets k
  have hk : ∀ step, Within s (k step) := by
    intro step
    unfold k
    split <;> simp
  split
  · exact within_pure.bind hk
  · exact (hI.eval _ s).bind fun _ => within_readHeap.bind fun _ => within_pure.bind hk

theorem sliceBy {r : RangeParts} : Within s (I.sliceBy v r s) :=
  .ite (fun _ => within_failWith) fun _ => within_heap.bind fun _ => hI.progression.bind fun _ =>
    isPlain_picked.within.bind fun _ => isPlain_gathered.within

/-- A block runs in a frame of its own. -/
theorem block {b : Block} {frame : Nat} : Within s (I.block b frame) :=
  within_childFrame fun inner => hI.exec b.statements inner

theorem forRound {indexName : Option Text} {valueName : Text} {body : Block} {frame : Nat}
    {i item : Value} : Within s (I.forRound indexName valueName body frame i item) := by
  refine within_childFrame fun inner => ?_
  have hk : Within inner (do
      Eval.define inner (some valueName) item false none
      round (I.exec body.statements inner)) :=
    within_define.bind fun _ => within_round (hI.exec body.statements inner)
  split
  · exact within_define.bind fun _ => hk
  · exact hk

theorem forIn {indexName : Option Text} {valueName : Text} {iterable : Expr} {body : Block} :
    Within s (I.forIn indexName valueName iterable body s) := by
  have hturn (i item : Value) : Within s (I.forRound indexName valueName body s i item) := hI.forRound
  cases iterable with
  | range sp start stop withStart withStop step =>
    exact hI.progression.bind fun _ => within_forNumbers hturn
  | _ => exact (hI.eval _ s).bind fun _ => isPlain_elements.within.bind fun _ => within_forEach hturn _

theorem handle {name : Option Text} {handler : Block} {frame : Nat} :
    Within s (I.handle name handler frame v) := by
  refine within_childFrame fun inner => ?_
  split
  · exact within_define.bind fun _ => hI.exec handler.statements inner
  · exact hI.exec handler.statements inner

theorem guarded {body : Block} {name : Option Text} {handler : Option Block} {frame : Nat} :
    Within s (I.guarded body name handler frame) := by
  refine hI.block.attempt.bind fun outcome => ?_
  split
  · refine isPlain_caught.within.bind fun error => ?_
    split
    · exact hI.handle
    · exact within_exit
  · exact within_resume

theorem tryCatch {body : Block} {name : Option Text} {handler cleanup : Option Block} {frame : Nat} :
    Within s (I.tryCatch body name handler cleanup frame) := by
  cases cleanup with
  | none => exact hI.guarded
  | some c =>
    exact within_noted (within_withCleanup hI.guarded (within_note.bind fun _ => hI.block))

theorem armMatches {arm : MatchArm} : Within s (I.armMatches arm v s) := by
  unfold Interp.armMatches
  split
  · exact within_pure
  · exact (hI.eval _ s).bind fun _ => isPlain_equal.within
  · exact (hI.eval _ s).bind fun _ => hI.isTest
  · exact (hI.eval _ s).bind fun _ => within_readHeap

theorem arms {arms : List MatchArm} : Within s (I.arms v span s arms) := by
  induction arms with
  | nil => exact within_quotedForm.bind fun _ => within_failWith
  | cons arm rest ih => exact hI.armMatches.bind fun _ => .ite (fun _ => hI.block) fun _ => ih

theorem callExpr {callee : Expr} {args : List Expr} : Within s (I.callExpr callee args span s) := by
  cases callee with
  | member sp object name =>
    exact (hI.eval object s).bind fun _ => within_readHeap.bind fun _ => hI.evalList.bind fun _ => hI.call
  | _ => exact (hI.eval _ s).bind fun _ => hI.evalList.bind fun _ => hI.call

theorem indexExpr {object index : Expr} : Within s (I.indexExpr object index span s) := by
  refine (hI.eval object s).bind fun v => ?_
  cases index with
  | range sp start stop withStart withStop step => exact hI.sliceBy
  | _ => exact (hI.eval _ s).bind fun _ => isPlain_index.within

/-- One level of evaluation of an expression. -/
theorem expr (e : Expr) (s : Nat) : Within s (I.expr e s) := by
  cases e with
  | literal sp l => exact within_pure
  | name sp n => exact within_readHeap
  | binary sp l op r => exact (hI.eval l s).bind fun _ => (hI.eval r s).bind fun _ => hI.binary
  | logical sp l op r => exact hI.logical
  | unary sp op e => exact (hI.eval e s).bind fun _ => isPlain_unary.within
  | update sp op e yieldsNew => exact hI.update
  | assign sp l op r => exact hI.assignment
  | member sp object name => exact (hI.eval object s).bind fun _ => within_readHeap
  | index sp object i => exact hI.indexExpr
  | call sp callee args => exact hI.callExpr
  | array sp es => exact hI.evalList.bind fun _ => within_newArray
  | object sp es => exact hI.entries.bind fun _ => isPlain_newObject.within
  | range sp start stop withStart withStop step =>
    exact hI.progression.bind fun _ => within_newArray
  | block b => exact hI.block
  | ifElse sp test thenBranch elseBranch =>
    refine hI.condition.bind fun _ => .ite (fun _ => hI.block) fun _ => ?_
    cases elseBranch with
    | none => exact within_pure
    | some e => exact hI.eval e s
  | ternary sp test a b =>
    exact hI.condition.bind fun _ => .ite (fun _ => hI.eval a s) fun _ => hI.eval b s
  | whileLoop sp test body negate =>
    exact within_rounds (hI.condition.bind fun _ => within_pure) hI.block _
  | loop sp body => exact within_rounds within_pure hI.block _
  | forIn sp indexName valueName iterable body => exact hI.forIn
  | tryCatch sp body name handler cleanup => exact hI.tryCatch
  | matchOn sp subject arms => exact (hI.eval subject s).bind fun _ => hI.arms
  | function f => exact within_function

/-! ## Modules -/

theorem runProgram {p : Program} : Within s (I.runProgram p s) := by
  refine within_recordFile.bind fun _ => (hI.exec p.statements s).attempt.bind fun outcome => ?_
  unfold programResult
  split <;> simp

theorem runModule {p : Path} : Within s (I.runModule p) := by
  refine within_get.bind fun m => ?_
  split
  · exact within_crash
  · exact isPlain_parse.within.bind fun _ => within_newFrame ⟨rfl, rfl, rfl⟩ fun _ =>
      hI.runProgram.bind fun _ => within_pure

end Confined

variable {path : Text} {importer : Option Text} {place : Option Span}

namespace Confined

variable (hI : I.Confined)

include hI

/-- A load is within any frame: the module has a frame of its own. -/
theorem loadModule : Within s (I.loadModule path importer place) := by
  intro m
  cases hp : m.settings.resolve path importer with
  | error e =>
    obtain ⟨e, he⟩ := resolveModule_of_error place hp
    rw [Interp.loadModule, after_bind_of_error he]
    exact .refl
  | ok p =>
    have hload := loadModule_loadsTo I place hp
    have hevaluated := hI.runModule (s := s) (p := p) (m.entering p)
    rw [Eval.after]
    generalize I.loadModule path importer place m = r at hload
    cases hload with
    | known h => exact .reuse h
    | cyclic => exact .refl
    | evaluated hfirst hidle h =>
      rw [after_of_ok h] at hevaluated
      exact .load hfirst hidle hevaluated
    | abandoned hfirst hidle h =>
      rw [after_of_error h] at hevaluated
      exact .abandon hfirst hidle hevaluated

end Confined

/-! ## Statements -/

theorem within_destructure {d : VarDecl} {items : List Value} : Within s (destructure d items s) :=
  within_forM fun _ _ => within_define

theorem within_declareEnum {d : EnumDecl} : Within s (declareEnum d s) :=
  isPlain_freshTag.within.bind fun _ => isPlain_freshVariants.within.bind fun _ =>
    .bind (within_modify (fun _ => rfl) (fun _ => rfl) (fun _ => rfl) (fun _ => rfl) fun _ => .of_eq rfl rfl rfl)
      fun _ => isPlain_newObject.within.bind fun _ => within_define.bind fun _ => within_pure

theorem within_importName {moduleFrame : Nat} {n : ExchangedName} :
    Within s (importName path moduleFrame s n) := by
  refine within_heap.bind fun h => ?_
  split
  · exact within_define
  · exact isPlain_notExported.within

namespace Confined

variable (hI : I.Confined)

include hI

theorem declareVariables {d : VarDecl} : Within s (I.declareVariables d s) := by
  unfold Interp.declareVariables
  extract_lets k
  have hk : ∀ v, Within s (k v) := by
    intro v
    unfold k
    split
    · exact within_define.bind fun _ => within_pure
    · exact isPlain_arrayItems.within.bind fun _ => within_destructure.bind fun _ => within_pure
    · exact within_failWith.bind fun _ => within_pure
  split
  · exact (hI.eval _ s).bind hk
  · exact within_pure.bind hk

theorem importNames {i : Import} : Within s (I.importNames i s) := by
  refine within_heap.bind fun h => hI.loadModule.bind fun moduleFrame => ?_
  refine .ite (fun _ => within_heap.bind fun _ => ?_) fun _ => ?_
  · exact (within_forM fun _ _ => within_define).bind fun _ => within_pure
  · exact (within_forM fun _ _ => within_importName).bind fun _ => within_pure

theorem declare {d : Declaration} : Within s (I.declare d s) := by
  cases d with
  | bindings d => exact hI.declareVariables
  | enum d => exact within_declareEnum
  | function f => exact within_function

/-- One statement. The names that a declaration offers are offered under no other name. -/
theorem stmt (st : Stmt) (s : Nat) : Within s (I.stmt st s) := by
  cases st with
  | expression sp e => exact hI.eval e s
  | bindings d => exact hI.declareVariables
  | returnValue sp e => exact hI.optional.bind fun _ => within_exit
  | breakLoop sp => exact within_exit
  | continueLoop sp => exact within_exit
  | throwValue sp e => exact (hI.eval e s).bind fun _ => within_exit
  | enum d => exact within_declareEnum
  | importNames i => exact hI.importNames
  | exportDeclared sp d =>
    exact hI.declare.bind fun _ =>
      (within_forM fun _ _ => within_declareExport fun _ => rfl).bind fun _ => within_pure
  | exportNames sp names =>
    refine .bind (within_forM fun n _ => within_declareExport fun h => ?_) fun _ => within_pure
    cases h

theorem stmts (ss : List Stmt) (s : Nat) : Within s (I.stmts s ss) := by
  induction ss with
  | nil => exact within_pure
  | cons st rest ih =>
    cases rest with
    | nil => exact hI.stmt st s
    | cons t rest => exact (hI.stmt st s).bind fun _ => ih

end Confined

/-! ## Calls -/

variable {c : Closure} {args : List Value}

theorem within_deeper {depth : Nat} {x : Eval Value} (hx : Within s x) :
    Within s (Eval.deeper depth x) := by
  have hdepth (d : Nat) : Within s (modify fun m : Machine => { m with depth := d } : Eval Unit) :=
    within_modify (fun _ => rfl) (fun _ => rfl) (fun _ => rfl) (fun _ => rfl) fun _ => .of_eq rfl rfl rfl
  exact (hdepth _).bind fun _ => hx.attempt.bind fun _ => (hdepth _).bind fun _ => within_pure

theorem within_asThread {x : Text → Eval Unit} (hx : ∀ name, Within s (x name)) :
    Within s (Native.asThread x) := by
  refine within_get.bind fun m => .bind (within_modify (fun _ => rfl) (fun _ => rfl) (fun _ => rfl)
    (fun _ => rfl) fun _ => .of_eq rfl rfl rfl) fun _ => within_get.bind fun _ => ?_
  refine (hx _).attempt.bind fun outcome => .bind (within_modify (fun _ => rfl) (fun _ => rfl) (fun _ => rfl)
    (fun _ => rfl) fun _ => .of_eq rfl rfl rfl) fun _ => ?_
  split <;> simp

theorem within_logged {what : Text → Text} {x : Eval Value} (hx : Within s x) :
    Within s (Native.logged what x) := by
  refine hx.attempt.bind fun outcome => ?_
  split
  · exact within_pure
  · exact isPlain_display.within.bind fun _ => isPlain_logError.within
  · exact isPlain_logError.within
  · exact within_exit

theorem within_bindParameters : Within s (bindParameters c s args place) := by
  unfold bindParameters
  split
  · exact within_failWith
  · refine within_forM fun ⟨name, argument⟩ _ => ?_
    cases argument with
    | one v => exact within_pure.bind fun _ => within_define
    | rest vs => exact within_newArray.bind fun _ => within_define

theorem within_bodyResult {outcome : Except Exit Value} : Within s (bodyResult c place outcome) := by
  unfold bodyResult
  split <;> simp

namespace Confined

variable (hI : I.Confined)

include hI

theorem emit {id : Nat} {event : Text} : Within s (Native.emit I id event args) :=
  within_get.bind fun _ => (within_forM fun _ _ => within_logged hI.call).bind fun _ => within_pure

theorem pump {id : Nat} (rounds : Nat) : Within s (Native.pump I id rounds) := by
  induction rounds with
  | zero => exact within_pure
  | succ n ih =>
    refine isPlain_receive.within.attempt.bind fun outcome => ?_
    split
    · exact isPlain_bufferValue.within.bind fun _ => hI.emit.bind fun _ => ih
    · exact hI.emit.bind fun _ => within_pure

theorem spawn : Within s (Native.spawn I place v) :=
  .ite (fun _ => (within_asThread fun _ => within_logged hI.call).bind fun _ => within_pure)
    fun _ => isPlain_reject.within

theorem listenStream : Within s (Native.listenStream I place) := by
  refine within_get_bind fun m => ?_
  extract_lets stream
  split
  · exact isPlain_reject.within m
  · have hthread : Within s (Native.asThread (fun _ => Native.pump I stream.emitter (Native.pumpRounds stream)) >>=
        fun _ => pure Value.null) :=
      (within_asThread fun _ => hI.pump _).bind fun _ => within_pure
    have hsame : m.SameCode { m with stream := { m.stream with listening := true } } :=
      .of_heap_eq rfl rfl rfl rfl
    exact .trans (.still hsame.follows rfl (.listening m)) (hthread _)

theorem nativeRun {n : Native} : Within s (n.run I args place) := by
  obtain ⟨-, hp⟩ | ⟨rfl, f, xs, rfl⟩ | ⟨rfl, f, rfl⟩ | rfl := n.run_cases I I args place
  · exact hp.within
  · exact isPlain_itemsOf.within.bind fun _ => hI.call
  · exact hI.spawn
  · exact hI.listenStream

theorem nativeCall {n : Native} : Within s (n.call I args place) := by
  refine .ite (fun _ => isPlain_wrongArity.within) fun _ => hI.nativeRun.attempt.bind fun outcome => ?_
  split
  · exact within_fail
  · exact .ite (fun _ => isPlain_reject.within) fun _ => within_exit
  · exact within_resume

theorem checkParameter {p : Parameter} : Within s (I.checkParameter c s place p) := by
  unfold Interp.checkParameter
  split
  · exact within_pure
  · refine (hI.eval _ s).bind fun _ => hI.evalList.bind fun _ => within_readHeap.bind fun _ =>
      hI.call.bind fun result => ?_
    split <;> simp

theorem checkClause {clause : Expr} : Within s (I.checkClause c s place clause) := by
  refine (hI.eval clause s).bind fun result => ?_
  split <;> simp

theorem checkConstraints : Within s (I.checkConstraints c s place) :=
  (within_forM fun _ _ => hI.checkParameter).bind fun _ => within_forM fun _ _ => hI.checkClause

/-- A call runs in a frame of its own, from the binding of the parameters on. -/
theorem callClosure : Within s (I.callClosure c args place) := by
  refine within_get.bind fun m => .ite (fun _ => within_failWith) fun _ =>
    within_childFrame fun frame => ?_
  exact within_bindParameters.bind fun _ => hI.checkConstraints.bind fun _ =>
    (within_deeper (hI.exec c.definition.body.statements frame)).bind fun _ =>
      within_bodyResult.bind fun _ => isPlain_checkPredicate.within

theorem apply {f : Value} : Within s (I.apply f args place) := by
  unfold Interp.apply
  split
  · refine within_heap.bind fun h => ?_
    split
    · exact hI.callClosure
    · exact within_pure
  · exact hI.nativeCall
  · exact isPlain_construct.within
  · exact within_failWith

end Confined

/-! ## Levels -/

/-- The interpreter of every level is confined. -/
theorem confined_ofLevel (n : Nat) : (ofLevel n).Confined := by
  induction n with
  | zero => exact ⟨fun _ _ => within_exit, fun _ _ => within_exit, within_exit⟩
  | succ n ih => exact ⟨ih.expr, fun ss s => ih.stmts ss s, ih.apply⟩

theorem confined_session : session.Confined := confined_ofLevel sessionLevel

end Interp

end ScriptEngine

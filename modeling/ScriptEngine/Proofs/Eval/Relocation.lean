import ScriptEngine.Eval.Statement
import ScriptEngine.Proofs.Eval.Calling
import ScriptEngine.Proofs.Eval.Shifting

/-!
# Further frames make no difference

Each construct does among further frames what it does without them, in the frame at the place where its own has
moved to, given that its parts do so (`Interp.Relocates`). It may be given more fuel there, and more calls may be
active.

* `Relocates.expr`, `Relocates.stmts`: one level of evaluation of an expression and of statements.
* `Relocates.apply`: a call, which is refused at the same time without and with the further active calls.
* **Closed machines** (`Machine.Closed`): what refers to a frame refers to one that is there, so that frames are put
  behind the others without a change of them (`Machine.Closed.shifted`).
-/

namespace ScriptEngine

/-- A call of a value is allowed, also if `k` more calls were active. -/
def Machine.Spares (m : Machine) (k : Nat) (f : Value) : Prop :=
  f.kind = .function → m.depth + k < m.settings.callLimit.count

instance {m : Machine} {k : Nat} {f : Value} : Decidable (m.Spares k f) := inferInstanceAs (Decidable (_ → _))

namespace Interp

open Eval

/-- An interpreter runs out of fuel, or another one does the same among further frames, in the frames at the places
where they have moved to. -/
structure Relocates (I J : Interp) (s : Shift) : Prop where
  fuel : I.fuel ≤ J.fuel
  eval : ∀ e i, Shifts s id (I.eval e i) (J.eval e (s.place i))
  exec : ∀ ss i, Shifts s id (I.exec ss i) (J.exec ss (s.place i))
  call : ∀ {f args span}, Shifts s id (I.call f args span) (J.call f args span)

/-- A target with the place that its frame moves to. -/
def Target.shifted (s : Shift) : Target → Target
  | .name frame n span => .name (s.place frame) n span
  | t => t

variable {I J : Interp} {s : Shift} {i : Nat} {v w : Value} {span : Span}

/-! ## Constructs that are given their parts -/

theorem shifts_readTarget {t : Target} : Shifts s id t.read (t.shifted s).read := by
  cases t with
  | name frame n span => exact shifts_lookup
  | member object n span => exact (isPlain_readHeap fun _ _ => rfl).shifts
  | index object i span => exact isPlain_index.shifts

theorem shifts_writeTarget {t : Target} : Shifts s id (t.write v) ((t.shifted s).write v) := by
  cases t with
  | name frame n span => exact shifts_assign
  | member object n span => exact isPlain_setAt.shifts
  | index object i span => exact isPlain_setAt.shifts

theorem shifts_round {x y : Eval Value} (hx : Shifts s id x y) : Shifts s id (round x) (round y) := by
  refine hx.attemptBind (fun outcome => ?_) runsOut_exit
  split <;> simp

theorem shifts_rounds {test test' : Eval Bool} {x y : Eval Value} (htest : Shifts s id test test')
    (hx : Shifts s id x y) {n k : Nat} (hn : n ≤ k) : Shifts s id (rounds test x n) (rounds test' y k) := by
  induction n generalizing k with
  | zero => exact runsOut_exit.shifts
  | succ n ih =>
    obtain ⟨k, rfl⟩ : ∃ k', k = k' + 1 := ⟨k - 1, by omega⟩
    have hrest := ih (Nat.le_of_succ_le_succ hn)
    exact htest.bind fun _ => .ite .rfl ((shifts_round hx).bind fun _ => .ite .rfl hrest shifts_value) shifts_value

section

variable {turn turn' : Value → Value → Eval Bool}

theorem shifts_forEach (hturn : ∀ i item, Shifts s id (turn i item) (turn' i item)) (items : List (Value × Value)) :
    Shifts s id (forEach turn items) (forEach turn' items) := by
  induction items with
  | nil => exact shifts_value
  | cons p rest ih => exact (hturn _ _).bind fun _ => .ite .rfl ih shifts_value

theorem shifts_forNumbers (hturn : ∀ i item, Shifts s id (turn i item) (turn' i item)) {p : Progression}
    {i left : Nat} : Shifts s id (forNumbers turn p i left) (forNumbers turn' p i left) := by
  induction left generalizing i with
  | zero => exact shifts_value
  | succ n ih => exact (hturn _ _).bind fun _ => .ite .rfl ih shifts_value

end

/-- A cleanup runs also after an action that ran out of fuel, and that stays the exit. -/
theorem shifts_withCleanup {x y cleanup cleanup' : Eval Value} (hx : Shifts s id x y)
    (hc : Shifts s id cleanup cleanup') : Shifts s id (withCleanup x cleanup) (withCleanup y cleanup') := by
  have hattempt (m : Machine) : ∃ r m', attempt cleanup m = .ok r m' := by
    unfold attempt
    cases cleanup m <;> exact ⟨_, _, rfl⟩
  have hout : RunsOut (attempt cleanup >>= fun _ => exit .exhausted : Eval Value) :=
    .after hattempt fun _ => runsOut_exit
  refine hx.attemptBind (fun outcome => ?_) hout
  split
  · exact hout.shifts
  · exact hc.bind fun _ => shifts_resume

theorem shifts_noted {c : Block} {x y : Eval Value} (hx : Shifts s id x y) : Shifts s id (noted c x) (noted c y) :=
  shifts_between s (fun _ => ⟨rfl, id⟩) (fun _ => ⟨rfl, id⟩) hx
    (fun r => by rw [Except.map_id, id_eq]; exact shifts_resume)
    runsOut_exit

theorem shifts_function {f : FunctionDef} : Shifts s id (function f i) (function f (s.place i)) := by
  refine (shifts_reading fun _ hh => Heap.checkPure_shifted hh).bind fun _ => shifts_newClosure.bind fun v => ?_
  split
  · exact shifts_define.bind fun _ => shifts_value
  · exact shifts_value

/-! ## Expressions -/

namespace Relocates

variable (hI : I.Relocates J s)

include hI

theorem evalList {es : List Expr} : Shifts s id (I.evalList i es) (J.evalList (s.place i) es) := by
  induction es with
  | nil => exact shifts_value
  | cons e es ih => exact (hI.eval e i).bind fun _ => ih.bind fun _ => shifts_value

theorem entries {es : List ObjectEntry} : Shifts s id (I.entries i es) (J.entries (s.place i) es) := by
  induction es with
  | nil => exact shifts_value
  | cons e es ih => exact (hI.eval e.value i).bind fun _ => ih.bind fun _ => shifts_value

theorem optional {e : Option Expr} : Shifts s id (I.optional e i) (J.optional e (s.place i)) := by
  cases e with
  | none => exact shifts_value
  | some e => exact hI.eval e i

theorem condition {e : Expr} {construct : Text} :
    Shifts s id (I.condition e i construct) (J.condition e (s.place i) construct) := by
  refine (hI.eval e i).bind fun v => ?_
  split <;> simp

theorem isTest : Shifts s id (I.isTest v w span) (J.isTest v w span) := by
  unfold Interp.isTest
  split
  · exact shifts_value
  · exact shifts_value
  · refine .ite .rfl (hI.call.bind fun result => ?_) isPlain_equal.shifts
    split <;> simp

theorem binary {op : BinaryOp} : Shifts s id (I.binary op v w span) (J.binary op v w span) := by
  cases op with
  | arith op => exact isPlain_arithmetic.shifts
  | compare op => exact (shifts_reading fun _ _ => Heap.comparison_shifted).bind fun _ => shifts_value
  | within => exact (shifts_reading fun _ _ => Heap.membership_shifted).bind fun _ => shifts_value
  | isVariant => exact hI.isTest.bind fun _ => shifts_value

theorem logicalOperand {op : LogicalOp} {side : Text} {e : Expr} :
    Shifts s id (I.logicalOperand op side e i) (J.logicalOperand op side e (s.place i)) := by
  refine (hI.eval e i).bind fun v => ?_
  split <;> simp

theorem logical {l r : Expr} {op : LogicalOp} : Shifts s id (I.logical l op r i) (J.logical l op r (s.place i)) :=
  hI.logicalOperand.bind fun _ => .ite .rfl shifts_value (hI.logicalOperand.bind fun _ => shifts_value)

theorem target {e : Expr} : Shifts s (Target.shifted s) (I.target e i) (J.target e (s.place i)) := by
  cases e with
  | name span n => exact shifts_pure
  | member span object n => exact (hI.eval object i).bind fun _ => shifts_pure
  | index span object j => exact (hI.eval object i).bind fun _ => (hI.eval j i).bind fun _ => shifts_pure
  | _ => exact shifts_failWith

theorem assignment {l r : Expr} {op : AssignOp} :
    Shifts s id (I.assignment l op r span i) (J.assignment l op r span (s.place i)) := by
  refine shifts_bind hI.target fun place => ?_
  split
  · exact (hI.eval r i).bind fun _ => shifts_writeTarget.bind fun _ => shifts_value
  · exact shifts_readTarget.bind fun _ => (hI.eval r i).bind fun _ =>
      isPlain_arithmetic.shifts.bind fun _ => shifts_writeTarget.bind fun _ => shifts_value

theorem update {e : Expr} {op : UpdateOp} {yieldsNew : Bool} :
    Shifts s id (I.update op e yieldsNew span i) (J.update op e yieldsNew span (s.place i)) := by
  refine shifts_bind hI.target fun place => shifts_readTarget.bind fun current => ?_
  split
  · exact shifts_writeTarget.bind fun _ => shifts_value
  · exact shifts_failWith

theorem progression {r : RangeParts} {size : Option Nat} :
    Shifts s id (I.progression r size i) (J.progression r size (s.place i)) := by
  unfold Interp.progression
  extract_lets bound place bound'
  have hbound {e : Expr} {what : Text} : Shifts s id (bound e what) (bound' e what) :=
    (hI.eval e i).bind fun _ => shifts_reading fun _ _ => rfl
  refine hbound.bind fun start => hbound.bind fun stop => ?_
  extract_lets k
  have hk : ∀ step, Shifts s id (k step) (k step) := by
    intro step
    unfold k
    split <;> simp
  split
  · exact shifts_value.bind hk
  · exact (hI.eval _ i).bind fun _ => (isPlain_readHeap fun _ _ => rfl).shifts.bind fun _ => shifts_value.bind hk

theorem rangeArray {r : RangeParts} : Shifts s id (I.rangeArray r i) (J.rangeArray r (s.place i)) :=
  hI.progression.bind fun _ => isPlain_newArray.shifts

theorem sliceBy {r : RangeParts} : Shifts s id (I.sliceBy v r i) (J.sliceBy v r (s.place i)) :=
  .ite .rfl shifts_failWith (shifts_heap_bind fun _ _ => hI.progression.bind fun _ =>
    isPlain_picked.shifts.bind fun _ => isPlain_gathered.shifts)

/-- A block runs in a frame of its own. -/
theorem block {b : Block} : Shifts s id (I.block b i) (J.block b (s.place i)) :=
  shifts_childFrame.bindFrame fun inner => hI.exec b.statements inner

theorem forRound {indexName : Option Text} {valueName : Text} {body : Block} {index item : Value} :
    Shifts s id (I.forRound indexName valueName body i index item)
      (J.forRound indexName valueName body (s.place i) index item) := by
  refine shifts_childFrame.bindFrame fun inner => ?_
  have hk : Shifts s id (do
      Eval.define inner (some valueName) item false none
      round (I.exec body.statements inner)) (do
      Eval.define (s.place inner) (some valueName) item false none
      round (J.exec body.statements (s.place inner))) :=
    shifts_define.bind fun _ => shifts_round (hI.exec body.statements inner)
  split
  · exact shifts_define.bind fun _ => hk
  · exact hk

theorem forIn {indexName : Option Text} {valueName : Text} {iterable : Expr} {body : Block} :
    Shifts s id (I.forIn indexName valueName iterable body i)
      (J.forIn indexName valueName iterable body (s.place i)) := by
  cases iterable with
  | range sp start stop withStart withStop step =>
    exact hI.progression.bind fun _ => shifts_forNumbers fun _ _ => hI.forRound
  | _ =>
    exact (hI.eval _ i).bind fun _ => isPlain_elements.shifts.bind fun _ =>
      shifts_forEach (fun _ _ => hI.forRound) _

theorem handle {name : Option Text} {handler : Block} :
    Shifts s id (I.handle name handler i v) (J.handle name handler (s.place i) v) := by
  refine shifts_childFrame.bindFrame fun inner => ?_
  split
  · exact shifts_define.bind fun _ => hI.exec handler.statements inner
  · exact hI.exec handler.statements inner

/-- Having run out of fuel is no exit that a handler receives. -/
theorem guarded {body : Block} {name : Option Text} {handler : Option Block} :
    Shifts s id (I.guarded body name handler i) (J.guarded body name handler (s.place i)) := by
  refine hI.block.attemptBind (fun outcome => ?_) ?_
  · split
    · refine isPlain_caught.shifts.bind fun error => ?_
      split
      · exact hI.handle
      · exact shifts_exit
    · exact shifts_resume
  · cases handler with
    | none => exact runsOut_exit
    | some handler => exact fun m => ⟨m, rfl⟩

theorem tryCatch {body : Block} {name : Option Text} {handler cleanup : Option Block} :
    Shifts s id (I.tryCatch body name handler cleanup i) (J.tryCatch body name handler cleanup (s.place i)) := by
  cases cleanup with
  | none => exact hI.guarded
  | some c => exact shifts_noted (shifts_withCleanup hI.guarded (shifts_note.bind fun _ => hI.block))

theorem armMatches {arm : MatchArm} : Shifts s id (I.armMatches arm v i) (J.armMatches arm v (s.place i)) := by
  unfold Interp.armMatches
  split
  · exact shifts_value
  · exact (hI.eval _ i).bind fun _ => isPlain_equal.shifts
  · exact (hI.eval _ i).bind fun _ => hI.isTest
  · exact (hI.eval _ i).bind fun _ => shifts_reading fun _ _ => Heap.comparison_shifted

theorem arms {arms : List MatchArm} : Shifts s id (I.arms v span i arms) (J.arms v span (s.place i) arms) := by
  induction arms with
  | nil => exact isPlain_quotedForm.shifts.bind fun _ => shifts_failWith
  | cons arm rest ih => exact hI.armMatches.bind fun _ => .ite .rfl hI.block ih

theorem callExpr {callee : Expr} {args : List Expr} :
    Shifts s id (I.callExpr callee args span i) (J.callExpr callee args span (s.place i)) := by
  cases callee with
  | member sp object name =>
    exact (hI.eval object i).bind fun _ => (isPlain_readHeap fun _ _ => rfl).shifts.bind fun _ =>
      hI.evalList.bind fun _ => hI.call
  | _ => exact (hI.eval _ i).bind fun _ => hI.evalList.bind fun _ => hI.call

theorem indexExpr {object index : Expr} :
    Shifts s id (I.indexExpr object index span i) (J.indexExpr object index span (s.place i)) := by
  refine (hI.eval object i).bind fun v => ?_
  cases index with
  | range sp start stop withStart withStop step => exact hI.sliceBy
  | _ => exact (hI.eval _ i).bind fun _ => isPlain_index.shifts

/-- One level of evaluation of an expression. -/
theorem expr (e : Expr) (i : Nat) : Shifts s id (I.expr e i) (J.expr e (s.place i)) := by
  cases e with
  | literal sp l => exact shifts_value
  | name sp n => exact shifts_lookup
  | binary sp l op r => exact (hI.eval l i).bind fun _ => (hI.eval r i).bind fun _ => hI.binary
  | logical sp l op r => exact hI.logical
  | unary sp op e => exact (hI.eval e i).bind fun _ => isPlain_unary.shifts
  | update sp op e yieldsNew => exact hI.update
  | assign sp l op r => exact hI.assignment
  | member sp object name => exact (hI.eval object i).bind fun _ => shifts_reading fun _ _ => rfl
  | index sp object j => exact hI.indexExpr
  | call sp callee args => exact hI.callExpr
  | array sp es => exact hI.evalList.bind fun _ => isPlain_newArray.shifts
  | object sp es => exact hI.entries.bind fun _ => isPlain_newObject.shifts
  | range sp start stop withStart withStop step => exact hI.rangeArray
  | block b => exact hI.block
  | ifElse sp test thenBranch elseBranch =>
    refine hI.condition.bind fun _ => .ite .rfl hI.block ?_
    cases elseBranch with
    | none => exact shifts_value
    | some e => exact hI.eval e i
  | ternary sp test a b => exact hI.condition.bind fun _ => .ite .rfl (hI.eval a i) (hI.eval b i)
  | whileLoop sp test body negate =>
    exact shifts_rounds (hI.condition.bind fun _ => shifts_value) hI.block hI.fuel
  | loop sp body => exact shifts_rounds shifts_value hI.block hI.fuel
  | forIn sp indexName valueName iterable body => exact hI.forIn
  | tryCatch sp body name handler cleanup => exact hI.tryCatch
  | matchOn sp subject arms => exact (hI.eval subject i).bind fun _ => hI.arms
  | function f => exact shifts_function

/-! ## Modules -/

theorem runProgram {p : Program} : Shifts s id (I.runProgram p i) (J.runProgram p (s.place i)) := by
  refine shifts_recordFile.bind fun _ => (hI.exec p.statements i).attemptBind (fun outcome => ?_) runsOut_exit
  unfold programResult
  split
  · exact shifts_value
  · exact isPlain_quotedForm.shifts.bind fun _ => shifts_exit
  · exact shifts_failWith
  · exact shifts_failWith
  · exact shifts_resume

theorem runModule {p : Path} : Shifts s s.place (I.runModule p) (J.runModule p) := by
  refine shifts_get_bind fun m _ => ?_
  have hfiles : (m.shifted s).settings.files.read? p = m.settings.files.read? p := rfl
  rw [hfiles]
  split
  · exact shifts_crash
  · refine isPlain_parse.shifts.bind fun _ => shifts_newFrame.bindFrame fun inner => ?_
    exact hI.runProgram.bind fun _ => shifts_pure

end Relocates

variable {path : Text} {importer : Option Text} {place : Option Span}

theorem shifts_noting {p : Path} {f : Nat} {evaluated : Bool} :
    Shifts s id (modify fun m => { m with modules := m.modules.noted ⟨p, f, evaluated⟩ })
      (modify fun m => { m with modules := m.modules.noted ⟨p, s.place f, evaluated⟩ }) :=
  shifts_modify fun _ hm => ⟨rfl, hm⟩

theorem shifts_keeping {p : Path} {f : Nat} :
    Shifts s id (modify fun m => { m with modules := m.modules.keeping p f })
      (modify fun m => { m with modules := m.modules.keeping p (s.place f) }) :=
  shifts_modify fun m hm => by
    have hkeeping : (m.modules.shifted s).keeping p (s.place f) = (m.modules.keeping p f).shifted s := by
      simp only [Modules.keeping, Modules.shifted, OrderedMap.mapValues_insert]
    refine ⟨?_, hm⟩
    show { m.shifted s with modules := (m.modules.shifted s).keeping p (s.place f) } = _
    rw [hkeeping]
    rfl

theorem shifts_whileLoading {p : Path} {x y : Eval Nat} (hx : Shifts s s.place x y) :
    Shifts s s.place (whileLoading p x) (whileLoading p y) :=
  shifts_between s (fun _ => ⟨rfl, id⟩) (fun _ => ⟨rfl, id⟩) hx (fun _ => shifts_resumeWith) runsOut_exit

namespace Relocates

variable (hI : I.Relocates J s)

include hI

theorem evaluateModule {p : Path} : Shifts s s.place (I.evaluateModule p) (J.evaluateModule p) :=
  hI.runModule.bindFrame fun _ => shifts_noting.bind fun _ => shifts_pure

theorem loadModule : Shifts s s.place (I.loadModule path importer place) (J.loadModule path importer place) := by
  refine isPlain_resolveModule.shifts.bind fun p => shifts_get_bind fun m _ => ?_
  extract_lets modules modules'
  have hloaded : modules'.loaded.get? p = (modules.loaded.get? p).map s.place := modules.loaded.get?_mapValues ..
  rw [hloaded]
  cases modules.loaded.get? p with
  | some frame => exact shifts_noting.bind fun _ => shifts_pure
  | none =>
    refine .ite .rfl shifts_failWith (shifts_whileLoading ?_)
    exact hI.evaluateModule.bindFrame fun frame => shifts_keeping.bind fun _ => shifts_pure

end Relocates

/-! ## Statements -/

theorem shifts_destructure {d : VarDecl} {items : List Value} :
    Shifts s id (destructure d items i) (destructure d items (s.place i)) :=
  shifts_forM fun _ _ => shifts_define

theorem shifts_declareEnum {d : EnumDecl} : Shifts s id (declareEnum d i) (declareEnum d (s.place i)) :=
  isPlain_freshTag.shifts.bind fun _ => isPlain_freshVariants.shifts.bind fun _ =>
    (shifts_change (by intro; rfl) (by intro; rfl)).bind fun _ => isPlain_newObject.shifts.bind fun _ =>
      shifts_define.bind fun _ => shifts_value

theorem shifts_importName {moduleFrame : Nat} {n : ExchangedName} :
    Shifts s id (importName path moduleFrame i n) (importName path (s.place moduleFrame) (s.place i) n) := by
  refine shifts_heap_bind fun h hh => ?_
  rw [Heap.export?_shifted hh, Heap.exportedNames_shifted hh]
  split
  · exact shifts_define
  · exact isPlain_notExported.shifts

namespace Relocates

variable (hI : I.Relocates J s)

include hI

theorem declareVariables {d : VarDecl} :
    Shifts s id (I.declareVariables d i) (J.declareVariables d (s.place i)) := by
  unfold Interp.declareVariables
  extract_lets k k'
  have hk : ∀ v, Shifts s id (k v) (k' v) := by
    intro v
    unfold k k'
    split
    · exact shifts_define.bind fun _ => shifts_value
    · exact isPlain_arrayItems.shifts.bind fun _ => shifts_destructure.bind fun _ => shifts_value
    · exact shifts_failWith.bind fun _ => shifts_value
  split
  · exact (hI.eval _ i).bind hk
  · exact shifts_value.bind hk

theorem importNames {d : Import} : Shifts s id (I.importNames d i) (J.importNames d (s.place i)) := by
  refine shifts_heap_bind fun h hh => ?_
  rw [Heap.moduleFile?_shifted hh]
  refine hI.loadModule.bindFrame fun moduleFrame => .ite .rfl (shifts_heap_bind fun h hh => ?_) ?_
  · rw [Heap.exportedNames_shifted hh]
    refine (shifts_forM fun name _ => ?_).bind fun _ => shifts_value
    rw [Heap.export?_shifted hh]
    exact shifts_define
  · exact (shifts_forM fun _ _ => shifts_importName).bind fun _ => shifts_value

theorem declare {d : Declaration} : Shifts s id (I.declare d i) (J.declare d (s.place i)) := by
  cases d with
  | bindings d => exact hI.declareVariables
  | enum d => exact shifts_declareEnum
  | function f => exact shifts_function

theorem stmt (st : Stmt) (i : Nat) : Shifts s id (I.stmt st i) (J.stmt st (s.place i)) := by
  cases st with
  | expression sp e => exact hI.eval e i
  | bindings d => exact hI.declareVariables
  | returnValue sp e => exact hI.optional.bind fun _ => shifts_exit
  | breakLoop sp => exact shifts_exit
  | continueLoop sp => exact shifts_exit
  | throwValue sp e => exact (hI.eval e i).bind fun _ => shifts_exit
  | enum d => exact shifts_declareEnum
  | importNames d => exact hI.importNames
  | exportDeclared sp d =>
    exact hI.declare.bind fun _ => (shifts_forM fun _ _ => shifts_declareExport).bind fun _ => shifts_value
  | exportNames sp names => exact (shifts_forM fun _ _ => shifts_declareExport).bind fun _ => shifts_value

theorem stmts (ss : List Stmt) (i : Nat) : Shifts s id (I.stmts i ss) (J.stmts (s.place i) ss) := by
  induction ss with
  | nil => exact shifts_value
  | cons st rest ih =>
    cases rest with
    | nil => exact hI.stmt st i
    | cons t rest => exact (hI.stmt st i).bind fun _ => ih

end Relocates

/-! ## Calls -/

variable {c : Closure} {args : List Value}

theorem shifts_deeperBind {depth : Nat} {x y : Eval Value} {f f' : Except Exit Value → Eval Value}
    (hx : Shifts s id x y) (hf : ∀ r, Shifts s id (f r) (f' r)) (hout : (f (.error .exhausted)).RunsOut) :
    Shifts s id (Eval.deeper depth x >>= f) (Eval.deeper (depth + s.depth) y >>= f') := by
  have henter (m : Machine) : { m.shifted s with depth := depth + s.depth + 1 } =
      ({ m with depth := depth + 1 } : Machine).shifted s := by
    rw [Nat.add_right_comm]
    rfl
  unfold Eval.deeper
  simp only [bind_assoc, pure_bind]
  exact shifts_between s (fun m => ⟨henter m, id⟩) (fun _ => ⟨rfl, id⟩) hx
    (fun r => by rw [Except.map_id, id_eq]; exact hf r) hout

/-- A thread has a call depth of its own, also where more calls are active. -/
theorem shifts_asThread {x y : Text → Eval Unit} (hx : ∀ name, Shifts s.inThread id (x name) (y name)) :
    Shifts s id (Native.asThread x) (Native.asThread y) := by
  rw [Contract.asThread_eq, Contract.asThread_eq]
  refine shifts_get_bind fun m _ => shifts_between s.inThread (fun _ => ⟨rfl, id⟩) (fun _ => ⟨rfl, id⟩)
    (shifts_get_bind fun _ _ => hx _) (fun r => ?_) runsOut_exit
  rw [Except.map_id, id_eq]
  split
  · exact shifts_exit
  · exact shifts_value

theorem shifts_logged {what : Text → Text} {x y : Eval Value} (hx : Shifts s id x y) :
    Shifts s id (Native.logged what x) (Native.logged what y) := by
  refine hx.attemptBind (fun outcome => ?_) runsOut_exit
  split
  · exact shifts_value
  · exact isPlain_display.shifts.bind fun _ => isPlain_logError.shifts
  · exact isPlain_logError.shifts
  · exact shifts_exit

theorem shifts_bindParameters :
    Shifts s id (bindParameters c i args place) (bindParameters (c.shifted s) (s.place i) args place) := by
  unfold bindParameters
  have hdefinition : (c.shifted s).definition = c.definition := rfl
  rw [hdefinition]
  split
  · exact shifts_failWith
  · refine shifts_forM fun ⟨name, argument⟩ _ => ?_
    cases argument with
    | one v => exact shifts_value.bind fun _ => shifts_define
    | rest vs => exact isPlain_newArray.shifts.bind fun _ => shifts_define

theorem shifts_bodyResult {outcome : Except Exit Value} :
    Shifts s id (bodyResult c place outcome) (bodyResult (c.shifted s) place outcome) := by
  unfold bodyResult
  split
  · exact shifts_value
  · exact shifts_failWith
  · exact shifts_failWith
  · exact shifts_failWith
  · exact shifts_resume

namespace Relocates

variable (hI : I.Relocates J s)

include hI

theorem emit {id' : Nat} {event : Text} :
    Shifts s id (Native.emit I id' event args) (Native.emit J id' event args) :=
  shifts_get_bind fun _ _ => (shifts_forM fun _ _ => shifts_logged hI.call).bind fun _ => shifts_value

theorem pump {id' : Nat} (rounds : Nat) : Shifts s id (Native.pump I id' rounds) (Native.pump J id' rounds) := by
  induction rounds with
  | zero => exact shifts_value
  | succ n ih =>
    refine isPlain_receive.attempt.shifts.bind fun outcome => ?_
    split
    · exact isPlain_bufferValue.shifts.bind fun _ => hI.emit.bind fun _ => ih
    · exact hI.emit.bind fun _ => shifts_value

/-- Natives that start threads run what they call at a depth of its own. -/
theorem nativeRun (hthread : I.Relocates J s.inThread) {n : Native} :
    Shifts s id (n.run I args place) (n.run J args place) := by
  obtain ⟨hsame, hp⟩ | ⟨rfl, f, xs, rfl⟩ | ⟨rfl, f, rfl⟩ | rfl := n.run_cases I J args place
  · rw [hsame]
    exact hp.shifts
  · exact isPlain_itemsOf.shifts.bind fun _ => hI.call
  · exact .ite .rfl ((shifts_asThread fun _ => shifts_logged hthread.call).bind fun _ => shifts_value)
      isPlain_reject.shifts
  · exact shifts_get_bind fun _ _ => .ite .rfl isPlain_reject.shifts
      ((shifts_change (by intro; rfl) (by intro; rfl)).bind fun _ =>
        (shifts_asThread fun _ => hthread.pump _).bind fun _ => shifts_value)

theorem nativeCall (hthread : I.Relocates J s.inThread) {n : Native} :
    Shifts s id (n.call I args place) (n.call J args place) := by
  refine .ite .rfl isPlain_wrongArity.shifts ((hI.nativeRun hthread).attemptBind (fun outcome => ?_) runsOut_exit)
  split
  · exact shifts_fail
  · exact .ite .rfl isPlain_reject.shifts shifts_exit
  · exact shifts_resume

theorem checkParameter {p : Parameter} :
    Shifts s id (I.checkParameter c i place p) (J.checkParameter (c.shifted s) (s.place i) place p) := by
  unfold Interp.checkParameter
  split
  · exact shifts_value
  · refine (hI.eval _ i).bind fun _ => hI.evalList.bind fun _ => shifts_lookup.bind fun _ =>
      hI.call.bind fun result => ?_
    split
    · exact shifts_value
    · exact isPlain_quotedForm.shifts.bind fun _ => shifts_fail

theorem checkClause {clause : Expr} :
    Shifts s id (I.checkClause c i place clause) (J.checkClause (c.shifted s) (s.place i) place clause) := by
  refine (hI.eval clause i).bind fun result => ?_
  split
  · exact shifts_value
  · exact shifts_failWith
  · exact shifts_failWith

theorem checkConstraints :
    Shifts s id (I.checkConstraints c i place) (J.checkConstraints (c.shifted s) (s.place i) place) :=
  (shifts_forM fun _ _ => hI.checkParameter).bind fun _ => shifts_forM fun _ _ => hI.checkClause

/-- A function that is called among further frames is called in the frame where its own has moved to. -/
theorem callClosure {m : Machine} (hd : s.depth = 0 ∨ m.depth + s.depth < m.settings.callLimit.count)
    (hm : s.Fits m.heap) : ShiftsAt s id (I.callClosure c args place) (J.callClosure (c.shifted s) args place) m := by
  have hlimit : m.settings.callLimit.count ≤ m.depth ↔ m.settings.callLimit.count ≤ m.depth + s.depth := by omega
  refine Shifts.ite hlimit shifts_failWith (shifts_childFrame.bindFrame fun frame => ?_) m hm
  refine shifts_bindParameters.bind fun _ => hI.checkConstraints.bind fun _ =>
    shifts_deeperBind (hI.exec c.definition.body.statements frame) (fun _ => ?_) (.bind runsOut_exit)
  exact shifts_bodyResult.bind fun _ => isPlain_checkPredicate.shifts

theorem apply (hthread : I.Relocates J s.inThread) {m : Machine} {f : Value} (hd : s.depth = 0 ∨ m.Spares s.depth f)
    (hm : s.Fits m.heap) : ShiftsAt s id (I.apply f args place) (J.apply f args place) m := by
  by_cases hfunction : ∃ i, f.payload = .function i
  · obtain ⟨i, hf⟩ := hfunction
    have hd : s.depth = 0 ∨ m.depth + s.depth < m.settings.callLimit.count :=
      hd.imp_right fun h => h (by rw [Value.kind, hf]; rfl)
    have hclosure : (m.shifted s).heap.closures[i]? = m.heap.closures[i]?.map (·.shifted s) := by
      simp [Machine.shifted, Heap.shifted]
    cases hc : m.heap.closures[i]? with
    | some c =>
      rw [hc] at hclosure
      exact .congr (apply_closure hf hc) (apply_closure hf hclosure) (hI.callClosure hd hm)
    | none =>
      rw [hc] at hclosure
      exact .congr (apply_missing hf hc) (apply_missing hf hclosure) (shifts_value m hm)
  unfold Interp.apply
  split
  · next i hf => exact absurd ⟨i, hf⟩ hfunction
  · exact hI.nativeCall hthread m hm
  · exact isPlain_construct.shifts m hm
  · exact shifts_failWith m hm

end Relocates

end Interp

/-! ## Closed machines -/

/-- The frames that functions, frames and modules refer to are there. -/
structure Machine.Closed (m : Machine) : Prop where
  closure : ∀ {i : Nat} {c : Closure}, m.heap.closures[i]? = some c → c.frame < m.heap.frames.size
  parent : ∀ {i : Nat} {f : Frame} {q : Nat}, m.heap.frames[i]? = some f → f.parent = some q → q < m.heap.frames.size
  loaded : ∀ x ∈ m.modules.loaded.entries, x.2 < m.heap.frames.size
  journal : ∀ l ∈ m.modules.journal, l.frame < m.heap.frames.size
  main : m.mainFrame < m.heap.frames.size
  global : m.globalFrame < m.heap.frames.size

/-- Closed machines can be told by their lists. -/
theorem Machine.closed_iff {m : Machine} : m.Closed ↔
    (∀ c ∈ m.heap.closures.toList, c.frame < m.heap.frames.size) ∧
      (∀ f ∈ m.heap.frames.toList, ∀ q ∈ f.parent, q < m.heap.frames.size) ∧
      (∀ x ∈ m.modules.loaded.entries, x.2 < m.heap.frames.size) ∧
      (∀ l ∈ m.modules.journal, l.frame < m.heap.frames.size) ∧
      m.mainFrame < m.heap.frames.size ∧ m.globalFrame < m.heap.frames.size := by
  constructor
  · rintro ⟨hclosure, hparent, hloaded, hjournal, hmain, hglobal⟩
    refine ⟨fun c hc => ?_, fun f hf q hq => ?_, hloaded, hjournal, hmain, hglobal⟩
    · obtain ⟨i, hi⟩ := Array.mem_iff_getElem?.1 (Array.mem_toList_iff.1 hc)
      exact hclosure hi
    · obtain ⟨i, hi⟩ := Array.mem_iff_getElem?.1 (Array.mem_toList_iff.1 hf)
      exact hparent hi hq
  · rintro ⟨hclosure, hparent, hloaded, hjournal, hmain, hglobal⟩
    exact ⟨fun hc => hclosure _ (Array.mem_toList_iff.2 (Array.mem_of_getElem? hc)),
      fun hf hq => hparent _ (Array.mem_toList_iff.2 (Array.mem_of_getElem? hf)) _ hq, hloaded, hjournal, hmain,
      hglobal⟩

instance (m : Machine) : Decidable m.Closed := decidable_of_iff _ Machine.closed_iff.symm

/-- The frames that have been added are behind the others. -/
theorem Machine.Grown.eq_adding {m m' : Machine} (h : m.Grown m') (ha : m'.heap.arrays = m.heap.arrays) :
    m' = m.withHeap (m.heap.adding (m'.heap.frames.toList.drop m.heap.frames.size)) := by
  have hframes : m'.heap.frames = m.heap.frames ++ (m'.heap.frames.toList.drop m.heap.frames.size).toArray := by
    refine Array.ext_getElem? fun i => ?_
    by_cases hi : i < m.heap.frames.size
    · have hi' : i < m'.heap.frames.size := Nat.lt_of_lt_of_le hi h.frames_le
      have hframe := h.frame hi
      simp only [Heap.frame, Array.getD_eq_getD_getElem?, Array.getElem?_eq_getElem hi,
        Array.getElem?_eq_getElem hi', Option.getD_some] at hframe
      rw [Array.getElem?_append_left hi, Array.getElem?_eq_getElem hi, Array.getElem?_eq_getElem hi', hframe]
    · rw [Array.getElem?_append_right (Nat.not_lt.1 hi)]
      simp [Nat.add_sub_cancel' (Nat.not_lt.1 hi)]
  have hheap : m'.heap = m.heap.adding (m'.heap.frames.toList.drop m.heap.frames.size) := by
    rw [Heap.adding, ← hframes, ← h.objects, ← h.references, ← h.closures, ← ha]
  conv_lhs => rw [h.rest]
  rw [← hheap]

/-- Frames that are put behind those of a machine, and how many more calls are active. -/
def Shift.behind (m : Machine) (fs : List Frame) (d : Nat) : Shift := ⟨m.heap.frames.size, fs, d⟩

/-- Frames are put behind those of a closed machine without a change of the others. -/
theorem Machine.Closed.shifted {m : Machine} (hm : m.Closed) (fs : List Frame) (d : Nat) :
    m.shifted (.behind m fs d) = (m.withHeap (m.heap.adding fs)).withDepth (m.depth + d) := by
  have hplace {i : Nat} (hi : i < m.heap.frames.size) : (Shift.behind m fs d).place i = i :=
    Shift.place_of_lt hi
  have hclosures : m.heap.closures.map (·.shifted (.behind m fs d)) = m.heap.closures := by
    refine (Array.map_congr_left fun c hc => ?_).trans (Array.map_id _)
    obtain ⟨i, hi⟩ := Array.mem_iff_getElem?.1 hc
    rw [Closure.shifted, hplace (hm.closure hi)]
    rfl
  have hframes : (m.heap.frames.toList.take m.heap.frames.size).map (·.shifted (.behind m fs d)) =
      m.heap.frames.toList := by
    rw [List.take_of_length_le (by simp)]
    refine (List.map_congr_left fun f hf => ?_).trans (List.map_id _)
    obtain ⟨i, hi⟩ := List.mem_iff_getElem?.1 hf
    have hparent : f.parent.map (Shift.behind m fs d).place = f.parent := by
      cases hp : f.parent with
      | none => rfl
      | some q => exact congrArg some (hplace (hm.parent (by simpa using hi) hp))
    rw [Frame.shifted, hparent]
    rfl
  have hloaded : m.modules.loaded.entries.map (fun e => (e.1, (Shift.behind m fs d).place e.2)) =
      m.modules.loaded.entries := by
    refine (List.map_congr_left fun x hx => ?_).trans (List.map_id _)
    rw [hplace (hm.loaded x hx)]
    rfl
  have hjournal : m.modules.journal.map (fun l => { l with frame := (Shift.behind m fs d).place l.frame }) =
      m.modules.journal := by
    refine (List.map_congr_left fun l hl => ?_).trans (List.map_id _)
    rw [hplace (hm.journal l hl)]
    rfl
  have hheap : m.heap.shifted (.behind m fs d) = m.heap.adding fs := by
    have hstart : (Shift.behind m fs d).start = m.heap.frames.size := rfl
    rw [Heap.shifted, hclosures, hstart, hframes, List.drop_of_length_le (by simp)]
    simp [Heap.adding, Shift.behind]
  have hmodules : m.modules.shifted (.behind m fs d) = m.modules := by
    rw [Modules.shifted, hjournal]
    simp only [OrderedMap.mapValues, hloaded]
  rw [Machine.shifted, hheap, hmodules, hplace hm.main, hplace hm.global]
  rfl

end ScriptEngine

import ScriptEngine.Proofs.Eval.Hygiene

/-!
# Expressions in their own frame

Names are declared in the frame of an evaluation alone. Of what can be evaluated there only statements declare
constants: an expression that is no statement binds at most the name of a function.

* `Eval.AddsNoConstant`: an evaluation leaves the constants of its frame as they are. What declares names in other
  frames only does so (`Eval.addsNoConstant_of_within`), and there is a rule for each way to go on.
* `Interp.addsNoConstant_eval`: every expression does so, at every level.
-/

namespace ScriptEngine

namespace Eval

variable {α β : Type} {s : Nat} {x y : Eval α} {f : α → Eval β}

/-- An evaluation leaves the constants of a frame that is there as they are, however it ends. -/
def AddsNoConstant (s : Nat) (x : Eval α) : Prop :=
  ∀ m, s < m.heap.frames.size → s < (x.after m).heap.frames.size ∧
    ((x.after m).heap.frame s).constants = (m.heap.frame s).constants

/-- What declares names in frames of its own only. -/
theorem addsNoConstant_of_within (hx : ∀ f, Within f x) : AddsNoConstant s x := fun m hs =>
  ⟨Nat.lt_of_lt_of_le hs (hx s m).size_le, (Machine.sameNames_of_within hx hs).constants⟩

theorem addsNoConstant_pure {a : α} : AddsNoConstant s (pure a) := addsNoConstant_of_within fun _ => within_pure

theorem AddsNoConstant.bind (hx : AddsNoConstant s x) (hf : ∀ a, AddsNoConstant s (f a)) :
    AddsNoConstant s (x >>= f) := by
  intro m hs
  have hm := hx m hs
  cases h : x m with
  | ok a m' =>
    rw [after_of_ok h] at hm
    rw [after_bind_of_ok h, ← hm.2]
    exact hf a m' hm.1
  | error e m' =>
    rw [after_of_error h] at hm
    rw [after_bind_of_error h]
    exact hm

theorem AddsNoConstant.ite {p : Prop} [Decidable p] (ht : p → AddsNoConstant s x) (hf : ¬ p → AddsNoConstant s y) :
    AddsNoConstant s (if p then x else y) := by
  split
  · next h => exact ht h
  · next h => exact hf h

/-- A variable is declared. -/
theorem addsNoConstant_define {name : BindingName} {v : Value} {span : Option Span} :
    AddsNoConstant s (define s name v false span) := by
  intro m hs
  cases hc : m.heap.isConstant s name with
  | true =>
    have hrun : define s name v false span m = .error (.failed (.fault (Heap.redeclared name span))) m := by
      show (if m.heap.isConstant s name then _ else _ : Eval Unit) m = _
      rw [hc]
      rfl
    rw [after_of_error hrun]
    exact ⟨hs, rfl⟩
  | false =>
    have hrun : define s name v false span m = .ok () (m.withHeap (m.heap.bind s name v false)) := by
      show (if m.heap.isConstant s name then _ else _ : Eval Unit) m = _
      rw [hc]
      rfl
    rw [after_of_ok hrun]
    refine ⟨by simpa using hs, ?_⟩
    rw [Heap.bind, Heap.frame_modifyFrame, if_pos ⟨rfl, hs⟩]
    rfl

end Eval

namespace Interp

open Eval

variable {I : Interp} {s : Nat} {v w : Value} {span : Span}

theorem addsNoConstant_function {f : FunctionDef} : AddsNoConstant s (function f s) := by
  refine (addsNoConstant_of_within fun _ => within_readHeap).bind fun _ =>
    (addsNoConstant_of_within fun _ => within_newClosure).bind fun v => ?_
  split
  · exact addsNoConstant_define.bind fun _ => addsNoConstant_pure
  · exact addsNoConstant_pure

theorem addsNoConstant_rounds {test : Eval Bool} {x : Eval Value} (htest : AddsNoConstant s test)
    (hx : ∀ f, Within f x) (fuel : Nat) : AddsNoConstant s (rounds test x fuel) := by
  induction fuel with
  | zero => exact addsNoConstant_of_within fun _ => within_exit
  | succ n ih =>
    exact htest.bind fun _ => .ite (fun _ => (addsNoConstant_of_within fun f => within_round (hx f)).bind fun _ =>
      .ite (fun _ => ih) fun _ => addsNoConstant_pure) fun _ => addsNoConstant_pure

section

variable (hI : I.Confined) (he : ∀ e, AddsNoConstant s (I.eval e s))

include he

/-! ## Constructs, given their parts -/

theorem addsNoConstant_evalList {es : List Expr} : AddsNoConstant s (I.evalList s es) := by
  induction es with
  | nil => exact addsNoConstant_pure
  | cons e es ih => exact (he e).bind fun _ => ih.bind fun _ => addsNoConstant_pure

theorem addsNoConstant_entries {es : List ObjectEntry} : AddsNoConstant s (I.entries s es) := by
  induction es with
  | nil => exact addsNoConstant_pure
  | cons e es ih => exact (he e.value).bind fun _ => ih.bind fun _ => addsNoConstant_pure

theorem addsNoConstant_condition {e : Expr} {construct : Text} : AddsNoConstant s (I.condition e s construct) := by
  refine (he e).bind fun v => addsNoConstant_of_within fun _ => ?_
  split <;> simp

theorem addsNoConstant_logicalOperand {op : LogicalOp} {side : Text} {e : Expr} :
    AddsNoConstant s (I.logicalOperand op side e s) := by
  refine (he e).bind fun v => addsNoConstant_of_within fun _ => ?_
  split <;> simp

theorem addsNoConstant_logical {l r : Expr} {op : LogicalOp} : AddsNoConstant s (I.logical l op r s) :=
  (addsNoConstant_logicalOperand he).bind fun _ => .ite (fun _ => addsNoConstant_pure) fun _ =>
    (addsNoConstant_logicalOperand he).bind fun _ => addsNoConstant_pure

theorem addsNoConstant_target {e : Expr} : AddsNoConstant s (I.target e s) := by
  cases e with
  | name span n => exact addsNoConstant_pure
  | member span object n => exact (he object).bind fun _ => addsNoConstant_pure
  | index span object i => exact (he object).bind fun _ => (he i).bind fun _ => addsNoConstant_pure
  | _ => exact addsNoConstant_of_within fun _ => within_failWith

theorem addsNoConstant_assignment {l r : Expr} {op : AssignOp} : AddsNoConstant s (I.assignment l op r span s) := by
  refine (addsNoConstant_target he).bind fun place => ?_
  split
  · exact (he r).bind fun _ => addsNoConstant_of_within fun _ =>
      within_writeTarget.bind fun _ => within_pure
  · exact (addsNoConstant_of_within fun _ => within_readTarget).bind fun _ => (he r).bind fun _ =>
      addsNoConstant_of_within fun _ => isPlain_arithmetic.within.bind fun _ => within_writeTarget.bind fun _ => within_pure

theorem addsNoConstant_update {e : Expr} {op : UpdateOp} {yieldsNew : Bool} :
    AddsNoConstant s (I.update op e yieldsNew span s) := by
  refine (addsNoConstant_target he).bind fun place => addsNoConstant_of_within fun _ =>
    within_readTarget.bind fun current => ?_
  split
  · exact within_writeTarget.bind fun _ => within_pure
  · exact within_failWith

theorem addsNoConstant_progression {r : RangeParts} {size : Option Nat} :
    AddsNoConstant s (I.progression r size s) := by
  unfold Interp.progression
  extract_lets bound place
  have hbound {e : Expr} {what : Text} : AddsNoConstant s (bound e what) :=
    (he e).bind fun _ => addsNoConstant_of_within fun _ => within_readHeap
  refine hbound.bind fun start => hbound.bind fun stop => ?_
  extract_lets k
  have hk : ∀ step, AddsNoConstant s (k step) := by
    refine fun step => addsNoConstant_of_within fun _ => ?_
    unfold k
    split <;> simp
  split
  · exact addsNoConstant_pure.bind hk
  · exact (he _).bind fun _ => (addsNoConstant_of_within fun _ => within_readHeap).bind fun _ =>
      addsNoConstant_pure.bind hk

theorem addsNoConstant_sliceBy {r : RangeParts} : AddsNoConstant s (I.sliceBy v r s) :=
  .ite (fun _ => addsNoConstant_of_within fun _ => within_failWith) fun _ =>
    (addsNoConstant_of_within fun _ => within_heap).bind fun _ => (addsNoConstant_progression he).bind fun _ =>
      addsNoConstant_of_within fun _ => isPlain_picked.within.bind fun _ => isPlain_gathered.within

include hI

theorem addsNoConstant_forIn {indexName : Option Text} {valueName : Text} {iterable : Expr} {body : Block} :
    AddsNoConstant s (I.forIn indexName valueName iterable body s) := by
  have hturn {f : Nat} (i item : Value) : Within f (I.forRound indexName valueName body s i item) := hI.forRound
  cases iterable with
  | range sp start stop withStart withStop step =>
    exact (addsNoConstant_progression he).bind fun _ => addsNoConstant_of_within fun _ => within_forNumbers hturn
  | _ =>
    exact (he _).bind fun _ => addsNoConstant_of_within fun _ =>
      isPlain_elements.within.bind fun _ => within_forEach hturn _

theorem addsNoConstant_armMatches {arm : MatchArm} : AddsNoConstant s (I.armMatches arm v s) := by
  unfold Interp.armMatches
  split
  · exact addsNoConstant_pure
  · exact (he _).bind fun _ => addsNoConstant_of_within fun _ => isPlain_equal.within
  · exact (he _).bind fun _ => addsNoConstant_of_within fun _ => hI.isTest
  · exact (he _).bind fun _ => addsNoConstant_of_within fun _ => within_readHeap

theorem addsNoConstant_arms {arms : List MatchArm} : AddsNoConstant s (I.arms v span s arms) := by
  induction arms with
  | nil => exact addsNoConstant_of_within fun _ => within_quotedForm.bind fun _ => within_failWith
  | cons arm rest ih =>
    exact (addsNoConstant_armMatches hI he).bind fun _ =>
      .ite (fun _ => addsNoConstant_of_within fun _ => hI.block) fun _ => ih

theorem addsNoConstant_callExpr {callee : Expr} {args : List Expr} :
    AddsNoConstant s (I.callExpr callee args span s) := by
  cases callee with
  | member sp object name =>
    exact (he object).bind fun _ => (addsNoConstant_of_within fun _ => within_readHeap).bind fun _ =>
      (addsNoConstant_evalList he).bind fun _ => addsNoConstant_of_within fun _ => hI.call
  | _ =>
    exact (he _).bind fun _ => (addsNoConstant_evalList he).bind fun _ => addsNoConstant_of_within fun _ => hI.call

omit hI in
theorem addsNoConstant_indexExpr {object index : Expr} : AddsNoConstant s (I.indexExpr object index span s) := by
  refine (he object).bind fun v => ?_
  cases index with
  | range sp start stop withStart withStop step => exact addsNoConstant_sliceBy he
  | _ => exact (he _).bind fun _ => addsNoConstant_of_within fun _ => isPlain_index.within

/-- One level of evaluation of an expression. -/
theorem addsNoConstant_expr (e : Expr) : AddsNoConstant s (I.expr e s) := by
  cases e with
  | literal sp l => exact addsNoConstant_pure
  | name sp n => exact addsNoConstant_of_within fun _ => within_readHeap
  | binary sp l op r =>
    exact (he l).bind fun _ => (he r).bind fun _ => addsNoConstant_of_within fun _ => hI.binary
  | logical sp l op r => exact addsNoConstant_logical he
  | unary sp op e => exact (he e).bind fun _ => addsNoConstant_of_within fun _ => isPlain_unary.within
  | update sp op e yieldsNew => exact addsNoConstant_update he
  | assign sp l op r => exact addsNoConstant_assignment he
  | member sp object name => exact (he object).bind fun _ => addsNoConstant_of_within fun _ => within_readHeap
  | index sp object i => exact addsNoConstant_indexExpr he
  | call sp callee args => exact addsNoConstant_callExpr hI he
  | array sp es =>
    exact (addsNoConstant_evalList he).bind fun _ => addsNoConstant_of_within fun _ => within_newArray
  | object sp es =>
    exact (addsNoConstant_entries he).bind fun _ => addsNoConstant_of_within fun _ => isPlain_newObject.within
  | range sp start stop withStart withStop step =>
    exact (addsNoConstant_progression he).bind fun _ => addsNoConstant_of_within fun _ => within_newArray
  | block b => exact addsNoConstant_of_within fun _ => hI.block
  | ifElse sp test thenBranch elseBranch =>
    refine (addsNoConstant_condition he).bind fun _ =>
      .ite (fun _ => addsNoConstant_of_within fun _ => hI.block) fun _ => ?_
    cases elseBranch with
    | none => exact addsNoConstant_pure
    | some e => exact he e
  | ternary sp test a b => exact (addsNoConstant_condition he).bind fun _ => .ite (fun _ => he a) fun _ => he b
  | whileLoop sp test body negate =>
    exact addsNoConstant_rounds ((addsNoConstant_condition he).bind fun _ => addsNoConstant_pure)
      (fun _ => hI.block) _
  | loop sp body => exact addsNoConstant_rounds addsNoConstant_pure (fun _ => hI.block) _
  | forIn sp indexName valueName iterable body => exact addsNoConstant_forIn hI he
  | tryCatch sp body name handler cleanup => exact addsNoConstant_of_within fun _ => hI.tryCatch
  | matchOn sp subject arms => exact (he subject).bind fun _ => addsNoConstant_arms hI he
  | function f => exact addsNoConstant_function

end

/-! ## Levels -/

/-- An expression adds no constant to the frame that it is evaluated in. -/
theorem addsNoConstant_eval (n : Nat) (e : Expr) (s : Nat) : AddsNoConstant s ((ofLevel n).eval e s) := by
  induction n generalizing e with
  | zero => exact addsNoConstant_of_within fun _ => within_exit
  | succ n ih => exact addsNoConstant_expr (confined_ofLevel n) ih e

end Interp

end ScriptEngine

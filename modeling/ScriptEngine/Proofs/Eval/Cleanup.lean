import ScriptEngine.Eval.Expression
import ScriptEngine.Proofs.Eval.Run
import ScriptEngine.Proofs.Value.Frames

/-!
# How a try runs

* **The guarded part** (`Interp.Guards`) is the body, and the handler if the body ended by a throw or an error
  of the engine. The handler runs in a new frame where the value that was thrown, or an error object, is bound
  (`Exit.Delivers`).
* **The cleanup** runs once, after the guarded part and from the machine that it left, and its exit wins
  (`Interp.endsBy_cleaned`). The journal of the machine tells when a try is entered, cleaned up and left.
-/

namespace ScriptEngine

/-- The exit of a try of which the cleanup ended by an exit as well: that of the cleanup, unless the guarded
part did not come to an end. -/
def Exit.replacedBy : Exit → Exit → Exit
  | .exhausted, _ => .exhausted
  | _, e => e

/-- How a try ends by the ends of its guarded part and of its cleanup. -/
def Exit.joined : Except Exit Value → Except Exit Value → Except Exit Value
  | r, .ok _ => r
  | .ok _, .error e => .error e
  | .error e, .error e' => .error (e.replacedBy e')

/-- The value that a handler is given for an exit: what was thrown, or an error object with the message, the
kind, the data and the place of an error. There is none for other exits. -/
inductive Exit.Delivers (m : Machine) : Exit → Value → Machine → Prop
  | thrown {v : Value} {span : Option Span} : Delivers m (.thrown v span) v m
  | uncaught {v : Value} {span : Option Span} {message : Text} :
      Delivers m (.failed (.uncaught v span message)) v m
  | fault {f : Fault} {v : Value} {h : Heap}
      (hnew : m.heap.newError f.diagnostic.message f.kind.label f.data f.diagnostic.span = (v, h)) :
      Delivers m (.failed (.fault f)) v { m with heap := h }
  | refused {e : EngineError} {v : Value} {h : Heap}
      (hsource : (∃ d, e = .lexical d) ∨ ∃ d expectation, e = .grammatical d expectation)
      (hnew : m.heap.newError e.message e.caughtAs none e.diagnostic.span = (v, h)) :
      Delivers m (.failed e) v { m with heap := h }

namespace Interp

open Eval

variable (c : Block) (x cleanup : Eval Value) (m : Machine)

theorem note_bind (stage : TryStage) : (do note stage c; x : Eval Value) m = x (m.noting stage c) := rfl

theorem noted_run : noted c x m =
    match x (m.noting .entered c) with
    | .ok a m' => .ok a (m'.noting .left c)
    | .error e m' => .error e (m'.noting .left c) := by
  rw [noted, note, note, run_between]
  cases x (m.noting .entered c) <;> rfl

theorem withCleanup_run : withCleanup x cleanup m =
    match x m with
    | .ok a m₁ =>
      match cleanup m₁ with
      | .ok _ m₂ => .ok a m₂
      | .error e m₂ => .error e m₂
    | .error e m₁ =>
      match cleanup m₁ with
      | .ok _ m₂ => .error e m₂
      | .error e' m₂ => .error (e.replacedBy e') m₂ := by
  rw [withCleanup]
  cases hx : x m with
  | ok a m₁ =>
    rw [bind_ok (attempt_ok hx)]
    cases hc : cleanup m₁ <;> simp only [hc]
    case ok => exact bind_ok hc
    case error => exact bind_error hc
  | error e m₁ =>
    rw [bind_ok (attempt_error hx)]
    cases hc : cleanup m₁ <;> cases e <;> simp only [hc]
    case ok.exhausted => exact bind_ok (attempt_ok hc)
    case error.exhausted => exact bind_ok (attempt_error hc)
    all_goals first
      | exact bind_ok hc
      | exact bind_error hc

/-- An action with a cleanup, both noted. -/
def cleaned (c : Block) (x cleanup : Eval Value) : Eval Value :=
  noted c <| withCleanup x do
    Eval.note .cleaning c
    cleanup

/-- How an action with a cleanup runs: the cleanup takes over from the machine that the action left. -/
theorem cleaned_run : cleaned c x cleanup m =
    match x (m.noting .entered c) with
    | .ok a m₁ =>
      match cleanup (m₁.noting .cleaning c) with
      | .ok _ m₂ => .ok a (m₂.noting .left c)
      | .error e m₂ => .error e (m₂.noting .left c)
    | .error e m₁ =>
      match cleanup (m₁.noting .cleaning c) with
      | .ok _ m₂ => .error e (m₂.noting .left c)
      | .error e' m₂ => .error (e.replacedBy e') (m₂.noting .left c) := by
  rw [cleaned, noted_run, withCleanup_run]
  simp only [note_bind]
  cases x (m.noting .entered c) with
  | ok a m₁ =>
    simp only
    cases cleanup (m₁.noting .cleaning c) <;> rfl
  | error e m₁ =>
    simp only
    cases cleanup (m₁.noting .cleaning c) <;> rfl

/-- The cleanup runs once, from the machine that the action left. -/
theorem endsBy_cleaned {r r' : Except Exit Value} {m m₁ m₂ : Machine} {c : Block} {x cleanup : Eval Value}
    (hx : x.EndsBy (m.noting .entered c) r m₁) (hc : cleanup.EndsBy (m₁.noting .cleaning c) r' m₂) :
    (cleaned c x cleanup).EndsBy m (Exit.joined r r') (m₂.noting .left c) := by
  have hrun := cleaned_run c x cleanup m
  cases r with
  | ok a =>
    rw [hx.ok] at hrun
    dsimp only at hrun
    cases r' with
    | ok v => exact attempt_ok (by rw [hrun, hc.ok])
    | error e => exact attempt_error (by rw [hrun, hc.error])
  | error e =>
    rw [hx.error] at hrun
    dsimp only at hrun
    cases r' with
    | ok v => exact attempt_error (by rw [hrun, hc.ok])
    | error e' => exact attempt_error (by rw [hrun, hc.error])

/-! ## The guarded part -/

variable {I : Interp} {body : Block} {name : Option Text} {handler : Option Block} {frame : Nat}

/-- The frame of a handler, in which the error is bound if it has a name. -/
def handlerFrame (h : Heap) (frame : Nat) (name : Option Text) (error : Value) : Heap :=
  let (inner, h) := h.childFrame frame "catch"
  name.elim h fun n => h.bind inner (some n) error false

/-- How the guarded part of a try ends: like the body, or like the handler if there is one and the body ended
by an exit that handlers are given a value for. -/
inductive Guards (I : Interp) (body : Block) (name : Option Text) (handler : Option Block) (frame : Nat)
    (m : Machine) : Except Exit Value → Machine → Prop
  | completed {v : Value} {m₁ : Machine} (hbody : (I.block body frame).EndsBy m (.ok v) m₁) :
      Guards I body name handler frame m (.ok v) m₁
  | passed {e : Exit} {m₁ : Machine} (hbody : (I.block body frame).EndsBy m (.error e) m₁)
      (hpassed : handler = none ∨ ∀ v m₂, ¬ e.Delivers m₁ v m₂) :
      Guards I body name handler frame m (.error e) m₁
  | handled {e : Exit} {m₁ m₂ m₃ : Machine} {v : Value} {b : Block} {r : Except Exit Value}
      (hbody : (I.block body frame).EndsBy m (.error e) m₁) (hhandler : handler = some b)
      (hdelivers : e.Delivers m₁ v m₂)
      (hends : (I.exec b.statements m₂.heap.frames.size).EndsBy
        { m₂ with heap := handlerFrame m₂.heap frame name v } r m₃) :
      Guards I body name handler frame m r m₃

/-- What handlers are given is what they deliver. -/
theorem caught?_delivers (e : Exit) (m : Machine) :
    (∃ v m', caught? e m = .ok (some v) m' ∧ e.Delivers m v m') ∨
    (caught? e m = .ok none m ∧ ∀ v m', ¬ e.Delivers m v m') := by
  cases e with
  | thrown v span => exact .inl ⟨v, m, rfl, .thrown⟩
  | failed error =>
    cases error with
    | uncaught v span message => exact .inl ⟨v, m, rfl, .uncaught⟩
    | fault f => exact .inl ⟨_, _, rfl, .fault rfl⟩
    | lexical d => exact .inl ⟨_, _, rfl, .refused (.inl ⟨d, rfl⟩) rfl⟩
    | grammatical d expectation => exact .inl ⟨_, _, rfl, .refused (.inr ⟨d, expectation, rfl⟩) rfl⟩
  | _ => exact .inr ⟨rfl, nofun⟩

theorem handle_run {b : Block} {v : Value} (m : Machine) :
    I.handle name b frame v m =
      I.exec b.statements m.heap.frames.size { m with heap := handlerFrame m.heap frame name v } := by
  cases name with
  | none => rfl
  | some n =>
    have hfree : (m.heap.childFrame frame "catch").2.isConstant m.heap.frames.size (some n) = false := by
      rw [Heap.isConstant, Heap.childFrame, Heap.frame_newFrame, if_pos rfl]
      rfl
    have hdefine : Eval.define m.heap.frames.size (some n) v false none
        { m with heap := (m.heap.childFrame frame "catch").2 } =
        .ok () { m with heap := handlerFrame m.heap frame (some n) v } := by
      unfold Eval.define
      show (if Heap.isConstant _ _ _ then _ else _ : Eval Unit) _ = _
      rw [hfree]
      rfl
    exact bind_ok hdefine

/-- The guarded part of a try ends in one of these ways. -/
theorem guards (I : Interp) (body : Block) (name : Option Text) (handler : Option Block) (frame : Nat)
    (m : Machine) : ∃ r m', (I.guarded body name handler frame).EndsBy m r m' ∧
      I.Guards body name handler frame m r m' := by
  obtain ⟨r, m₁, hbody⟩ := (I.block body frame).endsBy_total m
  have hrun {k : Except Exit Value → Eval Value} : (attempt (I.block body frame) >>= k) m = k r m₁ :=
    bind_ok hbody
  cases r with
  | ok v =>
    refine ⟨.ok v, m₁, attempt_ok ?_, .completed hbody⟩
    rw [guarded, hrun]
    rfl
  | error e =>
    cases handler with
    | none =>
      refine ⟨.error e, m₁, attempt_error ?_, .passed hbody (.inl rfl)⟩
      rw [guarded, hrun]
      rfl
    | some b =>
      obtain ⟨v, m₂, hcaught, hdelivers⟩ | ⟨hcaught, hpassed⟩ := caught?_delivers e m₁
      · obtain ⟨r, m₃, hends⟩ := (I.exec b.statements m₂.heap.frames.size).endsBy_total
          { m₂ with heap := handlerFrame m₂.heap frame name v }
        refine ⟨r, m₃, ?_, .handled hbody rfl hdelivers hends⟩
        have hguarded : I.guarded body name (some b) frame m = I.handle name b frame v m₂ := by
          rw [guarded, hrun]
          exact bind_ok hcaught
        rw [handle_run] at hguarded
        rw [EndsBy, attempt, hguarded]
        exact hends
      · refine ⟨.error e, m₁, attempt_error ?_, .passed hbody (.inr hpassed)⟩
        rw [guarded, hrun]
        exact bind_ok hcaught

end Interp

end ScriptEngine

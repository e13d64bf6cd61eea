import ScriptEngine.Proofs.Eval.Relocation
import ScriptEngine.Proofs.Eval.Settling

/-!
# More fuel makes no difference

The level of an interpreter is its fuel. An evaluation that does not run out of it at some level ends in the same
way at every higher level, with the same changes.

* `relocates_ofLevel`: among further frames every level does what the lower ones do without them.
* `Interp.ofLevel_approximates`: where no frames are added, an interpreter approximates those of higher levels
  (`Eval.Approximates`), so there is one way in which an evaluation ends (`Interp.Evaluates.unique`).
-/

namespace ScriptEngine

namespace Eval

variable {α : Type} {x y : Eval α}

/-- An evaluation runs out of fuel, or ends as another one does. -/
def Approximates (x y : Eval α) : Prop := ∀ m, (∃ m', x m = .error .exhausted m') ∨ x m = y m

theorem carry_still (r : EStateM.Result Exit Machine α) : Shift.still.carry id r = r := by
  cases r <;> simp [Shift.carry]

theorem Shifts.approximates (h : Shifts .still id x y) : x.Approximates y := fun m =>
  (h m (Nat.zero_le _)).imp_right fun hy => by rw [← carry_still (x m), ← hy.1, Machine.shifted_still]

end Eval

namespace Interp

open Eval

/-- An interpreter runs out of fuel, or does what another one does. -/
structure Approximates (I J : Interp) : Prop where
  eval : ∀ e frame, (I.eval e frame).Approximates (J.eval e frame)
  exec : ∀ ss frame, (I.exec ss frame).Approximates (J.exec ss frame)
  call : ∀ f args span, (I.call f args span).Approximates (J.call f args span)

variable {frame : Nat} {s : Shift}

/-- Among further frames an interpreter does what one of a lower level does without them. -/
theorem relocates_ofLevel {n k : Nat} (h : n ≤ k) (hs : s.depth = 0) : (ofLevel n).Relocates (ofLevel k) s := by
  have hthread : s.inThread = s := by rw [Shift.inThread, ← hs]
  induction n generalizing k with
  | zero => exact ⟨Nat.zero_le _, fun _ _ => runsOut_exit.shifts, fun _ _ => runsOut_exit.shifts, runsOut_exit.shifts⟩
  | succ n ih =>
    obtain ⟨k, rfl⟩ : ∃ k', k = k' + 1 := ⟨k - 1, by omega⟩
    have hbelow := ih (Nat.le_of_succ_le_succ h)
    exact ⟨h, hbelow.expr, fun ss i => hbelow.stmts ss i, fun _ hm => hbelow.apply (hthread.symm ▸ hbelow) (.inl hs) hm⟩

/-- An interpreter does what those of higher levels do, or runs out of fuel. -/
theorem ofLevel_approximates {n k : Nat} (h : n ≤ k) : (ofLevel n).Approximates (ofLevel k) := by
  have hI : (ofLevel n).Relocates (ofLevel k) .still := relocates_ofLevel h rfl
  exact ⟨fun e frame => (hI.eval e frame).approximates, fun ss frame => (hI.exec ss frame).approximates,
    fun _ _ _ => hI.call.approximates⟩

/-- A call that gives a value at some level gives it from there on. -/
theorem settles_call_of_ok {n : Nat} {f v : Value} {args : List Value} {span : Option Span} {m m' : Machine}
    (h : (ofLevel n).call f args span m = .ok v m') :
    Settles (fun n => (ofLevel n).call f args span) m (.ok v m') := by
  refine ⟨n, fun k hk => ?_⟩
  obtain ⟨_, hout⟩ | hsame := (ofLevel_approximates hk).call f args span m
  · cases hout.symm.trans h
  · exact hsame.symm.trans h

/-- The evaluation of an expression ends in a given way if there is enough fuel. -/
def Evaluates (e : Expr) (frame : Nat) (m : Machine) (r : EStateM.Result Exit Machine Value) : Prop :=
  (∀ m', r ≠ .error .exhausted m') ∧ ∃ n, (ofLevel n).eval e frame m = r

variable {e : Expr} {m : Machine} {r r' : EStateM.Result Exit Machine Value}

/-- The level from which on the evaluation ends in the given way. -/
theorem Evaluates.from_level (h : Evaluates e frame m r) : ∃ n, ∀ k ≥ n, (ofLevel k).eval e frame m = r := by
  obtain ⟨hends, n, hn⟩ := h
  refine ⟨n, fun k hk => ?_⟩
  obtain ⟨m', hout⟩ | hsame := (ofLevel_approximates hk).eval e frame m
  · exact absurd (hn.symm.trans hout) (hends m')
  · exact hsame.symm.trans hn

/-- There is one way in which an evaluation ends. -/
theorem Evaluates.unique (h : Evaluates e frame m r) (h' : Evaluates e frame m r') : r = r' := by
  obtain ⟨n, hn⟩ := h.from_level
  obtain ⟨k, hk⟩ := h'.from_level
  exact (hn _ (Nat.le_max_left n k)).symm.trans (hk _ (Nat.le_max_right n k))

end Interp

end ScriptEngine

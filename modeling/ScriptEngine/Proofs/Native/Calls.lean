import ScriptEngine.Native.Run
import ScriptEngine.Proofs.Eval.Run

/-!
# Calls of native functions

A call of a native function with as many arguments as it takes gives what the function gives
(`call_eq_ok_iff`), and ends with the fault of the function, at the place of the call if it has no place
(`call_of_fault`). The lemmas on arguments say what is found in an argument of the expected kind.
-/

namespace ScriptEngine

variable {I : Interp} {f : Native} {args : List Value} {span : Option Span} {m m' : Machine} {v w : Value}

/-- A call with as many arguments as the function takes gives exactly what the function gives. -/
theorem call_eq_ok_iff (ha : f.arity.accepts args.length) :
    f.call I args span m = .ok w m' ↔ f.run I args span m = .ok w m' := by
  rw [Native.call, if_neg (by simp [ha])]
  cases hr : f.run I args span m with
  | ok u m₁ =>
    rw [Eval.bind_ok (Eval.attempt_ok hr)]
    rfl
  | error e m₁ =>
    rw [Eval.bind_ok (Eval.attempt_error hr)]
    refine ⟨fun h => ?_, nofun⟩
    cases e with
    | failed e => cases e <;> cases h
    | crashed e =>
      dsimp only at h
      split at h <;> cases h
    | _ => cases h

/-- A native function that gives a result for as many arguments as it takes gives it when it is called. -/
theorem call_of_run (ha : f.arity.accepts args.length) (hr : f.run I args span m = .ok w m') :
    f.call I args span m = .ok w m' :=
  (call_eq_ok_iff ha).2 hr

/-- A call ends with the fault of the function. -/
theorem call_of_fault {e : Fault} (ha : f.arity.accepts args.length)
    (hr : f.run I args span m = .error (.failed (.fault e)) m') :
    f.call I args span m = .error (.failed (.fault (e.locatedAt span))) m' := by
  rw [Native.call, if_neg (by simp [ha]), Eval.bind_ok (Eval.attempt_error hr)]
  rfl

/-- A call ends with a fault where the host fails in a way that scripts can see. -/
theorem call_of_crash {e : HostFailure} (ha : f.arity.accepts args.length) (he : e.kind.isBridged)
    (hr : f.run I args span m = .error (.crashed e) m') :
    f.call I args span m = f.reject span .native (": " ++ e.message) m' := by
  rw [Native.call, if_neg (by simp [ha]), Eval.bind_ok (Eval.attempt_error hr)]
  dsimp only
  rw [if_pos he]

/-! ## Arguments -/

variable {position id : Nat}

theorem text_run {t : Text} (hv : v.payload = .string t) : f.text position span v m = .ok t m := by
  rw [Native.text, hv]
  rfl

theorem arrayItems_run (hv : v.payload = .array id) :
    f.arrayItems position span v m = .ok (m.heap.array id).toList m := by
  rw [Native.arrayItems, Native.arrayCell, hv]
  rfl

/-! ## Texts of values -/

/-- The text of a value is what it is printed as. -/
theorem call_toText_of_display {t : Text} (ht : m.heap.display v = .ok t) :
    Native.toText.call I [v] span m = .ok (.string t) m := by
  refine call_of_run rfl ?_
  show (Eval.display v >>= fun t => return Value.string t) m = _
  rw [Eval.display, Eval.bind_ok (Eval.readText_ok ht)]
  rfl

end ScriptEngine

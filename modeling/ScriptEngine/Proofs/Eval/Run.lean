import ScriptEngine.Eval.Arithmetic

/-!
# Runs of evaluations

What an evaluation does from a machine, by what its parts do, and the machine that it leaves behind
(`Eval.after`), which is the same whether it ends by a result or by an exit.
-/

namespace ScriptEngine

/-- The machine with a point of the evaluation of a try in its journal. -/
abbrev Machine.noting (m : Machine) (stage : TryStage) (cleanup : Block) : Machine :=
  { m with tries := ⟨stage, cleanup⟩ :: m.tries }

/-- A result comes from a result. -/
theorem of_bind_eq_ok {ε α β : Type} {r : Except ε α} {f : α → Except ε β} {b : β} (h : r >>= f = .ok b) :
    ∃ a, r = .ok a ∧ f a = .ok b := by
  cases r with
  | error e => cases h
  | ok a => exact ⟨a, rfl, h⟩

namespace Eval

variable {α β : Type} {x : Eval α} {f : α → Eval β} {m m' : Machine} {a : α} {e : Exit}

theorem bind_ok (hx : x m = .ok a m') : (x >>= f) m = f a m' := by
  simp [bind, EStateM.bind, hx]

theorem bind_error (hx : x m = .error e m') : (x >>= f) m = .error e m' := by
  simp [bind, EStateM.bind, hx]

/-- What leads to a result has led to one before. -/
theorem of_bind_ok {b : β} (h : (x >>= f) m = .ok b m') : ∃ a m₁, x m = .ok a m₁ ∧ f a m₁ = .ok b m' := by
  cases hx : x m with
  | ok a m₁ =>
    rw [bind_ok hx] at h
    exact ⟨a, m₁, rfl, h⟩
  | error e m₁ =>
    rw [bind_error hx] at h
    cases h

theorem get_bind {f : Machine → Eval α} : (get >>= f) m = f m m := rfl

section

variable {r : Heap → Except Fault α} {fault : Fault}

theorem readHeap_ok (hr : r m.heap = .ok a) : readHeap r m = .ok a m := by
  have hheap : heap m = .ok m.heap m := rfl
  rw [readHeap, bind_ok hheap, hr]
  rfl

theorem readHeap_error (hr : r m.heap = .error fault) :
    readHeap r m = .error (.failed (.fault fault)) m := by
  have hheap : heap m = .ok m.heap m := rfl
  rw [readHeap, bind_ok hheap, hr]
  rfl

/-- A result of the heap that there is. -/
theorem readEndless_some {r : Heap → Option α} (hr : r m.heap = some a) : readEndless r m = .ok a m := by
  have hheap : heap m = .ok m.heap m := rfl
  rw [readEndless, bind_ok hheap, hr]
  rfl

/-- A result of the heap that there is not. -/
theorem readEndless_none {r : Heap → Option α} (hr : r m.heap = none) :
    readEndless r m = .error (.crashed Unprintable.endless.failure) m := by
  have hheap : heap m = .ok m.heap m := rfl
  rw [readEndless, bind_ok hheap, hr]
  rfl

theorem readText_ok {f : Heap → Except Unprintable Text} {t : Text} (ht : f m.heap = .ok t) :
    readText f m = .ok t m := by
  have hheap : heap m = .ok m.heap m := rfl
  rw [readText, bind_ok hheap, ht]
  rfl

theorem readText_error {f : Heap → Except Unprintable Text} {e : Unprintable} (he : f m.heap = .error e) :
    readText f m = .error (.crashed e.failure) m := by
  have hheap : heap m = .ok m.heap m := rfl
  rw [readText, bind_ok hheap, he]
  rfl

/-- An operator that has a result on the heap gives it: no string is joined with a number that is too long. -/
theorem arithmetic_ok {op : ArithOp} {left right v : Value} {s : Span} (hv : m.heap.arithmetic op left right s = .ok v) :
    arithmetic op left right s m = .ok v m := by
  cases hj : op.joinsTooLong left right with
  | false => rw [arithmetic_eq hj, readHeap_ok hv]
  | true =>
    unfold ArithOp.joinsTooLong at hj
    split at hj
    · next hl hr =>
      have hnone : m.heap.joinedText? right = none := by
        have htext : m.heap.display right = .error .tooLong := Heap.render_tooLong hr (by simpa using hj)
        simp [Heap.joinedText?, hr, Heap.display?, htext, Except.toOption]
      simp [Heap.arithmetic, hl, hnone] at hv
    · cases hj

end

theorem attempt_ok (hx : x m = .ok a m') : attempt x m = .ok (.ok a) m' := by rw [attempt, hx]

theorem attempt_error (hx : x m = .error e m') : attempt x m = .ok (.error e) m' := by rw [attempt, hx]

/-- An evaluation ends by a result or an exit, and leaves a machine. -/
def EndsBy (x : Eval α) (m : Machine) (r : Except Exit α) (m' : Machine) : Prop := attempt x m = .ok r m'

theorem endsBy_total (x : Eval α) (m : Machine) : ∃ r m', x.EndsBy m r m' := by
  cases hx : x m with
  | ok a m' => exact ⟨.ok a, m', attempt_ok hx⟩
  | error e m' => exact ⟨.error e, m', attempt_error hx⟩

/-- An evaluation between two changes of the machine, the second of which is made however it ends. -/
theorem run_between {g : Except Exit α → Eval β} (x : Eval α) (enter leave : Machine → Machine)
    (m : Machine) :
    (do modify enter; let r ← attempt x; modify leave; g r : Eval β) m =
      match x (enter m) with
      | .ok a m' => g (.ok a) (leave m')
      | .error e m' => g (.error e) (leave m') := by
  show EStateM.bind (attempt x) (fun r => modify leave >>= fun _ => g r) (enter m) = _
  simp only [EStateM.bind, attempt]
  cases x (enter m) <;> rfl

/-- The machine after an evaluation, however that ends. -/
def after (x : Eval α) (m : Machine) : Machine :=
  match x m with
  | .ok _ m' => m'
  | .error _ m' => m'

theorem after_of_ok (hx : x m = .ok a m') : x.after m = m' := by rw [after, hx]

theorem after_of_error (hx : x m = .error e m') : x.after m = m' := by rw [after, hx]

theorem EndsBy.ok (hx : x.EndsBy m (.ok a) m') : x m = .ok a m' := by
  unfold EndsBy attempt at hx
  split at hx <;> cases hx
  assumption

theorem EndsBy.error (hx : x.EndsBy m (.error e) m') : x m = .error e m' := by
  unfold EndsBy attempt at hx
  split at hx <;> cases hx
  assumption

theorem EndsBy.after {r : Except Exit α} (hx : x.EndsBy m r m') : x.after m = m' := by
  cases r with
  | ok a => exact after_of_ok hx.ok
  | error e => exact after_of_error hx.error

theorem after_bind_of_ok (hx : x m = .ok a m') : (x >>= f).after m = (f a).after m' := by
  rw [after, bind_ok hx, after]

theorem after_bind_of_error (hx : x m = .error e m') : (x >>= f).after m = m' :=
  after_of_error (bind_error hx)

theorem after_bind_pure {k : α → β} : (x >>= fun a => pure (k a)).after m = x.after m := by
  cases hx : x m with
  | ok a m' =>
    rw [after_bind_of_ok hx, after_of_ok hx]
    rfl
  | error e m' => rw [after_bind_of_error hx, after_of_error hx]

theorem after_attempt : (attempt x).after m = x.after m := by
  simp only [after, attempt]
  cases x m <;> rfl

end Eval

end ScriptEngine

import ScriptEngine.Proofs.Eval.Native
import ScriptEngine.Proofs.Module.Load

/-!
# Evaluations among further frames

Two evaluations **shift** (`Eval.Shifts s g x y`) if `y` does among further frames, and with more active calls, what
`x` does without them, unless `x` runs out of fuel. A result that is a frame is the place where the frame has moved
to, other results are the same; `g` says which. There is a rule for each way to build an evaluation, and a lemma for
each operation on frames. What catches an exit must pass on the exit of having run out (`Shifts.attemptBind`). What is
plain does not look at frames, and shifts by itself (`Eval.IsPlain.shifts`).
-/

namespace ScriptEngine

namespace Eval

variable {α β γ ι : Type} {s : Shift} {x y x' y' : Eval α} {m : Machine} {v : Value} {span : Option Span}
  {name : BindingName}

/-! ## Running out of fuel -/

/-- An evaluation runs out of fuel. -/
def RunsOut (x : Eval α) : Prop := ∀ m, ∃ m', x m = .error .exhausted m'

theorem runsOut_exit : RunsOut (exit .exhausted : Eval α) := fun m => ⟨m, rfl⟩

theorem RunsOut.bind {f : α → Eval β} (hx : x.RunsOut) : RunsOut (x >>= f) := fun m =>
  (hx m).imp fun _ h => bind_error h

/-- What comes after a run that does not end by an exit. -/
theorem RunsOut.after {f : α → Eval β} (hx : ∀ m, ∃ a m', x m = .ok a m') (hf : ∀ a, RunsOut (f a)) :
    RunsOut (x >>= f) := by
  intro m
  obtain ⟨a, m', h⟩ := hx m
  rw [bind_ok h]
  exact hf a m'

/-- From a machine an evaluation runs out of fuel, or another one does among further frames what it does without
them; frames are only added. -/
def ShiftsAt (s : Shift) (g : α → β) (x : Eval α) (y : Eval β) (m : Machine) : Prop :=
  (∃ m', x m = .error .exhausted m') ∨ y (m.shifted s) = s.carry g (x m) ∧ s.Fits (x.after m).heap

/-- An evaluation runs out of fuel, or another one does among further frames what it does without them. -/
def Shifts (s : Shift) (g : α → β) (x : Eval α) (y : Eval β) : Prop :=
  ∀ m : Machine, s.Fits m.heap → ShiftsAt s g x y m

theorem IsPlain.shifts (hx : x.IsPlain) : Shifts s id x x := fun m hm =>
  .inr ⟨hx.blind s m, Heap.fits_of_size_le hm (Nat.le_of_eq (by rw [(hx.after m).frames]))⟩

theorem ShiftsAt.congr {g : α → β} {x x' : Eval α} {y y' : Eval β} (hx : x m = x' m)
    (hy : y (m.shifted s) = y' (m.shifted s)) (h : ShiftsAt s g x' y' m) : ShiftsAt s g x y m := by
  unfold ShiftsAt at *
  rw [after, hx, hy]
  exact h

theorem RunsOut.shifts {g : α → β} {y : Eval β} (hx : x.RunsOut) : Shifts s g x y := fun m _ => .inl (hx m)

/-! ## Rules -/

theorem shifts_pure {g : α → β} {a : α} : Shifts s g (pure a) (pure (g a)) := fun _ hm => .inr ⟨rfl, hm⟩

@[simp] theorem shifts_value {a : α} : Shifts s id (pure a) (pure a) := shifts_pure

@[simp] theorem shifts_exit {g : α → β} {e : Exit} : Shifts s g (exit e) (exit e) := fun _ hm => .inr ⟨rfl, hm⟩

theorem shifts_resumeWith {g : α → β} {r : Except Exit α} : Shifts s g (resume r) (resume (r.map g)) := by
  cases r <;> exact fun _ hm => .inr ⟨rfl, hm⟩

@[simp] theorem shifts_resume {r : Except Exit α} : Shifts s id (resume r) (resume r) := by
  cases r <;> exact fun _ hm => .inr ⟨rfl, hm⟩

@[simp] theorem shifts_fail {g : α → β} {fault : Fault} : Shifts s g (fail fault) (fail fault) := shifts_exit

@[simp] theorem shifts_failWith {g : α → β} {kind : FaultKind} {message : Text} :
    Shifts s g (failWith kind message span) (failWith kind message span) := shifts_exit

@[simp] theorem shifts_crash {g : α → β} {kind : HostFailureKind} {message : Text} :
    Shifts s g (crash kind message) (crash kind message) := shifts_exit

theorem shifts_bind {δ : Type} {x : Eval α} {y : Eval β} {g : α → β} {g' : γ → δ} {f : α → Eval γ} {f' : β → Eval δ}
    (hx : Shifts s g x y) (hf : ∀ a, Shifts s g' (f a) (f' (g a))) : Shifts s g' (x >>= f) (y >>= f') := by
  intro m hm
  obtain ⟨m', hout⟩ | ⟨hy, hfits⟩ := hx m hm
  · exact .inl ⟨m', bind_error hout⟩
  · rw [ShiftsAt]
    cases h : x m with
    | ok a m' =>
      rw [h] at hy
      rw [after_of_ok h] at hfits
      rw [bind_ok h, bind_ok hy, after_bind_of_ok h]
      exact hf a m' hfits
    | error e m' =>
      rw [h] at hy
      rw [after_of_error h] at hfits
      rw [bind_error h, bind_error hy, after_bind_of_error h]
      exact .inr ⟨rfl, hfits⟩

/-- An evaluation that goes on with a value. -/
theorem Shifts.bind {g' : β → γ} {f : α → Eval β} {f' : α → Eval γ} (hx : Shifts s id x y)
    (hf : ∀ a, Shifts s g' (f a) (f' a)) : Shifts s g' (x >>= f) (y >>= f') :=
  shifts_bind hx hf

/-- An evaluation that goes on with a frame. -/
theorem Shifts.bindFrame {g' : β → γ} {x y : Eval Nat} {f : Nat → Eval β} {f' : Nat → Eval γ}
    (hx : Shifts s s.place x y) (hf : ∀ i, Shifts s g' (f i) (f' (s.place i))) : Shifts s g' (x >>= f) (y >>= f') :=
  shifts_bind hx hf

theorem Shifts.ite {g : α → β} {x' : Eval β} {y' : Eval β} {p q : Prop} [Decidable p] [Decidable q] (hpq : p ↔ q)
    (ht : Shifts s g x x') (hf : Shifts s g y y') : Shifts s g (if p then x else y) (if q then x' else y') := by
  by_cases hp : p
  · rw [if_pos hp, if_pos (hpq.1 hp)]
    exact ht
  · rw [if_neg hp, if_neg (mt hpq.2 hp)]
    exact hf

/-- What goes on after any exit has to run out of fuel where that was the exit. -/
theorem shifts_attemptBind {δ : Type} {x : Eval α} {y : Eval β} {g : α → β} {g' : γ → δ} {f : Except Exit α → Eval γ}
    {f' : Except Exit β → Eval δ} (hx : Shifts s g x y) (hf : ∀ r, Shifts s g' (f r) (f' (r.map g)))
    (hout : (f (.error .exhausted)).RunsOut) : Shifts s g' (attempt x >>= f) (attempt y >>= f') := by
  intro m hm
  obtain ⟨m', h⟩ | ⟨hy, hfits⟩ := hx m hm
  · rw [ShiftsAt, bind_ok (attempt_error h)]
    exact .inl (hout m')
  · rw [ShiftsAt]
    cases h : x m with
    | ok a m' =>
      rw [h] at hy
      rw [after_of_ok h] at hfits
      rw [bind_ok (attempt_ok h), bind_ok (attempt_ok hy), after_bind_of_ok (attempt_ok h)]
      exact hf (.ok a) m' hfits
    | error e m' =>
      rw [h] at hy
      rw [after_of_error h] at hfits
      rw [bind_ok (attempt_error h), bind_ok (attempt_error hy), after_bind_of_ok (attempt_error h)]
      exact hf (.error e) m' hfits

theorem Shifts.attemptBind {g' : β → γ} {f : Except Exit α → Eval β} {f' : Except Exit α → Eval γ}
    (hx : Shifts s id x y) (hf : ∀ r, Shifts s g' (f r) (f' r)) (hout : (f (.error .exhausted)).RunsOut) :
    Shifts s g' (attempt x >>= f) (attempt y >>= f') :=
  shifts_attemptBind hx (fun r => by rw [Except.map_id, id_eq]; exact hf r) hout

/-- What is done between a change of the machine and another one, that may set how many calls are active. -/
theorem shifts_between {δ : Type} (s' : Shift) {x : Eval α} {y : Eval β} {g : α → β} {g' : γ → δ}
    {enter enter' leave leave' : Machine → Machine} {f : Except Exit α → Eval γ} {f' : Except Exit β → Eval δ}
    (henter : ∀ m : Machine, enter' (m.shifted s) = (enter m).shifted s' ∧ (s.Fits m.heap → s'.Fits (enter m).heap))
    (hleave : ∀ m : Machine, leave' (m.shifted s') = (leave m).shifted s ∧ (s'.Fits m.heap → s.Fits (leave m).heap))
    (hx : Shifts s' g x y) (hf : ∀ r, Shifts s g' (f r) (f' (r.map g))) (hout : (f (.error .exhausted)).RunsOut) :
    Shifts s g' (do modify enter; let r ← attempt x; modify leave; f r)
      (do modify enter'; let r ← attempt y; modify leave'; f' r) := by
  intro m hm
  obtain ⟨he, hfits⟩ := henter m
  rw [ShiftsAt, after, run_between, run_between, he]
  obtain ⟨m', h⟩ | ⟨hy, hfits'⟩ := hx (enter m) (hfits hm)
  · rw [h]
    exact .inl (hout (leave m'))
  · cases h : x (enter m) with
    | ok a m' =>
      rw [h] at hy
      rw [after_of_ok h] at hfits'
      rw [hy]
      show _ ∨ f' (.ok (g a)) (leave' (m'.shifted s')) = _ ∧ _
      rw [(hleave m').1]
      exact hf (.ok a) (leave m') ((hleave m').2 hfits')
    | error e m' =>
      rw [h] at hy
      rw [after_of_error h] at hfits'
      rw [hy]
      show _ ∨ f' (.error e) (leave' (m'.shifted s')) = _ ∧ _
      rw [(hleave m').1]
      exact hf (.error e) (leave m') ((hleave m').2 hfits')

theorem shifts_forM {f f' : ι → Eval Unit} {xs : List ι} (hf : ∀ i ∈ xs, Shifts s id (f i) (f' i)) :
    Shifts s id (xs.forM f) (xs.forM f') := by
  induction xs with
  | nil => exact shifts_value
  | cons i xs ih => exact (hf i (.head _)).bind fun _ => ih fun j hj => hf j (.tail _ hj)

/-! ## The machine -/

/-- An evaluation that looks at the machine. -/
theorem shifts_get_bind {g : α → β} {k : Machine → Eval α} {k' : Machine → Eval β}
    (hk : ∀ m : Machine, s.Fits m.heap → Shifts s g (k m) (k' (m.shifted s))) :
    Shifts s g (get >>= k) (get >>= k') := fun m hm => hk m hm m hm

theorem shifts_heap_bind {g : α → β} {k : Heap → Eval α} {k' : Heap → Eval β}
    (hk : ∀ h : Heap, s.Fits h → Shifts s g (k h) (k' (h.shifted s))) :
    Shifts s g (heap >>= k) (heap >>= k') := fun m hm => hk m.heap hm m hm

theorem shifts_modify {f f' : Machine → Machine}
    (hf : ∀ m : Machine, s.Fits m.heap → f' (m.shifted s) = (f m).shifted s ∧ s.Fits (f m).heap) :
    Shifts s id (modify f) (modify f') := by
  intro m hm
  obtain ⟨he, hfits⟩ := hf m hm
  refine .inr ⟨?_, hfits⟩
  show EStateM.Result.ok () (f' (m.shifted s)) = _
  rw [he]
  rfl

/-- A change of the machine apart from its frames. -/
theorem shifts_change {f : Machine → Machine} (hf : ∀ m : Machine, f (m.shifted s) = (f m).shifted s)
    (hheap : ∀ m : Machine, (f m).heap = m.heap) : Shifts s id (modify f) (modify f) :=
  shifts_modify fun m hm => ⟨hf m, by rw [hheap]; exact hm⟩

theorem shifts_readHeap {g : α → β} {f : Heap → Except Fault α} {f' : Heap → Except Fault β}
    (hf : ∀ h : Heap, s.Fits h → f' (h.shifted s) = (f h).map g) : Shifts s g (readHeap f) (readHeap f') := by
  refine shifts_heap_bind fun h hh => ?_
  rw [hf h hh]
  cases f h with
  | ok a => exact shifts_pure
  | error fault => exact shifts_fail

/-- What is read of frames is the same. -/
theorem shifts_reading {f f' : Heap → Except Fault α} (hf : ∀ h : Heap, s.Fits h → f' (h.shifted s) = f h) :
    Shifts s id (readHeap f) (readHeap f') :=
  shifts_readHeap fun h hh => by
    rw [hf h hh]
    cases f h <;> rfl

theorem shifts_onHeap {g : α → β} {f : Heap → α × Heap} {f' : Heap → β × Heap}
    (hf : ∀ h : Heap, s.Fits h → f' (h.shifted s) = (g (f h).1, (f h).2.shifted s))
    (hsize : ∀ h : Heap, h.frames.size ≤ (f h).2.frames.size) : Shifts s g (onHeap f) (onHeap f') := by
  refine fun m hm => .inr ⟨?_, Heap.fits_of_size_le hm (hsize m.heap)⟩
  show EStateM.Result.ok (f' (m.heap.shifted s)).1 { m.shifted s with heap := (f' (m.heap.shifted s)).2 } = _
  rw [hf m.heap hm]
  rfl

theorem shifts_modifyHeap {f f' : Heap → Heap} (hf : ∀ h : Heap, s.Fits h → f' (h.shifted s) = (f h).shifted s)
    (hsize : ∀ h : Heap, h.frames.size ≤ (f h).frames.size) : Shifts s id (modifyHeap f) (modifyHeap f') :=
  shifts_onHeap (fun h hh => by rw [hf h hh]) hsize

/-! ## Frames and names -/

variable {i : Nat}

theorem shifts_newClosure {c : Closure} : Shifts s id (onHeap (·.newClosure c)) (onHeap (·.newClosure (c.shifted s))) :=
  shifts_onHeap (fun _ _ => Heap.newClosure_shifted) fun _ => Nat.le_refl _

theorem shifts_newFrame {f : Frame} : Shifts s s.place (onHeap (·.newFrame f)) (onHeap (·.newFrame (f.shifted s))) :=
  shifts_onHeap (fun _ hh => Heap.newFrame_shifted hh f) fun h => by simp

theorem shifts_childFrame {text : Text} {isPure : Bool} :
    Shifts s s.place (childFrame i text isPure) (childFrame (s.place i) text isPure) :=
  shifts_newFrame (f := { parent := some i, name := text, isPure := isPure })

theorem shifts_bindName {constant : Bool} :
    Shifts s id (modifyHeap (·.bind i name v constant)) (modifyHeap (·.bind (s.place i) name v constant)) :=
  shifts_modifyHeap (fun _ hh => Heap.bind_shifted hh) fun h => by simp

theorem shifts_define {constant : Bool} :
    Shifts s id (define i name v constant span) (define (s.place i) name v constant span) := by
  refine shifts_heap_bind fun h hh => ?_
  rw [Heap.isConstant_shifted hh]
  exact .ite .rfl shifts_fail shifts_bindName

theorem shifts_lookup {text : Text} : Shifts s id (lookup i text span) (lookup (s.place i) text span) :=
  shifts_reading fun _ hh => Heap.lookup_shifted hh

theorem shifts_assign {text : Text} : Shifts s id (assign i text v span) (assign (s.place i) text v span) :=
  (shifts_readHeap fun _ hh => Heap.assignable_shifted hh).bindFrame fun _ => shifts_bindName

theorem shifts_declareExport {altName : Option Text} :
    Shifts s id (declareExport i name altName span) (declareExport (s.place i) name altName span) := by
  intro m hm
  have hread : (m.heap.shifted s).declareExport (s.place i) name altName span =
      (m.heap.declareExport i name altName span).map (·.shifted s) := Heap.declareExport_shifted hm
  cases hd : m.heap.declareExport i name altName span with
  | error fault =>
    rw [hd] at hread
    have hx : readHeap (·.declareExport i name altName span) m = .error (.failed (.fault fault)) m :=
      readHeap_error hd
    have hy : readHeap (·.declareExport (s.place i) name altName span) (m.shifted s) =
        .error (.failed (.fault fault)) (m.shifted s) := readHeap_error hread
    rw [ShiftsAt, declareExport, declareExport, after_bind_of_error hx, bind_error hx, bind_error hy]
    exact .inr ⟨rfl, hm⟩
  | ok h =>
    rw [hd] at hread
    have hx : readHeap (·.declareExport i name altName span) m = .ok h m := readHeap_ok hd
    have hy : readHeap (·.declareExport (s.place i) name altName span) (m.shifted s) =
        .ok (h.shifted s) (m.shifted s) :=
      readHeap_ok hread
    have hsize : m.heap.frames.size ≤ h.frames.size := by
      obtain ⟨-, offered, -, -, rfl⟩ := Heap.declareExport_eq_ok hd
      simp
    rw [ShiftsAt, declareExport, declareExport, after_bind_of_ok hx, bind_ok hx, bind_ok hy]
    exact .inr ⟨rfl, Heap.fits_of_size_le hm hsize⟩

theorem shifts_note {stage : TryStage} {c : Block} : Shifts s id (note stage c) (note stage c) :=
  shifts_change (fun _ => rfl) fun _ => rfl

theorem shifts_recordFile {file : Option Text} :
    Shifts s id (Interp.recordFile i file) (Interp.recordFile (s.place i) file) := by
  refine shifts_get_bind fun m hm => ?_
  split
  · refine .ite ?_ (shifts_modifyHeap (fun _ hh => Heap.modifyFrame_shifted hh fun _ => rfl) fun h => by simp)
      shifts_value
    have hframe : ((m.shifted s).heap.frame (s.place i)).file = (m.heap.frame i).file := by
      show ((m.heap.shifted s).frame (s.place i)).file = _
      rw [Heap.frame_shifted hm]
      rfl
    rw [hframe]
    exact or_congr_left Shift.place_inj.symm
  · exact shifts_value

end Eval

end ScriptEngine

import ScriptEngine.Proofs.OrderedMap
import ScriptEngine.Value.Scope

/-!
# Frames after a change

* `frame_modifyFrame`, `frame_newFrame`: a change touches one frame, and a new frame none of the others.
* `resolve_binds`: a name resolves to a frame that binds it.
* `assignable_eq_ok`, `declareExport_eq_ok`: what is known when a name can be given a new value, and when
  it can be offered.
-/

namespace ScriptEngine

theorem OrderedMap.contains_iff {κ α : Type} [DecidableEq κ] {m : OrderedMap κ α} {k : κ} :
    m.contains k = true ↔ k ∈ m.keys := by
  simp [contains, keys]

theorem OrderedMap.contains_eq_isSome {κ α : Type} [DecidableEq κ] {m : OrderedMap κ α} {k : κ} :
    m.contains k = (m.get? k).isSome := by
  rw [Bool.eq_iff_iff, contains_iff, mem_keys_iff, Option.isSome_iff_exists]

namespace Heap

variable {h h' : Heap} {id owner : Nat} {name : Text} {span : Option Span}

@[simp] theorem size_modifyFrame (h : Heap) (id : Nat) (g : Frame → Frame) :
    (h.modifyFrame id g).frames.size = h.frames.size := by
  simp [modifyFrame]

@[simp] theorem size_bind (h : Heap) (id : Nat) (name : BindingName) (v : Value) (constant : Bool) :
    (h.bind id name v constant).frames.size = h.frames.size :=
  h.size_modifyFrame ..

@[simp] theorem size_newFrame (h : Heap) (f : Frame) :
    (h.newFrame f).2.frames.size = h.frames.size + 1 := by
  simp [newFrame]

theorem frame_of_frames_eq (hh : h'.frames = h.frames) (j : Nat) : h'.frame j = h.frame j := by
  rw [frame, frame, hh]

theorem frame_modifyFrame (h : Heap) (id j : Nat) (g : Frame → Frame) :
    (h.modifyFrame id g).frame j = if j = id ∧ j < h.frames.size then g (h.frame j) else h.frame j := by
  simp only [frame, modifyFrame, Array.getD_eq_getD_getElem?, Array.getElem?_modify]
  by_cases hj : id = j
  · subst hj
    by_cases hs : id < h.frames.size <;> simp [hs]
  · simp [hj, Ne.symm hj]

theorem frame_modifyFrame_of_ne {j : Nat} {g : Frame → Frame} (hj : j ≠ id) :
    (h.modifyFrame id g).frame j = h.frame j := by
  rw [frame_modifyFrame, if_neg fun hc => hj hc.1]

theorem frame_newFrame (h : Heap) (f : Frame) (j : Nat) :
    (h.newFrame f).2.frame j = if j = h.frames.size then f else h.frame j := by
  simp only [frame, newFrame, Array.getD_eq_getD_getElem?, Array.getElem?_push]
  split <;> rfl

theorem frame_newFrame_of_lt {f : Frame} {j : Nat} (hj : j < h.frames.size) :
    (h.newFrame f).2.frame j = h.frame j := by
  rw [frame_newFrame, if_neg (Nat.ne_of_lt hj)]

theorem frame_of_size_le {j : Nat} (hj : h.frames.size ≤ j) : h.frame j = {} := by
  rw [frame, Array.getD_eq_getD_getElem?, Array.getElem?_eq_none hj]
  rfl

/-- A change of one frame, for what is said of every frame. -/
theorem forall_modifyFrame {P : Frame → Prop} {g : Frame → Frame} (hP : ∀ j, P (h.frame j))
    (hg : P (g (h.frame id))) (j : Nat) : P ((h.modifyFrame id g).frame j) := by
  rw [frame_modifyFrame]
  split
  · next hj => exact hj.1 ▸ hg
  · exact hP j

/-- A new frame, for what is said of every frame. -/
theorem forall_newFrame {P : Frame → Prop} {f : Frame} (hP : ∀ j, P (h.frame j)) (hf : P f) (j : Nat) :
    P ((h.newFrame f).2.frame j) := by
  rw [frame_newFrame]
  split
  · exact hf
  · exact hP j

theorem resolveFrom_binds {crossed : Bool} (hr : h.resolveFrom name span crossed id = .ok owner) :
    (h.frame owner).bindings.contains (some name) = true := by
  fun_induction resolveFrom h name span crossed id with
  | case1 => cases hr
  | case2 crossed id f hb hc =>
    cases hr
    exact hb
  | case3 crossed id f hb p hp hlt ih => exact ih hr
  | case4 => cases hr
  | case5 => cases hr

/-- A name resolves to a frame that binds it. -/
theorem resolve_binds (hr : h.resolve id name span = .ok owner) :
    (h.frame owner).bindings.contains (some name) = true :=
  resolveFrom_binds hr

theorem resolve_of_assignable (ho : h.assignable id name span = .ok owner) :
    h.resolve id name span = .ok owner ∧ h.isConstant owner (some name) = false := by
  unfold assignable at ho
  cases hr : h.resolve id name span with
  | error fault => simp [hr, Bind.bind, Except.bind] at ho
  | ok f =>
    simp only [hr, Bind.bind, Except.bind] at ho
    split at ho
    · cases ho
    · next hc =>
      cases ho
      exact ⟨rfl, by simpa using hc⟩

theorem assignable_eq_ok (ho : h.assignable id name span = .ok owner) :
    (h.frame owner).bindings.contains (some name) = true ∧ h.isConstant owner (some name) = false :=
  (resolve_of_assignable ho).imp_left resolve_binds

/-- A binding is offered under its own name, unless there is another one that is not empty. -/
theorem declareExport_eq_ok {name : BindingName} {altName : Option Text}
    (he : h.declareExport id name altName span = .ok h') :
    (h.frame id).bindings.contains name = true ∧ ∃ offered : BindingName,
      (altName = none → offered = name) ∧ (offered = none → name = none) ∧
      h' = h.modifyFrame id fun f => { f with exports := f.exports.insert offered name } := by
  unfold declareExport at he
  split at he
  · next hb =>
    cases he
    refine ⟨hb, _, ?_, ?_, rfl⟩
    · rintro rfl
      rfl
    · split
      · exact nofun
      · exact fun hn => hn
  · cases he

end Heap

end ScriptEngine

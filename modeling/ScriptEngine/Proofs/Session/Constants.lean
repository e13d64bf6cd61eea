import ScriptEngine.Proofs.Session.Requests

/-!
# Constants

* **Constants stay** (`Frame.KeepsConstants`): a name that is a constant of a frame remains one and keeps
  its value, whatever the session is asked and however that ends.
* **Frames are sound** (`Frame.Sound`): in every machine that a session passes through the constants of a
  frame are bound in it, and so is what it offers.

The nameless name is offered like others by an exported pattern without names, but has no value for
importers.
-/

namespace ScriptEngine

/-- The constants of a frame, and the bindings that it offers, are bound in it. The nameless name is
offered for the nameless binding, and other names for others. -/
structure Frame.Sound (f : Frame) : Prop where
  constants : f.constants ⊆ f.bindings.keys
  exports : ∀ {offered name}, f.exports.get? offered = some name → name ∈ f.bindings.keys
  nameless : ∀ {offered name}, f.exports.get? offered = some name → (name = none ↔ offered = none)

/-- The constants of a frame are constants of another, with the same values. -/
def Frame.KeepsConstants (f f' : Frame) : Prop :=
  ∀ x ∈ f.constants, x ∈ f'.constants ∧ f'.bindings.get? x = f.bindings.get? x

namespace Frame

variable {f f' f'' : Frame} {name offered : BindingName} {v : Value} {constant : Bool}

theorem IsNew.sound (hf : f.IsNew) : f.Sound where
  constants := by simp [hf.constants]
  exports := by simp [hf.exports, OrderedMap.empty, OrderedMap.get?]
  nameless := by simp [hf.exports, OrderedMap.empty, OrderedMap.get?]

theorem Sound.bind (hf : f.Sound) : Sound
    { f with bindings := f.bindings.insert name v,
             constants := if constant then f.constants ++ [name] else f.constants } := by
  have hkeys : f.bindings.keys ⊆ (f.bindings.insert name v).keys := by
    rw [OrderedMap.keys_insert]
    split <;> simp
  have hname : name ∈ (f.bindings.insert name v).keys := by
    rw [OrderedMap.keys_insert]
    split <;> simp [*]
  refine ⟨?_, fun he => hkeys (hf.exports he), hf.nameless⟩
  cases constant with
  | false => exact fun x hx => hkeys (hf.constants hx)
  | true => exact List.append_subset.2 ⟨fun x hx => hkeys (hf.constants hx), by simpa using hname⟩

theorem Sound.offer (hf : f.Sound) (hbound : f.bindings.contains name = true)
    (hname : name = none ↔ offered = none) :
    Sound { f with exports := f.exports.insert offered name } := by
  refine ⟨hf.constants, fun he => ?_, fun he => ?_⟩
  all_goals
    rw [OrderedMap.get?_insert] at he
    split at he
  · cases he
    exact OrderedMap.contains_iff.1 hbound
  · exact hf.exports he
  · next ho =>
    cases he
    rw [ho]
    exact hname
  · exact hf.nameless he

theorem KeepsConstants.refl (f : Frame) : f.KeepsConstants f := fun _ hx => ⟨hx, rfl⟩

theorem KeepsConstants.trans (h : f.KeepsConstants f') (h' : f'.KeepsConstants f'') :
    f.KeepsConstants f'' := by
  intro x hx
  obtain ⟨hx', hv⟩ := h x hx
  obtain ⟨hx'', hv'⟩ := h' x hx'
  exact ⟨hx'', hv'.trans hv⟩

end Frame

namespace Heap

variable {h : Heap} {id : Nat} {name : BindingName} {v : Value} {constant : Bool}

/-- Binding a name that is no constant keeps the constants. -/
theorem keepsConstants_bind (hfree : h.isConstant id name = false) (j : Nat) :
    (h.frame j).KeepsConstants ((h.bind id name v constant).frame j) := by
  rw [bind, frame_modifyFrame]
  split
  · next hj =>
    intro x hx
    -- a constant is not the name that is bound, since that is none
    have hne : x ≠ name := by
      rintro rfl
      rw [hj.1] at hx
      simp [isConstant, hx] at hfree
    refine ⟨?_, ?_⟩
    · show x ∈ if constant then (h.frame j).constants ++ [name] else (h.frame j).constants
      split <;> simp [hx]
    · rw [OrderedMap.get?_insert, if_neg hne]
  · exact .refl _

/-- A change of a frame that leaves its bindings and constants as they are. -/
theorem keepsConstants_modifyFrame {g : Frame → Frame} (hg : ∀ f : Frame, f.KeepsConstants (g f))
    (j : Nat) :
    (h.frame j).KeepsConstants ((h.modifyFrame id g).frame j) := by
  rw [frame_modifyFrame]
  split
  · exact hg _
  · exact .refl _

theorem keepsConstants_newFrame {f : Frame} (j : Nat) :
    (h.frame j).KeepsConstants ((h.newFrame f).2.frame j) := by
  rw [frame_newFrame]
  split
  · next hj =>
    rw [frame_of_size_le (Nat.le_of_eq hj.symm)]
    exact nofun
  · exact .refl _

/-- What a sound frame offers has a value for importers, if it has a name. -/
theorem export?_isSome_iff {f : Nat} {offered : BindingName} (hf : (h.frame f).Sound)
    (ho : offered ∈ h.exportedNames f) : (∃ v, h.export? f offered = some v) ↔ offered ≠ none := by
  obtain ⟨name, hname⟩ := OrderedMap.mem_keys_iff.1 ho
  rw [Ne, ← not_congr (hf.nameless hname)]
  have hrun : h.export? f offered = name.bind fun t => (h.frame f).bindings.get? (some t) := by
    simp only [export?, hname, Option.bind_eq_bind, Option.bind_some]
  rw [hrun]
  cases name with
  | none => simp
  | some t =>
    obtain ⟨v, hv⟩ := OrderedMap.mem_keys_iff.1 (hf.exports hname)
    exact iff_of_true ⟨v, hv⟩ (by simp)

end Heap

namespace Machine

variable {s : Nat} {m m' : Machine}

/-- Every frame stays sound. -/
theorem Runs.sound (h : Runs s m m') (hm : ∀ f, (m.heap.frame f).Sound) (f : Nat) :
    (m'.heap.frame f).Sound := by
  induction h generalizing f with
  | still _ hframes _ =>
    rw [Heap.frame_of_frames_eq hframes]
    exact hm f
  | trans _ _ ih ih' => exact ih' (ih hm) f
  | define => exact Heap.forall_modifyFrame hm (hm _).bind f
  | assign => exact Heap.forall_modifyFrame hm (hm _).bind f
  | offer hbound hname => exact Heap.forall_modifyFrame hm ((hm _).offer hbound hname) f
  | record => exact Heap.forall_modifyFrame hm ⟨(hm _).constants, (hm _).exports, (hm _).nameless⟩ f
  | enter hnew _ ih => exact ih (Heap.forall_newFrame hm hnew.sound) f
  | note | reuse => exact hm f
  | abandon _ _ _ ih => exact ih hm f
  | load _ _ _ ih => exact ih hm f

/-- Every frame keeps its constants. -/
theorem Runs.keepsConstants (h : Runs s m m') (f : Nat) :
    (m.heap.frame f).KeepsConstants (m'.heap.frame f) := by
  induction h with
  | still _ hframes _ =>
    rw [Heap.frame_of_frames_eq hframes]
    exact .refl _
  | trans _ _ ih ih' => exact ih.trans ih'
  | define hfree => exact Heap.keepsConstants_bind hfree f
  | assign _ hfree => exact Heap.keepsConstants_bind hfree f
  | offer | record =>
    refine Heap.keepsConstants_modifyFrame (fun _ => ?_) f
    exact fun _ hx => ⟨hx, rfl⟩
  | enter _ _ ih => exact (Heap.keepsConstants_newFrame f).trans ih
  | note | reuse => exact .refl _
  | abandon _ _ _ ih => exact ih
  | load _ _ _ ih => exact ih

end Machine

namespace Session

open Relation

variable {m m' : Machine}

theorem Step.sound (h : Step m m') (hm : ∀ f, (m.heap.frame f).Sound) (f : Nat) :
    (m'.heap.frame f).Sound := by
  obtain ⟨s, hr⟩ | ⟨fr, hnew, rfl⟩ | ⟨ms, rfl⟩ := h.effect
  · exact hr.sound hm f
  · exact Heap.forall_newFrame hm hnew.sound f
  · exact hm f

theorem Step.keepsConstants (h : Step m m') (f : Nat) :
    (m.heap.frame f).KeepsConstants (m'.heap.frame f) := by
  obtain ⟨s, hr⟩ | ⟨fr, hnew, rfl⟩ | ⟨ms, rfl⟩ := h.effect
  · exact hr.keepsConstants f
  · exact Heap.keepsConstants_newFrame f
  · exact .refl _

theorem isNew_blank (settings : Settings) (input : Text) :
    ∀ f, ((blank settings input).heap.frame f).IsNew
  | 0 => ⟨rfl, rfl, rfl⟩
  | 1 => ⟨rfl, rfl, rfl⟩
  | _ + 2 => ⟨rfl, rfl, rfl⟩

/-- Every machine that a session passes through has sound frames. -/
theorem sound_of_steps {settings : Settings} {input : Text}
    (hm : ReflTransGen Step (blank settings input) m) (f : Nat) : (m.heap.frame f).Sound := by
  induction hm generalizing f with
  | refl => exact (isNew_blank settings input f).sound
  | tail _ h ih => exact h.sound ih f

theorem keepsConstants_of_steps (hm : ReflTransGen Step m m') (f : Nat) :
    (m.heap.frame f).KeepsConstants (m'.heap.frame f) := by
  induction hm with
  | refl => exact .refl _
  | tail _ h ih => exact ih.trans (h.keepsConstants f)

/-- A constant of a frame remains one and keeps its value for the rest of the session. At every point the
constants of a frame are bound in it and so is what it offers, which has a value for importers exactly if
it has a name. -/
theorem constants_never_change {settings : Settings} {input : Text} (f : Nat)
    (hm : ReflTransGen Step (blank settings input) m) (hm' : ReflTransGen Step m m') :
    (∀ x ∈ (m.heap.frame f).constants, x ∈ (m'.heap.frame f).constants ∧
      (m'.heap.frame f).bindings.get? x = (m.heap.frame f).bindings.get? x) ∧
    (m.heap.frame f).constants ⊆ (m.heap.frame f).bindings.keys ∧
    (∀ offered target, (m.heap.frame f).exports.get? offered = some target →
      target ∈ (m.heap.frame f).bindings.keys) ∧
    ∀ offered ∈ m.heap.exportedNames f,
      (∃ v, m.heap.export? f offered = some v) ↔ offered ≠ none := by
  have hf := sound_of_steps hm f
  refine ⟨keepsConstants_of_steps hm' f, hf.constants, fun _ _ => hf.exports, fun _ ho => ?_⟩
  exact Heap.export?_isSome_iff hf ho

/-- The machine after a source has been run. -/
def afterSource (text : Text) (m : Machine) : Machine := (Request.source text none).serve m

/-- An attempt to give a constant another value leaves it as it was, and it can be imported. -/
theorem constants_never_change_exported :
    let m := afterSource "export const x = 5" (blank {} [])
    let m' := afterSource "x = 6" m
    some ("x" : Text) ∈ (m.heap.frame mainFrame).constants ∧
    some ("x" : Text) ∈ m.heap.exportedNames mainFrame ∧
    (some ("x" : Text) ∈ (m'.heap.frame mainFrame).constants ∧
      (m'.heap.frame mainFrame).bindings.get? (some "x") =
        (m.heap.frame mainFrame).bindings.get? (some "x")) ∧
    ∃ v, m.heap.export? mainFrame (some "x") = some v := by
  intro m m'
  have hconstant : some ("x" : Text) ∈ (m.heap.frame mainFrame).constants := by
    unfold m
    rw [Text.ofString_ofList]
    decide +kernel
  have hoffered : some ("x" : Text) ∈ m.heap.exportedNames mainFrame := by
    unfold m
    rw [Text.ofString_ofList]
    decide +kernel
  have hm : ReflTransGen Step (blank {} []) m := .single (.request _)
  have hm' : ReflTransGen Step m m' := .single (.request _)
  obtain ⟨hkept, -, -, hvalue⟩ := constants_never_change mainFrame hm hm'
  exact ⟨hconstant, hoffered, hkept _ hconstant, (hvalue _ hoffered).2 nofun⟩

/-- A pattern without names offers the nameless name, which has no value. -/
theorem nameless_export_has_no_value :
    let m := afterSource "export let [] = [1]" (blank {} [])
    m.heap.exportedNames mainFrame = [none] ∧ (m.heap.export? mainFrame none).isNone := by
  rw [Text.ofString_ofList]
  decide +kernel

end Session

end ScriptEngine

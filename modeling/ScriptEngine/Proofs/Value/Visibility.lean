import Mathlib.Data.List.Forall2
import ScriptEngine.Proofs.Eval.Run
import ScriptEngine.Proofs.Value.Frames

/-!
# What a pure function can see

From a frame of a chain a name can reach the frames up to the first one of a pure function, and the global
frames behind (`Frame.Seen`).

* `Heap.lookup_eq_seenValue`: the value of a name is found by a walk over the frames of the chain alone.
* `Heap.nearest_of_resolveFrom`: a name resolves to the nearest frame that binds it, which is seen.
* `Eval.assigns`: an assignment changes one binding there, or nothing.
* **Pure frames hide** (`pure_frames_hide`): two chains of the same shape that agree on what is seen give every
  name the same value or the same fault, and no assignment changes a frame that is not seen.
-/

namespace ScriptEngine

/-! ## Chains of frames -/

/-- Two frames have the same flags and bind the same names. -/
structure Frame.SameShape (f g : Frame) : Prop where
  isGlobal : f.isGlobal = g.isGlobal
  isPure : f.isPure = g.isPure
  names : ∀ name, f.bindings.contains name = g.bindings.contains name

/-- The frame at a place of a chain is seen: no frame before it is that of a pure function, or it is
global. -/
def Frame.Seen (fs : List Frame) (i : Nat) : Prop :=
  (∀ f ∈ fs.take i, f.isPure = false) ∨ ∃ f, fs[i]? = some f ∧ f.isGlobal = true

/-- The frame at a place of a chain is seen by code of which `crossed` tells whether it is beyond the frame of a
pure function already. -/
def Frame.SeenFrom (crossed : Bool) (fs : List Frame) (i : Nat) : Prop :=
  (crossed = false ∧ ∀ f ∈ fs.take i, f.isPure = false) ∨ ∃ f, fs[i]? = some f ∧ f.isGlobal = true

/-- Two frames give the same values. -/
def Frame.SameValues (f g : Frame) : Prop := ∀ name, f.bindings.get? name = g.bindings.get? name

namespace Frame

variable {f g : Frame} {fs gs : List Frame} {crossed : Bool} {i : Nat} {name : Text} {span : Option Span}

theorem seenFrom_false : SeenFrom false fs i ↔ Seen fs i := by simp [SeenFrom, Seen]

theorem seenFrom_cons_zero : SeenFrom crossed (f :: fs) 0 ↔ (crossed && !f.isGlobal) = false := by
  cases crossed <;> simp [SeenFrom]

theorem seenFrom_cons_succ :
    SeenFrom crossed (f :: fs) (i + 1) ↔ SeenFrom (crossed || f.isPure) fs i := by
  simp only [SeenFrom, List.take_succ_cons, List.forall_mem_cons, List.getElem?_cons_succ, Bool.or_eq_false_iff,
    and_assoc]

/-- The value of a name in a chain of frames. -/
def seenValue (name : Text) (span : Option Span) : Bool → List Frame → Except Fault Value
  | _, [] => .error { kind := .name, message := "'" ++ name ++ "' is not defined", span := span }
  | crossed, f :: fs =>
    match f.bindings.get? (some name) with
    | some v => if crossed && !f.isGlobal then .error (Heap.capturedFault name span) else .ok v
    | none => seenValue name span (crossed || f.isPure) fs

/-- What is not seen does not matter. -/
theorem seenValue_eq (hshape : List.Forall₂ SameShape fs gs)
    (hagree : ∀ i f g, fs[i]? = some f → gs[i]? = some g → SeenFrom crossed fs i → f.SameValues g) :
    seenValue name span crossed fs = seenValue name span crossed gs := by
  induction hshape generalizing crossed with
  | nil => rfl
  | @cons f g fs gs hfg _ ih =>
    have hrest : seenValue name span (crossed || f.isPure) fs = seenValue name span (crossed || f.isPure) gs :=
      ih fun i f' g' hf hg hs => hagree (i + 1) f' g' hf hg (seenFrom_cons_succ.2 hs)
    by_cases hseen : (crossed && !f.isGlobal) = false
    · have hvalues := hagree 0 f g rfl rfl (seenFrom_cons_zero.2 hseen)
      rw [seenValue, seenValue, hvalues (some name), hrest, hfg.isPure, hfg.isGlobal]
    · -- only whether the name is bound can be told
      have hnames := hfg.names (some name)
      rw [OrderedMap.contains_eq_isSome, OrderedMap.contains_eq_isSome] at hnames
      rw [seenValue, seenValue, hrest, hfg.isPure, ← hfg.isGlobal]
      cases hf : f.bindings.get? (some name) <;> cases hg : g.bindings.get? (some name) <;>
        simp_all

theorem seenValue_bound {v : Value} (hv : f.bindings.get? (some name) = some v) :
    seenValue name span crossed (f :: fs) =
      if crossed && !f.isGlobal then .error (Heap.capturedFault name span) else .ok v := by
  rw [seenValue, hv]

theorem seenValue_unbound (hn : f.bindings.get? (some name) = none) :
    seenValue name span crossed (f :: fs) = seenValue name span (crossed || f.isPure) fs := by
  rw [seenValue, hn]

end Frame

namespace Heap

variable {h h' : Heap} {id id' owner i : Nat} {name : Text} {span : Option Span} {v : Value}
  {crossed : Bool} {m m' : Machine}

/-- The frames of a chain, innermost first. -/
def scope (h : Heap) (id : Nat) : List Frame := (h.chain id).map h.frame

theorem chain_of_parent {p : Nat} (hp : (h.frame id).parent = some p) (hlt : p < id) :
    h.chain id = id :: h.chain p := by
  rw [chain, hp]
  exact if_pos hlt

theorem chain_of_not_lt {p : Nat} (hp : (h.frame id).parent = some p) (hlt : ¬ p < id) :
    h.chain id = [id] := by
  rw [chain, hp]
  exact if_neg hlt

theorem chain_of_root (hp : (h.frame id).parent = none) : h.chain id = [id] := by
  rw [chain, hp]

theorem chain_eq_cons (h : Heap) (id : Nat) : ∃ rest, h.chain id = id :: rest := by
  rw [chain]
  split
  · split <;> exact ⟨_, rfl⟩
  · exact ⟨_, rfl⟩

/-- Every frame of a chain is older than those before it. -/
theorem le_of_mem_chain {p : Nat} (hp : p ∈ h.chain id) : p ≤ id := by
  induction id using Nat.strongRecOn generalizing p with
  | ind id ih =>
    rw [chain] at hp
    split at hp
    · split at hp
      · next q _ hlt =>
        obtain rfl | hp := List.mem_cons.1 hp
        · exact Nat.le_refl _
        · exact Nat.le_of_lt (Nat.lt_of_le_of_lt (ih q hlt hp) hlt)
      · exact Nat.le_of_eq (List.mem_singleton.1 hp)
    · exact Nat.le_of_eq (List.mem_singleton.1 hp)

theorem nodup_chain : (h.chain id).Nodup := by
  induction id using Nat.strongRecOn with
  | ind id ih =>
    rw [chain]
    split
    · split
      · next q _ hlt =>
        refine List.nodup_cons.2 ⟨fun hmem => ?_, ih q hlt⟩
        exact absurd (le_of_mem_chain hmem) (Nat.not_le.2 hlt)
      · exact List.nodup_singleton _
    · exact List.nodup_singleton _

/-- The value of a name is found by a walk over the frames of the chain. -/
theorem resolveFrom_seenValue :
    (h.resolveFrom name span crossed id).map
      (fun f => ((h.frame f).bindings.get? (some name)).getD .null) =
    Frame.seenValue name span crossed (h.scope id) := by
  fun_induction resolveFrom h name span crossed id with
  | case1 crossed id f hb hc =>
    obtain ⟨rest, hrest⟩ := h.chain_eq_cons id
    rw [OrderedMap.contains_eq_isSome, Option.isSome_iff_exists] at hb
    obtain ⟨v, hv⟩ := hb
    rw [scope, hrest, List.map_cons, Frame.seenValue_bound hv, if_pos hc]
    rfl
  | case2 crossed id f hb hc =>
    obtain ⟨rest, hrest⟩ := h.chain_eq_cons id
    rw [OrderedMap.contains_eq_isSome, Option.isSome_iff_exists] at hb
    obtain ⟨v, hv⟩ := hb
    rw [scope, hrest, List.map_cons, Frame.seenValue_bound hv, if_neg hc]
    show Except.ok (((h.frame id).bindings.get? (some name)).getD .null) = _
    rw [hv]
    rfl
  | case3 crossed id f hb p hp hlt ih =>
    rw [OrderedMap.contains_eq_isSome, Bool.not_eq_true, Option.isSome_eq_false_iff, Option.isNone_iff_eq_none] at hb
    rw [ih, scope, scope, chain_of_parent hp hlt, List.map_cons, Frame.seenValue_unbound hb]
  | case4 crossed id f hb p hp hlt =>
    rw [OrderedMap.contains_eq_isSome, Bool.not_eq_true, Option.isSome_eq_false_iff, Option.isNone_iff_eq_none] at hb
    rw [scope, chain_of_not_lt hp hlt, List.map_singleton, Frame.seenValue_unbound hb]
    rfl
  | case5 crossed id f hb hp =>
    rw [OrderedMap.contains_eq_isSome, Bool.not_eq_true, Option.isSome_eq_false_iff, Option.isNone_iff_eq_none] at hb
    rw [scope, chain_of_root hp, List.map_singleton, Frame.seenValue_unbound hb]
    rfl

theorem lookup_eq_seenValue : h.lookup id name span = Frame.seenValue name span false (h.scope id) := by
  rw [← resolveFrom_seenValue]
  unfold lookup resolve
  cases h.resolveFrom name span false id <;> rfl

/-- A frame is the nearest one of a chain that binds a name, at a given place. -/
structure Nearest (h : Heap) (id : Nat) (name : Text) (i owner : Nat) : Prop where
  place : (h.chain id)[i]? = some owner
  bound : (h.frame owner).bindings.contains (some name) = true
  first : ∀ p ∈ (h.chain id).take i, (h.frame p).bindings.contains (some name) = false

/-- A name resolves to the nearest frame that binds it, which is seen. -/
theorem nearest_of_resolveFrom (hr : h.resolveFrom name span crossed id = .ok owner) :
    ∃ i, h.Nearest id name i owner ∧ Frame.SeenFrom crossed (h.scope id) i := by
  fun_induction resolveFrom h name span crossed id with
  | case1 => cases hr
  | case2 crossed id f hb hc =>
    cases hr
    obtain ⟨rest, hrest⟩ := h.chain_eq_cons owner
    refine ⟨0, ⟨by rw [hrest]; rfl, hb, by simp⟩, ?_⟩
    rw [scope, hrest, List.map_cons, Frame.seenFrom_cons_zero]
    simpa using hc
  | case3 crossed id f hb p hp hlt ih =>
    obtain ⟨i, hnear, hseen⟩ := ih hr
    refine ⟨i + 1, ⟨?_, hnear.bound, ?_⟩, ?_⟩
    · rw [chain_of_parent hp hlt, List.getElem?_cons_succ]
      exact hnear.place
    · rw [chain_of_parent hp hlt, List.take_succ_cons, List.forall_mem_cons]
      exact ⟨by simpa using hb, hnear.first⟩
    · rw [scope, chain_of_parent hp hlt, List.map_cons, Frame.seenFrom_cons_succ]
      exact hseen
  | case4 => cases hr
  | case5 => cases hr

/-- A frame of a chain that is not seen stands at another place than one that is. -/
theorem ne_of_not_seen {j : Nat} (ho : (h.chain id)[i]? = some owner) (hs : Frame.Seen (h.scope id) i)
    {k : Nat} (hj : (h.chain id)[k]? = some j) (hn : ¬ Frame.Seen (h.scope id) k) : j ≠ owner := by
  rintro rfl
  obtain ⟨hi, ho⟩ := List.getElem?_eq_some_iff.1 ho
  obtain ⟨hk, hj⟩ := List.getElem?_eq_some_iff.1 hj
  exact hn ((nodup_chain.getElem_inj_iff.1 (hj.trans ho.symm)) ▸ hs)

/-- A name can be given a new value in the nearest frame that binds it only, which is seen. -/
theorem nearest_of_assignable (ha : h.assignable id name span = .ok owner) :
    ∃ i, h.Nearest id name i owner ∧ Frame.Seen (h.scope id) i := by
  obtain ⟨i, hnear, hseen⟩ := nearest_of_resolveFrom (resolve_of_assignable ha).1
  exact ⟨i, hnear, Frame.seenFrom_false.1 hseen⟩

/-- A frame that binds a name is a frame of the heap. -/
theorem lt_of_bound {x : BindingName} (hb : (h.frame owner).bindings.contains x = true) :
    owner < h.frames.size := by
  refine Nat.lt_of_not_le fun hle => ?_
  rw [frame_of_size_le hle] at hb
  simp [OrderedMap.contains, OrderedMap.empty] at hb

/-- One heap is another with one binding of one frame changed. -/
structure Rebound (h h' : Heap) (owner : Nat) (x : BindingName) (v : Value) : Prop where
  bindings : ∀ j y, (h'.frame j).bindings.get? y =
    if j = owner ∧ y = x then some v else (h.frame j).bindings.get? y
  others : ∀ j, j ≠ owner → h'.frame j = h.frame j
  rest : { h' with frames := h.frames } = h

theorem rebound_bind {x : BindingName} (hb : (h.frame owner).bindings.contains x = true) :
    h.Rebound (h.bind owner x v false) owner x v where
  bindings j y := by
    rw [bind, frame_modifyFrame]
    by_cases hj : j = owner
    · subst hj
      rw [if_pos ⟨rfl, lt_of_bound hb⟩, OrderedMap.get?_insert]
      by_cases hy : y = x <;> simp [hy]
    · rw [if_neg fun hc => hj hc.1, if_neg fun hc => hj hc.1]
  others j hj := frame_modifyFrame_of_ne hj
  rest := rfl

end Heap

/-! ## Assignment -/

namespace Eval

variable {frame owner : Nat} {name : Text} {v : Value} {span : Option Span} {m : Machine} {fault : Fault}

theorem assign_ok (ha : m.heap.assignable frame name span = .ok owner) :
    assign frame name v span m = .ok () { m with heap := m.heap.bind owner (some name) v false } := by
  have hread : readHeap (·.assignable frame name span) m = .ok owner m := readHeap_ok ha
  exact bind_ok hread

theorem assign_error (ha : m.heap.assignable frame name span = .error fault) :
    assign frame name v span m = .error (.failed (.fault fault)) m := by
  have hread : readHeap (·.assignable frame name span) m = .error (.failed (.fault fault)) m := readHeap_error ha
  exact bind_error hread

/-- What an assignment does: it changes the binding in the nearest frame that binds the name, which is seen, or
it fails and changes nothing. -/
inductive Assigns (m : Machine) (frame : Nat) (name : Text) (v : Value) : EStateM.Result Exit Machine Unit → Prop
  | changed {i owner : Nat} {h : Heap} (nearest : m.heap.Nearest frame name i owner)
      (seen : Frame.Seen (m.heap.scope frame) i) (rebound : m.heap.Rebound h owner (some name) v) :
      Assigns m frame name v (.ok () { m with heap := h })
  | refused (fault : Fault) : Assigns m frame name v (.error (.failed (.fault fault)) m)

theorem assigns (frame : Nat) (name : Text) (v : Value) (span : Option Span) (m : Machine) :
    Assigns m frame name v (assign frame name v span m) := by
  cases ha : m.heap.assignable frame name span with
  | error fault =>
    rw [assign_error ha]
    exact .refused fault
  | ok owner =>
    rw [assign_ok ha]
    obtain ⟨i, hnear, hseen⟩ := Heap.nearest_of_assignable ha
    exact .changed hnear hseen (Heap.rebound_bind hnear.bound)

/-- A frame of the chain that is not seen stays as it is. -/
theorem assign_keeps_unseen {k j : Nat} (hj : (m.heap.chain frame)[k]? = some j)
    (hn : ¬ Frame.Seen (m.heap.scope frame) k) :
    ((assign frame name v span).after m).heap.frame j = m.heap.frame j := by
  have ha := assigns frame name v span m
  unfold after
  revert ha
  cases assign frame name v span m <;> rintro (⟨hnear, hseen, hre⟩ | _)
  · exact hre.others j (Heap.ne_of_not_seen hnear.place hseen hj hn)
  · rfl

end Eval

/-! ## Two chains -/

/-- Two chains of the same shape, with the same values in every frame that is seen, give every name the same
value or the same fault. An assignment changes the binding in the nearest frame that binds the name, or nothing,
and none of the frames that are not seen. -/
theorem pure_frames_hide {h h' : Heap} {id id' : Nat}
    (hshape : List.Forall₂ Frame.SameShape (h.scope id) (h'.scope id'))
    (hagree : ∀ i f g, (h.scope id)[i]? = some f → (h'.scope id')[i]? = some g →
      Frame.Seen (h.scope id) i → f.SameValues g) :
    (∀ name span, h.lookup id name span = h'.lookup id' name span) ∧
    (∀ m : Machine, ∀ frame name v span,
      Eval.Assigns m frame name v (Eval.assign frame name v span m) ∧
      ∀ k j, (m.heap.chain frame)[k]? = some j → ¬ Frame.Seen (m.heap.scope frame) k →
        ((Eval.assign frame name v span).after m).heap.frame j = m.heap.frame j) := by
  refine ⟨fun name span => ?_, fun m frame name v span =>
    ⟨Eval.assigns frame name v span m, fun k j => Eval.assign_keeps_unseen⟩⟩
  rw [Heap.lookup_eq_seenValue, Heap.lookup_eq_seenValue]
  exact Frame.seenValue_eq hshape fun i f g hf hg hs => hagree i f g hf hg (Frame.seenFrom_false.1 hs)

/-- A block in a pure function, defined in a frame that binds a secret, which is in a global frame. -/
def hidingFrames (secret : Value) : List Frame :=
  [{ bindings := .ofList [(some "limit", .number 9)], isGlobal := true },
   { bindings := .ofList [(some "secret", secret)], parent := some 0 },
   { bindings := .ofList [(some "x", .number 1)], parent := some 1, isPure := true },
   { parent := some 2 }]

/-- The heap of these frames. -/
def hidingHeap (secret : Value) : Heap := { frames := (hidingFrames secret).toArray }

theorem scope_hidingHeap (secret : Value) : (hidingHeap secret).scope 3 = (hidingFrames secret).reverse := by
  have h3 : (hidingHeap secret).chain 3 = 3 :: (hidingHeap secret).chain 2 :=
    Heap.chain_of_parent rfl (by decide)
  have h2 : (hidingHeap secret).chain 2 = 2 :: (hidingHeap secret).chain 1 :=
    Heap.chain_of_parent rfl (by decide)
  have h1 : (hidingHeap secret).chain 1 = 1 :: (hidingHeap secret).chain 0 :=
    Heap.chain_of_parent rfl (by decide)
  have h0 : (hidingHeap secret).chain 0 = [0] := Heap.chain_of_root rfl
  rw [Heap.scope, h3, h2, h1, h0]
  rfl

/-- The secret is not seen: whatever it is, the block cannot tell, and is told that it is captured. -/
theorem pure_frames_hide_secret :
    (∀ name span, (hidingHeap .null).lookup 3 name span = (hidingHeap (.bool true)).lookup 3 name span) ∧
    (hidingHeap .null).lookup 3 "secret" none = .error (Heap.capturedFault "secret" none) ∧
    (hidingHeap .null).lookup 3 "limit" none = .ok (.number 9) := by
  refine ⟨(pure_frames_hide ?_ ?_).1, ?_, ?_⟩
  · rw [scope_hidingHeap, scope_hidingHeap]
    refine .cons ⟨rfl, rfl, fun _ => rfl⟩ (.cons ⟨rfl, rfl, fun _ => rfl⟩ (.cons ⟨rfl, rfl, fun name => ?_⟩
      (.cons ⟨rfl, rfl, fun _ => rfl⟩ .nil)))
    exact rfl
  · rw [scope_hidingHeap, scope_hidingHeap]
    intro i f g hf hg hseen
    match i with
    | 0 | 1 | 3 =>
      cases hf
      cases hg
      exact fun _ => rfl
    | 2 =>
      obtain hpure | ⟨f', hf', hglobal⟩ := hseen
      · exact absurd (hpure _ (.tail _ (.head _))) (by decide)
      · cases hf'
        cases hglobal
    | i + 4 => cases hf
  · rw [Heap.lookup_eq_seenValue, scope_hidingHeap]
    rfl
  · rw [Heap.lookup_eq_seenValue, scope_hidingHeap]
    rfl

end ScriptEngine

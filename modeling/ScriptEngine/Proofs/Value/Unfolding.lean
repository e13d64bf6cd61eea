import ScriptEngine.Proofs.Value.Printing
import ScriptEngine.Value.Datum

/-!
# Values that come to an end

The plain data of a value are made of those of its parts: the elements of an array, the entries of an object and the
target of a reference. They are found if the parts come to an end (`Heap.Finite.exists_toDatum?`), because then no
cell is inside itself and there are as many steps as cells (`holds_in_steps`).
-/

namespace ScriptEngine

open Relation (TransGen)

/-- What holds of a place with a step more than of its parts holds with a step more than there are places that have
parts, unless parts go on without end. -/
theorem holds_in_steps {α : Type} {r : α → α → Prop} {P : Nat → α → Prop} {sites : List α} {a : α} (ha : Acc r a)
    (hsites : ∀ {a b}, r b a → a ∈ sites) (hstep : ∀ {n a}, (∀ b, r b a → P n b) → P (n + 1) a) :
    P (sites.length + 1) a := by
  -- The places that `a` stands inside are all different, so there is always a step left.
  suffices ∀ within : List α, within.Nodup → within ⊆ sites → (∀ c ∈ within, TransGen r a c) →
      ∀ n, n + within.length = sites.length + 1 → P n a from
    this [] List.nodup_nil (List.nil_subset _) nofun _ rfl
  induction ha with
  | intro a hacc ih =>
    intro within hnodup hsub habove n hn
    have hlength := (List.subperm_of_subset hnodup hsub).length_le
    obtain ⟨n, rfl⟩ : ∃ k, n = k + 1 := ⟨n - 1, by omega⟩
    refine hstep fun b hb => ih b hb (a :: within) ?_ (List.cons_subset.2 ⟨hsites hb, hsub⟩) ?_ n ?_
    · exact List.nodup_cons.2 ⟨fun ha => not_transGen_self_of_acc ⟨a, hacc⟩ (habove a ha), hnodup⟩
    · exact List.forall_mem_cons.2 ⟨.single hb, fun c hc => .head hb (habove c hc)⟩
    · rw [List.length_cons]
      omega

section Options

variable {α β : Type} {f : α → Option β} {xs : List α} {ys : List β}

theorem mapM_eq_some_iff : xs.mapM f = some ys ↔ List.Forall₂ (fun x y => f x = some y) xs ys := by
  induction xs generalizing ys with
  | nil => cases ys <;> simp
  | cons x xs ih =>
    rw [List.mapM_cons, List.forall₂_cons_left_iff]
    simp only [← ih]
    cases f x <;> cases xs.mapM f <;> simp [eq_comm]

theorem exists_forall₂_iff {R : α → β → Prop} : (∃ ys, List.Forall₂ R xs ys) ↔ ∀ x ∈ xs, ∃ y, R x y := by
  constructor
  · rintro ⟨ys, hxy⟩
    induction hxy with
    | nil => exact nofun
    | cons hr _ ih => exact List.forall_mem_cons.2 ⟨⟨_, hr⟩, ih⟩
  · intro h
    induction xs with
    | nil => exact ⟨[], .nil⟩
    | cons x xs ih =>
      obtain ⟨⟨y, hy⟩, hxs⟩ := List.forall_mem_cons.1 h
      obtain ⟨ys, hys⟩ := ih hxs
      exact ⟨y :: ys, .cons hy hys⟩

theorem exists_mapM_eq_some (hf : ∀ x ∈ xs, ∃ y, f x = some y) : ∃ ys, xs.mapM f = some ys := by
  obtain ⟨ys, hys⟩ := exists_forall₂_iff.2 hf
  exact ⟨ys, mapM_eq_some_iff.2 hys⟩

end Options

namespace Heap

variable {h : Heap} {v : Value} {p q : Payload} {depth : Nat}

/-- The parts that the plain data of a payload are made of. -/
def parts (h : Heap) : Payload → List Value
  | .array id => (h.array id).toList
  | .object id => (h.object id).values
  | .reference id => [h.reference id]
  | _ => []

/-- The payloads that stand for the cells of a heap. -/
def sites (h : Heap) : List Payload :=
  (List.range h.arrays.size).map .array ++ (List.range h.objects.size).map .object ++
    (List.range h.references.size).map .reference

theorem length_sites : h.sites.length = h.size := by simp [sites, size, Nat.add_assoc]

/-- A payload whose parts come to an end. What has parts is a cell of the heap. -/
inductive Finite (h : Heap) : Payload → Prop
  | leaf {p : Payload} (parts : h.parts p = []) : h.Finite p
  | node {p : Payload} (site : p ∈ h.sites) (parts : ∀ w ∈ h.parts p, h.Finite w.payload) : h.Finite p

/-- A payload is that of a part of another, whose parts come to an end. -/
def PartOf (h : Heap) (q p : Payload) : Prop := h.Finite p ∧ ∃ w ∈ h.parts p, w.payload = q

theorem Finite.acc (hp : h.Finite p) : Acc h.PartOf p := by
  induction hp with
  | leaf hnone =>
    refine ⟨_, ?_⟩
    rintro q ⟨-, w, hw, -⟩
    rw [hnone] at hw
    cases hw
  | node _ _ ih =>
    refine ⟨_, ?_⟩
    rintro q ⟨-, w, hw, rfl⟩
    exact ih w hw

theorem PartOf.mem_sites (hq : h.PartOf q p) : p ∈ h.sites := by
  obtain ⟨hp, w, hw, -⟩ := hq
  cases hp with
  | leaf hnone =>
    rw [hnone] at hw
    cases hw
  | node site _ => exact site

theorem Finite.part {w : Value} (hp : h.Finite p) (hw : w ∈ h.parts p) : h.Finite w.payload := by
  cases hp with
  | leaf hnone =>
    rw [hnone] at hw
    cases hw
  | node _ parts => exact parts w hw

/-! ## A step of the plain data -/

variable {id : Nat}

theorem exists_succ_of_toDatumIn? {d : Datum} (hd : h.toDatumIn? depth v = some d) : ∃ k, depth = k + 1 := by
  cases depth with
  | zero => cases hd
  | succ k => exact ⟨k, rfl⟩

theorem toDatumIn?_array (hv : v.payload = .array id) : h.toDatumIn? (depth + 1) v =
    ((h.array id).toList.mapM (h.toDatumIn? depth)).map .list := by
  rw [toDatumIn?, hv]
  simp only
  cases (h.array id).toList.mapM (h.toDatumIn? depth) <;> rfl

/-- The plain data of an entry of an object. -/
def memberData? (h : Heap) (depth : Nat) (entry : Text × Value) : Option (Text × Datum) := do
  return (entry.1, ← h.toDatumIn? depth entry.2)

theorem memberData?_eq (entry : Text × Value) :
    h.memberData? depth entry = (h.toDatumIn? depth entry.2).map fun d => (entry.1, d) := by
  rw [memberData?]
  cases h.toDatumIn? depth entry.2 <;> rfl

theorem toDatumIn?_object (hv : v.payload = .object id) : h.toDatumIn? (depth + 1) v =
    ((h.object id).entries.mapM (h.memberData? depth)).map .object := by
  rw [toDatumIn?, hv]
  show ((h.object id).entries.mapM (h.memberData? depth) >>= fun members => some (Datum.object members)) = _
  cases (h.object id).entries.mapM (h.memberData? depth) <;> rfl

theorem toDatumIn?_reference (hv : v.payload = .reference id) :
    h.toDatumIn? (depth + 1) v = h.toDatumIn? depth (h.reference id) := by
  rw [toDatumIn?, hv]

/-- The plain data of a value are found if those of its parts are found in a step less. -/
theorem exists_toDatumIn?_succ (hv : ∀ w ∈ h.parts v.payload, ∃ d, h.toDatumIn? depth w = some d) :
    ∃ d, h.toDatumIn? (depth + 1) v = some d := by
  cases hp : v.payload with
  | array id =>
    rw [hp] at hv
    obtain ⟨items, hitems⟩ : ∃ items, (h.array id).toList.mapM (h.toDatumIn? depth) = some items :=
      exists_mapM_eq_some hv
    exact ⟨.list items, by rw [toDatumIn?_array hp, hitems]; rfl⟩
  | object id =>
    rw [hp] at hv
    obtain ⟨members, hmembers⟩ : ∃ members, (h.object id).entries.mapM (h.memberData? depth) = some members := by
      refine exists_mapM_eq_some fun e he => ?_
      obtain ⟨d, hd⟩ := hv e.2 (List.mem_map_of_mem he)
      exact ⟨(e.1, d), by rw [memberData?_eq, hd]; rfl⟩
    exact ⟨.object members, by rw [toDatumIn?_object hp, hmembers]; rfl⟩
  | reference id =>
    rw [hp] at hv
    rw [toDatumIn?_reference hp]
    exact hv _ (.head _)
  | _ => exact ⟨_, by rw [toDatumIn?, hp]⟩

/-- The plain data of a value whose parts come to an end are found. -/
theorem Finite.exists_toDatum? (hv : h.Finite v.payload) : ∃ d, h.toDatum? v = some d := by
  have hsteps := holds_in_steps (P := fun n p => h.Finite p → ∀ v : Value, v.payload = p →
    ∃ d, h.toDatumIn? n v = some d) hv.acc PartOf.mem_sites ?_ hv v rfl
  · rwa [length_sites] at hsteps
  · rintro n p ih hp v rfl
    exact exists_toDatumIn?_succ fun w hw => ih w.payload ⟨hp, w, hw, rfl⟩ (hp.part hw) w rfl

end Heap

end ScriptEngine

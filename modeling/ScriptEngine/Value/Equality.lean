import ScriptEngine.Value.Heap

/-!
# Equality of values

Two values are equal if they have the same variant (or none), the same kind, and equal contents:
scalars by their data, functions, natives and references by identity, arrays element by element and
objects key by key. A pair of cells that is compared already is taken to be equal, which gives cyclic
structures a meaning and the comparison an end.

* `Heap.compare` looks at two values and says whether they differ, are the same, or which values
  have yet to be compared.
* `Heap.agree` works off a list of pairs.
-/

namespace ScriptEngine

/-- Two cells that are assumed to be equal. -/
inductive CellPair where
  | arrays (a b : Nat)
  | objects (a b : Nat)
deriving DecidableEq

/-- What a look at two values tells: that they differ, that they are the same, or that they are
equal if the two cells are, whose contents are listed in pairs. -/
inductive Comparison where
  | differ
  | same
  | cells (pair : CellPair) (contents : List (Value × Value))

namespace Heap

/-- The contents of two array cells in pairs, unless their lengths differ. -/
def arrayPairs? (h : Heap) (a b : Nat) : Option (List (Value × Value)) :=
  let left := (h.array a).toList
  let right := (h.array b).toList
  if left.length = right.length then some (left.zip right) else none

/-- The values of two object cells in pairs by key, unless their keys differ. -/
def objectPairs? (h : Heap) (a b : Nat) : Option (List (Value × Value)) :=
  let left := h.object a
  let right := h.object b
  if left.size = right.size then left.entries.mapM fun (k, v) => (right.get? k).map (v, ·)
  else none

/-- Looks at two cells whose contents are given in pairs. -/
def compareCells (pair : CellPair) : Option (List (Value × Value)) → Comparison
  | none => .differ
  | some [] => .same
  | some contents => .cells pair contents

/-- Looks at two values. -/
def compare (h : Heap) (a b : Value) : Comparison :=
  if a.variant? ≠ b.variant? then .differ
  else match a.payload, b.payload with
    | .array i, .array j => if i = j then .same else compareCells (.arrays i j) (h.arrayPairs? i j)
    | .object i, .object j =>
      if i = j then .same else compareCells (.objects i j) (h.objectPairs? i j)
    | .number x, .number y => if x.value = y.value then .same else .differ
    | p, q => if p = q then .same else .differ

/-- All pairs of cells of one sort. -/
def cellPairs (h : Heap) : List CellPair :=
  ((List.range h.arrays.size).flatMap fun i =>
    (List.range h.arrays.size).map fun j => CellPair.arrays i j) ++
  ((List.range h.objects.size).flatMap fun i =>
    (List.range h.objects.size).map fun j => CellPair.objects i j)

theorem compareCells_eq_cells {pair p : CellPair} {o : Option (List (Value × Value))}
    {contents : List (Value × Value)} (h : compareCells pair o = .cells p contents) :
    p = pair ∧ o = some contents ∧ contents ≠ [] := by
  unfold compareCells at h
  split at h
  · cases h
  · cases h
  · next cs hne => cases h; exact ⟨rfl, rfl, hne⟩

theorem array_eq_empty {h : Heap} {i : Nat} (hi : ¬ i < h.arrays.size) : h.array i = #[] := by
  simp [array, Array.getD, hi]

theorem object_eq_empty {h : Heap} {i : Nat} (hi : ¬ i < h.objects.size) :
    h.object i = .empty := by
  simp [object, Array.getD, hi]

theorem arrayPairs?_bounds {h : Heap} {i j : Nat} {contents : List (Value × Value)}
    (hp : h.arrayPairs? i j = some contents) (hc : contents ≠ []) :
    i < h.arrays.size ∧ j < h.arrays.size := by
  unfold arrayPairs? at hp
  simp only at hp
  split at hp
  · next hl =>
    cases hp
    constructor <;> apply Decidable.byContradiction <;> intro hlt <;> apply hc
    · simp [array_eq_empty hlt]
    · simp [array_eq_empty hlt]
  · cases hp

theorem objectPairs?_bounds {h : Heap} {i j : Nat} {contents : List (Value × Value)}
    (hp : h.objectPairs? i j = some contents) (hc : contents ≠ []) :
    i < h.objects.size ∧ j < h.objects.size := by
  unfold objectPairs? at hp
  simp only at hp
  split at hp
  · next hl =>
    constructor <;> apply Decidable.byContradiction <;> intro hlt <;> apply hc
    · simp [object_eq_empty hlt, OrderedMap.empty] at hp
      exact hp
    · rw [object_eq_empty hlt] at hl
      have : (h.object i).entries = [] := by
        simpa [OrderedMap.size, OrderedMap.empty] using hl
      simp [this] at hp
      exact hp
  · cases hp

/-- Only pairs of cells of the heap have contents to compare. -/
theorem mem_cellPairs_of_compare {h : Heap} {a b : Value} {p : CellPair}
    {contents : List (Value × Value)} (hc : h.compare a b = .cells p contents) :
    p ∈ h.cellPairs := by
  unfold compare at hc
  split at hc
  · cases hc
  · split at hc
    · split at hc
      · cases hc
      · obtain ⟨rfl, ho, hne⟩ := compareCells_eq_cells hc
        obtain ⟨hi, hj⟩ := arrayPairs?_bounds ho hne
        simp [cellPairs, hi, hj]
    · split at hc
      · cases hc
      · obtain ⟨rfl, ho, hne⟩ := compareCells_eq_cells hc
        obtain ⟨hi, hj⟩ := objectPairs?_bounds ho hne
        simp [cellPairs, hi, hj]
    · split at hc <;> cases hc
    · split at hc <;> cases hc

/-- Whether all pairs of a list are equal, given pairs of cells that are assumed to be. -/
def agree (h : Heap) (assumed : List CellPair) (pending : List (Value × Value)) : Bool :=
  match pending with
  | [] => true
  | (a, b) :: rest =>
    match _hc : h.compare a b with
    | .differ => false
    | .same => h.agree assumed rest
    | .cells pair contents =>
      if _hm : pair ∈ assumed then h.agree assumed rest
      else h.agree (pair :: assumed) (contents ++ rest)
termination_by (unseen h.cellPairs assumed, pending.length)
decreasing_by
  · exact Prod.Lex.right _ (by simp)
  · exact Prod.Lex.right _ (by simp)
  · exact Prod.Lex.left _ _ (unseen_cons_lt (mem_cellPairs_of_compare _hc) _hm)

/-- Whether two values are equal. -/
def equal (h : Heap) (a b : Value) : Bool := h.agree [] [(a, b)]

end Heap

end ScriptEngine

import Mathlib.Data.List.Perm.Subperm
import Mathlib.Logic.Relation
import ScriptEngine.Proofs.Token.Numeral
import ScriptEngine.Proofs.Value.Copying

/-!
# Printing values without cycles

* **Printable values** (`Heap.Printable`): null, booleans, numbers of no more digits than the host allows and
  strings, and arrays and objects of printable values, all without variants and enums. The definition is
  inductive, so a printable value has no cycles: it is accessible through what it holds (`Printable.acc`).
* **Places** (`Heap.Inside within v`): the containers around a value while it is printed. None of them
  repeats, so there is always room for one more, and a printable value is none of them itself.
* **Texts** (`Heap.RendersAs v t`): the value is printed as `t` wherever it stands. The texts of arrays
  and objects are made of those of their contents (`rendersAs_array`, `rendersAs_object`).
-/

namespace ScriptEngine

/-- A value that is no variant and no enum. -/
def Value.IsUntagged (v : Value) : Prop := v.variant? = none ∧ v.enumBase? = none

/-- What is accessible does not come back to itself. -/
theorem not_transGen_self_of_acc {α : Type} {r : α → α → Prop} {a : α} (ha : Acc r a) : ¬ Relation.TransGen r a a := by
  have ht := ha.transGen
  clear ha
  induction ht with
  | intro a _ ih => exact fun hr => ih a hr hr

namespace Heap

variable {h : Heap} {v w : Value} {c : Cell} {within : List Cell}

/-- Values without cycles, of null, booleans, numbers, strings, arrays and objects whose keys are
names, none of them a variant or an enum, and no number longer than the host reads and writes. -/
inductive Printable (h : Heap) : Value → Prop
  | scalar {v : Value} (untagged : v.IsUntagged)
      (kind : v.kind ∈ [Kind.null, .boolean, .number, .string])
      (brief : ∀ x, v.payload = .number x → Number.IsBrief x.value) : h.Printable v
  | array {v : Value} {id : Nat} {items : Array Value} (untagged : v.IsUntagged)
      (payload : v.payload = .array id) (cell : h.arrays[id]? = some items)
      (contents : ∀ w ∈ items, h.Printable w) : h.Printable v
  | object {v : Value} {id : Nat} {entries : OrderedMap Text Value} (untagged : v.IsUntagged)
      (payload : v.payload = .object id) (cell : h.objects[id]? = some entries)
      (names : ∀ key ∈ entries.keys, key.isName)
      (contents : ∀ e ∈ entries.entries, h.Printable e.2) : h.Printable v

/-- A value is among the contents of the cell of another. -/
def HeldBy (h : Heap) (w v : Value) : Prop := ∃ c, v.cell? = some c ∧ w ∈ h.contents c

theorem array_eq {id : Nat} {items : Array Value} (hc : h.arrays[id]? = some items) :
    h.array id = items := by
  simp [Heap.array, Array.getD_eq_getD_getElem?, hc]

theorem object_eq {id : Nat} {entries : OrderedMap Text Value}
    (hc : h.objects[id]? = some entries) : h.object id = entries := by
  simp [Heap.object, Array.getD_eq_getD_getElem?, hc]

/-- Printable values have no cycles. -/
theorem Printable.acc (hp : h.Printable v) : Acc h.HeldBy v := by
  induction hp with
  | @scalar v _ hk _ =>
    refine ⟨_, ?_⟩
    rintro w ⟨c, hc, -⟩
    unfold Value.kind at hk
    cases he : v.payload <;> simp [Value.cell?, he, Payload.kind] at hc hk
  | @array v id items _ hp hc _ ih =>
    refine ⟨_, ?_⟩
    rintro w ⟨c, hv, hw⟩
    obtain rfl : .array id = c := by simpa [Value.cell?, hp] using hv
    exact ih w (by simpa [contents, array_eq hc] using hw)
  | @object v id entries _ hp hc _ _ ih =>
    refine ⟨_, ?_⟩
    rintro w ⟨c, hv, hw⟩
    obtain rfl : .object id = c := by simpa [Value.cell?, hp] using hv
    rw [contents, object_eq hc, OrderedMap.values, List.mem_map] at hw
    obtain ⟨e, he, rfl⟩ := hw
    exact ih e he

/-! ## Places -/

/-- A value stands inside the containers `within`: they are different cells of the heap, and each is
the cell of a value that holds it, directly or not. -/
structure Inside (h : Heap) (within : List Cell) (v : Value) : Prop where
  nodup : within.Nodup
  cells : within ⊆ h.cells
  above : ∀ c ∈ within, ∃ w, w.cell? = some c ∧ Relation.TransGen h.HeldBy v w

theorem inside_nil : h.Inside [] v := ⟨by simp, by simp, by simp⟩

/-- A printable value does not stand inside itself. -/
theorem Inside.not_mem (hi : h.Inside within v) (hp : h.Printable v) (hc : v.cell? = some c) :
    c ∉ within := by
  intro hm
  obtain ⟨w, hw, ht⟩ := hi.above c hm
  -- What `w` holds, `v` holds: they have the same cell.
  obtain ⟨u, hvu, d, hd, hu⟩ := Relation.TransGen.tail'_iff.1 ht
  have hs : h.HeldBy u v := ⟨c, hc, by rw [hw] at hd; cases hd; exact hu⟩
  exact not_transGen_self_of_acc hp.acc (.tail' hvu hs)

/-- What a container holds stands inside it and all that the container stands inside. -/
theorem Inside.cons (hi : h.Inside within v) (hp : h.Printable v) (hc : v.cell? = some c)
    (hh : h.holds c) (hw : w ∈ h.contents c) : h.Inside (c :: within) w := by
  have hb : h.HeldBy w v := ⟨c, hc, hw⟩
  refine ⟨List.nodup_cons.2 ⟨hi.not_mem hp hc, hi.nodup⟩, ?_, ?_⟩
  · exact List.cons_subset.2 ⟨mem_cells_of_holds hh, hi.cells⟩
  · intro d hd
    rcases List.mem_cons.1 hd with rfl | hd
    · exact ⟨v, hc, .single hb⟩
    · obtain ⟨u, hu, ht⟩ := hi.above d hd
      exact ⟨u, hu, .head hb ht⟩

theorem Inside.length_le (hi : h.Inside within v) :
    within.length ≤ h.arrays.size + h.objects.size := by
  simpa [Heap.cells] using (List.subperm_of_subset hi.nodup hi.cells).length_le

/-! ## Texts -/

/-- A value is printed as a text wherever it stands, given steps enough for the cells around it and
those that may be inside it. -/
def RendersAs (h : Heap) (v : Value) (t : Text) : Prop :=
  ∀ depth within, h.Inside within v →
    h.arrays.size + h.objects.size + 2 ≤ depth + within.length →
    h.render depth true within v = .ok t

theorem RendersAs.quotedForm? {t : Text} (hr : h.RendersAs v t) : h.quotedForm? v = some t := by
  have hdepth : h.arrays.size + h.objects.size + 2 ≤ h.renderDepth := by
    have := Nat.le_mul_of_pos_right (h.arrays.size + h.objects.size + 1)
      (show 0 < h.references.size + 1 by omega)
    simp only [renderDepth]
    omega
  rw [Heap.quotedForm?, quotedForm, hr h.renderDepth [] inside_nil hdepth]
  rfl

theorem rendersAs_of_forall {t : Text}
    (hr : ∀ depth within, h.render (depth + 1) true within v = .ok t) : h.RendersAs v t := by
  intro depth within hi hd
  have := hi.length_le
  obtain ⟨d, rfl⟩ : ∃ d, depth = d + 1 := ⟨depth - 1, by omega⟩
  exact hr d within

theorem mapM_eq_ok_map {α β ε : Type} {f : α → Except ε β} {g : α → β} {xs : List α}
    (hf : ∀ x ∈ xs, f x = .ok (g x)) : xs.mapM f = .ok (xs.map g) := by
  induction xs with
  | nil => rfl
  | cons x xs ih =>
    rw [List.mapM_cons, hf x (.head _), ih fun y hy => hf y (.tail _ hy)]
    rfl

/-- An array is printed as its elements between brackets. -/
theorem rendersAs_array {id : Nat} {items : Array Value} {T : Value → Text} (hp : h.Printable v)
    (hu : v.IsUntagged) (hv : v.payload = .array id) (hc : h.arrays[id]? = some items)
    (hT : ∀ w ∈ items, h.RendersAs w (T w)) :
    h.RendersAs v ("[" ++ Text.joinWith ", " (items.toList.map T) ++ "]") := by
  intro depth within hi hd
  have := hi.length_le
  obtain ⟨d, rfl⟩ : ∃ d, depth = d + 1 := ⟨depth - 1, by omega⟩
  have hcell : v.cell? = some (.array id) := by simp [Value.cell?, hv]
  have hsize : id < h.arrays.size := (Array.getElem?_eq_some_iff.1 hc).1
  have hitems : ∀ w ∈ items.toList, h.render d true (.array id :: within) w = .ok (T w) := by
    intro w hw
    refine hT w (Array.mem_toList_iff.1 hw) _ _ (hi.cons hp hcell (by simpa [holds]) ?_) ?_
    · simpa [contents, array_eq hc] using hw
    · simp only [List.length_cons]; omega
  simp only [render, hu.1, hv]
  rw [if_neg (hi.not_mem hp hcell), array_eq hc, mapM_eq_ok_map hitems]
  rfl

/-- An object is printed as its entries between braces. -/
theorem rendersAs_object {id : Nat} {entries : OrderedMap Text Value} {T : Value → Text}
    (hp : h.Printable v) (hu : v.IsUntagged) (hv : v.payload = .object id)
    (hc : h.objects[id]? = some entries) (hT : ∀ e ∈ entries.entries, h.RendersAs e.2 (T e.2)) :
    h.RendersAs v (".\x7b" ++ Text.joinWith ", "
      (entries.entries.map fun e => e.1 ++ ": " ++ T e.2) ++ "\x7d") := by
  intro depth within hi hd
  have := hi.length_le
  obtain ⟨d, rfl⟩ : ∃ d, depth = d + 1 := ⟨depth - 1, by omega⟩
  have hcell : v.cell? = some (.object id) := by simp [Value.cell?, hv]
  have hsize : id < h.objects.size := (Array.getElem?_eq_some_iff.1 hc).1
  have hitems : ∀ e ∈ entries.entries,
      (do let text ← h.render d true (.object id :: within) e.2
          return (e.1 ++ ": " ++ text : Text)) = Except.ok (e.1 ++ ": " ++ T e.2) := by
    intro e he
    rw [hT e he _ _ (hi.cons hp hcell (by simpa [holds]) ?_) ?_]
    · rfl
    · simpa [contents, object_eq hc, OrderedMap.values] using ⟨e.1, he⟩
    · simp only [List.length_cons]; omega
  simp only [render, hu.1, hu.2, hv]
  rw [if_neg (hi.not_mem hp hcell), object_eq hc, mapM_eq_ok_map hitems]
  rfl

end Heap

end ScriptEngine

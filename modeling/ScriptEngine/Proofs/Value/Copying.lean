import Mathlib.Data.List.Basic
import ScriptEngine.Proofs.OrderedMap
import ScriptEngine.Value.Copy

/-!
# Deep copies as relocation

The cells that a deep copy meets are those that a depth-first search finds (`Heap.reach`). Their copies stand
behind the old cells in the order in which they were met (`Heap.copyPlace`), and hold the old contents with old
places replaced by new ones (`Heap.moved`).

* `Copying.Tracks`: what holds of the heap and the memo at every stage of a copy. The memo gives each cell met
  its place, and the old cells are as they were.
* `Copying.Fills`: what is done between two stages. Cells met before keep their copies as they are, which may
  still be empty; those met since have copies with all their contents.

`Heap.deepCopy_eq` follows by induction over the copying of values, elements and entries.
-/

namespace ScriptEngine

namespace Heap

variable {h : Heap} {v w : Value} {c d : Cell} {cells found pending : List Cell}

/-! ## The cells in reach -/

/-- The values in a cell. -/
def contents (h : Heap) : Cell → List Value
  | .array id => (h.array id).toList
  | .object id => (h.object id).values

/-- The cells that can be reached from the pending ones, those found before included. The latest
found comes first. -/
def reachFrom (h : Heap) (found : List Cell) (pending : List Cell) : List Cell :=
  match pending with
  | [] => found
  | c :: rest =>
    if _hc : h.holds c ∧ c ∉ found then
      h.reachFrom (c :: found) ((h.contents c).filterMap Value.cell? ++ rest)
    else h.reachFrom found rest
termination_by (unseen h.cells found, pending.length)
decreasing_by
  · exact Prod.Lex.left _ _ (unseen_cons_lt (mem_cells_of_holds _hc.1) _hc.2)
  · exact Prod.Lex.right _ (by simp)

/-- The cells that can be reached from a value, in the order in which they are found. -/
def reach (h : Heap) (v : Value) : List Cell := (h.reachFrom [] v.cell?.toList).reverse

/-- What is pending later is searched from what was found before. -/
theorem reachFrom_append {later : List Cell} :
    h.reachFrom found (pending ++ later) = h.reachFrom (h.reachFrom found pending) later := by
  fun_induction reachFrom h found pending with
  | case1 found => rfl
  | case2 found c rest hc ih => rw [List.cons_append, reachFrom, dif_pos hc, ← ih, List.append_assoc]
  | case3 found c rest hc ih => rw [List.cons_append, reachFrom, dif_neg hc, ih]

/-- A cell that is not there, or was found, adds nothing. -/
theorem reachFrom_singleton_of_not (hc : ¬(h.holds c = true ∧ c ∉ found)) : h.reachFrom found [c] = found := by
  rw [reachFrom, dif_neg hc, reachFrom]

/-- A new cell is found, and then what it holds. -/
theorem reachFrom_singleton (hh : h.holds c = true) (hc : c ∉ found) :
    h.reachFrom found [c] = h.reachFrom (c :: found) ((h.contents c).filterMap Value.cell?) := by
  rw [reachFrom, dif_pos ⟨hh, hc⟩, List.append_nil]

/-- The search finds what it is given and has found, and the cells inside what it has found unless they
were known to be found or pending. -/
theorem mem_reachFrom (h : Heap) (found pending : List Cell) :
    found ⊆ h.reachFrom found pending ∧
    (∀ c ∈ pending, h.holds c = true → c ∈ h.reachFrom found pending) ∧
    ∀ c ∈ h.reachFrom found pending, c ∉ found → ∀ w ∈ h.contents c, ∀ d,
      w.cell? = some d → h.holds d = true → d ∈ h.reachFrom found pending := by
  fun_induction reachFrom h found pending with
  | case1 found => exact ⟨List.Subset.refl _, by simp, fun c hc hn => absurd hc hn⟩
  | case2 found c rest hc ih =>
    obtain ⟨hfound, hpending, hinside⟩ := ih
    obtain ⟨hcell, hfound⟩ := List.cons_subset.1 hfound
    obtain ⟨hcontents, hrest⟩ := List.forall_mem_append.1 hpending
    refine ⟨hfound, List.forall_mem_cons.2 ⟨fun _ => hcell, hrest⟩, fun e he hn w hw d hd => ?_⟩
    by_cases hec : e = c
    · -- the cell found here: its contents were put on the list
      subst hec
      exact hcontents d (List.mem_filterMap.2 ⟨w, hw, hd⟩)
    · exact hinside e he (by simp [hec, hn]) w hw d hd
  | case3 found c rest hc ih =>
    obtain ⟨hfound, hpending, hinside⟩ := ih
    refine ⟨hfound, List.forall_mem_cons.2 ⟨fun hh => hfound ?_, hpending⟩, hinside⟩
    exact Decidable.not_not.1 fun hn => hc ⟨hh, hn⟩

/-- What is found is put before what was found. -/
theorem exists_reachFrom_eq (h : Heap) (found pending : List Cell) :
    ∃ new, h.reachFrom found pending = new ++ found := by
  fun_induction reachFrom h found pending with
  | case1 found => exact ⟨[], rfl⟩
  | case2 found c rest hc ih =>
    obtain ⟨new, hnew⟩ := ih
    exact ⟨new ++ [c], by simp [hnew]⟩
  | case3 found c rest hc ih => exact ih

/-! ## Places -/

/-- The array cells of a list. -/
def arrayIds (cells : List Cell) : List Nat :=
  cells.filterMap fun | .array id => some id | .object _ => none

/-- The object cells of a list. -/
def objectIds (cells : List Cell) : List Nat :=
  cells.filterMap fun | .object id => some id | .array _ => none

theorem arrayIds_append {more : List Cell} : arrayIds (cells ++ more) = arrayIds cells ++ arrayIds more :=
  List.filterMap_append

theorem objectIds_append {more : List Cell} : objectIds (cells ++ more) = objectIds cells ++ objectIds more :=
  List.filterMap_append

/-- The place of the copy of a cell. -/
def copyPlace (h : Heap) (cells : List Cell) : Cell → Cell
  | .array id => .array (h.arrays.size + (arrayIds cells).idxOf id)
  | .object id => .object (h.objects.size + (objectIds cells).idxOf id)

/-- The value that stands for another in a copy: if its cell has a copy, that takes its place. -/
def moved (h : Heap) (cells : List Cell) (v : Value) : Value :=
  match v.cell? with
  | some c => if c ∈ cells then v.withCell (h.copyPlace cells c) else v
  | none => v

/-- The heap with copies of cells. -/
def withCopies (h : Heap) (cells : List Cell) : Heap :=
  { h with
    arrays := h.arrays ++ ((arrayIds cells).map fun id => (h.array id).map (h.moved cells)).toArray
    objects := h.objects ++
      ((objectIds cells).map fun id => (h.object id).mapValues (h.moved cells)).toArray }

theorem mem_arrayIds {id : Nat} : id ∈ arrayIds cells ↔ .array id ∈ cells := by
  rw [arrayIds, List.mem_filterMap]
  constructor
  · rintro ⟨_ | _, hc, hid⟩
    · cases hid
      exact hc
    · cases hid
  · exact fun hc => ⟨_, hc, rfl⟩

theorem mem_objectIds {id : Nat} : id ∈ objectIds cells ↔ .object id ∈ cells := by
  rw [objectIds, List.mem_filterMap]
  constructor
  · rintro ⟨_ | _, hc, hid⟩
    · cases hid
    · cases hid
      exact hc
  · exact fun hc => ⟨_, hc, rfl⟩

theorem nodup_arrayIds (hn : cells.Nodup) : (arrayIds cells).Nodup := by
  refine hn.filterMap fun c d id hc hd => ?_
  cases c <;> cases d <;> simp_all

theorem nodup_objectIds (hn : cells.Nodup) : (objectIds cells).Nodup := by
  refine hn.filterMap fun c d id hc hd => ?_
  cases c <;> cases d <;> simp_all

theorem moved_of_mem (hv : v.cell? = some c) (hc : c ∈ cells) :
    h.moved cells v = v.withCell (h.copyPlace cells c) := by
  rw [moved, hv]
  exact if_pos hc

theorem moved_of_not_mem (hv : ∀ c, v.cell? = some c → c ∉ cells) : h.moved cells v = v := by
  rw [moved]
  split
  · next c hc => exact if_neg (hv c hc)
  · rfl

/-- What is neither an array nor an object stays as it is. -/
theorem moved_of_cell?_eq_none (hv : v.cell? = none) : h.moved cells v = v :=
  moved_of_not_mem fun c hc => by rw [hv] at hc; cases hc

/-- Different cells have their copies at different places. -/
theorem copyPlace_inj (hc : c ∈ cells) : h.copyPlace cells c = h.copyPlace cells d ↔ c = d := by
  cases c with
  | array i =>
    cases d with
    | array j => simp [copyPlace, List.idxOf_inj (mem_arrayIds.2 hc)]
    | object j => simp [copyPlace]
  | object i =>
    cases d with
    | array j => simp [copyPlace]
    | object j => simp [copyPlace, List.idxOf_inj (mem_objectIds.2 hc)]

/-- The place of a copy was not there before. -/
theorem not_holds_copyPlace : h.holds (h.copyPlace cells c) = false := by
  cases c <;> simp [copyPlace, holds]

/-- Cells that are met later take places behind. -/
theorem copyPlace_append {more : List Cell} (hc : c ∈ cells) :
    h.copyPlace (cells ++ more) c = h.copyPlace cells c := by
  cases c with
  | array id =>
    rw [copyPlace, copyPlace, arrayIds_append, List.idxOf_append_of_mem (mem_arrayIds.2 hc)]
  | object id =>
    rw [copyPlace, copyPlace, objectIds_append, List.idxOf_append_of_mem (mem_objectIds.2 hc)]

/-- Cells that are met later do not change the place of what has been met. -/
theorem moved_append {more : List Cell} (hv : ∀ c, v.cell? = some c → c ∈ more → c ∈ cells) :
    h.moved (cells ++ more) v = h.moved cells v := by
  cases hc : v.cell? with
  | none => rw [moved_of_cell?_eq_none hc, moved_of_cell?_eq_none hc]
  | some c =>
    by_cases hm : c ∈ cells
    · rw [moved_of_mem hc (List.mem_append_left _ hm), moved_of_mem hc hm, copyPlace_append hm]
    · have hn : ∀ d, v.cell? = some d → d ∉ cells := fun d hd => by
        rw [hc] at hd
        cases hd
        exact hm
      rw [moved_of_not_mem hn, moved_of_not_mem fun d hd => ?_]
      exact fun h => (List.mem_append.1 h).elim (hn d hd) fun h => hn d hd (hv d hd h)

/-! ## What cells hold -/

/-- What a cell holds, if it is there. -/
def stored? (h : Heap) : Cell → Option (Array Value ⊕ OrderedMap Text Value)
  | .array id => h.arrays[id]?.map .inl
  | .object id => h.objects[id]?.map .inr

/-- Applies a function to every value that a cell holds. -/
def mapStored (f : Value → Value) :
    Array Value ⊕ OrderedMap Text Value → Array Value ⊕ OrderedMap Text Value :=
  Sum.map (·.map f) (·.mapValues f)

theorem stored?_array {id : Nat} (hh : h.holds (.array id) = true) :
    h.stored? (.array id) = some (.inl (h.array id)) := by
  have hlt : id < h.arrays.size := by simpa [holds] using hh
  simp [stored?, array, hlt]

theorem stored?_object {id : Nat} (hh : h.holds (.object id) = true) :
    h.stored? (.object id) = some (.inr (h.object id)) := by
  have hlt : id < h.objects.size := by simpa [holds] using hh
  simp [stored?, object, hlt]

theorem stored?_of_not_holds (hh : ¬h.holds c = true) : h.stored? c = none := by
  cases c <;> simpa [stored?, holds] using hh

theorem mapStored_congr {f g : Value → Value} (hfg : ∀ w ∈ h.contents c, f w = g w) :
    (h.stored? c).map (mapStored f) = (h.stored? c).map (mapStored g) := by
  by_cases hh : h.holds c = true
  · cases c with
    | array id =>
      rw [stored?_array hh]
      simpa [contents, mapStored] using hfg
    | object id =>
      rw [stored?_object hh]
      simpa [contents, mapStored, OrderedMap.mapValues, OrderedMap.values, forall_comm (α := Text)] using hfg
  · rw [stored?_of_not_holds hh]
    rfl

/-- A heap is given by what its cells hold, and its references, functions and frames. -/
theorem ext_stored? {h' : Heap} (hcells : ∀ c, h.stored? c = h'.stored? c) (hreferences : h.references = h'.references)
    (hclosures : h.closures = h'.closures) (hframes : h.frames = h'.frames) : h = h' := by
  have harrays : h.arrays = h'.arrays := Array.ext_getElem? fun i =>
    Option.map_injective (fun _ _ => Sum.inl.inj) (hcells (.array i))
  have hobjects : h.objects = h'.objects := Array.ext_getElem? fun i =>
    Option.map_injective (fun _ _ => Sum.inr.inj) (hcells (.object i))
  cases h
  cases h'
  simp_all

theorem stored?_withCopies_old (hh : h.holds c = true) : (h.withCopies cells).stored? c = h.stored? c := by
  cases c with
  | array id =>
    rw [stored?, stored?, withCopies, Array.getElem?_append_left (by simpa [holds] using hh)]
  | object id =>
    rw [stored?, stored?, withCopies, Array.getElem?_append_left (by simpa [holds] using hh)]

/-- The copy of a cell holds what the cell does, moved. -/
theorem stored?_withCopies_copyPlace (hc : c ∈ cells) (hh : h.holds c = true) :
    (h.withCopies cells).stored? (h.copyPlace cells c) = (h.stored? c).map (mapStored (h.moved cells)) := by
  cases c with
  | array id =>
    have hlt := List.idxOf_lt_length_of_mem (mem_arrayIds.2 hc)
    rw [copyPlace, stored?, withCopies, Array.getElem?_append_right (Nat.le_add_right _ _),
      Nat.add_sub_cancel_left, stored?_array hh]
    simp [List.getElem?_eq_getElem hlt, mapStored]
  | object id =>
    have hlt := List.idxOf_lt_length_of_mem (mem_objectIds.2 hc)
    rw [copyPlace, stored?, withCopies, Array.getElem?_append_right (Nat.le_add_right _ _),
      Nat.add_sub_cancel_left, stored?_object hh]
    simp [List.getElem?_eq_getElem hlt, mapStored]

/-- A cell of the heap with copies was there or is the copy of a cell. -/
theorem holds_withCopies (hn : cells.Nodup) (hd : (h.withCopies cells).holds d = true) :
    h.holds d = true ∨ ∃ c ∈ cells, d = h.copyPlace cells c := by
  by_cases hh : h.holds d = true
  · exact .inl hh
  refine .inr ?_
  cases d with
  | array i =>
    simp only [holds, decide_eq_true_eq, withCopies, Array.size_append, List.size_toArray, List.length_map] at hd hh
    obtain ⟨k, rfl⟩ := Nat.exists_eq_add_of_le (Nat.le_of_not_lt hh)
    have hk : k < (arrayIds cells).length := by omega
    refine ⟨.array (arrayIds cells)[k], mem_arrayIds.1 (List.getElem_mem hk), ?_⟩
    rw [copyPlace, List.Nodup.idxOf_getElem (nodup_arrayIds hn)]
  | object i =>
    simp only [holds, decide_eq_true_eq, withCopies, Array.size_append, List.size_toArray, List.length_map] at hd hh
    obtain ⟨k, rfl⟩ := Nat.exists_eq_add_of_le (Nat.le_of_not_lt hh)
    have hk : k < (objectIds cells).length := by omega
    refine ⟨.object (objectIds cells)[k], mem_objectIds.1 (List.getElem_mem hk), ?_⟩
    rw [copyPlace, List.Nodup.idxOf_getElem (nodup_objectIds hn)]

theorem stored?_modifyArray {id : Nat} {f : Array Value → Array Value} (hc : c ≠ .array id) :
    (h.modifyArray id f).stored? c = h.stored? c := by
  cases c with
  | array i =>
    have hi : id ≠ i := fun he => hc (by rw [he])
    simp [stored?, modifyArray, Array.getElem?_modify, hi]
  | object i => rfl

theorem stored?_modifyObject {id : Nat} {f : OrderedMap Text Value → OrderedMap Text Value}
    (hc : c ≠ .object id) : (h.modifyObject id f).stored? c = h.stored? c := by
  cases c with
  | array i => rfl
  | object i =>
    have hi : id ≠ i := fun he => hc (by rw [he])
    simp [stored?, modifyObject, Array.getElem?_modify, hi]

end Heap

/-! ## Stages of a copy -/

namespace Copying

variable {h : Heap} {s t u : Copying} {v : Value} {c d : Cell} {o : Option Cell} {pending later : List Cell}

/-- The cells that have been met, in the order in which they were. -/
def order (s : Copying) : List Cell := s.met.reverse

@[simp] theorem mem_order : c ∈ s.order ↔ c ∈ s.met := List.mem_reverse

/-- A stage in the copying of what a heap has: the memo gives each cell met its place, behind the cells that were
there, and these are as they were. -/
structure Tracks (h : Heap) (s : Copying) : Prop where
  nodup : s.met.Nodup
  held : ∀ c ∈ s.met, h.holds c = true
  memo : ∀ c ∈ s.met, s.memo.lookup c = some (h.copyPlace s.order c)
  arrays : s.heap.arrays.size = h.arrays.size + (Heap.arrayIds s.order).length
  objects : s.heap.objects.size = h.objects.size + (Heap.objectIds s.order).length
  old : ∀ c, h.holds c = true → s.heap.stored? c = h.stored? c
  others : s.heap.references = h.references ∧ s.heap.closures = h.closures ∧ s.heap.frames = h.frames

/-- Between two stages the pending cells were copied, with all that can be reached from them. The copies of cells
that had been met before are as they were, one set aside. The copies of the new cells hold all that they are to
hold. -/
structure Copies (h : Heap) (o : Option Cell) (pending : List Cell) (s t : Copying) : Prop where
  tracks : t.Tracks h
  met : t.met = h.reachFrom s.met pending
  kept : ∀ c ∈ s.met, o ≠ some c → t.heap.stored? (h.copyPlace s.order c) = s.heap.stored? (h.copyPlace s.order c)
  filled : ∀ c ∈ t.met, c ∉ s.met →
    t.heap.stored? (h.copyPlace t.order c) = (h.stored? c).map (Heap.mapStored (h.moved t.order))

namespace Copies

/-- Nothing is pending. -/
theorem refl (hs : s.Tracks h) : Copies h o [] s s where
  tracks := hs
  met := by rw [Heap.reachFrom]
  kept _ _ _ := rfl
  filled _ hc hn := absurd hc hn

/-- A cell has been met or is not there. -/
theorem known (hs : s.Tracks h) (hc : h.holds c = true → c ∈ s.met) : Copies h o [c] s s where
  tracks := hs
  met := (Heap.reachFrom_singleton_of_not fun hn => hn.2 (hc hn.1)).symm
  kept _ _ _ := rfl
  filled _ hc hn := absurd hc hn

theorem weaken (hc : Copies h none pending s t) : Copies h o pending s t :=
  { hc with kept := fun c hm _ => hc.kept c hm nofun }

theorem order_eq (hc : Copies h o pending s t) : ∃ new, t.order = s.order ++ new := by
  obtain ⟨new, hnew⟩ := Heap.exists_reachFrom_eq h s.met pending
  exact ⟨new.reverse, by rw [order, hc.met, hnew, List.reverse_append, order]⟩

theorem subset (hc : Copies h o pending s t) : s.met ⊆ t.met := by
  rw [hc.met]
  exact (Heap.mem_reachFrom h s.met pending).1

theorem reached (hc : Copies h o pending s t) (hm : c ∈ pending) (hh : h.holds c = true) : c ∈ t.met := by
  rw [hc.met]
  exact (Heap.mem_reachFrom h s.met pending).2.1 c hm hh

theorem inside (hc : Copies h o pending s t) (hm : c ∈ t.met) (hn : c ∉ s.met) {w : Value} (hw : w ∈ h.contents c)
    (hd : w.cell? = some d) (hh : h.holds d = true) : d ∈ t.met := by
  rw [hc.met] at hm ⊢
  exact (Heap.mem_reachFrom h s.met pending).2.2 c hm hn w hw d hd hh

theorem copyPlace_eq (hc : Copies h o pending s t) (hm : c ∈ s.met) :
    h.copyPlace t.order c = h.copyPlace s.order c := by
  obtain ⟨new, hnew⟩ := hc.order_eq
  rw [hnew, Heap.copyPlace_append (mem_order.2 hm)]

/-- A value whose cell has been met does not move again. -/
theorem moved_eq (hc : Copies h o pending s t) (hv : ∀ c, v.cell? = some c → h.holds c = true → c ∈ s.met) :
    h.moved t.order v = h.moved s.order v := by
  obtain ⟨new, hnew⟩ := hc.order_eq
  rw [hnew]
  refine Heap.moved_append fun c hcell hm => mem_order.2 (hv c hcell (hc.tracks.held c ?_))
  rw [← mem_order, hnew]
  exact List.mem_append_right _ hm

theorem trans (hst : Copies h o pending s t) (htu : Copies h o later t u) (ho : ∀ c ∈ o, c ∈ s.met) :
    Copies h o (pending ++ later) s u where
  tracks := htu.tracks
  met := by rw [htu.met, hst.met, Heap.reachFrom_append]
  kept c hm hc := by rw [← hst.copyPlace_eq hm, htu.kept c (hst.subset hm) hc, hst.copyPlace_eq hm, hst.kept c hm hc]
  filled c hm hn := by
    by_cases ht : c ∈ t.met
    · have hc : o ≠ some c := fun hc => hn (ho c hc)
      calc u.heap.stored? (h.copyPlace u.order c)
        _ = t.heap.stored? (h.copyPlace t.order c) := by rw [htu.copyPlace_eq ht, htu.kept c ht hc]
        _ = (h.stored? c).map (Heap.mapStored (h.moved t.order)) := hst.filled c ht hn
        _ = (h.stored? c).map (Heap.mapStored (h.moved u.order)) :=
          Heap.mapStored_congr fun w hw => (htu.moved_eq fun _ hd => hst.inside ht hn hw hd).symm
    · exact htu.filled c hm ht

end Copies

/-! ## Writing a cell -/

/-- One cell is given other contents. -/
structure Writes (new : Cell) (s t : Copying) : Prop where
  memo : t.memo = s.memo
  arrays : t.heap.arrays.size = s.heap.arrays.size
  objects : t.heap.objects.size = s.heap.objects.size
  stored : ∀ d, d ≠ new → t.heap.stored? d = s.heap.stored? d
  others : t.heap.references = s.heap.references ∧ t.heap.closures = s.heap.closures ∧
    t.heap.frames = s.heap.frames

theorem writes_setItems {id : Nat} {items : List Value} : Writes (.array id) s (s.setItems id items) where
  memo := rfl
  arrays := Array.size_modify
  objects := rfl
  stored _ hd := Heap.stored?_modifyArray hd
  others := ⟨rfl, rfl, rfl⟩

theorem writes_setEntry {id : Nat} {key : Text} : Writes (.object id) s (s.setEntry id key v) where
  memo := rfl
  arrays := rfl
  objects := Array.size_modify
  stored _ hd := Heap.stored?_modifyObject hd
  others := ⟨rfl, rfl, rfl⟩

theorem Writes.met (hw : Writes d s t) : t.met = s.met := by rw [Copying.met, hw.memo, Copying.met]

theorem Writes.order (hw : Writes d s t) : t.order = s.order := by rw [Copying.order, hw.met, Copying.order]

/-- The copy of a cell that has been met is written. -/
theorem Copies.write (hs : s.Tracks h) (hw : Writes (h.copyPlace s.order c) s t) :
    Copies h (some c) [] s t where
  tracks := {
    nodup := by rw [hw.met]; exact hs.nodup
    held := by rw [hw.met]; exact hs.held
    memo := by rw [hw.met, hw.memo, hw.order]; exact hs.memo
    arrays := by rw [hw.arrays, hw.order]; exact hs.arrays
    objects := by rw [hw.objects, hw.order]; exact hs.objects
    old := fun d hd => by
      rw [hw.stored d fun he => ?_, hs.old d hd]
      rw [he, Heap.not_holds_copyPlace] at hd
      cases hd
    others := by rw [hw.others.1, hw.others.2.1, hw.others.2.2]; exact hs.others }
  met := by rw [Heap.reachFrom, hw.met]
  kept d hd hne := hw.stored _ fun he => hne (by rw [(Heap.copyPlace_inj (mem_order.2 hd)).1 he])
  filled d hd hn := absurd (hw.met ▸ hd) hn

/-! ## A new cell -/

@[simp] theorem order_publish : (s.publish c).order = s.order ++ [c] := by simp [order]

/-- The cell made for a new cell is at its place. -/
theorem memo_publish (hs : s.Tracks h) (hn : c ∉ s.met) :
    (s.publish c).memo = (c, h.copyPlace (s.publish c).order c) :: s.memo := by
  rw [order_publish]
  cases c with
  | array id =>
    have hid : id ∉ Heap.arrayIds s.order := fun hm => hn (mem_order.1 (Heap.mem_arrayIds.1 hm))
    have hplace : (Heap.arrayIds (s.order ++ [.array id])).idxOf id = (Heap.arrayIds s.order).length := by
      rw [Heap.arrayIds_append, List.idxOf_append_of_notMem hid]
      simp [Heap.arrayIds]
    rw [Heap.copyPlace, hplace, ← hs.arrays]
    rfl
  | object id =>
    have hid : id ∉ Heap.objectIds s.order := fun hm => hn (mem_order.1 (Heap.mem_objectIds.1 hm))
    have hplace : (Heap.objectIds (s.order ++ [.object id])).idxOf id = (Heap.objectIds s.order).length := by
      rw [Heap.objectIds_append, List.idxOf_append_of_notMem hid]
      simp [Heap.objectIds]
    rw [Heap.copyPlace, hplace, ← hs.objects]
    rfl

theorem stored?_publish (hd : s.heap.holds d = true) : (s.publish c).heap.stored? d = s.heap.stored? d := by
  cases c <;> cases d <;>
    simp_all [publish, Heap.newArray, Heap.newObject, Heap.stored?, Heap.holds, Array.getElem?_push, Nat.ne_of_lt]

/-- The places of the cells that have been met are in the heap. -/
theorem Tracks.holds_copyPlace (hs : s.Tracks h) (hc : c ∈ s.met) : s.heap.holds (h.copyPlace s.order c) = true := by
  cases c with
  | array id =>
    have := List.idxOf_lt_length_of_mem (Heap.mem_arrayIds.2 (mem_order.2 hc))
    simp only [Heap.copyPlace, Heap.holds, hs.arrays, decide_eq_true_eq]
    omega
  | object id =>
    have := List.idxOf_lt_length_of_mem (Heap.mem_objectIds.2 (mem_order.2 hc))
    simp only [Heap.copyPlace, Heap.holds, hs.objects, decide_eq_true_eq]
    omega

theorem Tracks.holds (hs : s.Tracks h) (hc : h.holds c = true) : s.heap.holds c = true := by
  cases c <;> simp only [Heap.holds, decide_eq_true_eq, hs.arrays, hs.objects] at hc ⊢ <;> omega

theorem Tracks.publish (hs : s.Tracks h) (hc : h.holds c = true) (hn : c ∉ s.met) : (s.publish c).Tracks h where
  nodup := by
    rw [met_publish]
    exact List.nodup_cons.2 ⟨hn, hs.nodup⟩
  held := by
    rw [met_publish]
    exact List.forall_mem_cons.2 ⟨hc, hs.held⟩
  memo d hd := by
    rw [memo_publish hs hn, List.lookup_cons]
    rw [met_publish, List.mem_cons] at hd
    by_cases he : d = c
    · simp [he]
    · have hd := hd.resolve_left he
      simp only [beq_eq_false_iff_ne.2 he, order_publish]
      rw [Heap.copyPlace_append (mem_order.2 hd), hs.memo d hd]
  arrays := by
    rw [order_publish, Heap.arrayIds_append]
    cases c <;> simp [Copying.publish, Heap.newArray, Heap.newObject, Heap.arrayIds, hs.arrays, Nat.add_assoc]
  objects := by
    rw [order_publish, Heap.objectIds_append]
    cases c <;> simp [Copying.publish, Heap.newArray, Heap.newObject, Heap.objectIds, hs.objects, Nat.add_assoc]
  old d hd := by rw [stored?_publish (hs.holds hd), hs.old d hd]
  others := by cases c <;> exact hs.others

/-- A new cell has been published, and then given all that it is to hold. -/
theorem Copies.close (hs : s.Tracks h) (hh : h.holds c = true) (hn : c ∉ s.met)
    (ht : Copies h (some c) ((h.contents c).filterMap Value.cell?) (s.publish c) t)
    (hc : t.heap.stored? (h.copyPlace t.order c) = (h.stored? c).map (Heap.mapStored (h.moved t.order))) :
    Copies h none [c] s t where
  tracks := ht.tracks
  met := by rw [ht.met, met_publish, Heap.reachFrom_singleton hh hn]
  kept d hd _ := by
    have hne : c ≠ d := fun he => hn (he ▸ hd)
    have hplace : h.copyPlace (s.publish c).order d = h.copyPlace s.order d := by
      rw [order_publish, Heap.copyPlace_append (mem_order.2 hd)]
    rw [← hplace, ht.kept d (by simp [hd]) (by simpa using hne), hplace, stored?_publish (hs.holds_copyPlace hd)]
  filled d hd hm := by
    by_cases he : d = c
    · rw [he, hc]
    · exact ht.filled d hd (by simp [he, hm])

theorem Tracks.array_eq {id : Nat} (hs : s.Tracks h) (hh : h.holds (.array id) = true) :
    s.heap.array id = h.array id := by
  have hold := hs.old _ hh
  rw [Heap.stored?_array (hs.holds hh), Heap.stored?_array hh] at hold
  simpa using hold

theorem Tracks.object_eq {id : Nat} (hs : s.Tracks h) (hh : h.holds (.object id) = true) :
    s.heap.object id = h.object id := by
  have hold := hs.old _ hh
  rw [Heap.stored?_object (hs.holds hh), Heap.stored?_object hh] at hold
  simpa using hold

/-! ## Copying -/

/-- A value was copied: all that can be reached from it has a copy, and the value is moved. -/
structure CopiesValue (h : Heap) (s : Copying) (v copy : Value) (t : Copying) : Prop where
  copies : Copies h none v.cell?.toList s t
  moved : copy = h.moved t.order v

/-- Values were copied in order. -/
structure CopiesItems (h : Heap) (s : Copying) (items moved : List Value) (t : Copying) : Prop where
  copies : Copies h none (items.filterMap Value.cell?) s t
  moved : moved = items.map (h.moved t.order)

/-- Entries were copied in order and put at the end of the map in a new object, the copy of a cell. -/
structure CopiesEntries (h : Heap) (c : Cell) (new : Nat) (m : OrderedMap Text Value) (s : Copying)
    (entries : List (Text × Value)) (t : Copying) : Prop where
  copies : Copies h (some c) (entries.filterMap (·.2.cell?)) s t
  stored : ∃ m', t.heap.stored? (.object new) = some (.inr m') ∧
    m'.entries = m.entries ++ entries.map fun e => (e.1, h.moved t.order e.2)

theorem copiesValue_of_known (hs : s.Tracks h) (hv : v.cell? = some c) (hc : h.holds c = true → c ∈ s.met) :
    CopiesValue h s v (h.moved s.order v) s where
  copies := by
    rw [hv]
    exact .known hs hc
  moved := rfl

/-- The place of a new cell is the first free one. -/
theorem copyPlace_publish_array {id : Nat} (hs : s.Tracks h) (hm : .array id ∉ s.met) :
    h.copyPlace (s.publish (.array id)).order (.array id) = .array s.heap.arrays.size :=
  (Prod.mk.inj (List.cons.inj (memo_publish hs hm)).1).2.symm

theorem copyPlace_publish_object {id : Nat} (hs : s.Tracks h) (hm : .object id ∉ s.met) :
    h.copyPlace (s.publish (.object id)).order (.object id) = .object s.heap.objects.size :=
  (Prod.mk.inj (List.cons.inj (memo_publish hs hm)).1).2.symm

theorem copiesValue_array {id : Nat} {items : List Value} (hs : s.Tracks h) (hv : v.cell? = some (.array id))
    (hm : .array id ∉ s.met) (hh : h.holds (.array id) = true)
    (hitems : CopiesItems h (s.publish (.array id)) (s.heap.array id).toList items t) :
    CopiesValue h s v (v.withCell (.array s.heap.arrays.size)) (t.setItems s.heap.arrays.size items) := by
  obtain ⟨hcopies, rfl⟩ := hitems
  rw [hs.array_eq hh]
  rw [hs.array_eq hh] at hcopies
  generalize hu : t.setItems _ _ = u
  have hmet : .array id ∈ (s.publish (.array id)).met := by simp
  have hplace : h.copyPlace t.order (.array id) = .array s.heap.arrays.size := by
    rw [hcopies.copyPlace_eq hmet, copyPlace_publish_array hs hm]
  have hwrites : Writes (h.copyPlace t.order (.array id)) t u := by
    rw [hplace, ← hu]
    exact writes_setItems
  have hstored : u.heap.stored? (.array s.heap.arrays.size) =
      some (.inl ((h.array id).toList.map (h.moved t.order)).toArray) := by
    have hheld := hcopies.tracks.holds_copyPlace (hcopies.subset hmet)
    rw [hplace] at hheld
    have hlt : s.heap.arrays.size < t.heap.arrays.size := by simpa [Heap.holds] using hheld
    simp [← hu, setItems, Heap.modifyArray, Heap.stored?, Array.getElem_modify, hlt]
  have hopen := hcopies.weaken.trans (.write hcopies.tracks hwrites) (by simp)
  rw [List.append_nil] at hopen
  refine ⟨?_, ?_⟩
  · rw [hv]
    refine .close hs hh hm hopen ?_
    rw [hwrites.order, hplace, hstored, Heap.stored?_array hh]
    simp [Heap.mapStored, ← Array.toList_map]
  · rw [hwrites.order, Heap.moved_of_mem hv (mem_order.2 (hcopies.subset hmet)), hplace]

theorem copiesValue_object {id : Nat} (hs : s.Tracks h) (hv : v.cell? = some (.object id))
    (hm : .object id ∉ s.met) (hh : h.holds (.object id) = true)
    (hentries : CopiesEntries h (.object id) s.heap.objects.size .empty (s.publish (.object id))
      (s.heap.object id).entries t) :
    CopiesValue h s v (v.withCell (.object s.heap.objects.size)) t := by
  obtain ⟨hcopies, m, hstored, hmap⟩ := hentries
  rw [hs.object_eq hh] at hcopies hmap
  have hmet : .object id ∈ (s.publish (.object id)).met := by simp
  have hplace : h.copyPlace t.order (.object id) = .object s.heap.objects.size := by
    rw [hcopies.copyPlace_eq hmet, copyPlace_publish_object hs hm]
  have hcontents : (h.object id).entries.filterMap (·.2.cell?) =
      (h.contents (.object id)).filterMap Value.cell? := by
    rw [Heap.contents, OrderedMap.values, List.filterMap_map]
    rfl
  rw [hcontents] at hcopies
  refine ⟨?_, ?_⟩
  · rw [hv]
    refine .close hs hh hm hcopies ?_
    obtain rfl : m = (h.object id).mapValues (h.moved t.order) := by
      cases m
      simpa [OrderedMap.mapValues, OrderedMap.empty] using hmap
    rw [hplace, hstored, Heap.stored?_object hh]
    rfl
  · rw [Heap.moved_of_mem hv (mem_order.2 (hcopies.subset hmet)), hplace]

theorem filterMap_cell?_cons {α : Type} (f : α → Value) (a : α) (rest : List α) :
    (a :: rest).filterMap (fun a => (f a).cell?) = (f a).cell?.toList ++ rest.filterMap fun a => (f a).cell? := by
  cases hc : (f a).cell? with
  | none => simp [hc]
  | some c => simp [hc]

/-- A value that was copied does not move again. -/
theorem CopiesValue.moved_later {copy : Value} (hv : CopiesValue h s v copy t) (hu : Copies h o pending t u) :
    copy = h.moved u.order v := by
  rw [hv.moved, hu.moved_eq fun c hc hh => hv.copies.reached (by simp [hc]) hh]

theorem copiesItems_nil (hs : s.Tracks h) : CopiesItems h s [] [] s := ⟨.refl hs, rfl⟩

theorem copiesItems_cons {copy : Value} {rest copies : List Value} (hv : CopiesValue h s v copy t)
    (hrest : CopiesItems h t rest copies u) : CopiesItems h s (v :: rest) (copy :: copies) u where
  copies := by
    rw [show (v :: rest).filterMap Value.cell? = _ from filterMap_cell?_cons id v rest]
    exact hv.copies.trans hrest.copies nofun
  moved := by rw [List.map_cons, ← hrest.moved, ← hv.moved_later hrest.copies]

theorem copiesEntries_nil {new : Nat} {m : OrderedMap Text Value} (hs : s.Tracks h)
    (hm : s.heap.stored? (.object new) = some (.inr m)) : CopiesEntries h c new m s [] s :=
  ⟨.refl hs, m, hm, by simp⟩

/-- A value that was copied is set in the new object, which is the copy of a cell. -/
theorem CopiesValue.setEntry {new : Nat} {key : Text} {copy : Value} (hv : CopiesValue h s v copy t)
    (hc : c ∈ s.met) (hplace : h.copyPlace s.order c = .object new) :
    Copies h (some c) [] t (t.setEntry new key copy) := by
  refine .write hv.copies.tracks ?_
  rw [hv.copies.copyPlace_eq hc, hplace]
  exact writes_setEntry

/-- The new object has the entry then. -/
theorem CopiesValue.stored?_setEntry {new : Nat} {key : Text} {copy : Value} {m : OrderedMap Text Value}
    (hv : CopiesValue h s v copy t) (hc : c ∈ s.met) (hplace : h.copyPlace s.order c = .object new)
    (hm : s.heap.stored? (.object new) = some (.inr m)) :
    (t.setEntry new key copy).heap.stored? (.object new) = some (.inr (m.insert key copy)) := by
  have hkept := hv.copies.kept c hc nofun
  rw [hplace, hm] at hkept
  simp only [Heap.stored?, Option.map_eq_some_iff, Sum.inr.injEq, exists_eq_right] at hkept
  simp [Copying.setEntry, Heap.modifyObject, Heap.stored?, Array.getElem?_modify, hkept]

/-- An entry was copied and set in the new object, and then the others. -/
theorem copiesEntries_cons {new : Nat} {m : OrderedMap Text Value} {key : Text} {copy : Value}
    {rest : List (Text × Value)} (hc : c ∈ s.met) (hplace : h.copyPlace s.order c = .object new)
    (hinsert : (m.insert key copy).entries = m.entries ++ [(key, copy)]) (hv : CopiesValue h s v copy t)
    (hrest : CopiesEntries h c new (m.insert key copy) (t.setEntry new key copy) rest u) :
    CopiesEntries h c new m s ((key, v) :: rest) u := by
  have ht : ∀ d ∈ some c, d ∈ t.met := by simpa using hv.copies.subset hc
  have hlater := (hv.setEntry hc hplace).trans hrest.copies ht
  refine ⟨?_, ?_⟩
  · rw [filterMap_cell?_cons (Prod.snd : Text × Value → Value)]
    exact hv.copies.weaken.trans hlater (by simpa using hc)
  · obtain ⟨m', hm', hentries⟩ := hrest.stored
    refine ⟨m', hm', ?_⟩
    rw [hentries, hinsert, List.map_cons, hv.moved_later hlater, List.append_assoc]
    rfl

/-! ## The recursion -/

theorem copyValue_of_cell?_eq_none (hv : v.cell? = none) : h.copyValue s v = (v, ⟨s, List.Subset.refl _⟩) := by
  rw [Heap.copyValue]
  split
  · rfl
  · next hc => rw [hv] at hc; cases hc

theorem copyValue_of_known (hv : v.cell? = some c) (hm : s.memo.lookup c = some d) :
    h.copyValue s v = (v.withCell d, ⟨s, List.Subset.refl _⟩) := by
  rw [Heap.copyValue]
  split
  · next hn => rw [hv] at hn; cases hn
  · next hc =>
    cases hv.symm.trans hc
    split
    · next hd =>
      cases hm.symm.trans hd
      rfl
    · next hn => rw [hm] at hn; cases hn

theorem copyValue_of_absent (hv : v.cell? = some c) (hm : s.memo.lookup c = none) (hh : ¬h.holds c = true) :
    h.copyValue s v = (v, ⟨s, List.Subset.refl _⟩) := by
  rw [Heap.copyValue]
  split
  · rfl
  · next hc =>
    cases hv.symm.trans hc
    split
    · next hd => rw [hm] at hd; cases hd
    · rw [dif_neg hh]

/-- The copy of a new array is filled after its elements have been copied. -/
theorem copyValue_of_array {id : Nat} (hv : v.cell? = some (.array id)) (hm : s.memo.lookup (.array id) = none)
    (hh : h.holds (.array id) = true) :
    let r := h.copyItems (s.publish (.array id)) (s.heap.array id).toList
    (h.copyValue s v).1 = v.withCell (.array s.heap.arrays.size) ∧
      (h.copyValue s v).2.1 = r.2.1.setItems s.heap.arrays.size r.1 := by
  rw [Heap.copyValue]
  split
  · next hn => rw [hv] at hn; cases hn
  · next hc =>
    cases hv.symm.trans hc
    split
    · next hd => rw [hm] at hd; cases hd
    · rw [dif_pos hh]
      exact ⟨rfl, rfl⟩

/-- The copy of a new object is filled while its entries are copied. -/
theorem copyValue_of_object {id : Nat} (hv : v.cell? = some (.object id))
    (hm : s.memo.lookup (.object id) = none) (hh : h.holds (.object id) = true) :
    (h.copyValue s v).1 = v.withCell (.object s.heap.objects.size) ∧
      (h.copyValue s v).2.1 =
        (h.copyEntries (s.publish (.object id)) s.heap.objects.size (s.heap.object id).entries).1 := by
  rw [Heap.copyValue]
  split
  · next hn => rw [hv] at hn; cases hn
  · next hc =>
    cases hv.symm.trans hc
    split
    · next hd => rw [hm] at hd; cases hd
    · rw [dif_pos hh]
      exact ⟨rfl, rfl⟩

/-- At every stage, values, elements and entries are copied as they are to be. The entries of a new object come
behind those that it has. -/
theorem copiesValue_copyValue (h : Heap) :
    (∀ s v, s.Tracks h → CopiesValue h s v (h.copyValue s v).1 (h.copyValue s v).2.1) ∧
    (∀ s new entries, s.Tracks h → ∀ c ∈ s.met, h.copyPlace s.order c = .object new →
      ∀ m, s.heap.stored? (.object new) = some (.inr m) → (m.keys ++ entries.map Prod.fst).Nodup →
      CopiesEntries h c new m s entries (h.copyEntries s new entries).1) ∧
    ∀ s items, s.Tracks h → CopiesItems h s items (h.copyItems s items).1 (h.copyItems s items).2.1 := by
  refine Heap.copyValue.mutual_induct h _ _ _ ?_ ?_ ?_ ?_ ?_ ?_ ?_ ?_ ?_
  -- values
  · intro s v hv hs
    rw [copyValue_of_cell?_eq_none hv]
    refine ⟨?_, (Heap.moved_of_cell?_eq_none hv).symm⟩
    rw [hv]
    exact .refl hs
  · intro s v c hv d hm hs
    have hc : c ∈ s.met := Decidable.not_not.1 fun hn => by
      rw [lookup_eq_none_iff.2 hn] at hm
      cases hm
    rw [copyValue_of_known hv hm, Option.some.inj (hm.symm.trans (hs.memo c hc)),
      ← Heap.moved_of_mem hv (mem_order.2 hc)]
    exact copiesValue_of_known hs hv fun _ => hc
  · intro s v id hm hh _ _ _ hv _ _ ih hs
    obtain ⟨hcopy, hlater⟩ := copyValue_of_array hv hm hh
    have hn := lookup_eq_none_iff.1 hm
    rw [hcopy, hlater]
    exact copiesValue_array hs hv hn hh (ih (hs.publish hh hn))
  · intro s v id hm hh _ hv _ _ _ ih hs
    obtain ⟨hcopy, hlater⟩ := copyValue_of_object hv hm hh
    have hn := lookup_eq_none_iff.1 hm
    rw [hcopy, hlater]
    refine copiesValue_object hs hv hn hh (ih (hs.publish hh hn) _ (by simp) ?_ _ ?_ ?_)
    · exact copyPlace_publish_object hs hn
    · simp [Copying.publish, Heap.newObject, Heap.stored?]
    · exact (s.heap.object id).nodup
  · intro s v c hv hm hh hs
    have hstays : h.moved s.order v = v := Heap.moved_of_not_mem fun d hd hmem => by
      cases hv.symm.trans hd
      exact lookup_eq_none_iff.1 hm (mem_order.1 hmem)
    have hknown := copiesValue_of_known hs hv fun hn => absurd hn hh
    rw [hstays] at hknown
    rw [copyValue_of_absent hv hm hh]
    exact hknown
  -- entries
  · intro s new hs c _ _ m hm _
    rw [Heap.copyEntries]
    exact copiesEntries_nil hs hm
  · intro s new key v rest copy t ht ihv ih hs c hc hplace m hm hkeys
    obtain rfl : copy = (h.copyValue s v).1 := by rw [ht]
    obtain rfl : t = (h.copyValue s v).2 := by rw [ht]
    have hv := ihv hs
    have hset : Copies h (some c) [] _ (Copying.setEntry _ new key _) := hv.setEntry hc hplace
    have hkey : key ∉ m.keys := fun hmem =>
      (List.nodup_append.1 hkeys).2.2 _ hmem _ (List.mem_cons_self ..) rfl
    have hinsert : (m.insert key (h.copyValue s v).1).entries = m.entries ++ [(key, (h.copyValue s v).1)] :=
      OrderedMap.put_of_not_mem _ hkey
    rw [Heap.copyEntries]
    refine copiesEntries_cons hc hplace hinsert hv (ih hset.tracks c (hset.subset (hv.copies.subset hc)) ?_ _ ?_ ?_)
    · rw [hset.copyPlace_eq (hv.copies.subset hc), hv.copies.copyPlace_eq hc, hplace]
    · exact hv.stored?_setEntry hc hplace hm
    · rw [OrderedMap.keys, hinsert, List.map_append, List.append_assoc]
      exact hkeys
  -- elements
  · intro s hs
    rw [Heap.copyItems]
    exact copiesItems_nil hs
  · intro s v rest copy t ht _ _ _ ihv ih hs
    obtain rfl : copy = (h.copyValue s v).1 := by rw [ht]
    obtain rfl : t = (h.copyValue s v).2 := by rw [ht]
    have hv := ihv hs
    rw [Heap.copyItems]
    exact copiesItems_cons hv (ih hv.copies.tracks)

/-- Nothing has been met. -/
theorem tracks_nil (h : Heap) : Tracks h ⟨h, []⟩ where
  nodup := List.nodup_nil
  held := nofun
  memo := nofun
  arrays := rfl
  objects := rfl
  old _ _ := rfl
  others := ⟨rfl, rfl, rfl⟩

/-- When everything that has been met is copied, the heap has the copies and is otherwise as it was. -/
theorem Copies.heap_eq (hc : Copies h none pending ⟨h, []⟩ t) : t.heap = h.withCopies t.order := by
  have hs := hc.tracks
  have hnodup : t.order.Nodup := List.nodup_reverse.2 hs.nodup
  refine Heap.ext_stored? (fun d => ?_) hs.others.1 hs.others.2.1 hs.others.2.2
  by_cases hd : (h.withCopies t.order).holds d = true
  · obtain hold | ⟨c, hm, rfl⟩ := Heap.holds_withCopies hnodup hd
    · rw [hs.old d hold, Heap.stored?_withCopies_old hold]
    · rw [hc.filled c (mem_order.1 hm) List.not_mem_nil,
        Heap.stored?_withCopies_copyPlace hm (hs.held c (mem_order.1 hm))]
  · have hn : ¬t.heap.holds d = true := by
      cases d <;> simpa [Heap.holds, Heap.withCopies, hs.arrays, hs.objects] using hd
    rw [Heap.stored?_of_not_holds hd, Heap.stored?_of_not_holds hn]

end Copying

namespace Heap

open Copying

/-- A deep copy is the relocation of all that can be reached from a value. -/
theorem deepCopy_eq (h : Heap) (v : Value) :
    h.deepCopy v = (h.moved (h.reach v) v, h.withCopies (h.reach v)) := by
  obtain ⟨hcopies, hmoved⟩ := (copiesValue_copyValue h).1 ⟨h, []⟩ v (tracks_nil h)
  have horder : (h.copyValue ⟨h, []⟩ v).2.1.order = h.reach v := by
    rw [order, hcopies.met]
    rfl
  rw [← horder, ← hmoved, ← hcopies.heap_eq]
  rfl

end Heap

end ScriptEngine

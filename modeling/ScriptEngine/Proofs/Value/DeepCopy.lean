import ScriptEngine.Proofs.Value.Copying
import ScriptEngine.Proofs.Value.ReadingBack

/-!
# Deep copies are disjoint and isomorphic

* **Reach** (`Heap.Reaches v c`): the cells that can be reached from a value through arrays and
  objects. A value is on a heap (`Heap.Contains`) if the heap holds all of them. A copy meets each of
  them (`mem_reach`).
* **Places** (`Heap.copyPlace`): where the copy of a cell stands. Places of different cells differ, none
  was there before, and the content of a place is that of the cell, moved.
* **Positions** (`Heap.at?`): what is found in a value along a path of indices and keys. Along every path
  the copy has the moved value of what the original has there (`at?_deepCopy`).

`deepCopy_isomorphic` puts these together. Moving a value is a bisimulation, which is why a copy is equal
to the original.
-/

namespace ScriptEngine

namespace Heap

variable {h : Heap} {v w : Value} {c d : Cell} {cells found pending : List Cell}

/-! ## Reach -/

/-- A cell can be reached from a value through arrays and objects. -/
inductive Reaches (h : Heap) (v : Value) : Cell → Prop
  | here {c : Cell} : v.cell? = some c → h.Reaches v c
  | inside {c d : Cell} {w : Value} :
    h.Reaches v c → w ∈ h.contents c → w.cell? = some d → h.Reaches v d

/-- A value is on a heap: all cells that can be reached from it are there. -/
def Contains (h : Heap) (v : Value) : Prop := ∀ c, h.Reaches v c → h.holds c = true

theorem Reaches.of_mem_contents (hv : v.cell? = some c) (hw : w ∈ h.contents c)
    (hr : h.Reaches w d) : h.Reaches v d := by
  induction hr with
  | here hd => exact .inside (.here hv) hw hd
  | inside _ hu he ih => exact .inside ih hu he

/-- A value is on a heap if its cell is among cells of the heap that hold only values with cells among them. -/
theorem contains_of_cells (cells : List Cell) (hv : ∀ c ∈ v.cell?, c ∈ cells)
    (hh : ∀ c ∈ cells, h.holds c = true ∧ ∀ w ∈ h.contents c, ∀ d ∈ w.cell?, d ∈ cells) : h.Contains v := by
  have hmem : ∀ c, h.Reaches v c → c ∈ cells := fun c hr => by
    induction hr with
    | here hc => exact hv _ hc
    | inside _ hw hd ih => exact (hh _ ih).2 _ hw _ hd
  exact fun c hr => (hh c (hmem c hr)).1

/-- The search finds all cells that can be reached. -/
theorem mem_reach (hv : h.Contains v) (hr : h.Reaches v c) : c ∈ h.reach v := by
  obtain ⟨-, hpending, hinside⟩ := mem_reachFrom h [] v.cell?.toList
  rw [reach, List.mem_reverse]
  induction hr with
  | here hc => exact hpending _ (by simp [hc]) (hv _ (.here hc))
  | inside hr hw hd ih => exact hinside _ ih (by simp) _ hw _ hd (hv _ (.inside hr hw hd))

/-! ## Places -/

theorem payload_of_cell? (hc : v.cell? = some c) :
    v.payload = match c with
      | .array id => .array id
      | .object id => .object id := by
  unfold Value.cell? at hc
  split at hc
  · next he => cases hc; exact he
  · next he => cases hc; exact he
  · cases hc

theorem moved_of_array {id : Nat} (hv : v.payload = .array id) (hc : .array id ∈ cells) :
    h.moved cells v = { v with payload := .array (h.arrays.size + (arrayIds cells).idxOf id) } :=
  moved_of_mem (by rw [Value.cell?, hv]) hc

theorem moved_of_object {id : Nat} (hv : v.payload = .object id) (hc : .object id ∈ cells) :
    h.moved cells v =
      { v with payload := .object (h.objects.size + (objectIds cells).idxOf id) } :=
  moved_of_mem (by rw [Value.cell?, hv]) hc

/-- Only the cell of a value is moved. -/
theorem moved_of_cell? (hv : ∀ c, v.cell? = some c → c ∈ cells) :
    (h.moved cells v).tags = v.tags ∧
      (h.moved cells v).cell? = v.cell?.map (h.copyPlace cells) := by
  cases hc : v.cell? with
  | none => rw [moved_of_cell?_eq_none hc, hc]; exact ⟨rfl, rfl⟩
  | some c =>
    have hp := payload_of_cell? hc
    cases c with
    | array id => rw [moved_of_array hp (hv _ hc)]; exact ⟨rfl, rfl⟩
    | object id => rw [moved_of_object hp (hv _ hc)]; exact ⟨rfl, rfl⟩

theorem holds_copyPlace (hc : c ∈ cells) : (h.withCopies cells).holds (h.copyPlace cells c) = true := by
  cases c with
  | array id => simpa [copyPlace, holds, withCopies] using List.idxOf_lt_length_of_mem (mem_arrayIds.2 hc)
  | object id =>
    simpa [copyPlace, holds, withCopies] using List.idxOf_lt_length_of_mem (mem_objectIds.2 hc)

theorem keptBy_withCopies : h.KeptBy (h.withCopies cells) := by
  refine ⟨fun {id items} ha => ?_, fun {id entries} ho => ?_⟩
  · obtain ⟨hlt, -⟩ := Array.getElem?_eq_some_iff.1 ha
    rw [withCopies, Array.getElem?_append_left hlt, ha]
  · obtain ⟨hlt, -⟩ := Array.getElem?_eq_some_iff.1 ho
    rw [withCopies, Array.getElem?_append_left hlt, ho]

/-- The copy of an array holds its elements, moved. -/
theorem array_copyPlace {id : Nat} (hc : .array id ∈ cells) :
    (h.withCopies cells).array (h.arrays.size + (arrayIds cells).idxOf id) =
      (h.array id).map (h.moved cells) := by
  have hlt := List.idxOf_lt_length_of_mem (mem_arrayIds.2 hc)
  refine array_eq ?_
  rw [withCopies, Array.getElem?_append_right (Nat.le_add_right _ _), Nat.add_sub_cancel_left]
  simp [List.getElem?_eq_getElem hlt]

/-- The copy of an object holds its values under the same keys, moved. -/
theorem object_copyPlace {id : Nat} (hc : .object id ∈ cells) :
    (h.withCopies cells).object (h.objects.size + (objectIds cells).idxOf id) =
      (h.object id).mapValues (h.moved cells) := by
  have hlt := List.idxOf_lt_length_of_mem (mem_objectIds.2 hc)
  refine object_eq ?_
  rw [withCopies, Array.getElem?_append_right (Nat.le_add_right _ _), Nat.add_sub_cancel_left]
  simp [List.getElem?_eq_getElem hlt]

theorem contents_copyPlace (hc : c ∈ cells) :
    (h.withCopies cells).contents (h.copyPlace cells c) = (h.contents c).map (h.moved cells) := by
  cases c with
  | array id => simp [contents, copyPlace, array_copyPlace hc]
  | object id => simp [contents, copyPlace, object_copyPlace hc, OrderedMap.values, OrderedMap.mapValues]

/-! ## Values with copies -/

/-- Every cell that can be reached from a value is in the heap and has a copy. -/
def Covers (h : Heap) (cells : List Cell) (v : Value) : Prop :=
  ∀ c, h.Reaches v c → c ∈ cells ∧ h.holds c = true

theorem Contains.covers (hv : h.Contains v) : h.Covers (h.reach v) v := fun c hr =>
  ⟨mem_reach hv hr, hv c hr⟩

theorem Covers.of_mem_contents (hv : h.Covers cells v) (hc : v.cell? = some c)
    (hw : w ∈ h.contents c) : h.Covers cells w := fun d hr => hv d (hr.of_mem_contents hc hw)

theorem Covers.mem (hv : h.Covers cells v) (hc : v.cell? = some c) : c ∈ cells := (hv c (.here hc)).1

theorem Covers.moved_cell? (hv : h.Covers cells v) :
    (h.moved cells v).tags = v.tags ∧ (h.moved cells v).cell? = v.cell?.map (h.copyPlace cells) :=
  moved_of_cell? fun _ => hv.mem

/-- What can be reached from a moved value are the copies of what can be reached from the value. -/
theorem Covers.reaches_moved (hv : h.Covers cells v)
    (hr : (h.withCopies cells).Reaches (h.moved cells v) d) :
    ∃ c, h.Reaches v c ∧ d = h.copyPlace cells c := by
  induction hr with
  | here hd =>
    rw [hv.moved_cell?.2, Option.map_eq_some_iff] at hd
    obtain ⟨c, hc, rfl⟩ := hd
    exact ⟨c, .here hc, rfl⟩
  | inside _ hw hd ih =>
    obtain ⟨c, hc, rfl⟩ := ih
    rw [contents_copyPlace (hv c hc).1, List.mem_map] at hw
    obtain ⟨u, hu, rfl⟩ := hw
    have hcu : ∀ e, u.cell? = some e → h.Reaches v e := fun e he => .inside hc hu he
    rw [(moved_of_cell? fun e he => (hv e (hcu e he)).1).2, Option.map_eq_some_iff] at hd
    obtain ⟨e, he, rfl⟩ := hd
    exact ⟨e, hcu e he, rfl⟩

theorem KeptBy.array_eq {h' : Heap} {id : Nat} (hk : h.KeptBy h') (hid : id < h.arrays.size) :
    h'.array id = h.array id := by
  rw [Heap.array_eq (hk.arrays (Array.getElem?_eq_getElem hid)),
    Heap.array_eq (Array.getElem?_eq_getElem hid)]

theorem KeptBy.object_eq {h' : Heap} {id : Nat} (hk : h.KeptBy h') (hid : id < h.objects.size) :
    h'.object id = h.object id := by
  rw [Heap.object_eq (hk.objects (Array.getElem?_eq_getElem hid)),
    Heap.object_eq (Array.getElem?_eq_getElem hid)]

end Heap

namespace Heap

variable {h : Heap} {v w : Value} {c d : Cell} {cells : List Cell}

theorem mem_contents_of_get? {id : Nat} {k : Text} (hw : (h.object id).get? k = some w) :
    w ∈ h.contents (.object id) :=
  List.mem_map.2 ⟨(k, w), OrderedMap.get?_eq_some_iff.1 hw, rfl⟩

/-- A value and the moved value differ in nothing that equality sees. -/
theorem isBisimulation_moved : (h.withCopies cells).IsBisimulation fun a b =>
    h.Covers cells a ∧ b = h.moved cells a := by
  rintro a _ ⟨ha, rfl⟩
  have htags := ha.moved_cell?.1
  have hvariant : a.variant? = (h.moved cells a).variant? := by
    rw [Value.variant?, Value.variant?, Value.tag?, Value.tag?, htags]
  refine ⟨hvariant, ?_⟩
  cases hc : a.cell? with
  | none =>
    rw [moved_of_cell?_eq_none hc]
    cases hp : a.payload with
    | number x => exact .number rfl
    | _ => simp [Value.cell?, hp] at hc <;> constructor
  | some c =>
    have hp := payload_of_cell? hc
    obtain ⟨hm, hh⟩ := ha c (.here hc)
    cases c with
    | array id =>
      rw [moved_of_array hp hm, hp]
      refine .array ?_
      rw [array_copyPlace hm, keptBy_withCopies.array_eq (by simpa [holds] using hh),
        Array.toList_map, List.forall₂_map_right_iff]
      exact List.forall₂_same.2 fun w hw => ⟨ha.of_mem_contents hc hw, rfl⟩
    | object id =>
      rw [moved_of_object hp hm, hp]
      refine .object fun k => ?_
      rw [object_copyPlace hm, keptBy_withCopies.object_eq (by simpa [holds] using hh),
        OrderedMap.get?_mapValues]
      cases hk : (h.object id).get? k with
      | none => exact .none
      | some w => exact .some ⟨ha.of_mem_contents hc (mem_contents_of_get? hk), rfl⟩

/-! ## Positions -/

/-- A step into an array or an object. -/
inductive Step where
  | item (index : Nat)
  | entry (key : Text)

/-- What a value has one step inside. -/
def child? (h : Heap) (v : Value) (s : Step) : Option Value :=
  match v.payload, s with
  | .array id, .item i => (h.array id)[i]?
  | .object id, .entry k => (h.object id).get? k
  | _, _ => none

/-- What a value has at a position, which is given by the steps that lead there. -/
def at? (h : Heap) (v : Value) : List Step → Option Value
  | [] => some v
  | s :: rest => (h.child? v s).bind fun w => h.at? w rest

theorem mem_contents_of_child? {s : Step} (hw : h.child? v s = some w) :
    ∃ c, v.cell? = some c ∧ w ∈ h.contents c := by
  unfold child? at hw
  split at hw
  · next id i hp =>
    exact ⟨.array id, by simp [Value.cell?, hp], Array.mem_toList_iff.2 (Array.mem_of_getElem? hw)⟩
  · next id k hp => exact ⟨.object id, by simp [Value.cell?, hp], mem_contents_of_get? hw⟩
  · cases hw

theorem Covers.child? {s : Step} (hv : h.Covers cells v) (hw : h.child? v s = some w) :
    h.Covers cells w := by
  obtain ⟨c, hc, hm⟩ := mem_contents_of_child? hw
  exact hv.of_mem_contents hc hm

/-- One step inside a moved value is what is one step inside the value, moved. -/
theorem child?_moved {s : Step} (hv : h.Covers cells v) :
    (h.withCopies cells).child? (h.moved cells v) s = (h.child? v s).map (h.moved cells) := by
  cases hc : v.cell? with
  | none =>
    rw [moved_of_cell?_eq_none hc]
    cases hp : v.payload <;> simp [Value.cell?, hp] at hc <;> simp [Heap.child?, hp]
  | some c =>
    have hp := payload_of_cell? hc
    have hm := hv.mem hc
    cases c with
    | array id =>
      rw [moved_of_array hp hm]
      cases s <;> simp [Heap.child?, hp, array_copyPlace hm]
    | object id =>
      rw [moved_of_object hp hm]
      cases s <;> simp [Heap.child?, hp, object_copyPlace hm, OrderedMap.get?_mapValues]

theorem at?_moved {p : List Step} (hv : h.Covers cells v) :
    (h.withCopies cells).at? (h.moved cells v) p = (h.at? v p).map (h.moved cells) := by
  induction p generalizing v with
  | nil => rfl
  | cons s rest ih =>
    rw [at?, at?, child?_moved hv]
    cases hw : h.child? v s with
    | none => rfl
    | some w => exact ih (hv.child? hw)

theorem Covers.at? {p : List Step} (hv : h.Covers cells v) (hw : h.at? v p = some w) :
    h.Covers cells w := by
  induction p generalizing v with
  | nil => cases hw; exact hv
  | cons s rest ih =>
    obtain ⟨u, hu, hw⟩ := Option.bind_eq_some_iff.1 hw
    exact ih (hv.child? hu) hw

/-- A value of a heap is a copy, at the top, of a value of another: it has the same tags, and is the
same thing unless it is an array of the same length or an object with the same keys in the same order. -/
def CopyOf (h h' : Heap) (a b : Value) : Prop :=
  b.tags = a.tags ∧
    match a.payload, b.payload with
    | .array i, .array j => (h'.array j).size = (h.array i).size
    | .object i, .object j => (h'.object j).keys = (h.object i).keys
    | p, q => p = q

theorem copyOf_moved (hv : h.Covers cells v) : CopyOf h (h.withCopies cells) v (h.moved cells v) := by
  refine ⟨hv.moved_cell?.1, ?_⟩
  cases hc : v.cell? with
  | none =>
    rw [moved_of_cell?_eq_none hc]
    cases hp : v.payload <;> simp [Value.cell?, hp] at hc <;> rfl
  | some c =>
    have hp := payload_of_cell? hc
    have hm := hv.mem hc
    cases c with
    | array id => rw [moved_of_array hp hm, hp]; simp [array_copyPlace hm]
    | object id => rw [moved_of_object hp hm, hp]; simp [object_copyPlace hm, OrderedMap.keys_mapValues]

/-- Values share their cell exactly if their copies do. -/
theorem cell?_moved_inj (hv : h.Covers cells v) (hw : h.Covers cells w) :
    (h.moved cells v).cell? = (h.moved cells w).cell? ↔ v.cell? = w.cell? := by
  rw [hv.moved_cell?.2, hw.moved_cell?.2]
  cases hc : v.cell? with
  | none => cases hd : w.cell? <;> simp
  | some c => cases hd : w.cell? <;> simp [copyPlace_inj (hv.mem hc)]

/-- A deep copy of a value on a heap leaves all that was there as it was and is equal to the value. What
can be reached from it is new. At each position it has a copy of what the value has there, with the same
tags, and the same reference, function or native; two positions of it share a cell exactly if those of the
value do. -/
theorem deepCopy_isomorphic (h : Heap) (v : Value) (hv : h.Contains v) :
    let c := (h.deepCopy v).1
    let h' := (h.deepCopy v).2
    (h.KeptBy h' ∧ h'.references = h.references ∧ h'.closures = h.closures ∧ h'.frames = h.frames) ∧
    h'.equal v c = true ∧
    (∀ d, h'.Reaches c d → h'.holds d = true ∧ h.holds d = false) ∧
    (∀ p, Option.Rel (CopyOf h h') (h.at? v p) (h'.at? c p)) ∧
    ∀ p q a a' b b', h.at? v p = some a → h.at? v q = some a' →
      h'.at? c p = some b → h'.at? c q = some b' → (b.cell? = b'.cell? ↔ a.cell? = a'.cell?) := by
  have hcovers := hv.covers
  rw [deepCopy_eq]
  refine ⟨⟨keptBy_withCopies, rfl, rfl, rfl⟩, ?_, fun d hr => ?_, fun p => ?_, ?_⟩
  · exact equal_of_isBisimulation isBisimulation_moved ⟨hcovers, rfl⟩
  · obtain ⟨c, hc, rfl⟩ := hcovers.reaches_moved hr
    exact ⟨holds_copyPlace (hcovers c hc).1, not_holds_copyPlace⟩
  · rw [at?_moved hcovers]
    cases ha : h.at? v p with
    | none => exact .none
    | some a => exact .some (copyOf_moved (hcovers.at? ha))
  · intro p q a a' b b' ha ha' hb hb'
    rw [at?_moved hcovers, ha] at hb
    rw [at?_moved hcovers, ha'] at hb'
    cases hb
    cases hb'
    exact cell?_moved_inj (hcovers.at? ha) (hcovers.at? ha')

/-- An array that holds itself, once with a tag, and the same object twice. -/
theorem deepCopy_isomorphic_cycle :
    let self : Value := ⟨.array 0, [("mark", .text "x")]⟩
    let h : Heap :=
      { arrays := #[#[self, .plain (.object 0), .plain (.object 0), .plain (.reference 0)]],
        objects := #[⟨[("up", .plain (.array 0))], by decide⟩], references := #[.null] }
    let c := (h.deepCopy (.plain (.array 0))).1
    let h' := (h.deepCopy (.plain (.array 0))).2
    h.Contains (.plain (.array 0)) ∧ h'.equal (.plain (.array 0)) c = true ∧
      (∀ d, h'.Reaches c d → h.holds d = false) ∧
      ∀ b b', h'.at? c [.item 0] = some b → h'.at? c [.item 1, .entry "up"] = some b' →
        b.cell? = b'.cell? := by
  intro self h c h'
  have hv : h.Contains (.plain (.array 0)) := contains_of_cells h.cells (by decide) (by decide)
  obtain ⟨-, he, hr, -, hs⟩ := deepCopy_isomorphic h _ hv
  refine ⟨hv, he, fun d hd => (hr d hd).2, fun b b' hb hb' => ?_⟩
  exact (hs _ _ self (.plain (.array 0)) b b' rfl rfl hb hb').2 rfl

end Heap

end ScriptEngine

import ScriptEngine.Value.Heap

/-!
# Copies

A shallow copy gives an array or object a cell of its own with the same contents. A deep copy does so
for every array and object that can be reached through arrays and objects. It keeps a memo of the cells
that it has met and of the cells that it has made for them. A cell in the memo is not copied again; a
new cell is put there while it is still empty, and filled when what the old one holds has been copied.
Sharing and cycles are thereby kept. Tags are kept as they are, and references, functions and natives
are not copied.
-/

namespace ScriptEngine

/-- A cell of an array or an object. -/
inductive Cell where
  | array (id : Nat)
  | object (id : Nat)
deriving DecidableEq

/-- What a value with a cell is. -/
def Cell.payload : Cell → Payload
  | array id => .array id
  | object id => .object id

/-- The cell a value points to, if it is an array or an object. -/
def Value.cell? (v : Value) : Option Cell :=
  match v.payload with
  | .array id => some (.array id)
  | .object id => some (.object id)
  | _ => none

/-- A value with its tags and another cell. -/
def Value.withCell (v : Value) (c : Cell) : Value := { v with payload := c.payload }

namespace Heap

/-- Whether a cell is in the heap. -/
def holds (h : Heap) : Cell → Bool
  | .array id => id < h.arrays.size
  | .object id => id < h.objects.size

/-- All cells of arrays and objects. -/
def cells (h : Heap) : List Cell :=
  (List.range h.arrays.size).map .array ++ (List.range h.objects.size).map .object

theorem mem_cells_of_holds {h : Heap} {c : Cell} (hc : h.holds c = true) : c ∈ h.cells := by
  cases c <;> simpa [holds, cells] using hc

end Heap

/-! ## Deep copies -/

/-- A deep copy under way: the heap, and the memo, which gives for each cell met the cell made for it. -/
structure Copying where
  heap : Heap
  memo : List (Cell × Cell) := []

namespace Copying

/-- The cells that have been met, the latest first. -/
def met (s : Copying) : List Cell := s.memo.map Prod.fst

/-- Makes an empty cell of the same sort for a cell, and notes it in the memo. -/
def publish (s : Copying) (c : Cell) : Copying :=
  match c with
  | .array _ =>
    { heap := (s.heap.newArray #[]).2, memo := (c, .array s.heap.arrays.size) :: s.memo }
  | .object _ =>
    { heap := (s.heap.newObject .empty).2, memo := (c, .object s.heap.objects.size) :: s.memo }

/-- Gives an array all its elements. -/
def setItems (s : Copying) (id : Nat) (items : List Value) : Copying :=
  { s with heap := s.heap.modifyArray id fun _ => items.toArray }

/-- Gives a key of an object its value. -/
def setEntry (s : Copying) (id : Nat) (key : Text) (v : Value) : Copying :=
  { s with heap := s.heap.modifyObject id (·.insert key v) }

@[simp] theorem met_publish {s : Copying} {c : Cell} : (s.publish c).met = c :: s.met := by
  cases c <;> rfl

theorem subset_publish {s t : Copying} {c : Cell} (ht : (s.publish c).met ⊆ t.met) : s.met ⊆ t.met := by
  rw [met_publish] at ht
  exact List.Subset.trans (List.subset_cons_self _ _) ht

@[simp] theorem met_setItems {s : Copying} {id : Nat} {items : List Value} :
    (s.setItems id items).met = s.met := rfl

@[simp] theorem met_setEntry {s : Copying} {id : Nat} {key : Text} {v : Value} :
    (s.setEntry id key v).met = s.met := rfl

theorem lookup_eq_none_iff {s : Copying} {c : Cell} : s.memo.lookup c = none ↔ c ∉ s.met := by
  simp only [List.lookup_eq_none_iff, met, List.mem_map, not_exists, not_and, bne_iff_ne]
  exact ⟨fun h e he hc => h e he hc.symm, fun h e he hc => h e he hc.symm⟩

/-- A later stage of a copy, in which no cell that has been met is forgotten. -/
abbrev Later (s : Copying) : Type := { t : Copying // s.met ⊆ t.met }

end Copying

namespace Heap

variable {h : Heap} {s t : Copying}

/-- A new cell in the memo leaves less to do. -/
theorem unseen_publish_lt {c : Cell} (hc : h.holds c = true) (hs : s.memo.lookup c = none) :
    unseen h.cells (s.publish c).met < unseen h.cells s.met := by
  rw [Copying.met_publish]
  exact unseen_cons_lt (mem_cells_of_holds hc) (Copying.lookup_eq_none_iff.1 hs)

/-- No more is left to do at a later stage. -/
theorem unseen_later (ht : s.met ⊆ t.met) : unseen h.cells t.met ≤ unseen h.cells s.met := by
  refine List.countP_mono_left fun c _ hc => ?_
  simp only [decide_eq_true_eq] at hc ⊢
  exact fun hs => hc (ht hs)

/-- A list gets shorter at a later stage. -/
theorem rest_lt (ht : s.met ⊆ t.met) (n : Nat) :
    Prod.Lex (· < ·) (· < ·) (unseen h.cells t.met, n) (unseen h.cells s.met, n + 1) := by
  obtain hlt | heq := Nat.lt_or_eq_of_le (unseen_later (h := h) ht)
  · exact Prod.Lex.left _ _ hlt
  · rw [heq]
    exact Prod.Lex.right _ (Nat.lt_succ_self n)

mutual

/-- Copies a value; `h` is the heap when the copy began. A new cell is in the memo before what the old one holds
is copied, so the copy of a cycle ends at it. -/
def copyValue (h : Heap) (s : Copying) (v : Value) : Value × s.Later :=
  match v.cell? with
  | none => (v, ⟨s, List.Subset.refl _⟩)
  | some c =>
    match _hm : s.memo.lookup c with
    | some copy => (v.withCell copy, ⟨s, List.Subset.refl _⟩)
    | none =>
      if _hc : h.holds c then
        match c with
        | .array id =>
          let new := s.heap.arrays.size
          let (items, t) := h.copyItems (s.publish (.array id)) (s.heap.array id).toList
          (v.withCell (.array new), ⟨t.1.setItems new items, Copying.subset_publish t.2⟩)
        | .object id =>
          let new := s.heap.objects.size
          let t := h.copyEntries (s.publish (.object id)) new (s.heap.object id).entries
          (v.withCell (.object new), ⟨t.1, Copying.subset_publish t.2⟩)
      else (v, ⟨s, List.Subset.refl _⟩)
termination_by (unseen h.cells s.met, 0)
decreasing_by all_goals exact Prod.Lex.left _ _ (unseen_publish_lt _hc _hm)

/-- Copies the elements of an array in order. -/
def copyItems (h : Heap) (s : Copying) (items : List Value) : List Value × s.Later :=
  match items with
  | [] => ([], ⟨s, List.Subset.refl _⟩)
  | v :: rest =>
    let (copy, t) := h.copyValue s v
    let (copies, u) := h.copyItems t.1 rest
    (copy :: copies, ⟨u.1, List.Subset.trans t.2 u.2⟩)
termination_by (unseen h.cells s.met, items.length)
decreasing_by
  · exact Prod.Lex.right _ (by simp)
  · exact rest_lt t.2 _

/-- Copies the entries of an object in order, and sets each in the new object. -/
def copyEntries (h : Heap) (s : Copying) (new : Nat) (entries : List (Text × Value)) : s.Later :=
  match entries with
  | [] => ⟨s, List.Subset.refl _⟩
  | (key, v) :: rest =>
    let (copy, t) := h.copyValue s v
    let u := h.copyEntries (t.1.setEntry new key copy) new rest
    ⟨u.1, List.Subset.trans t.2 u.2⟩
termination_by (unseen h.cells s.met, entries.length)
decreasing_by
  · exact Prod.Lex.right _ (by simp)
  · exact rest_lt t.2 _

end

/-- A copy of a value with cells of its own at every depth. -/
def deepCopy (h : Heap) (v : Value) : Value × Heap :=
  let (copy, t) := h.copyValue ⟨h, []⟩ v
  (copy, t.1.heap)

/-- A copy of a value with a cell of its own at the top. -/
def shallowCopy (h : Heap) (v : Value) : Value × Heap :=
  match v.payload with
  | .array id =>
    let (copy, h') := h.newArray (h.array id)
    ({ v with payload := copy.payload }, h')
  | .object id =>
    let (copy, h') := h.newObject (h.object id)
    ({ v with payload := copy.payload }, h')
  | _ => (v, h)

end Heap

end ScriptEngine

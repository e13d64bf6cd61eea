import ScriptEngine.Text.Basic

/-!
# Maps that keep the order of insertion

A map whose entries stay in the order in which their keys were first inserted. Giving a
key a new value keeps its place; removing it and inserting it again moves it to the end.

* `keys_insert`: a new key goes to the end, a known key keeps its place.
* `get?_insert`: after an insertion the key has the new value and the others keep theirs.
-/

namespace ScriptEngine

/-- A map with its entries in insertion order. -/
structure OrderedMap (κ α : Type) where
  entries : List (κ × α)
  nodup : (entries.map Prod.fst).Nodup

namespace OrderedMap

variable {κ α β : Type}

/-- The map without entries. -/
def empty : OrderedMap κ α := ⟨[], by simp⟩

instance : Inhabited (OrderedMap κ α) := ⟨empty⟩

/-- The keys in insertion order. -/
def keys (m : OrderedMap κ α) : List κ := m.entries.map Prod.fst

/-- The values in insertion order of their keys. -/
def values (m : OrderedMap κ α) : List α := m.entries.map Prod.snd

/-- The number of entries. -/
def size (m : OrderedMap κ α) : Nat := m.entries.length

/-- Applies a function to every value. -/
def mapValues (f : α → β) (m : OrderedMap κ α) : OrderedMap κ β where
  entries := m.entries.map fun e => (e.1, f e.2)
  nodup := by simpa [List.map_map, Function.comp_def] using m.nodup

variable [DecidableEq κ]

/-- Gives a key a value in a list of entries. -/
def put (key : κ) (value : α) : List (κ × α) → List (κ × α)
  | [] => [(key, value)]
  | e :: rest => if e.1 = key then (key, value) :: rest else e :: put key value rest

theorem keys_put (key : κ) (value : α) (entries : List (κ × α)) :
    (put key value entries).map Prod.fst =
      if key ∈ entries.map Prod.fst then entries.map Prod.fst
      else entries.map Prod.fst ++ [key] := by
  induction entries with
  | nil => simp [put]
  | cons e rest ih =>
    by_cases h : e.1 = key
    · simp [put, h]
    · have h' : key ≠ e.1 := fun heq => h heq.symm
      simp only [put, h, if_false, List.map_cons, ih, List.mem_cons, h', false_or]
      split <;> simp

/-- Gives a key a value. -/
def insert (m : OrderedMap κ α) (key : κ) (value : α) : OrderedMap κ α where
  entries := put key value m.entries
  nodup := by
    rw [keys_put]
    split
    · exact m.nodup
    · next h =>
      rw [List.nodup_append]
      refine ⟨m.nodup, by simp, ?_⟩
      intro a ha b hb hab
      rw [List.mem_singleton] at hb
      exact h (hb ▸ hab ▸ ha)

/-- The value of a key. -/
def get? (m : OrderedMap κ α) (key : κ) : Option α :=
  (m.entries.find? (·.1 = key)).map Prod.snd

/-- Whether a key has a value. -/
def contains (m : OrderedMap κ α) (key : κ) : Bool := m.entries.any (·.1 = key)

/-- Removes a key. -/
def erase (m : OrderedMap κ α) (key : κ) : OrderedMap κ α where
  entries := m.entries.filter (·.1 ≠ key)
  nodup := m.nodup.sublist (List.filter_sublist.map _)

/-- The map made by inserting the entries of a list in order. -/
def ofList (entries : List (κ × α)) : OrderedMap κ α :=
  entries.foldl (fun m e => m.insert e.1 e.2) empty

theorem keys_insert (m : OrderedMap κ α) (key : κ) (value : α) :
    (m.insert key value).keys = if key ∈ m.keys then m.keys else m.keys ++ [key] :=
  keys_put key value m.entries

theorem find?_put (key other : κ) (value : α) (entries : List (κ × α)) :
    ((put key value entries).find? (·.1 = other)).map Prod.snd =
      if other = key then some value else (entries.find? (·.1 = other)).map Prod.snd := by
  induction entries with
  | nil => by_cases h : other = key <;> simp [put, h, eq_comm]
  | cons e rest ih =>
    by_cases he : e.1 = key
    · by_cases h : other = key
      · simp [put, he, h]
      · have h' : key ≠ other := fun heq => h heq.symm
        simp [put, he, h, h']
    · by_cases ho : e.1 = other
      · have h : other ≠ key := fun heq => he (ho.trans heq)
        simp [put, ho, h]
      · simp [put, he, ho, ih]

theorem get?_insert (m : OrderedMap κ α) (key other : κ) (value : α) :
    (m.insert key value).get? other = if other = key then some value else m.get? other :=
  find?_put key other value m.entries

end OrderedMap

end ScriptEngine

import Mathlib.Data.List.Nodup
import Mathlib.Data.List.Perm.Subperm
import ScriptEngine.OrderedMap

/-!
# Lookups and entries of ordered maps

* `get?_eq_some_iff`: a key has a value exactly when the two are an entry.
* `size_eq_of_keys`, `keys_subset_of_size_eq`: maps with the same keys have the same size, and
  equally large maps have the same keys as soon as the keys of one are keys of the other.
* `entries_ofList`: a list without repeated keys is the list of entries of its map.
* `get?_mapValues`, `mapValues_insert`: a function that is applied to every value.
-/

namespace ScriptEngine.OrderedMap

variable {κ α : Type}

theorem nodup_keys (m : OrderedMap κ α) : m.keys.Nodup := m.nodup

theorem length_keys (m : OrderedMap κ α) : m.keys.length = m.size := by
  simp [keys, size]

/-- Maps with the same keys are equally large. -/
theorem size_eq_of_keys {β : Type} {m : OrderedMap κ α} {n : OrderedMap κ β}
    (h : ∀ k, k ∈ m.keys ↔ k ∈ n.keys) : m.size = n.size := by
  rw [← length_keys, ← length_keys]
  exact ((List.perm_ext_iff_of_nodup m.nodup_keys n.nodup_keys).2 h).length_eq

/-- Of two equally large maps, if the keys of one are keys of the other, so is the converse. -/
theorem keys_subset_of_size_eq {β : Type} {m : OrderedMap κ α} {n : OrderedMap κ β}
    (hs : m.size = n.size) (h : m.keys ⊆ n.keys) : n.keys ⊆ m.keys := by
  have hsub := List.subperm_of_subset m.nodup_keys h
  have hperm := hsub.perm_of_length_le (by rw [length_keys, length_keys]; omega)
  exact hperm.symm.subset

variable [DecidableEq κ]

/-- Keys do not repeat, so an entry that is found is the only one of its key. -/
theorem get?_eq_some_iff {m : OrderedMap κ α} {k : κ} {v : α} :
    m.get? k = some v ↔ (k, v) ∈ m.entries := by
  constructor
  · intro h
    obtain ⟨⟨k', v'⟩, hf, rfl⟩ := Option.map_eq_some_iff.1 h
    have hk := List.find?_some hf
    simp only [decide_eq_true_eq] at hk
    exact hk ▸ List.mem_of_find?_eq_some hf
  · intro h
    cases hf : m.entries.find? (·.1 = k) with
    | none => simpa using List.find?_eq_none.1 hf (k, v) h
    | some e =>
      have hk : e.1 = k := by simpa using List.find?_some hf
      have he := List.inj_on_of_nodup_map m.nodup (List.mem_of_find?_eq_some hf) h hk
      rw [get?, hf, he]
      rfl

theorem get?_eq_none_iff {m : OrderedMap κ α} {k : κ} : m.get? k = none ↔ k ∉ m.keys := by
  rw [get?, Option.map_eq_none_iff, List.find?_eq_none, keys, List.mem_map]
  constructor
  · rintro h ⟨e, he, rfl⟩
    exact h e he (by simp)
  · intro h e he hk
    exact h ⟨e, he, by simpa using hk⟩

theorem mem_keys_iff {m : OrderedMap κ α} {k : κ} : k ∈ m.keys ↔ ∃ v, m.get? k = some v := by
  rw [← not_iff_not, ← get?_eq_none_iff, Option.eq_none_iff_forall_ne_some]
  simp

theorem put_of_not_mem {entries : List (κ × α)} {k : κ} (v : α)
    (h : k ∉ entries.map Prod.fst) : put k v entries = entries ++ [(k, v)] := by
  induction entries with
  | nil => rfl
  | cons e rest ih =>
    simp only [List.map_cons, List.mem_cons, not_or] at h
    rw [put, if_neg fun he => h.1 he.symm, ih h.2, List.cons_append]

theorem entries_foldl_insert {entries : List (κ × α)} {m : OrderedMap κ α}
    (h : ((m.entries ++ entries).map Prod.fst).Nodup) :
    (entries.foldl (fun m e => m.insert e.1 e.2) m).entries = m.entries ++ entries := by
  induction entries generalizing m with
  | nil => simp
  | cons e rest ih =>
    have hk : e.1 ∉ m.entries.map Prod.fst := by
      rw [List.map_append, List.map_cons, List.nodup_append] at h
      exact fun hm => h.2.2 _ hm _ (List.mem_cons_self ..) rfl
    have hp : (m.insert e.1 e.2).entries = m.entries ++ [e] := put_of_not_mem e.2 hk
    rw [List.foldl_cons, ih, hp]
    · simp
    · rw [hp]
      simpa using h

/-- A list without repeated keys is the list of entries of its map. -/
theorem entries_ofList {entries : List (κ × α)} (h : (entries.map Prod.fst).Nodup) :
    (ofList entries).entries = entries :=
  entries_foldl_insert (by simpa [empty] using h)

theorem ofList_eq {entries : List (κ × α)} (h : (entries.map Prod.fst).Nodup) : ofList entries = ⟨entries, h⟩ := by
  have hentries := entries_ofList h
  generalize ofList entries = m at hentries
  subst hentries
  rfl

theorem get?_mapValues {β : Type} (f : α → β) (m : OrderedMap κ α) (k : κ) :
    (m.mapValues f).get? k = (m.get? k).map f := by
  simp [mapValues, get?, List.find?_map, Function.comp_def]

omit [DecidableEq κ] in
theorem keys_mapValues {β : Type} (f : α → β) (m : OrderedMap κ α) : (m.mapValues f).keys = m.keys := by
  simp [mapValues, keys, Function.comp_def]

theorem mapValues_insert {β : Type} (f : α → β) (m : OrderedMap κ α) (k : κ) (v : α) :
    (m.insert k v).mapValues f = (m.mapValues f).insert k (f v) := by
  have hput (entries : List (κ × α)) : (put k v entries).map (fun e => (e.1, f e.2)) =
      put k (f v) (entries.map fun e => (e.1, f e.2)) := by
    induction entries with
    | nil => rfl
    | cons e rest ih =>
      simp only [put, List.map_cons]
      split
      · rfl
      · rw [List.map_cons, ih]
  simp only [mapValues, insert, hput]

end ScriptEngine.OrderedMap

import Mathlib.Data.Nat.Find
import Mathlib.Order.Bounds.Basic
import ScriptEngine.Text.Search

/-!
# Occurrences of a text in another

* `Text.OccursAt`: a text stands in another from a position on. `occursIn_iff`: a text is part of another exactly if it
  occurs at some position.
* `Text.Leftmost`: the occurrences that are found from left to right, each behind the one before it.
* **Splitting**: a text is cut at its leftmost occurrences (`Leftmost.length_splitOn`). No piece contains the separator
  (`not_occursAt_of_mem_splitOn`), and joining the pieces gives the text back (`joinWith_splitOn`).
* `Text.isCut_piecesAt`: the same with the rule for the empty separator, which cuts a text to its characters.
-/

namespace ScriptEngine.Text

/-- A text stands in another from a position on. -/
def OccursAt (u t : Text) (i : Nat) : Prop := i + u.length ≤ t.length ∧ (t.drop i).take u.length = u

instance (u t : Text) (i : Nat) : Decidable (OccursAt u t i) :=
  inferInstanceAs (Decidable (i + u.length ≤ t.length ∧ (t.drop i).take u.length = u))

variable {u t sep piece : Text} {c : CodePoint} {i j : Nat} {is : List Nat}

/-! ## Positions of occurrences -/

theorem occursAt_iff : OccursAt u t i ↔ i ≤ t.length ∧ u <+: t.drop i := by
  rw [List.prefix_iff_eq_take]
  constructor
  · rintro ⟨hle, htake⟩
    exact ⟨by omega, htake.symm⟩
  · rintro ⟨hle, htake⟩
    have hlength := congrArg List.length htake
    rw [List.length_take, List.length_drop] at hlength
    exact ⟨by omega, htake.symm⟩

@[simp] theorem occursAt_zero : OccursAt u t 0 ↔ u <+: t := by simp [occursAt_iff]

@[simp] theorem occursAt_succ : OccursAt u (c :: t) (i + 1) ↔ OccursAt u t i := by simp [occursAt_iff]

theorem not_occursAt_nil (hu : u ≠ []) : ¬ OccursAt u [] i := by
  rintro ⟨hle, -⟩
  have := List.length_pos_iff.2 hu
  simp only [List.length_nil] at hle
  omega

/-- What occurs in the beginning of a text occurs in the text. -/
theorem OccursAt.of_take {n : Nat} (h : OccursAt u (t.take n) i) : OccursAt u t i ∧ i + u.length ≤ n := by
  obtain ⟨hle, htake⟩ := h
  rw [List.length_take] at hle
  refine ⟨⟨by omega, ?_⟩, by omega⟩
  rw [List.drop_take, List.take_take] at htake
  rwa [Nat.min_eq_left (by omega)] at htake

theorem OccursAt.split (h : OccursAt u t i) : t.take i ++ u ++ t.drop (i + u.length) = t := by
  rw [← List.drop_drop]
  conv_rhs => rw [← List.take_append_drop i t, ← List.take_append_drop u.length (t.drop i), h.2]
  exact List.append_assoc _ _ _

theorem occursIn_iff : occursIn u t = true ↔ ∃ i, OccursAt u t i := by
  induction t with
  | nil =>
    constructor
    · intro hu
      rw [List.isEmpty_iff.1 hu]
      exact ⟨0, by simp⟩
    · rintro ⟨i, h⟩
      by_contra hu
      exact not_occursAt_nil (fun he => hu (by rw [he]; rfl)) h
  | cons c rest ih =>
    rw [occursIn, Bool.or_eq_true, List.isPrefixOf_iff_prefix, ih]
    constructor
    · rintro (h | ⟨i, h⟩)
      · exact ⟨0, occursAt_zero.2 h⟩
      · exact ⟨i + 1, occursAt_succ.2 h⟩
    · rintro ⟨_ | i, h⟩
      · exact .inl (occursAt_zero.1 h)
      · exact .inr ⟨i, occursAt_succ.1 h⟩

/-! ## Occurrences from left to right -/

/-- The positions at which a text is found in another from left to right: the first one at which it occurs, and those
in what comes behind that occurrence. -/
inductive Leftmost (sep : Text) : Text → List Nat → Prop
  | none {t : Text} (h : ∀ i, ¬ OccursAt sep t i) : Leftmost sep t []
  | next {t : Text} {i : Nat} {is : List Nat} (h : IsLeast {i | OccursAt sep t i} i)
      (rest : Leftmost sep (t.drop (i + sep.length)) is) : Leftmost sep t (i :: is.map (i + sep.length + ·))

theorem exists_leftmost (hsep : sep ≠ []) (t : Text) : ∃ is, Leftmost sep t is := by
  induction hn : t.length using Nat.strongRecOn generalizing t with
  | ind n ih =>
    by_cases hany : ∃ i, OccursAt sep t i
    · have hleast : IsLeast {i | OccursAt sep t i} (Nat.find hany) :=
        ⟨Nat.find_spec hany, fun j hj => Nat.find_min' hany hj⟩
      have hpos := List.length_pos_iff.2 hsep
      obtain ⟨is, hrest⟩ := ih _ (by have := hleast.1.1; rw [List.length_drop]; omega)
        (t.drop (Nat.find hany + sep.length)) rfl
      exact ⟨_, .next hleast hrest⟩
    · exact ⟨[], .none fun i h => hany ⟨i, h⟩⟩

/-! ## Splitting -/

theorem splitOn_of_none (h : ∀ i, ¬ OccursAt sep t i) : splitOn sep t = [t] := by
  induction t with
  | nil => rw [splitOn]
  | cons c rest ih =>
    have hstart : ¬ sep.isPrefixOf (c :: rest) := fun hp =>
      h 0 (occursAt_zero.2 (List.isPrefixOf_iff_prefix.1 hp))
    rw [splitOn, dif_neg fun hp => hstart hp.2, ih fun i hi => h (i + 1) (occursAt_succ.2 hi)]
    rfl

/-- The first piece ends where the separator occurs first. -/
theorem splitOn_of_least (hsep : sep ≠ []) (h : IsLeast {i | OccursAt sep t i} i) :
    splitOn sep t = t.take i :: splitOn sep (t.drop (i + sep.length)) := by
  induction i generalizing t with
  | zero =>
    obtain ⟨c, rest, rfl⟩ : ∃ c rest, t = c :: rest := by
      cases t with
      | nil => exact absurd h.1 (not_occursAt_nil hsep)
      | cons c rest => exact ⟨c, rest, rfl⟩
    rw [splitOn, dif_pos ⟨hsep, List.isPrefixOf_iff_prefix.2 (occursAt_zero.1 h.1)⟩, Nat.zero_add]
    rfl
  | succ i ih =>
    obtain ⟨c, rest, rfl⟩ : ∃ c rest, t = c :: rest := by
      cases t with
      | nil => exact absurd h.1 (not_occursAt_nil hsep)
      | cons c rest => exact ⟨c, rest, rfl⟩
    have hstart : ¬ sep.isPrefixOf (c :: rest) := fun hp => by
      have := h.2 (occursAt_zero.2 (List.isPrefixOf_iff_prefix.1 hp))
      omega
    have hrest : IsLeast {i | OccursAt sep rest i} i :=
      ⟨occursAt_succ.1 h.1, fun j hj => Nat.le_of_succ_le_succ (h.2 (occursAt_succ.2 hj))⟩
    rw [splitOn, dif_neg fun hp => hstart hp.2, ih hrest, Nat.add_right_comm]
    rfl

/-- A text has one piece more than its separator has leftmost occurrences. -/
theorem Leftmost.length_splitOn (hsep : sep ≠ []) (h : Leftmost sep t is) :
    (splitOn sep t).length = is.length + 1 := by
  induction h with
  | none h => rw [splitOn_of_none h]; rfl
  | next h _ ih => rw [splitOn_of_least hsep h, List.length_cons, ih, List.length_cons, List.length_map]

theorem not_occursAt_of_mem_splitOn (hsep : sep ≠ []) (hp : piece ∈ splitOn sep t) : ¬ OccursAt sep piece i := by
  obtain ⟨is, h⟩ := exists_leftmost hsep t
  induction h with
  | none h =>
    rw [splitOn_of_none h, List.mem_singleton] at hp
    rw [hp]
    exact h i
  | @next t k is h _ ih =>
    rw [splitOn_of_least hsep h] at hp
    rcases List.mem_cons.1 hp with rfl | hp
    · -- an occurrence before the first one
      intro hi
      obtain ⟨hi, hle⟩ := hi.of_take
      have := h.2 hi
      have := List.length_pos_iff.2 hsep
      omega
    · exact ih hp

theorem joinWith_splitOn (hsep : sep ≠ []) : joinWith sep (splitOn sep t) = t := by
  obtain ⟨is, h⟩ := exists_leftmost hsep t
  induction h with
  | none h => rw [splitOn_of_none h]; rfl
  | @next t k is h hrest ih =>
    obtain ⟨p, ps, hps⟩ : ∃ p ps, splitOn sep (t.drop (k + sep.length)) = p :: ps :=
      List.exists_cons_of_length_pos (by rw [hrest.length_splitOn hsep]; omega)
    rw [hps] at ih
    rw [splitOn_of_least hsep h, hps, joinWith, ih]
    exact h.1.split

/-! ## Joining -/

theorem joinWith_concat {ts : List Text} (hts : ts ≠ []) : joinWith sep (ts ++ [t]) = joinWith sep ts ++ sep ++ t := by
  induction ts with
  | nil => exact absurd rfl hts
  | cons a ts ih =>
    cases ts with
    | nil => rfl
    | cons b ts =>
      have hrest := ih (List.cons_ne_nil b ts)
      simp only [List.cons_append, joinWith] at hrest ⊢
      rw [hrest]
      simp only [List.append_assoc]

theorem joinWith_characters (t : Text) : joinWith [] (t.map ([·])) = t := by
  induction t with
  | nil => rfl
  | cons c t ih =>
    cases t with
    | nil => rfl
    | cons d t =>
      simp only [List.map_cons, joinWith] at ih ⊢
      rw [ih]
      rfl

/-- The pieces of a text between separators; without a separator, its characters. -/
def piecesAt (sep t : Text) : List Text := if sep.isEmpty then t.map ([·]) else splitOn sep t

/-- What makes up the pieces of a text between separators. -/
structure IsCut (sep t : Text) (ps : List Text) : Prop where
  joined : joinWith sep ps = t
  characters : sep = [] → ps = t.map ([·])
  free : sep ≠ [] → ∀ p ∈ ps, ∀ i, ¬ OccursAt sep p i
  count : sep ≠ [] → ∃ is, Leftmost sep t is ∧ ps.length = is.length + 1

theorem isCut_piecesAt (sep t : Text) : IsCut sep t (piecesAt sep t) := by
  by_cases hsep : sep = []
  · subst hsep
    exact ⟨joinWith_characters t, fun _ => rfl, absurd rfl, absurd rfl⟩
  · have hpieces : piecesAt sep t = splitOn sep t := if_neg (by simpa using hsep)
    obtain ⟨is, h⟩ := exists_leftmost hsep t
    rw [hpieces]
    exact ⟨joinWith_splitOn hsep, fun he => absurd he hsep, fun _ p hp i => not_occursAt_of_mem_splitOn hsep hp,
      fun _ => ⟨is, h, h.length_splitOn hsep⟩⟩

end ScriptEngine.Text

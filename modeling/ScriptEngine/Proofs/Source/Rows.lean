import Mathlib.Data.List.TakeWhile
import ScriptEngine.Proofs.Token.Placement
import ScriptEngine.Text.Lines

/-!
# Rows and lines

Locations count line feeds, and lines are cut at every line boundary. The two agree up to the first row that is
broken by another boundary.

* **Rows** (`Text.rows`) are what stands between line feeds, and `Text.rowAround` is the row of an offset. Its
  number is that of the line which a location there is in (`Location.PlacedIn.row`).
* **Unbroken rows** (`Text.Unbroken`) have no line boundary inside; a carriage return at the end is none.
* **Pieces** (`Text.pieces`) are what the lines of a text have for one of its rows: one line for an unbroken row,
  more for another one. The lines before a row are the pieces of the rows before it (`Text.lines_eq_pieces`), and
  this tells what the line with the number of a row is (`Text.line_cases`).
-/

namespace ScriptEngine

namespace Text

/-- What stands between the line feeds of a text. -/
def rows (t : Text) : List Text := List.splitOn (.scalar '\n') t

/-- The row that an offset is in: what stands between the line feeds around it. -/
def rowAround (t : Text) (offset : Nat) : Text :=
  ((t.take offset).reverse.takeWhile inLine).reverse ++ (t.drop offset).takeWhile inLine

/-- A text is a row, up to a carriage return at the end of the row. -/
def Shows (line row : Text) : Prop := row = line ∨ row = line ++ [.scalar '\r']

/-- A row has no line boundary, up to a carriage return at its end. -/
def Unbroken (row : Text) : Prop := ∃ line : Text, line.Shows row ∧ ∀ c ∈ line, c.isLineBreak = false

/-- The text before the first line boundary. -/
def beforeBreak (t : Text) : Text := t.takeWhile fun c => !c.isLineBreak

/-- The lines of a row. -/
def pieces (row : Text) : List Text := lines (row ++ [.scalar '\n'])

variable {t row line front : Text} {c : CodePoint}

/-! ## Rows -/

theorem rows_append_newline (h : .scalar '\n' ∉ front) (rest : Text) :
    rows (front ++ .scalar '\n' :: rest) = front :: rows rest :=
  List.splitOn_append_cons_self_of_not_mem h rest

theorem takeWhile_inLine (h : .scalar '\n' ∉ front) (rest : Text) :
    (front ++ rest).takeWhile inLine = front ++ rest.takeWhile inLine :=
  List.takeWhile_append_of_pos fun _ hc => decide_eq_true fun hn => h (hn ▸ hc)

theorem takeWhile_inLine_of_not_mem (h : .scalar '\n' ∉ t) : t.takeWhile inLine = t :=
  List.takeWhile_eq_self_iff.2 fun _ hc => decide_eq_true fun hn => h (hn ▸ hc)

/-- What comes after a line feed does not count. -/
theorem takeWhile_inLine_newline (t rest : Text) :
    (t ++ .scalar '\n' :: rest).takeWhile inLine = t.takeWhile inLine := by
  induction t with
  | nil => rfl
  | cons c t ih => rw [List.cons_append, List.takeWhile_cons, List.takeWhile_cons, ih]

theorem head?_rows (t : Text) : t.rows.head? = some (t.takeWhile inLine) := by
  by_cases ht : .scalar '\n' ∈ t
  · obtain ⟨front, rest, rfl, hfront⟩ := List.eq_append_cons_of_mem ht
    rw [rows_append_newline hfront, takeWhile_inLine hfront]
    simp
  · rw [rows, List.splitOn_eq_singleton ht, takeWhile_inLine_of_not_mem ht]
    simp

/-- The row of an offset is the one with as many line feeds before it as there are before the offset. -/
theorem rows_getElem?_count (before behind : Text) :
    (rows (before ++ behind))[before.count (.scalar '\n')]? =
      some ((before.reverse.takeWhile inLine).reverse ++ behind.takeWhile inLine) := by
  by_cases h : .scalar '\n' ∈ before
  · obtain ⟨front, rest, rfl, hfront⟩ := List.eq_append_cons_of_mem h
    have ih := rows_getElem?_count rest behind
    have hreverse : (front ++ .scalar '\n' :: rest).reverse = rest.reverse ++ .scalar '\n' :: front.reverse := by
      simp
    rw [List.append_assoc, List.cons_append, rows_append_newline hfront, List.count_append,
      List.count_eq_zero_of_not_mem hfront, List.count_cons_self, Nat.zero_add, List.getElem?_cons_succ, ih,
      hreverse, takeWhile_inLine_newline]
  · have hreverse : .scalar '\n' ∉ before.reverse := by simpa using h
    rw [List.count_eq_zero_of_not_mem h, ← List.head?_eq_getElem?, head?_rows, takeWhile_inLine h,
      takeWhile_inLine_of_not_mem hreverse, List.reverse_reverse]
termination_by before.length
decreasing_by
  subst_vars
  simp
  omega

/-! ## Lines -/

theorem lines_break (hc : c.isLineBreak) (hpair : ¬ (c = .scalar '\r' ∧ t.head? = some (.scalar '\n'))) :
    lines (c :: t) = [] :: lines t := by
  rw [lines]
  · simp [hc]
  · rintro rest rfl rfl
    exact hpair ⟨rfl, rfl⟩

theorem lines_inside (hc : c.isLineBreak = false) :
    lines (c :: t) = (c :: (lines t).headD []) :: (lines t).tail := by
  rw [lines]
  · cases lines t <;> simp [hc]
  · rintro rest rfl rfl
    cases hc

theorem lines_ne_nil (ht : t ≠ []) : lines t ≠ [] := by
  intro h
  rw [lines.eq_def] at h
  split at h
  · exact ht rfl
  · simp at h
  · split at h
    · simp at h
    · split at h <;> simp at h

theorem headD_lines (t : Text) : (lines t).headD [] = t.beforeBreak := by
  induction t with
  | nil => rfl
  | cons c t ih =>
    rw [beforeBreak, List.takeWhile_cons]
    cases hc : c.isLineBreak with
    | true =>
      rw [lines.eq_def]
      split <;> simp_all
    | false =>
      rw [lines_inside hc, List.headD_cons, ih]
      rfl

/-- A text without line boundaries is at the front of the first line. -/
theorem lines_append (hfront : ∀ c ∈ front, c.isLineBreak = false) (ht : t ≠ []) :
    lines (front ++ t) = (front ++ (lines t).headD []) :: (lines t).tail := by
  induction front with
  | nil =>
    obtain ⟨first, others, h⟩ := List.exists_cons_of_ne_nil (lines_ne_nil ht)
    simp [h]
  | cons c front ih =>
    obtain ⟨hc, hrest⟩ := List.forall_mem_cons.1 hfront
    rw [List.cons_append, lines_inside hc, ih hrest]
    rfl

/-- The lines of a text are those of what comes before a line feed, then those of what comes after it. -/
theorem lines_append_newline (row rest : Text) :
    lines (row ++ .scalar '\n' :: rest) = row.pieces ++ lines rest := by
  cases row with
  | nil => simp [pieces, lines, CodePoint.isLineBreak, CodePoint.toNat]
  | cons c t =>
    have ih := lines_append_newline t rest
    rw [pieces] at ih ⊢
    rw [List.cons_append, List.cons_append]
    cases hc : c.isLineBreak with
    | true =>
      have hhead : (t ++ CodePoint.scalar '\n' :: rest).head? = (t ++ [CodePoint.scalar '\n']).head? := by
        cases t <;> rfl
      by_cases hpair : c = .scalar '\r' ∧ (t ++ [CodePoint.scalar '\n']).head? = some (.scalar '\n')
      · obtain ⟨rfl, hnewline⟩ := hpair
        cases t with
        | nil => simp [lines]
        | cons d s =>
          obtain rfl : d = .scalar '\n' := by simpa using hnewline
          have ih := lines_append_newline s rest
          rw [pieces] at ih
          simp [lines, ih]
      · rw [lines_break hc hpair, lines_break hc (hhead ▸ hpair), ih]
        rfl
    | false =>
      have hne : t ++ [.scalar '\n'] ≠ [] := by simp
      obtain ⟨first, others, hfirst⟩ := List.exists_cons_of_ne_nil (lines_ne_nil hne)
      rw [lines_inside hc, lines_inside hc, ih, hfirst]
      rfl
termination_by row.length

/-! ## Pieces -/

theorem beforeBreak_append (hfront : ∀ c ∈ front, c.isLineBreak = false) (t : Text) :
    beforeBreak (front ++ t) = front ++ t.beforeBreak :=
  List.takeWhile_append_of_pos fun c hc => by simp [hfront c hc]

theorem isLineBreak_of_mem_beforeBreak (hc : c ∈ t.beforeBreak) : c.isLineBreak = false := by
  simpa using List.mem_takeWhile_imp hc

/-- A row is unbroken exactly if what comes before its first boundary shows it. -/
theorem beforeBreak_shows_iff : row.beforeBreak.Shows row ↔ row.Unbroken := by
  refine ⟨fun h => ⟨_, h, fun _ => isLineBreak_of_mem_beforeBreak⟩, ?_⟩
  rintro ⟨line, hshows, hline⟩
  have hbefore : row.beforeBreak = line := by
    obtain rfl | rfl := hshows
    · simpa [beforeBreak] using beforeBreak_append hline []
    · rw [beforeBreak_append hline]
      exact List.append_nil line
  rwa [hbefore]

/-- A row up to its first boundary, with the boundary and what follows. -/
theorem exists_break (h : ¬ row.Unbroken) :
    ∃ c rest, row = row.beforeBreak ++ c :: rest ∧ c.isLineBreak ∧ ¬ (c = .scalar '\r' ∧ rest = []) := by
  have hsplit : row.beforeBreak ++ row.dropWhile (fun c => !c.isLineBreak) = row := List.takeWhile_append_dropWhile
  rw [← beforeBreak_shows_iff] at h
  cases hrest : row.dropWhile (fun c => !c.isLineBreak) with
  | nil =>
    rw [hrest, List.append_nil] at hsplit
    exact absurd (.inl hsplit.symm) h
  | cons c rest =>
    have hc := List.head?_dropWhile_not (fun c => !c.isLineBreak) row
    rw [hrest] at hsplit hc
    refine ⟨c, rest, hsplit.symm, by simpa using hc, ?_⟩
    rintro ⟨rfl, rfl⟩
    exact h (.inr hsplit.symm)

theorem length_pieces_of_unbroken (h : row.Unbroken) : row.pieces.length = 1 := by
  obtain ⟨line, rfl | rfl, hline⟩ := h
  · rw [pieces, lines_append hline (by simp)]
    rfl
  · rw [pieces, List.append_assoc, lines_append hline (by simp)]
    rfl

theorem two_le_length_pieces (h : ¬ row.Unbroken) : 2 ≤ row.pieces.length := by
  obtain ⟨c, rest, hrow, hc, hend⟩ := exists_break h
  have hne (s : Text) : lines (s ++ [.scalar '\n']) ≠ [] := lines_ne_nil (by simp)
  -- a boundary that is not the end of the row leaves a line for what follows it
  have hafter : ∃ s, lines (c :: rest ++ [.scalar '\n']) = [] :: lines (s ++ [.scalar '\n']) := by
    by_cases hpair : c = .scalar '\r' ∧ (rest ++ [CodePoint.scalar '\n']).head? = some (.scalar '\n')
    · obtain ⟨rfl, hnewline⟩ := hpair
      obtain ⟨d, s, rfl⟩ := List.exists_cons_of_ne_nil fun hnil => hend ⟨rfl, hnil⟩
      obtain rfl : d = .scalar '\n' := by simpa using hnewline
      exact ⟨s, by simp [lines]⟩
    · exact ⟨rest, lines_break hc hpair⟩
  obtain ⟨s, hs⟩ := hafter
  rw [pieces, hrow, List.append_assoc, lines_append (fun _ => isLineBreak_of_mem_beforeBreak) (by simp), hs]
  have hlength := List.length_pos_iff.2 (hne s)
  simp only [List.tail_cons, List.length_cons]
  omega

/-- Rows have as many pieces as there are rows if all are unbroken, and more if not. -/
theorem length_flatMap_pieces (rs : List Text) :
    rs.length ≤ (rs.flatMap pieces).length ∧
    ((rs.flatMap pieces).length = rs.length ↔ ∀ r ∈ rs, r.Unbroken) := by
  induction rs with
  | nil => simp
  | cons r rs ih =>
    rw [List.flatMap_cons, List.length_append, List.length_cons, List.forall_mem_cons]
    obtain ⟨hle, hiff⟩ := ih
    by_cases hr : r.Unbroken
    · rw [length_pieces_of_unbroken hr, ← hiff]
      exact ⟨by omega, fun h => ⟨hr, by omega⟩, fun h => by omega⟩
    · have hpieces := two_le_length_pieces hr
      exact ⟨by omega, fun h => by omega, fun h => absurd h.1 hr⟩

/-- The lines before a row are the pieces of the rows before it. -/
theorem lines_eq_pieces {k : Nat} (hk : t.rows[k]? = some row) :
    ∃ rest : Text, rest.rows.head? = some row ∧ t.lines = (t.rows.take k).flatMap pieces ++ rest.lines := by
  induction k generalizing t with
  | zero => exact ⟨t, by rw [List.head?_eq_getElem?, hk], rfl⟩
  | succ k ih =>
    by_cases ht : .scalar '\n' ∈ t
    · obtain ⟨front, behind, rfl, hfront⟩ := List.eq_append_cons_of_mem ht
      rw [rows_append_newline hfront] at hk ⊢
      obtain ⟨rest, hhead, hlines⟩ := ih hk
      refine ⟨rest, hhead, ?_⟩
      rw [lines_append_newline, hlines, List.take_succ_cons, List.flatMap_cons, List.append_assoc]
    · rw [rows, List.splitOn_eq_singleton ht] at hk
      cases hk

/-- Where a row is the first of a text, both are the same up to the first boundary. -/
theorem beforeBreak_of_head?_rows (h : t.rows.head? = some row) : t.beforeBreak = row.beforeBreak := by
  rw [head?_rows] at h
  cases h
  rw [beforeBreak, beforeBreak, List.takeWhile_takeWhile]
  congr 1
  funext c
  by_cases hc : c = .scalar '\n'
  · simp [hc, CodePoint.isLineBreak, CodePoint.toNat]
  · simp [hc]

/-- The line with the number of a row. If no row before it is broken, it is the row up to its first boundary,
and otherwise a piece of one of the rows before it. -/
theorem line_cases {k : Nat} (hrow : t.rows[k]? = some row) (hline : t.lines[k]? = some line) :
    ((∀ r ∈ t.rows.take k, r.Unbroken) → line = row.beforeBreak) ∧
    ((¬ ∀ r ∈ t.rows.take k, r.Unbroken) → ∃ r ∈ t.rows.take k, line ∈ r.pieces) := by
  obtain ⟨rest, hhead, hlines⟩ := lines_eq_pieces hrow
  obtain ⟨hle, hiff⟩ := length_flatMap_pieces (t.rows.take k)
  obtain ⟨hk, -⟩ := List.getElem?_eq_some_iff.1 hrow
  rw [List.length_take_of_le hk.le] at hle hiff
  rw [hlines] at hline
  constructor
  · intro h
    rw [← hiff] at h
    rw [List.getElem?_append_right h.le, h, Nat.sub_self, ← List.head?_eq_getElem?] at hline
    rw [← beforeBreak_of_head?_rows hhead, ← headD_lines, List.headD_eq_head?_getD, hline]
    rfl
  · intro h
    have hlt : k < ((t.rows.take k).flatMap pieces).length := by
      have hne : ((t.rows.take k).flatMap pieces).length ≠ k := fun heq => h (hiff.1 heq)
      omega
    rw [List.getElem?_append_left hlt] at hline
    exact List.mem_flatMap.1 (List.mem_of_getElem? hline)

end Text

/-- A location is in the row with the number of its line. -/
theorem Location.PlacedIn.row {l : Location} {source : Text} (h : l.PlacedIn source) :
    source.rows[l.line - 1]? = some (source.rowAround l.offset) := by
  have hrow := Text.rows_getElem?_count (source.take l.offset) (source.drop l.offset)
  rw [List.take_append_drop] at hrow
  rw [h.line_eq, Nat.add_sub_cancel_left]
  exact hrow

end ScriptEngine

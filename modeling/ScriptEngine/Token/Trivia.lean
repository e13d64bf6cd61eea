import ScriptEngine.Text.Basic

/-!
# Trivia

What stands between tokens: blanks, tabs, carriage returns and line feeds, comments to the end of a
line, and comments between a slash with a star and a star with a slash, which nest.

* `trivia` splits a text into its leading trivia and the rest.
* `trivia_append` says that the two parts make up the text.
-/

namespace ScriptEngine

/-- Whether a code point is layout outside comments. -/
def CodePoint.isLayout (c : CodePoint) : Bool :=
  c = ' ' || c = '\t' || c = '\r' || c = '\n'

/-- Reads a nested comment after its opening mark, `depth` comments being open around it: the text
up to and including its closing mark, and the rest. -/
def commentBody (depth : Nat) : Text → Option (Text × Text)
  | [] => none
  | .scalar '/' :: .scalar '*' :: rest =>
    (commentBody (depth + 1) rest).map fun (read, left) =>
      (.scalar '/' :: .scalar '*' :: read, left)
  | .scalar '*' :: .scalar '/' :: rest =>
    match depth with
    | 0 => some ([.scalar '*', .scalar '/'], rest)
    | depth + 1 => (commentBody depth rest).map fun (read, left) =>
        (.scalar '*' :: .scalar '/' :: read, left)
  | c :: rest => (commentBody depth rest).map fun (read, left) => (c :: read, left)

theorem commentBody_append {depth : Nat} {t read left : Text}
    (h : commentBody depth t = some (read, left)) : t = read ++ left ∧ read ≠ [] := by
  fun_induction commentBody depth t generalizing read left with
  | case1 => simp at h
  | case2 depth rest ih =>
    obtain ⟨⟨r, l⟩, hr, he⟩ := Option.map_eq_some_iff.1 h
    cases he
    simp [(ih hr).1]
  | case3 rest => cases h; simp
  | case4 rest depth ih =>
    obtain ⟨⟨r, l⟩, hr, he⟩ := Option.map_eq_some_iff.1 h
    cases he
    simp [(ih hr).1]
  | case5 depth c rest _ _ ih =>
    obtain ⟨⟨r, l⟩, hr, he⟩ := Option.map_eq_some_iff.1 h
    cases he
    simp [(ih hr).1]

/-- A comment that is never closed: the trivia before it, and the comment up to the end. -/
structure OpenComment where
  before : Text
  comment : Text

/-- Puts a text in front of what a trivia scan has read. -/
def Trivia.precededBy (t : Text) :
    Except OpenComment (Text × Text) → Except OpenComment (Text × Text)
  | .ok (read, left) => .ok (t ++ read, left)
  | .error e => .error { e with before := t ++ e.before }

/-- Splits a text into its leading trivia and the rest. -/
def trivia (t : Text) : Except OpenComment (Text × Text) :=
  match t with
  | [] => .ok ([], [])
  | .scalar '/' :: .scalar '/' :: rest =>
    Trivia.precededBy (.scalar '/' :: .scalar '/' :: rest.takeWhile (· ≠ '\n'))
      (trivia (rest.dropWhile (· ≠ '\n')))
  | .scalar '/' :: .scalar '*' :: rest =>
    match _h : commentBody 0 rest with
    | some (read, left) => Trivia.precededBy (.scalar '/' :: .scalar '*' :: read) (trivia left)
    | none => .error ⟨[], t⟩
  | c :: rest => if c.isLayout then Trivia.precededBy [c] (trivia rest) else .ok ([], t)
termination_by t.length
decreasing_by
  · have := (List.dropWhile_suffix (l := rest) (fun c => decide (c ≠ CodePoint.scalar '\n'))).length_le
    simp at this ⊢; omega
  · have := (commentBody_append _h).1
    subst this; simp; omega
  · simp

theorem trivia_append {t read left : Text} (h : trivia t = .ok (read, left)) :
    t = read ++ left := by
  fun_induction trivia t generalizing read left with
  | case1 => cases h; rfl
  | case2 rest ih =>
    cases hr : trivia (rest.dropWhile (· ≠ '\n')) with
    | error e => simp only [hr, Trivia.precededBy, reduceCtorEq] at h
    | ok p =>
      obtain ⟨r, l⟩ := p
      simp only [hr, Trivia.precededBy, Except.ok.injEq, Prod.mk.injEq] at h
      obtain ⟨rfl, rfl⟩ := h
      have := ih hr
      simp only [List.cons_append, List.append_assoc, List.cons.injEq, true_and]
      rw [← this, List.takeWhile_append_dropWhile]
  | case3 rest body left' hb ih =>
    cases hr : trivia left' with
    | error e => simp [hr, Trivia.precededBy] at h
    | ok p =>
      obtain ⟨r, l⟩ := p
      simp only [hr, Trivia.precededBy, Except.ok.injEq, Prod.mk.injEq] at h
      obtain ⟨rfl, rfl⟩ := h
      simp [(commentBody_append hb).1, ih hr]
  | case4 => cases h
  | case5 c rest _ _ hl ih =>
    cases hr : trivia rest with
    | error e => simp [hr, Trivia.precededBy] at h
    | ok p =>
      obtain ⟨r, l⟩ := p
      simp only [hr, Trivia.precededBy, Except.ok.injEq, Prod.mk.injEq] at h
      obtain ⟨rfl, rfl⟩ := h
      simp [ih hr]
  | case6 => cases h; rfl

end ScriptEngine

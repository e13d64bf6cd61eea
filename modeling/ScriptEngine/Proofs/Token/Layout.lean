import ScriptEngine.Proofs.Token.Numeral
import ScriptEngine.Proofs.Token.Tiling

/-!
# Layout between tokens

Tokens are decided by looking ahead, but never past layout: a lexeme that nothing or layout follows (`Apart`) is
read as itself, whatever followed it before.

* **Gaps** (`IsGap`): a text that is trivia whatever follows it. Layout, closed comments and what they make up
  are gaps.
* **Lexemes** (`scanLexeme_apart`): each scanner stops at the same place if what follows its lexeme is replaced
  by layout or by nothing.
* **Layouts** (`LaidOut lexemes t`): the text `t` is made of lexemes that gaps keep apart. All such texts of the
  lexemes of a source have its tokens (`stream_of_laidOut`).
-/

namespace ScriptEngine

variable {c : CodePoint} {t rest rest' : Text}

/-! ## Gaps -/

/-- A text that is trivia whatever follows it. -/
def IsGap (gap : Text) : Prop := ∀ t, trivia (gap ++ t) = Trivia.precededBy gap (trivia t)

theorem precededBy_nil (r : Except OpenComment (Text × Text)) : Trivia.precededBy [] r = r := by
  cases r <;> rfl

theorem precededBy_precededBy {s : Text} (r : Except OpenComment (Text × Text)) :
    Trivia.precededBy s (Trivia.precededBy t r) = Trivia.precededBy (s ++ t) r := by
  cases r <;> simp [Trivia.precededBy]

theorem isGap_nil : IsGap [] := fun _ => (precededBy_nil _).symm

theorem isGap_layout (hl : c.isLayout) : IsGap [c] := fun _ => trivia_layout hl

theorem IsGap.append {gap gap' : Text} (h : IsGap gap) (h' : IsGap gap') : IsGap (gap ++ gap') := by
  intro t
  rw [List.append_assoc, h, h', precededBy_precededBy]

/-- A comment between its marks is a gap. -/
theorem isGap_comment {body : Text} (hb : commentBody 0 body = some (body, [])) :
    IsGap (.scalar '/' :: .scalar '*' :: body) := by
  intro t
  have hclosed := commentBody_of_append hb t
  rw [List.cons_append, List.cons_append, trivia]
  split
  · next he =>
    cases hclosed.symm.trans he
    rfl
  · next he => cases hclosed.symm.trans he

/-- A comment to the end of its line, with the line feed, is a gap. -/
theorem isGap_lineComment {body : Text} (hb : ∀ c ∈ body, inLine c) :
    IsGap (.scalar '/' :: .scalar '/' :: (body ++ [.scalar '\n'])) := by
  intro t
  have hend : ∀ c ∈ (CodePoint.scalar '\n' :: t).head?, inLine c = false := by simp
  obtain ⟨htake, hdrop⟩ := splits_where hb hend
  rw [List.cons_append, List.cons_append, List.append_assoc, List.singleton_append, trivia, htake, hdrop,
    trivia_layout rfl, precededBy_precededBy]
  rfl

/-- Layout and comments that are closed, one after the other. -/
inductive Spacing : Text → Prop
  | nil : Spacing []
  | layout {c : CodePoint} {rest : Text} (hl : c.isLayout) (h : Spacing rest) : Spacing ([c] ++ rest)
  | comment {body rest : Text} (hb : commentBody 0 body = some (body, [])) (h : Spacing rest) :
      Spacing (.scalar '/' :: .scalar '*' :: body ++ rest)
  | lineComment {body rest : Text} (hb : ∀ c ∈ body, inLine c) (h : Spacing rest) :
      Spacing (.scalar '/' :: .scalar '/' :: (body ++ [.scalar '\n']) ++ rest)

theorem Spacing.isGap {gap : Text} (h : Spacing gap) : IsGap gap := by
  induction h with
  | nil => exact isGap_nil
  | layout hl _ ih => exact (isGap_layout hl).append ih
  | comment hb _ ih => exact (isGap_comment hb).append ih
  | lineComment hb _ ih => exact (isGap_lineComment hb).append ih

/-- Trivia is taken off as a whole. -/
theorem trivia_left {gap left : Text} (h : trivia t = .ok (gap, left)) : trivia left = .ok ([], left) := by
  fun_induction trivia t generalizing gap left with
  | case1 =>
    cases h
    rw [trivia]
  | case2 rest ih =>
    obtain ⟨_, hr, -⟩ := precededBy_eq_ok h
    exact ih hr
  | case3 rest body left' hb ih =>
    obtain ⟨_, hr, -⟩ := precededBy_eq_ok h
    exact ih hr
  | case4 => cases h
  | case5 c rest _ _ hl ih =>
    obtain ⟨_, hr, -⟩ := precededBy_eq_ok h
    exact ih hr
  | case6 c rest hline hnested hl =>
    cases h
    rw [trivia, if_neg hl]
    · exact hline
    · exact hnested

/-- No trivia stands before what is neither layout nor starts a comment. -/
theorem trivia_eq_self_iff : trivia (c :: t) = .ok ([], c :: t) ↔
    c.isLayout = false ∧ (c = .scalar '/' → ∀ d ∈ t.head?, d ≠ .scalar '/' ∧ d ≠ .scalar '*') := by
  constructor
  · intro h
    have hl : c.isLayout = false := by
      rw [Bool.eq_false_iff]
      intro hl
      rw [trivia_layout hl] at h
      obtain ⟨_, -, he⟩ := precededBy_eq_ok h
      cases he
    refine ⟨hl, ?_⟩
    rintro rfl d hd
    obtain ⟨t, rfl⟩ := List.head?_eq_some_iff.1 hd
    constructor
    · rintro rfl
      rw [trivia] at h
      obtain ⟨_, -, he⟩ := precededBy_eq_ok h
      cases he
    · rintro rfl
      rw [trivia] at h
      split at h
      · obtain ⟨_, -, he⟩ := precededBy_eq_ok h
        cases he
      · cases h
  · rintro ⟨hl, hs⟩
    by_cases hc : c = .scalar '/'
    · subst hc
      cases t with
      | nil =>
        rw [trivia, if_neg (by decide)]
        · rintro _ - ⟨⟩
        · rintro _ - ⟨⟩
      | cons d t =>
        obtain ⟨hline, hnested⟩ := hs rfl d rfl
        exact trivia_slash hline hnested
    · exact trivia_of_not_layout hl hc

/-! ## What follows a lexeme -/

/-- What keeps a lexeme apart from the next one: nothing follows it, or layout. -/
def Apart (rest : Text) : Prop := ∀ c ∈ rest.head?, c.isLayout

theorem apart_nil : Apart [] := nofun

theorem apart_cons (hl : c.isLayout) : Apart (c :: rest) := by simpa [Apart] using hl

/-- No lexeme goes on with layout. -/
theorem not_continuing_of_layout (hl : c.isLayout) : c.isWordPart = false ∧ c.isWordStart = false ∧
    c.isDigit = false ∧ c ∉ (['.', '_', 'x', 'X', 'b', 'B', '=', '/', '*', '?', '!'] : List Char).map .scalar := by
  have hall : ∀ c ∈ ([' ', '\t', '\r', '\n'] : List Char).map CodePoint.scalar, c.isWordPart = false ∧
      c.isWordStart = false ∧ c.isDigit = false ∧
      c ∉ (['.', '_', 'x', 'X', 'b', 'B', '=', '/', '*', '?', '!'] : List Char).map .scalar := by
    decide
  refine hall c ?_
  simp only [CodePoint.isLayout, Bool.or_eq_true, decide_eq_true_eq] at hl
  simpa [or_assoc] using hl

theorem Apart.isWordPart (hr : Apart rest) : ∀ c ∈ rest.head?, c.isWordPart = false :=
  fun c hc => (not_continuing_of_layout (hr c hc)).1

/-- A lexeme that was read, with another text after it. -/
def Lexeme.followedBy (l : Lexeme) (rest : Text) : Lexeme := { l with rest := rest }

/-! ## Strings -/

namespace Escape

theorem readByte_of_append {s : Sequence} (h : readByte t = .ok s) (rest' : Text) :
    ∃ digits, s.consumed = .scalar 'x' :: digits ∧ readByte (digits ++ rest') = .ok { s with rest := rest' } := by
  unfold readByte at h
  split at h
  · next a b rest =>
    split at h
    · next ha hb hv =>
      cases h
      exact ⟨[a, b], rfl, by simp [readByte, ha, hb, hv]⟩
    · cases h
  · cases h

theorem readBraced_of_append {s : Sequence} (h : readBraced t = .ok s) (rest' : Text) :
    ∃ body, s.consumed = .scalar 'u' :: .scalar '{' :: body ∧
      readBraced (body ++ rest') = .ok { s with rest := rest' } := by
  have hdigits : ∀ c ∈ t.takeWhile CodePoint.isHexDigit, c.isHexDigit := List.all_eq_true.1 List.all_takeWhile
  have hbrace : (CodePoint.scalar '}').isHexDigit = false := by decide
  have hend : ∀ c ∈ (CodePoint.scalar '}' :: rest').head?, c.isHexDigit = false := by simpa using hbrace
  obtain ⟨htake, hdrop⟩ := splits_where hdigits hend
  unfold readBraced at h
  simp only at h
  split at h
  · next first digits after hd hr =>
    split at h
    · next value hv =>
      cases h
      rw [hd] at htake hdrop hv
      refine ⟨first :: digits ++ [.scalar '}'], by rw [hd]; rfl, ?_⟩
      rw [List.append_assoc, List.singleton_append, readBraced]
      simp only [htake, hdrop, hv, hd]
    · cases h
  · cases h

/-- A sequence is read up to its end, whatever follows that. -/
theorem read_of_append {s : Sequence} (h : read t = .ok s) (rest' : Text) :
    read (s.consumed ++ rest') = .ok { s with rest := rest' } := by
  unfold read at h
  split at h
  · cases h
  · next c rest =>
    split at h
    · next value hv =>
      cases h
      simp [read, hv]
    · next hv =>
      split at h
      · obtain ⟨digits, hs, hread⟩ := readByte_of_append h rest'
        rw [hs] at hread ⊢
        rw [List.cons_append, read, hv]
        exact hread
      · obtain ⟨body, hs, hread⟩ := readBraced_of_append h rest'
        rw [hs] at hread ⊢
        rw [List.cons_append, List.cons_append, read, hv]
        exact hread
      · cases h

end Escape

/-- The rest of a string literal is read up to its closing quote, whatever follows that. -/
theorem scanString_followedBy {quote : CodePoint} {read value : Text} {l : Lexeme}
    (h : scanString quote read value t = .ok l) :
    ∃ consumed, l.text = read.reverse ++ consumed ∧ ∀ rest',
      scanString quote read value (consumed ++ rest') = .ok (l.followedBy rest') := by
  fun_induction scanString quote read value t with
  | case1 | case3 | case4 => cases h
  | case2 read value rest =>
    cases h
    refine ⟨[quote], by simp, fun rest' => ?_⟩
    rw [List.singleton_append, scanString, if_pos rfl]
    rfl
  | case5 read value rest s hs hq hn ih =>
    obtain ⟨consumed, ht, hscan⟩ := ih h
    refine ⟨.scalar '\\' :: (s.consumed ++ consumed), by simpa using ht, fun rest' => ?_⟩
    have hread := Escape.read_of_append hs (consumed ++ rest')
    rw [List.cons_append, List.append_assoc, scanString, if_neg hq, if_neg hn, if_pos rfl]
    split
    · next he => cases hread.symm.trans he
    · next he =>
      cases hread.symm.trans he
      exact hscan rest'
  | case6 read value c rest hq hn hb ih =>
    obtain ⟨consumed, ht, hscan⟩ := ih h
    refine ⟨c :: consumed, by simpa using ht, fun rest' => ?_⟩
    rw [List.cons_append, scanString, if_neg hq, if_neg hn, if_neg hb]
    exact hscan rest'

/-! ## Numbers -/

namespace Numeral

theorem startsWithDigit_append (ht : t ≠ []) : startsWithDigit (t ++ rest) = startsWithDigit t := by
  cases t with
  | nil => exact absurd rfl ht
  | cons c t => rfl

theorem digitRun_ne_nil (hs : startsWithDigit t) : (digitRun t).1 ≠ [] := by
  cases t with
  | nil => cases hs
  | cons c t =>
    have hc : c.isDigit = true := hs
    simp [digitRun, hc]

/-- The digits of a run start with a digit if the text does. -/
theorem startsWithDigit_digitRun (hs : startsWithDigit t) (back : Text) :
    startsWithDigit ((digitRun t).1 ++ back) = true := by
  have hsame : startsWithDigit ((digitRun t).1 ++ (digitRun t).2) = _ := startsWithDigit_append (digitRun_ne_nil hs)
  rw [digitRun_append, hs] at hsame
  rw [startsWithDigit_append (digitRun_ne_nil hs), ← hsame]

/-- A run of digits stops where a text follows that it does not go on with. -/
theorem digitRun_of_append {back : Text} (hb : digitRun back = ([], back)) :
    digitRun ((digitRun t).1 ++ back) = ((digitRun t).1, back) := by
  induction t with
  | nil => exact hb
  | cons c t ih =>
    rw [digitRun]
    split
    · next hc =>
      have hstart : (c.isDigit || (c = '_' && startsWithDigit ((digitRun t).1 ++ back))) = true := by
        rw [Bool.or_eq_true] at hc ⊢
        refine hc.imp_right fun hu => ?_
        rw [Bool.and_eq_true] at hu ⊢
        exact ⟨hu.1, startsWithDigit_digitRun hu.2 back⟩
      show digitRun (c :: ((digitRun t).1 ++ back)) = _
      rw [digitRun, if_pos hstart, ih]
    · exact hb

theorem digitRun_apart (hr : Apart rest) : digitRun rest = ([], rest) := by
  cases rest with
  | nil => rfl
  | cons c rest =>
    obtain ⟨-, -, hd, hm⟩ := not_continuing_of_layout (hr c rfl)
    have hu : c ≠ '_' := by
      rintro rfl
      simp at hm
    simp [digitRun, hd, hu]

/-- A decimal lexeme is read in the same way if nothing but layout follows it. -/
theorem decimalLexeme_apart (t : Text) (hr : Apart rest) :
    decimalLexeme ((decimalLexeme t).lexeme ++ rest) = { decimalLexeme t with rest := rest } := by
  obtain hd | ⟨after, hdigit, hd⟩ := decimalLexeme_cases t
  · rw [hd]
    simp only [Decimal.lexeme, List.append_nil, decimalLexeme, digitRun_of_append (digitRun_apart hr)]
    split
    · exact absurd (not_continuing_of_layout (hr _ rfl)).2.2.2 (by simp)
    · rfl
  · have hp : (CodePoint.scalar '.').isDigit = false := by decide
    have hpoint : digitRun (.scalar '.' :: ((digitRun after).1 ++ rest)) =
        ([], .scalar '.' :: ((digitRun after).1 ++ rest)) := by simp [digitRun, hp]
    rw [hd]
    simp only [Decimal.lexeme, List.append_assoc, List.cons_append, decimalLexeme, digitRun_of_append hpoint,
      startsWithDigit_digitRun hdigit, if_true, digitRun_of_append (digitRun_apart hr)]

end Numeral

theorem scanDecimal_apart {l : Lexeme} (h : scanDecimal t = .ok l) (hr : Apart rest') :
    scanDecimal (l.text ++ rest') = .ok (l.followedBy rest') := by
  obtain ⟨d, hd⟩ : ∃ d, Numeral.decimalLexeme t = d := ⟨_, rfl⟩
  have hfinished (hf : scanDecimal.finish d = .ok l) :
      scanDecimal (l.text ++ rest') = .ok (l.followedBy rest') := by
    have hread := Numeral.decimalLexeme_apart t hr
    rw [hd] at hread
    have hfinish : scanDecimal.finish { d with rest := rest' } = .ok (l.followedBy rest') := by
      unfold scanDecimal.finish at hf ⊢
      have hvalue : Numeral.Decimal.value? { d with rest := rest' } = d.value? := rfl
      rw [hvalue]
      split at hf <;> cases hf
      rfl
    rw [(scanDecimal_finish_splits hf).1]
    simp only [scanDecimal, hread]
    split
    · rw [if_neg (by simp [(not_continuing_of_layout (hr _ rfl)).2.1])]
      exact hfinish
    · exact hfinish
  simp only [scanDecimal, hd] at h
  split at h
  · split at h
    · cases h
    · exact hfinished h
  · exact hfinished h

theorem scanBased_apart {lead : Text} {base : Nat} {cause : Text → LexCause} {l : Lexeme}
    (h : scanBased lead base cause t = .ok l) (hr : Apart rest') :
    ∃ word, l.text = lead ++ word ∧ scanBased lead base cause (word ++ rest') = .ok (l.followedBy rest') := by
  have hword : ∀ c ∈ t.takeWhile CodePoint.isWordPart, c.isWordPart := List.all_eq_true.1 List.all_takeWhile
  obtain ⟨htake, hdrop⟩ := splits_where hword hr.isWordPart
  unfold scanBased at h
  simp only at h
  split at h
  · next n hn =>
    cases h
    refine ⟨t.takeWhile CodePoint.isWordPart, rfl, ?_⟩
    simp only [scanBased, htake, hdrop, hn]
    rfl
  · cases h

theorem scanNumber_apart (hc : c.isDigit) {l : Lexeme} (h : scanNumber (c :: t) = .ok l) (hr : Apart rest') :
    scanNumber (l.text ++ rest') = .ok (l.followedBy rest') := by
  obtain ⟨hsplit, hne⟩ := scanNumber_splits hc h
  obtain ⟨c', after, hl⟩ := List.exists_cons_of_ne_nil hne
  obtain ⟨rfl, rfl⟩ : c = c' ∧ t = after ++ l.rest := by simpa [hl] using hsplit
  -- the base is decided by the second code point, which is in the lexeme or the layout after it
  cases after with
  | nil =>
    have hlone : ∀ b ∈ (l.text ++ rest')[1]?, b ∉ (['x', 'X', 'b', 'B'] : List Char).map CodePoint.scalar := by
      intro b hb
      have hmark := (not_continuing_of_layout (hr b (by simpa [hl, List.head?_eq_getElem?] using hb))).2.2.2
      simp only [List.map_cons, List.map_nil, List.mem_cons, List.not_mem_nil, or_false, not_or] at hmark ⊢
      exact ⟨hmark.2.2.1, hmark.2.2.2.1, hmark.2.2.2.2.1, hmark.2.2.2.2.2.1⟩
    have hdecimal : scanDecimal (c :: l.rest) = .ok l := by
      unfold scanNumber at h
      split at h
      · next a b rest he =>
        split at h
        · obtain ⟨word, hw, -⟩ := scanBased_apart h hr
          simp [hl] at hw
        · split at h
          · obtain ⟨word, hw, -⟩ := scanBased_apart h hr
            simp [hl] at hw
          · exact h
      · exact h
    rw [scanNumber_eq_scanDecimal hlone]
    exact scanDecimal_apart hdecimal hr
  | cons b after =>
    rw [List.cons_append, scanNumber] at h
    rw [hl, List.cons_append, List.cons_append, scanNumber]
    split at h
    · next hb =>
      obtain ⟨word, hw, hscan⟩ := scanBased_apart h hr
      obtain rfl : after = word := by simpa [hl] using hw
      rw [if_pos hb, hscan]
    · next hb =>
      split at h
      · next hb' =>
        obtain ⟨word, hw, hscan⟩ := scanBased_apart h hr
        obtain rfl : after = word := by simpa [hl] using hw
        rw [if_neg hb, if_pos hb', hscan]
      · next hb' =>
        have hscan := scanDecimal_apart h hr
        rw [hl] at hscan
        rw [if_neg hb, if_neg hb']
        exact hscan

/-! ## Words and symbols -/

/-- A name takes the mark behind its word that it took before, if layout follows. -/
theorem nameMark_apart (t : Text) (hr : Apart rest') : nameMark (nameMark t ++ rest') = nameMark t := by
  have hmarks : ∀ c ∈ rest'.head?, c ≠ '?' ∧ c ≠ '!' ∧ c ≠ '=' := by
    intro c hc
    have hmark := (not_continuing_of_layout (hr c hc)).2.2.2
    simp only [List.map_cons, List.map_nil, List.mem_cons, List.not_mem_nil, or_false, not_or] at hmark
    exact ⟨hmark.2.2.2.2.2.2.2.2.2.1, hmark.2.2.2.2.2.2.2.2.2.2, hmark.2.2.2.2.2.2.1⟩
  have hnone : nameMark rest' = [] := by
    unfold nameMark
    split
    · exact absurd rfl (hmarks _ rfl).1
    · rfl
    · exact absurd rfl (hmarks _ rfl).2.1
    · rfl
  have hexclaimed : nameMark (.scalar '!' :: rest') = "!" := by
    cases rest' with
    | nil => rfl
    | cons c rest =>
      have hc := (hmarks c rfl).2.2
      unfold nameMark
      split <;> simp_all
  rw [nameMark.eq_def t]
  split
  · rfl
  · exact hnone
  · exact hexclaimed
  · exact hnone

theorem isWordPart_nameMark_append (t : Text) (hr : Apart rest') :
    ∀ c ∈ (nameMark t ++ rest').head?, c.isWordPart = false := by
  have hm : ∀ d ∈ (['?', '!'] : List Char).map CodePoint.scalar, d.isWordPart = false := by decide
  unfold nameMark
  split
  · intro c hc
    obtain rfl : CodePoint.scalar '?' = c := by simpa [Text.ofString] using hc
    exact hm _ (by simp)
  · exact hr.isWordPart
  · intro c hc
    obtain rfl : CodePoint.scalar '!' = c := by simpa [Text.ofString] using hc
    exact hm _ (by simp)
  · exact hr.isWordPart

theorem scanWord_apart (t : Text) (hr : Apart rest') :
    scanWord ((scanWord t).text ++ rest') = (scanWord t).followedBy rest' := by
  have hword : ∀ c ∈ t.takeWhile CodePoint.isWordPart, c.isWordPart := List.all_eq_true.1 List.all_takeWhile
  cases hk : Keyword.ofText? (t.takeWhile CodePoint.isWordPart) with
  | some k =>
    obtain ⟨htake, hdrop⟩ := splits_where hword hr.isWordPart
    simp only [scanWord, hk, htake, hdrop]
    rfl
  | none =>
    obtain ⟨htake, hdrop⟩ :=
      splits_where hword (isWordPart_nameMark_append (t.dropWhile CodePoint.isWordPart) hr)
    simp only [scanWord, hk, List.append_assoc, htake, hdrop, nameMark_apart _ hr]
    simp [Lexeme.followedBy]

/-- No symbol goes on with layout. -/
theorem prefix_of_prefix_append_apart {p : Text × Symbol} (hp : p ∈ Symbol.spellings) {s : Text} (hr : Apart rest')
    (h : p.1 <+: s ++ rest') : p.1 <+: s := by
  have hlayout : ∀ p ∈ Symbol.spellings, ∀ c ∈ p.1, c.isLayout = false := by decide
  obtain hps | ⟨u, hu⟩ := List.prefix_or_prefix_of_prefix h (List.prefix_append s rest')
  · exact hps
  · cases u with
    | nil => exact (by simp [← hu] : p.1 <+: s)
    | cons c u =>
      rw [← hu, List.prefix_append_right_inj] at h
      obtain ⟨v, hv⟩ := h
      have hc := hr c (by simp [← hv])
      rw [hlayout p hp c (by simp [← hu])] at hc
      cases hc

/-- The longest symbol that a text starts with is the longest one where layout follows it, too. -/
theorem ofTextStart?_apart {s : Text} {k : Symbol} (h : Symbol.ofTextStart? t = some (s, k)) (hr : Apart rest') :
    Symbol.ofTextStart? (s ++ rest') = some (s, k) := by
  obtain ⟨hs, before, after, hall, hbefore⟩ := List.find?_eq_some_iff_append.1 h
  refine List.find?_eq_some_iff_append.2 ⟨by simp, before, after, hall, fun p hp => ?_⟩
  have hno := hbefore p hp
  simp only [Bool.not_eq_true', Bool.eq_false_iff, ne_eq, List.isPrefixOf_iff_prefix] at hno hs ⊢
  have hmem : p ∈ Symbol.spellings := by simp [hall, hp]
  exact fun hpre => hno ((prefix_of_prefix_append_apart hmem hr hpre).trans hs)

/-! ## Lexemes -/

/-- A lexeme is read in the same way if nothing but layout follows it. -/
theorem scanLexeme_apart {l : Lexeme} (h : scanLexeme c rest = .ok l) (hr : Apart rest') :
    ∃ after, l.text = c :: after ∧ scanLexeme c (after ++ rest') = .ok (l.followedBy rest') := by
  obtain ⟨hsplit, hne⟩ := scanLexeme_splits h
  obtain ⟨c', after, hl⟩ := List.exists_cons_of_ne_nil hne
  obtain ⟨rfl, -⟩ : c = c' ∧ rest = after ++ l.rest := by simpa [hl] using hsplit
  refine ⟨after, hl, ?_⟩
  unfold scanLexeme at h ⊢
  split at h
  · next hq =>
    obtain ⟨consumed, ht, hscan⟩ := scanString_followedBy h
    obtain rfl : after = consumed := by simpa [hl] using ht
    rw [if_pos hq]
    exact hscan rest'
  · next hq =>
    rw [if_neg hq]
    split at h
    · next hd =>
      have hscan := scanNumber_apart hd h hr
      rw [if_pos hd, ← hscan, hl]
      rfl
    · next hd =>
      rw [if_neg hd]
      split at h
      · next hw =>
        cases h
        have hscan := scanWord_apart (c :: rest) hr
        rw [if_pos hw, ← hscan, hl]
        rfl
      · next hw =>
        split at h
        · next s k hk =>
          cases h
          have hscan := ofTextStart?_apart hk hr
          obtain rfl : s = c :: after := hl
          rw [if_neg hw, ← List.cons_append, hscan]
          simp [Lexeme.followedBy]
        · cases h

/-- A lexeme that no trivia stood before has none before it by itself. -/
theorem trivia_lexeme_apart {l : Lexeme} (ht : trivia (c :: rest) = .ok ([], c :: rest))
    (h : scanLexeme c rest = .ok l) (hr : Apart rest') :
    trivia (l.text ++ rest') = .ok ([], l.text ++ rest') := by
  obtain ⟨after, hl, -⟩ := scanLexeme_apart h hr
  have hsplit := (scanLexeme_splits h).1
  obtain ⟨hlayout, hslash⟩ := trivia_eq_self_iff.1 ht
  rw [hl, List.cons_append, trivia_eq_self_iff]
  refine ⟨hlayout, fun hc d hd => ?_⟩
  cases after with
  | nil =>
    have hmark := (not_continuing_of_layout (hr d hd)).2.2.2
    simp only [List.map_cons, List.map_nil, List.mem_cons, List.not_mem_nil, or_false, not_or] at hmark
    exact ⟨hmark.2.2.2.2.2.2.2.1, hmark.2.2.2.2.2.2.2.2.1⟩
  | cons b after =>
    obtain rfl : b = d := by simpa using hd
    rw [hl] at hsplit
    cases hsplit
    exact hslash hc b rfl

/-! ## Layouts -/

/-- A text of lexemes that gaps keep apart. -/
inductive LaidOut : List Text → Text → Prop
  | last {gap : Text} (hgap : IsTrivia gap) : LaidOut [] gap
  | next {gap lexeme rest : Text} {lexemes : List Text} (hgap : IsGap gap) (hrest : Apart rest)
      (h : LaidOut lexemes rest) : LaidOut (lexeme :: lexemes) (gap ++ (lexeme ++ rest))

theorem IsGap.isTrivia {gap : Text} (h : IsGap gap) : IsTrivia gap := by
  have hgap := h []
  rw [List.append_nil, trivia] at hgap
  simpa [IsTrivia, Trivia.precededBy] using hgap

theorem LaidOut.layout {lexemes : List Text} (h : LaidOut lexemes t) (hl : c.isLayout) : LaidOut lexemes (c :: t) := by
  cases h with
  | last hgap =>
    refine .last ?_
    rw [IsTrivia, trivia_layout hl, hgap]
    rfl
  | next hgap hrest h => exact .next ((isGap_layout hl).append hgap) hrest h

/-- A text of lexemes with layout and comments before, between and behind them. What comes right after a lexeme is
layout, as a comment there could become part of it. -/
inductive Spaced : List Text → Text → Prop
  | last {gap : Text} (hgap : Spacing gap) : Spaced [] gap
  | next {gap lexeme rest : Text} {lexemes : List Text} (hgap : Spacing gap) (hrest : Apart rest)
      (h : Spaced lexemes rest) : Spaced (lexeme :: lexemes) (gap ++ (lexeme ++ rest))

theorem Spaced.laidOut {lexemes : List Text} (h : Spaced lexemes t) : LaidOut lexemes t := by
  induction h with
  | last hgap => exact .last hgap.isGap.isTrivia
  | next hgap hrest _ ih => exact .next hgap.isGap hrest ih

/-- Lexemes with single blanks between them. -/
theorem laidOut_joinWith (lexemes : List Text) : LaidOut lexemes (Text.joinWith " " lexemes) := by
  have hnil : IsTrivia [] := by rw [IsTrivia, trivia]
  induction lexemes with
  | nil => exact .last hnil
  | cons lexeme lexemes ih =>
    cases lexemes with
    | nil =>
      have h : LaidOut [lexeme] _ := .next isGap_nil apart_nil (.last hnil)
      rwa [List.nil_append, List.append_nil] at h
    | cons other lexemes =>
      have h : LaidOut (lexeme :: other :: lexemes) _ :=
        .next isGap_nil (apart_cons rfl) (ih.layout (c := .scalar ' ') rfl)
      rw [List.nil_append] at h
      simpa [Text.joinWith, Text.ofString] using h

/-- The lexemes of tokens, the end of file aside. -/
def lexemes (tokens : List Token) : List Text :=
  (tokens.filter fun t => t.kind ≠ .endOfFile).map Token.lexeme

/-- What a token is, wherever it stands. -/
def Token.content (t : Token) : TokenKind × Text := (t.kind, t.lexeme)

/-- All texts of the lexemes of a text that is read without failure are read as its tokens. -/
theorem stream_of_laidOut {start start' : Location} {tokens : List Token}
    (h : Token.stream start t = (tokens, none)) {t' : Text} (ht : LaidOut (lexemes tokens) t') :
    ∃ tokens', Token.stream start' t' = (tokens', none) ∧
      tokens'.map Token.content = tokens.map Token.content := by
  induction hn : t.length using Nat.strongRecOn generalizing start start' t t' tokens with
  | _ n ih =>
    obtain ⟨gap, -, rfl⟩ | ⟨gap, c, rest, l, others, hgap, hs, ho, rfl⟩ := stream_eq_none_iff.1 h
    · cases ht with
      | last hgap' => exact ⟨_, stream_eq_none_iff.2 (.inl ⟨t', hgap', rfl⟩), rfl⟩
    · have hkind := scanLexeme_kind_ne_endOfFile hs
      have hshorter : l.rest.length < n := by
        obtain ⟨hsplit, hne⟩ := scanLexeme_splits hs
        have hpos := List.length_pos_iff.2 hne
        rw [← hn, trivia_append hgap, hsplit]
        simp only [List.length_append]
        omega
      rw [lexemes, List.filter_cons_of_pos (by simpa using hkind)] at ht
      cases ht with
      | @next gap' _ rest' _ hgap' hrest' ht =>
        obtain ⟨after, hl, hscan⟩ := scanLexeme_apart hs hrest'
        have htrivia : trivia (gap' ++ (l.text ++ rest')) = .ok (gap', c :: (after ++ rest')) := by
          rw [hgap', trivia_lexeme_apart (trivia_left hgap) hs hrest', hl]
          simp [Trivia.precededBy]
        obtain ⟨others', ho', hcontent⟩ : ∃ others',
            Token.stream ((start'.after gap').after l.text) rest' = (others', none) ∧
              others'.map Token.content = others.map Token.content :=
          ih l.rest.length hshorter ho ht rfl
        refine ⟨_, stream_eq_none_iff.2 (.inr ⟨gap', c, _, l.followedBy rest', others', htrivia, hscan, ho', rfl⟩), ?_⟩
        rw [List.map_cons, List.map_cons, hcontent]
        rfl

/-- The tokens of a source are those of its lexemes with single blanks between them, those of its lexemes with any
layout and comments between them, and those of its lexemes with any other gaps that keep them apart. -/
theorem layout_keeps_tokens {source : Text} {file : Option Text} {tokens : List Token}
    (h : tokenize source file = .ok tokens) (file' : Option Text) :
    (∃ tokens', tokenize (Text.joinWith " " (lexemes tokens)) file' = .ok tokens' ∧
      tokens'.map Token.content = tokens.map Token.content) ∧
    (∀ t, Spaced (lexemes tokens) t → ∃ tokens', tokenize t file' = .ok tokens' ∧
      tokens'.map Token.content = tokens.map Token.content) ∧
    ∀ t, LaidOut (lexemes tokens) t → ∃ tokens', tokenize t file' = .ok tokens' ∧
      tokens'.map Token.content = tokens.map Token.content := by
  have hlaid (t : Text) (ht : LaidOut (lexemes tokens) t) : ∃ tokens', tokenize t file' = .ok tokens' ∧
      tokens'.map Token.content = tokens.map Token.content := by
    obtain ⟨tokens', hs, hcontent⟩ := stream_of_laidOut (stream_of_tokenize h) ht
    exact ⟨tokens', by rw [tokenize, hs], hcontent⟩
  exact ⟨hlaid _ (laidOut_joinWith _), fun t ht => hlaid t ht.laidOut, hlaid⟩

/-- A source without layout: signs right behind names and numbers, and a comment. -/
def crowdedSource : Text := "a!=0..9/**/?b!"

theorem layout_keeps_tokens_crowded :
    ∃ tokens tokens', tokenize crowdedSource none = .ok tokens ∧
      lexemes tokens = ["a", "!=", "0", "..", "9", "?", "b!"].map Text.ofString ∧
      tokenize "a != 0 .. 9 ? b!" none = .ok tokens' ∧
      tokens'.map Token.content = tokens.map Token.content := by
  have hlexemes : (tokenize crowdedSource none).toOption.map lexemes =
      some (["a", "!=", "0", "..", "9", "?", "b!"].map Text.ofString) := by
    decide +kernel
  cases htokens : tokenize crowdedSource none with
  | error e => simp [htokens, Except.toOption] at hlexemes
  | ok tokens =>
    rw [htokens] at hlexemes
    have hparts := Option.some.inj hlexemes
    obtain ⟨tokens', hread, hcontent⟩ := (layout_keeps_tokens htokens none).1
    have hjoined : Text.joinWith " " (lexemes tokens) = "a != 0 .. 9 ? b!" := by
      rw [hparts]
      decide +kernel
    rw [hjoined] at hread
    exact ⟨tokens, tokens', rfl, hparts, hread, hcontent⟩

end ScriptEngine

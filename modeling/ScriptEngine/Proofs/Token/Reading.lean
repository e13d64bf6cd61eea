import ScriptEngine.Token.Lexer
import ScriptEngine.Value.Display

/-!
# Texts and the kinds of their tokens

`ReadsAs t kinds`: a text is read without failure, wherever it starts, and its tokens are of the
given kinds. The rules build this up from the end of a text: a lexeme in front of a text adds its
kind (`ReadsAs.lexeme`), layout adds nothing (`ReadsAs.layout`).

`Spells t kinds` is the same for a part of a text. What follows a part can change how it is read, so
a part must be followed by nothing or by one of the marks that end an item of a list (`Ends`).
-/

namespace ScriptEngine

variable {t rest : Text} {c : CodePoint} {ks : List TokenKind}

/-- A text is read as tokens of the given kinds, the end of file included. -/
def ReadsAs (t : Text) (kinds : List TokenKind) : Prop :=
  ∀ start, ∃ tokens, Token.stream start t = (tokens, none) ∧ tokens.map Token.kind = kinds

/-- A stream of tokens without failure: nothing but trivia before the end, or a lexeme after trivia
and a stream of the rest. -/
theorem stream_eq_none_iff {start : Location} {tokens : List Token} :
    Token.stream start t = (tokens, none) ↔
      (∃ gap, trivia t = .ok (gap, []) ∧
        tokens = [⟨.endOfFile, [], ⟨start.after gap, start.after gap⟩⟩]) ∨
      ∃ gap c rest l others, trivia t = .ok (gap, c :: rest) ∧ scanLexeme c rest = .ok l ∧
        Token.stream ((start.after gap).after l.text) l.rest = (others, none) ∧
        tokens = ⟨l.kind, l.text, ⟨start.after gap, (start.after gap).after l.text⟩⟩ :: others := by
  rw [Token.stream]
  split
  · next ht => simp [ht]
  · next gap ht => simp [ht, eq_comm]
  · next gap c rest ht =>
    split
    · next hs => simp [ht, hs]
    · next l hs =>
      rw [Prod.ext_iff]
      constructor
      · rintro ⟨rfl, hn⟩
        exact .inr ⟨gap, c, rest, l, _, ht, hs, Prod.ext rfl hn, rfl⟩
      · rintro (⟨gap', ht', -⟩ | ⟨gap', c', rest', l', others, ht', hs', hst, rfl⟩)
        · rw [ht'] at ht; cases ht
        · rw [ht] at ht'; cases ht'
          rw [hs] at hs'; cases hs'
          simp only [hst, and_self]

theorem stream_of_tokenize {source : Text} {file : Option Text} {tokens : List Token}
    (h : tokenize source file = .ok tokens) :
    Token.stream (Location.origin file) source = (tokens, none) := by
  unfold tokenize at h
  split at h <;> cases h
  assumption

/-- If the first of two tokens is the whole text, nothing stands before or after its lexeme. -/
theorem scanLexeme_of_whole {file : Option Text} {token last : Token}
    (ht : tokenize t file = .ok [token, last]) (hw : token.lexeme = t) :
    ∃ c after, t = c :: after ∧ scanLexeme c after = .ok ⟨token.kind, t, []⟩ := by
  rcases stream_eq_none_iff.1 (stream_of_tokenize ht) with ⟨gap, -, he⟩ | ⟨gap, c, after, l, others, hg, hs, -, he⟩
  · cases he
  · cases he
    have htext : l.text = t := hw
    obtain ⟨hsplit, -⟩ := scanLexeme_splits hs
    -- The lexeme has the length of the text.
    have hlen := congrArg List.length (trivia_append hg)
    rw [hsplit, htext, List.length_append, List.length_append] at hlen
    have hrest : l.rest = [] := List.length_eq_zero_iff.1 (by omega)
    rw [hrest, htext, List.append_nil] at hsplit
    refine ⟨c, after, hsplit.symm, ?_⟩
    rw [hs, ← hrest, ← htext]

theorem readsAs_nil : ReadsAs [] [.endOfFile] := fun start =>
  ⟨_, stream_eq_none_iff.2 (.inl ⟨[], by rw [trivia], rfl⟩), rfl⟩

/-- A lexeme adds its kind to those of the text after it. -/
theorem ReadsAs.lexeme {gap : Text} {l : Lexeme} (ht : trivia t = .ok (gap, c :: rest))
    (hs : scanLexeme c rest = .ok l) (hr : ReadsAs l.rest ks) : ReadsAs t (l.kind :: ks) := by
  intro start
  obtain ⟨others, hst, hk⟩ := hr ((start.after gap).after l.text)
  refine ⟨_, stream_eq_none_iff.2 (.inr ⟨gap, c, rest, l, others, ht, hs, hst, rfl⟩), ?_⟩
  rw [List.map_cons, hk]

/-! ## Trivia -/

theorem trivia_of_not_layout (hl : c.isLayout = false) (hc : c ≠ .scalar '/') :
    trivia (c :: t) = .ok ([], c :: t) := by
  rw [trivia]
  · simp [hl]
  · rintro rest rfl; exact absurd rfl hc
  · rintro rest rfl; exact absurd rfl hc

/-- A slash that starts no comment is no trivia. -/
theorem trivia_slash {d : CodePoint} (hs : d ≠ .scalar '/') (hd : d ≠ .scalar '*') :
    trivia (.scalar '/' :: d :: t) = .ok ([], .scalar '/' :: d :: t) := by
  rw [trivia]
  · rw [if_neg (by decide)]
  · rintro rest - he; cases he; exact absurd rfl hs
  · rintro rest - he; cases he; exact absurd rfl hd

theorem trivia_layout (hl : c.isLayout = true) :
    trivia (c :: t) = Trivia.precededBy [c] (trivia t) := by
  rw [trivia]
  · rw [if_pos hl]
  · rintro rest rfl; cases hl
  · rintro rest rfl; cases hl

/-- Layout in front of a text changes no token of it. -/
theorem ReadsAs.layout (hl : c.isLayout = true) (hr : ReadsAs t ks) : ReadsAs (c :: t) ks := by
  intro start
  obtain ⟨tokens, hst, hk⟩ := hr (start.next c)
  have ht := trivia_layout (t := t) hl
  refine ⟨tokens, stream_eq_none_iff.2 ?_, hk⟩
  rcases stream_eq_none_iff.1 hst with
    ⟨gap, hg, he⟩ | ⟨gap, d, rest, l, others, hg, hs, hr, he⟩
  · exact .inl ⟨c :: gap, by rw [ht, hg]; rfl, he⟩
  · exact .inr ⟨c :: gap, d, rest, l, others, by rw [ht, hg]; rfl, hs, hr, he⟩

/-- A text has at least as many code points as tokens, the end of file aside. -/
theorem ReadsAs.length_le (hr : ReadsAs t ks) : ks.length ≤ t.length + 1 := by
  obtain ⟨tokens, hst, rfl⟩ := hr (Location.origin none)
  clear hr
  generalize Location.origin none = start at hst
  rw [List.length_map]
  induction hn : t.length using Nat.strongRecOn generalizing t tokens start with
  | _ n ih =>
    rcases stream_eq_none_iff.1 hst with
      ⟨gap, -, rfl⟩ | ⟨gap, c, rest, l, others, hg, hs, ho, rfl⟩
    · simp
    · obtain ⟨hsplit, hne⟩ := scanLexeme_splits hs
      have hpos := List.length_pos_iff.2 hne
      have hlen : t.length = gap.length + (l.text.length + l.rest.length) := by
        rw [trivia_append hg, hsplit]; simp
      have := ih l.rest.length (by omega) _ _ ho rfl
      simp; omega

/-! ## Parts of a text -/

/-- What may follow a part of a text: nothing, or a mark that ends an item of a list. -/
def Ends (rest : Text) : Prop := ∀ c ∈ rest.head?, c ∈ ([',', ']', '}'] : List Char).map .scalar

theorem ends_nil : Ends [] := by simp [Ends]

theorem ends_cons (hc : c ∈ ([',', ']', '}'] : List Char).map .scalar) : Ends (c :: rest) := by
  simpa [Ends] using hc

/-- The part of a text is read as tokens of the given kinds where an item may end after it. -/
def Spells (t : Text) (kinds : List TokenKind) : Prop :=
  ∀ rest ks, Ends rest → ReadsAs rest ks → ReadsAs (t ++ rest) (kinds ++ ks)

theorem Spells.readsAs {kinds : List TokenKind} (hs : Spells t kinds) :
    ReadsAs t (kinds ++ [.endOfFile]) := by
  simpa using hs [] _ ends_nil readsAs_nil

/-- A lexeme that is read where an item may end after it. -/
theorem spells_lexeme {k : TokenKind} (hl : c.isLayout = false) (hc : c ≠ .scalar '/')
    (hs : ∀ rest, Ends rest → ∃ text, scanLexeme c (t ++ rest) = .ok ⟨k, text, rest⟩) :
    Spells (c :: t) [k] := by
  intro rest ks he hr
  obtain ⟨text, hs⟩ := hs rest he
  exact .lexeme (trivia_of_not_layout hl hc) hs hr

/-! ## Marks -/

/-- The marks that are symbols whatever follows them. -/
def plainMarks : List (Char × Symbol) :=
  [('[', .lbracket), (']', .rbracket), ('{', .lbrace), ('}', .rbrace), (',', .comma), (':', .colon)]

theorem ReadsAs.mark {p : Char × Symbol} (hp : p ∈ plainMarks) (hr : ReadsAs rest ks) :
    ReadsAs (.scalar p.1 :: rest) (.symbol p.2 :: ks) := by
  have hs : scanLexeme (.scalar p.1) rest = .ok ⟨.symbol p.2, [.scalar p.1], rest⟩ := by
    simp only [plainMarks, List.mem_cons, List.not_mem_nil, or_false] at hp
    rcases hp with rfl | rfl | rfl | rfl | rfl | rfl <;> rfl
  have hl : ∀ p ∈ plainMarks, (CodePoint.scalar p.1).isLayout = false ∧ p.1 ≠ '/' := by decide
  exact .lexeme (trivia_of_not_layout (hl p hp).1 fun he => (hl p hp).2 (CodePoint.scalar.inj he)) hs
    hr

/-- The point before a brace. -/
theorem ReadsAs.point (hr : ReadsAs (.scalar '{' :: rest) ks) :
    ReadsAs (.scalar '.' :: .scalar '{' :: rest) (.symbol .dot :: ks) :=
  .lexeme (c := .scalar '.') (l := ⟨.symbol .dot, ".", .scalar '{' :: rest⟩)
    (trivia_of_not_layout (by decide) (by decide)) rfl hr

/-! ## Words -/

theorem Ends.isWordPart (he : Ends rest) : ∀ c ∈ rest.head?, c.isWordPart = false := by
  have hw : ∀ c ∈ ([',', ']', '}'] : List Char).map CodePoint.scalar, c.isWordPart = false := by
    decide
  exact fun c hc => hw c (he c hc)

/-- A text is split off where a predicate first fails. -/
theorem splits_where {p : CodePoint → Bool} {front back : Text} (hfront : ∀ c ∈ front, p c)
    (hback : ∀ c ∈ back.head?, p c = false) :
    (front ++ back).takeWhile p = front ∧ (front ++ back).dropWhile p = back := by
  rw [List.takeWhile_append_of_pos hfront, List.dropWhile_append_of_pos hfront]
  cases back with
  | nil => simp
  | cons c back =>
    have hc := hback c rfl
    simp [hc]

/-- A reserved word. -/
theorem spells_keyword {k : Keyword} (ht : ∀ d ∈ c :: t, d.isWordPart)
    (hk : Keyword.ofText? (c :: t) = some k) (hc : c.isWordStart ∧ c.isDigit = false)
    (hl : c.isLayout = false) (hq : c ∉ (['/', '"', '\''] : List Char).map CodePoint.scalar) :
    Spells (c :: t) [.keyword k] := by
  simp only [List.map_cons, List.map_nil, List.mem_cons, List.not_mem_nil, or_false, not_or] at hq
  refine spells_lexeme hl hq.1 fun rest he => ⟨c :: t, ?_⟩
  obtain ⟨hw, hd⟩ := splits_where ht he.isWordPart
  simp only [List.cons_append] at hw hd
  simp [scanLexeme, scanWord, hq.2, hc, hw, hd, hk]

/-- Whether a text is read as one identifier of that name. -/
def Text.isName (t : Text) : Bool :=
  match tokenize t none with
  | .ok [token, _] => token.kind = .identifier t
  | _ => false

theorem scanString_kind {quote : CodePoint} {read value : Text} {l : Lexeme}
    (hs : scanString quote read value t = .ok l) : ∃ v, l.kind = .string v := by
  fun_induction scanString quote read value t with
  | case1 | case3 | case4 => cases hs
  | case2 => cases hs; exact ⟨_, rfl⟩
  | case5 _ _ _ _ _ _ _ ih => exact ih hs
  | case6 _ _ _ _ _ _ _ ih => exact ih hs

theorem scanNumber_kind {l : Lexeme} (hs : scanNumber t = .ok l) : ∃ q, l.kind = .number q := by
  have based {lead : Text} {base : Nat} {cause : Text → LexCause} {t : Text}
      (hs : scanBased lead base cause t = .ok l) : ∃ q, l.kind = .number q := by
    unfold scanBased at hs
    simp only at hs
    split at hs <;> cases hs
    exact ⟨_, rfl⟩
  have finished {d : Numeral.Decimal} (hs : scanDecimal.finish d = .ok l) :
      ∃ q, l.kind = .number q := by
    unfold scanDecimal.finish at hs
    split at hs <;> cases hs
    exact ⟨_, rfl⟩
  have decimal {t : Text} (hs : scanDecimal t = .ok l) : ∃ q, l.kind = .number q := by
    unfold scanDecimal at hs
    simp only at hs
    split at hs
    · split at hs
      · cases hs
      · exact finished hs
    · exact finished hs
  unfold scanNumber at hs
  split at hs
  · split at hs
    · exact based hs
    · split at hs
      · exact based hs
      · exact decimal hs
  · exact decimal hs

/-- Only words are read as identifiers. -/
theorem scanLexeme_identifier {l : Lexeme} {name : Text} (hs : scanLexeme c rest = .ok l)
    (hk : l.kind = .identifier name) :
    (c = '"' || c = '\'') = false ∧ c.isDigit = false ∧ c.isWordStart ∧
      l = scanWord (c :: rest) := by
  unfold scanLexeme at hs
  split at hs
  · obtain ⟨v, hv⟩ := scanString_kind hs
    rw [hk] at hv; cases hv
  · next hq =>
    split at hs
    · obtain ⟨q, hv⟩ := scanNumber_kind hs
      rw [hk] at hv; cases hv
    · next hd =>
      split at hs
      · next hw => exact ⟨by simpa using hq, by simpa using hd, hw, by cases hs; rfl⟩
      · split at hs <;> cases hs
        cases hk

theorem scanWord_identifier {name : Text} (hk : (scanWord t).kind = .identifier name) :
    Keyword.ofText? (t.takeWhile CodePoint.isWordPart) = none ∧
      scanWord t = ⟨.identifier name, name, (t.dropWhile CodePoint.isWordPart).drop
        (nameMark (t.dropWhile CodePoint.isWordPart)).length⟩ := by
  unfold scanWord at hk ⊢
  simp only at hk ⊢
  split at hk
  · cases hk
  · next hn => cases hk; simp [hn]

/-- What is left of a name after its word is its mark. -/
theorem nameMark_eq_self (hm : t.drop (nameMark t).length = []) :
    t = [] ∨ t = [.scalar '?'] ∨ t = [.scalar '!'] := by
  unfold nameMark at hm
  split at hm <;> simp_all [Text.ofString]

/-- A name that a colon follows is read as it is by itself. -/
theorem scanWord_append_colon (hs : scanWord t = ⟨.identifier t, t, []⟩) :
    scanWord (t ++ .scalar ':' :: rest) = ⟨.identifier t, t, .scalar ':' :: rest⟩ := by
  obtain ⟨hn, he⟩ := scanWord_identifier (show (scanWord t).kind = .identifier t by rw [hs])
  have hm := nameMark_eq_self (congrArg Lexeme.rest (he.symm.trans hs))
  have hw : ∀ c ∈ t.takeWhile CodePoint.isWordPart, c.isWordPart :=
    List.all_eq_true.1 List.all_takeWhile
  have hp : ∀ c ∈ ([':', '?', '!'] : List Char), (CodePoint.scalar c).isWordPart = false := by
    simp only [List.mem_cons, List.not_mem_nil, or_false, forall_eq_or_imp, forall_eq]
    decide
  have ht := List.takeWhile_append_dropWhile (p := CodePoint.isWordPart) (l := t)
  generalize t.takeWhile CodePoint.isWordPart = word at *
  generalize t.dropWhile CodePoint.isWordPart = mark at *
  subst ht
  unfold scanWord
  rw [List.append_assoc, List.takeWhile_append_of_pos hw, List.dropWhile_append_of_pos hw]
  rcases hm with rfl | rfl | rfl <;> simp [hp, hn, nameMark, Text.ofString]

theorem not_layout_of_isWordStart (hw : c.isWordStart) : c.isLayout = false ∧ c ≠ .scalar '/' := by
  have hs : ∀ d ∈ ([' ', '\t', '\r', '\n', '/'] : List Char),
      (CodePoint.scalar d).isWordStart = false := by
    simp only [List.mem_cons, List.not_mem_nil, or_false, forall_eq_or_imp, forall_eq]
    decide
  constructor
  · rw [Bool.eq_false_iff]
    intro hl
    simp only [CodePoint.isLayout, Bool.or_eq_true, decide_eq_true_eq] at hl
    rcases hl with ((rfl | rfl) | rfl) | rfl <;> simp [hs] at hw
  · rintro rfl
    simp [hs] at hw

/-- The one lexeme of a name is the whole name. -/
theorem scanWord_of_isName (hn : t.isName) : ∃ c after, t = c :: after ∧
    (c = '"' || c = '\'') = false ∧ c.isDigit = false ∧ c.isWordStart ∧
      scanWord t = ⟨.identifier t, t, []⟩ := by
  unfold Text.isName at hn
  split at hn
  · next token eof ht =>
    have hk : token.kind = .identifier t := by simpa using hn
    rcases stream_eq_none_iff.1 (stream_of_tokenize ht) with ⟨gap, -, he⟩ | ⟨gap, c, after, l, others, hg, hs, -, he⟩
    · cases he
    · cases he
      obtain ⟨hq, hd, hw, rfl⟩ := scanLexeme_identifier hs hk
      obtain ⟨left, hi⟩ : ∃ left, scanWord (c :: after) = ⟨.identifier t, t, left⟩ :=
        ⟨_, (scanWord_identifier hk).2⟩
      have hsplit : c :: after = t ++ left := by
        simpa [hi] using (scanWord_splits hw : (scanWord (c :: after)).Splits _).1
      -- The lexeme has the length of the text, so nothing stands before or after it.
      have hlen := congrArg List.length (trivia_append hg)
      simp only [hsplit, List.length_append] at hlen
      obtain rfl : left = [] := List.length_eq_zero_iff.1 (by omega)
      rw [List.append_nil] at hsplit
      exact ⟨c, after, hsplit.symm, hq, hd, hw, by rw [← hi, hsplit]⟩
  · cases hn

/-- A name that a colon follows. -/
theorem ReadsAs.name (hn : t.isName) (hr : ReadsAs (.scalar ':' :: rest) ks) :
    ReadsAs (t ++ .scalar ':' :: rest) (.identifier t :: ks) := by
  obtain ⟨c, after, rfl, hq, hd, hw, hs⟩ := scanWord_of_isName hn
  obtain ⟨hl, hc⟩ := not_layout_of_isWordStart hw
  refine .lexeme (l := ⟨.identifier (c :: after), c :: after, .scalar ':' :: rest⟩)
    (trivia_of_not_layout hl hc) ?_ hr
  simpa [scanLexeme, hq, hd, hw] using scanWord_append_colon hs

/-! ## Strings -/

/-- A code point as it stands between double quotes. -/
def CodePoint.escaped (c : CodePoint) : Text :=
  if c = '\\' then "\\\\"
  else if c = '"' then "\\\""
  else if c = '\n' then "\\n"
  else if c = '\t' then "\\t"
  else [c]

theorem Text.doubleQuoted_eq (t : Text) :
    t.doubleQuoted = .scalar '"' :: (t.flatMap CodePoint.escaped ++ [.scalar '"']) := rfl

theorem scanString_escape {read value : Text} {d e : CodePoint} (hd : Escape.short? d = some e) :
    ∃ read', scanString '"' read value (.scalar '\\' :: d :: t) =
      scanString '"' read' (e :: value) t := by
  have hr : Escape.read (d :: t) = .ok ⟨e, [d], t⟩ := by simp [Escape.read, hd]
  refine ⟨[d].reverse ++ .scalar '\\' :: read, ?_⟩
  rw [scanString, if_neg (by decide), if_neg (by decide), if_pos rfl]
  split
  · next he => rw [hr] at he; cases he
  · next he => rw [hr] at he; cases he; rfl

/-- An escaped code point is read as the code point. -/
theorem scanString_escaped (c : CodePoint) (read value : Text) :
    ∃ read', scanString '"' read value (c.escaped ++ t) = scanString '"' read' (c :: value) t := by
  unfold CodePoint.escaped
  split
  · next hc => subst hc; exact scanString_escape rfl
  · next hb =>
    split
    · next hc => subst hc; exact scanString_escape rfl
    · next hq =>
      split
      · next hc => subst hc; exact scanString_escape rfl
      · next hn =>
        split
        · next hc => subst hc; exact scanString_escape rfl
        · refine ⟨c :: read, ?_⟩
          rw [List.singleton_append, scanString, if_neg hq, if_neg hn, if_neg hb]

theorem scanString_flatMap_escaped (t rest read value : Text) :
    ∃ text, scanString '"' read value (t.flatMap CodePoint.escaped ++ .scalar '"' :: rest) =
      .ok ⟨.string (value.reverse ++ t), text, rest⟩ := by
  induction t generalizing read value with
  | nil =>
    refine ⟨(.scalar '"' :: read).reverse, ?_⟩
    rw [List.flatMap_nil, List.nil_append, scanString, if_pos rfl, List.append_nil]
  | cons c t ih =>
    rw [List.flatMap_cons, List.append_assoc]
    obtain ⟨read', hs⟩ := scanString_escaped (t := t.flatMap CodePoint.escaped ++ .scalar '"' :: rest)
      c read value
    rw [hs]
    simpa using ih read' (c :: value)

/-- A quoted text is read as one string. -/
theorem spells_doubleQuoted (t : Text) : Spells t.doubleQuoted [.string t] := by
  rw [Text.doubleQuoted_eq]
  refine spells_lexeme (by decide) (by decide) fun rest _ => ?_
  obtain ⟨text, hs⟩ := scanString_flatMap_escaped t rest [.scalar '"'] []
  exact ⟨text, by simpa [scanLexeme] using hs⟩

/-! ## Lists -/

/-- Items with commas between them. -/
theorem ReadsAs.joined {ι : Type} {xs : List ι} {T : ι → Text} {K : ι → List TokenKind}
    (hx : ∀ x ∈ xs, Spells (T x) (K x)) (he : Ends rest) (hr : ReadsAs rest ks) :
    ReadsAs (Text.joinWith ", " (xs.map T) ++ rest)
      ([.symbol .comma].intercalate (xs.map K) ++ ks) := by
  induction xs with
  | nil => exact hr
  | cons x xs ih =>
    have ih := ih fun y hy => hx y (.tail _ hy)
    cases xs with
    | nil =>
      rw [List.map_cons, List.map_cons, List.map_nil, List.map_nil, List.intercalate_singleton]
      exact hx x (.head _) _ _ he hr
    | cons y ys =>
      simp only [List.map_cons, Text.joinWith, List.intercalate_cons_cons, List.append_assoc] at ih ⊢
      exact hx x (.head _) _ _ (ends_cons (by decide))
        (.mark (p := (',', .comma)) (by decide) (.layout (by decide) ih))

theorem spells_array {ι : Type} {xs : List ι} {T : ι → Text} {K : ι → List TokenKind}
    (hx : ∀ x ∈ xs, Spells (T x) (K x)) :
    Spells ("[" ++ Text.joinWith ", " (xs.map T) ++ "]")
      (.symbol .lbracket :: ([.symbol .comma].intercalate (xs.map K) ++ [.symbol .rbracket])) := by
  intro rest ks _ hr
  rw [List.append_assoc, List.append_assoc, List.cons_append, List.append_assoc]
  exact .mark (p := ('[', .lbracket)) (by decide) (.joined hx (ends_cons (by decide))
    (.mark (p := (']', .rbracket)) (by decide) hr))

theorem spells_entry {key : Text} {kinds : List TokenKind} (hk : key.isName) (ht : Spells t kinds) :
    Spells (key ++ ": " ++ t) (.identifier key :: .symbol .colon :: kinds) := by
  intro rest ks he hr
  rw [List.append_assoc, List.append_assoc]
  exact .name hk (.mark (p := (':', .colon)) (by decide) (.layout (by decide) (ht rest ks he hr)))

theorem spells_object {ι : Type} {xs : List (Text × ι)} {T : ι → Text} {K : ι → List TokenKind}
    (hk : ∀ x ∈ xs, x.1.isName) (hx : ∀ x ∈ xs, Spells (T x.2) (K x.2)) :
    Spells (".\x7b" ++ Text.joinWith ", " (xs.map fun x => x.1 ++ ": " ++ T x.2) ++ "\x7d")
      (.symbol .dot :: .symbol .lbrace :: ([.symbol .comma].intercalate
        (xs.map fun x => .identifier x.1 :: .symbol .colon :: K x.2) ++ [.symbol .rbrace])) := by
  intro rest ks _ hr
  rw [List.append_assoc, List.append_assoc, List.cons_append, List.cons_append, List.append_assoc]
  exact .point (.mark (p := ('{', .lbrace)) (by decide)
    (.joined (fun x hm => spells_entry (hk x hm) (hx x hm)) (ends_cons (by decide))
      (.mark (p := ('}', .rbrace)) (by decide) hr)))

end ScriptEngine

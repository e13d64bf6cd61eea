import ScriptEngine.Proofs.Token.Reading

/-!
# Tokens tile their source

The tokens of a source stand in it one after the other, and between them is nothing but trivia.

* **Trivia** (`IsTrivia`): a text that is trivia as a whole. What `trivia` takes off the front of a text
  is trivia by itself, without what follows it (`isTrivia_of_trivia`).
* **Tilings** (`Tiles start t tokens`): the text `t`, read from `start` on, is made of a gap and a lexeme
  for each token, and each token says where its lexeme stands. A text that is read without failure is
  tiled by its tokens (`tiles_of_stream`).
-/

namespace ScriptEngine

/-- The part of a text from one offset up to another. -/
def Text.cut (t : Text) (start stop : Nat) : Text := (t.take stop).drop start

theorem Text.cut_append (front middle back : Text) :
    Text.cut (front ++ (middle ++ back)) front.length (front.length + middle.length) = middle := by
  simp [Text.cut, List.take_append]

/-! ## Gaps -/

/-- A text that is trivia as a whole. -/
def IsTrivia (t : Text) : Prop := trivia t = .ok (t, [])

/-- A comment ends at its closing mark, whatever follows it. -/
theorem commentBody_of_append {depth : Nat} {t read left : Text}
    (h : commentBody depth t = some (read, left)) (left' : Text) :
    commentBody depth (read ++ left') = some (read, left') := by
  fun_induction commentBody depth t generalizing read left with
  | case1 => cases h
  | case2 depth rest ih =>
    obtain ⟨⟨r, l⟩, hr, he⟩ := Option.map_eq_some_iff.1 h
    cases he
    simp [commentBody, ih hr]
  | case3 rest =>
    cases h
    simp [commentBody]
  | case4 rest depth ih =>
    obtain ⟨⟨r, l⟩, hr, he⟩ := Option.map_eq_some_iff.1 h
    cases he
    simp [commentBody, ih hr]
  | case5 depth c rest hopen hclose ih =>
    obtain ⟨⟨r, l⟩, hr, he⟩ := Option.map_eq_some_iff.1 h
    cases he
    obtain ⟨hrest, hne⟩ := commentBody_append hr
    -- the code point after this one has been read, so that the two are no mark either way
    obtain ⟨d, r, rfl⟩ := List.exists_cons_of_ne_nil hne
    rw [List.cons_append, commentBody]
    · rw [ih hr]
      rfl
    · rintro more rfl hd
      cases hd
      exact hopen _ rfl hrest
    · rintro more rfl hd
      cases hd
      exact hclose _ rfl hrest

theorem precededBy_eq_ok {t read left : Text} {r : Except OpenComment (Text × Text)}
    (h : Trivia.precededBy t r = .ok (read, left)) : ∃ r', r = .ok (r', left) ∧ read = t ++ r' := by
  cases r with
  | error e => cases h
  | ok p =>
    cases h
    exact ⟨_, rfl, rfl⟩

/-- Whether a code point is inside a line. -/
abbrev inLine (c : CodePoint) : Bool := decide (c ≠ '\n')

/-- The trivia where a line ends starts with the line feed, or is empty. -/
theorem head?_trivia_of_lineEnd {t read left : Text} (ht : ∀ c ∈ t.head?, inLine c = false)
    (h : trivia t = .ok (read, left)) : ∀ c ∈ read.head?, inLine c = false := by
  cases t with
  | nil =>
    rw [trivia] at h
    cases h
    simp
  | cons c rest =>
    have hc : c = .scalar '\n' := by simpa using ht c rfl
    subst hc
    rw [trivia_layout rfl] at h
    obtain ⟨r, -, rfl⟩ := precededBy_eq_ok h
    simp

/-- What is taken off the front of a text as trivia is trivia by itself. -/
theorem isTrivia_of_trivia {t read left : Text} (h : trivia t = .ok (read, left)) : IsTrivia read := by
  fun_induction trivia t generalizing read left with
  | case1 =>
    cases h
    rw [IsTrivia, trivia]
  | case2 rest ih =>
    obtain ⟨r, hr, rfl⟩ := precededBy_eq_ok h
    -- the comment stops where the line does, and there the trivia after it starts
    have hend : ∀ c ∈ (rest.dropWhile inLine).head?, inLine c = false := by
      intro c hc
      have := List.head?_dropWhile_not inLine rest
      rw [hc] at this
      simpa using this
    obtain ⟨htake, hdrop⟩ := splits_where (List.all_eq_true.1 (List.all_takeWhile (l := rest)))
      (head?_trivia_of_lineEnd hend hr)
    rw [IsTrivia, List.cons_append, List.cons_append, trivia, htake, hdrop, ih hr]
    rfl
  | case3 rest body left' hb ih =>
    obtain ⟨r, hr, rfl⟩ := precededBy_eq_ok h
    have hbody := commentBody_of_append hb r
    rw [IsTrivia, List.cons_append, List.cons_append, trivia]
    split
    · next he =>
      cases hbody.symm.trans he
      rw [ih hr]
      rfl
    · next he => cases hbody.symm.trans he
  | case4 => cases h
  | case5 c rest _ _ hl ih =>
    obtain ⟨r, hr, rfl⟩ := precededBy_eq_ok h
    rw [IsTrivia, List.singleton_append, trivia_layout hl, ih hr]
    rfl
  | case6 =>
    cases h
    rw [IsTrivia, trivia]

/-- A text that is trivia has no token but the end of file. -/
theorem IsTrivia.tokenize {gap : Text} (hgap : IsTrivia gap) (file : Option Text) :
    tokenize gap file = .ok [⟨.endOfFile, [], ⟨(Location.origin file).after gap,
      (Location.origin file).after gap⟩⟩] := by
  rw [ScriptEngine.tokenize, stream_eq_none_iff.2 (.inl ⟨gap, hgap, rfl⟩)]

/-! ## Tilings -/

theorem scanLexeme_kind_ne_endOfFile {c : CodePoint} {rest : Text} {l : Lexeme}
    (hs : scanLexeme c rest = .ok l) : l.kind ≠ .endOfFile := by
  unfold scanLexeme at hs
  split at hs
  · obtain ⟨v, hv⟩ := scanString_kind hs
    simp [hv]
  · split at hs
    · obtain ⟨q, hq⟩ := scanNumber_kind hs
      simp [hq]
    · split at hs
      · cases hs
        unfold scanWord
        simp only
        split <;> simp
      · split at hs <;> cases hs
        simp

/-- The tokens of a text that is read from a location on, with the gaps before them. -/
inductive Tiles : Location → Text → List Token → Prop
  | last {start : Location} {gap : Text} (hgap : IsTrivia gap) :
      Tiles start gap [⟨.endOfFile, [], ⟨start.after gap, start.after gap⟩⟩]
  | next {start : Location} {gap lexeme rest : Text} {kind : TokenKind} {tokens : List Token}
      (hgap : IsTrivia gap) (hkind : kind ≠ .endOfFile)
      (h : Tiles ((start.after gap).after lexeme) rest tokens) :
      Tiles start (gap ++ (lexeme ++ rest))
        (⟨kind, lexeme, ⟨start.after gap, (start.after gap).after lexeme⟩⟩ :: tokens)

/-- A text that is read without failure is tiled by its tokens. -/
theorem tiles_of_stream {start : Location} {t : Text} {tokens : List Token}
    (h : Token.stream start t = (tokens, none)) : Tiles start t tokens := by
  induction hn : t.length using Nat.strongRecOn generalizing start t tokens with
  | _ n ih =>
    obtain ⟨gap, hgap, rfl⟩ | ⟨gap, c, rest, l, others, hgap, hs, ho, rfl⟩ := stream_eq_none_iff.1 h
    · have ht : t = gap := by simpa using trivia_append hgap
      subst ht
      exact .last hgap
    · obtain ⟨hsplit, hne⟩ := scanLexeme_splits hs
      have ht : t = gap ++ (l.text ++ l.rest) := by rw [trivia_append hgap, hsplit]
      have hpos := List.length_pos_iff.2 hne
      subst ht
      refine .next (isTrivia_of_trivia hgap) (scanLexeme_kind_ne_endOfFile hs) (ih _ ?_ ho rfl)
      rw [← hn]
      simp only [List.length_append]
      omega

namespace Tiles

variable {start : Location} {t front : Text} {tokens : List Token}

/-- The tokens stand in order, from the start on. -/
theorem ordered (h : Tiles start t tokens) :
    (∀ u ∈ tokens, start.offset ≤ u.span.start.offset ∧ u.span.start.offset ≤ u.span.stop.offset) ∧
    tokens.Pairwise fun u v => u.span.stop.offset ≤ v.span.start.offset := by
  induction h with
  | last _ => simp
  | next _ _ _ ih =>
    obtain ⟨hfrom, hordered⟩ := ih
    simp only [Location.offset_after] at hfrom
    simp only [List.forall_mem_cons, List.pairwise_cons, Location.offset_after]
    refine ⟨⟨by omega, fun u hu => ?_⟩, fun u hu => (hfrom u hu).1, hordered⟩
    have := hfrom u hu
    omega

/-- The lexeme of a token is the part of the source that its span says. -/
theorem lexeme_eq_cut (h : Tiles start t tokens) (hfront : front.length = start.offset) :
    ∀ u ∈ tokens, u.lexeme = Text.cut (front ++ t) u.span.start.offset u.span.stop.offset := by
  induction h generalizing front with
  | last _ => simp [Text.cut]
  | @next start gap lexeme rest _ _ _ _ _ ih =>
    intro u hu
    obtain rfl | hu := List.mem_cons.1 hu
    · have hcut := Text.cut_append (front ++ gap) lexeme rest
      simp only [List.append_assoc, List.length_append, hfront] at hcut
      simp only [Location.offset_after, hcut]
    · have hnext : (front ++ gap ++ lexeme).length = ((start.after gap).after lexeme).offset := by
        simp [hfront]
        omega
      simpa only [List.append_assoc] using ih hnext u hu

/-- The last token is the end of file, which is empty and stands where the text ends. -/
theorem endOfFile_last (h : Tiles start t tokens) :
    ∃ others stop, tokens = others ++ [⟨.endOfFile, [], ⟨stop, stop⟩⟩] ∧
      stop.offset = start.offset + t.length ∧ ∀ u ∈ others, u.kind ≠ .endOfFile := by
  induction h with
  | last _ => exact ⟨[], _, rfl, by simp, by simp⟩
  | next _ hkind _ ih =>
    obtain ⟨others, stop, rfl, hstop, hothers⟩ := ih
    refine ⟨_ :: others, stop, rfl, ?_, by simpa using ⟨hkind, hothers⟩⟩
    simp only [Location.offset_after] at hstop
    simp only [List.length_append]
    omega

end Tiles

/-- The texts before the tokens of a source: from an offset to the first token, and from each token to
the next one. -/
def gaps (source : Text) (offset : Nat) : List Token → List Text
  | [] => []
  | t :: rest => source.cut offset t.span.start.offset :: gaps source t.span.stop.offset rest

namespace Tiles

variable {start : Location} {t front : Text} {tokens : List Token}

/-- The gaps of a source are trivia, and with the lexemes in turn they are the source. -/
theorem gaps_spec (h : Tiles start t tokens) (hfront : front.length = start.offset) :
    (∀ gap ∈ gaps (front ++ t) start.offset tokens, IsTrivia gap) ∧
    (List.zipWith (fun gap u => gap ++ u.lexeme) (gaps (front ++ t) start.offset tokens)
      tokens).flatten = t := by
  induction h generalizing front with
  | @last start gap hgap =>
    have hcut := Text.cut_append front gap []
    simp only [List.append_nil, hfront] at hcut
    simp [gaps, hcut, hgap]
  | @next start gap lexeme rest kind tokens hgap _ _ ih =>
    have hcut := Text.cut_append front gap (lexeme ++ rest)
    rw [hfront] at hcut
    have hnext : (front ++ gap ++ lexeme).length = ((start.after gap).after lexeme).offset := by
      simp [hfront]
      omega
    obtain ⟨htrivia, hjoined⟩ := ih hnext
    simp only [List.append_assoc] at htrivia hjoined
    simp only [gaps, Location.offset_after start gap, hcut, List.forall_mem_cons, List.zipWith_cons_cons,
      List.flatten_cons, hjoined, List.append_assoc, and_true]
    exact ⟨hgap, htrivia⟩

end Tiles

/-- The tokens of a source stand in order and do not overlap, and each has the text of its span as its
lexeme. The end of file comes last, and is empty where the source ends. Between the tokens there is
nothing but trivia, so that gaps and lexemes in turn are the source. -/
theorem tokens_tile_source {source : Text} {file : Option Text} {tokens : List Token}
    (h : tokenize source file = .ok tokens) :
    (∀ t ∈ tokens, t.span.start.offset ≤ t.span.stop.offset ∧
      t.lexeme = source.cut t.span.start.offset t.span.stop.offset) ∧
    tokens.Pairwise (fun t u => t.span.stop.offset ≤ u.span.start.offset) ∧
    (∃ others stop, tokens = others ++ [⟨.endOfFile, [], ⟨stop, stop⟩⟩] ∧
      stop.offset = source.length ∧ ∀ t ∈ others, t.kind ≠ .endOfFile) ∧
    (∀ gap ∈ gaps source 0 tokens, ∀ file, ∃ stop,
      tokenize gap file = .ok [⟨.endOfFile, [], ⟨stop, stop⟩⟩]) ∧
    (List.zipWith (fun gap t => gap ++ t.lexeme) (gaps source 0 tokens) tokens).flatten = source := by
  have htiles : Tiles (Location.origin file) source tokens := by
    unfold tokenize at h
    split at h
    · next hs =>
      cases h
      exact tiles_of_stream hs
    · cases h
  have hfront : ([] : Text).length = (Location.origin file).offset := rfl
  obtain ⟨hspan, hordered⟩ := htiles.ordered
  obtain ⟨hgaps, hjoined⟩ := htiles.gaps_spec hfront
  refine ⟨fun t ht => ⟨(hspan t ht).2, htiles.lexeme_eq_cut hfront t ht⟩, hordered, ?_, ?_, hjoined⟩
  · simpa [Location.origin] using htiles.endOfFile_last
  · exact fun gap hgap file => ⟨_, (hgaps gap hgap).tokenize file⟩

/-- A source with a nested comment, a comment at its end and a null character in a string. -/
def commentedSource : Text := "x /* a /* b */ c */ = \"\x00\" // end"

theorem tokens_tile_source_commented :
    ∃ tokens, tokenize commentedSource none = .ok tokens ∧
      gaps commentedSource 0 tokens =
        ["", " /* a /* b */ c */ ", " ", " // end"].map Text.ofString ∧
      ∀ gap ∈ gaps commentedSource 0 tokens, ∀ file, ∃ stop,
        tokenize gap file = .ok [⟨.endOfFile, [], ⟨stop, stop⟩⟩] := by
  have hgaps : (tokenize commentedSource none).toOption.map (gaps commentedSource 0) =
      some (["", " /* a /* b */ c */ ", " ", " // end"].map Text.ofString) := by
    decide +kernel
  cases htokens : tokenize commentedSource none with
  | error e => simp [htokens, Except.toOption] at hgaps
  | ok tokens =>
    rw [htokens] at hgaps
    exact ⟨tokens, rfl, Option.some.inj hgaps, (tokens_tile_source htokens).2.2.2.1⟩

end ScriptEngine

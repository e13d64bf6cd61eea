import ScriptEngine.Proofs.Program.Statements
import ScriptEngine.Proofs.Token.Placement

/-!
# Parsed programs

What the outcomes of the grammar say about whole token lists and whole sources.

* **Totality** (`parser_total`): for a token list whose only end of file is its last token, the parser gives
  a program that is made of all the tokens, or rejects them.
* **Spans** (`parsed_spans_nest`): the tokens of a source stand in order, so that nodes whose tokens are
  nested have nested spans.
* `Program.placed_of_parse` and `Program.placedIn_of_parse_error` are what other proofs need of a source: its
  program is placed on its tokens, and an error is at a place of the source.
-/

namespace ScriptEngine

theorem ended_of_append {front : List Token} {eof : Token} (hfront : ∀ t ∈ front, t.kind ≠ .endOfFile)
    (heof : eof.kind = .endOfFile) : Ended (front ++ [eof]).toArray where
  pos := by simp
  last := by
    intro i hi
    rw [List.size_toArray, List.length_append, List.length_singleton] at hi ⊢
    by_cases hlt : i < front.length
    · have htoken : tokenIn (front ++ [eof]).toArray i = front[i] := by
        simp [tokenIn, List.getElem?_append_left hlt, hlt]
      rw [htoken]
      have hne := hfront front[i] (List.getElem_mem hlt)
      exact ⟨fun h => absurd h hne, fun h => by omega⟩
    · obtain rfl : i = front.length := by omega
      simp [tokenIn, heof]

/-- The number of tokens before the end of file is the number of tokens that a program consumes. -/
theorem Grammar.runOn_program {front : List Token} {eof : Token} {level : Nat}
    (hfront : ∀ t ∈ front, t.kind ≠ .endOfFile) (heof : eof.kind = .endOfFile)
    (hlevel : front.length < level) (file : Option Text) :
    (∃ p, ((ofLevel level).program file).runOn (front ++ [eof]) = .ok (p, front.length) ∧
      (Node.program p).Placed (front ++ [eof]).toArray 0 (front.length + 1)) ∨
    ∃ e, ((ofLevel level).program file).runOn (front ++ [eof]) = .error (.rejected e) ∧
      e.span.Within (front ++ [eof]).toArray 0 (front.length + 1) := by
  have hsize : (front ++ [eof]).toArray.size = front.length + 1 := by simp
  have hout := ensures_program (ended_of_append hfront heof) (n := level) (by omega) file
  rw [Parse.Ensures, hsize] at hout
  rw [Parse.runOn]
  split at hout
  · next p j hrun =>
    obtain ⟨hj, hp⟩ := hout
    obtain rfl : j = front.length := by omega
    exact .inl ⟨p, hrun, hp⟩
  · next e hrun => exact .inr ⟨e, hrun, hout⟩
  · exact hout.elim

/-- The parser is total: for every token list whose only end of file is its last token, it ends with a
program, having consumed every token before the end of file, or it rejects the tokens. It asks for no token
at an index that has none, and whatever the level, if it is more than the number of those tokens, the
bounds on repetition and nesting are not used up. -/
theorem parser_total {front : List Token} {eof : Token} (hfront : ∀ t ∈ front, t.kind ≠ .endOfFile)
    (heof : eof.kind = .endOfFile) (file : Option Text) :
    ((∃ p, Program.ofTokens (front ++ [eof]) file = .ok p) ∨
      ∃ e, Program.ofTokens (front ++ [eof]) file = .error (.rejected e)) ∧
    ∀ level, front.length < level →
      (∃ p, ((Grammar.ofLevel level).program file).runOn (front ++ [eof]) = .ok (p, front.length)) ∨
      ∃ e, ((Grammar.ofLevel level).program file).runOn (front ++ [eof]) = .error (.rejected e) := by
  have hruns (level : Nat) (hlevel : front.length < level) :=
    Grammar.runOn_program hfront heof hlevel file
  refine ⟨?_, fun level hlevel => ?_⟩
  · have hlevel : front.length < (front ++ [eof]).length + 2 := by simp; omega
    rw [Program.ofTokens]
    obtain ⟨p, hp, -⟩ | ⟨e, he, -⟩ := hruns _ hlevel
    · exact .inl ⟨p, by rw [hp]; rfl⟩
    · exact .inr ⟨e, by rw [he]; rfl⟩
  · obtain ⟨p, hp, -⟩ | ⟨e, he, -⟩ := hruns level hlevel
    · exact .inl ⟨p, hp⟩
    · exact .inr ⟨e, he⟩

/-- A call whose arguments are cut off at the end of file. -/
def unclosedCall : List Token :=
  [⟨.identifier "f", "f", ⟨⟨1, 1, 0, none⟩, ⟨1, 2, 1, none⟩⟩⟩,
   ⟨.symbol .lparen, "(", ⟨⟨1, 2, 1, none⟩, ⟨1, 3, 2, none⟩⟩⟩]

/-- The end of file after it. -/
def unclosedCallEnd : Token := ⟨.endOfFile, [], ⟨⟨1, 3, 2, none⟩, ⟨1, 3, 2, none⟩⟩⟩

theorem parser_total_unclosed :
    (∀ t ∈ unclosedCall, t.kind ≠ .endOfFile) ∧ unclosedCallEnd.kind = .endOfFile ∧
    ∀ level, unclosedCall.length < level →
      (∃ p, ((Grammar.ofLevel level).program none).runOn (unclosedCall ++ [unclosedCallEnd]) =
        .ok (p, unclosedCall.length)) ∨
      ∃ e, ((Grammar.ofLevel level).program none).runOn (unclosedCall ++ [unclosedCallEnd]) =
        .error (.rejected e) := by
  have hfront : ∀ t ∈ unclosedCall, t.kind ≠ .endOfFile := by decide
  have heof : unclosedCallEnd.kind = .endOfFile := rfl
  exact ⟨hfront, heof, (parser_total hfront heof none).2⟩

/-! ## Sources -/

/-- The tokens of a source tile it. -/
theorem tiles_of_tokenize {source : Text} {file : Option Text} {tokens : List Token}
    (h : tokenize source file = .ok tokens) : Tiles (.origin file) source tokens :=
  tiles_of_stream (stream_of_tokenize h)

namespace Program

variable {source : Text} {file : Option Text} {p : Program}

/-- The outcome of a source that has tokens: its program is placed on them, or they are rejected at a span
of them. -/
theorem parse_cases {tokens : List Token} (h : tokenize source file = .ok tokens) :
    (∃ p, parse source file = .ok p ∧ (Node.program p).Placed tokens.toArray 0 tokens.length) ∨
    ∃ e, parse source file = .error (.grammatical (.rejected e)) ∧
      e.span.Within tokens.toArray 0 tokens.length := by
  obtain ⟨front, stop, rfl, -, hfront⟩ := (tiles_of_tokenize h).endOfFile_last
  have heof : (⟨.endOfFile, [], ⟨stop, stop⟩⟩ : Token).kind = .endOfFile := rfl
  generalize (⟨.endOfFile, [], ⟨stop, stop⟩⟩ : Token) = eof at h heof ⊢
  have hlevel : front.length < (front ++ [eof]).length + 2 := by simp; omega
  have hlength : (front ++ [eof]).length = front.length + 1 := by simp
  have hparse : parse source file = (ofTokens (front ++ [eof]) file).mapError .grammatical := by
    rw [parse, h]
    rfl
  rw [hparse, hlength, ofTokens]
  obtain ⟨p, hp, hplaced⟩ | ⟨e, he, hwithin⟩ := Grammar.runOn_program hfront heof hlevel file
  · exact .inl ⟨p, by rw [hp]; rfl, hplaced⟩
  · exact .inr ⟨e, by rw [he]; rfl, hwithin⟩

theorem placed_of_parse (h : parse source file = .ok p) :
    ∃ tokens, tokenize source file = .ok tokens ∧
      (Node.program p).Placed tokens.toArray 0 tokens.length := by
  cases htokens : tokenize source file with
  | error e =>
    rw [parse, htokens] at h
    cases h
  | ok tokens =>
    obtain ⟨q, hq, hplaced⟩ | ⟨e, he, -⟩ := parse_cases htokens
    · rw [hq] at h
      cases h
      exact ⟨tokens, rfl, hplaced⟩
    · rw [he] at h
      cases h

end Program

/-! ## Spans -/

/-- Each token ends no earlier than it starts, no later than the next one starts, and inside a source of
the given length. -/
structure InOrder (ts : Array Token) (length : Nat) : Prop where
  forward : ∀ i < ts.size, (tokenIn ts i).span.start.offset ≤ (tokenIn ts i).span.stop.offset
  before : ∀ i j, i < j → j < ts.size →
    (tokenIn ts i).span.stop.offset ≤ (tokenIn ts j).span.start.offset
  inside : ∀ i < ts.size, (tokenIn ts i).span.stop.offset ≤ length

theorem Tiles.inOrder {source : Text} {file : Option Text} {tokens : List Token}
    (h : Tiles (.origin file) source tokens) : InOrder tokens.toArray source.length := by
  obtain ⟨hforward, hordered⟩ := h.ordered
  obtain ⟨others, stop, hlast, hstop, -⟩ := h.endOfFile_last
  have htoken {i : Nat} (hi : i < tokens.length) : tokenIn tokens.toArray i = tokens[i] := by
    simp [tokenIn, hi]
  have hbefore : ∀ i j, i < j → j < tokens.toArray.size →
      (tokenIn tokens.toArray i).span.stop.offset ≤ (tokenIn tokens.toArray j).span.start.offset := by
    intro i j hij hj
    rw [List.size_toArray] at hj
    rw [htoken (Nat.lt_trans hij hj), htoken hj]
    exact List.pairwise_iff_getElem.1 hordered i j _ _ hij
  have hlength : tokens.length = others.length + 1 := by rw [hlast]; simp
  have hend : tokenIn tokens.toArray others.length = ⟨.endOfFile, [], ⟨stop, stop⟩⟩ := by
    rw [hlast]
    simp [tokenIn]
  refine ⟨fun i hi => ?_, hbefore, fun i hi => ?_⟩
  · rw [List.size_toArray] at hi
    rw [htoken hi]
    exact (hforward _ (List.getElem_mem hi)).2
  · rw [List.size_toArray] at hi
    have hsource : stop.offset = source.length := by simpa [Location.origin] using hstop
    by_cases hi' : i = others.length
    · exact Nat.le_of_eq (by rw [hi', hend, ← hsource])
    · have hi'' := hbefore i others.length (by omega) (by rw [List.size_toArray]; omega)
      rw [hend] at hi''
      rw [← hsource]
      exact hi''

namespace Span

variable {s t : Span} {ts : Array Token} {length a b c d : Nat}

theorem Covers.ordered (h : s.Covers ts a b) (hts : InOrder ts length) (hb : b ≤ ts.size) :
    s.start.offset ≤ s.stop.offset ∧ s.stop.offset ≤ length := by
  have hab := h.lt
  rw [h.start, h.stop]
  refine ⟨?_, hts.inside (b - 1) (by omega)⟩
  by_cases hlast : a = b - 1
  · rw [← hlast]
    exact hts.forward a (by omega)
  · have hfirst := hts.forward a (by omega)
    have hbetween := hts.before a (b - 1) (by omega) (by omega)
    have hend := hts.forward (b - 1) (by omega)
    omega

/-- Spans of tokens inside each other are inside each other. -/
theorem Covers.nested (h : s.Covers ts a b) (ht : t.Within ts a b) (hts : InOrder ts length)
    (hb : b ≤ ts.size) : s.start.offset ≤ t.start.offset ∧ t.stop.offset ≤ s.stop.offset := by
  obtain ⟨c, d, hc, hd, hcovers⟩ := ht
  have hcd := hcovers.lt
  rw [h.start, h.stop, hcovers.start, hcovers.stop]
  constructor
  · by_cases hfirst : a = c
    · exact Nat.le_of_eq (by rw [hfirst])
    · have hstart := hts.forward a (by omega)
      have hbetween := hts.before a c (by omega) (by omega)
      omega
  · by_cases hlast : d - 1 = b - 1
    · exact Nat.le_of_eq (by rw [hlast])
    · have hbetween := hts.before (d - 1) (b - 1) (by omega) (by omega)
      have hend := hts.forward (b - 1) (by omega)
      omega

end Span

/-- The spans of a program nest: each node of it ends no earlier than it starts and inside the source, and
the span of each child lies within that of its parent. -/
theorem parsed_spans_nest {source : Text} {file : Option Text} {p : Program}
    (h : Program.parse source file = .ok p) :
    ∀ n ∈ (Node.program p).walk,
      n.span.start.offset ≤ n.span.stop.offset ∧ n.span.stop.offset ≤ source.length ∧
      ∀ c ∈ n.children,
        n.span.start.offset ≤ c.span.start.offset ∧ c.span.stop.offset ≤ n.span.stop.offset := by
  obtain ⟨tokens, htokens, hplaced⟩ := Program.placed_of_parse h
  have horder := (tiles_of_tokenize htokens).inOrder
  intro n hn
  obtain ⟨⟨a, b, hb, hcovers, hchildren⟩, -⟩ := hplaced.everywhere.of_walk n hn
  obtain ⟨hforward, hinside⟩ := hcovers.ordered horder hb
  exact ⟨hforward, hinside, fun c hc => hcovers.nested (hchildren c hc) horder hb⟩

/-- An import and a function whose parts are in parentheses, in an object and in the arms of a match. -/
def nestedSource : Text :=
  "from \"m\" import a as b
func f(x: in_range(0, 9)) \x7b
  match (x) \x7b is b \x7b .\x7bk: (x) + 2\x7d \x7d else \x7b -(b[0]) \x7d \x7d
\x7d"

theorem parsed_spans_nest_match :
    ∃ p, Program.parse nestedSource none = .ok p ∧
      p.statements.map (fun s => (Node.stmt s).label) =
        ["ImportStatement", "ExpressionStatement"].map Text.ofString ∧
      ∀ n ∈ (Node.program p).walk,
        n.span.start.offset ≤ n.span.stop.offset ∧ n.span.stop.offset ≤ nestedSource.length ∧
        ∀ c ∈ n.children,
          n.span.start.offset ≤ c.span.start.offset ∧ c.span.stop.offset ≤ n.span.stop.offset := by
  have hparse : (Program.parse nestedSource none).toOption.map
      (fun p => p.statements.map fun s => (Node.stmt s).label) =
        some (["ImportStatement", "ExpressionStatement"].map Text.ofString) := by
    rw [nestedSource, Text.ofString_ofList]
    decide +kernel
  cases hp : Program.parse nestedSource none with
  | error e =>
    rw [hp] at hparse
    cases hparse
  | ok p =>
    rw [hp] at hparse
    exact ⟨p, rfl, Option.some.inj hparse, parsed_spans_nest hp⟩

/-! ## Errors -/

/-- The span that an error is reported at. -/
def SourceError.span? : SourceError → Option Span
  | .lexical e => e.span?
  | .grammatical (.rejected e) => some e.span
  | .grammatical _ => none

section

variable {source : Text} {file : Option Text} {tokens : List Token} {span : Span}

theorem placedIn_of_tokenize (h : tokenize source file = .ok tokens) : ∀ t ∈ tokens, t.span.PlacedIn source := by
  obtain ⟨htokens, -⟩ := reports_of_stream (.origin file) source
  rw [stream_of_tokenize h] at htokens
  exact fun t ht => (htokens t ht).placedIn

theorem placedIn_of_tokenize_error {e : LexError} (h : tokenize source file = .error e) (hspan : span ∈ e.span?) :
    span.PlacedIn source := by
  obtain ⟨-, hfailure⟩ := reports_of_stream (.origin file) source
  unfold tokenize at h
  split at h
  · cases h
  · next hstream =>
    cases h
    rw [hstream] at hfailure
    exact (hfailure e rfl span hspan).placedIn

theorem Span.Within.placedIn (h : span.Within tokens.toArray 0 tokens.length)
    (htokens : tokenize source file = .ok tokens) : span.PlacedIn source := by
  obtain ⟨a, b, -, hb, hcovers⟩ := h
  have hab := hcovers.lt
  have htoken {i : Nat} (hi : i < tokens.length) : (tokenIn tokens.toArray i).span.PlacedIn source := by
    have hget : tokenIn tokens.toArray i = tokens[i] := by simp [tokenIn, hi]
    rw [hget]
    exact placedIn_of_tokenize htokens _ (List.getElem_mem hi)
  have hordered := (hcovers.ordered (tiles_of_tokenize htokens).inOrder (by simpa using hb)).1
  refine ⟨?_, ?_, hordered⟩
  · rw [hcovers.start]
    exact (htoken (by omega)).start
  · rw [hcovers.stop]
    exact (htoken (by omega)).stop

/-- The tokens that a parser rejects are at a place of the source, and so is what no token can be made of. -/
theorem Program.placedIn_of_parse_error {e : SourceError} (h : parse source file = .error e)
    (hspan : span ∈ e.span?) : span.PlacedIn source := by
  cases htokens : tokenize source file with
  | error failure =>
    rw [parse, htokens] at h
    cases h
    exact placedIn_of_tokenize_error htokens hspan
  | ok tokens =>
    obtain ⟨p, hp, -⟩ | ⟨rejected, hrejected, hwithin⟩ := parse_cases htokens
    · rw [hp] at h
      cases h
    · rw [hrejected] at h
      cases h
      cases hspan
      exact hwithin.placedIn htokens

end

end ScriptEngine

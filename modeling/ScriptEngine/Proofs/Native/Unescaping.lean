import ScriptEngine.Eval.Statement
import ScriptEngine.Proofs.Native.Calls
import ScriptEngine.Proofs.Token.Ending
import ScriptEngine.Proofs.Token.Layout

/-!
# Escapes in texts and in string literals

The escapes of a text are interpreted as a string literal with the text between double quotes interprets them
(`unescapes_as_literal`). A literal also ends at a quote and may not have a line feed; both matter only outside
escape sequences (`Escape.outside`).

* A literal that ends where its source does has a text between its quotes whose escapes can be interpreted
  (`decode_of_scanString`).
* A text whose escapes can be interpreted is scanned up to the quote after it (`scanString_of_decode`).
-/

namespace ScriptEngine

variable {t rest : Text} {c : CodePoint}

/-- A text between double quotes. -/
def Text.inQuotes (t : Text) : Text := .scalar '"' :: (t ++ [.scalar '"'])

namespace Escape

/-- The code points of a text that stand outside its escape sequences, up to the first sequence that cannot be
read. -/
def outside (t : Text) : Text :=
  match t with
  | [] => []
  | c :: rest =>
    if c = '\\' then
      match _h : read rest with
      | .error _ => []
      | .ok s => outside s.rest
    else c :: outside rest
termination_by t.length
decreasing_by
  · have := length_rest_lt _h; simp; omega
  · simp

/-! ## One step of a text -/

variable {s : Sequence} {v : Text}

theorem decode_sequence (hs : read t = .ok s) :
    decode (.scalar '\\' :: t) = do return s.value :: (← decode s.rest) := by
  rw [decode, if_pos rfl]
  split
  · next he => cases hs.symm.trans he
  · next he => cases hs.symm.trans he; rfl

theorem outside_sequence (hs : read t = .ok s) : outside (.scalar '\\' :: t) = outside s.rest := by
  rw [outside, if_pos rfl]
  split
  · next he => cases hs.symm.trans he
  · next he => cases hs.symm.trans he; rfl

theorem decode_plain (hc : c ≠ '\\') : decode (c :: t) = do return c :: (← decode t) := by
  rw [decode, if_neg hc]

theorem outside_plain (hc : c ≠ '\\') : outside (c :: t) = c :: outside t := by
  rw [outside, if_neg hc]

/-- A sequence that does not take up the end of a text is read without that end as well. -/
theorem read_of_read_concat (hs : read (t ++ [c]) = .ok s) (hr : s.rest ≠ []) :
    ∃ r, s.rest = r ++ [c] ∧ read t = .ok { s with rest := r } := by
  obtain ⟨hsplit, -⟩ := read_append hs
  obtain ⟨r, d, hr⟩ := List.eq_nil_or_concat s.rest |>.resolve_left hr
  rw [List.concat_eq_append] at hr
  rw [hr, ← List.append_assoc] at hsplit
  obtain ⟨rfl, hd⟩ := List.append_inj' hsplit rfl
  obtain rfl : c = d := by simpa using hd
  exact ⟨r, hr, read_of_append hs r⟩

end Escape

/-! ## Scanning and interpreting -/

/-- A source that is one lexeme has its token and the end of file. -/
theorem tokenize_of_whole {k : TokenKind} (hl : c.isLayout = false) (hc : c ≠ .scalar '/')
    (hs : scanLexeme c t = .ok ⟨k, c :: t, []⟩) (file : Option Text) :
    ∃ span stop, tokenize (c :: t) file = .ok [⟨k, c :: t, span⟩, endOfFileAt stop] := by
  let start := Location.origin file
  have hend : Token.stream (start.after (c :: t)) [] = ([endOfFileAt (start.after (c :: t))], none) :=
    stream_eq_none_iff.2 (.inl ⟨[], by rw [trivia], rfl⟩)
  have hstream : Token.stream start (c :: t) = (⟨k, c :: t, _⟩ :: [endOfFileAt (start.after (c :: t))], none) :=
    stream_eq_none_iff.2 (.inr ⟨[], c, t, _, _, trivia_of_not_layout hl hc, hs, hend, rfl⟩)
  exact ⟨_, _, by rw [tokenize, hstream]⟩

open Escape

variable {quote : CodePoint} {v : Text}

/-- A literal that ends with its source interprets the escapes of the text before its closing quote. -/
theorem decode_of_scanString {read value : Text} {l : Lexeme}
    (h : scanString quote read value (t ++ [quote]) = .ok l) (hr : l.rest = []) :
    ∃ v, decode t = .ok v ∧ l.kind = .string (value.reverse ++ v) ∧ quote ∉ outside t ∧ .scalar '\n' ∉ outside t := by
  generalize ht : t ++ [quote] = source at h
  fun_induction scanString quote read value source generalizing t with
  | case1 | case3 | case4 => cases h
  | case2 read value rest =>
    cases h
    obtain rfl : rest = [] := hr
    obtain rfl : t = [] := by simpa using ht
    exact ⟨[], by rw [decode], by simp, by simp [outside], by simp [outside]⟩
  | case5 read value rest s hs hb hn ih =>
    -- The sequence cannot take up the closing quote: a literal does not end without one.
    have hrest : s.rest ≠ [] := by
      intro hnil
      rw [hnil, scanString] at h
      cases h
    cases t with
    | nil => exact absurd (List.cons.inj ht).1.symm hb
    | cons d u =>
      obtain ⟨rfl, rfl⟩ := List.cons.inj ht
      obtain ⟨r, hr', hread⟩ := read_of_read_concat hs hrest
      obtain ⟨v, hv, hk, hout⟩ := ih hr'.symm h
      refine ⟨s.value :: v, ?_, by simpa using hk, by rwa [outside_sequence hread]⟩
      rw [decode_sequence hread, hv]
      rfl
  | case6 read value c rest hb hn he ih =>
    cases t with
    | nil => exact absurd (List.cons.inj ht).1.symm hb
    | cons d u =>
      obtain ⟨rfl, rfl⟩ := List.cons.inj ht
      obtain ⟨v, hv, hk, hquote, hline⟩ := ih rfl h
      refine ⟨d :: v, ?_, by simpa using hk, ?_, ?_⟩
      · rw [decode_plain he, hv]
        rfl
      · rw [outside_plain he, List.mem_cons, not_or]
        exact ⟨Ne.symm hb, hquote⟩
      · rw [outside_plain he, List.mem_cons, not_or]
        exact ⟨Ne.symm hn, hline⟩

/-- A text whose escapes can be interpreted is scanned up to the quote after it. -/
theorem scanString_of_decode (hq : quote ≠ '\\') (hv : decode t = .ok v) (hquote : quote ∉ outside t)
    (hline : .scalar '\n' ∉ outside t) (read value : Text) :
    scanString quote read value (t ++ quote :: rest) =
      .ok ⟨.string (value.reverse ++ v), read.reverse ++ (t ++ [quote]), rest⟩ := by
  fun_induction decode t generalizing v read value with
  | case1 =>
    cases hv
    simp [scanString]
  | case2 t e he => cases hv
  | case3 t s hs ih =>
    obtain ⟨u, hu, hv⟩ := of_bind_eq_ok hv
    cases hv
    rw [outside_sequence hs] at hquote hline
    obtain ⟨hsplit, -⟩ := read_append hs
    have hread := read_of_append hs (s.rest ++ quote :: rest)
    rw [← List.append_assoc, ← hsplit] at hread
    rw [List.cons_append, scanString, if_neg hq.symm, if_neg (by decide), if_pos rfl]
    split
    · next he => cases hread.symm.trans he
    · next he =>
      cases hread.symm.trans he
      rw [ih hu hquote hline]
      conv => rhs; rw [hsplit]
      simp
  | case4 c t hc ih =>
    obtain ⟨u, hu, hv⟩ := of_bind_eq_ok hv
    cases hv
    rw [outside_plain hc, List.mem_cons, not_or] at hquote hline
    rw [List.cons_append, scanString, if_neg (Ne.symm hquote.1), if_neg (Ne.symm hline.1), if_neg hc,
      ih hu hquote.2 hline.2]
    simp

/-! ## Interpreting escapes in a call -/

theorem unescaped_eq_ok_iff {x w : Value} {place : Option Span} {m m' : Machine} (hx : x.payload = .string t) :
    Native.unescaped place x m = .ok w m' ↔ ∃ v, decode t = .ok v ∧ w = .string v ∧ m' = m := by
  rw [Native.unescaped, Eval.bind_ok (text_run hx)]
  cases decode t with
  | error e => exact ⟨nofun, nofun⟩
  | ok v =>
    constructor
    · intro h
      cases h
      exact ⟨v, rfl, rfl, rfl⟩
    · rintro ⟨u, hu, rfl, rfl⟩
      cases hu
      rfl

/-- If a text between double quotes is a source of one string literal, which takes up all of it, then interpreting
the escapes of the text gives the value of the literal, and no quote and no line feed stands outside its escapes. If
interpreting its escapes gives a result and no quote and no line feed stands outside them, then the text between
double quotes is a source of one string literal, which has the result for its value, and the end of file. -/
theorem unescapes_as_literal (I : Interp) {x : Value} (hx : x.payload = .string t) (file : Option Text)
    (place : Option Span) (m : Machine) :
    (∀ v span last, tokenize t.inQuotes file = .ok [⟨.string v, t.inQuotes, span⟩, last] →
      Native.unescape.call I [x] place m = .ok (.string v) m ∧ .scalar '"' ∉ outside t ∧ .scalar '\n' ∉ outside t) ∧
    ∀ w m', Native.unescape.call I [x] place m = .ok w m' → .scalar '"' ∉ outside t → .scalar '\n' ∉ outside t →
      m' = m ∧ ∃ v span stop, w = .string v ∧
        tokenize t.inQuotes file = .ok [⟨.string v, t.inQuotes, span⟩, endOfFileAt stop] := by
  have hcall (w : Value) (m' : Machine) : Native.unescape.call I [x] place m = .ok w m' ↔
      ∃ v, decode t = .ok v ∧ w = .string v ∧ m' = m :=
    (call_eq_ok_iff rfl).trans (unescaped_eq_ok_iff hx)
  constructor
  · intro v span last htokens
    obtain ⟨c, after, ht, hs⟩ := scanLexeme_of_whole htokens rfl
    obtain ⟨rfl, rfl⟩ := List.cons.inj ht
    obtain ⟨u, hu, hk, hquote, hline⟩ := decode_of_scanString hs rfl
    cases hk
    exact ⟨(hcall _ m).2 ⟨u, hu, rfl, rfl⟩, hquote, hline⟩
  · intro w m' h hquote hline
    obtain ⟨v, hv, rfl, rfl⟩ := (hcall w m').1 h
    have hs : scanLexeme '"' (t ++ [.scalar '"']) = .ok ⟨.string v, t.inQuotes, []⟩ :=
      scanString_of_decode (by decide) hv hquote hline [.scalar '"'] []
    obtain ⟨span, stop, htokens⟩ := tokenize_of_whole (by decide) (by decide) hs file
    exact ⟨rfl, v, span, stop, rfl, htokens⟩

/-- A text with a sequence of each form, one of them a quote. -/
def sequencesText : Text := "a\\n\\x41\\u\x7b1f600\x7d\\\"\\\\"

theorem unescapes_as_literal_sequences :
    Native.unescape.call (.ofLevel 0) [.string sequencesText] none {} = .ok (.string "a\nA😀\"\\") {} ∧
      ∃ span stop, tokenize sequencesText.inQuotes none =
        .ok [⟨.string "a\nA😀\"\\", sequencesText.inQuotes, span⟩, endOfFileAt stop] := by
  have hdecode : (decode sequencesText).toOption = some "a\nA😀\"\\" := by decide +kernel
  have hquote : .scalar '"' ∉ outside sequencesText := by decide +kernel
  have hline : .scalar '\n' ∉ outside sequencesText := by decide +kernel
  obtain ⟨v, hv⟩ : ∃ v, decode sequencesText = .ok v := by
    cases h : decode sequencesText with
    | error e => rw [h] at hdecode; cases hdecode
    | ok v => exact ⟨v, rfl⟩
  obtain rfl : v = "a\nA😀\"\\" := by
    rw [hv] at hdecode
    exact Option.some.inj hdecode
  have hcall : Native.unescape.call (.ofLevel 0) [.string sequencesText] none {} = .ok (.string "a\nA😀\"\\") {} :=
    (call_eq_ok_iff rfl).2 ((unescaped_eq_ok_iff rfl).2 ⟨_, hv, rfl, rfl⟩)
  obtain ⟨-, v, span, stop, hw, htokens⟩ := (unescapes_as_literal _ rfl none none {}).2 _ _ hcall hquote hline
  cases hw
  exact ⟨((unescapes_as_literal _ rfl none none {}).1 _ _ _ htokens).1, span, stop, htokens⟩

end ScriptEngine

import ScriptEngine.Eval.Statement
import ScriptEngine.Proofs.Number.Reading
import ScriptEngine.Proofs.Token.Ending
import ScriptEngine.Proofs.Token.Layout

/-!
# Number literals converted from strings

The lexeme of a number literal, as a string, converts to the number of the literal
(`literal_converts`). The literal in base sixteen or two has digits of that base and underscores after its
mark (`ofText?_based`); the decimal one is a plain text that starts with a digit (`ofText?_decimal`).
-/

namespace ScriptEngine

variable {t rest : Text} {c : CodePoint} {n base : Nat}

/-! ## Numerals -/

/-- Only numerals are read as numbers. -/
theorem scanLexeme_number {l : Lexeme} {q : Rat} (hs : scanLexeme c rest = .ok l)
    (hk : l.kind = .number q) : c.isDigit ∧ scanNumber (c :: rest) = .ok l := by
  unfold scanLexeme at hs
  split at hs
  · obtain ⟨v, hv⟩ := scanString_kind hs
    cases hk.symm.trans hv
  · split at hs
    · next hd => exact ⟨hd, hs⟩
    · split at hs
      · cases hs
        unfold scanWord at hk
        simp only at hk
        split at hk <;> cases hk
      · split at hs <;> cases hs
        cases hk

/-- A numeral names a base or is a decimal one. -/
theorem scanNumber_cases {l : Lexeme} (hs : scanNumber t = .ok l) :
    (∃ mark base cause digits, t = .scalar '0' :: .scalar mark :: digits ∧
      (mark, base) ∈ [('x', 16), ('X', 16), ('b', 2), ('B', 2)] ∧
      scanBased [.scalar '0', .scalar mark] base cause digits = .ok l) ∨
    scanDecimal.finish (Numeral.decimalLexeme t) = .ok l := by
  have decimal (hs : scanDecimal t = .ok l) : scanDecimal.finish (Numeral.decimalLexeme t) = .ok l := by
    unfold scanDecimal at hs
    simp only at hs
    split at hs
    · split at hs
      · cases hs
      · exact hs
    · exact hs
  unfold scanNumber at hs
  split at hs
  · next a b digits =>
    split at hs
    · next hx =>
      simp only [Bool.and_eq_true, Bool.or_eq_true, decide_eq_true_eq] at hx
      obtain ⟨rfl, rfl | rfl⟩ := hx <;> exact .inl ⟨_, _, _, _, rfl, by simp, hs⟩
    · split at hs
      · next hb =>
        simp only [Bool.and_eq_true, Bool.or_eq_true, decide_eq_true_eq] at hb
        obtain ⟨rfl, rfl | rfl⟩ := hb <;> exact .inl ⟨_, _, _, _, rfl, by simp, hs⟩
      · exact .inr (decimal hs)
  · exact .inr (decimal hs)

/-! ## Literals with a base -/

theorem hexValue?_bounds (hv : c.hexValue? = some n) : 48 ≤ c.toNat ∧ c.toNat ≤ 102 := by
  simp only [CodePoint.hexValue?] at hv
  split at hv
  · omega
  · split at hv
    · omega
    · split at hv
      · omega
      · cases hv

/-- A hexadecimal digit has the same value among the digits of a base. -/
theorem digitValue?_hex (hv : c.hexValue? = some n) (hn : n < base) :
    Number.digitValue? base c = some n := by
  have hb := hexValue?_bounds hv
  have hdecimal : (c.decimalValue?.orElse fun _ => c.hexValue?) = some n := by
    rw [hv]
    simp only [CodePoint.decimalValue?, CodePoint.hexValue?] at hv ⊢
    by_cases hd : 48 ≤ c.toNat ∧ c.toNat ≤ 57
    · rw [if_pos hd] at hv
      rw [if_pos (by omega), if_pos hd, hv]
      rfl
    · rw [if_pos (by omega), if_neg hd]
      rfl
  rw [Number.digitValue?, hdecimal]
  simp [hn]

/-- The two readers of digits of a base agree. -/
theorem basedNumber?_of_ofBase? {digits : Text} (h : Numeral.ofBase? base digits = some n) :
    Number.basedNumber? base digits = some n ∧ ∀ c ∈ digits, c.isHexDigit := by
  unfold Numeral.ofBase? at h
  simp only at h
  split at h
  · next hd =>
    obtain ⟨hn, hall⟩ := hd
    have hvalue : ∀ c ∈ digits, ∃ k, c.hexValue? = some k ∧ k < base := fun c hc => by
      simpa [Option.any_eq_true] using List.all_eq_true.1 hall c hc
    have hfold : ∀ a, digits.foldlM (fun n c => (Number.digitValue? base c).map (base * n + ·)) a =
        some (digits.foldl (fun n c => base * n + c.hexValue?.getD 0) a) := by
      clear h hn hall
      induction digits with
      | nil => exact fun a => rfl
      | cons c digits ih =>
        intro a
        obtain ⟨k, hk, hlt⟩ := hvalue c (.head _)
        rw [List.foldlM_cons, digitValue?_hex hk hlt, List.foldl_cons, hk]
        exact ih (fun d hd => hvalue d (.tail _ hd)) _
    refine ⟨?_, fun c hc => ?_⟩
    · rw [Number.basedNumber?, hfold, h]
      exact hn
    · obtain ⟨k, hk, -⟩ := hvalue c hc
      rw [CodePoint.isHexDigit, hk]
      rfl
  · cases h

theorem isBlank_hexDigit (hc : c.isHexDigit) : c.isBlank = false := by
  obtain ⟨n, hn⟩ := Option.isSome_iff_exists.1 hc
  have hb := hexValue?_bounds hn
  have hr : ∀ r ∈ blankRanges, r.2 < 48 ∨ 102 < r.1 := by decide
  simp only [CodePoint.isBlank, Ranges.contains, List.any_eq_false, Bool.and_eq_true,
    decide_eq_true_eq]
  intro r hm
  have := hr r hm
  omega

/-- A literal in base sixteen or two spells its number. -/
theorem ofText?_based {mark : Char} {digits : Text}
    (hm : (mark, base) ∈ [('x', 16), ('X', 16), ('b', 2), ('B', 2)])
    (hv : Numeral.ofBase? base (Numeral.withoutUnderscores digits) = some n) :
    Number.ofText? (.scalar '0' :: .scalar mark :: digits) = some (n : Rat) := by
  obtain ⟨hbased, hhex⟩ := basedNumber?_of_ofBase? hv
  have hdigits : ∀ c ∈ digits, c.isBlank = false := by
    intro c hc
    by_cases hu : c = .scalar '_'
    · rw [hu]
      decide
    · exact isBlank_hexDigit (hhex c (List.mem_filter.2 ⟨hc, by simpa using hu⟩))
  have hmark : (CodePoint.scalar mark).isBlank = false ∧ mark ≠ '_' := by
    simp only [List.mem_cons, Prod.mk.injEq, List.not_mem_nil, or_false] at hm
    obtain ⟨rfl, -⟩ | ⟨rfl, -⟩ | ⟨rfl, -⟩ | ⟨rfl, -⟩ := hm <;> decide
  have htrim : Text.trimBlanks (.scalar '0' :: .scalar mark :: digits) =
      .scalar '0' :: .scalar mark :: digits :=
    trimBlanks_eq_self (List.forall_mem_cons.2 ⟨by decide, List.forall_mem_cons.2 ⟨hmark.1, hdigits⟩⟩)
  have hfilter : List.filter (· ≠ .scalar '_') (.scalar '0' :: .scalar mark :: digits) =
      .scalar '0' :: .scalar mark :: Numeral.withoutUnderscores digits := by
    simp [Numeral.withoutUnderscores, hmark.2]
  have hbase : Number.basedParts? (.scalar '0' :: .scalar mark :: Numeral.withoutUnderscores digits) =
      some (base, false, Numeral.withoutUnderscores digits) := by
    simp only [List.mem_cons, Prod.mk.injEq, List.not_mem_nil, or_false] at hm
    obtain ⟨rfl, rfl⟩ | ⟨rfl, rfl⟩ | ⟨rfl, rfl⟩ | ⟨rfl, rfl⟩ := hm <;> rfl
  simp only [Number.ofText?, htrim, hfilter, hbase,
    trimBlanksEnd_eq_self fun c hc => isBlank_hexDigit (hhex c hc), hbased]
  rfl

/-! ## Decimal literals -/

/-- The digits of a run, underscores left out, are decimal ones if the run is plain. -/
theorem isPlainNumeral_of_digits (ht : (Numeral.withoutUnderscores t).all CodePoint.isDecimal) :
    ∀ c ∈ t, c.isPlainNumeral := by
  intro c hc
  by_cases hu : c = .scalar '_'
  · rw [hu]
    decide
  · exact Number.isPlainNumeral_decimal (List.all_eq_true.1 ht c (List.mem_filter.2 ⟨hc, by simpa using hu⟩))

/-- The digits before the point of a literal: they start with a decimal digit. -/
theorem digitRun_decimal (hc : c.isDigit)
    (hd : (Numeral.withoutUnderscores (Numeral.digitRun (c :: rest)).1).all CodePoint.isDecimal) :
    c.isDecimal ∧ ∃ run, (Numeral.digitRun (c :: rest)).1 = c :: run := by
  have hrun : (Numeral.digitRun (c :: rest)).1 = c :: (Numeral.digitRun rest).1 := by
    rw [Numeral.digitRun, hc, Bool.true_or, if_pos rfl]
  have hu : c ≠ .scalar '_' := by
    rintro rfl
    exact absurd hc (by decide)
  rw [hrun] at hd
  exact ⟨List.all_eq_true.1 hd c (List.mem_filter.2 ⟨.head _, by simpa using hu⟩), _, hrun⟩

/-- A decimal literal spells its number. -/
theorem ofText?_decimal {q : Rat} (hc : c.isDigit)
    (hv : (Numeral.decimalLexeme (c :: rest)).value? = some q) :
    Number.ofText? (Numeral.decimalLexeme (c :: rest)).lexeme = some q := by
  unfold Numeral.Decimal.value? at hv
  simp only at hv
  split at hv
  · next hall =>
    rw [Bool.and_eq_true] at hall
    obtain ⟨hwhole, hplaces⟩ := hall
    obtain hd | ⟨after, -, hd⟩ := Numeral.decimalLexeme_cases (c :: rest)
    all_goals
      rw [hd] at hv hwhole hplaces ⊢
      obtain ⟨hfirst, run, hrun⟩ := digitRun_decimal hc (Number.isReadable_iff.1 hwhole).1
      simp only [hrun, Numeral.Decimal.lexeme] at hv hwhole ⊢
      have hplain := List.forall_mem_cons.1 (isPlainNumeral_of_digits (Number.isReadable_iff.1 hwhole).1)
      have hne : Numeral.withoutUnderscores (c :: run) ≠ [] := by
        rw [Numeral.withoutUnderscores, List.filter_cons_of_pos
          (by simpa using ne_scalar_of_decimal hfirst (d := '_') (by decide))]
        exact List.cons_ne_nil _ _
    · have hread := Number.ofText?_plain false hfirst hplain.2
      rw [Number.unsigned?_whole hwhole hne] at hread
      have hq : ((Numeral.withoutUnderscores (c :: run)).decimalNumber : Rat) = q := by
        simpa [Numeral.withoutUnderscores, Rat.mkRat_one] using hv
      rw [List.append_nil]
      exact hread.trans (congrArg some hq)
    · have hafter : ∀ d ∈ .scalar '.' :: (Numeral.digitRun after).1, d.isPlainNumeral :=
        List.forall_mem_cons.2 ⟨by decide, isPlainNumeral_of_digits (Number.isReadable_iff.1 hplaces).1⟩
      have hread := Number.ofText?_plain false hfirst (List.forall_mem_append.2 ⟨hplain.2, hafter⟩)
      have hsplit : Numeral.withoutUnderscores (c :: run ++ .scalar '.' :: (Numeral.digitRun after).1) =
          Numeral.withoutUnderscores (c :: run) ++
            .scalar '.' :: Numeral.withoutUnderscores (Numeral.digitRun after).1 :=
        List.filter_append _ _
      rw [← List.cons_append, hsplit] at hread
      exact hread.trans ((congrArg _ (Number.unsigned?_pointed hwhole hne hplaces)).trans hv)
  · cases hv

/-! ## Conversion -/

/-- The lexeme of a literal spells the number of the literal. -/
theorem ofText?_literal {file : Option Text} {q : Rat} {span : Span} {last : Token}
    (ht : tokenize t file = .ok [⟨.number q, t, span⟩, last]) : Number.ofText? t = some q := by
  obtain ⟨c, after, rfl, hs⟩ := scanLexeme_of_whole ht rfl
  obtain ⟨hc, hs⟩ := scanLexeme_number hs rfl
  obtain ⟨mark, base, cause, digits, he, hm, hs⟩ | hs := scanNumber_cases hs
  · unfold scanBased at hs
    simp only at hs
    split at hs
    · next n hv =>
      obtain ⟨hq, htext, -⟩ := Lexeme.mk.inj (Except.ok.inj hs)
      rw [he] at htext ⊢
      have hword : digits.takeWhile CodePoint.isWordPart = digits := by simpa using htext
      rw [hword] at hv
      rw [ofText?_based hm hv, TokenKind.number.inj hq]
    · cases hs
  · unfold scanDecimal.finish at hs
    split at hs
    · next q' hv =>
      obtain ⟨hq, htext, -⟩ := Lexeme.mk.inj (Except.ok.inj hs)
      have hread := ofText?_decimal hc hv
      rw [htext] at hread
      rw [hread, TokenKind.number.inj hq]
    · cases hs

/-- A literal that is all of a source converts, as a string, to the number it is read as. -/
theorem literal_converts (I : Interp) {file : Option Text} {q : Rat} {span : Span} {last : Token}
    (ht : tokenize t file = .ok [⟨.number q, t, span⟩, last]) {v : Value} (hv : v.payload = .string t)
    (place : Option Span) (m : Machine) :
    Native.strToNumber.call I [v] place m = .ok (.number q) m :=
  call_strToNumber hv (ofText?_literal ht)

/-- A decimal with digits of two scripts and underscores between them. -/
def groupedDecimal : Text := "١_2.5_0"

theorem literal_converts_grouped : ∃ span last,
    tokenize groupedDecimal none = .ok [⟨.number (25 / 2), groupedDecimal, span⟩, last] ∧
      Native.strToNumber.call (.ofLevel 0) [.string groupedDecimal] none {} = .ok (.number (25 / 2)) {} := by
  have htokens : (tokenize groupedDecimal none).toOption.map (·.map Token.content) =
      some [(.number (25 / 2), groupedDecimal), (.endOfFile, [])] := by
    decide +kernel
  cases ht : tokenize groupedDecimal none with
  | error e => simp [ht, Except.toOption] at htokens
  | ok tokens =>
    rw [ht] at htokens
    obtain ⟨token, last, rfl⟩ : ∃ token last, tokens = [token, last] := by
      have hlength := congrArg List.length (Option.some.inj htokens)
      simpa [List.length_eq_two] using hlength
    obtain ⟨kind, lexeme, span⟩ := token
    obtain ⟨⟨hk, hl⟩, -⟩ : (kind = .number (25 / 2) ∧ lexeme = groupedDecimal) ∧ _ := by
      simpa [Except.toOption, Token.content] using htokens
    subst hk hl
    exact ⟨span, last, rfl, literal_converts _ ht rfl none {}⟩

end ScriptEngine

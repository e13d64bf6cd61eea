import Mathlib.Tactic.Ring
import Mathlib.Tactic.FieldSimp
import ScriptEngine.Proofs.Native.Calls
import ScriptEngine.Proofs.Token.Numeral

/-!
# Plain numerals read as numbers

A plain text is made of decimal digits of any script, points, slashes and underscores. What a text spells
is decided for plain ones that start with a digit: a sign in front of them is applied, their underscores are
left out (`ofText?_plain`), and what remains is read as digits (`unsigned?_whole`), as digits with a point
among them (`unsigned?_pointed`) or as a quotient (`unsigned?_quotient`).
-/

namespace ScriptEngine

variable {t u rest : Text} {c : CodePoint} {n : Nat}

/-! ## Decimal digits -/

theorem decimalValue?_bounds (h : c.decimalValue? = some n) :
    (48 ≤ c.toNat ∧ c.toNat ≤ 57) ∨ ∃ z ∈ decimalZeros, z ≤ c.toNat ∧ c.toNat < z + 10 := by
  simp only [CodePoint.decimalValue?] at h
  split at h
  · split at h
    · next hb => exact .inl hb
    · cases h
  · obtain ⟨z, hz, -⟩ := Option.map_eq_some_iff.1 h
    exact .inr ⟨z, List.mem_of_find?_eq_some hz, by simpa using List.find?_some hz⟩

/-- The decimal digits below 128 are the digits `0` to `9`. -/
theorem isDecimal_bounds (hc : c.isDecimal) :
    (48 ≤ c.toNat ∧ c.toNat ≤ 57) ∨ 128 ≤ c.toNat := by
  obtain ⟨n, hn⟩ := Option.isSome_iff_exists.1 hc
  have hz : ∀ z ∈ decimalZeros, 128 ≤ z := by decide
  refine (decimalValue?_bounds hn).imp_right fun ⟨z, hm, hl, _⟩ => ?_
  have := hz z hm
  omega

theorem ne_scalar_of_decimal {d : Char} (hc : c.isDecimal)
    (hd : d.toNat < 48 ∨ (57 < d.toNat ∧ d.toNat < 128)) : c ≠ .scalar d := by
  rintro rfl
  have hb := isDecimal_bounds hc
  simp only [CodePoint.toNat] at hb
  omega

/-- No decimal digit is a blank. -/
theorem isBlank_decimal (hc : c.isDecimal) : c.isBlank = false := by
  obtain ⟨n, hn⟩ := Option.isSome_iff_exists.1 hc
  have hlow : ∀ r ∈ blankRanges, r.2 < 48 ∨ 57 < r.1 := by decide
  have hhigh : ∀ z ∈ decimalZeros, ∀ r ∈ blankRanges, r.2 < z ∨ z + 10 ≤ r.1 := by decide
  simp only [CodePoint.isBlank, Ranges.contains, List.any_eq_false, Bool.and_eq_true,
    decide_eq_true_eq]
  intro r hr
  rcases decimalValue?_bounds hn with hb | ⟨z, hz, hb⟩
  · have := hlow r hr
    omega
  · have := hhigh z hz r hr
    omega

/-! ## Plain texts -/

/-- Whether a code point may stand in a decimal or a quotient: a decimal digit, a point, a slash or an
underscore. -/
def CodePoint.isPlainNumeral (c : CodePoint) : Bool :=
  c.isDecimal || c = '.' || c = '/' || c = '_'

theorem isPlainNumeral_cases (hc : c.isPlainNumeral) :
    c.isDecimal ∨ c = .scalar '.' ∨ c = .scalar '/' ∨ c = .scalar '_' := by
  simpa [CodePoint.isPlainNumeral, or_assoc] using hc

theorem isBlank_plain (hc : c.isPlainNumeral) : c.isBlank = false := by
  rcases isPlainNumeral_cases hc with hc | rfl | rfl | rfl
  · exact isBlank_decimal hc
  all_goals decide

theorem dropWhile_isBlank_eq_self (ht : ∀ c ∈ t, c.isBlank = false) : t.dropWhile CodePoint.isBlank = t := by
  cases t with
  | nil => rfl
  | cons c t => rw [List.dropWhile_cons_of_neg (by simp [ht c (.head _)])]

/-- Nothing is trimmed from a text without blanks. -/
theorem trimBlanksEnd_eq_self (ht : ∀ c ∈ t, c.isBlank = false) : t.trimBlanksEnd = t := by
  rw [Text.trimBlanksEnd, dropWhile_isBlank_eq_self fun c hc => ht c (List.mem_reverse.1 hc), List.reverse_reverse]

theorem trimBlanks_eq_self (ht : ∀ c ∈ t, c.isBlank = false) : t.trimBlanks = t := by
  rw [Text.trimBlanks, dropWhile_isBlank_eq_self ht, trimBlanksEnd_eq_self ht]

namespace Number

/-! ## Numerals without a sign -/

theorem readDigits_append (ht : t.all CodePoint.isDecimal)
    (hr : ∀ c ∈ rest.head?, c.isDecimal = false) : readDigits (t ++ rest) = (t, rest) := by
  have ht := List.all_eq_true.1 ht
  have hstop : rest.takeWhile CodePoint.isDecimal = [] ∧ rest.dropWhile CodePoint.isDecimal = rest := by
    cases rest with
    | nil => exact ⟨rfl, rfl⟩
    | cons c rest => simp [hr c rfl]
  rw [readDigits, List.takeWhile_append_of_pos ht, List.dropWhile_append_of_pos ht, hstop.1, hstop.2,
    List.append_nil]

theorem readDigits_all (ht : t.all CodePoint.isDecimal) : readDigits t = (t, []) := by
  have h : readDigits (t ++ []) = (t, []) := readDigits_append ht nofun
  rwa [List.append_nil] at h

theorem powTen_neg_natCast (n : Nat) : Binary64.powTen (-(n : Int)) = mkRat 1 (10 ^ n) := by
  cases n with
  | zero => rfl
  | succ n =>
    rw [Binary64.powTen, if_neg (by omega)]
    simp

theorem isReadable_iff : t.isReadable ↔ t.all CodePoint.isDecimal ∧ t.length ≤ Text.digitLimit := by
  simp [Text.isReadable]

theorem decimal?_of_isReadable (ht : t.isReadable) : decimal? t = some t.decimalNumber := if_pos ht

/-- Digits alone are the number they stand for. -/
theorem unsigned?_whole (ht : t.isReadable) (hn : t ≠ []) : unsigned? t = some (t.decimalNumber : Rat) := by
  simp [unsigned?, readDigits_all (isReadable_iff.1 ht).1, hn, exponent?, decimal?_of_isReadable ht, Binary64.powTen]

theorem decimalNumber_append_eq (t u : Text) :
    Text.decimalNumber (t ++ u) = t.decimalNumber * 10 ^ u.length + u.decimalNumber := by
  have shift (n : Nat) (u : Text) : u.foldl (fun n c => 10 * n + c.decimalValue?.getD 0) n =
      n * 10 ^ u.length + u.decimalNumber := by
    induction u generalizing n with
    | nil => simp [Text.decimalNumber]
    | cons c u ih =>
      have hc : Text.decimalNumber (c :: u) = _ := ih (10 * 0 + c.decimalValue?.getD 0)
      rw [List.foldl_cons, ih, hc, List.length_cons, pow_succ]
      ring
  rw [decimalNumber_append, shift]

/-- Digits with a point among them are the number without the point over a power of ten. -/
theorem unsigned?_pointed (ht : t.isReadable) (hn : t ≠ []) (hu : u.isReadable) : unsigned? (t ++ .scalar '.' :: u) =
      some (mkRat (t ++ u).decimalNumber (10 ^ u.length)) := by
  have hp : (CodePoint.scalar '.').isDecimal = false := by decide
  have hr : readDigits (t ++ .scalar '.' :: u) = (t, .scalar '.' :: u) :=
    readDigits_append (isReadable_iff.1 ht).1 (by rintro c ⟨⟩; exact hp)
  have hv : (t.decimalNumber : Rat) + u.decimalNumber * mkRat 1 (10 ^ u.length) =
      mkRat (t ++ u).decimalNumber (10 ^ u.length) := by
    rw [decimalNumber_append_eq, Rat.mkRat_eq_div, Rat.mkRat_eq_div]
    push_cast
    field_simp
  simp only [unsigned?, hr, readDigits_all (isReadable_iff.1 hu).1, hn, false_and, if_false, powTen_neg_natCast,
    exponent?, decimal?_of_isReadable ht, decimal?_of_isReadable hu, Option.bind_eq_bind, Option.bind_some, hv]
  simp [Binary64.powTen]

/-- Digits with more digits after a point than the host reads are no number. -/
theorem unsigned?_pointed_lengthy (ht : t.isReadable) (hn : t ≠ []) (hu : u.all CodePoint.isDecimal)
    (hl : Text.digitLimit < u.length) : unsigned? (t ++ .scalar '.' :: u) = none := by
  have hp : (CodePoint.scalar '.').isDecimal = false := by decide
  have hr : readDigits (t ++ .scalar '.' :: u) = (t, .scalar '.' :: u) :=
    readDigits_append (isReadable_iff.1 ht).1 (by rintro c ⟨⟩; exact hp)
  have hnone : decimal? u = none := if_neg fun h => Nat.not_le.2 hl (isReadable_iff.1 h).2
  simp only [unsigned?, hr, readDigits_all hu, hn, false_and, if_false, exponent?, decimal?_of_isReadable ht, hnone,
    Option.bind_eq_bind, Option.bind_some, Option.bind_none]

/-- Digits, a slash and digits that do not stand for zero are a quotient. -/
theorem unsigned?_quotient (ht : t.isReadable) (hn : t ≠ []) (hu : u.isReadable) (hz : u.decimalNumber ≠ 0) :
    unsigned? (t ++ .scalar '/' :: u) =
      some (mkRat t.decimalNumber u.decimalNumber) := by
  have hp : (CodePoint.scalar '/').isDecimal = false := by decide
  have hr : readDigits (t ++ .scalar '/' :: u) = (t, .scalar '/' :: u) :=
    readDigits_append (isReadable_iff.1 ht).1 (by rintro c ⟨⟩; exact hp)
  have hm : u ≠ [] := by rintro rfl; exact hz rfl
  obtain ⟨c, t, rfl⟩ := List.exists_cons_of_ne_nil hn
  obtain ⟨d, u, rfl⟩ := List.exists_cons_of_ne_nil hm
  simp only [unsigned?, hr, readDigits_all (isReadable_iff.1 hu).1, decimal?_of_isReadable ht,
    decimal?_of_isReadable hu, Option.bind_eq_bind, Option.bind_some, hz, if_false, Rat.mkRat_eq_div, Int.cast_natCast]
  rfl

/-! ## Signs and underscores -/

/-- The sign as it is written in front of a numeral. -/
def minusSign (negative : Bool) : Text := if negative then "-" else []

theorem isPlainNumeral_decimal (hc : c.isDecimal) : c.isPlainNumeral := by
  simp [CodePoint.isPlainNumeral, hc]

/-- A plain text names no base. -/
theorem basedParts?_plain (negative : Bool) (hc : c.isDecimal) (ht : ∀ d ∈ t, d.isPlainNumeral) :
    basedParts? (minusSign negative ++ c :: t) = none := by
  have hminus : c ≠ .scalar '-' := ne_scalar_of_decimal hc (by decide)
  have hmarks {d : Char} {rest : Text} (he : t = .scalar d :: rest) :
      ¬ (d = 'x' ∨ d = 'X') ∧ ¬ (d = 'b' ∨ d = 'B') := by
    have hd := ht _ (he ▸ List.mem_cons_self)
    constructor <;> rintro (rfl | rfl) <;> revert hd <;> decide
  cases negative
  · simp only [minusSign, Bool.false_eq_true, if_false, List.nil_append, basedParts?]
    split
    · next he => exact absurd (List.cons.inj he).1 hminus
    · split
      · next d rest he =>
        obtain ⟨-, he⟩ := List.cons.inj he
        rw [if_neg (hmarks he).1, if_neg (hmarks he).2]
      · rfl
  · simp only [minusSign, if_true]
    show basedParts? (.scalar '-' :: c :: t) = none
    simp only [basedParts?]
    split
    · next d rest he =>
      obtain ⟨-, he⟩ := List.cons.inj he
      rw [if_neg (hmarks he).1, if_neg (hmarks he).2]
    · rfl

theorem readSign_plain (negative : Bool) (hc : c.isDecimal) :
    readSign (minusSign negative ++ c :: t) = (negative, c :: t) := by
  cases negative
  · have hminus : c ≠ .scalar '-' := ne_scalar_of_decimal hc (by decide)
    have hplus : c ≠ .scalar '+' := ne_scalar_of_decimal hc (by decide)
    show readSign (c :: t) = _
    unfold readSign
    split
    · next he => exact absurd (List.cons.inj he).1 hminus
    · next he => exact absurd (List.cons.inj he).1 hplus
    · rfl
  · rfl

theorem mem_minusSign {negative : Bool} (hc : c ∈ minusSign negative) : c = .scalar '-' := by
  cases negative
  · cases hc
  · simpa [minusSign, Text.ofString] using hc

/-- A plain text that starts with a digit, with a minus sign in front of it or not: the underscores are
left out, and the sign is applied. -/
theorem ofText?_plain (negative : Bool) (hc : c.isDecimal) (ht : ∀ d ∈ t, d.isPlainNumeral) :
    ofText? (minusSign negative ++ c :: t) =
      (unsigned? (Numeral.withoutUnderscores (c :: t))).map (withSign negative) := by
  have htrim {u : Text} (hu : ∀ d ∈ u, d.isPlainNumeral) :
      Text.trimBlanks (minusSign negative ++ u) = minusSign negative ++ u := by
    refine trimBlanks_eq_self fun d hd => ?_
    rcases List.mem_append.1 hd with hd | hd
    · rw [mem_minusSign hd]
      decide
    · exact isBlank_plain (hu d hd)
  have hfirst : c ≠ .scalar '_' := ne_scalar_of_decimal hc (by decide)
  have hbare : (minusSign negative ++ c :: t).filter (· ≠ .scalar '_') =
      minusSign negative ++ c :: Numeral.withoutUnderscores t := by
    cases negative <;> simp [minusSign, Text.ofString, Numeral.withoutUnderscores, hfirst]
  have hwithout : Numeral.withoutUnderscores (c :: t) = c :: Numeral.withoutUnderscores t := by
    simp [Numeral.withoutUnderscores, hfirst]
  have hrest : ∀ d ∈ Numeral.withoutUnderscores t, d.isPlainNumeral := fun d hd =>
    ht d (List.mem_of_mem_filter hd)
  have hplain {u : Text} (hu : ∀ d ∈ u, d.isPlainNumeral) : ∀ d ∈ c :: u, d.isPlainNumeral :=
    List.forall_mem_cons.2 ⟨isPlainNumeral_decimal hc, hu⟩
  simp only [ofText?, htrim (hplain ht), hbare, basedParts?_plain negative hc hrest,
    htrim (hplain hrest), readSign_plain negative hc, hwithout]
  cases unsigned? (c :: Numeral.withoutUnderscores t) <;> rfl

end Number

/-! ## Conversion -/

/-- A string converts to the number that it spells. -/
theorem call_strToNumber {I : Interp} {v : Value} {q : Rat} {span : Option Span} {m : Machine}
    (hv : v.payload = .string t) (hq : Number.ofText? t = some q) :
    Native.strToNumber.call I [v] span m = .ok (.number q) m := by
  refine call_of_run rfl ?_
  show Native.parseNumber span v m = _
  rw [Native.parseNumber, Eval.bind_ok (text_run hv), hq]
  rfl

end ScriptEngine

import Mathlib.Tactic.IntervalCases
import Mathlib.Data.Rat.Defs
import Mathlib.Tactic.Ring
import ScriptEngine.Proofs.Token.Reading

/-!
# The texts of numbers read back

* **Digits** (`IsDigits`): texts of the ten digits. The digits of a natural number stand for it
  (`decimalNumber_ofNat`), and zeros in front change nothing.
* **Numerals** (`ReadsAs.whole`, `ReadsAs.pointed`): digits, with or without a point among them, are
  read as one number wherever an item or a numerator may end.
* **Numbers** (`spells_number`): the text of a number is read as its sign and then either one number
  or the quotient of two.
-/

namespace ScriptEngine

variable {t u rest : Text} {c : CodePoint} {ks : List TokenKind}

/-! ## Digits -/

/-- A text of the digits `0` to `9`. -/
def IsDigits (t : Text) : Prop := ∀ c ∈ t, c.isAsciiDigit

theorem isAsciiDigit_iff : c.isAsciiDigit ↔ 48 ≤ c.toNat ∧ c.toNat ≤ 57 := by
  simp [CodePoint.isAsciiDigit]

theorem decimalValue?_digit (hc : c.isAsciiDigit) : c.decimalValue? = some (c.toNat - 48) := by
  have hb := isAsciiDigit_iff.1 hc
  simp only [CodePoint.decimalValue?]
  rw [if_pos (by omega), if_pos hb]

theorem isDecimal_digit (hc : c.isAsciiDigit) : c.isDecimal := by
  simp [CodePoint.isDecimal, decimalValue?_digit hc]

theorem isDigit_digit (hc : c.isAsciiDigit) : c.isDigit := by
  simp [CodePoint.isDigit, isDecimal_digit hc]

theorem ne_scalar_of_digit {d : Char} (hc : c.isAsciiDigit)
    (hd : d.toNat < 48 ∨ 57 < d.toNat) : c ≠ .scalar d := by
  rintro rfl
  have hb := isAsciiDigit_iff.1 hc
  simp only [CodePoint.toNat] at hb
  omega

theorem exists_digitChar (hc : c.isAsciiDigit) : ∃ k < 10, c = .scalar (Nat.digitChar k) := by
  have hb := isAsciiDigit_iff.1 hc
  have hn := CodePoint.ofNat?_toNat c
  refine ⟨c.toNat - 48, by omega, ?_⟩
  generalize c.toNat = n at *
  obtain ⟨hl, hu⟩ := hb
  interval_cases n <;> exact (Option.some.inj hn).symm

theorem IsDigits.append (ht : IsDigits t) (hu : IsDigits u) : IsDigits (t ++ u) := fun c hc =>
  (List.mem_append.1 hc).elim (ht c) (hu c)

theorem IsDigits.all_isDecimal (ht : IsDigits t) : t.all CodePoint.isDecimal :=
  List.all_eq_true.2 fun c hc => isDecimal_digit (ht c hc)

/-- The host reads digits that are not too many. -/
theorem IsDigits.isReadable (ht : IsDigits t) (hl : t.length ≤ Text.digitLimit) : t.isReadable := by
  simp [Text.isReadable, ht.all_isDecimal, hl]

theorem decimalNumber_append (t u : Text) : Text.decimalNumber (t ++ u) =
    u.foldl (fun n c => 10 * n + c.decimalValue?.getD 0) t.decimalNumber := by
  simp [Text.decimalNumber]

theorem ofNat_eq (n : Nat) : Text.ofNat n = (Nat.toDigits 10 n).map .scalar := by
  simp [Text.ofNat, Text.ofString]

theorem isDigits_ofNat (n : Nat) : IsDigits (Text.ofNat n) := by
  intro c hc
  rw [ofNat_eq, List.mem_map] at hc
  obtain ⟨d, hd, rfl⟩ := hc
  exact isAsciiDigit_iff.2 (Char.isDigit_iff_toNat.1
    (Nat.isDigit_of_mem_toDigits (by omega) (by omega) hd))

theorem ofNat_ne_nil (n : Nat) : Text.ofNat n ≠ [] := by
  simp [ofNat_eq, Nat.toDigits_ne_nil]

theorem foldl_decimalValue? {cs : List Char} (hc : IsDigits (cs.map .scalar)) (n : Nat) :
    (cs.map CodePoint.scalar).foldl (fun n c => 10 * n + c.decimalValue?.getD 0) n =
      Nat.ofDigitChars 10 cs n := by
  induction cs generalizing n with
  | nil => simp
  | cons c cs ih =>
    rw [List.map_cons] at hc
    rw [List.map_cons, List.foldl_cons, ih (fun d hd => hc d (.tail _ hd)), Nat.ofDigitChars_cons,
      decimalValue?_digit (hc _ (.head _))]
    rfl

/-- The digits of a number stand for it. -/
theorem decimalNumber_ofNat (n : Nat) : (Text.ofNat n).decimalNumber = n := by
  have hd := isDigits_ofNat n
  rw [ofNat_eq] at hd ⊢
  rw [Text.decimalNumber, foldl_decimalValue? hd, Nat.ofDigitChars_ten_toDigits]

theorem isDigits_replicate (n : Nat) : IsDigits (Text.replicate n '0') := by
  intro c hc
  rw [List.eq_of_mem_replicate hc]
  decide

theorem decimalNumber_zeros_append (n : Nat) (t : Text) :
    Text.decimalNumber (Text.replicate n '0' ++ t) = t.decimalNumber := by
  have hz : (Text.replicate n '0').decimalNumber = 0 := by
    induction n with
    | zero => rfl
    | succ n ih => exact ih
  rw [decimalNumber_append, hz, Text.decimalNumber]

/-! ## Numerals -/

/-- What may follow a numeral: nothing, a slash, or a mark that ends an item of a list. -/
def EndsNumeral (rest : Text) : Prop :=
  ∀ c ∈ rest.head?, c ∈ ([',', ']', '}', '/'] : List Char).map .scalar

theorem Ends.endsNumeral (he : Ends rest) : EndsNumeral rest := by
  intro c hc
  have := he c hc
  simp only [List.map_cons, List.map_nil, List.mem_cons, List.not_mem_nil, or_false] at this ⊢
  tauto

/-- A mark after a numeral belongs to no numeral and starts no word. -/
theorem endsNumeral_head (hr : EndsNumeral (c :: rest)) : c.isDigit = false ∧
    c.isWordStart = false ∧ c ∉ (['.', 'x', 'X', 'b', 'B', '_'] : List Char).map .scalar := by
  have hm : ∀ c ∈ ([',', ']', '}', '/'] : List Char).map CodePoint.scalar, c.isDigit = false ∧
      c.isWordStart = false ∧ c ∉ (['.', 'x', 'X', 'b', 'B', '_'] : List Char).map .scalar := by
    decide
  exact hm c (hr c rfl)

namespace Numeral

/-- A decimal lexeme ends with its digits, or goes on with a point and further digits. -/
theorem decimalLexeme_cases (t : Text) : decimalLexeme t = ⟨(digitRun t).1, [], (digitRun t).2⟩ ∨
    ∃ after, startsWithDigit after ∧
      decimalLexeme t = ⟨(digitRun t).1, .scalar '.' :: (digitRun after).1, (digitRun after).2⟩ := by
  unfold decimalLexeme
  simp only
  split
  · next after _ =>
    split
    · next hd => exact .inr ⟨after, hd, rfl⟩
    · exact .inl rfl
  · exact .inl rfl

theorem digitRun_endsNumeral (hr : EndsNumeral rest) : digitRun rest = ([], rest) := by
  cases rest with
  | nil => rfl
  | cons c rest =>
    obtain ⟨hd, -, hm⟩ := endsNumeral_head hr
    have hu : c ≠ '_' := by rintro rfl; simp at hm
    simp [digitRun, hd, hu]

theorem digitRun_append_digits (ht : IsDigits t) (hr : digitRun rest = ([], rest)) :
    digitRun (t ++ rest) = (t, rest) := by
  induction t with
  | nil => exact hr
  | cons c t ih =>
    rw [List.cons_append, digitRun, ih (fun d hd => ht d (.tail _ hd))]
    simp [isDigit_digit (ht c (.head _))]

theorem decimalLexeme_whole (ht : IsDigits t) (hr : EndsNumeral rest) :
    decimalLexeme (t ++ rest) = ⟨t, [], rest⟩ := by
  simp only [decimalLexeme, digitRun_append_digits ht (digitRun_endsNumeral hr)]
  split
  · exact absurd (endsNumeral_head hr).2.2 (by simp)
  · rfl

theorem decimalLexeme_pointed (ht : IsDigits t) (hu : IsDigits u) (hn : u ≠ [])
    (hr : EndsNumeral rest) :
    decimalLexeme (t ++ .scalar '.' :: (u ++ rest)) = ⟨t, .scalar '.' :: u, rest⟩ := by
  have hd : (CodePoint.scalar '.').isDigit = false := by decide
  have hp : digitRun (.scalar '.' :: (u ++ rest)) = ([], .scalar '.' :: (u ++ rest)) := by
    simp [digitRun, hd]
  have hs : startsWithDigit (u ++ rest) := by
    cases u with
    | nil => exact absurd rfl hn
    | cons c u => exact isDigit_digit (hu c (.head _))
  simp only [decimalLexeme, digitRun_append_digits ht hp, hs, if_true,
    digitRun_append_digits hu (digitRun_endsNumeral hr)]

theorem withoutUnderscores_digits (ht : IsDigits t) : withoutUnderscores t = t := by
  rw [withoutUnderscores, List.filter_eq_self]
  intro c hc
  simpa using ne_scalar_of_digit (ht c hc) (d := '_') (by decide)

theorem value?_digits {d : Decimal} (hw : IsDigits d.whole) (hf : IsDigits (d.fraction.drop 1))
    (hwl : d.whole.length ≤ Text.digitLimit) (hfl : (d.fraction.drop 1).length ≤ Text.digitLimit) :
    d.value? = some (mkRat (d.whole ++ d.fraction.drop 1).decimalNumber
      (10 ^ (d.fraction.drop 1).length)) := by
  simp only [Decimal.value?, withoutUnderscores_digits hw, withoutUnderscores_digits hf, hw.isReadable hwl,
    hf.isReadable hfl]
  rfl

end Numeral

theorem scanDecimal_eq {d : Numeral.Decimal} {q : Rat} (hd : Numeral.decimalLexeme t = d)
    (hr : EndsNumeral d.rest) (hv : d.value? = some q) :
    scanDecimal t = .ok ⟨.number q, d.lexeme, d.rest⟩ := by
  have hf : scanDecimal.finish d = .ok ⟨.number q, d.lexeme, d.rest⟩ := by
    rw [scanDecimal.finish, hv]
  simp only [scanDecimal, hd]
  split
  · next c rest hc =>
    rw [hc] at hr
    simpa [(endsNumeral_head hr).2.1] using hf
  · exact hf

/-- A numeral that does not start as one of another base is a decimal one. -/
theorem scanNumber_eq_scanDecimal
    (hs : ∀ c ∈ t[1]?, c ∉ (['x', 'X', 'b', 'B'] : List Char).map CodePoint.scalar) :
    scanNumber t = scanDecimal t := by
  unfold scanNumber
  split
  · next a b rest =>
    have hb := hs b rfl
    simp only [List.map_cons, List.map_nil, List.mem_cons, List.not_mem_nil, or_false, not_or] at hb
    simp [hb]
  · rfl

theorem not_base_of_digit (hc : c.isAsciiDigit) :
    c ∉ (['x', 'X', 'b', 'B'] : List Char).map CodePoint.scalar := by
  have hd : ∀ d ∈ ['x', 'X', 'b', 'B'], 57 < d.toNat := by simp
  rw [List.mem_map]
  rintro ⟨d, hm, rfl⟩
  exact ne_scalar_of_digit hc (.inr (hd d hm)) rfl

theorem second_digits_append (ht : IsDigits t) (hn : t ≠ [])
    (hr : ∀ c ∈ rest.head?, c ∉ (['x', 'X', 'b', 'B'] : List Char).map CodePoint.scalar) :
    ∀ c ∈ (t ++ rest)[1]?, c ∉ (['x', 'X', 'b', 'B'] : List Char).map CodePoint.scalar := by
  intro c hc
  match t, hn with
  | [a], _ => exact hr c (by simpa [List.head?_eq_getElem?] using hc)
  | a :: b :: t, _ =>
    obtain rfl : b = c := by simpa using hc
    exact not_base_of_digit (ht b (by simp))

theorem scanLexeme_digits (ht : IsDigits t) (hn : t ≠ []) (rest : Text) :
    ∃ c after, t = c :: after ∧ c.isAsciiDigit ∧ scanLexeme c (after ++ rest) = scanNumber (t ++ rest) := by
  obtain ⟨c, after, rfl⟩ := List.exists_cons_of_ne_nil hn
  have hc := ht c (.head _)
  refine ⟨c, after, rfl, hc, ?_⟩
  have h1 := ne_scalar_of_digit hc (d := '"') (by decide)
  have h2 := ne_scalar_of_digit hc (d := '\'') (by decide)
  simp [scanLexeme, h1, h2, isDigit_digit hc]

theorem not_layout_of_digit (hc : c.isAsciiDigit) : c.isLayout = false ∧ c ≠ .scalar '/' := by
  refine ⟨?_, ne_scalar_of_digit hc (by decide)⟩
  simp [CodePoint.isLayout, ne_scalar_of_digit hc (d := ' ') (by decide),
    ne_scalar_of_digit hc (d := '\t') (by decide), ne_scalar_of_digit hc (d := '\r') (by decide),
    ne_scalar_of_digit hc (d := '\n') (by decide)]

theorem ReadsAs.numeral {d : Numeral.Decimal} {q : Rat} (ht : IsDigits t) (hn : t ≠ [])
    (hb : ∀ c ∈ rest.head?, c ∉ (['x', 'X', 'b', 'B'] : List Char).map CodePoint.scalar)
    (hd : Numeral.decimalLexeme (t ++ rest) = d) (hv : d.value? = some q)
    (he : EndsNumeral d.rest) (hr : ReadsAs d.rest ks) : ReadsAs (t ++ rest) (.number q :: ks) := by
  have hs : scanNumber (t ++ rest) = .ok ⟨.number q, d.lexeme, d.rest⟩ := by
    rw [scanNumber_eq_scanDecimal (second_digits_append ht hn hb), scanDecimal_eq hd he hv]
  obtain ⟨c, after, rfl, hc, hl⟩ := scanLexeme_digits ht hn rest
  obtain ⟨hy, hne⟩ := not_layout_of_digit hc
  exact .lexeme (trivia_of_not_layout hy hne) (hl.trans hs) hr

/-- Digits are read as the number they stand for. -/
theorem ReadsAs.whole (ht : IsDigits t) (hn : t ≠ []) (hl : t.length ≤ Text.digitLimit) (he : EndsNumeral rest)
    (hr : ReadsAs rest ks) : ReadsAs (t ++ rest) (.number t.decimalNumber :: ks) := by
  refine .numeral ht hn ?_ (Numeral.decimalLexeme_whole ht he) ?_ he hr
  · intro c hc hm
    obtain ⟨rest, rfl⟩ : ∃ after, rest = c :: after := List.head?_eq_some_iff.1 hc
    have := (endsNumeral_head he).2.2
    simp_all
  · rw [Numeral.value?_digits ht (by simp [IsDigits]) hl (Nat.zero_le _)]
    simp [Rat.mkRat_one]

/-- Digits with a point among them are read as the number they stand for. -/
theorem ReadsAs.pointed (ht : IsDigits t) (hn : t ≠ []) (htl : t.length ≤ Text.digitLimit) (hu : IsDigits u)
    (hm : u ≠ []) (hul : u.length ≤ Text.digitLimit) (he : EndsNumeral rest) (hr : ReadsAs rest ks) :
    ReadsAs (t ++ .scalar '.' :: (u ++ rest))
      (.number (mkRat (t ++ u).decimalNumber (10 ^ u.length)) :: ks) := by
  refine .numeral ht hn ?_ (Numeral.decimalLexeme_pointed ht hu hm he)
    (Numeral.value?_digits ht hu htl hul) he hr
  rintro c ⟨⟩
  decide

/-! ## Numbers -/

/-- A minus sign before digits. -/
theorem ReadsAs.minus (ht : IsDigits t) (hn : t ≠ []) (hr : ReadsAs (t ++ rest) ks) :
    ReadsAs (.scalar '-' :: (t ++ rest)) (.symbol .minus :: ks) := by
  obtain ⟨c, after, rfl⟩ := List.exists_cons_of_ne_nil hn
  obtain ⟨k, hk, rfl⟩ := exists_digitChar (ht c (.head _))
  refine .lexeme (c := .scalar '-') (l := ⟨.symbol .minus, "-", _⟩)
    (trivia_of_not_layout (by decide) (by decide)) ?_ hr
  interval_cases k <;> rfl

/-- A slash before digits. -/
theorem ReadsAs.slash (ht : IsDigits t) (hn : t ≠ []) (hr : ReadsAs (t ++ rest) ks) :
    ReadsAs (.scalar '/' :: (t ++ rest)) (.symbol .slash :: ks) := by
  obtain ⟨c, after, rfl⟩ := List.exists_cons_of_ne_nil hn
  have hc := ht c (.head _)
  refine .lexeme (c := .scalar '/') (l := ⟨.symbol .slash, "/", _⟩)
    (trivia_slash (ne_scalar_of_digit hc (by decide)) (ne_scalar_of_digit hc (by decide))) ?_ hr
  obtain ⟨k, hk, rfl⟩ := exists_digitChar hc
  interval_cases k <;> rfl

namespace Number

/-- Whether the magnitude of a number is written as one numeral, and not as a quotient. -/
def isNumeral (q : Rat) : Bool := q.den = 1 || (decimalPlaces? q.den).isSome

/-- The magnitude of a number. -/
def magnitude (q : Rat) : Rat := mkRat q.num.natAbs q.den

/-- The kinds of the tokens that write the magnitude of a number. -/
def magnitudeKinds (q : Rat) : List TokenKind :=
  if isNumeral q then [.number (magnitude q)]
  else [.number q.num.natAbs, .symbol .slash, .number q.den]

/-- The kinds of the tokens that write a number. -/
def kinds (q : Rat) : List TokenKind :=
  (if q.num < 0 then [.symbol .minus] else []) ++ magnitudeKinds q

/-- The text of the magnitude of a number. -/
def magnitudeText (q : Rat) : Text :=
  if q.den = 1 then Text.ofNat q.num.natAbs
  else match decimalPlaces? q.den with
    | some places => pointed places (q.num.natAbs * 10 ^ places / q.den)
    | none => Text.ofNat q.num.natAbs ++ "/" ++ Text.ofNat q.den

theorem ofInt_eq (n : Int) :
    Text.ofInt n = (if n < 0 then ("-" : Text) else []) ++ Text.ofNat n.natAbs := by
  cases n with
  | ofNat n => simp [Text.ofInt]
  | negSucc n => simp [Text.ofInt, Int.negSucc_lt_zero, Text.ofString]

theorem text_eq (q : Rat) :
    text q = (if q.num < 0 then ("-" : Text) else []) ++ magnitudeText q := by
  unfold text magnitudeText
  split
  · exact ofInt_eq q.num
  · next hd =>
    cases decimalPlaces? q.den with
    | some places => rfl
    | none =>
      show fractionText q = _
      rw [fractionText, if_neg hd, ofInt_eq]
      simp only [List.append_assoc]

/-- Taking out a factor leaves what it does not divide. -/
theorem takeOut_spec {factor n : Nat} (hf : 1 < factor) (hn : 0 < n) :
    n = factor ^ (takeOut factor n).1 * (takeOut factor n).2 ∧ ¬ factor ∣ (takeOut factor n).2 := by
  fun_induction takeOut factor n with
  | case1 n h count rest hrest ih =>
    have hdvd : factor ∣ n := Nat.dvd_of_mod_eq_zero h.2.2
    obtain ⟨hdiv, hstop⟩ := ih (Nat.div_pos (Nat.le_of_dvd hn hdvd) (Nat.zero_lt_of_lt hf))
    rw [hrest] at hdiv hstop
    refine ⟨?_, hstop⟩
    calc n = factor * (n / factor) := (Nat.mul_div_cancel' hdvd).symm
      _ = factor ^ (count + 1) * rest := by rw [hdiv]; ring
  | case2 n h => exact ⟨by simp, fun hdvd => h ⟨hf, hn, Nat.mod_eq_zero_of_dvd hdvd⟩⟩

/-- The two loops split a denominator into its factors of two, its factors of five and the rest. -/
theorem decimalPlaces?_factors {den : Nat} (hz : 0 < den) : ∃ twos fives rest, den = 2 ^ twos * 5 ^ fives * rest ∧
    ¬ 2 ∣ rest ∧ ¬ 5 ∣ rest ∧ decimalPlaces? den = if rest = 1 then some (max twos fives) else none := by
  obtain ⟨htwos, heven⟩ := takeOut_spec (by decide : 1 < 2) hz
  have hodd : 0 < (takeOut 2 den).2 := Nat.pos_of_ne_zero fun h => by
    rw [h, Nat.mul_zero] at htwos
    omega
  obtain ⟨hfives, hrest⟩ := takeOut_spec (by decide : 1 < 5) hodd
  refine ⟨_, _, _, ?_, fun h => heven ?_, hrest, rfl⟩
  · rw [Nat.mul_assoc, ← hfives, ← htwos]
  · rw [hfives]
    exact Nat.dvd_mul_left_of_dvd h _

/-- The places are the larger of the two numbers of factors of a denominator that has no others. -/
theorem decimalPlaces?_eq_some {den places : Nat} (hz : 0 < den) (hp : decimalPlaces? den = some places) :
    ∃ twos fives, den = 2 ^ twos * 5 ^ fives ∧ places = max twos fives := by
  obtain ⟨twos, fives, rest, hden, -, -, hplaces⟩ := decimalPlaces?_factors hz
  rw [hplaces] at hp
  split at hp
  · next hrest => exact ⟨twos, fives, by rw [hden, hrest, Nat.mul_one], (Option.some.inj hp).symm⟩
  · cases hp

/-- The places of a denominator make its fractions whole, and are at least one if it is not one. -/
theorem decimalPlaces?_spec {den places : Nat} (hz : 0 < den) (hd : den ≠ 1)
    (hp : decimalPlaces? den = some places) : den ∣ 10 ^ places ∧ 0 < places := by
  obtain ⟨twos, fives, rfl, rfl⟩ := decimalPlaces?_eq_some hz hp
  refine ⟨?_, Nat.pos_of_ne_zero fun h => ?_⟩
  · rw [show 10 = 2 * 5 from rfl, Nat.mul_pow]
    exact Nat.mul_dvd_mul (Nat.pow_dvd_pow 2 (Nat.le_max_left ..)) (Nat.pow_dvd_pow 5 (Nat.le_max_right ..))
  · obtain ⟨rfl, rfl⟩ := Nat.max_eq_zero_iff.1 h
    exact hd rfl

/-- A number with a point: digits on both sides of it, which together stand for the number without
the point. -/
theorem pointed_spec (places scaled : Nat) (hp : 0 < places) :
    ∃ t u, pointed places scaled = t ++ .scalar '.' :: u ∧ IsDigits t ∧ t ≠ [] ∧ IsDigits u ∧
      u.length = places ∧ (t ++ u).decimalNumber = scaled ∧ t.length ≤ (Text.ofNat scaled).length := by
  have hpos := List.length_pos_iff.2 (ofNat_ne_nil scaled)
  have hd : IsDigits (Text.replicate (places + 1 - (Text.ofNat scaled).length) '0' ++
      Text.ofNat scaled) := (isDigits_replicate _).append (isDigits_ofNat scaled)
  have hv := decimalNumber_zeros_append (places + 1 - (Text.ofNat scaled).length) (Text.ofNat scaled)
  have hl : (Text.replicate (places + 1 - (Text.ofNat scaled).length) '0' ++ Text.ofNat scaled).length =
      max (places + 1) (Text.ofNat scaled).length := by
    simp only [Text.replicate, List.length_append, List.length_replicate]; omega
  rw [decimalNumber_ofNat] at hv
  unfold pointed
  simp only
  generalize Text.replicate _ _ ++ Text.ofNat scaled = padded at *
  refine ⟨padded.take (padded.length - places), padded.drop (padded.length - places), ?_, ?_, ?_, ?_,
    ?_, ?_, ?_⟩
  · rw [List.append_assoc]; rfl
  · exact fun c hc => hd c (List.mem_of_mem_take hc)
  · intro hn
    have := congrArg List.length hn
    simp at this
    omega
  · exact fun c hc => hd c (List.mem_of_mem_drop hc)
  · simp; omega
  · rw [List.take_append_drop, hv]
  · rw [List.length_take]
    omega

theorem mkRat_scaled {n den places : Nat} (hz : den ≠ 0) (hd : den ∣ 10 ^ places) :
    mkRat (n * 10 ^ places / den : Nat) (10 ^ places) = mkRat n den := by
  rw [Rat.mkRat_eq_iff (by positivity) hz]
  have := Nat.div_mul_cancel (Dvd.dvd.mul_left hd n)
  exact_mod_cast this

/-- No whole number that the host writes or reads with the text of a number has too many digits. -/
structure IsBrief (q : Rat) : Prop where
  writable : isWritable q
  places : ∀ places ∈ decimalPlaces? q.den, places ≤ Text.digitLimit

instance (q : Rat) : Decidable (IsBrief q) :=
  decidable_of_iff (isWritable q ∧ ∀ places ∈ decimalPlaces? q.den, places ≤ Text.digitLimit)
    ⟨fun ⟨hw, hp⟩ => ⟨hw, hp⟩, fun ⟨hw, hp⟩ => ⟨hw, hp⟩⟩

theorem isWritable_iff {n : Nat} : Text.isWritable n ↔ (Text.ofNat n).length ≤ Text.digitLimit := by
  simp [Text.isWritable]

theorem isWritable_iff_lt {n : Nat} : Text.isWritable n ↔ n < 10 ^ Text.digitLimit := by
  rw [isWritable_iff, ofNat_eq, List.length_map]
  exact Nat.length_toDigits_le_iff (by decide) (by decide)

/-- The magnitude of a number is read as its kinds say, and starts with digits. -/
theorem readsAs_magnitude {q : Rat} (hq : IsBrief q) : ∃ t u, magnitudeText q = t ++ u ∧ IsDigits t ∧ t ≠ [] ∧
    ∀ rest ks, Ends rest → ReadsAs rest ks →
      ReadsAs (t ++ (u ++ rest)) (magnitudeKinds q ++ ks) := by
  obtain ⟨hwritable, hbrief⟩ := hq
  unfold magnitudeText
  unfold isWritable at hwritable
  split at hwritable
  · next hd =>
    rw [if_pos hd]
    refine ⟨Text.ofNat q.num.natAbs, [], by simp, isDigits_ofNat _, ofNat_ne_nil _, ?_⟩
    intro rest ks he hr
    have := ReadsAs.whole (isDigits_ofNat q.num.natAbs) (ofNat_ne_nil _) (isWritable_iff.1 hwritable)
      he.endsNumeral hr
    simpa [magnitudeKinds, isNumeral, magnitude, hd, decimalNumber_ofNat, Rat.mkRat_one] using this
  · next hd =>
    rw [if_neg hd]
    cases hp : decimalPlaces? q.den with
    | some places =>
      simp only [hp] at hwritable
      obtain ⟨hdvd, hpos⟩ := decimalPlaces?_spec q.den_pos hd hp
      obtain ⟨t, u, he, ht, hn, hu, hl, hv, htl⟩ :=
        pointed_spec places (q.num.natAbs * 10 ^ places / q.den) hpos
      refine ⟨t, .scalar '.' :: u, he, ht, hn, fun rest ks he hr => ?_⟩
      have hm : u ≠ [] := by rintro rfl; simp at hl; omega
      have := ReadsAs.pointed ht hn (htl.trans (isWritable_iff.1 hwritable)) hu hm (hl.le.trans (hbrief _ hp))
        he.endsNumeral hr
      rw [hv, hl, mkRat_scaled q.den_nz hdvd] at this
      simpa [magnitudeKinds, isNumeral, magnitude, hp] using this
    | none =>
      simp only [hp] at hwritable
      obtain ⟨hnum, hden⟩ := Bool.and_eq_true_iff.1 hwritable
      refine ⟨Text.ofNat q.num.natAbs, "/" ++ Text.ofNat q.den, by simp, isDigits_ofNat _,
        ofNat_ne_nil _, fun rest ks he hr => ?_⟩
      have hden := ReadsAs.whole (isDigits_ofNat q.den) (ofNat_ne_nil _) (isWritable_iff.1 hden) he.endsNumeral hr
      have hslash := ReadsAs.slash (isDigits_ofNat q.den) (ofNat_ne_nil _) hden
      have := ReadsAs.whole (isDigits_ofNat q.num.natAbs) (ofNat_ne_nil _) (isWritable_iff.1 hnum)
        (by simp [EndsNumeral]) hslash
      simpa [magnitudeKinds, isNumeral, hd, hp, decimalNumber_ofNat, Text.ofString] using this

end Number

/-- The text of a number is read as its kinds say. -/
theorem spells_number {q : Rat} (hq : Number.IsBrief q) : Spells (Number.text q) (Number.kinds q) := by
  intro rest ks he hr
  obtain ⟨t, u, htu, ht, hn, hm⟩ := Number.readsAs_magnitude hq
  have hm := hm rest ks he hr
  rw [Number.text_eq, htu, Number.kinds]
  split
  · simpa [Text.ofString] using hm.minus ht hn
  · simpa using hm

end ScriptEngine

import Mathlib.Algebra.Order.Field.Basic
import Mathlib.Data.Nat.Factorization.Basic
import Mathlib.Data.Nat.Log
import ScriptEngine.Proofs.Arrays.Predicates
import ScriptEngine.Proofs.Value.Tangles
import ScriptEngine.Proofs.Number.Reading

/-!
# Numbers converted to strings and back

How a number is written (`Number.Written`) is decided by the prime factors of its denominator: by its digits
when it is whole, as a decimal with the fewest places when there are no other prime factors than two and five
(`decimalPlaces?_eq_none_iff`, `decimalPlaces?_least`), and else as a quotient in lowest terms. Each of the
three is read back as the number (`ofText?_written`), unless it is longer than the host reads (`ofText?_lengthy`).
A text with a variant spells no number, as no number has a parenthesis in it (`ofText?_closing`).
-/

namespace ScriptEngine.Number

variable {q : Rat} {t : Text} {n den places : Nat}

/-! ## Decimal places -/

/-- A number of places is enough if the denominator divides its power of ten. -/
theorem whole_scaled_iff (q : Rat) (k : Nat) : (∃ n : Int, q * 10 ^ k = n) ↔ q.den ∣ 10 ^ k := by
  have hden : (q.den : Rat) ≠ 0 := Nat.cast_ne_zero.2 q.den_nz
  have hq : q * q.den = q.num := Rat.mul_den_eq_num q
  constructor
  · rintro ⟨n, hn⟩
    have hmul : (q.num * 10 ^ k : ℤ) = n * q.den := by
      have : (q.num : Rat) * 10 ^ k = n * q.den := by rw [← hn, ← hq]; ring
      exact_mod_cast this
    have hdvd : (q.den : ℤ) ∣ q.num * 10 ^ k := ⟨n, by rw [hmul, mul_comm]⟩
    have hnat : q.den ∣ q.num.natAbs * 10 ^ k := by
      simpa [Int.natAbs_mul, Int.natAbs_pow] using Int.natAbs_dvd_natAbs.2 hdvd
    exact q.reduced.symm.dvd_of_dvd_mul_left hnat
  · rintro ⟨c, hc⟩
    refine ⟨q.num * c, ?_⟩
    have hc : (10 : Rat) ^ k = q.den * c := by exact_mod_cast hc
    rw [hc, ← mul_assoc, hq]
    push_cast
    rfl

/-- The places that are found are the fewest. -/
theorem decimalPlaces?_least (hz : 0 < den) (h : decimalPlaces? den = some places) (k : Nat) :
    den ∣ 10 ^ k ↔ places ≤ k := by
  obtain ⟨twos, fives, rfl, rfl⟩ := decimalPlaces?_eq_some hz h
  have hten : 10 ^ k = 2 ^ k * 5 ^ k := by rw [← Nat.mul_pow]
  have hcoprime (a b : Nat) : Nat.Coprime (2 ^ a) (5 ^ b) := Nat.Coprime.pow a b (by decide)
  constructor
  · intro hk
    rw [hten] at hk
    have htwos : 2 ^ twos ∣ 2 ^ k := (hcoprime twos k).dvd_of_dvd_mul_right ((dvd_mul_right ..).trans hk)
    have hfives : 5 ^ fives ∣ 5 ^ k := (hcoprime k fives).symm.dvd_of_dvd_mul_left ((dvd_mul_left ..).trans hk)
    exact max_le ((Nat.pow_dvd_pow_iff_le_right (by decide)).1 htwos)
      ((Nat.pow_dvd_pow_iff_le_right (by decide)).1 hfives)
  · intro hk
    rw [hten]
    exact Nat.mul_dvd_mul (pow_dvd_pow 2 ((le_max_left ..).trans hk)) (pow_dvd_pow 5 ((le_max_right ..).trans hk))

/-- There are no decimal places if there is a prime factor other than two and five. -/
theorem decimalPlaces?_eq_none_iff (hz : 0 < den) :
    decimalPlaces? den = none ↔ ∃ p, p.Prime ∧ p ∣ den ∧ p ≠ 2 ∧ p ≠ 5 := by
  obtain ⟨twos, fives, rest, hden, heven, hfives, hplaces⟩ := decimalPlaces?_factors hz
  constructor
  · intro hnone
    have hrest : rest ≠ 1 := by
      rintro rfl
      simp [hplaces] at hnone
    obtain ⟨p, hp, hd⟩ := Nat.exists_prime_and_dvd hrest
    exact ⟨p, hp, hden ▸ Nat.dvd_mul_left_of_dvd hd _, fun h => heven (h ▸ hd), fun h => hfives (h ▸ hd)⟩
  · rintro ⟨p, hp, hd, h2, h5⟩
    by_contra hsome
    obtain ⟨places, hsome⟩ := Option.ne_none_iff_exists'.1 hsome
    obtain ⟨twos, fives, rfl, -⟩ := decimalPlaces?_eq_some hz hsome
    rcases hp.dvd_mul.1 hd with h | h
    · exact h2 ((Nat.prime_dvd_prime_iff_eq hp Nat.prime_two).1 (hp.dvd_of_dvd_pow h))
    · exact h5 ((Nat.prime_dvd_prime_iff_eq hp Nat.prime_five).1 (hp.dvd_of_dvd_pow h))

/-! ## Digits around a point -/

/-- The last digits of a number split off. -/
theorem ofNat_split (h : 10 ^ places ≤ n) :
    ∃ u, Text.ofNat n = Text.ofNat (n / 10 ^ places) ++ u ∧ u.length = places := by
  induction places generalizing n with
  | zero => exact ⟨[], by simp, rfl⟩
  | succ places ih =>
    have hten : 10 ≤ n := (Nat.le_self_pow (Nat.succ_ne_zero places) 10).trans h
    obtain ⟨u, hu, hl⟩ := ih (n := n / 10) ((Nat.le_div_iff_mul_le (by decide)).2 (by rwa [← pow_succ]))
    refine ⟨u ++ [.scalar (n % 10).digitChar], ?_, by simp [hl]⟩
    have hlast : Text.ofNat n = Text.ofNat (n / 10) ++ [.scalar (n % 10).digitChar] := by
      simp [ofNat_eq, Nat.toDigits_of_base_le (by decide) hten]
    rw [hlast, hu, Nat.div_div_eq_div_mul, ← pow_succ', List.append_assoc]

/-- A number with a point: in front of it the digits of the quotient, after it one digit for each place. -/
theorem pointed_eq (hp : 0 < places) (scaled : Nat) :
    ∃ u, pointed places scaled = Text.ofNat (scaled / 10 ^ places) ++ .scalar '.' :: u ∧ u.length = places := by
  have hlength : (Text.ofNat scaled).length ≤ places ↔ scaled < 10 ^ places := by
    rw [ofNat_eq, List.length_map]
    exact Nat.length_toDigits_le_iff (by decide) hp
  unfold pointed
  simp only
  by_cases hlt : scaled < 10 ^ places
  · have hl := hlength.2 hlt
    have hone : (places + 1 - (Text.ofNat scaled).length) =
        places - (Text.ofNat scaled).length + 1 := by omega
    rw [Nat.div_eq_of_lt hlt]
    refine ⟨Text.replicate (places - (Text.ofNat scaled).length) '0' ++ Text.ofNat scaled, ?_, ?_⟩
    · rw [hone]
      simp only [Text.replicate, List.replicate_succ, List.cons_append, List.length_cons, List.length_append,
        List.length_replicate, Nat.sub_add_cancel hl, Nat.add_sub_cancel_left, List.take_succ_cons, List.take_zero,
        List.drop_succ_cons, List.drop_zero]
      rfl
    · simp [Text.replicate]
      omega
  · have hl : places < (Text.ofNat scaled).length := by rwa [← not_le, hlength]
    obtain ⟨u, hu, hul⟩ := ofNat_split (not_lt.1 hlt)
    refine ⟨u, ?_, hul⟩
    have hzero : places + 1 - (Text.ofNat scaled).length = 0 := by omega
    rw [hzero]
    have hcut : (Text.ofNat scaled).length - places = (Text.ofNat (scaled / 10 ^ places)).length := by
      rw [hu, List.length_append, hul, Nat.add_sub_cancel]
    simp only [Text.replicate, List.replicate_zero, List.nil_append, hcut]
    rw [hu, List.take_left, List.drop_left]
    simp [Text.ofString]

/-! ## How a number is written -/

/-- The ways to write a number: whole, by its digits; if there are no other prime factors in the denominator
than two and five, by the digits of its whole part and of as many places as are needed; or in lowest terms. -/
inductive Written (q : Rat) : Text → Prop
  | whole (hq : q.den = 1) : Written q (minusSign (q < 0) ++ Text.ofNat q.num.natAbs)
  | decimal {places : Text} (hq : q.den ≠ 1) (hprimes : ∀ p, p.Prime → p ∣ q.den → p = 2 ∨ p = 5)
      (hdigits : IsDigits places) (hfewest : ∀ k, (∃ n : Int, q * 10 ^ k = n) ↔ places.length ≤ k)
      (hexact : |q| = (q.num.natAbs / q.den : Nat) + (places.decimalNumber : Rat) / 10 ^ places.length) :
      Written q (minusSign (q < 0) ++ (Text.ofNat (q.num.natAbs / q.den) ++ .scalar '.' :: places))
  | quotient (hq : ∃ p, p.Prime ∧ p ∣ q.den ∧ p ≠ 2 ∧ p ≠ 5) :
      Written q (minusSign (q < 0) ++ (Text.ofNat q.num.natAbs ++ .scalar '/' :: Text.ofNat q.den))

theorem magnitude_eq_abs (q : Rat) : magnitude q = |q| := by
  have hq : |q| = |(q.num : Rat)| / |(q.den : Rat)| := by rw [← abs_div, Rat.num_div_den]
  rw [magnitude, Rat.mkRat_eq_div, hq, Nat.abs_cast]
  push_cast
  rfl

theorem withSign_abs (q : Rat) : withSign (q < 0) |q| = q := by
  rw [withSign]
  by_cases h : q < 0
  · simp [h, abs_of_neg h]
  · simp [h, abs_of_nonneg (not_lt.1 h)]

/-- The text of a number as its sign and its magnitude. -/
theorem text_eq_minusSign (q : Rat) : text q = minusSign (q < 0) ++ magnitudeText q := by
  rw [text_eq, minusSign]
  simp only [Rat.num_neg, decide_eq_true_eq]

theorem written_text (q : Rat) : Written q (text q) := by
  rw [text_eq_minusSign, magnitudeText]
  split
  · next hq => exact .whole hq
  · next hq =>
    split
    · next places hplaces =>
      obtain ⟨hdvd, hpos⟩ := decimalPlaces?_spec q.den_pos hq hplaces
      obtain ⟨t, u, he, -, -, hu, hl, hv, -⟩ := pointed_spec places (q.num.natAbs * 10 ^ places / q.den) hpos
      obtain ⟨u', he', hl'⟩ := pointed_eq hpos (q.num.natAbs * 10 ^ places / q.den)
      obtain ⟨rfl, htail⟩ := List.append_inj' (he.symm.trans he') (by simp [hl, hl'])
      obtain rfl := (List.cons.inj htail).2
      have hwhole : q.num.natAbs * 10 ^ places / q.den / 10 ^ places = q.num.natAbs / q.den := by
        rw [Nat.div_div_eq_div_mul, Nat.mul_div_mul_right _ _ (by positivity)]
      rw [he]
      rw [hwhole] at hv ⊢
      refine .decimal hq ?_ hu (fun k => ?_) ?_
      · intro p hp hd
        by_contra hne
        rw [not_or] at hne
        have hnone := (decimalPlaces?_eq_none_iff q.den_pos).2 ⟨p, hp, hd, hne⟩
        exact Option.some_ne_none _ (hplaces.symm.trans hnone)
      · rw [whole_scaled_iff, hl, decimalPlaces?_least q.den_pos hplaces]
      · have hscaled := mkRat_scaled (n := q.num.natAbs) q.den_nz hdvd
        rw [decimalNumber_append_eq, decimalNumber_ofNat] at hv
        rw [← magnitude_eq_abs, magnitude, ← hscaled, ← hv, hl, Rat.mkRat_eq_div]
        generalize q.num.natAbs / q.den = w
        push_cast
        field_simp
    · next hnone =>
      rw [List.append_assoc]
      exact .quotient ((decimalPlaces?_eq_none_iff q.den_pos).1 hnone)

/-! ## Reading a number back -/

theorem isReadable_ofNat (hn : Text.isWritable n) : (Text.ofNat n).isReadable :=
  (isDigits_ofNat n).isReadable (isWritable_iff.1 hn)

theorem isWritable_decimal (hq : q.den ≠ 1) (hp : decimalPlaces? q.den = some places) :
    isWritable q = Text.isWritable (q.num.natAbs * 10 ^ places / q.den) := by
  rw [isWritable, if_neg hq, hp]
  rfl

/-- The whole part of a decimal has no more digits than all of it. -/
theorem isWritable_whole (hq : q.den ≠ 1) (hp : decimalPlaces? q.den = some places) (hw : isWritable q) :
    Text.isWritable (q.num.natAbs / q.den) := by
  rw [isWritable_decimal hq hp] at hw
  refine isWritable_iff_lt.2 (lt_of_le_of_lt ?_ (isWritable_iff_lt.1 hw))
  exact Nat.div_le_div_right (Nat.le_mul_of_pos_right _ (Nat.pow_pos (by decide)))

/-- The places of a decimal are those that its denominator asks for. -/
theorem Written.places_eq {u : Text} (hprimes : ∀ p, p.Prime → p ∣ q.den → p = 2 ∨ p = 5)
    (hfewest : ∀ k, (∃ n : Int, q * 10 ^ k = n) ↔ u.length ≤ k) : decimalPlaces? q.den = some u.length := by
  cases hplaces : decimalPlaces? q.den with
  | none =>
    obtain ⟨p, hp, hd, h2, h5⟩ := (decimalPlaces?_eq_none_iff q.den_pos).1 hplaces
    rcases hprimes p hp hd with h | h
    · exact absurd h h2
    · exact absurd h h5
  | some places =>
    have hsame (k : Nat) : places ≤ k ↔ u.length ≤ k := by
      rw [← decimalPlaces?_least q.den_pos hplaces, ← whole_scaled_iff, hfewest]
    rw [le_antisymm ((hsame _).2 le_rfl) ((hsame _).1 le_rfl)]

/-- Digits with plain text after them, without underscores, are read with their sign. -/
theorem ofText?_signed {negative : Bool} {u : Text} (ht : IsDigits t) (hn : t ≠ [])
    (hu : ∀ c ∈ u, c.isPlainNumeral ∧ c ≠ .scalar '_') :
    ofText? (minusSign negative ++ (t ++ u)) = (unsigned? (t ++ u)).map (withSign negative) := by
  obtain ⟨c, t, rfl⟩ := List.exists_cons_of_ne_nil hn
  have hdigit : ∀ d ∈ c :: t, d.isPlainNumeral ∧ d ≠ .scalar '_' := fun d hd =>
    ⟨isPlainNumeral_decimal (isDecimal_digit (ht d hd)), ne_scalar_of_digit (ht d hd) (by decide)⟩
  have hall : ∀ d ∈ c :: (t ++ u), d.isPlainNumeral ∧ d ≠ .scalar '_' := by
    rw [← List.cons_append]
    exact List.forall_mem_append.2 ⟨hdigit, hu⟩
  have hbare : Numeral.withoutUnderscores (c :: (t ++ u)) = c :: (t ++ u) :=
    List.filter_eq_self.2 fun d hd => by simpa using (hall d hd).2
  rw [List.cons_append, ofText?_plain negative (isDecimal_digit (ht c (.head _)))
    fun d hd => (hall d (.tail _ hd)).1, hbare]

theorem plain_of_isDigits {u : Text} (hu : IsDigits u) : ∀ c ∈ u, c.isPlainNumeral ∧ c ≠ .scalar '_' := fun c hc =>
  ⟨isPlainNumeral_decimal (isDecimal_digit (hu c hc)), ne_scalar_of_digit (hu c hc) (by decide)⟩

/-- Whichever way a number is written, it is read back if it is not too long. -/
theorem ofText?_written (h : Written q t) (hb : IsBrief q) : ofText? t = some q := by
  have signed {t u : Text} {r : Rat} (ht : IsDigits t) (hn : t ≠ [])
      (hu : ∀ c ∈ u, c.isPlainNumeral ∧ c ≠ .scalar '_') (hr : unsigned? (t ++ u) = some r) (hq : r = |q|) :
      ofText? (minusSign (q < 0) ++ (t ++ u)) = some q := by
    rw [ofText?_signed ht hn hu, hr, Option.map_some, hq, withSign_abs]
  have hw := hb.writable
  cases h with
  | whole hq =>
    rw [isWritable, if_pos hq] at hw
    have hr := unsigned?_whole (isReadable_ofNat hw) (ofNat_ne_nil _)
    have hread := signed (isDigits_ofNat _) (ofNat_ne_nil _) (u := []) nofun (by rwa [List.append_nil]) (by
      rw [decimalNumber_ofNat, ← magnitude_eq_abs, magnitude, hq, Rat.mkRat_one]
      rfl)
    rwa [List.append_nil] at hread
  | @decimal places hq hprimes hdigits hfewest hexact =>
    have hp := Written.places_eq hprimes hfewest
    refine signed (isDigits_ofNat _) (ofNat_ne_nil _)
      (List.forall_mem_cons.2 ⟨by decide, plain_of_isDigits hdigits⟩)
      (unsigned?_pointed (isReadable_ofNat (isWritable_whole hq hp hw)) (ofNat_ne_nil _)
        (hdigits.isReadable (hb.places _ hp))) ?_
    rw [hexact, decimalNumber_append_eq, decimalNumber_ofNat, Rat.mkRat_eq_div]
    generalize q.num.natAbs / q.den = w
    push_cast
    field_simp
  | quotient hq =>
    have hone : q.den ≠ 1 := by
      intro hone
      obtain ⟨p, hp, hd, -⟩ := hq
      exact hp.one_lt.ne' (Nat.dvd_one.1 (hone ▸ hd))
    rw [isWritable, if_neg hone, (decimalPlaces?_eq_none_iff q.den_pos).2 hq] at hw
    obtain ⟨hnum, hdenominator⟩ := Bool.and_eq_true_iff.1 hw
    have hden : (Text.ofNat q.den).decimalNumber ≠ 0 := by
      rw [decimalNumber_ofNat]
      exact q.den_nz
    refine signed (isDigits_ofNat _) (ofNat_ne_nil _)
      (List.forall_mem_cons.2 ⟨by decide, plain_of_isDigits (isDigits_ofNat _)⟩)
      (unsigned?_quotient (isReadable_ofNat hnum) (ofNat_ne_nil _) (isReadable_ofNat hdenominator) hden) ?_
    rw [decimalNumber_ofNat, decimalNumber_ofNat, ← magnitude_eq_abs, magnitude]

/-- A decimal with more places than the host reads is not read back. -/
theorem ofText?_lengthy (h : Written q t) (hw : isWritable q) (hb : ¬ IsBrief q) : ofText? t = none := by
  obtain ⟨places, hp, hlong⟩ : ∃ places, decimalPlaces? q.den = some places ∧ Text.digitLimit < places := by
    by_contra hall
    push Not at hall
    exact hb ⟨hw, hall⟩
  cases h with
  | whole hq =>
    have hone : decimalPlaces? 1 = some 0 := by decide +kernel
    rw [hq, hone] at hp
    cases hp
    exact absurd hlong (by decide)
  | @decimal u hq hprimes hdigits hfewest hexact =>
    obtain rfl : places = u.length := Option.some.inj (hp.symm.trans (Written.places_eq hprimes hfewest))
    rw [ofText?_signed (isDigits_ofNat _) (ofNat_ne_nil _)
      (List.forall_mem_cons.2 ⟨by decide, plain_of_isDigits hdigits⟩),
      unsigned?_pointed_lengthy (isReadable_ofNat (isWritable_whole hq hp hw)) (ofNat_ne_nil _)
        (hdigits.all_isDecimal) hlong]
    rfl
  | quotient hq => cases hp.symm.trans ((decimalPlaces?_eq_none_iff q.den_pos).2 hq)

/-! ## Texts that spell no number -/

/-- No number has a closing parenthesis in its text. -/
def closing : CodePoint := .scalar ')'

theorem mem_dropWhile {p : CodePoint → Bool} {c : CodePoint} (hp : p c = false) (ht : c ∈ t) : c ∈ t.dropWhile p := by
  rw [← List.takeWhile_append_dropWhile (p := p) (l := t), List.mem_append] at ht
  refine ht.resolve_left fun h => ?_
  rw [List.all_eq_true.1 List.all_takeWhile c h] at hp
  cases hp

theorem closing_mem_trimBlanksEnd (ht : closing ∈ t) : closing ∈ t.trimBlanksEnd :=
  List.mem_reverse.2 (mem_dropWhile (by decide) (List.mem_reverse.2 ht))

theorem closing_mem_trimBlanks (ht : closing ∈ t) : closing ∈ t.trimBlanks :=
  closing_mem_trimBlanksEnd (mem_dropWhile (by decide) ht)

theorem closing_mem_readDigits (ht : closing ∈ t) : closing ∈ (readDigits t).2 := mem_dropWhile (by decide) ht

theorem closing_mem_readSign (ht : closing ∈ t) : closing ∈ (readSign t).2 := by
  unfold readSign
  split
  · exact (List.mem_cons.1 ht).resolve_left (by decide)
  · exact (List.mem_cons.1 ht).resolve_left (by decide)
  · exact ht

theorem basedNumber?_closing {base : Nat} (ht : closing ∈ t) : basedNumber? base t = none := by
  have hdigit : digitValue? base closing = none := by
    rw [digitValue?, show closing.decimalValue? = none from by decide, show closing.hexValue? = none from by decide]
    rfl
  have hfold (n : Nat) : t.foldlM (fun n c => (digitValue? base c).map (base * n + ·)) n = none := by
    induction t generalizing n with
    | nil => cases ht
    | cons c t ih =>
      rw [List.foldlM_cons]
      obtain rfl | ht := List.mem_cons.1 ht
      · rw [hdigit]
        rfl
      · cases (digitValue? base c).map (base * n + ·) with
        | none => rfl
        | some k => exact ih ht k
  cases t with
  | nil => cases ht
  | cons c t => exact hfold 0

theorem closing_mem_basedParts {base : Nat} {negative : Bool} {digits : Text}
    (hb : basedParts? t = some (base, negative, digits)) (ht : closing ∈ t) : closing ∈ digits := by
  have hmark {c : Char} {rest : Text} (hc : c = 'x' ∨ c = 'X' ∨ c = 'b' ∨ c = 'B')
      (hm : closing ∈ .scalar '0' :: .scalar c :: rest) : closing ∈ rest := by
    have hrest := (List.mem_cons.1 hm).resolve_left (by decide)
    refine (List.mem_cons.1 hrest).resolve_left ?_
    obtain rfl | rfl | rfl | rfl := hc <;> decide
  unfold basedParts? at hb
  simp only at hb
  split at hb
  · have hrest := (List.mem_cons.1 ht).resolve_left (by decide)
    split at hb
    · split at hb
      · next hx =>
        cases hb
        exact hmark (hx.imp_right .inl) hrest
      · split at hb
        · next hx =>
          cases hb
          exact hmark (.inr (.inr hx)) hrest
        · cases hb
    · cases hb
  · split at hb
    · split at hb
      · next hx =>
        cases hb
        exact hmark (hx.imp_right .inl) ht
      · split at hb
        · next hx =>
          cases hb
          exact hmark (.inr (.inr hx)) ht
        · cases hb
    · cases hb

theorem exponent?_closing (ht : closing ∈ t) : exponent? t = none := by
  unfold exponent?
  split
  · cases ht
  · next c rest =>
    split
    · next he =>
      have hrest : closing ∈ rest := (List.mem_cons.1 ht).resolve_left fun h => by
        obtain rfl : ')' = c := CodePoint.scalar.inj h
        revert he
        decide
      have hdigits := closing_mem_readDigits (closing_mem_readSign hrest)
      simp only
      split
      · next hr =>
        rw [hr] at hdigits
        cases hdigits
      · rfl
    · rfl
  · rfl

theorem unsigned?_closing (ht : closing ∈ t) : unsigned? t = none := by
  have hrest := closing_mem_readDigits ht
  unfold unsigned?
  revert hrest
  generalize readDigits t = r
  obtain ⟨digits, rest⟩ := r
  intro hrest
  dsimp only at hrest ⊢
  split
  · next denominator =>
    have hdigits := closing_mem_readDigits ((List.mem_cons.1 hrest).resolve_left (by decide))
    split
    · next hr =>
      rw [hr] at hdigits
      cases hdigits
    · rfl
  · next rest' =>
    have hdigits := closing_mem_readDigits ((List.mem_cons.1 hrest).resolve_left (by decide))
    split
    · rfl
    · rw [exponent?_closing hdigits]
      rfl
  · split
    · rfl
    · rw [exponent?_closing hrest]
      rfl

/-- A text with a closing parenthesis spells no number. -/
theorem ofText?_closing (ht : closing ∈ t) : ofText? t = none := by
  have hbare : closing ∈ (Text.trimBlanks t).filter (· ≠ .scalar '_') :=
    List.mem_filter.2 ⟨closing_mem_trimBlanks ht, by decide⟩
  unfold ofText?
  simp only
  generalize (Text.trimBlanks t).filter (· ≠ .scalar '_') = bare at hbare
  split
  · next base negative digits hb =>
    rw [basedNumber?_closing (closing_mem_trimBlanksEnd (closing_mem_basedParts hb hbare))]
    rfl
  · rw [unsigned?_closing (closing_mem_readSign (closing_mem_trimBlanks hbare))]
    rfl

end ScriptEngine.Number

namespace ScriptEngine

variable {v w : Value} {x : Number} {I : Interp} {span place : Option Span} {m m' : Machine}

/-! ## Conversion of numbers -/

/-- A number that the host writes is converted to its text, with its variant if it carries one. -/
theorem call_toText (hv : v.payload = .number x) (hx : Number.isWritable x.value) :
    Native.toText.call I [v] span m = .ok (.string (v.labelled (Number.text x.value))) m := by
  have hbare : ¬ v.IsBare := Heap.not_isBare_of_payload (by rw [hv]; exact nofun)
  have htext : m.heap.plainText? (v.quotes false) v.payload = some (Number.text x.value) := by
    rw [hv]
    exact if_pos hx
  exact call_toText_of_display (Heap.render_plain hbare htext)

/-- A number that the host does not write is not converted. -/
theorem call_toText_tooLong (hv : v.payload = .number x) (hx : ¬ Number.isWritable x.value) :
    Native.toText.call I [v] span m = Native.toText.reject span .native (": " ++ Text.digitLimitMessage none) m := by
  have hdisplay : Eval.display v m = .error (.crashed Unprintable.tooLong.failure) m :=
    Eval.readText_error (Heap.render_tooLong hv hx)
  have hrun : Native.toText.run I [v] span m = .error (.crashed Unprintable.tooLong.failure) m :=
    Eval.bind_error hdisplay
  exact call_of_crash rfl rfl hrun

/-- A text that spells no number is not converted. -/
theorem call_strToNumber_none {t : Text} (ht : Number.ofText? t = none) (I : Interp) (place : Option Span)
    (m : Machine) : ∃ f, Native.strToNumber.call I [.string t] place m = .error (.failed (.fault f)) m := by
  have hrun : Native.strToNumber.run I [.string t] place m = Eval.failWith .value
      ("cannot convert " ++ Text.quoted t ++ " to a number") place m := by
    show Native.parseNumber place (.string t) m = _
    rw [Native.parseNumber, Eval.bind_ok (text_run rfl), ht]
  exact ⟨_, call_of_fault rfl hrun⟩

/-- The number of the text of a value. -/
def roundTrip (I : Interp) (v : Value) (span place : Option Span) : Eval Value := do
  Native.strToNumber.call I [← Native.toText.call I [v] span] place

theorem roundTrip_eq (hv : v.payload = .number x) (hx : Number.isWritable x.value) : roundTrip I v span place m =
    Native.strToNumber.call I [.string (v.labelled (Number.text x.value))] place m :=
  Eval.bind_ok (call_toText hv hx)

/-- The text of a number is read as a number only if the number carries no variant and is not too long. -/
theorem of_roundTrip (hv : v.payload = .number x) (hr : roundTrip I v span place m = .ok w m') :
    v.variant? = none ∧ Number.IsBrief x.value := by
  have hx : Number.isWritable x.value := by
    by_contra hx
    rw [roundTrip, Eval.bind_error (call_toText_tooLong hv hx)] at hr
    cases hr
  rw [roundTrip_eq hv hx] at hr
  have hread : Number.ofText? (v.labelled (Number.text x.value)) ≠ none := fun hnone => by
    obtain ⟨f, hf⟩ := call_strToNumber_none hnone I place m
    rw [hf] at hr
    cases hr
  cases hvariant : v.variant? with
  | some variant =>
    have hclosing : Number.closing ∈ v.labelled (Number.text x.value) := by
      rw [Value.labelled, hvariant]
      exact List.mem_append_right _ (.head _)
    exact absurd (Number.ofText?_closing hclosing) hread
  | none =>
    rw [Value.labelled, hvariant] at hread
    by_contra hb
    exact hread (Number.ofText?_lengthy (Number.written_text _) hx fun h => hb ⟨rfl, h⟩)

/-- A number is converted to a string in the way that its denominator asks for, with its variant if it carries one,
unless the host does not write it. Converting the string back gives a number that is equal to it exactly if it carries
no variant and is no longer than the host writes and reads. -/
theorem number_text_round_trips (I : Interp) (hv : v.payload = .number x) (span place : Option Span) (m : Machine) :
    Number.Written x.value (Number.text x.value) ∧
      Native.toText.call I [v] span m = (if Number.isWritable x.value
        then .ok (.string (v.labelled (Number.text x.value))) m
        else Native.toText.reject span .native (": " ++ Text.digitLimitMessage none) m) ∧
      ((∃ w m', roundTrip I v span place m = .ok w m' ∧ m'.heap.equal w v) ↔
        v.variant? = none ∧ Number.IsBrief x.value) := by
  refine ⟨Number.written_text _, ?_, fun ⟨w, m', hr, _⟩ => of_roundTrip hv hr, ?_⟩
  · split
    · next hx => exact call_toText hv hx
    · next hx => exact call_toText_tooLong hv hx
  · rintro ⟨hvariant, hb⟩
    refine ⟨.number x.value, m, ?_, ?_⟩
    · rw [roundTrip_eq hv hb.writable, Value.labelled, hvariant]
      exact call_strToNumber rfl (Number.ofText?_written (Number.written_text _) hb)
    · rw [Heap.equal_number hv]
      exact decide_eq_true ⟨hvariant, rfl⟩

theorem number_text_round_trips_negative :
    (Value.number (-1 / 40)).payload = .number (.fraction (-1 / 40)) ∧
      Number.Written (-1 / 40) "-0.025" ∧
      Native.toText.call (.ofLevel 0) [.number (-1 / 40)] none {} = .ok (.string "-0.025") {} ∧
      ∃ w m', roundTrip (.ofLevel 0) (.number (-1 / 40)) none none {} = .ok w m' ∧
        m'.heap.equal w (.number (-1 / 40)) := by
  have hp : (Value.number (-1 / 40)).payload = .number (.fraction (-1 / 40)) := by decide +kernel
  have ht : Number.text (-1 / 40) = "-0.025" := by decide +kernel
  have hbrief : Number.IsBrief (-1 / 40) := by decide +kernel
  obtain ⟨hwritten, htext, hread⟩ := number_text_round_trips (.ofLevel 0) hp none none {}
  rw [show (Number.fraction (-1 / 40)).value = -1 / 40 from rfl] at hwritten htext hread
  rw [if_pos hbrief.writable] at htext
  rw [ht] at hwritten htext
  exact ⟨hp, hwritten, htext, hread.2 ⟨rfl, hbrief⟩⟩

/-- A fraction with a power of ten below the line has as many places. -/
theorem Number.decimalPlaces?_ten_pow (n : Nat) : decimalPlaces? (10 ^ n) = some n := by
  cases hp : decimalPlaces? (10 ^ n) with
  | none =>
    obtain ⟨p, hp, hd, h2, h5⟩ := (decimalPlaces?_eq_none_iff (by positivity)).1 hp
    have h10 : p ∣ 2 * 5 := hp.dvd_of_dvd_pow hd
    rcases hp.dvd_mul.1 h10 with h | h
    · exact absurd ((Nat.prime_dvd_prime_iff_eq hp Nat.prime_two).1 h) h2
    · exact absurd ((Nat.prime_dvd_prime_iff_eq hp Nat.prime_five).1 h) h5
  | some places =>
    have hleast (k : Nat) : 10 ^ n ∣ 10 ^ k ↔ places ≤ k := decimalPlaces?_least (by positivity) hp k
    have hle : places ≤ n := (hleast n).1 dvd_rfl
    have hge : n ≤ places := (Nat.pow_dvd_pow_iff_le_right (by decide)).1 ((hleast places).2 le_rfl)
    rw [le_antisymm hle hge]

/-- The host writes all negative powers of ten. -/
theorem Number.isWritable_inv_ten_pow (n : Nat) : isWritable ((10 ^ (n + 1) : Nat) : Rat)⁻¹ ∧
    decimalPlaces? ((10 ^ (n + 1) : Nat) : Rat)⁻¹.den = some (n + 1) := by
  have hpos : 0 < 10 ^ (n + 1) := by positivity
  have hden : (((10 ^ (n + 1) : Nat) : Rat)⁻¹).den = 10 ^ (n + 1) := Rat.inv_natCast_den_of_pos hpos
  have hnum : (((10 ^ (n + 1) : Nat) : Rat)⁻¹).num = 1 := Rat.inv_natCast_num_of_pos hpos
  have hone : (((10 ^ (n + 1) : Nat) : Rat)⁻¹).den ≠ 1 := by
    rw [hden]
    exact (Nat.one_lt_pow (Nat.succ_ne_zero _) (by decide)).ne'
  have hplaces : decimalPlaces? (((10 ^ (n + 1) : Nat) : Rat)⁻¹).den = some (n + 1) := by
    rw [hden, decimalPlaces?_ten_pow]
  refine ⟨?_, hplaces⟩
  rw [isWritable_decimal hone hplaces, hnum, hden, Int.natAbs_one, Nat.one_mul, Nat.div_self hpos]
  exact isWritable_iff_lt.2 (Nat.one_lt_pow (by decide) (by decide))

/-- A number with a variant, a whole number with more digits than the host writes, and a decimal with more places than
it reads are not read back. -/
theorem texts_not_read_back :
    let tagged := (Value.number 5).stamped ⟨⟨"E", 1⟩, "A", 2⟩
    let long : Rat := (10 ^ Text.digitLimit : Nat)
    let small : Rat := (10 ^ (Text.digitLimit + 1) : Nat)⁻¹
    (∀ w m', roundTrip (.ofLevel 0) tagged none none {} ≠ .ok w m') ∧
      (∀ w m', roundTrip (.ofLevel 0) (.number long) none none {} ≠ .ok w m') ∧
      Number.isWritable small ∧ ∀ w m', roundTrip (.ofLevel 0) (.number small) none none {} ≠ .ok w m' := by
  intro tagged long small
  have brief {q : Rat} {w : Value} {m' : Machine} (hr : roundTrip (.ofLevel 0) (.number q) none none {} = .ok w m') :
      Number.IsBrief q := by
    rw [← Number.value_ofRat q]
    exact (of_roundTrip rfl hr).2
  obtain ⟨hsmall, hplaces⟩ := Number.isWritable_inv_ten_pow Text.digitLimit
  refine ⟨fun w m' hr => ?_, fun w m' hr => ?_, hsmall, fun w m' hr => ?_⟩
  · have hpayload : tagged.payload = .number (.ofRat 5) := rfl
    cases (of_roundTrip hpayload hr).1
  · have hw := (brief hr).writable
    have hlong : long.den = 1 ∧ long.num = (10 ^ Text.digitLimit : Nat) := ⟨Rat.den_natCast _, Rat.num_natCast _⟩
    rw [Number.isWritable, if_pos hlong.1, hlong.2, Int.natAbs_natCast] at hw
    exact absurd (Number.isWritable_iff_lt.1 hw) (lt_irrefl _)
  · exact absurd ((brief hr).places _ hplaces) (Nat.not_succ_le_self _)

end ScriptEngine

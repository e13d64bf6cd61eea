import ScriptEngine.Text.Basic

/-!
# Numbers as fractions

Numbers are exact rationals, stored in one of two forms: as a whole number or as a fraction in lowest
terms. What asks for a whole number looks at the form alone.

* `Number.ofRat` stores a rational, as a whole number if its denominator is one. What it stores is in normal form
  (`Number.IsNormal`). Of numbers in normal form the way of storing tells which are whole (`whole?_eq_some_iff`) and
  which are the same (`value_inj`).
* `fractionText` writes `n` or `n/d` in lowest terms.
* `constructionText` writes a number as listings and outlines do.
* `text` writes a whole number by its digits, a number with a finite decimal expansion as a decimal, and any other
  number as a fraction. The host writes no number with too many digits (`text?`).
-/

namespace ScriptEngine

/-- A number as it is stored. -/
inductive Number where
  | whole (n : Int)
  | fraction (q : Rat)
deriving DecidableEq, Inhabited

namespace Number

/-- The rational that a number stands for. -/
def value : Number → Rat
  | whole n => n
  | fraction q => q

/-- A rational as it is stored: as a whole number if it is one. -/
def ofRat (q : Rat) : Number := if q.den = 1 then whole q.num else fraction q

@[simp] theorem value_ofRat (q : Rat) : (ofRat q).value = q := by
  unfold ofRat
  split
  · next h => exact Rat.ext rfl h.symm
  · rfl

/-- The whole number, if that is how the number is stored. -/
def whole? : Number → Option Int
  | whole n => some n
  | fraction _ => none

/-! ## Normal form -/

/-- A number is stored as a fraction only if its denominator is more than one. -/
def IsNormal : Number → Prop
  | whole _ => True
  | fraction q => 1 < q.den

variable {x y : Number} {n : Int}

theorem isNormal_ofRat (q : Rat) : (ofRat q).IsNormal := by
  unfold ofRat
  split
  · trivial
  · next h =>
    have := q.den_pos
    exact Nat.lt_of_le_of_ne this (Ne.symm h)

namespace IsNormal

theorem ofRat_value (hx : x.IsNormal) : ofRat x.value = x := by
  cases x with
  | whole n => rfl
  | fraction q => exact if_neg (Nat.ne_of_gt hx)

/-- Numbers in normal form are stored alike if they stand for the same rational. -/
theorem value_inj (hx : x.IsNormal) (hy : y.IsNormal) : x.value = y.value ↔ x = y := by
  refine ⟨fun h => ?_, congrArg value⟩
  rw [← hx.ofRat_value, ← hy.ofRat_value, h]

/-- A number in normal form is stored as a whole number exactly if it is one. -/
theorem whole?_eq_some_iff (hx : x.IsNormal) : x.whole? = some n ↔ x.value = n := by
  have hn : (whole n).IsNormal := trivial
  rw [show (n : Rat) = (whole n).value from rfl, hx.value_inj hn]
  cases x <;> simp [whole?]

theorem whole?_eq_none_iff (hx : x.IsNormal) : x.whole? = none ↔ ∀ n : Int, x.value ≠ n := by
  simp only [Option.eq_none_iff_forall_ne_some, Ne, hx.whole?_eq_some_iff]

end IsNormal

/-! ## Texts -/

/-- The number in lowest terms: `n` when it is whole and `n/d` otherwise. -/
def fractionText (q : Rat) : Text :=
  if q.den = 1 then Text.ofInt q.num else Text.ofInt q.num ++ "/" ++ Text.ofNat q.den

/-- The number as listings and outlines write it. -/
def constructionText (q : Rat) : Text :=
  if q.den = 1 then Text.ofInt q.num
  else "Fraction(" ++ Text.ofInt q.num ++ ", " ++ Text.ofNat q.den ++ ")"

/-- Divides a positive number by a factor as long as that divides it: how often, and what is left. -/
def takeOut (factor n : Nat) : Nat × Nat :=
  if _h : 1 < factor ∧ 0 < n ∧ n % factor = 0 then
    let (count, rest) := takeOut factor (n / factor)
    (count + 1, rest)
  else (0, n)
termination_by n
decreasing_by exact Nat.div_lt_self _h.2.1 _h.1

/-- The decimal places of a fraction over `den` in lowest terms: as many as it has factors of two or of five,
whichever are more, if it has no others. -/
def decimalPlaces? (den : Nat) : Option Nat :=
  let (twos, odd) := takeOut 2 den
  let (fives, rest) := takeOut 5 odd
  if rest = 1 then some (max twos fives) else none

/-- Digits with a point before the last `places` of them, and at least one digit before it. -/
def pointed (places scaled : Nat) : Text :=
  let digits := Text.ofNat scaled
  let padded := Text.replicate (places + 1 - digits.length) '0' ++ digits
  padded.take (padded.length - places) ++ "." ++ padded.drop (padded.length - places)

/-- The text of a number. -/
def text (q : Rat) : Text :=
  if q.den = 1 then Text.ofInt q.num
  else match decimalPlaces? q.den with
    | some places =>
      (if q.num < 0 then ("-" : Text) else []) ++
        pointed places (q.num.natAbs * Nat.pow 10 places / q.den)
    | none => fractionText q

/-- Whether the host writes all the whole numbers that the text of a number is made from. -/
def isWritable (q : Rat) : Bool :=
  if q.den = 1 then Text.isWritable q.num.natAbs
  else match decimalPlaces? q.den with
    | some places => Text.isWritable (q.num.natAbs * Nat.pow 10 places / q.den)
    | none => Text.isWritable q.num.natAbs && Text.isWritable q.den

/-- The text of a number, unless the host refuses to write it. -/
def text? (q : Rat) : Option Text := if isWritable q then some (text q) else none

end Number

end ScriptEngine

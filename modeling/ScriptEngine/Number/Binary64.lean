import ScriptEngine.Text.Digit

/-!
# Double precision numbers

A finite double precision magnitude is a whole number of at most 53 bits times a power of two.
Rounding a rational to one and finding the fewest decimal digits that read back as one are done in
exact arithmetic.

* `Binary64.nearest?` rounds to the nearest magnitude, a tie going to the even mantissa.
* `Binary64.shortest` gives the fewest digits that round to the magnitude, the nearest of those.
* `Double.text` writes a number positionally while the exponent is between -5 and 15, and with an
  exponent of two or more digits otherwise.
-/

namespace ScriptEngine

/-- A finite magnitude `mantissa · 2 ^ exponent`. -/
structure Binary64 where
  mantissa : Nat
  exponent : Int
deriving DecidableEq, Inhabited

namespace Binary64

/-- The least exponent. -/
def minExponent : Int := -1074

/-- The greatest exponent. -/
def maxExponent : Int := 971

/-- A power of two with an integer exponent. -/
def powTwo (e : Int) : Rat := if 0 ≤ e then Nat.pow 2 e.toNat else mkRat 1 (Nat.pow 2 (-e).toNat)

/-- A power of ten with an integer exponent. -/
def powTen (e : Int) : Rat := if 0 ≤ e then Nat.pow 10 e.toNat else mkRat 1 (Nat.pow 10 (-e).toNat)

/-- The exact value of a magnitude. -/
def toRat (b : Binary64) : Rat := b.mantissa * powTwo b.exponent

/-- The nearest natural number to a rational that is not negative, a tie going to the even one. -/
def roundHalfEven (q : Rat) : Nat :=
  let low := q.floor.toNat
  let rest := q - low
  if rest < mkRat 1 2 then low
  else if rest = mkRat 1 2 then (if low % 2 = 0 then low else low + 1)
  else low + 1

/-- The exponent at which a positive rational has a mantissa of 53 bits, or the least exponent. -/
def exponentFor (q : Rat) : Int :=
  let guess : Int := (q.num.natAbs.log2 : Int) - (q.den.log2 : Int) - 52
  let fitted := if (q * powTwo (-guess)).floor < Nat.pow 2 52 then guess - 1 else guess
  max fitted minExponent

/-- The magnitude nearest to a rational that is not negative, if it is in range. -/
def nearest? (q : Rat) : Option Binary64 :=
  if q = 0 then some ⟨0, minExponent⟩
  else
    let e := exponentFor q
    let m := roundHalfEven (q * powTwo (-e))
    let b : Binary64 := if m = Nat.pow 2 53 then ⟨Nat.pow 2 52, e + 1⟩ else ⟨m, e⟩
    if b.exponent > maxExponent then none else some b

/-- A decimal `digits · 10 ^ exponent`. -/
structure Decimal where
  digits : Nat
  exponent : Int

/-- The exponent of the leading decimal digit of a positive rational below one: the number of places
it has to move, found by trying at most `fuel`. -/
def leadingBelowOne (q : Rat) : Nat → Nat → Nat
  | 0, places => places
  | fuel + 1, places => if 1 ≤ q then places else leadingBelowOne (q * 10) fuel (places + 1)

/-- The exponent of the leading decimal digit of a positive rational. -/
def leadingExponent (q : Rat) : Int :=
  if 1 ≤ q then ((Nat.toDigits 10 q.floor.toNat).length : Int) - 1
  else -(leadingBelowOne q 400 0 : Int)

/-- Whether a rational rounds to the magnitude. -/
def isReadBy (b : Binary64) (q : Rat) : Bool := nearest? q = some b

/-- The decimal with a given number of digits that is nearest to the magnitude among its two
neighbours, if one of them rounds to it. -/
def atDigits? (b : Binary64) (count : Nat) : Option Decimal :=
  let q := b.toRat
  let e := leadingExponent q - (count - 1 : Nat)
  let low := (q * powTen (-e)).floor.toNat
  let candidate (n : Nat) : Option Decimal :=
    if b.isReadBy (n * powTen e) then some ⟨n, e⟩ else none
  match candidate low, candidate (low + 1) with
  | some d, none => some d
  | none, some d => some d
  | some d, some d' =>
    let below := q - low * powTen e
    let above := (low + 1) * powTen e - q
    if below < above then some d
    else if above < below then some d'
    else if low % 2 = 0 then some d else some d'
  | none, none => none

/-- The fewest decimal digits that round to the magnitude. Seventeen digits always do. -/
def shortest (b : Binary64) : Decimal :=
  if b.mantissa = 0 then ⟨0, 0⟩
  else ((List.range 17).findSome? fun n => b.atDigits? (n + 1)).getD ⟨b.mantissa, 0⟩

end Binary64

/-- A double precision number, the infinities and the missing number included. -/
inductive Double where
  | finite (negative : Bool) (magnitude : Binary64)
  | infinite (negative : Bool)
  | notANumber
deriving DecidableEq, Inhabited

namespace Double

/-- The double nearest to a rational, an infinity when it is out of range. -/
def ofRat (q : Rat) : Double :=
  match Binary64.nearest? (if q < 0 then -q else q) with
  | some b => finite (q < 0) b
  | none => infinite (q < 0)

/-- Puts a minus sign before the text of a negative number. -/
def signed (negative : Bool) (t : Text) : Text := if negative then "-" ++ t else t

/-- Decimal digits without trailing zeros, and the exponent that makes up for them. -/
def trimZeros : Nat → Binary64.Decimal → Binary64.Decimal
  | 0, d => d
  | fuel + 1, d =>
    if d.digits ≠ 0 ∧ d.digits % 10 = 0 then trimZeros fuel ⟨d.digits / 10, d.exponent + 1⟩ else d

/-- The text of a decimal: positional while the exponent of its leading digit is between -5 and 15,
and with that exponent written out otherwise. -/
def decimalText (d : Binary64.Decimal) : Text :=
  let digits := Text.ofNat d.digits
  let lead : Int := d.exponent + (digits.length : Int) - 1
  if -5 < lead ∧ lead < 16 then
    if lead < 0 then "0." ++ Text.replicate (-lead - 1).toNat '0' ++ digits
    else
      let wholePart := digits.take (lead + 1).toNat
      let padded := wholePart ++ Text.replicate ((lead + 1).toNat - wholePart.length) '0'
      let places := digits.drop (lead + 1).toNat
      padded ++ "." ++ (if places = [] then ("0" : Text) else places)
  else
    let mantissa := match digits with
      | c :: [] => [c]
      | c :: rest => [c] ++ "." ++ rest
      | [] => []
    let power := Text.ofNat lead.natAbs
    mantissa ++ "e" ++ (if lead < 0 then ("-" : Text) else "+") ++
      Text.replicate (2 - power.length) '0' ++ power

/-- The shortest text that reads back as the number. -/
def text : Double → Text
  | finite negative b => signed negative (decimalText (trimZeros 20 b.shortest))
  | infinite negative => signed negative "inf"
  | notANumber => "nan"

/-- The rational written by the shortest text of a finite number. -/
def shortestRat? : Double → Option Rat
  | finite negative b =>
    let d := b.shortest
    let q : Rat := d.digits * Binary64.powTen d.exponent
    some (if negative then -q else q)
  | _ => none

end Double

end ScriptEngine

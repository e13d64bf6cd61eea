import Mathlib.Data.Rat.Floor
import Mathlib.Data.Sign.Basic
import ScriptEngine.Proofs.Arrays.Insertion

/-!
# Exact arithmetic

What the operators do to numbers, by the rationals that these stand for.

* `Number.floorMod_add`, `Number.sign_floorMod`, `Number.abs_floorMod_lt`: a remainder is what the rounded quotient
  leaves, has the sign of the divisor, and is nearer to zero than it.
* `Interp.Exact`: the operators on two values, one law for each of them. A number that an operator gives is new and has
  no tags, so it is `==` to an operand only if that carries no variant.
* `arithmetic_exact`: the laws hold for all numbers.
-/

namespace ScriptEngine

namespace Number

variable {a b : Rat} {m n : Int}

/-! ## Remainders and powers of rationals -/

theorem floorMod_add (a b : Rat) : (a / b).floor * b + floorMod a b = a := by
  unfold floorMod
  ring

/-- The remainder is as much of the divisor as the quotient has behind the point. -/
theorem floorMod_eq_fract (hb : b ≠ 0) : floorMod a b = Int.fract (a / b) * b := by
  have hfloor : (a / b).floor = ⌊a / b⌋ := rfl
  rw [floorMod, hfloor, Int.fract, sub_mul, div_mul_cancel₀ a hb]

theorem sign_floorMod (hb : b ≠ 0) :
    floorMod a b = 0 ∨ SignType.sign (floorMod a b) = SignType.sign b := by
  rw [floorMod_eq_fract hb]
  rcases (Int.fract_nonneg (a / b)).eq_or_lt with hzero | hpos
  · left
    rw [← hzero, zero_mul]
  · right
    rw [sign_mul, sign_pos hpos, one_mul]

theorem abs_floorMod_lt (hb : b ≠ 0) : |floorMod a b| < |b| := by
  have habs : 0 < |b| := abs_pos.2 hb
  rw [floorMod_eq_fract hb, abs_mul, abs_of_nonneg (Int.fract_nonneg _)]
  exact mul_lt_of_lt_one_left habs (Int.fract_lt_one _)

end Number

/-! ## The operators -/

/-- A value is a number that stands for a rational. -/
def Value.StandsFor (v : Value) (q : Rat) : Prop := v.payload = .number (.ofRat q)

theorem Value.StandsFor.payload_eq {v : Value} {q : Rat} (hv : v.StandsFor q) : v.payload = .number (.ofRat q) := hv

/-- Numbers in normal form, and so all that sessions reach, stand for a rational. -/
theorem Value.standsFor_of_isNormal {v : Value} {x : Number} (hv : v.payload = .number x) (hx : x.IsNormal) :
    v.StandsFor x.value := by
  rw [StandsFor, hx.ofRat_value]
  exact hv

@[simp] theorem Value.standsFor_number (q : Rat) : (Value.number q).StandsFor q := rfl

namespace Interp

/-- The sum of the divisor as often as it is in a number, and of the remainder: `floor(a / b) * b + a % b`. -/
def floorSum (I : Interp) (l r : Value) (s : Span) (place : Option Span) : Eval Value := do
  let quotient ← I.binary (.arith .div) l r s
  let times ← Native.floor.call I [quotient] place
  let multiple ← I.binary (.arith .mul) times r s
  let remainder ← I.binary (.arith .mod) l r s
  I.binary (.arith .add) multiple remainder s

/-- Whether powers of a number are multiplied by adding their exponents: `a ** (m + n) == a ** m * a ** n`. -/
def powerTest (I : Interp) (l x y : Value) (s : Span) : Eval Value := do
  let exponent ← I.binary (.arith .add) x y s
  let power ← I.binary (.arith .pow) l exponent s
  let first ← I.binary (.arith .pow) l x s
  let second ← I.binary (.arith .pow) l y s
  let product ← I.binary (.arith .mul) first second s
  I.binary (.compare .eq) power product s

/-- The operators do to the numbers `l` and `r`, which stand for `a` and `b`, what the rationals say, and change
nothing. -/
structure Exact (I : Interp) (l r : Value) (a b : Rat) (s : Span) : Prop where
  add : I.binary (.arith .add) l r s = pure (.number (a + b))
  sub : I.binary (.arith .sub) l r s = pure (.number (a - b))
  mul : I.binary (.arith .mul) l r s = pure (.number (a * b))
  div : I.binary (.arith .div) l r s =
    if b = 0 then Eval.failWith .divisionByZero "division by zero" s else pure (.number (a / b))
  mod : I.binary (.arith .mod) l r s =
    if b = 0 then Eval.failWith .divisionByZero "modulo by zero" s else pure (.number (Number.floorMod a b))
  floorSum : b ≠ 0 → ∀ place, I.floorSum l r s place = pure (.number a)
  floorTest : b ≠ 0 → ∀ place, (I.floorSum l r s place >>= fun sum => I.binary (.compare .eq) sum l s) =
    pure (.bool (decide (l.variant? = none)))
  sign : b ≠ 0 → Number.floorMod a b = 0 ∨ SignType.sign (Number.floorMod a b) = SignType.sign b
  size : b ≠ 0 → |Number.floorMod a b| < |b|
  pow : ∀ n : Int, b = n → I.binary (.arith .pow) l r s =
    if a = 0 ∧ n < 0 then Eval.failWith .divisionByZero "zero raised to a negative power" s
    else pure (.number (a ^ n))
  powAdd : a ≠ 0 → ∀ (x y : Value) (m n : Int), x.StandsFor m → y.StandsFor n →
    I.powerTest l x y s = pure (.bool true)
  noPow : (∀ n : Int, b ≠ n) →
    I.binary (.arith .pow) l r s = Eval.failWith .value "exponent must be a whole number" s

variable {I : Interp} {l r x y : Value} {a b : Rat} {s : Span} {op : ArithOp}

/-- An operator gives what the arithmetic of numbers gives, without tags, or the fault of its cause. -/
theorem binary_calculate (hl : l.StandsFor a) (hr : r.StandsFor b) : I.binary (.arith op) l r s =
    match Number.calculate op (.ofRat a) (.ofRat b) with
    | .ok q => pure (.number q)
    | .error e => Eval.failWith e.kind e.message s := by
  obtain ⟨p, tags⟩ := l
  obtain ⟨q, tags'⟩ := r
  obtain rfl : p = .number (.ofRat a) := hl
  obtain rfl : q = .number (.ofRat b) := hr
  funext m
  have harith : m.heap.arithmetic op ⟨.number (.ofRat a), tags⟩ ⟨.number (.ofRat b), tags'⟩ s =
      match Number.calculate op (.ofRat a) (.ofRat b) with
      | .ok q => .ok (.number q)
      | .error e => .error { kind := e.kind, message := e.message, span := s } := rfl
  show Eval.arithmetic op ⟨.number (.ofRat a), tags⟩ ⟨.number (.ofRat b), tags'⟩ s m = _
  rw [Eval.arithmetic_eq (by cases op <;> rfl)]
  cases hq : Number.calculate op (.ofRat a) (.ofRat b) <;> rw [hq] at harith
  · exact Eval.readHeap_error harith
  · exact Eval.readHeap_ok harith

theorem binary_add (hl : l.StandsFor a) (hr : r.StandsFor b) :
    I.binary (.arith .add) l r s = pure (.number (a + b)) := by
  simp [binary_calculate hl hr, Number.calculate]

theorem binary_sub (hl : l.StandsFor a) (hr : r.StandsFor b) :
    I.binary (.arith .sub) l r s = pure (.number (a - b)) := by
  simp [binary_calculate hl hr, Number.calculate]

theorem binary_mul (hl : l.StandsFor a) (hr : r.StandsFor b) :
    I.binary (.arith .mul) l r s = pure (.number (a * b)) := by
  simp [binary_calculate hl hr, Number.calculate]

theorem binary_div (hl : l.StandsFor a) (hr : r.StandsFor b) (hb : b ≠ 0) :
    I.binary (.arith .div) l r s = pure (.number (a / b)) := by
  simp [binary_calculate hl hr, Number.calculate, hb]

theorem binary_mod (hl : l.StandsFor a) (hr : r.StandsFor b) (hb : b ≠ 0) :
    I.binary (.arith .mod) l r s = pure (.number (Number.floorMod a b)) := by
  simp [binary_calculate hl hr, Number.calculate, hb]

/-- A power has a result for every whole exponent, but for a negative one of zero. -/
theorem binary_pow {n : Int} (hl : l.StandsFor a) (hr : r.StandsFor n) : I.binary (.arith .pow) l r s =
    if a = 0 ∧ n < 0 then Eval.failWith .divisionByZero "zero raised to a negative power" s
    else pure (.number (a ^ n)) := by
  have hwhole : (Number.ofRat n).whole? = some n := (Number.isNormal_ofRat n).whole?_eq_some_iff.2 (by simp)
  rw [binary_calculate hl hr, Number.calculate, hwhole]
  by_cases hzero : a = 0 ∧ n < 0
  · simp [hzero, Number.ArithmeticError.kind, Number.ArithmeticError.message]
  · simp [hzero, Number.power]
    rfl

theorem binary_equal (hr : r.StandsFor b) :
    I.binary (.compare .eq) (.number a) r s = pure (.bool (decide (r.variant? = none ∧ a = b))) := by
  funext m
  have hequal : m.heap.comparison .eq (.number a) r s = .ok (decide (r.variant? = none ∧ a = b)) := by
    rw [Heap.comparison, Heap.equal_number hr.payload_eq, Number.value_ofRat]
  exact (Eval.bind_ok (Eval.readHeap_ok hequal)).trans rfl

/-- Numbers are ordered by what they stand for. -/
theorem binary_ordered {op : CompareOp} (hl : l.StandsFor a) (hr : r.StandsFor b) (heq : op ≠ .eq) (hne : op ≠ .ne) :
    I.binary (.compare op) l r s = pure (.bool (Heap.ordered op (a < b) (b < a))) := by
  funext m
  have horder : m.heap.comparison op l r s = .ok (Heap.ordered op (a < b) (b < a)) := by
    unfold Heap.comparison
    rw [hl.payload_eq, hr.payload_eq]
    cases op <;> simp_all
  exact (Eval.bind_ok (Eval.readHeap_ok horder)).trans rfl

theorem floorSum_eq (hl : l.StandsFor a) (hr : r.StandsFor b) (hb : b ≠ 0) (place : Option Span) :
    I.floorSum l r s place = pure (.number a) := by
  have hfloor : Native.floor.call I [.number (a / b)] place = pure (.number (a / b).floor) := by
    funext m
    rw [ArrayLibrary.call_floor (Value.standsFor_number _).payload_eq, Number.value_ofRat]
    rfl
  simp only [floorSum, binary_div hl hr hb, binary_mod hl hr hb, hfloor, pure_bind,
    binary_mul (Value.standsFor_number _) hr,
    binary_add (Value.standsFor_number _) (Value.standsFor_number _), Number.floorMod_add]

theorem powerTest_eq {m n : Int} (hl : l.StandsFor a) (ha : a ≠ 0) (hx : x.StandsFor m) (hy : y.StandsFor n) :
    I.powerTest l x y s = pure (.bool true) := by
  have hpow {z : Value} {k : Int} (hz : z.StandsFor k) :
      I.binary (.arith .pow) l z s = pure (.number (a ^ k)) := by
    rw [binary_pow hl hz, if_neg fun h => ha h.1]
  have hsum : (Value.number (m + n)).StandsFor ((m + n : Int) : Rat) := by
    rw [Int.cast_add]
    rfl
  simp only [powerTest, binary_add hx hy, pure_bind, hpow hx, hpow hy, hpow hsum,
    binary_mul (Value.standsFor_number _) (Value.standsFor_number _),
    binary_equal (Value.standsFor_number _), zpow_add₀ ha]
  rfl

/-- Arithmetic on numbers is that of the rationals that they stand for. -/
theorem arithmetic_exact (I : Interp) (hl : l.StandsFor a) (hr : r.StandsFor b) (s : Span) : I.Exact l r a b s where
  add := binary_add hl hr
  sub := binary_sub hl hr
  mul := binary_mul hl hr
  div := by
    by_cases hb : b = 0
    · simp [binary_calculate hl hr, Number.calculate, hb, Number.ArithmeticError.kind,
        Number.ArithmeticError.message]
    · rw [binary_div hl hr hb, if_neg hb]
  mod := by
    by_cases hb : b = 0
    · simp [binary_calculate hl hr, Number.calculate, hb, Number.ArithmeticError.kind,
        Number.ArithmeticError.message]
    · rw [binary_mod hl hr hb, if_neg hb]
  floorSum hb := floorSum_eq hl hr hb
  floorTest hb place := by simp [floorSum_eq hl hr hb, binary_equal hl]
  sign := Number.sign_floorMod
  size := Number.abs_floorMod_lt
  pow n hn := binary_pow hl (hn ▸ hr)
  powAdd ha x y m n hx hy := powerTest_eq hl ha hx hy
  noPow hnone := by
    have hwhole : (Number.ofRat b).whole? = none :=
      (Number.isNormal_ofRat b).whole?_eq_none_iff.2 (by simpa using hnone)
    rw [binary_calculate hl hr, Number.calculate, hwhole]
    rfl

/-- A fraction and a negative divisor. -/
theorem arithmetic_exact_negative :
    let half := Value.plain (.number (.fraction (7 / 2)))
    half.StandsFor (7 / 2) ∧ (Value.number (-2)).StandsFor (-2) ∧
      (ofLevel 0).Exact half (.number (-2)) (7 / 2) (-2) .unknown := by
  intro half
  have hhalf : half.StandsFor (7 / 2) := by
    refine Value.standsFor_of_isNormal rfl (x := .fraction (7 / 2)) ?_
    show 1 < (7 / 2 : Rat).den
    decide +kernel
  exact ⟨hhalf, Value.standsFor_number _, arithmetic_exact (ofLevel 0) hhalf (Value.standsFor_number _) .unknown⟩

/-- A number with a variant is not `==` to the sum that its quotient and remainder make up, which has none. -/
theorem floor_sum_drops_variant :
    let tagged := (Value.number 7).stamped ⟨⟨"E", 1⟩, "A", 2⟩
    tagged.StandsFor 7 ∧ ∀ (I : Interp) s place,
      (I.floorSum tagged (.number 2) s place >>= fun sum => I.binary (.compare .eq) sum tagged s) =
        pure (.bool false) := by
  intro tagged
  have htagged : tagged.StandsFor 7 := rfl
  have hvariant : tagged.variant? ≠ none := nofun
  refine ⟨htagged, fun I s place => ?_⟩
  have htwo : (2 : Rat) ≠ 0 := by decide
  simp [floorSum_eq htagged (Value.standsFor_number 2) htwo, binary_equal htagged, hvariant]

end Interp

end ScriptEngine

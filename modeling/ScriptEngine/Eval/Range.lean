import ScriptEngine.Value.Fault
import ScriptEngine.Number.Fraction

/-!
# Ranges

A range denotes whole numbers at equal distances. It is kept as a first number, a distance and a
count, so that a loop over a long range needs no list.

* `Progression.between` finds the numbers from one bound to another.
* `Progression.toList` lists them.
-/

namespace ScriptEngine

/-- The numbers `first`, `first + step`, …, `count` of them. -/
structure Progression where
  first : Int
  step : Int
  count : Nat
deriving DecidableEq, Inhabited

/-- The causes for which bounds and a step do not denote a range. -/
inductive RangeError where
  | zeroStep
  | wrongDirection (step start stop : Int)
deriving DecidableEq

/-- The message of a cause. -/
def RangeError.message : RangeError → Text
  | zeroStep => "range step cannot be zero"
  | wrongDirection step start stop =>
    "range step " ++ Text.ofInt step ++ " does not move from " ++ Text.ofInt start ++
      " towards " ++ Text.ofInt stop

namespace Progression

/-- How many steps fit between a start and a stop that is not reached. -/
def countBefore (start stop step : Int) : Nat :=
  if 0 < step then ((stop - start + step - 1) / step).toNat
  else ((start - stop - step - 1) / (-step)).toNat

/-- The default step between two bounds. -/
def direction (start stop : Int) : Int := if start ≤ stop then 1 else -1

/-- The numbers from a start to a stop in the given steps, with or without the bounds. -/
def between (start stop : Int) (step : Option Int) (withStart withStop : Bool) :
    Except RangeError Progression :=
  let towards := direction start stop
  let step := step.getD towards
  if step = 0 then .error .zeroStep
  else if start ≠ stop ∧ (0 < step) ≠ (0 < towards) then
    .error (.wrongDirection step start stop)
  else
    let limit := if withStop then stop + (if 0 < step then 1 else -1) else stop
    let first := if withStart then start else start + step
    .ok ⟨first, step, countBefore first limit step⟩

/-- A number of the progression by its position. -/
def get (p : Progression) (i : Nat) : Int := p.first + i * p.step

/-- The numbers of the progression. -/
def toList (p : Progression) : List Int := (List.range p.count).map p.get

end Progression

/-- A bound counted from the end of a container of a given size if it is negative. -/
def boundIn (size : Nat) (bound : Int) : Int := if bound < 0 then bound + size else bound

/-- The whole number that a bound or a step of a range is. -/
def rangeNumber (v : Value) (what : Text) (span : Span) : Except Fault Int :=
  match v.payload with
  | .number x =>
    match x.whole? with
    | some n => .ok n
    | none => .error
      { kind := .value, span := span, message := "range " ++ what ++ " must be a whole number" }
  | _ => .error
    { kind := .type, span := span,
      message := "range " ++ what ++ " must be a number, got a " ++ v.typeName }

end ScriptEngine

import ScriptEngine.Native.Argument

/-!
# Natives of rounding, time and chance

The clock and the source of chance are part of the machine: each reading advances them.
-/

namespace ScriptEngine.Native

/-- The greatest whole number that is not above a number. -/
def floorOf (span : Option Span) (v : Value) : Eval Value := do
  return .number (← floor.number 1 span v).value.floor

/-- The least whole number that is not below a number. -/
def ceilOf (span : Option Span) (v : Value) : Eval Value := do
  return .number (← ceil.number 1 span v).value.ceil

/-- The time in nanoseconds. -/
def now : Eval Value := do
  let t ← modifyGet fun m => (m.clock, { m with clock := m.clock + 1 })
  return .number t

/-- A natural number below a bound, if the bound is positive. -/
def draw (bound : Nat) : Eval Nat :=
  modifyGet fun m =>
    let seed := (m.seed * 6364136223846793005 + 1442695040888963407) % Nat.pow 2 64
    (seed / Nat.pow 2 11 % bound, { m with seed := seed })

/-- A number from zero up to one. -/
def fraction : Eval Value := do
  return .number (mkRat (← draw (Nat.pow 2 53)) (Nat.pow 2 53))

/-- A whole number between two bounds. -/
def between (span : Option Span) (low high : Value) : Eval Value := do
  let a ← randomRange.whole 1 span low
  let b ← randomRange.whole 2 span high
  if a > b then randomRange.reject span .value ": low must not exceed high"
  else return .number ((a + (← draw (b - a + 1).toNat) : Int))

/-- An element of an array. -/
def choice (span : Option Span) (v : Value) : Eval Value := do
  match ← randomItem.arrayItems 1 span v with
  | [] => randomItem.reject span .index ": array is empty"
  | items => return items.getD (← draw items.length) .null

end ScriptEngine.Native

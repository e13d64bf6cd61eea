import ScriptEngine.Proofs.Arrays.Library
import ScriptEngine.Proofs.Enum.Constructors

/-!
# The result library

A result is a value stamped with one of two variants. The functions of the library that unwrap results are given here
as program trees, for any spans: the span of a node is the one under its number.

* `Layout.LoadedIn`: where the enum and the functions are found in a heap.
-/

namespace ScriptEngine

namespace ResultLibrary

open ArrayLibrary (ref run callNamed)

/-! ## Program trees -/

section

variable (p : Nat → Span) (i : Nat)

/-- A variant of results. -/
def variantRef (name : Text) : Expr := .member (p i) (ref p (i + 1) "Result") name

/-- A block that gives what a name stands for. -/
def giving (name : Text) : Block := ⟨p i, [run p (i + 1) (ref p (i + 2) name)]⟩

/-- A block that throws. -/
def throwing (e : Expr) : Block := ⟨p i, [.throwValue (p (i + 1)) e]⟩

/-- The error about a value that is no result. -/
def noResult : Expr :=
  callNamed p i "error"
    [.literal (p (i + 2)) (.string "unwrap() expects a Result"), .literal (p (i + 3)) (.string "TypeError"),
     ref p (i + 4) "r"]

end

/-- The function that gives what an `Ok` wraps, and throws what an `Err` wraps. -/
def unwrap (p : Nat → Span) : FunctionDef where
  span := p 0
  name := some "unwrap"
  parameters := [⟨p 1, "r", none, []⟩]
  body := ⟨p 2, [run p 3 (.matchOn (p 4) (ref p 5 "r")
    [⟨p 6, .isVariant (variantRef p 7 "Ok"), giving p 10 "r"⟩,
     ⟨p 20, .isVariant (variantRef p 21 "Err"), throwing p 24 (ref p 26 "r")⟩,
     ⟨p 30, .otherwise, throwing p 31 (noResult p 33)⟩])]⟩
  whereClauses := []
  isPure := false

/-- The function that gives what an `Ok` wraps, and else a fallback. -/
def unwrapOr (p : Nat → Span) : FunctionDef where
  span := p 0
  name := some "unwrap_or"
  parameters := [⟨p 1, "r", none, []⟩, ⟨p 2, "fallback", none, []⟩]
  body := ⟨p 3, [run p 4 (.ifElse (p 5) (.binary (p 6) (ref p 7 "r") .isVariant (variantRef p 8 "Ok"))
    (giving p 10 "r") (some (.block (giving p 20 "fallback"))))]⟩
  whereClauses := []
  isPure := false

/-! ## The library in a heap -/

/-- Where the library is: its frame, the enum of results with its cell and its variants, and the functions. -/
structure Layout where
  frame : Nat
  result : Value
  cell : Nat
  ok : VariantTag
  err : VariantTag
  unwrap : Nat
  unwrapOr : Nat

namespace Layout

/-- The constructor of an `Ok`. -/
def okValue (L : Layout) : Value := .ofVariant L.ok

/-- The constructor of an `Err`. -/
def errValue (L : Layout) : Value := .ofVariant L.err

/-- The function `unwrap` as a value. -/
def unwrapValue (L : Layout) : Value := .plain (.function L.unwrap)

/-- The function `unwrap_or` as a value. -/
def unwrapOrValue (L : Layout) : Value := .plain (.function L.unwrapOr)

/-- The name that the functions use. -/
inductive Names (L : Layout) : Text → Value → Prop
  | result : L.Names "Result" L.result

/-- The library is in a heap as its evaluation leaves it. -/
structure LoadedIn (L : Layout) (h : Heap) : Prop where
  frame_lt : L.frame < h.frames.size
  distinct : L.ok ≠ L.err
  payload : L.result.payload = .object L.cell
  ok : (h.object L.cell).get? "Ok" = some L.okValue
  err : (h.object L.cell).get? "Err" = some L.errValue
  unwrap : ∃ p, h.closures[L.unwrap]? = some ⟨ResultLibrary.unwrap p, L.frame⟩
  unwrapOr : ∃ p, h.closures[L.unwrapOr]? = some ⟨ResultLibrary.unwrapOr p, L.frame⟩
  knows : h.Knows L.frame L.Names

/-- What has been loaded stays so when frames are added. -/
theorem LoadedIn.adding {L : Layout} {h : Heap} (hl : L.LoadedIn h) (fs : List Frame) : L.LoadedIn (h.adding fs) where
  frame_lt := Nat.lt_of_lt_of_le hl.frame_lt (Heap.extends_adding h fs).frames_le
  distinct := hl.distinct
  payload := hl.payload
  ok := hl.ok
  err := hl.err
  unwrap := hl.unwrap
  unwrapOr := hl.unwrapOr
  knows := hl.knows.adds (Heap.extends_adding h fs).toAdds hl.frame_lt

end Layout

end ResultLibrary

end ScriptEngine

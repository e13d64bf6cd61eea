import ScriptEngine.Program.Parser.Cursor

/-!
# Operators

The operators of tokens and how tightly they bind:

* `||`, `&&`, comparisons with `in` and `is`, ranges, `+` and `-`, `*` and `/` and `%`, and `**`, from the
  loosest to the tightest;
* `**` groups to the right and all others to the left;
* a range may be followed by the word `step` and a term that binds like an operand of `+`.
-/

namespace ScriptEngine

/-- The operators between two operands. -/
inductive InfixOp where
  | binary (op : BinaryOp)
  | logical (op : LogicalOp)
  | range (withStart withStop : Bool)
deriving DecidableEq

namespace InfixOp

/-- The operator that a token stands for. -/
def ofToken? : TokenKind → Option InfixOp
  | .symbol s => match s with
    | .or => some (logical .or)
    | .and => some (logical .and)
    | .eq => some (binary (.compare .eq))
    | .ne => some (binary (.compare .ne))
    | .lt => some (binary (.compare .lt))
    | .gt => some (binary (.compare .gt))
    | .le => some (binary (.compare .le))
    | .ge => some (binary (.compare .ge))
    | .range => some (range true true)
    | .rangeInclusive => some (range true true)
    | .rangeExclusiveEnd => some (range true false)
    | .rangeExclusiveStart => some (range false true)
    | .plus => some (binary (.arith .add))
    | .minus => some (binary (.arith .sub))
    | .star => some (binary (.arith .mul))
    | .slash => some (binary (.arith .div))
    | .percent => some (binary (.arith .mod))
    | .doubleStar => some (binary (.arith .pow))
    | _ => none
  | .keyword .kwIn => some (binary .within)
  | .keyword .kwIs => some (binary .isVariant)
  | _ => none

/-- How tightly ranges bind. -/
def rangePrecedence : Nat := 4

/-- How tightly sums bind. -/
def sumPrecedence : Nat := 5

/-- How tightly an operator binds. -/
def precedence : InfixOp → Nat
  | logical .or => 1
  | logical .and => 2
  | binary (.compare _) => 3
  | binary .within => 3
  | binary .isVariant => 3
  | range _ _ => rangePrecedence
  | binary (.arith .add) => sumPrecedence
  | binary (.arith .sub) => sumPrecedence
  | binary (.arith .mul) => 6
  | binary (.arith .div) => 6
  | binary (.arith .mod) => 6
  | binary (.arith .pow) => 7

/-- The precedence that the right operand must have at least. -/
def rightPrecedence (op : InfixOp) : Nat :=
  match op with
  | binary (.arith .pow) => op.precedence
  | _ => op.precedence + 1

end InfixOp

/-- The unary operator that a token stands for. -/
def UnaryOp.ofToken? : TokenKind → Option UnaryOp
  | .symbol .not => some .not
  | .symbol .minus => some .neg
  | .symbol .plus => some .pos
  | .symbol .dollar => some .length
  | .keyword .kwTypeof => some .typeof
  | _ => none

/-- The counting operator that a token stands for. -/
def UpdateOp.ofToken? : TokenKind → Option UpdateOp
  | .symbol .increment => some .increment
  | .symbol .decrement => some .decrement
  | _ => none

/-- The assignment that a token stands for. -/
def AssignOp.ofToken? : TokenKind → Option AssignOp
  | .symbol .assign => some .set
  | .symbol .plusAssign => some .add
  | .symbol .minusAssign => some .sub
  | .symbol .starAssign => some .mul
  | .symbol .slashAssign => some .div
  | .symbol .percentAssign => some .mod
  | _ => none

/-- The comparison that a token stands for. -/
def CompareOp.ofToken? : TokenKind → Option CompareOp
  | .symbol .eq => some .eq
  | .symbol .ne => some .ne
  | .symbol .lt => some .lt
  | .symbol .gt => some .gt
  | .symbol .le => some .le
  | .symbol .ge => some .ge
  | _ => none

/-- The literal that a token stands for. -/
def Literal.ofToken? : TokenKind → Option Literal
  | .number q => some (.number q)
  | .string t => some (.string t)
  | .keyword .kwTrue => some (.bool true)
  | .keyword .kwFalse => some (.bool false)
  | .keyword .kwNull => some .null
  | _ => none

end ScriptEngine

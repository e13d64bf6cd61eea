import ScriptEngine.Text.Basic

/-!
# Pattern trees

A pattern is a regular expression with groups, backward references, lookarounds and three sorts of
repetition.

* `Pattern.Node` is the tree of a pattern.
* `Pattern.Node.width` bounds the lengths of the texts that a tree can match.
-/

namespace ScriptEngine.Pattern

/-- Options of a pattern or of a part of it. -/
structure Flags where
  ignoreCase : Bool := false
  multiline : Bool := false
  dotAll : Bool := false
  verbose : Bool := false
  ascii : Bool := false
  unicode : Bool := false
  locale : Bool := false
  template : Bool := false
deriving DecidableEq, Inhabited

namespace Flags

/-- The options that are set in one of two sets. -/
def union (a b : Flags) : Flags where
  ignoreCase := a.ignoreCase || b.ignoreCase
  multiline := a.multiline || b.multiline
  dotAll := a.dotAll || b.dotAll
  verbose := a.verbose || b.verbose
  ascii := a.ascii || b.ascii
  unicode := a.unicode || b.unicode
  locale := a.locale || b.locale
  template := a.template || b.template

/-- The options of the first set that are not in the second. -/
def without (a b : Flags) : Flags where
  ignoreCase := a.ignoreCase && !b.ignoreCase
  multiline := a.multiline && !b.multiline
  dotAll := a.dotAll && !b.dotAll
  verbose := a.verbose && !b.verbose
  ascii := a.ascii && !b.ascii
  unicode := a.unicode && !b.unicode
  locale := a.locale && !b.locale
  template := a.template && !b.template

/-- Whether two sets share an option. -/
def meets (a b : Flags) : Bool := a.without b ≠ a

/-- Whether no option is set. -/
def isEmpty (a : Flags) : Bool := a = {}

/-- The options that say which characters are letters and digits. -/
def types : Flags := { ascii := true, unicode := true, locale := true }

/-- The options that only a whole pattern can have. -/
def wholeOnly : Flags := { template := true }

/-- The option that a letter names. -/
def ofLetter? : CodePoint → Option Flags
  | .scalar 'i' => some { ignoreCase := true }
  | .scalar 'L' => some { locale := true }
  | .scalar 'm' => some { multiline := true }
  | .scalar 's' => some { dotAll := true }
  | .scalar 'x' => some { verbose := true }
  | .scalar 'a' => some { ascii := true }
  | .scalar 't' => some { template := true }
  | .scalar 'u' => some { unicode := true }
  | _ => none

/-- The options inside a group that sets some options and clears others. -/
def inside (outer set cleared : Flags) : Flags :=
  let base := if set.meets types then outer.without types else outer
  (base.union set).without cleared

end Flags

/-- The classes of characters that have an escape. -/
inductive Category where
  | digit | blank | word
deriving DecidableEq

/-- An item of a set of characters. -/
inductive SetItem where
  | single (n : Nat)
  | interval (low high : Nat)
  | category (c : Category) (negated : Bool)
deriving DecidableEq

/-- A place in the text that matches without taking a character. -/
inductive Anchor where
  | lineStart | lineEnd | textStart | textEnd | boundary | nonBoundary
deriving DecidableEq

/-- How a repetition chooses: as much as possible, as little as possible, or as much as possible
without ever giving back. -/
inductive Greed where
  | most | least | possessive
deriving DecidableEq

/-- The tree of a pattern. -/
inductive Node where
  | empty
  | literal (n : Nat)
  | any
  | set (negated : Bool) (items : List SetItem)
  | anchor (a : Anchor)
  | reference (group : Nat)
  | seq (first second : Node)
  | alt (first second : Node)
  | group (index : Option Nat) (set cleared : Flags) (body : Node)
  | atomic (body : Node)
  | loop (greed : Greed) (least : Nat) (most : Option Nat) (body : Node)
  | ahead (negated : Bool) (body : Node)
  | behind (negated : Bool) (body : Node)
  | conditional (group : Nat) (yes no : Node)
deriving Inhabited

/-- The least and the greatest length of the texts that a tree can match. -/
structure Width where
  least : Nat
  most : Nat
deriving DecidableEq, Inhabited

namespace Width

/-- The length from which on lengths are not told apart. -/
def limit : Nat := Nat.pow 2 64

/-- A width with both bounds below the limit. -/
def capped (w : Width) : Width := ⟨min w.least limit, min w.most limit⟩

/-- The width of one text after another. -/
def add (a b : Width) : Width := capped ⟨a.least + b.least, a.most + b.most⟩

/-- The width of one of two texts. -/
def either (a b : Width) : Width := ⟨min a.least b.least, max a.most b.most⟩

/-- The width of repeated texts. -/
def times (w : Width) (least : Nat) (most : Option Nat) : Width :=
  capped ⟨w.least * least, match most with
    | some n => w.most * n
    | none => if w.most = 0 then 0 else limit⟩

end Width

namespace Node

/-- The width of a tree, given the widths of its groups. -/
def width (groups : Nat → Width) : Node → Width
  | empty | anchor _ | ahead _ _ | behind _ _ => ⟨0, 0⟩
  | literal _ | any | set _ _ => ⟨1, 1⟩
  | reference g => groups g
  | seq a b => (a.width groups).add (b.width groups)
  | alt a b => (a.width groups).either (b.width groups)
  | group _ _ _ body => body.width groups
  | atomic body => body.width groups
  | loop _ least most body => (body.width groups).times least most
  | conditional _ yes no => (yes.width groups).either (no.width groups)

/-- Trees in a row. -/
def sequence : List Node → Node
  | [] => empty
  | [n] => n
  | n :: m :: rest => seq n (sequence (m :: rest))

/-- A choice between trees. -/
def choice : List Node → Node
  | [] => empty
  | [n] => n
  | n :: m :: rest => alt n (choice (m :: rest))

end Node

end ScriptEngine.Pattern

import ScriptEngine.Pattern.Parser
import ScriptEngine.Text.Case

/-!
# Matching

A tree is matched from a place in a text, with what is to be matched after it given as a continuation:
the first way to match the tree whose continuation succeeds is taken. A repetition never starts two
rounds at the same place, except for the rounds it must have.

* `Cursor` is a place in a text.
* `Node.matching` matches a tree, and `Tree.matchAt` a pattern, at a place.
-/

namespace ScriptEngine.Pattern

/-- A place in a text: what is before it, backwards, and what is after it. -/
structure Cursor where
  before : Text
  rest : Text
  position : Nat
deriving Inhabited

namespace Cursor

/-- The start of a text. -/
def start (t : Text) : Cursor := ⟨[], t, 0⟩

/-- The place after the next character, with that character. -/
def step? (c : Cursor) : Option (CodePoint × Cursor) :=
  match c.rest with
  | [] => none
  | x :: rest => some (x, ⟨x :: c.before, rest, c.position + 1⟩)

/-- The place some characters back. -/
def back? (c : Cursor) (n : Nat) : Option Cursor :=
  if n ≤ c.position then
    some ⟨c.before.drop n, (c.before.take n).reverse ++ c.rest, c.position - n⟩
  else none

/-- The text from a position up to the place. -/
def textFrom (c : Cursor) (position : Nat) : Text :=
  (c.before.take (c.position - position)).reverse

end Cursor

/-- A match so far: a place, and the texts of the groups, the latest first. -/
structure Progress where
  cursor : Cursor
  groups : List (Nat × Text) := []
deriving Inhabited

/-- What is to be matched next. -/
abbrev Next := Progress → Option Progress

/-- A way to match, given what is to be matched next. -/
abbrev Matcher := Progress → Next → Option Progress

/-! ## Characters -/

/-- Whether a character is a digit. -/
def isDigitFor (flags : Flags) (c : CodePoint) : Bool :=
  if flags.ascii then c.isAsciiDigit else c.isDecimal

/-- Whether a character is a blank. -/
def isBlankFor (flags : Flags) (c : CodePoint) : Bool :=
  if flags.ascii then Read.isVerboseBlank c else c.isBlank

/-- Whether a character is part of a word. -/
def isWordFor (flags : Flags) (c : CodePoint) : Bool :=
  c = .scalar '_' ||
    (if flags.ascii then isAsciiLetter c || c.isAsciiDigit else c.isAlphanumeric)

/-- Whether a character is in a class. -/
def Category.holds (flags : Flags) (c : CodePoint) : Category → Bool
  | .digit => isDigitFor flags c
  | .blank => isBlankFor flags c
  | .word => isWordFor flags c

/-- The lower case of a character as the options have it. -/
def folded (flags : Flags) (n : Nat) : Nat :=
  if flags.ascii then asciiLowerCase n else lowerCase n

/-- The characters that count as the same as a character when case is ignored. -/
def variants (flags : Flags) (n : Nat) : List Nat :=
  if flags.ascii then
    let low := asciiLowerCase n
    if 97 ≤ low ∧ low ≤ 122 then [low, low - 32] else [low]
  else (sameLetters (lowerCase n)).flatMap withLowerCase

/-- Whether a character is a given one. -/
def isCharacter (flags : Flags) (n : Nat) (c : CodePoint) : Bool :=
  if flags.ignoreCase then c.toNat = n || (variants flags c.toNat).contains n else c.toNat = n

/-- Whether a character is in an interval. -/
def isBetween (flags : Flags) (low high : Nat) (c : CodePoint) : Bool :=
  let within (n : Nat) : Bool := low ≤ n && n ≤ high
  if flags.ignoreCase then within c.toNat || (variants flags c.toNat).any within
  else within c.toNat

/-- Whether a character is what an item of a set says. -/
def SetItem.holds (flags : Flags) (c : CodePoint) : SetItem → Bool
  | .single n => isCharacter flags n c
  | .interval low high => isBetween flags low high c
  | .category sort negated => sort.holds flags c != negated

/-- Matches one character of a class. -/
def character (p : CodePoint → Bool) : Matcher := fun r next =>
  match r.cursor.step? with
  | some (c, cursor) => if p c then next { r with cursor := cursor } else none
  | none => none

/-! ## Anchors -/

/-- Whether the character before a place, if there is one, satisfies a condition. -/
def Cursor.isAfter (c : Cursor) (p : CodePoint → Bool) : Bool := c.before.head?.any p

/-- Whether the character after a place, if there is one, satisfies a condition. -/
def Cursor.isBefore (c : Cursor) (p : CodePoint → Bool) : Bool := c.rest.head?.any p

/-- Whether one side of a place is in a word and the other is not. -/
def Cursor.isBoundary (flags : Flags) (c : Cursor) : Bool :=
  c.isAfter (isWordFor flags) != c.isBefore (isWordFor flags)

/-- Whether a place is where an anchor holds. An empty text has neither boundaries nor other
places. -/
def Anchor.holds (flags : Flags) (c : Cursor) : Anchor → Bool
  | .lineStart => c.before.isEmpty || (flags.multiline && c.isAfter (· = .scalar '\n'))
  | .lineEnd =>
    c.rest.isEmpty || c.rest = [.scalar '\n'] ||
      (flags.multiline && c.isBefore (· = .scalar '\n'))
  | .textStart => c.before.isEmpty
  | .textEnd => c.rest.isEmpty
  | .boundary => !(c.before.isEmpty && c.rest.isEmpty) && c.isBoundary flags
  | .nonBoundary => !(c.before.isEmpty && c.rest.isEmpty) && !c.isBoundary flags

/-! ## Groups and repetitions -/

/-- Matches a given text. -/
def exactly (flags : Flags) : Text → Matcher
  | [] => fun r next => next r
  | x :: rest => fun r next =>
    let same (c : CodePoint) : Bool :=
      if flags.ignoreCase then folded flags c.toNat = folded flags x.toNat else c = x
    character same r fun r => exactly flags rest r next

/-- Keeps the text that a body matches as the text of a group. -/
def keeping (group : Nat) (body : Matcher) : Matcher := fun r next =>
  let start := r.cursor.position
  body r fun r' => next { r' with groups := (group, r'.cursor.textFrom start) :: r'.groups }

/-- Matches a body without coming back to it. -/
def once (body : Matcher) : Matcher := fun r next => (body r some).bind next

/-- Whether another round may start after `count` rounds, the latest of which started at `last`. -/
def another (most : Option Nat) (count : Nat) (last : Option Nat) (r : Progress) : Bool :=
  most.all (count < ·) && last ≠ some r.cursor.position

/-- As many rounds as possible. -/
def asManyAs (body : Matcher) (least : Nat) (most : Option Nat) :
    Nat → Nat → Option Nat → Matcher
  | 0, _, _ => fun r next => next r
  | fuel + 1, count, last => fun r next =>
    if count < least then body r fun r => asManyAs body least most fuel (count + 1) last r next
    else
      let longer :=
        if another most count last r then
          body r fun r' =>
            asManyAs body least most fuel (count + 1) (some r.cursor.position) r' next
        else none
      longer.orElse fun _ => next r

/-- As few rounds as possible. -/
def asFewAs (body : Matcher) (least : Nat) (most : Option Nat) :
    Nat → Nat → Option Nat → Matcher
  | 0, _, _ => fun r next => next r
  | fuel + 1, count, last => fun r next =>
    if count < least then body r fun r => asFewAs body least most fuel (count + 1) last r next
    else
      (next r).orElse fun _ =>
        if another most count last r then
          body r fun r' =>
            asFewAs body least most fuel (count + 1) (some r.cursor.position) r' next
        else none

/-- Rounds of a body, chosen as the sort of repetition says. -/
def repeatedly (greed : Greed) (body : Matcher) (least : Nat) (most : Option Nat) : Matcher :=
  fun r next =>
    let fuel := least + r.cursor.rest.length + 2
    match greed with
    | .most => asManyAs body least most fuel 0 none r next
    | .least => asFewAs body least most fuel 0 none r next
    | .possessive => once (asManyAs (once body) least most fuel 0 none) r next

/-- Matches a tree. -/
def Node.matching (groups : Nat → Width) (flags : Flags) : Node → Matcher
  | .empty => fun r next => next r
  | .literal n => character (isCharacter flags n)
  | .any => character fun c => flags.dotAll || c ≠ .scalar '\n'
  | .set negated items => character fun c => items.any (·.holds flags c) != negated
  | .anchor a => fun r next => if a.holds flags r.cursor then next r else none
  | .reference g => fun r next =>
    match r.groups.lookup g with
    | some t => exactly flags t r next
    | none => none
  | .seq a b => fun r next => a.matching groups flags r fun r => b.matching groups flags r next
  | .alt a b => fun r next =>
    (a.matching groups flags r next).orElse fun _ => b.matching groups flags r next
  | .group index on off body =>
    let inner := body.matching groups (flags.inside on off)
    match index with
    | some g => keeping g inner
    | none => inner
  | .atomic body => once (body.matching groups flags)
  | .loop greed least most body => repeatedly greed (body.matching groups flags) least most
  | .ahead negated body => fun r next =>
    match body.matching groups flags r some, negated with
    | some r', false => next { r' with cursor := r.cursor }
    | none, true => next r
    | _, _ => none
  | .behind negated body => fun r next =>
    let found := (r.cursor.back? (body.width groups).least).bind fun cursor =>
      body.matching groups flags { r with cursor := cursor } some
    match found, negated with
    | some r', false => next { r' with cursor := r.cursor }
    | none, true => next r
    | _, _ => none
  | .conditional g yes no => fun r next =>
    if (r.groups.lookup g).isSome then yes.matching groups flags r next
    else no.matching groups flags r next

/-- Matches a pattern at a place. If the match has to advance, it must not be empty. -/
def Tree.matchAt (t : Tree) (cursor : Cursor) (advance : Bool) : Option Progress :=
  t.root.matching t.groupWidth t.flags { cursor := cursor } fun r =>
    if advance && r.cursor.position == cursor.position then none else some r

/-- The first match at a place or behind it, with the place where it starts. Only a match at the place
itself may have to advance. -/
def Tree.searchFrom (t : Tree) (advance : Bool) : Nat → Cursor → Option (Cursor × Progress)
  | 0, _ => none
  | fuel + 1, cursor =>
    match t.matchAt cursor advance with
    | some r => some (cursor, r)
    | none => cursor.step?.bind fun (_, behind) => t.searchFrom false fuel behind

/-- The first match at a place or behind it. -/
def Tree.search (t : Tree) (advance : Bool) (cursor : Cursor) : Option (Cursor × Progress) :=
  t.searchFrom advance (cursor.rest.length + 1) cursor

/-- Whether a pattern matches somewhere in a text. -/
def Tree.occursIn (t : Tree) (text : Text) : Bool := (t.search false (.start text)).isSome

end ScriptEngine.Pattern

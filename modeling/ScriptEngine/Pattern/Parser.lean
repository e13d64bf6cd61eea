import ScriptEngine.Pattern.Escape

/-!
# The grammar of patterns

A pattern is a choice between rows of items, and an item is a character, an escape, a set, an anchor, a
group, or a repetition of the item before it.

* `Read.alternatives` reads a choice, `Read.items` a row.
* `Tree.ofText` reads a whole pattern.
-/

namespace ScriptEngine.Pattern

namespace Read

/-- Characters that are left out in verbose patterns. -/
def isVerboseBlank (c : CodePoint) : Bool := [32, 9, 10, 13, 11, 12].contains c.toNat

/-- Takes units up to the end of a line. -/
def skipLine : Nat → Read Unit
  | 0 => return ()
  | fuel + 1 => do
    match ← next with
    | none => return ()
    | some p => if p = .plain (.scalar '\n') then return () else skipLine fuel

/-- Takes units up to the end of a comment that was opened at `start`. -/
def skipComment (start : Nat) : Nat → Read Unit
  | 0 => return ()
  | fuel + 1 => do
    if (← peek).isNone then
      fail (.missing "), unterminated comment") ((← place) - start)
    else if (← next) = some (.plain (.scalar ')')) then return ()
    else skipComment start fuel

/-! ## Sets -/

/-- An item of a set from its first unit. -/
def setItem : Piece → Read SetItem
  | .escape c => setEscape c
  | p => return .single ((p.text.head?.map CodePoint.toNat).getD 0)

/-- The next unit of a set that was opened at `start`. -/
def setPiece (start : Nat) : Read Piece := do
  match ← next with
  | some p => return p
  | none => fail .unterminatedSet ((← place) - start)

/-- The interval between two items of a set, written by the given units. -/
def interval (first last : Piece) (low high : SetItem) : Read SetItem := do
  let refuse : Read SetItem :=
    fail (.badRange first.text last.text) (first.text.length + 1 + last.text.length)
  match low, high with
  | .single a, .single b => if b < a then refuse else return .interval a b
  | _, _ => refuse

/-- The items of a set that was opened at `start`, up to its closing bracket. A closing bracket at the
front is an item. -/
def setItems (start : Nat) : Nat → List SetItem → Read (List SetItem)
  | 0, found => return found
  | fuel + 1, found => do
    let first ← setPiece start
    if first = .plain (.scalar ']') ∧ found ≠ [] then return found
    else
      let low ← setItem first
      if ← accept '-' then
        let last ← setPiece start
        if last = .plain (.scalar ']') then return found ++ [low, .single 45]
        else
          let high ← setItem last
          setItems start fuel (found ++ [← interval first last low high])
      else setItems start fuel (found ++ [low])

/-- A set after its opening bracket. -/
def characterSet : Read Node := do
  let start := (← place) - 1
  let negated ← accept '^'
  return .set negated (← setItems start ((← get).pieces.length + 1) [])

/-! ## Repetitions -/

/-- The bounds of a repetition. -/
structure Bounds where
  least : Nat
  most : Option Nat

/-- The count that is too high for a repetition. -/
def repeatLimit : Nat := 4294967295

/-- A count of a repetition, if it is written. -/
def repeatCount? (digits : Text) : Read (Option Nat) := do
  if digits.isEmpty then return none
  else
    let n := Text.decimalNumber digits
    if n ≥ repeatLimit then throw .excessiveRepeat else return some n

/-- The bounds between braces after the opening one at `here`, unless the brace is a plain
character. -/
def bracedBounds (here : Nat) : Read (Option Bounds) := do
  let start ← get
  if (← peek) = some (.plain (.scalar '}')) then return none
  else
    let length := start.pieces.length
    let low ← upTo CodePoint.isAsciiDigit length
    let high ← if ← accept ',' then upTo CodePoint.isAsciiDigit length else pure low
    if !(← accept '}') then
      set start
      return none
    else
      let least ← repeatCount? low
      let most ← repeatCount? high
      if most.any (· < least.getD 0) then fail .crossedBounds ((← place) - here)
      else return some ⟨least.getD 0, most⟩

/-- The bounds that a repetition sign means, unless it is a plain character. -/
def bounds (c : CodePoint) (here : Nat) : Read (Option Bounds) :=
  if c = .scalar '?' then return some ⟨0, some 1⟩
  else if c = .scalar '*' then return some ⟨0, none⟩
  else if c = .scalar '+' then return some ⟨1, none⟩
  else bracedBounds here

/-- How the repetition chooses, by the sign after it. -/
def greed : Read Greed := do
  if ← accept '?' then return .least
  else if ← accept '+' then return .possessive
  else return .most

/-- Repeats the last of the items, which are in reverse order. -/
def repeated (here : Nat) (b : Bounds) : List Node → Read (List Node)
  | [] => do fail .nothingToRepeat ((← place) - here + 1)
  | .anchor _ :: _ => do fail .nothingToRepeat ((← place) - here + 1)
  | .loop _ _ _ _ :: _ => do fail .multipleRepeat ((← place) - here + 1)
  | item :: others => do return .loop (← greed) b.least b.most item :: others

/-! ## Groups -/

/-- Opens a group. -/
def openGroup (name : Option Text) : Read Nat := do
  let s ← get
  let group := s.widths.length + 1
  match name with
  | none =>
    set { s with widths := s.widths ++ [none] }
    return group
  | some n =>
    match s.names.lookup n with
    | some old => fail (.redefinedGroup n group old) (n.length + 1)
    | none =>
      set { s with widths := s.widths ++ [none], names := s.names ++ [(n, group)] }
      return group

/-- The width of a group, if it is known. -/
def widthOf (widths : List (Option Width)) (group : Nat) : Width :=
  (widths.getD (group - 1) none).getD ⟨0, 0⟩

/-- Closes a group. -/
def closeGroup (group : Nat) (body : Node) : Read Unit :=
  modify fun s =>
    { s with widths := s.widths.set (group - 1) (some (body.width (widthOf s.widths))) }

/-- Checks that a text is the name of a group. -/
def checkName (n : Text) : Read Unit :=
  if isName n then return () else fail (.badGroupName n) (n.length + 1)

/-- A reference to a group by its name. -/
def namedReference : Read Node := do
  let n ← name ')' "group name"
  checkName n
  match (← get).names.lookup n with
  | none => fail (.unknownGroup n) (n.length + 1)
  | some group =>
    if !(← isClosed group) then fail .openGroup (n.length + 1)
    else
      checkLookbehind group
      return .reference group

/-- The group that a condition asks for. -/
def conditionGroup : Read Nat := do
  let n ← name ')' "group name"
  if isName n then
    match (← get).names.lookup n with
    | some group => return group
    | none => fail (.unknownGroup n) (n.length + 1)
  else
    match groupNumber? n with
    | none => fail (.badGroupName n) (n.length + 1)
    | some 0 => fail .badGroupNumber (n.length + 1)
    | some group =>
      let here := (← place) - n.length - 1
      modify fun s =>
        if (s.references.lookup group).isSome then s
        else { s with references := s.references ++ [(group, here)] }
      return group

/-- The letter of an option, or the end of the pattern. -/
def flagPiece (what : Text) : Read CodePoint := do
  match ← next with
  | none => fail (.missing what)
  | some (.plain c) => return c
  | some p => fail (.missing what) p.text.length

/-- Checks that a character which is no option may stand there. -/
def notAFlag {α : Type} (c : CodePoint) (what : Text) : Read α :=
  if c.isLetter then fail .unknownFlag 1 else fail (.missing what) 1

/-- Reads the options to set, the first of which is given, up to the sign after them. -/
def flagsToSet : Nat → CodePoint → Flags → Read (Flags × CodePoint)
  | 0, c, found => return (found, c)
  | fuel + 1, c, found => do
    match Flags.ofLetter? c with
    | none => notAFlag c "-, : or )"
    | some flag =>
      if flag.locale then fail .localeFlag
      else
        let all := found.union flag
        if flag.meets Flags.types && (all.without flag).meets Flags.types then
          fail .incompatibleFlags
        else
          let c ← flagPiece "-, : or )"
          if c = .scalar ')' ∨ c = .scalar '-' ∨ c = .scalar ':' then return (all, c)
          else flagsToSet fuel c all

/-- Reads the options to clear, the first of which is given, up to the colon. -/
def flagsToClear : Nat → CodePoint → Flags → Read Flags
  | 0, _, found => return found
  | fuel + 1, c, found => do
    match Flags.ofLetter? c with
    | none => notAFlag c ":"
    | some flag =>
      if flag.meets Flags.types then fail .typeFlagTurnedOff
      else
        let all := found.union flag
        let c ← flagPiece ":"
        if c = .scalar ':' then return all else flagsToClear fuel c all

/-- Reads the options of a group. Without a colon they are for the whole pattern, and nothing is
given. -/
def groupFlags (c : CodePoint) : Read (Option (Flags × Flags)) := do
  let fuel := (← get).pieces.length + 1
  let (on, sign) ← if c = .scalar '-' then pure ({}, c) else flagsToSet fuel c {}
  if sign = .scalar ')' then
    modify fun s => { s with flags := s.flags.union on }
    return none
  else if on.meets Flags.wholeOnly then fail .wholeFlagTurnedOn 1
  else
    let off ← if sign = .scalar '-' then do
        let c ← flagPiece "flag"
        if (Flags.ofLetter? c).isNone then notAFlag c "flag"
        else flagsToClear fuel c {}
      else pure {}
    if off.meets Flags.wholeOnly then fail .wholeFlagTurnedOff 1
    else if on.meets off then fail .flagOnAndOff 1
    else return some (on, off)

/-- What stands after an opening parenthesis. -/
inductive Opening where
  | capture (name : Option Text)
  | plain
  | atomic
  | options (on off : Flags)
  | wholeOptions
  | ahead (negated : Bool)
  | behind (negated : Bool)
  | condition
  | reference (n : Node)
  | comment

/-- The unit after a question mark. -/
def extension : Read Piece := do
  match ← next with
  | some p => return p
  | none => fail .unexpectedEnd

/-- What stands after an opening parenthesis at `start`. -/
def opening (start : Nat) : Read Opening := do
  if !(← accept '?') then return .capture none
  else
    let p ← extension
    match p with
    | .plain (.scalar 'P') =>
      if ← accept '<' then
        let n ← name '>' "group name"
        checkName n
        return .capture (some n)
      else if ← accept '=' then return .reference (← namedReference)
      else
        let q ← extension
        fail (.unknownExtension ("P" ++ q.text)) (q.text.length + 2)
    | .plain (.scalar ':') => return .plain
    | .plain (.scalar '#') =>
      skipComment start ((← get).pieces.length + 1)
      return .comment
    | .plain (.scalar '=') => return .ahead false
    | .plain (.scalar '!') => return .ahead true
    | .plain (.scalar '<') =>
      match ← extension with
      | .plain (.scalar '=') => return .behind false
      | .plain (.scalar '!') => return .behind true
      | q => fail (.unknownExtension ("<" ++ q.text)) (q.text.length + 2)
    | .plain (.scalar '(') => return .condition
    | .plain (.scalar '>') => return .atomic
    | .plain c =>
      if (Flags.ofLetter? c).isSome ∨ c = .scalar '-' then
        match ← groupFlags c with
        | some (on, off) => return .options on off
        | none => return .wholeOptions
      else fail (.unknownExtension p.text) (p.text.length + 1)
    | _ => fail (.unknownExtension p.text) (p.text.length + 1)

/-- Takes the closing parenthesis of a group that was opened at `start`. -/
def close (start : Nat) : Read Unit := do
  if ← accept ')' then return ()
  else fail (.missing "), unterminated subpattern") ((← place) - start)

/-- Whether a character has a meaning of its own in patterns. -/
def isSign (c : CodePoint) : Bool := Text.ofString ".\\[\x7b()*+?^$|" |>.contains c

/-- Whether a character repeats the item before it. -/
def isRepeatSign (c : CodePoint) : Bool := Text.ofString "*+?\x7b" |>.contains c

mutual

/-- A choice between rows; `outermost` tells that no group is around it. -/
def alternatives (fuel : Nat) (verbose outermost : Bool) : Read Node :=
  match fuel with
  | 0 => return .empty
  | fuel + 1 => do
    let first ← items fuel verbose outermost []
    let rest ← moreAlternatives fuel verbose outermost
    return .choice (first :: rest)

/-- The further rows of a choice. -/
def moreAlternatives (fuel : Nat) (verbose outermost : Bool) : Read (List Node) :=
  match fuel with
  | 0 => return []
  | fuel + 1 => do
    if ← accept '|' then
      let flags := (← get).flags
      let verbose := if outermost then flags.verbose else verbose
      let n ← items fuel verbose false []
      return n :: (← moreAlternatives fuel verbose outermost)
    else return []

/-- A row of items up to a bar, a closing parenthesis or the end. The items found so far are in
reverse order; `first` tells that options for the whole pattern may still come. -/
def items (fuel : Nat) (verbose first : Bool) (found : List Node) : Read Node :=
  match fuel with
  | 0 => return .sequence found.reverse
  | fuel + 1 => do
    match ← peek with
    | none => return .sequence found.reverse
    | some (.plain (.scalar '|')) => return .sequence found.reverse
    | some (.plain (.scalar ')')) => return .sequence found.reverse
    | some p =>
      let _ ← next
      match p with
      | .dangling => fail .danglingEscape 1
      | .escape c => items fuel verbose first ((← patternEscape c) :: found)
      | .plain c =>
        if verbose && isVerboseBlank c then items fuel verbose first found
        else if verbose && c = .scalar '#' then
          skipLine ((← get).pieces.length + 1)
          items fuel verbose first found
        else if !isSign c then items fuel verbose first (.literal c.toNat :: found)
        else if c = .scalar '[' then items fuel verbose first ((← characterSet) :: found)
        else if c = .scalar '.' then items fuel verbose first (.any :: found)
        else if c = .scalar '^' then items fuel verbose first (.anchor .lineStart :: found)
        else if c = .scalar '$' then items fuel verbose first (.anchor .lineEnd :: found)
        else if isRepeatSign c then
          let here ← place
          match ← bounds c here with
          | none => items fuel verbose first (.literal c.toNat :: found)
          | some b => items fuel verbose first (← repeated here b found)
        else
          let start := (← place) - 1
          match ← opening start with
          | .comment => items fuel verbose first found
          | .reference n => items fuel verbose first (n :: found)
          | .wholeOptions =>
            if !first || !found.isEmpty then fail .lateFlags ((← place) - start)
            else do items fuel (← get).flags.verbose first found
          | .condition =>
            let n ← conditional fuel verbose start
            items fuel verbose first (n :: found)
          | .ahead negated =>
            let body ← alternatives fuel verbose false
            close start
            items fuel verbose first (.ahead negated body :: found)
          | .behind negated =>
            let n ← lookbehind fuel verbose start negated
            items fuel verbose first (n :: found)
          | .atomic =>
            let body ← alternatives fuel verbose false
            close start
            items fuel verbose first (.atomic body :: found)
          | .plain =>
            let body ← alternatives fuel verbose false
            close start
            items fuel verbose first (.group none {} {} body :: found)
          | .options on off =>
            let body ← alternatives fuel ((verbose || on.verbose) && !off.verbose) false
            close start
            items fuel verbose first (.group none on off body :: found)
          | .capture name =>
            let group ← openGroup name
            let body ← alternatives fuel verbose false
            close start
            closeGroup group body
            items fuel verbose first (.group (some group) {} {} body :: found)

/-- A lookbehind that was opened at `start`. -/
def lookbehind (fuel : Nat) (verbose : Bool) (start : Nat) (negated : Bool) : Read Node :=
  match fuel with
  | 0 => return .empty
  | fuel + 1 => do
    let outer := (← get).lookbehindGroups
    let count ← groups
    modify fun s => { s with lookbehindGroups := some (outer.getD count) }
    let body ← alternatives fuel verbose false
    modify fun s => { s with lookbehindGroups := outer }
    close start
    return .behind negated body

/-- A condition on a group, with a row for each case, that was opened at `start`. -/
def conditional (fuel : Nat) (verbose : Bool) (start : Nat) : Read Node :=
  match fuel with
  | 0 => return .empty
  | fuel + 1 => do
    let group ← conditionGroup
    checkLookbehind group
    let yes ← items fuel verbose false []
    if ← accept '|' then
      let no ← items fuel verbose false []
      if (← peek) = some (.plain (.scalar '|')) then fail .tooManyBranches
      else
        close start
        return .conditional group yes no
    else
      close start
      return .conditional group yes .empty

end

/-- Reads a whole pattern. -/
def pattern : Read Node := do
  settle
  let fuel := 4 * (← get).pieces.length + 8
  let n ← alternatives fuel false true
  let s ← get
  if s.flags.ascii && s.flags.unicode then throw .clashingFlags
  else if !s.pieces.isEmpty then fail .unbalancedParenthesis
  else match s.references.find? fun (group, _) => s.widths.length < group with
    | some (group, here) => throw (.malformed (.invalidReference group) (some here))
    | none => return n

end Read

/-- The most that a lookbehind may look back. -/
def lookbehindLimit : Nat := 4294967295

namespace Greed

/-- The name of a sort of repetition in messages. -/
def label : Greed → Text
  | most => "MAX_REPEAT"
  | least => "MIN_REPEAT"
  | possessive => "POSSESSIVE_REPEAT"

end Greed

/-- Checks what only the whole tree shows: every lookbehind looks at texts of one length, and a
template has no repetitions. -/
def Node.check (groups : Nat → Width) (flags : Flags) : Node → Except Cause Unit
  | .seq a b => do
    a.check groups flags
    b.check groups flags
  | .alt a b => do
    a.check groups flags
    b.check groups flags
  | .group _ on off body => body.check groups (flags.inside on off)
  | .atomic body => body.check groups flags
  | .loop greed _ _ body =>
    if flags.template then .error (.templateOperator greed.label) else body.check groups flags
  | .ahead _ body => body.check groups flags
  | .behind _ body =>
    let w := body.width groups
    if w.least > lookbehindLimit then .error .longLookbehind
    else if w.least ≠ w.most then .error .variableLookbehind
    else body.check groups flags
  | .conditional _ yes no => do
    yes.check groups flags
    no.check groups flags
  | _ => .ok ()

/-- A pattern that has been read: its tree, its options, and its groups with their names and
widths. -/
structure Tree where
  root : Node
  flags : Flags
  names : List (Text × Nat)
  widths : List (Option Width)

namespace Tree

/-- The number of groups. -/
def groupCount (t : Tree) : Nat := t.widths.length

/-- The width of a group. -/
def groupWidth (t : Tree) (group : Nat) : Width := Read.widthOf t.widths group

/-- Reads a pattern. -/
def ofText (source : Text) : Except Error Tree := do
  let (root, s) ← StateT.run Read.pattern { pieces := Piece.ofText source }
  let t : Tree := ⟨root, s.flags, s.names, s.widths⟩
  match root.check t.groupWidth t.flags with
  | .ok () => return t
  | .error cause => throw (.malformed cause none)

end Tree

end ScriptEngine.Pattern

import ScriptEngine.Text.Quoted

/-!
# Errors of patterns and templates

Why a text is not a pattern or not a template of a replacement, and the place in it where that shows.
-/

namespace ScriptEngine.Pattern

/-- What is wrong with a pattern or a template. -/
inductive Cause where
  | danglingEscape
  | badEscape (escape : Text)
  | incompleteEscape (escape : Text)
  | octalTooLarge (escape : Text)
  | missing (what : Text)
  | unknownCharacterName (name : Text)
  | openGroup
  | groupOfLookbehind
  | invalidReference (group : Nat)
  | badRange (first last : Text)
  | unterminatedSet
  | crossedBounds
  | nothingToRepeat
  | multipleRepeat
  | unexpectedEnd
  | unknownExtension (extension : Text)
  | unknownGroup (name : Text)
  | badGroupName (name : Text)
  | badGroupNumber
  | redefinedGroup (name : Text) (group old : Nat)
  | tooManyBranches
  | lateFlags
  | unknownFlag
  | localeFlag
  | incompatibleFlags
  | wholeFlagTurnedOn
  | wholeFlagTurnedOff
  | typeFlagTurnedOff
  | flagOnAndOff
  | unbalancedParenthesis
  | variableLookbehind
  | longLookbehind
  | templateOperator (name : Text)

namespace Cause

/-- The words for a cause. -/
def message : Cause → Text
  | danglingEscape => "bad escape (end of pattern)"
  | badEscape e => "bad escape " ++ e
  | incompleteEscape e => "incomplete escape " ++ e
  | octalTooLarge e => "octal escape value " ++ e ++ " outside of range 0-0o377"
  | missing what => "missing " ++ what
  | unknownCharacterName n => "undefined character name " ++ n.quoted
  | openGroup => "cannot refer to an open group"
  | groupOfLookbehind => "cannot refer to group defined in the same lookbehind subpattern"
  | invalidReference g => "invalid group reference " ++ Text.ofNat g
  | badRange a b => "bad character range " ++ a ++ "-" ++ b
  | unterminatedSet => "unterminated character set"
  | crossedBounds => "min repeat greater than max repeat"
  | nothingToRepeat => "nothing to repeat"
  | multipleRepeat => "multiple repeat"
  | unexpectedEnd => "unexpected end of pattern"
  | unknownExtension e => "unknown extension ?" ++ e
  | unknownGroup n => "unknown group name " ++ n.quoted
  | badGroupName n => "bad character in group name " ++ n.quoted
  | badGroupNumber => "bad group number"
  | redefinedGroup n group old =>
    "redefinition of group name " ++ n.quoted ++ " as group " ++ Text.ofNat group ++
      "; was group " ++ Text.ofNat old
  | tooManyBranches => "conditional backref with more than two branches"
  | lateFlags => "global flags not at the start of the expression"
  | unknownFlag => "unknown flag"
  | localeFlag => "bad inline flags: cannot use 'L' flag with a str pattern"
  | incompatibleFlags => "bad inline flags: flags 'a', 'u' and 'L' are incompatible"
  | wholeFlagTurnedOn => "bad inline flags: cannot turn on global flag"
  | wholeFlagTurnedOff => "bad inline flags: cannot turn off global flag"
  | typeFlagTurnedOff => "bad inline flags: cannot turn off flags 'a', 'u' and 'L'"
  | flagOnAndOff => "bad inline flags: flag turned on and off"
  | unbalancedParenthesis => "unbalanced parenthesis"
  | variableLookbehind => "look-behind requires fixed-width pattern"
  | longLookbehind => "looks too much behind"
  | templateOperator n => "internal: unsupported template operator " ++ n

end Cause

/-- An error of a pattern or a template: a cause with its place, if it has one; a repetition that is
counted too high; options that exclude each other; or a group that a template names and the pattern
does not have. -/
inductive Error where
  | malformed (cause : Cause) (position : Option Nat)
  | excessiveRepeat
  | clashingFlags
  | unknownGroupName (name : Text)

/-- The message about a cause at a place in a text. If the text has several lines, the line and the
column are told as well. -/
def located (cause : Cause) (position : Option Nat) (source : Text) : Text :=
  match position with
  | none => cause.message
  | some p =>
    let before := source.take p
    let line := before.count (.scalar '\n') + 1
    let column := (before.reverse.takeWhile (· ≠ .scalar '\n')).length + 1
    cause.message ++ " at position " ++ Text.ofNat p ++
      (if source.contains (.scalar '\n') then
        " (line " ++ Text.ofNat line ++ ", column " ++ Text.ofNat column ++ ")"
      else ([] : Text))

end ScriptEngine.Pattern

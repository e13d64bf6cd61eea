import ScriptEngine.Text.Basic

/-!
# Lines

* `Text.lines` cuts a text at every line boundary known to Unicode, which is how excerpts of a
  source are cut.
* `Text.newlinesUnified` is how a file is read: each line end becomes one line feed.
-/

namespace ScriptEngine

/-- Whether a code point ends a line on its own. -/
def CodePoint.isLineBreak (c : CodePoint) : Bool :=
  [0x0A, 0x0B, 0x0C, 0x0D, 0x1C, 0x1D, 0x1E, 0x85, 0x2028, 0x2029].contains c.toNat

namespace Text

/-- The lines of a text without their ends. A carriage return and the line feed after it are one
end, and a text that ends with a line end has no empty last line. -/
def lines : Text → List Text
  | [] => []
  | .scalar '\r' :: .scalar '\n' :: rest => [] :: lines rest
  | c :: rest =>
    if c.isLineBreak then [] :: lines rest
    else match lines rest with
      | [] => [[c]]
      | first :: others => (c :: first) :: others

/-- The line with a given number, counted from one. -/
def line? (t : Text) : Nat → Option Text
  | 0 => none
  | n + 1 => t.lines[n]?

/-- Replaces each carriage return, and each pair of carriage return and line feed, by a line
feed. -/
def newlinesUnified : Text → Text
  | [] => []
  | .scalar '\r' :: .scalar '\n' :: rest => .scalar '\n' :: newlinesUnified rest
  | c :: rest => (if c = '\r' then .scalar '\n' else c) :: newlinesUnified rest

/-- The text up to and including its first line feed, and what follows. -/
def firstLine : Text → Text × Text
  | [] => ([], [])
  | c :: rest =>
    if c = '\n' then ([c], rest)
    else let (line, others) := firstLine rest; (c :: line, others)

end Text

end ScriptEngine

import ScriptEngine.Text.Basic

/-!
# Occurrences in a text

* `Text.occursIn` says whether a text is part of another.
* `Text.splitOn` cuts a text at the occurrences of a separator, from left to right and without
  overlaps.
-/

namespace ScriptEngine.Text

/-- Whether a text occurs in another. -/
def occursIn (part : Text) : Text → Bool
  | [] => part.isEmpty
  | c :: rest => part.isPrefixOf (c :: rest) || occursIn part rest

/-- Puts a code point in front of the first piece. -/
def onFirst (c : CodePoint) : List Text → List Text
  | [] => [[c]]
  | piece :: others => (c :: piece) :: others

/-- The pieces of a text between the occurrences of a separator that is not empty. -/
def splitOn (sep : Text) (t : Text) : List Text :=
  match t with
  | [] => [[]]
  | c :: rest =>
    if _h : sep ≠ [] ∧ sep.isPrefixOf (c :: rest) then
      [] :: splitOn sep ((c :: rest).drop sep.length)
    else onFirst c (splitOn sep rest)
termination_by t.length
decreasing_by
  · have := List.length_pos_iff.2 _h.1
    simp; omega
  · simp

end ScriptEngine.Text

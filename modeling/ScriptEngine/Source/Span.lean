import ScriptEngine.Text.Basic

/-!
# Locations and spans

A location is a position in a source: line and column counted from one, offset from zero, all in
code points. Only a line feed ends a line. `Location.after` says where a location moves when a text
is read from it, so a location reached by reading is a function of the text before it.
-/

namespace ScriptEngine

/-- A position in a source, with the name of the source if it has one. -/
structure Location where
  line : Nat
  column : Nat
  offset : Nat
  file : Option Text := none
deriving DecidableEq, Inhabited

namespace Location

/-- The first position of a source. -/
def origin (file : Option Text) : Location := ⟨1, 1, 0, file⟩

/-- The position after one code point. -/
def next (l : Location) (c : CodePoint) : Location :=
  if c = '\n' then ⟨l.line + 1, 1, l.offset + 1, l.file⟩
  else ⟨l.line, l.column + 1, l.offset + 1, l.file⟩

/-- The position after a text. -/
def after (l : Location) (t : Text) : Location := t.foldl next l

@[simp] theorem after_nil (l : Location) : l.after [] = l := rfl

theorem after_append (l : Location) (s t : Text) : l.after (s ++ t) = (l.after s).after t := by
  simp [after]

@[simp] theorem offset_after (l : Location) (t : Text) : (l.after t).offset = l.offset + t.length := by
  induction t generalizing l with
  | nil => rfl
  | cons c rest ih =>
    have hnext : (l.next c).offset = l.offset + 1 := by
      unfold next
      split <;> rfl
    show ((l.next c).after rest).offset = l.offset + (rest.length + 1)
    rw [ih, hnext]
    omega

/-- The name of the source, unless it is missing or empty. -/
def namedFile? (l : Location) : Option Text := l.file.filter (· ≠ [])

/-- Line and column. -/
def lineColumn (l : Location) : Text := Text.ofNat l.line ++ ":" ++ Text.ofNat l.column

/-- The location as it stands at the head of a message. -/
def render (l : Location) : Text :=
  match l.namedFile? with
  | some file => file ++ ":" ++ l.lineColumn
  | none => l.lineColumn

end Location

/-- A range of a source, from a start to the position after its last code point. -/
structure Span where
  start : Location
  stop : Location
deriving DecidableEq, Inhabited

namespace Span

/-- The span of what no source text stands for. -/
def unknown : Span := ⟨⟨0, 0, 0, none⟩, ⟨0, 0, 0, none⟩⟩

/-- The least span from the start of one span to the end of another. -/
def upTo (first last : Span) : Span := ⟨first.start, last.stop⟩

/-- The span as text: source name, start and end. -/
def render (s : Span) : Text := s.start.render ++ "-" ++ s.stop.lineColumn

end Span

end ScriptEngine

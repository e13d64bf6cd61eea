import ScriptEngine.Text.Digit

/-!
# Escape sequences

What may follow a backslash in a string: one of the letters of `Escape.short?`, `x` with two
hexadecimal digits, or `u` with hexadecimal digits between braces. The same reader serves string
literals and the native that interprets escapes in a text.

* `Escape.read` reads one sequence from the text after the backslash.
* `Escape.read_append` says that what it consumed and what it left make up its input.
* `Escape.decode` interprets every sequence of a text.
-/

namespace ScriptEngine.Escape

/-- A sequence that cannot be read: how it is reported, and the text it takes up after the
backslash. -/
structure Malformed where
  shown : Text
  consumed : Text

/-- A sequence that was read: its value, the text after the backslash, and what follows. -/
structure Sequence where
  value : CodePoint
  consumed : Text
  rest : Text

/-- The value of a sequence of one letter. -/
def short? : CodePoint → Option CodePoint
  | .scalar 'n' => some '\n'
  | .scalar 't' => some '\t'
  | .scalar 'r' => some '\r'
  | .scalar '0' => some (Char.ofNat 0)
  | .scalar '\\' => some '\\'
  | .scalar '"' => some '"'
  | .scalar '\'' => some '\''
  | _ => none

/-- Removes the null characters at the end of a text. -/
def dropNulls (t : Text) : Text := (t.reverse.dropWhile fun c => c.toNat = 0).reverse

/-- Reads the two hexadecimal digits after `x`. -/
def readByte (t : Text) : Except Malformed Sequence :=
  match t with
  | a :: b :: rest =>
    match a.hexValue?, b.hexValue?, CodePoint.ofNat? (Text.hexNumber [a, b]) with
    | some _, some _, some value => .ok ⟨value, [.scalar 'x', a, b], rest⟩
    | _, _, _ => .error ⟨"x" ++ dropNulls [a, b], "x"⟩
  | _ => .error ⟨"x" ++ dropNulls t, "x"⟩

/-- Reads the hexadecimal digits and the closing brace after `u` and an opening brace. -/
def readBraced (t : Text) : Except Malformed Sequence :=
  let digits := t.takeWhile CodePoint.isHexDigit
  let opened : Text := "u\x7b" ++ digits
  match digits, t.dropWhile CodePoint.isHexDigit with
  | _ :: _, .scalar '}' :: rest =>
    match CodePoint.ofNat? (Text.hexNumber digits) with
    | some value => .ok ⟨value, opened ++ "\x7d", rest⟩
    | none => .error ⟨opened, opened ++ "\x7d"⟩
  | _, _ => .error ⟨opened, opened⟩

/-- Reads one sequence from the text after the backslash. -/
def read (t : Text) : Except Malformed Sequence :=
  match t with
  | [] => .error ⟨[], []⟩
  | c :: rest =>
    match short? c with
    | some value => .ok ⟨value, [c], rest⟩
    | none =>
      match c, rest with
      | .scalar 'x', rest => readByte rest
      | .scalar 'u', .scalar '{' :: rest => readBraced rest
      | c, _ => .error ⟨[c], [c]⟩

theorem readByte_append {t : Text} {s : Sequence} (h : readByte t = .ok s) :
    .scalar 'x' :: t = s.consumed ++ s.rest ∧ s.consumed ≠ [] := by
  unfold readByte at h
  split at h
  · split at h
    · cases h; simp
    · cases h
  · cases h

theorem readBraced_append {t : Text} {s : Sequence} (h : readBraced t = .ok s) :
    .scalar 'u' :: .scalar '{' :: t = s.consumed ++ s.rest ∧ s.consumed ≠ [] := by
  unfold readBraced at h
  simp only at h
  split at h
  · next _ _ rest _ hr =>
    split at h
    · cases h
      have hs := List.takeWhile_append_dropWhile (p := CodePoint.isHexDigit) (l := t)
      constructor
      · conv => lhs; rw [← hs, hr]
        simp [Text.ofString]
      · simp [Text.ofString]
    · cases h
  · cases h

/-- What a sequence consumed and what it left make up the text it was read from. -/
theorem read_append {t : Text} {s : Sequence} (h : read t = .ok s) :
    t = s.consumed ++ s.rest ∧ s.consumed ≠ [] := by
  unfold read at h
  split at h
  · cases h
  · split at h
    · cases h; simp
    · split at h
      · exact readByte_append h
      · exact readBraced_append h
      · cases h

/-- A sequence leaves a shorter text than it was read from. -/
theorem length_rest_lt {t : Text} {s : Sequence} (h : read t = .ok s) :
    s.rest.length < t.length := by
  obtain ⟨ht, hc⟩ := read_append h
  have := List.length_pos_iff.2 hc
  rw [ht]; simp; omega

/-- Interprets every escape sequence of a text; the error is the sequence that cannot be read. -/
def decode (t : Text) : Except Malformed Text :=
  match t with
  | [] => .ok []
  | c :: rest =>
    if c = '\\' then
      match _h : read rest with
      | .error e => .error e
      | .ok s => do return s.value :: (← decode s.rest)
    else do return c :: (← decode rest)
termination_by t.length
decreasing_by
  · have := length_rest_lt _h; simp; omega
  · simp

end ScriptEngine.Escape

import ScriptEngine.Text.Quoted

/-!
# UTF-8

Texts as bytes and bytes as texts. Only scalar values have an encoding, and only the shortest form of
one is read.

* `Utf8.encode` gives the bytes of a text, or the first run of surrogates in it.
* `Utf8.decode` gives the text of bytes, or the first bytes that are not part of one.
-/

namespace ScriptEngine.Utf8

/-- Surrogates in a text: the position of the first, and how many follow each other. -/
structure Unencodable where
  first : CodePoint
  position : Nat
  count : Nat

/-- The message about surrogates in a text. -/
def Unencodable.message (u : Unencodable) : Text :=
  let place : Text :=
    if u.count = 1 then
      "character '\\u" ++ Text.hexPadded 4 u.first.toNat ++ "' in position " ++
        Text.ofNat u.position
    else
      "characters in position " ++ Text.ofNat u.position ++ "-" ++
        Text.ofNat (u.position + u.count - 1)
  "'utf-8' codec can't encode " ++ place ++ ": surrogates not allowed"

/-- The bytes of a scalar value. -/
def encodeScalar (n : Nat) : List Nat :=
  if n < 0x80 then [n]
  else if n < 0x800 then [0xC0 + n / 0x40, 0x80 + n % 0x40]
  else if n < 0x10000 then [0xE0 + n / 0x1000, 0x80 + n / 0x40 % 0x40, 0x80 + n % 0x40]
  else [0xF0 + n / 0x40000, 0x80 + n / 0x1000 % 0x40, 0x80 + n / 0x40 % 0x40, 0x80 + n % 0x40]

/-- The bytes of a text that starts at a position. -/
def encodeFrom (position : Nat) : Text → Except Unencodable (List Nat)
  | [] => .ok []
  | c :: rest =>
    if c.isScalar then do
      return encodeScalar c.toNat ++ (← encodeFrom (position + 1) rest)
    else .error ⟨c, position, 1 + (rest.takeWhile fun c => !c.isScalar).length⟩

/-- The bytes of a text. -/
def encode (t : Text) : Except Unencodable (List Nat) := encodeFrom 0 t

/-- Why bytes are not part of a text. -/
inductive Problem where
  | badStart | badContinuation | truncated
deriving DecidableEq

/-- The words for a problem. -/
def Problem.words : Problem → Text
  | badStart => "invalid start byte"
  | badContinuation => "invalid continuation byte"
  | truncated => "unexpected end of data"

/-- Bytes that are not part of a text: the first of them, its position, and how many there are. -/
structure Undecodable where
  first : Nat
  position : Nat
  count : Nat
  problem : Problem

/-- The message about bytes that are not part of a text. -/
def Undecodable.message (u : Undecodable) : Text :=
  let place : Text :=
    if u.count = 1 then
      "byte 0x" ++ Text.hexPadded 2 u.first ++ " in position " ++ Text.ofNat u.position
    else
      "bytes in position " ++ Text.ofNat u.position ++ "-" ++
        Text.ofNat (u.position + u.count - 1)
  "'utf-8' codec can't decode " ++ place ++ ": " ++ u.problem.words

/-- How many bytes follow a start byte, and the bounds of the first that follows. -/
structure Lead where
  following : Nat
  low : Nat
  high : Nat
  value : Nat

/-- What a start byte announces. -/
def lead? (b : Nat) : Option Lead :=
  if 0xC2 ≤ b ∧ b < 0xE0 then some ⟨1, 0x80, 0xBF, b - 0xC0⟩
  else if 0xE0 ≤ b ∧ b < 0xF0 then
    some ⟨2, if b = 0xE0 then 0xA0 else 0x80, if b = 0xED then 0x9F else 0xBF, b - 0xE0⟩
  else if 0xF0 ≤ b ∧ b < 0xF5 then
    some ⟨3, if b = 0xF0 then 0x90 else 0x80, if b = 0xF4 then 0x8F else 0xBF, b - 0xF0⟩
  else none

/-- Reads continuation bytes: the number they complete, or how many of them were good and why the
next one is not. The first must lie within the given bounds. -/
def continuations (low high : Nat) : Nat → Nat → List Nat → Except (Nat × Problem) (Nat × List Nat)
  | 0, value, bytes => .ok (value, bytes)
  | _ + 1, _, [] => .error (0, .truncated)
  | n + 1, value, b :: rest =>
    if low ≤ b ∧ b ≤ high then
      match continuations 0x80 0xBF n (value * 0x40 + (b - 0x80)) rest with
      | .ok r => .ok r
      | .error (good, problem) => .error (good + 1, problem)
    else .error (0, .badContinuation)

theorem length_continuations {low high n value v : Nat} {bytes rest : List Nat}
    (h : continuations low high n value bytes = .ok (v, rest)) :
    rest.length ≤ bytes.length := by
  induction n generalizing low high value bytes with
  | zero => simp only [continuations, Except.ok.injEq, Prod.mk.injEq] at h; simp [h.2]
  | succ n ih =>
    cases bytes with
    | nil => simp [continuations] at h
    | cons b tail =>
      simp only [continuations] at h
      split at h
      · split at h
        · next r hr =>
          cases h
          have := ih hr
          simp only [List.length_cons]; omega
        · cases h
      · cases h

/-- The text of bytes that start at a position. -/
def decodeFrom (position : Nat) (bytes : List Nat) : Except Undecodable Text :=
  match bytes with
  | [] => .ok []
  | b :: rest =>
    if b < 0x80 then do
      return .scalar (Char.ofNat b) :: (← decodeFrom (position + 1) rest)
    else
      match lead? b with
      | none => .error ⟨b, position, 1, .badStart⟩
      | some lead =>
        match _h : continuations lead.low lead.high lead.following lead.value rest with
        | .ok (value, after) => do
          return .scalar (Char.ofNat value) :: (← decodeFrom (position + 1 + lead.following) after)
        | .error (good, problem) => .error ⟨b, position, 1 + good, problem⟩
termination_by bytes.length
decreasing_by
  · simp
  · have := length_continuations _h
    simp; omega

/-- The text of bytes. -/
def decode (bytes : List Nat) : Except Undecodable Text := decodeFrom 0 bytes

end ScriptEngine.Utf8

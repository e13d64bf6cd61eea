/-!
# Texts

A text is a list of code points. Scripts can write any code point up to `0x10FFFF`, lone
surrogates included, so a code point is either a Unicode scalar value or a surrogate.

* `CodePoint.toNat` and `CodePoint.ofNat?` are the numbering, `CodePoint.ofNat?_toNat` says that
  nothing is lost by it.
* Lengths, positions and the order of texts count and compare code points.
-/

namespace ScriptEngine

/-- A code point: a Unicode scalar value, or a surrogate given by its distance from `0xD800`. -/
inductive CodePoint where
  | scalar (c : Char)
  | surrogate (low : Fin 2048)
deriving DecidableEq, Inhabited

namespace CodePoint

/-- The number of a code point. -/
def toNat : CodePoint → Nat
  | scalar c => c.toNat
  | surrogate low => 0xD800 + low.val

/-- The code point with a given number, if the number is at most `0x10FFFF`. -/
def ofNat? (n : Nat) : Option CodePoint :=
  if h : n.isValidChar then some (scalar ⟨n.toUInt32, by
    rcases h with h | h <;> simp [UInt32.isValidChar, Nat.isValidChar] <;> omega⟩)
  else if 0xD800 ≤ n ∧ n < 0xE000 then some (surrogate (Fin.ofNat 2048 (n - 0xD800)))
  else none

/-- Numbering a code point and reading the number back gives the code point. -/
theorem ofNat?_toNat (c : CodePoint) : ofNat? c.toNat = some c := by
  cases c with
  | scalar c =>
    have h : c.toNat.isValidChar := c.valid
    have hv : UInt32.ofNat c.toNat = c.val := UInt32.ofNat_toNat
    rw [toNat, ofNat?, dif_pos h]
    simp [hv]
  | surrogate low =>
    have h : ¬ (0xD800 + low.val).isValidChar := by simp [Nat.isValidChar]; omega
    rw [toNat, ofNat?, dif_neg h, if_pos (by omega)]
    simp

instance : Coe Char CodePoint := ⟨scalar⟩

instance : LT CodePoint := ⟨fun a b => a.toNat < b.toNat⟩

instance (a b : CodePoint) : Decidable (a < b) := inferInstanceAs (Decidable (a.toNat < b.toNat))

/-- Whether the code point is a Unicode scalar value. -/
def isScalar : CodePoint → Bool
  | scalar _ => true
  | surrogate _ => false

theorem exists_of_isScalar {c : CodePoint} (hc : c.isScalar) : ∃ d, c = scalar d := by
  cases c with
  | scalar d => exact ⟨d, rfl⟩
  | surrogate low => cases hc

end CodePoint

/-- A text is a list of code points. -/
abbrev Text := List CodePoint

namespace Text

/-- The text of a string of scalar values. -/
def ofString (s : String) : Text := s.toList.map .scalar

/-- The text of a literal is read off its characters, without decoding its bytes. -/
theorem ofString_ofList (l : List Char) : ofString (String.ofList l) = l.map .scalar := by
  rw [ofString, String.toList_ofList]

instance : Coe String Text := ⟨ofString⟩

instance : LawfulBEq Text := inferInstanceAs (LawfulBEq (List CodePoint))

/-- Strict lexicographic order by code point number. -/
def before : Text → Text → Bool
  | _, [] => false
  | [], _ :: _ => true
  | a :: s, b :: t => a.toNat < b.toNat || (a.toNat == b.toNat && before s t)

/-- Joins texts with a separator between neighbours. -/
def joinWith (sep : Text) : List Text → Text
  | [] => []
  | [t] => t
  | t :: u :: rest => t ++ sep ++ joinWith sep (u :: rest)

/-- The decimal digits of a natural number. -/
def ofNat (n : Nat) : Text := ofString (toString n)

/-- The decimal digits of an integer, after a minus sign when it is negative. -/
def ofInt : Int → Text
  | .ofNat n => ofNat n
  | .negSucc n => .scalar '-' :: ofNat (n + 1)

/-- The most digits of a whole number that is converted to a text in base ten or from one. The host refuses the
conversion of a longer one. -/
def digitLimit : Nat := 4300

/-- Whether the host writes a natural number in base ten. -/
def isWritable (n : Nat) : Bool := (ofNat n).length ≤ digitLimit

/-- The message for a whole number with too many digits. They are counted when it is read from a text. -/
def digitLimitMessage (count : Option Nat) : Text :=
  let counted : Text := match count with
    | some n => ": value has " ++ ofNat n ++ " digits"
    | none => []
  "Exceeds the limit (4300 digits) for integer string conversion" ++ counted ++
    "; use sys.set_int_max_str_digits() to increase the limit"

/-- The text made of `n` copies of a code point. -/
def replicate (n : Nat) (c : CodePoint) : Text := List.replicate n c

/-- Pads a text on the left with blanks up to a width. -/
def padLeft (width : Nat) (t : Text) : Text := replicate (width - t.length) ' ' ++ t

end Text

end ScriptEngine

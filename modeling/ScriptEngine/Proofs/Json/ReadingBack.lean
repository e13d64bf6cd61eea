import ScriptEngine.Json.Reader
import ScriptEngine.Json.Writer
import ScriptEngine.Proofs.OrderedMap
import ScriptEngine.Proofs.Token.Numeral

/-!
# JSON documents read back

A document whose numbers are whole and no longer than the host allows, whose texts have no surrogates and whose
objects have no key twice (`Json.IsExact`) is read back from the text that is written of it (`Json.IsExact.read_write`).

* **Escapes**: four hexadecimal digits are read as their number (`hexUnit?_hexPadded`), and what is written of a code
  point is read in one step (`readAs_jsonEscaped`).
* **Numbers**: an integer is read up to the mark that ends it (`readNumber?_ofInt`), and is no word.
* **Documents** (`Json.Reads`): what is written of a document is read in as many steps as it has code points,
  wherever an item may end after it. There is a rule for each form of documents.
-/

namespace ScriptEngine

variable {t rest : Text} {c : CodePoint} {n : Nat}

/-! ## Hexadecimal digits -/

/-- A text of hexadecimal digits. -/
def IsHexDigits (t : Text) : Prop := ∀ c ∈ t, c.isHexDigit

theorem hexValue?_digitChar (hn : n < 16) : (CodePoint.scalar (Nat.digitChar n)).hexValue? = some n := by
  interval_cases n <;> rfl

theorem hexNumber_append (t u : Text) :
    Text.hexNumber (t ++ u) = u.foldl (fun n c => 16 * n + c.hexValue?.getD 0) t.hexNumber := by
  simp [Text.hexNumber]

theorem hexNumber_toDigits (n : Nat) : IsHexDigits ((Nat.toDigits 16 n).map .scalar) ∧
    Text.hexNumber ((Nat.toDigits 16 n).map .scalar) = n := by
  induction n using Nat.strongRecOn with
  | _ n ih =>
    rw [Nat.toDigits_eq_if (by omega)]
    split
    · next hn => simp [IsHexDigits, CodePoint.isHexDigit, Text.hexNumber, hexValue?_digitChar hn]
    · next hn =>
      obtain ⟨hdigits, hnumber⟩ := ih (n / 16) (by omega)
      have hlast := hexValue?_digitChar (Nat.mod_lt n (show 0 < 16 by omega))
      rw [List.map_append]
      constructor
      · intro c hc
        rcases List.mem_append.1 hc with hc | hc
        · exact hdigits c hc
        · obtain rfl := List.mem_singleton.1 hc
          rw [CodePoint.isHexDigit, hlast]
          rfl
      · rw [hexNumber_append, hnumber]
        simp only [List.map_cons, List.map_nil, List.foldl_cons, List.foldl_nil, hlast, Option.getD_some]
        omega

theorem hexNumber_zeros_append (k : Nat) (t : Text) :
    Text.hexNumber (Text.replicate k '0' ++ t) = t.hexNumber := by
  have hz : (Text.replicate k '0').hexNumber = 0 := by
    induction k with
    | zero => rfl
    | succ k ih => exact ih
  rw [hexNumber_append, hz, Text.hexNumber]

/-- A number of sixteen bits has four hexadecimal digits. -/
theorem hexPadded_spec (hn : n < 0x10000) : (Text.hexPadded 4 n).length = 4 ∧ IsHexDigits (Text.hexPadded 4 n) ∧
    (Text.hexPadded 4 n).hexNumber = n := by
  obtain ⟨hdigits, hnumber⟩ := hexNumber_toDigits n
  have hlength := (Nat.length_toDigits_le_iff (k := 4) (by omega : 1 < 16) (by omega)).2 hn
  have hpadded : Text.hexPadded 4 n = Text.replicate (4 - (Nat.toDigits 16 n).length) '0' ++
      (Nat.toDigits 16 n).map .scalar := by
    simp [Text.hexPadded, Text.ofString]
  rw [hpadded]
  refine ⟨by simp [Text.replicate]; omega, ?_, by rw [hexNumber_zeros_append, hnumber]⟩
  intro c hc
  rcases List.mem_append.1 hc with hc | hc
  · rw [List.eq_of_mem_replicate hc]
    decide
  · exact hdigits c hc

/-- Something is written of every code point. -/
theorem CodePoint.jsonEscaped_ne_nil (c : CodePoint) : c.jsonEscaped ≠ [] := by
  unfold CodePoint.jsonEscaped
  dsimp only
  repeat refine iteInduction (motive := (· ≠ ([] : Text))) (fun _ => List.cons_ne_nil _ _) fun _ => ?_
  exact List.cons_ne_nil _ _

namespace Json

/-! ## Escapes -/

/-- Four digits before anything else are read as their number. -/
theorem hexUnit?_hexPadded (hn : n < 0x10000) (hr : rest ≠ []) :
    hexUnit? (Text.hexPadded 4 n ++ rest) = some (n, rest) := by
  obtain ⟨hlength, hdigits, hnumber⟩ := hexPadded_spec hn
  generalize Text.hexPadded 4 n = digits at *
  obtain ⟨e, rest, rfl⟩ := List.exists_cons_of_ne_nil hr
  match digits, hlength with
  | [a, b, c, d], _ =>
    have hall : [a, b, c, d].all CodePoint.isHexDigit = true := List.all_eq_true.2 hdigits
    simp only [List.cons_append, List.nil_append, hexUnit?, hall, hnumber, if_true]

theorem codePoint_toNat (c : CodePoint) : codePoint c.toNat = c := by
  rw [codePoint, CodePoint.ofNat?_toNat]
  rfl

theorem eq_of_toNat (hc : c.toNat = n) : c = codePoint n := by rw [← hc, codePoint_toNat]

variable {opening value : Text} {fuel : Nat}

theorem escapeUnit_append (n : Nat) (rest : Text) :
    escapeUnit n ++ rest = .scalar '\\' :: .scalar 'u' :: (Text.hexPadded 4 n ++ rest) := by
  simp [escapeUnit, Text.ofString]

/-- An escape that is no high surrogate is read in one step. -/
theorem readString_escapeUnit (hn : n < 0x10000) (hs : isHighSurrogate n = false) (hr : rest ≠ []) :
    readString opening (fuel + 1) value (escapeUnit n ++ rest) =
      readString opening fuel (codePoint n :: value) rest := by
  have hunit := hexUnit?_hexPadded hn hr
  rw [escapeUnit_append, readString, if_neg (by decide), if_pos rfl]
  simp only [hunit, hs]
  rfl

/-- A high and a low surrogate are read in one step. -/
theorem readString_escapePair {high low : Nat} (hh : isHighSurrogate high) (hl : isLowSurrogate low)
    (hr : rest ≠ []) : readString opening (fuel + 1) value (escapeUnit high ++ (escapeUnit low ++ rest)) =
      readString opening fuel (codePoint (0x10000 + (high - 0xD800) * 0x400 + (low - 0xDC00)) :: value) rest := by
  have hbounds : high < 0x10000 ∧ low < 0x10000 := by
    simp only [isHighSurrogate, isLowSurrogate, Bool.and_eq_true, decide_eq_true_eq] at hh hl
    omega
  have hunit := hexUnit?_hexPadded hbounds.2 hr
  have hpair : pairedUnit (escapeUnit low ++ rest) = .ok (some (low, rest)) := by
    have hlength : ¬ (Text.hexPadded 4 low ++ rest).length < 5 := by
      have := List.length_pos_iff.2 hr
      rw [List.length_append, (hexPadded_spec hbounds.2).1]
      omega
    rw [escapeUnit_append, pairedUnit, if_neg hlength, hunit]
    simp only [hl, if_true]
  have hnext : escapeUnit low ++ rest ≠ [] := by simp [escapeUnit_append]
  have hunit := hexUnit?_hexPadded hbounds.1 hnext
  rw [escapeUnit_append high, readString, if_neg (by decide), if_pos rfl]
  simp only [hunit, hh, if_true, hpair]

/-- Inside a string, `w` is read as the code point `c` in one step. -/
def ReadAs (c : CodePoint) (w : Text) : Prop :=
  ∀ opening value rest fuel, rest ≠ [] →
    readString opening (fuel + 1) value (w ++ rest) = readString opening fuel (c :: value) rest

/-- What is written of a scalar value is read as it. -/
theorem readAs_jsonEscaped (hc : c.isScalar) : ReadAs c c.jsonEscaped := by
  obtain ⟨d, rfl⟩ := CodePoint.exists_of_isScalar hc
  have hvalid : (CodePoint.scalar d).toNat < 0xD800 ∨
      0xDFFF < (CodePoint.scalar d).toNat ∧ (CodePoint.scalar d).toNat < 0x110000 := d.valid
  generalize CodePoint.scalar d = c at *
  have hself := codePoint_toNat c
  unfold CodePoint.jsonEscaped
  dsimp only
  refine iteInduction (motive := ReadAs c) (fun hquote => ?_) fun hquote => ?_
  · subst hquote; exact fun _ _ _ _ _ => rfl
  refine iteInduction (motive := ReadAs c) (fun hback => ?_) fun hback => ?_
  · subst hback; exact fun _ _ _ _ _ => rfl
  refine iteInduction (motive := ReadAs c) (fun hline => ?_) fun _ => ?_
  · subst hline; exact fun _ _ _ _ _ => rfl
  refine iteInduction (motive := ReadAs c) (fun hreturn => ?_) fun _ => ?_
  · subst hreturn; exact fun _ _ _ _ _ => rfl
  refine iteInduction (motive := ReadAs c) (fun htab => ?_) fun _ => ?_
  · subst htab; exact fun _ _ _ _ _ => rfl
  refine iteInduction (motive := ReadAs c) (fun h8 => ?_) fun _ => ?_
  · rw [eq_of_toNat h8]; exact fun _ _ _ _ _ => rfl
  refine iteInduction (motive := ReadAs c) (fun h12 => ?_) fun _ => ?_
  · rw [eq_of_toNat h12]; exact fun _ _ _ _ _ => rfl
  refine iteInduction (motive := ReadAs c) (fun hplain => ?_) fun _ =>
    iteInduction (motive := ReadAs c) (fun hplane => ?_) fun hplane => ?_
  · intro _ _ _ _ _
    rw [List.singleton_append, readString.eq_def]
    simp only
    rw [if_neg hquote, if_neg hback, if_neg (by omega)]
  · intro _ _ _ _ hr
    rw [readString_escapeUnit hplane (by simp [isHighSurrogate]; omega) hr, hself]
  · have hhigh : isHighSurrogate (0xD800 + (c.toNat - 0x10000) / 0x400) = true := by
      simp only [isHighSurrogate, Bool.and_eq_true, decide_eq_true_eq]
      omega
    have hlow : isLowSurrogate (0xDC00 + (c.toNat - 0x10000) % 0x400) = true := by
      simp only [isLowSurrogate, Bool.and_eq_true, decide_eq_true_eq]
      omega
    have hsum : 0x10000 + (0xD800 + (c.toNat - 0x10000) / 0x400 - 0xD800) * 0x400 +
        (0xDC00 + (c.toNat - 0x10000) % 0x400 - 0xDC00) = c.toNat := by omega
    intro _ _ _ _ hr
    rw [List.append_assoc, readString_escapePair hhigh hlow hr, hsum, hself]

/-- What is written of a text is read up to its closing quote. -/
theorem readString_flatMap (ht : ∀ c ∈ t, c.isScalar) (hf : t.length < fuel) :
    readString opening fuel value (t.flatMap CodePoint.jsonEscaped ++ .scalar '"' :: rest) =
      .ok (value.reverse ++ t, rest) := by
  induction t generalizing fuel value with
  | nil =>
    obtain ⟨fuel, rfl⟩ : ∃ k, fuel = k + 1 := ⟨fuel - 1, by simp at hf; omega⟩
    simp [readString]
  | cons c t ih =>
    obtain ⟨fuel, rfl⟩ : ∃ k, fuel = k + 1 := ⟨fuel - 1, by simp at hf; omega⟩
    rw [List.flatMap_cons, List.append_assoc, readAs_jsonEscaped (ht c (.head _)) _ _ _ _ (by simp),
      ih (fun d hd => ht d (.tail _ hd)) (by simp at hf; omega)]
    simp

/-! ## Numbers -/

/-- What may follow a number does not go on with it. -/
theorem head_of_ends (hr : Ends rest) : ∀ c ∈ rest.head?,
    c.isAsciiDigit = false ∧ c ≠ .scalar '.' ∧ c ≠ .scalar 'e' ∧ c ≠ .scalar 'E' := by
  have hm : ∀ c ∈ ([',', ']', '}'] : List Char).map CodePoint.scalar,
      c.isAsciiDigit = false ∧ c ≠ .scalar '.' ∧ c ≠ .scalar 'e' ∧ c ≠ .scalar 'E' := by
    decide
  exact fun c hc => hm c (hr c hc)

theorem asciiDigits_append (ht : IsDigits t) (hr : Ends rest) : asciiDigits (t ++ rest) = (t, rest) := by
  obtain ⟨htake, hdrop⟩ := splits_where ht fun c hc => (head_of_ends hr c hc).1
  rw [asciiDigits, htake, hdrop]

theorem readFraction_of_ends (hr : Ends rest) : readFraction rest = ([], rest) := by
  unfold readFraction
  split
  · exact absurd rfl (head_of_ends hr _ rfl).2.1
  · rfl

theorem readExponent_of_ends (hr : Ends rest) : readExponent rest = none := by
  cases rest with
  | nil => rfl
  | cons c rest =>
    obtain ⟨-, -, he, hE⟩ := head_of_ends hr c rfl
    simp [readExponent, he, hE]

/-- The digits of a positive number do not start with a zero. -/
theorem head?_toDigits (hn : 0 < n) : (Nat.toDigits 10 n).head? ≠ some '0' := by
  induction n using Nat.strongRecOn with
  | _ n ih =>
    rw [Nat.toDigits_eq_if (by omega)]
    split
    · interval_cases n <;> decide
    · rw [List.head?_append_of_ne_nil _ Nat.toDigits_ne_nil]
      exact ih (n / 10) (by omega) (by omega)

theorem wholeDigits?_ofNat (n : Nat) (hr : Ends rest) :
    wholeDigits? (Text.ofNat n ++ rest) = some (Text.ofNat n, rest) := by
  rcases Nat.eq_zero_or_pos n with rfl | hn
  · rfl
  · have hdigits := isDigits_ofNat n
    have happend := asciiDigits_append hdigits hr
    have hhead : Text.ofNat n ≠ [] ∧ (Text.ofNat n).head? ≠ some (.scalar '0') := by
      refine ⟨ofNat_ne_nil n, ?_⟩
      rw [ofNat_eq, List.head?_map]
      intro h
      obtain ⟨d, hd, hz⟩ := Option.map_eq_some_iff.1 h
      cases hz
      exact head?_toDigits hn hd
    generalize Text.ofNat n = digits at *
    match digits, hhead with
    | c :: digits, ⟨_, hc⟩ =>
      rw [List.cons_append, wholeDigits?, if_pos (hdigits c (.head _)), ← List.cons_append, happend]
      rintro rfl
      exact hc rfl

/-- A natural number starts with a digit. -/
theorem exists_digit_ofNat (n : Nat) : ∃ c digits, Text.ofNat n = c :: digits ∧ c.isAsciiDigit := by
  obtain ⟨c, digits, hc⟩ := List.exists_cons_of_ne_nil (ofNat_ne_nil n)
  exact ⟨c, digits, hc, isDigits_ofNat n c (hc ▸ .head _)⟩

theorem decimal_ofNat (hn : Text.isWritable n) (left : Text) : decimal (Text.ofNat n) left = .ok n := by
  rw [decimal, if_pos (Number.isWritable_iff.1 hn), decimalNumber_ofNat]

/-- An integer that the host writes is read up to the mark after it. -/
theorem readNumber?_ofInt {n : Int} (hn : Text.isWritable n.natAbs) (hr : Ends rest) :
    readNumber? (Text.ofInt n ++ rest) = some (.ok (whole n, rest)) := by
  cases n with
  | ofNat n =>
    obtain ⟨c, digits, hdigits, hc⟩ := exists_digit_ofNat n
    have hwhole := wholeDigits?_ofNat n hr
    have hnumber : decimal (Text.ofNat n) rest = .ok n := decimal_ofNat hn rest
    rw [Text.ofInt]
    rw [hdigits, List.cons_append] at *
    have hminus : c ≠ .scalar '-' := ne_scalar_of_digit hc (by decide)
    simp [readNumber?, hminus, hwhole, hnumber, readFraction_of_ends hr, readExponent_of_ends hr]
  | negSucc n =>
    have hwhole := wholeDigits?_ofNat (n + 1) hr
    have hnumber : decimal (Text.ofNat (n + 1)) rest = .ok (n + 1) := decimal_ofNat hn rest
    rw [Text.ofInt, List.cons_append]
    simp [readNumber?, hwhole, hnumber, readFraction_of_ends hr, readExponent_of_ends hr]
    omega

/-- An integer is none of the words: one of its first two code points is a digit. -/
theorem readWord?_ofInt (n : Int) (rest : Text) : readWord? (Text.ofInt n ++ rest) = none := by
  have hwords : ∀ p ∈ words, 2 ≤ (p.1 : Text).length ∧ ∀ c ∈ (p.1 : Text), c.isAsciiDigit = false := by
    decide +kernel
  have hdigit : ∃ c ∈ (Text.ofInt n ++ rest).take 2, c.isAsciiDigit := by
    cases n with
    | ofNat n =>
      obtain ⟨c, digits, hn, hc⟩ := exists_digit_ofNat n
      exact ⟨c, by simp [Text.ofInt, hn], hc⟩
    | negSucc n =>
      obtain ⟨c, digits, hn, hc⟩ := exists_digit_ofNat (n + 1)
      exact ⟨c, by simp [Text.ofInt, hn], hc⟩
  obtain ⟨c, hc, hd⟩ := hdigit
  rw [readWord?, List.findSome?_eq_none_iff]
  intro p hp
  obtain ⟨hlength, hletters⟩ := hwords p hp
  dsimp only
  rw [if_neg]
  intro hprefix
  obtain ⟨u, hu⟩ := List.isPrefixOf_iff_prefix.1 hprefix
  rw [← hu, List.take_append_of_le_length hlength] at hc
  exact absurd hd (by simp [hletters c (List.mem_of_mem_take hc)])

/-! ## Documents -/

/-- Documents of which nothing is lost when they are written. -/
inductive IsExact : Json → Prop
  | null : IsExact .null
  | bool (b : Bool) : IsExact (.bool b)
  | whole {n : Int} (writable : Text.isWritable n.natAbs) : IsExact (.whole n)
  | text {t : Text} (scalars : ∀ c ∈ t, c.isScalar) : IsExact (.text t)
  | array {items : List Json} (contents : ∀ j ∈ items, IsExact j) : IsExact (.array items)
  | object {members : List (Text × Json)} (keys : (members.map Prod.fst).Nodup)
      (scalars : ∀ e ∈ members, ∀ c ∈ e.1, c.isScalar) (contents : ∀ e ∈ members, IsExact e.2) :
      IsExact (.object members)

/-- Code points that a document may start with: none of them is skipped or closes an array. -/
def Opens (c : CodePoint) : Prop := isBlank c = false ∧ c ≠ .scalar ']' ∧ c.toNat < 0x80

instance (c : CodePoint) : Decidable (Opens c) := inferInstanceAs (Decidable (_ ∧ _ ∧ _))

/-- What is written of a document is read in as many steps as it has code points. -/
structure Reads (j : Json) : Prop where
  opens : ∃ c t, j.write = c :: t ∧ Opens c
  value : ∀ {fuel rest}, j.write.length ≤ fuel + 1 → Ends rest →
    readValue (fuel + 1) (j.write ++ rest) = .ok (j, rest)

variable {j : Json}

theorem opens_digit (hc : c.isAsciiDigit) : Opens c := by
  have hbounds := isAsciiDigit_iff.1 hc
  refine ⟨?_, ne_scalar_of_digit hc (by decide), by omega⟩
  simp [isBlank, ne_scalar_of_digit hc (d := ' ') (by decide), ne_scalar_of_digit hc (d := '\t') (by decide),
    ne_scalar_of_digit hc (d := '\n') (by decide), ne_scalar_of_digit hc (d := '\r') (by decide)]

theorem skipBlanks_of_opens (hc : Opens c) : skipBlanks (c :: rest) = c :: rest := by
  rw [skipBlanks, List.dropWhile_cons, if_neg (by simp [hc.1])]

theorem skipBlanks_of_ends (hr : Ends rest) : skipBlanks rest = rest := by
  cases rest with
  | nil => rfl
  | cons c rest =>
    have hm : ∀ c ∈ ([',', ']', '}'] : List Char).map CodePoint.scalar, isBlank c = false := by decide
    rw [skipBlanks, List.dropWhile_cons, if_neg (by simp [hm c (hr c rfl)])]

namespace Reads

theorem skipBlanks_write (hj : j.Reads) (rest : Text) : skipBlanks (j.write ++ rest) = j.write ++ rest := by
  obtain ⟨c, t, hw, hc⟩ := hj.opens
  rw [hw, List.cons_append, skipBlanks_of_opens hc]

theorem readValue_write (hj : j.Reads) (hf : j.write.length ≤ fuel) (hr : Ends rest) :
    readValue fuel (j.write ++ rest) = .ok (j, rest) := by
  obtain ⟨c, t, hw, -⟩ := hj.opens
  obtain ⟨fuel, rfl⟩ : ∃ k, fuel = k + 1 := ⟨fuel - 1, by rw [hw, List.length_cons] at hf; omega⟩
  exact hj.value hf hr

end Reads

/-! ### Documents without parts -/

theorem reads_null : Reads .null := ⟨⟨.scalar 'n', "ull", rfl, by decide⟩, fun _ _ => rfl⟩

theorem reads_bool (b : Bool) : Reads (.bool b) := by
  cases b
  · exact ⟨⟨.scalar 'f', "alse", rfl, by decide⟩, fun _ _ => rfl⟩
  · exact ⟨⟨.scalar 't', "rue", rfl, by decide⟩, fun _ _ => rfl⟩

theorem exists_opens_ofInt (n : Int) : ∃ c t, Text.ofInt n = c :: t ∧ (c.isAsciiDigit ∨ c = .scalar '-') := by
  cases n with
  | ofNat n =>
    obtain ⟨c, digits, hn, hc⟩ := exists_digit_ofNat n
    exact ⟨c, digits, hn, .inl hc⟩
  | negSucc n => exact ⟨_, _, rfl, .inr rfl⟩

theorem reads_whole {n : Int} (hwritable : Text.isWritable n.natAbs) : Reads (.whole n) := by
  obtain ⟨c, t, hn, hc⟩ := exists_opens_ofInt n
  have hopens : Opens c ∧ c ≠ .scalar '"' ∧ c ≠ .scalar '{' ∧ c ≠ .scalar '[' := by
    rcases hc with hc | rfl
    · exact ⟨opens_digit hc, ne_scalar_of_digit hc (by decide), ne_scalar_of_digit hc (by decide),
        ne_scalar_of_digit hc (by decide)⟩
    · decide
  obtain ⟨hopens, hquote, hbrace, hbracket⟩ := hopens
  refine ⟨⟨c, t, by rw [write, hn], hopens⟩, fun {fuel rest} _ hr => ?_⟩
  have hword := readWord?_ofInt n rest
  have hnumber := readNumber?_ofInt hwritable hr
  rw [write]
  rw [hn, List.cons_append] at hword hnumber ⊢
  rw [readValue, if_neg hquote, if_neg hbrace, if_neg hbracket, hword, hnumber]

theorem length_le_flatMap (t : Text) : t.length ≤ (t.flatMap CodePoint.jsonEscaped).length := by
  induction t with
  | nil => simp
  | cons c t ih =>
    have hc : 0 < c.jsonEscaped.length := List.length_pos_iff.2 c.jsonEscaped_ne_nil
    rw [List.flatMap_cons, List.length_append, List.length_cons]
    omega

/-- What is written of a text is read from its opening quote on. -/
theorem readString_writeText (ht : ∀ c ∈ t, c.isScalar) (rest : Text) : ∃ after,
    writeText t ++ rest = .scalar '"' :: after ∧
      readString (writeText t ++ rest) (after.length + 1) [] after = .ok (t, rest) := by
  refine ⟨t.flatMap CodePoint.jsonEscaped ++ .scalar '"' :: rest, by simp [writeText, Text.ofString], ?_⟩
  have := length_le_flatMap t
  exact readString_flatMap ht (by rw [List.length_append]; omega)

theorem reads_text (ht : ∀ c ∈ t, c.isScalar) : Reads (.text t) := by
  refine ⟨⟨.scalar '"', _, rfl, by decide⟩, fun {fuel rest} _ _ => ?_⟩
  obtain ⟨after, hafter, hread⟩ := readString_writeText ht rest
  rw [write]
  rw [hafter] at hread ⊢
  rw [readValue, if_pos rfl, hread]
  rfl

/-! ### Arrays and objects -/

/-- An item is read, and then its array ends or another item follows. -/
theorem readItems_item {before : List Json} (hj : j.Reads) (hf : j.write.length ≤ fuel) :
    Ends rest → readItems (fuel + 1) before (j.write ++ rest) =
      match rest with
      | .scalar ']' :: left => .ok (array (j :: before).reverse, left)
      | .scalar ',' :: left => readItems fuel (j :: before) (skipBlanks left)
      | left => .error ⟨.expectingComma, left⟩ := by
  intro hr
  rw [readItems, hj.readValue_write hf hr]
  simp only [bind, Except.bind, skipBlanks_of_ends hr]
  rfl

theorem skipBlanks_blank : skipBlanks (.scalar ' ' :: rest) = skipBlanks rest := rfl

theorem joinWith_cons (sep t : Text) (ts : List Text) : ∃ u, Text.joinWith sep (t :: ts) = t ++ u := by
  cases ts with
  | nil => exact ⟨[], by simp [Text.joinWith]⟩
  | cons v ts => exact ⟨_, by rw [Text.joinWith, List.append_assoc]⟩

/-- The items of an array are read up to its closing bracket. -/
theorem readItems_joinWith {items : List Json} (before : List Json) (hj : j.Reads) (hitems : ∀ i ∈ items, Reads i)
    (hf : (Text.joinWith ", " (writeItems (j :: items))).length < fuel) (rest : Text) :
    readItems fuel before (Text.joinWith ", " (writeItems (j :: items)) ++ .scalar ']' :: rest) =
      .ok (array (before.reverse ++ j :: items), rest) := by
  induction items generalizing j before fuel with
  | nil =>
    obtain ⟨fuel, rfl⟩ : ∃ k, fuel = k + 1 := ⟨fuel - 1, by omega⟩
    simp only [writeItems, Text.joinWith] at hf ⊢
    rw [readItems_item hj (by omega) (ends_cons (by decide)), ← List.reverse_cons]
    rfl
  | cons i items ih =>
    obtain ⟨fuel, rfl⟩ : ∃ k, fuel = k + 1 := ⟨fuel - 1, by omega⟩
    obtain ⟨hi, hitems⟩ := List.forall_mem_cons.1 hitems
    obtain ⟨u, hu⟩ := joinWith_cons ", " i.write (writeItems items)
    have hjoin : Text.joinWith ", " (writeItems (j :: i :: items)) =
        j.write ++ .scalar ',' :: .scalar ' ' :: Text.joinWith ", " (writeItems (i :: items)) := by
      simp [writeItems, Text.joinWith, Text.ofString]
    rw [hjoin] at hf ⊢
    simp only [List.length_append, List.length_cons] at hf
    rw [List.append_assoc, List.cons_append, List.cons_append, readItems_item hj (by omega) (ends_cons (by decide))]
    simp only [skipBlanks_blank]
    have hlength : (Text.joinWith ", " (writeItems (i :: items))).length < fuel := by omega
    have hread := ih (j :: before) hi hitems hlength
    rw [writeItems, hu, List.append_assoc] at hread ⊢
    rw [hi.skipBlanks_write, hread, List.reverse_cons, List.append_assoc, List.singleton_append]

theorem readValue_items (hc : Opens c) :
    readValue (fuel + 1) (.scalar '[' :: c :: rest) = readItems fuel [] (c :: rest) := by
  rw [readValue, if_neg (by decide), if_neg (by decide), if_pos rfl, skipBlanks_of_opens hc]
  split
  · next h => exact absurd (List.cons.inj h).1 hc.2.1
  · rfl

theorem reads_array {items : List Json} (hitems : ∀ j ∈ items, Reads j) : Reads (.array items) := by
  refine ⟨⟨.scalar '[', _, rfl, by decide⟩, fun {fuel rest} hf _ => ?_⟩
  cases items with
  | nil => rfl
  | cons j items =>
    obtain ⟨hj, hitems⟩ := List.forall_mem_cons.1 hitems
    obtain ⟨c, t, hw, hopens⟩ := hj.opens
    obtain ⟨u, hu⟩ := joinWith_cons ", " j.write (writeItems items)
    have hwrite : (array (j :: items)).write ++ rest =
        .scalar '[' :: (Text.joinWith ", " (writeItems (j :: items)) ++ .scalar ']' :: rest) := by
      simp [write, Text.ofString]
    have hlength : (Text.joinWith ", " (writeItems (j :: items))).length < fuel := by
      have := congrArg List.length hwrite
      simp only [List.length_append, List.length_cons] at this
      omega
    have hread := readItems_joinWith [] hj hitems hlength rest
    rw [hwrite]
    rw [writeItems, hu, hw] at hread ⊢
    exact (readValue_items hopens).trans hread

variable {key : Text} {before : OrderedMap Text Json}

/-- A member is read as its key and its value, and then its object ends or another member follows. -/
theorem readMembers_member (hkey : ∀ c ∈ key, c.isScalar) (hj : j.Reads) (hf : j.write.length ≤ fuel) :
    Ends rest → readMembers (fuel + 1) before (writeText key ++ ": " ++ j.write ++ rest) =
      match rest with
      | .scalar '}' :: left => .ok (object (before.insert key j).entries, left)
      | .scalar ',' :: left => readMembers fuel (before.insert key j) (skipBlanks left)
      | left => .error ⟨.expectingComma, left⟩ := by
  intro hr
  obtain ⟨after, hafter, hread⟩ :=
    readString_writeText hkey (.scalar ':' :: .scalar ' ' :: (j.write ++ rest))
  have hmember : writeText key ++ ": " ++ j.write ++ rest =
      writeText key ++ .scalar ':' :: .scalar ' ' :: (j.write ++ rest) := by
    simp [Text.ofString]
  have hcolon : skipBlanks (.scalar ':' :: .scalar ' ' :: (j.write ++ rest)) =
      .scalar ':' :: .scalar ' ' :: (j.write ++ rest) := rfl
  rw [hmember]
  rw [hafter] at hread ⊢
  rw [readMembers, hread]
  simp only [bind, Except.bind, hcolon, skipBlanks_blank, hj.skipBlanks_write, hj.readValue_write hf hr,
    skipBlanks_of_ends hr]
  rfl

theorem exists_writeText (t : Text) : ∃ u, writeText t = .scalar '"' :: u :=
  ⟨t.flatMap CodePoint.jsonEscaped ++ [.scalar '"'], by simp [writeText, Text.ofString]⟩

/-- The members of an object are read up to its closing brace. -/
theorem readMembers_joinWith {members : List (Text × Json)} (before : OrderedMap Text Json)
    (hkey : ∀ c ∈ key, c.isScalar) (hj : j.Reads) (hkeys : ∀ e ∈ members, ∀ c ∈ e.1, c.isScalar)
    (hmembers : ∀ e ∈ members, e.2.Reads)
    (hf : (Text.joinWith ", " (writeMembers ((key, j) :: members))).length < fuel) (rest : Text) :
    readMembers fuel before (Text.joinWith ", " (writeMembers ((key, j) :: members)) ++ .scalar '}' :: rest) =
      .ok (object (((key, j) :: members).foldl (fun m e => m.insert e.1 e.2) before).entries, rest) := by
  induction members generalizing key j before fuel with
  | nil =>
    obtain ⟨fuel, rfl⟩ : ∃ k, fuel = k + 1 := ⟨fuel - 1, by omega⟩
    simp only [writeMembers, Text.joinWith, List.length_append] at hf ⊢
    rw [readMembers_member hkey hj (by omega) (ends_cons (by decide))]
    rfl
  | cons e members ih =>
    obtain ⟨name, i⟩ := e
    obtain ⟨fuel, rfl⟩ : ∃ k, fuel = k + 1 := ⟨fuel - 1, by omega⟩
    obtain ⟨hi, hmembers⟩ := List.forall_mem_cons.1 hmembers
    obtain ⟨hname, hkeys⟩ := List.forall_mem_cons.1 hkeys
    obtain ⟨u, hu⟩ := joinWith_cons ", " (writeText name ++ ": " ++ i.write) (writeMembers members)
    obtain ⟨v, hv⟩ := exists_writeText name
    have hjoin : Text.joinWith ", " (writeMembers ((key, j) :: (name, i) :: members)) =
        writeText key ++ ": " ++ j.write ++
          .scalar ',' :: .scalar ' ' :: Text.joinWith ", " (writeMembers ((name, i) :: members)) := by
      simp [writeMembers, Text.joinWith, Text.ofString]
    rw [hjoin] at hf ⊢
    simp only [List.length_append, List.length_cons] at hf
    have hlength : (Text.joinWith ", " (writeMembers ((name, i) :: members))).length < fuel := by omega
    have hread := ih (before.insert key j) hname hi hkeys hmembers hlength
    rw [List.append_assoc, List.cons_append, List.cons_append,
      readMembers_member hkey hj (by omega) (ends_cons (by decide))]
    simp only [skipBlanks_blank]
    rw [writeMembers, hu, hv, List.cons_append, List.cons_append, List.cons_append, List.cons_append] at hread ⊢
    rw [skipBlanks_of_opens (by decide)]
    exact hread

theorem readValue_members : readValue (fuel + 1) (.scalar '{' :: .scalar '"' :: rest) =
    readMembers fuel .empty (.scalar '"' :: rest) := by
  rw [readValue, if_neg (by decide), if_pos rfl, skipBlanks_of_opens (by decide)]
  rfl

theorem reads_object {members : List (Text × Json)} (hkeys : (members.map Prod.fst).Nodup)
    (hscalars : ∀ e ∈ members, ∀ c ∈ e.1, c.isScalar) (hmembers : ∀ e ∈ members, e.2.Reads) :
    Reads (.object members) := by
  refine ⟨⟨.scalar '{', _, rfl, by decide⟩, fun {fuel rest} hf _ => ?_⟩
  cases members with
  | nil => rfl
  | cons e members =>
    obtain ⟨key, j⟩ := e
    obtain ⟨hkey, hscalars⟩ := List.forall_mem_cons.1 hscalars
    obtain ⟨hj, hmembers⟩ := List.forall_mem_cons.1 hmembers
    obtain ⟨u, hu⟩ := joinWith_cons ", " (writeText key ++ ": " ++ j.write) (writeMembers members)
    obtain ⟨v, hv⟩ := exists_writeText key
    have hwrite : (object ((key, j) :: members)).write ++ rest =
        .scalar '{' :: (Text.joinWith ", " (writeMembers ((key, j) :: members)) ++ .scalar '}' :: rest) := by
      simp [write, Text.ofString]
    have hlength : (Text.joinWith ", " (writeMembers ((key, j) :: members))).length < fuel := by
      have := congrArg List.length hwrite
      simp only [List.length_append, List.length_cons] at this
      omega
    have hread := readMembers_joinWith .empty hkey hj hscalars hmembers hlength rest
    rw [hwrite]
    rw [writeMembers, hu, hv, List.cons_append, List.cons_append, List.cons_append, List.cons_append] at hread ⊢
    exact readValue_members.trans (hread.trans (by rw [← OrderedMap.ofList, OrderedMap.entries_ofList hkeys]))

theorem IsExact.reads (hj : j.IsExact) : j.Reads := by
  induction hj with
  | null => exact reads_null
  | bool b => exact reads_bool b
  | whole writable => exact reads_whole writable
  | text scalars => exact reads_text scalars
  | array _ ih => exact reads_array ih
  | object keys scalars _ ih => exact reads_object keys scalars ih

/-- What is written of an exact document is read as the document. -/
theorem IsExact.read_write (hj : j.IsExact) : Json.read j.write = .ok j := by
  obtain ⟨c, t, hw, hc⟩ := hj.reads.opens
  have hmark : (j.write.head?.any (·.toNat = 0xFEFF)) = false := by
    have := hc.2.2
    simp [hw]
    omega
  have hskip := hj.reads.skipBlanks_write []
  have hvalue := hj.reads.readValue_write (Nat.le_succ j.write.length) ends_nil
  rw [List.append_nil] at hskip hvalue
  rw [read, hmark, hskip, hvalue]
  rfl

end Json

end ScriptEngine

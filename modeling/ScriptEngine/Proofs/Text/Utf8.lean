import Mathlib.Data.Char
import Mathlib.Tactic.SplitIfs
import ScriptEngine.Proofs.Eval.Run
import ScriptEngine.Text.Utf8

/-!
# UTF-8 is a bijection

Bytes are read as a text exactly if they are what is written of the text (`decode_eq_ok_iff`), and exactly the texts
of scalar values are written (`encode_eq_ok_iff`), as numbers below 256 (`lt_of_mem_encode`).

The two meet in one sequence: a start byte and the bytes that go with it are read as a scalar value exactly if they
are written for it and it is not below 128 (`scan_iff`). The bounds on the first byte after a start byte are what
leaves out overlong forms, surrogates and numbers beyond the last scalar value.
-/

namespace ScriptEngine.Utf8

variable {t : Text} {c : CodePoint} {bytes rest after : List Nat} {b n v position low high value : Nat} {l : Lead}

/-! ## Continuation bytes -/

/-- A continuation byte is read if it lies within the bounds, and the others within the bounds of all such bytes. -/
theorem continuations_succ_iff : continuations low high (n + 1) value bytes = .ok (v, after) ↔
    ∃ b rest, bytes = b :: rest ∧ low ≤ b ∧ b ≤ high ∧
      continuations 0x80 0xBF n (value * 0x40 + (b - 0x80)) rest = .ok (v, after) := by
  cases bytes with
  | nil => simp [continuations]
  | cons b rest =>
    rw [continuations]
    split
    · next hb =>
      constructor
      · intro h
        split at h
        · next hr =>
          cases h
          exact ⟨b, rest, rfl, hb.1, hb.2, hr⟩
        · cases h
      · rintro ⟨_, _, ⟨rfl, rfl⟩, -, -, hr⟩
        rw [hr]
    · next hb =>
      simp only [reduceCtorEq, List.cons.injEq, false_iff]
      rintro ⟨_, _, ⟨rfl, rfl⟩, hlow, hhigh, -⟩
      exact hb ⟨hlow, hhigh⟩

theorem continuations_zero_iff :
    continuations low high 0 value bytes = .ok (v, after) ↔ v = value ∧ after = bytes := by
  simp [continuations, eq_comm]

theorem scan_two (hb : 0xC2 ≤ b ∧ b < 0xE0) : continuations 0x80 0xBF 1 (b - 0xC0) rest = .ok (v, after) ↔
    (0x80 ≤ v ∧ v < 0x800 ∧ b = 0xC0 + v / 0x40) ∧ rest = (0x80 + v % 0x40) :: after := by
  simp only [continuations_succ_iff, continuations_zero_iff]
  constructor
  · rintro ⟨c, _, rfl, hlow, hhigh, hv, rfl⟩
    exact ⟨by omega, List.cons_eq_cons.2 ⟨by omega, rfl⟩⟩
  · rintro ⟨hv, rfl⟩
    exact ⟨_, _, rfl, by omega, by omega, by omega, rfl⟩

theorem scan_three (hb : 0xE0 ≤ b ∧ b < 0xF0) :
    continuations (if b = 0xE0 then 0xA0 else 0x80) (if b = 0xED then 0x9F else 0xBF) 2 (b - 0xE0) rest =
      .ok (v, after) ↔ (0x800 ≤ v ∧ v < 0x10000 ∧ (v < 0xD800 ∨ 0xDFFF < v) ∧ b = 0xE0 + v / 0x1000) ∧
        rest = (0x80 + v / 0x40 % 0x40) :: (0x80 + v % 0x40) :: after := by
  simp only [continuations_succ_iff, continuations_zero_iff]
  constructor
  · rintro ⟨c, _, rfl, hlow, hhigh, d, _, rfl, hlow', hhigh', hv, rfl⟩
    split at hlow <;> split at hhigh
    all_goals exact ⟨by omega, List.cons_eq_cons.2 ⟨by omega, List.cons_eq_cons.2 ⟨by omega, rfl⟩⟩⟩
  · rintro ⟨hv, rfl⟩
    refine ⟨_, _, rfl, ?_, ?_, _, _, rfl, by omega, by omega, by omega, rfl⟩
    · split <;> omega
    · split <;> omega

theorem scan_four (hb : 0xF0 ≤ b ∧ b < 0xF5) :
    continuations (if b = 0xF0 then 0x90 else 0x80) (if b = 0xF4 then 0x8F else 0xBF) 3 (b - 0xF0) rest =
      .ok (v, after) ↔ (0x10000 ≤ v ∧ v < 0x110000 ∧ b = 0xF0 + v / 0x40000) ∧
        rest = (0x80 + v / 0x1000 % 0x40) :: (0x80 + v / 0x40 % 0x40) :: (0x80 + v % 0x40) :: after := by
  simp only [continuations_succ_iff, continuations_zero_iff]
  constructor
  · rintro ⟨c, _, rfl, hlow, hhigh, d, _, rfl, hlow', hhigh', e, _, rfl, hlow'', hhigh'', hv, rfl⟩
    split at hlow <;> split at hhigh
    all_goals
      exact ⟨by omega, List.cons_eq_cons.2 ⟨by omega, List.cons_eq_cons.2 ⟨by omega,
        List.cons_eq_cons.2 ⟨by omega, rfl⟩⟩⟩⟩
  · rintro ⟨hv, rfl⟩
    refine ⟨_, _, rfl, ?_, ?_, _, _, rfl, by omega, by omega, _, _, rfl, by omega, by omega, by omega, rfl⟩
    · split <;> omega
    · split <;> omega

/-- A start byte and the bytes that go with it are what is written of a scalar value that is not below 128. -/
theorem scan_iff : (∃ l, lead? b = some l ∧ continuations l.low l.high l.following l.value rest = .ok (v, after)) ↔
    v.isValidChar ∧ 0x80 ≤ v ∧ b :: rest = encodeScalar v ++ after := by
  constructor
  · rintro ⟨l, hl, hc⟩
    unfold lead? at hl
    split at hl
    · next hb =>
      cases hl
      obtain ⟨⟨hlow, hhigh, rfl⟩, rfl⟩ := (scan_two hb).1 hc
      exact ⟨.inl (by omega), hlow, by rw [encodeScalar, if_neg (by omega), if_pos hhigh]; rfl⟩
    split at hl
    · next hb =>
      cases hl
      obtain ⟨⟨hlow, hhigh, hv, rfl⟩, rfl⟩ := (scan_three hb).1 hc
      refine ⟨hv.imp id fun h => ⟨h, by omega⟩, by omega, ?_⟩
      rw [encodeScalar, if_neg (by omega), if_neg (by omega), if_pos hhigh]
      rfl
    split at hl
    · next hb =>
      cases hl
      obtain ⟨⟨hlow, hhigh, rfl⟩, rfl⟩ := (scan_four hb).1 hc
      refine ⟨.inr ⟨by omega, hhigh⟩, by omega, ?_⟩
      rw [encodeScalar, if_neg (by omega), if_neg (by omega), if_neg (by omega)]
      rfl
    · cases hl
  · rintro ⟨hvalid, hv, h⟩
    have hvalid : v < 0xD800 ∨ 0xDFFF < v ∧ v < 0x110000 := hvalid
    unfold encodeScalar at h
    rw [if_neg (by omega)] at h
    split at h
    · next hhigh =>
      obtain ⟨rfl, rfl⟩ := List.cons.inj h
      have hb : 0xC2 ≤ 0xC0 + v / 0x40 ∧ 0xC0 + v / 0x40 < 0xE0 := by omega
      exact ⟨_, by rw [lead?, if_pos hb], (scan_two hb).2 ⟨⟨hv, hhigh, rfl⟩, rfl⟩⟩
    split at h
    · next hlow hhigh =>
      obtain ⟨rfl, rfl⟩ := List.cons.inj h
      have hb : 0xE0 ≤ 0xE0 + v / 0x1000 ∧ 0xE0 + v / 0x1000 < 0xF0 := by omega
      exact ⟨_, by rw [lead?, if_neg (by omega), if_pos hb], (scan_three (v := v) hb).2 ⟨by omega, rfl⟩⟩
    · next hlow hhigh =>
      obtain ⟨rfl, rfl⟩ := List.cons.inj h
      have hb : 0xF0 ≤ 0xF0 + v / 0x40000 ∧ 0xF0 + v / 0x40000 < 0xF5 := by omega
      exact ⟨_, by rw [lead?, if_neg (by omega), if_neg (by omega), if_pos hb], (scan_four (v := v) hb).2 ⟨by omega, rfl⟩⟩

/-! ## Texts -/

/-- The bytes that are written of a text of scalar values. -/
def written (t : Text) : List Nat := t.flatMap fun c => encodeScalar c.toNat

theorem encodeFrom_eq_ok_iff : encodeFrom position t = .ok bytes ↔ (∀ c ∈ t, c.isScalar) ∧ bytes = written t := by
  constructor
  · intro h
    induction t generalizing position bytes with
    | nil =>
      cases h
      exact ⟨nofun, rfl⟩
    | cons c t ih =>
      rw [encodeFrom] at h
      split at h
      · next hc =>
        obtain ⟨u, hu, h⟩ := of_bind_eq_ok h
        cases h
        obtain ⟨hscalars, rfl⟩ := ih hu
        exact ⟨List.forall_mem_cons.2 ⟨hc, hscalars⟩, rfl⟩
      · cases h
  · rintro ⟨hscalars, rfl⟩
    induction t generalizing position with
    | nil => rfl
    | cons c t ih =>
      obtain ⟨hc, hrest⟩ := List.forall_mem_cons.1 hscalars
      rw [encodeFrom, if_pos hc, ih hrest]
      rfl

/-- Exactly the texts of scalar values are written. -/
theorem encode_eq_ok_iff : encode t = .ok bytes ↔ (∀ c ∈ t, c.isScalar) ∧ bytes = written t := encodeFrom_eq_ok_iff

theorem encodeScalar_ne_nil (v : Nat) : encodeScalar v ≠ [] := by
  unfold encodeScalar
  split_ifs <;> exact List.cons_ne_nil _ _

theorem lt_of_mem_encodeScalar (hv : v < 0x110000) (hb : b ∈ encodeScalar v) : b < 256 := by
  unfold encodeScalar at hb
  split_ifs at hb <;> simp only [List.mem_cons, List.not_mem_nil, or_false] at hb <;> omega

/-- What is written of a text are bytes. -/
theorem lt_of_mem_encode (h : encode t = .ok bytes) (hb : b ∈ bytes) : b < 256 := by
  obtain ⟨hscalars, rfl⟩ := encode_eq_ok_iff.1 h
  obtain ⟨c, hc, hb⟩ := List.mem_flatMap.1 hb
  have hv : c.toNat < 0x110000 := by
    cases c with
    | scalar c => exact c.valid.elim (fun h => Nat.lt_trans h (by decide)) And.right
    | surrogate low => exact Nat.lt_of_lt_of_le (Nat.add_lt_add_left low.isLt _) (by decide)
  exact lt_of_mem_encodeScalar hv hb

theorem decodeFrom_ascii (hb : b < 0x80) :
    decodeFrom position (b :: rest) = do return .scalar (Char.ofNat b) :: (← decodeFrom (position + 1) rest) := by
  rw [decodeFrom, if_pos hb]

theorem le_of_lead? (hl : lead? b = some l) : 0xC2 ≤ b := by
  unfold lead? at hl
  split_ifs at hl <;> omega

theorem decodeFrom_sequence (hl : lead? b = some l)
    (hc : continuations l.low l.high l.following l.value rest = .ok (v, after)) : decodeFrom position (b :: rest) =
      do return .scalar (Char.ofNat v) :: (← decodeFrom (position + 1 + l.following) after) := by
  have hb := le_of_lead? hl
  rw [decodeFrom, if_neg (by omega), hl]
  simp only
  split
  · next he => cases hc.symm.trans he; rfl
  · next he => cases hc.symm.trans he

theorem toNat_ofNat (hv : v.isValidChar) : (CodePoint.scalar (Char.ofNat v)).toNat = v := by
  rw [CodePoint.toNat, Char.ofNat, dif_pos hv]
  rfl

theorem written_cons (c : CodePoint) (t : Text) : written (c :: t) = encodeScalar c.toNat ++ written t := rfl

theorem decodeFrom_eq_ok_iff : decodeFrom position bytes = .ok t ↔ (∀ c ∈ t, c.isScalar) ∧ bytes = written t := by
  constructor
  · intro h
    fun_induction decodeFrom position bytes generalizing t with
    | case1 =>
      cases h
      exact ⟨nofun, rfl⟩
    | case2 position b rest hb ih =>
      obtain ⟨u, hu, h⟩ := of_bind_eq_ok h
      cases h
      obtain ⟨hscalars, rfl⟩ := ih hu
      refine ⟨List.forall_mem_cons.2 ⟨rfl, hscalars⟩, ?_⟩
      rw [written_cons, toNat_ofNat (.inl (by omega)), encodeScalar, if_pos hb]
      rfl
    | case3 | case5 => cases h
    | case4 position b rest hb lead hl value after hc ih =>
      obtain ⟨u, hu, h⟩ := of_bind_eq_ok h
      cases h
      obtain ⟨hscalars, rfl⟩ := ih hu
      obtain ⟨hvalid, -, hbytes⟩ := scan_iff.1 ⟨lead, hl, hc⟩
      refine ⟨List.forall_mem_cons.2 ⟨rfl, hscalars⟩, ?_⟩
      rw [written_cons, toNat_ofNat hvalid, hbytes]
  · rintro ⟨hscalars, rfl⟩
    induction t generalizing position with
    | nil => simp [written, decodeFrom]
    | cons c t ih =>
      obtain ⟨hc, hrest⟩ := List.forall_mem_cons.1 hscalars
      obtain ⟨d, rfl⟩ := CodePoint.exists_of_isScalar hc
      have hself : Char.ofNat d.toNat = d := Char.ofNat_toNat d
      rw [written_cons, CodePoint.toNat]
      by_cases hd : d.toNat < 0x80
      · rw [encodeScalar, if_pos hd, List.singleton_append, decodeFrom_ascii hd, ih hrest, hself]
        rfl
      · obtain ⟨b, rest, hbytes⟩ := List.exists_cons_of_ne_nil
          (List.append_ne_nil_of_left_ne_nil (encodeScalar_ne_nil d.toNat) (written t))
        obtain ⟨l, hl, hcont⟩ := scan_iff.2 ⟨d.valid, Nat.not_lt.1 hd, hbytes.symm⟩
        rw [hbytes, decodeFrom_sequence hl hcont, ih hrest]
        exact congrArg (fun c => Except.ok (CodePoint.scalar c :: t)) hself

/-- Bytes are read as a text exactly if they are what is written of the text. -/
theorem decode_eq_ok_iff : decode bytes = .ok t ↔ encode t = .ok bytes := by
  rw [decode, decodeFrom_eq_ok_iff, encode_eq_ok_iff]

end ScriptEngine.Utf8

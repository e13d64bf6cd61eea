import Mathlib.Tactic.NormNum
import ScriptEngine.Eval.Statement
import ScriptEngine.Proofs.Native.Calls
import ScriptEngine.Proofs.Text.Utf8
import ScriptEngine.Proofs.Value.ReadingBack
import ScriptEngine.Proofs.Value.Unfolding

/-!
# Buffers

* **Elements** (`Heap.TakenFor`): a whole number below 256 is taken for a byte, a boolean for one or zero, and a
  reference for what its target is taken for.
* **Bytes**: the bytes of an array are what its elements are taken for. If one is taken for nothing there are none,
  and the fault is that of a value (`bytes_taken`), unless the parts of an element go on without end. So an array
  without booleans and references is a buffer exactly if its elements are whole numbers below 256, and one with them
  may be a buffer as well.
* **Texts**: the buffer of a text is a new array of the bytes that are written of it (`textToBuffer_call`), and the
  text of a buffer is the one that its bytes are written of (`bufferToText_eq_ok_iff`). So a text of scalar values is
  the text of its buffer, and a buffer of numbers that has a text is the buffer of that text (`buffers_of_texts`).
  What comes back carries no variant, and is equal to what was given only if that carries none either.
-/

namespace ScriptEngine

variable {I : Interp} {f : Native} {v w : Value} {m m' : Machine} {n id depth position : Nat} {d : Datum} {t : Text}
  {bytes : List Nat} {span : Option Span}

namespace Heap

variable {h : Heap}

/-- A value is taken for a byte. -/
inductive TakenFor (h : Heap) : Value → Nat → Prop
  | number {v : Value} {x : Number} {n : Nat} (payload : v.payload = .number x) (value : x.value = n)
      (range : n < 256) : h.TakenFor v n
  | bool {v : Value} {b : Bool} (payload : v.payload = .bool b) : h.TakenFor v b.toNat
  | target {v : Value} {id n : Nat} (payload : v.payload = .reference id) (taken : h.TakenFor (h.reference id) n) :
      h.TakenFor v n

/-- What is taken for a byte comes to an end. -/
theorem TakenFor.finite (hv : h.TakenFor v n) : h.Finite v.payload := by
  induction hv with
  | number hp | bool hp =>
    rw [hp]
    exact .leaf rfl
  | @target v id n hp ht ih =>
    rw [hp]
    refine .node ?_ (List.forall_mem_cons.2 ⟨ih, nofun⟩)
    have hlt : id < h.references.size := by
      by_contra hge
      -- There is no such cell, and null is taken for nothing.
      have hnull : h.reference id = .null := by
        simp [Heap.reference, Array.getD_eq_getD_getElem?, Array.getElem?_eq_none (Nat.not_lt.1 hge)]
      rw [hnull] at ht
      cases ht with
      | number hp | bool hp | target hp => cases hp
    simpa [sites] using hlt

end Heap

/-- Plain data of what is taken for a byte. -/
def Datum.IsByte (d : Datum) (n : Nat) : Prop := d = .number n ∧ n < 256 ∨ ∃ b : Bool, d = .bool b ∧ n = b.toNat

namespace Heap

variable {h : Heap}

theorem takenFor_number_iff {x : Number} (hp : v.payload = .number x) :
    h.TakenFor v n ↔ x.value = n ∧ n < 256 := by
  constructor
  · intro hv
    cases hv with
    | number hp' value range =>
      cases hp.symm.trans hp'
      exact ⟨value, range⟩
    | bool hp' | target hp' => cases hp.symm.trans hp'
  · rintro ⟨value, range⟩
    exact .number hp value range

theorem takenFor_bool_iff {b : Bool} (hp : v.payload = .bool b) : h.TakenFor v n ↔ n = b.toNat := by
  constructor
  · intro hv
    cases hv with
    | bool hp' =>
      cases hp.symm.trans hp'
      rfl
    | number hp' | target hp' => cases hp.symm.trans hp'
  · rintro rfl
    exact .bool hp

theorem takenFor_reference_iff (hp : v.payload = .reference id) :
    h.TakenFor v n ↔ h.TakenFor (h.reference id) n := by
  constructor
  · intro hv
    cases hv with
    | target hp' taken =>
      cases hp.symm.trans hp'
      exact taken
    | number hp' | bool hp' => cases hp.symm.trans hp'
  · exact .target hp

/-- Only numbers, booleans and references are taken for bytes. -/
theorem TakenFor.kind (hv : h.TakenFor v n) : v.kind ∈ [Kind.number, .boolean, .reference] := by
  unfold Value.kind
  cases hv with
  | number hp | bool hp | target hp => simp [hp, Payload.kind]

/-- A value is taken for a byte exactly if its plain data are those of one. -/
theorem takenFor_iff (hd : h.toDatumIn? depth v = some d) : h.TakenFor v n ↔ d.IsByte n := by
  induction depth generalizing v with
  | zero => cases hd
  | succ depth ih =>
    have hnone (hk : v.kind ∉ [Kind.number, .boolean, .reference]) (hd : ¬ d.IsByte n) :
        h.TakenFor v n ↔ d.IsByte n := ⟨fun hv => absurd hv.kind hk, fun hn => absurd hn hd⟩
    cases hp : v.payload with
    | reference id =>
      rw [toDatumIn?_reference hp] at hd
      rw [takenFor_reference_iff hp, ih hd]
    | number x =>
      rw [toDatumIn?, hp] at hd
      cases hd
      simp [takenFor_number_iff hp, Datum.IsByte]
    | bool b =>
      rw [toDatumIn?, hp] at hd
      cases hd
      simp [takenFor_bool_iff hp, Datum.IsByte]
    | array id =>
      rw [toDatumIn?_array hp] at hd
      obtain ⟨items, -, rfl⟩ := Option.map_eq_some_iff.1 hd
      exact hnone (by simp [Value.kind, hp, Payload.kind]) (by simp [Datum.IsByte])
    | object id =>
      rw [toDatumIn?_object hp] at hd
      obtain ⟨members, -, rfl⟩ := Option.map_eq_some_iff.1 hd
      exact hnone (by simp [Value.kind, hp, Payload.kind]) (by simp [Datum.IsByte])
    | null | string | function | native =>
      rw [toDatumIn?, hp] at hd
      cases hd
      exact hnone (by simp [Value.kind, hp, Payload.kind]) (by simp [Datum.IsByte])

end Heap

/-! ## One element -/

theorem byte_of_isByte (hd : m.heap.toDatum? v = some d) (hn : d.IsByte n) : f.byte span v m = .ok n m := by
  rw [Native.byte, Eval.bind_ok (Eval.readEndless_some hd)]
  rcases hn with ⟨rfl, hn⟩ | ⟨b, rfl, rfl⟩
  · have hwhole : (Number.ofRat (n : Rat)).whole? = some (n : Int) := by simp [Number.ofRat, Number.whole?]
    simp only [hwhole]
    rw [if_pos (by omega)]
    rfl
  · cases b <;> rfl

/-- The fault of an element that is taken for nothing. -/
theorem byte_of_not_isByte (f : Native) (span : Option Span) (hd : m.heap.toDatum? v = some d)
    (hn : ∀ n, ¬ d.IsByte n) : ∃ message, f.byte span v m =
      .error (.failed (.fault { kind := .value, message := message, span := span })) m := by
  rw [Native.byte, Eval.bind_ok (Eval.readEndless_some hd)]
  cases d with
  | bool b => exact absurd (.inr ⟨b, rfl, rfl⟩) (hn b.toNat)
  | number q =>
    simp only
    cases hk : (Number.ofRat q).whole? with
    | none => exact ⟨_, rfl⟩
    | some k =>
      have hrange : ¬ (0 ≤ k ∧ k < 256) := by
        rintro ⟨hlow, hhigh⟩
        have hq : q = k := by simpa using (Number.isNormal_ofRat q).whole?_eq_some_iff.1 hk
        refine hn k.toNat (.inl ⟨?_, by omega⟩)
        rw [hq, ← Int.cast_natCast, Int.toNat_of_nonneg hlow]
      simp only
      rw [if_neg hrange]
      exact ⟨_, rfl⟩
  | _ => exact ⟨_, rfl⟩

theorem byte_eq_ok_iff : f.byte span v m = .ok n m' ↔ m.heap.TakenFor v n ∧ m' = m := by
  constructor
  · intro h
    cases hd : m.heap.toDatum? v with
    | none =>
      rw [Native.byte, Eval.bind_error (Eval.readEndless_none hd)] at h
      cases h
    | some d =>
      by_cases hn : ∃ n, d.IsByte n
      · obtain ⟨k, hk⟩ := hn
        rw [byte_of_isByte hd hk] at h
        cases h
        exact ⟨(Heap.takenFor_iff hd).2 hk, rfl⟩
      · obtain ⟨message, hfault⟩ := byte_of_not_isByte f span hd (not_exists.1 hn)
        rw [hfault] at h
        cases h
  · rintro ⟨hv, rfl⟩
    obtain ⟨d, hd⟩ := hv.finite.exists_toDatum?
    exact byte_of_isByte hd ((Heap.takenFor_iff hd).1 hv)

/-! ## All elements -/

/-- Steps that change nothing and have a result for each element have the list of them. -/
theorem mapM_eq_ok_iff {α β : Type} {g : α → Eval β} {R : α → β → Prop}
    (hg : ∀ x y m', g x m = .ok y m' ↔ R x y ∧ m' = m) {xs : List α} {ys : List β} :
    xs.mapM g m = .ok ys m' ↔ List.Forall₂ R xs ys ∧ m' = m := by
  induction xs generalizing ys m' with
  | nil =>
    rw [List.mapM_nil]
    constructor
    · intro h
      cases h
      exact ⟨.nil, rfl⟩
    · rintro ⟨h, rfl⟩
      cases h
      rfl
  | cons x xs ih =>
    rw [List.mapM_cons]
    constructor
    · intro h
      obtain ⟨y, m₁, hy, hrest⟩ := Eval.of_bind_ok h
      obtain ⟨hxy, rfl⟩ := (hg x y m₁).1 hy
      obtain ⟨zs, m₂, hzs, hlast⟩ := Eval.of_bind_ok hrest
      obtain ⟨hxs, rfl⟩ := ih.1 hzs
      cases hlast
      exact ⟨.cons hxy hxs, rfl⟩
    · rintro ⟨h, rfl⟩
      cases h with
      | cons hxy hxs =>
        rw [Eval.bind_ok ((hg _ _ _).2 ⟨hxy, rfl⟩), Eval.bind_ok (ih.2 ⟨hxs, rfl⟩)]
        rfl

theorem bytes_run (hv : v.payload = .array id) :
    f.bytes position span v m = (m.heap.array id).toList.mapM (f.byte span) m := by
  rw [Native.bytes, Eval.bind_ok (arrayItems_run hv)]

/-- The bytes of an array are what its elements are taken for. -/
theorem bytes_eq_ok_iff (hv : v.payload = .array id) : f.bytes position span v m = .ok bytes m' ↔
    List.Forall₂ m.heap.TakenFor (m.heap.array id).toList bytes ∧ m' = m := by
  rw [bytes_run hv]
  exact mapM_eq_ok_iff fun _ _ _ => byte_eq_ok_iff

/-- Without an element that goes on without end, the first one that is taken for nothing has a fault. -/
theorem mapM_byte_fault {items : List Value} (hitems : ∀ v ∈ items, m.heap.Finite v.payload)
    (hnone : ∃ v ∈ items, ∀ n, ¬ m.heap.TakenFor v n) : ∃ message, items.mapM (f.byte span) m =
      .error (.failed (.fault { kind := .value, message := message, span := span })) m := by
  induction items with
  | nil =>
    obtain ⟨v, hv, -⟩ := hnone
    cases hv
  | cons v items ih =>
    obtain ⟨hv, hitems⟩ := List.forall_mem_cons.1 hitems
    rw [List.mapM_cons]
    by_cases htaken : ∃ n, m.heap.TakenFor v n
    · obtain ⟨n, hn⟩ := htaken
      have hrest : ∃ w ∈ items, ∀ n, ¬ m.heap.TakenFor w n := by
        obtain ⟨w, hw, hnot⟩ := hnone
        obtain rfl | hw := List.mem_cons.1 hw
        · exact absurd hn (hnot n)
        · exact ⟨w, hw, hnot⟩
      obtain ⟨message, hfault⟩ := ih hitems hrest
      exact ⟨message, by rw [Eval.bind_ok (byte_eq_ok_iff.2 ⟨hn, rfl⟩), Eval.bind_error hfault]⟩
    · obtain ⟨d, hd⟩ := hv.exists_toDatum?
      have hnot (n : Nat) : ¬ d.IsByte n := fun hn => htaken ⟨n, (Heap.takenFor_iff hd).2 hn⟩
      obtain ⟨message, hfault⟩ := byte_of_not_isByte f span hd hnot
      exact ⟨message, Eval.bind_error hfault⟩

/-- Of the values that are neither booleans nor references, the whole numbers below 256 are taken for bytes. -/
theorem exists_takenFor_iff {h : Heap} (hb : v.kind ≠ .boolean) (hr : v.kind ≠ .reference) :
    (∃ n, h.TakenFor v n) ↔ ∃ x, ∃ n : Nat, v.payload = .number x ∧ x.value = n ∧ n < 256 := by
  constructor
  · rintro ⟨n, hn⟩
    cases hn with
    | number payload value range => exact ⟨_, n, payload, value, range⟩
    | bool payload => exact absurd (by rw [Value.kind, payload]; rfl) hb
    | target payload => exact absurd (by rw [Value.kind, payload]; rfl) hr
  · rintro ⟨x, n, payload, value, range⟩
    exact ⟨n, .number payload value range⟩

/-- An array has bytes exactly if each of its elements is taken for one: a whole number below 256, a boolean, or a
reference whose target is taken for one. If not, and no element goes on without end, the fault is that of a value. In
an array without booleans and references, exactly the whole numbers below 256 are taken for bytes. -/
theorem bytes_taken (f : Native) (position : Nat) (span : Option Span) (m : Machine) (hv : v.payload = .array id) :
    (∀ bytes m', f.bytes position span v m = .ok bytes m' ↔
      List.Forall₂ m.heap.TakenFor (m.heap.array id).toList bytes ∧ m' = m) ∧
    ((∀ w ∈ (m.heap.array id).toList, m.heap.Finite w.payload) →
      (∃ w ∈ (m.heap.array id).toList, ∀ n, ¬ m.heap.TakenFor w n) → ∃ message, f.bytes position span v m =
        .error (.failed (.fault { kind := .value, message := message, span := span })) m) ∧
    ((∀ w ∈ (m.heap.array id).toList, w.kind ≠ .boolean ∧ w.kind ≠ .reference) →
      ((∃ bytes m', f.bytes position span v m = .ok bytes m') ↔ ∀ w ∈ (m.heap.array id).toList,
        ∃ x, ∃ n : Nat, w.payload = .number x ∧ x.value = n ∧ n < 256)) := by
  refine ⟨fun bytes m' => bytes_eq_ok_iff hv, fun hfinite hnone => ?_, fun hkinds => ?_⟩
  · rw [bytes_run hv]
    exact mapM_byte_fault hfinite hnone
  · have hsome : (∃ bytes m', f.bytes position span v m = .ok bytes m') ↔
        ∀ w ∈ (m.heap.array id).toList, ∃ n, m.heap.TakenFor w n := by
      simp only [bytes_eq_ok_iff hv, exists_and_left, exists_eq, and_true, exists_forall₂_iff]
    rw [hsome]
    exact forall₂_congr fun w hw => exists_takenFor_iff (hkinds w hw).1 (hkinds w hw).2

/-- A heap with an array of all that is taken for a byte, one with null and one of whole numbers. -/
def bufferHeap : Heap where
  arrays := #[#[.number (65 : Nat), .bool true, .plain (.reference 0)], #[.number (65 : Nat), .null],
    #[.number (65 : Nat), .number (66 : Nat)]]
  references := #[.number (66 : Nat)]

theorem takenFor_bufferHeap : List.Forall₂ bufferHeap.TakenFor (bufferHeap.array 0).toList [65, 1, 66] := by
  have hnumber (n : Nat) (hn : n < 256) : bufferHeap.TakenFor (.number n) n := .number rfl (Number.value_ofRat _) hn
  exact .cons (hnumber 65 (by decide)) (.cons (.bool (b := true) rfl)
    (.cons (.target rfl (hnumber 66 (by decide))) .nil))

theorem bytes_taken_mixed :
    Native.bufferToText.bytes 1 none (.plain (.array 0)) { heap := bufferHeap } =
      .ok [65, 1, 66] { heap := bufferHeap } ∧
    (∃ message, Native.bufferToText.bytes 1 none (.plain (.array 1)) { heap := bufferHeap } =
      .error (.failed (.fault { kind := .value, message := message })) { heap := bufferHeap }) ∧
    ∃ bytes m', Native.bufferToText.bytes 1 none (.plain (.array 2)) { heap := bufferHeap } = .ok bytes m' := by
  have hv (id : Nat) : (Value.plain (.array id)).payload = .array id := rfl
  refine ⟨((bytes_taken .bufferToText 1 none { heap := bufferHeap } (hv 0)).1 _ _).2
      ⟨takenFor_bufferHeap, rfl⟩,
    (bytes_taken .bufferToText 1 none { heap := bufferHeap } (hv 1)).2.1 ?_ ?_,
    ((bytes_taken .bufferToText 1 none { heap := bufferHeap } (hv 2)).2.2 ?_).2 ?_⟩
  · show ∀ w ∈ [Value.number (65 : Nat), .null], bufferHeap.Finite w.payload
    simp only [List.forall_mem_cons]
    exact ⟨.leaf rfl, .leaf rfl, nofun⟩
  · refine ⟨.null, .tail _ (.head _), fun n hn => ?_⟩
    exact absurd hn.kind (by decide)
  · decide +kernel
  · show ∀ w ∈ [Value.number (65 : Nat), .number (66 : Nat)],
      ∃ x, ∃ n : Nat, w.payload = .number x ∧ x.value = n ∧ n < 256
    simp only [List.forall_mem_cons]
    exact ⟨⟨_, 65, rfl, Number.value_ofRat _, by decide⟩, ⟨_, 66, rfl, Number.value_ofRat _, by decide⟩, nofun⟩

/-- A boolean and a reference are taken for bytes. -/
theorem boolean_and_reference_taken :
    (bufferHeap.array 0).toList.map Value.kind = [.number, .boolean, .reference] ∧
      ∃ bytes, Native.bufferToText.bytes 1 none (.plain (.array 0)) { heap := bufferHeap } =
        .ok bytes { heap := bufferHeap } :=
  ⟨rfl, [65, 1, 66], (bytes_eq_ok_iff rfl).2 ⟨takenFor_bufferHeap, rfl⟩⟩

/-! ## Buffers of texts -/

/-- The buffer of bytes in a heap. -/
def Heap.newBuffer (h : Heap) (bytes : List Nat) : Value × Heap :=
  h.newArray (bytes.map fun b : Nat => .number b).toArray

theorem textToBuffer_call (hv : v.payload = .string t) (ht : Utf8.encode t = .ok bytes) :
    Native.textToBuffer.call I [v] span m =
      .ok (m.heap.newBuffer bytes).1 { m with heap := (m.heap.newBuffer bytes).2 } := by
  refine call_of_run rfl ?_
  show Native.encodeBuffer span v m = _
  rw [Native.encodeBuffer, Eval.bind_ok (text_run hv), Native.encodedText, ht]
  rfl

theorem bufferToText_eq_ok_iff (hv : v.payload = .array id) : Native.bufferToText.call I [v] span m = .ok w m' ↔
    ∃ bytes t, List.Forall₂ m.heap.TakenFor (m.heap.array id).toList bytes ∧ Utf8.encode t = .ok bytes ∧
      w = .string t ∧ m' = m := by
  rw [call_eq_ok_iff rfl]
  show Native.decodeBuffer span v m = .ok w m' ↔ _
  constructor
  · intro h
    obtain ⟨bytes, m₁, hbytes, hdecode⟩ := Eval.of_bind_ok h
    obtain ⟨htaken, rfl⟩ := (bytes_eq_ok_iff hv).1 hbytes
    cases ht : Utf8.decode bytes with
    | error e =>
      rw [ht] at hdecode
      cases hdecode
    | ok t =>
      rw [ht] at hdecode
      cases hdecode
      exact ⟨bytes, t, htaken, Utf8.decode_eq_ok_iff.1 ht, rfl, rfl⟩
  · rintro ⟨bytes, t, htaken, ht, rfl, rfl⟩
    rw [Native.decodeBuffer, Eval.bind_ok ((bytes_eq_ok_iff hv).2 ⟨htaken, rfl⟩), Utf8.decode_eq_ok_iff.2 ht]
    rfl

namespace Heap

variable {h : Heap}

theorem array_newBuffer (h : Heap) (bytes : List Nat) :
    ((h.newBuffer bytes).2.array h.arrays.size).toList = bytes.map fun b : Nat => .number b := by
  have hcell : (h.newBuffer bytes).2.arrays[h.arrays.size]? = some (bytes.map fun b : Nat => .number b).toArray := by
    simp [newBuffer, newArray]
  rw [array_eq hcell]

theorem takenFor_newBuffer (hb : ∀ b ∈ bytes, b < 256) :
    List.Forall₂ (h.newBuffer bytes).2.TakenFor ((h.newBuffer bytes).2.array h.arrays.size).toList bytes := by
  rw [array_newBuffer, List.forall₂_map_left_iff, List.forall₂_same]
  exact fun b hm => .number rfl (Number.value_ofRat _) (hb b hm)

/-- What carries no variant is equal only to what carries none either. -/
theorem variant?_of_equal (hv : v.variant? = none) (he : h.equal v w = true) : w.variant? = none :=
  (h.isBisimulation_equal v w he).1 ▸ hv

end Heap

/-- The buffer of a text of scalar values is a new array of numbers below 256, and the text of it is the text; the two
are equal exactly if the first carried no variant. If a buffer of numbers without variants has a text, then the
buffer of that text is equal to it exactly if it carries no variant itself. -/
theorem buffers_of_texts (I : Interp) (v : Value) (m : Machine) (span place : Option Span) :
    (∀ t, v.payload = .string t → (∀ c ∈ t, c.isScalar) → ∃ id items m' w,
      Native.textToBuffer.call I [v] span m = .ok (.plain (.array id)) m' ∧ m'.heap.arrays[id]? = some items ∧
      (∀ x ∈ items.toList, ∃ n : Nat, x = .number n ∧ n < 256) ∧
      Native.bufferToText.call I [.plain (.array id)] place m' = .ok w m' ∧ w = .string t ∧
      (m'.heap.equal w v = true ↔ v.variant? = none)) ∧
    ∀ id items, v.payload = .array id → m.heap.arrays[id]? = some items →
      (∀ x ∈ items.toList, x.kind = .number ∧ x.variant? = none) →
      ∀ w m', Native.bufferToText.call I [v] span m = .ok w m' → m' = m ∧ ∃ b m'',
        Native.textToBuffer.call I [w] place m = .ok b m'' ∧ (m''.heap.equal b v = true ↔ v.variant? = none) := by
  constructor
  · intro t hv hscalars
    have ht : Utf8.encode t = .ok (Utf8.written t) := Utf8.encode_eq_ok_iff.2 ⟨hscalars, rfl⟩
    have hbytes : ∀ b ∈ Utf8.written t, b < 256 := fun b hb => Utf8.lt_of_mem_encode ht hb
    refine ⟨m.heap.arrays.size, ((Utf8.written t).map fun b : Nat => .number b).toArray,
      { m with heap := (m.heap.newBuffer (Utf8.written t)).2 }, .string t, textToBuffer_call hv ht, ?_, ?_, ?_, rfl, ?_⟩
    · simp [Heap.newBuffer, Heap.newArray]
    · intro x hx
      obtain ⟨n, hn, rfl⟩ := List.mem_map.1 hx
      exact ⟨n, rfl, hbytes n hn⟩
    · exact (bufferToText_eq_ok_iff rfl).2 ⟨_, t, Heap.takenFor_newBuffer hbytes, ht, rfl, rfl⟩
    · refine ⟨Heap.variant?_of_equal rfl, fun hvariant => ?_⟩
      have hkind : (Value.string t).kind ∈ [Kind.null, .boolean, .number, .string] := by
        simp [Value.kind, Value.string, Value.plain, Payload.kind]
      exact Heap.SameTree.equal (.scalar hvariant.symm hv.symm hkind)
  · intro id items hv hcell hitems w m' hcall
    obtain ⟨bytes, t, htaken, ht, rfl, rfl⟩ := (bufferToText_eq_ok_iff hv).1 hcall
    refine ⟨rfl, _, _, textToBuffer_call rfl ht, Heap.variant?_of_equal rfl, fun hvariant => ?_⟩
    rw [Heap.array_eq hcell] at htaken
    have hsame : List.Forall₂ m'.heap.SameTree items.toList (bytes.map fun b : Nat => .number b) := by
      rw [List.forall₂_map_right_iff]
      refine ((List.forall₂_and_left _ _).2 ⟨hitems, htaken⟩).imp fun x n hx => ?_
      obtain ⟨⟨hkind, hnone⟩, hn⟩ := hx
      cases hn with
      | number payload value range => exact .number hnone payload rfl (value.trans (Number.value_ofRat _).symm)
      | bool payload | target payload => simp [Value.kind, payload, Payload.kind] at hkind
    exact (Heap.equivalence_equal _).symm (Heap.sameTree_newArray hvariant hv hcell hsame).equal

/-- A heap with a buffer of a text of three bytes. -/
def euroHeap : Heap where
  arrays := #[#[.number (0xE2 : Nat), .number (0x82 : Nat), .number (0xAC : Nat)]]

theorem takenFor_euroHeap : List.Forall₂ euroHeap.TakenFor (euroHeap.array 0).toList [0xE2, 0x82, 0xAC] := by
  have hnumber (n : Nat) (hn : n < 256) : euroHeap.TakenFor (.number n) n := .number rfl (Number.value_ofRat _) hn
  exact .cons (hnumber _ (by decide)) (.cons (hnumber _ (by decide)) (.cons (hnumber _ (by decide)) .nil))

theorem encode_euro : Utf8.encode "€" = .ok [0xE2, 0x82, 0xAC] := Utf8.encode_eq_ok_iff.2 ⟨by decide, rfl⟩

theorem buffers_of_texts_euro :
    (∃ id m' w, Native.textToBuffer.call (.ofLevel 0) [.string "€"] none {} = .ok (.plain (.array id)) m' ∧
      Native.bufferToText.call (.ofLevel 0) [.plain (.array id)] none m' = .ok w m' ∧
      m'.heap.equal w (.string "€") = true) ∧
    ∃ b m'', Native.bufferToText.call (.ofLevel 0) [.plain (.array 0)] none { heap := euroHeap } =
        .ok (.string "€") { heap := euroHeap } ∧
      Native.textToBuffer.call (.ofLevel 0) [.string "€"] none { heap := euroHeap } = .ok b m'' ∧
      m''.heap.equal b (.plain (.array 0)) = true := by
  constructor
  · obtain ⟨id, -, m', w, hbuffer, -, -, htext, -, hequal⟩ :=
      (buffers_of_texts (.ofLevel 0) (.string "€") {} none none).1 "€" rfl (by decide)
    exact ⟨id, m', w, hbuffer, htext, hequal.2 rfl⟩
  · have htext : Native.bufferToText.call (.ofLevel 0) [.plain (.array 0)] none { heap := euroHeap } =
        .ok (.string "€") { heap := euroHeap } :=
      (bufferToText_eq_ok_iff rfl).2 ⟨_, _, takenFor_euroHeap, encode_euro, rfl, rfl⟩
    have hitems : ∀ x ∈ [Value.number (0xE2 : Nat), .number (0x82 : Nat), .number (0xAC : Nat)],
        x.kind = .number ∧ x.variant? = none := by
      simp only [List.forall_mem_cons]
      exact ⟨⟨rfl, rfl⟩, ⟨rfl, rfl⟩, ⟨rfl, rfl⟩, nofun⟩
    obtain ⟨-, b, m'', hbuffer, hequal⟩ :=
      (buffers_of_texts (.ofLevel 0) (.plain (.array 0)) { heap := euroHeap } none none).2 0 _ rfl rfl hitems _ _ htext
    exact ⟨b, m'', htext, hbuffer, hequal.2 rfl⟩

/-- The buffer of the text of a buffer with a variant is not equal to it. -/
theorem buffers_forget_variants :
    let tagged := (Value.plain (.array 0)).stamped ⟨⟨"Unit", 1⟩, "Currency", 2⟩
    ∃ b m', Native.bufferToText.call (.ofLevel 0) [tagged] none { heap := euroHeap } =
        .ok (.string "€") { heap := euroHeap } ∧
      Native.textToBuffer.call (.ofLevel 0) [.string "€"] none { heap := euroHeap } = .ok b m' ∧
      m'.heap.equal b tagged = false := by
  intro tagged
  refine ⟨_, _, (bufferToText_eq_ok_iff rfl).2 ⟨_, _, takenFor_euroHeap, encode_euro, rfl, rfl⟩,
    textToBuffer_call rfl encode_euro, Bool.eq_false_iff.2 fun he => ?_⟩
  have hnone : tagged.variant? = none := Heap.variant?_of_equal rfl he
  cases hnone

end ScriptEngine

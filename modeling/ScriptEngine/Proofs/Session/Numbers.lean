import ScriptEngine.Proofs.Enum.Reached
import ScriptEngine.Proofs.Native.Buffers
import ScriptEngine.Proofs.Value.Bisimilarity

/-!
# Numbers in sessions

* **What a machine keeps** (`Machine.Keeps`): the values in cells and bindings, the listeners of emitters,
  and the prototypes of such values.
* **What asks for a whole number** (`Number.ActsByValue`): indices, bounds of ranges, exponents, arguments of
  native functions and bytes take a number in normal form for the integer that it is, and refuse it if it is
  none; numbers are equal if they stand for the same rational.
* `numbers_stay_normal`: in all machines that are reached in sessions, the numbers of all values are in
  normal form, and so are those of what a run gives or throws.
-/

namespace ScriptEngine

/-! ## Values of machines and exits -/

/-- A value is in a cell or a binding of a machine or among its listeners, or is the prototype of such a
value. -/
inductive Machine.Keeps (m : Machine) : Value → Prop
  | element {id : Nat} {v : Value} (h : v ∈ (m.heap.array id).toList) : m.Keeps v
  | entry {id : Nat} {v : Value} (h : v ∈ (m.heap.object id).values) : m.Keeps v
  | target (id : Nat) : m.Keeps (m.heap.reference id)
  | binding {frame : Nat} {v : Value} (h : v ∈ (m.heap.frame frame).bindings.values) : m.Keeps v
  | listener {id : Nat} {event : Text} {v : Value}
      (h : v ∈ (m.emitters.getD id default).listenersOf event) : m.Keeps v
  | prototype {v p : Value} {name : Text} (hv : m.Keeps v) (h : (name, .prototype p) ∈ v.tags) : m.Keeps p

/-- The value that an exit has. -/
def Exit.value? : Exit → Option Value
  | returned v _ => some v
  | thrown v _ => some v
  | failed (.fault f) => f.data
  | failed (.uncaught v _ _) => some v
  | _ => none

/-- The number that a value is, if it is one, is in normal form. -/
def Value.IsNormal (v : Value) : Prop := v.payload.IsNormal

/-- What an evaluation gives, throws, returns or reports is in normal form. -/
def Eval.NormalOutcome : EStateM.Result Exit Machine Value → Prop
  | .ok v _ => v.IsNormal
  | .error e _ => ∀ v ∈ e.value?, v.IsNormal

section

variable {P : VariantTag → Prop} {m : Machine} {v : Value}

theorem Value.Only.isNormal (h : v.Only P) : v.IsNormal := (Value.only_iff.1 h).1

theorem Machine.Only.of_keeps (hm : m.Only P) (hv : m.Keeps v) : v.Only P := by
  induction hv with
  | element h => exact hm.heap.array _ _ h
  | entry h => exact hm.heap.object _ _ h
  | target id => exact hm.heap.reference id
  | binding h => exact hm.heap.frame _ _ h
  | listener h => exact hm.listeners _ _ _ h
  | prototype _ h ih => exact (Value.only_iff.1 ih).2 _ h

theorem Exit.Only.isNormal {e : Exit} (he : e.Only P) (hv : v ∈ e.value?) : v.IsNormal := by
  cases e with
  | returned u s | thrown u s =>
    cases hv
    exact Value.Only.isNormal he
  | failed error =>
    cases error with
    | fault f => exact (he v hv).isNormal
    | uncaught u s message =>
      cases hv
      exact Value.Only.isNormal he
    | _ => cases hv
  | _ => cases hv

end

theorem Eval.Faithful.normalOutcome {m : Machine} {r : EStateM.Result Exit Machine Value}
    (hr : Faithful m Value.Only r) : NormalOutcome r := by
  cases r with
  | ok v m' => exact hr.2.isNormal
  | error e m' => exact fun v hv => hr.2.isNormal hv

/-! ## What asks for whole numbers -/

/-- An integer means a position of a container, counted from the end if it is negative. -/
def MeansPosition (size : Nat) (n : Int) (place : Nat) : Prop :=
  place < size ∧ (n = place ∨ n + size = place)

/-- What asks for a whole number takes a number for the integer that it is, and refuses it if it is none; and
the test for equality compares the rationals. -/
structure Number.ActsByValue (x : Number) : Prop where
  index : ∀ container v size span place, v.payload = .number x →
    (Heap.position container v size span = .ok place ↔ ∃ n : Int, x.value = n ∧ MeansPosition size n place)
  noIndex : ∀ container v size span, v.payload = .number x →
    ((∃ f, Heap.position container v size span = .error f ∧ f.kind = .type) ↔ ∀ n : Int, x.value ≠ n)
  bound : ∀ v what span n, v.payload = .number x → (rangeNumber v what span = .ok n ↔ x.value = n)
  exponent : ∀ (b : Number) (n : Int), x.value = n → ¬ (b.value = 0 ∧ n < 0) →
    calculate .pow b x = .ok (power b.value n)
  noExponent : ∀ b, calculate .pow b x = .error .fractionalExponent ↔ ∀ n : Int, x.value ≠ n
  argument : ∀ (f : Native) position span v m n, v.payload = .number x →
    (f.whole position span v m = .ok n m ↔ x.value = n)
  byte : ∀ (f : Native) span v m (b : Nat), v.payload = .number x →
    (f.byte span v m = .ok b m ↔ x.value = b ∧ b < 256)
  equal : ∀ (h : Heap) v w (y : Number) span, v.payload = .number x → w.payload = .number y →
    v.variant? = w.variant? → h.comparison .eq v w span = .ok (decide (x.value = y.value))

namespace Number

variable {x : Number} {v container : Value} {n : Int} {size place position : Nat} {span : Span}

/-- A number in normal form is an integer and stored as such, or it is none and stored as a fraction. -/
theorem IsNormal.whole_or_not (hx : x.IsNormal) :
    (∃ k : Int, x.whole? = some k ∧ x.value = k) ∨ (x.whole? = none ∧ ∀ k : Int, x.value ≠ k) := by
  cases hw : x.whole? with
  | some k => exact .inl ⟨k, rfl, hx.whole?_eq_some_iff.1 hw⟩
  | none => exact .inr ⟨rfl, hx.whole?_eq_none_iff.1 hw⟩

theorem position_of_whole (hv : v.payload = .number x) (hw : x.whole? = some n) :
    Heap.position container v size span = .ok place ↔ MeansPosition size n place := by
  unfold Heap.position MeansPosition
  simp only [hv, hw]
  generalize hplace : (if n < 0 then n + size else n) = i
  have hi : i = n ∨ n < 0 ∧ i = n + size := by split at hplace <;> omega
  have hneg : n < 0 → i = n + size := fun h => by rw [← hplace, if_pos h]
  split
  · next h =>
    rw [Except.ok.injEq]
    omega
  · next h =>
    refine ⟨fun hf => (nomatch hf), fun hp => ?_⟩
    omega

theorem kind_of_position_error {f : Fault} (hv : v.payload = .number x) (hw : x.whole? = some n)
    (hf : Heap.position container v size span = .error f) : f.kind = .index := by
  unfold Heap.position at hf
  simp only [hv, hw] at hf
  generalize (if n < 0 then n + size else n) = i at hf
  split at hf
  · cases hf
  · cases hf
    rfl

theorem position_of_none (hv : v.payload = .number x) (hw : x.whole? = none) :
    ∃ f, Heap.position container v size span = .error f ∧ f.kind = .type := by
  unfold Heap.position
  simp only [hv, hw]
  exact ⟨_, rfl, rfl⟩

theorem IsNormal.index (hx : x.IsNormal) (hv : v.payload = .number x) :
    Heap.position container v size span = .ok place ↔
      ∃ n : Int, x.value = n ∧ MeansPosition size n place := by
  obtain ⟨k, hw, hk⟩ | ⟨hw, hno⟩ := hx.whole_or_not
  · rw [position_of_whole hv hw, hk]
    refine ⟨fun h => ⟨k, rfl, h⟩, ?_⟩
    rintro ⟨n, hn, h⟩
    rwa [Rat.intCast_inj.1 hn]
  · obtain ⟨f, hf, -⟩ : ∃ f, Heap.position container v size span = .error f ∧ f.kind = .type :=
      position_of_none hv hw
    rw [hf]
    exact ⟨nofun, fun ⟨n, hn, _⟩ => absurd hn (hno n)⟩

theorem IsNormal.noIndex (hx : x.IsNormal) (hv : v.payload = .number x) :
    (∃ f, Heap.position container v size span = .error f ∧ f.kind = .type) ↔ ∀ n : Int, x.value ≠ n := by
  obtain ⟨k, hw, hk⟩ | ⟨hw, hno⟩ := hx.whole_or_not
  · refine ⟨?_, fun hno => absurd hk (hno k)⟩
    rintro ⟨f, hf, hkind⟩
    rw [kind_of_position_error hv hw hf] at hkind
    cases hkind
  · exact ⟨fun _ => hno, fun _ => position_of_none hv hw⟩

theorem IsNormal.bound {what : Text} (hx : x.IsNormal) (hv : v.payload = .number x) :
    rangeNumber v what span = .ok n ↔ x.value = n := by
  unfold rangeNumber
  rw [← hx.whole?_eq_some_iff]
  simp only [hv]
  cases x.whole? <;> simp

theorem IsNormal.exponent (hx : x.IsNormal) {b : Number} (hn : x.value = n)
    (hpower : ¬ (b.value = 0 ∧ n < 0)) : calculate .pow b x = .ok (power b.value n) := by
  simp only [calculate, hx.whole?_eq_some_iff.2 hn, if_neg hpower]

theorem IsNormal.noExponent (hx : x.IsNormal) {b : Number} :
    calculate .pow b x = .error .fractionalExponent ↔ ∀ n : Int, x.value ≠ n := by
  rw [← hx.whole?_eq_none_iff]
  unfold calculate
  cases x.whole? with
  | none => simp
  | some k =>
    dsimp only
    split <;> simp

variable {f : Native} {place : Option Span} {m : Machine}

theorem IsNormal.argument (hx : x.IsNormal) (hv : v.payload = .number x) :
    f.whole position place v m = .ok n m ↔ x.value = n := by
  have hnumber : f.number position place v m = .ok x m := by
    rw [Native.number, hv]
    rfl
  rw [Native.whole, Eval.bind_ok hnumber, ← hx.whole?_eq_some_iff]
  cases x.whole? with
  | none =>
    refine ⟨fun h => ?_, nofun⟩
    cases h
  | some k => simp [pure, EStateM.pure]

/-- A whole number in the range of bytes is a byte. -/
theorem byte_of_number (hv : v.payload = .number x) {b : Nat} :
    f.byte place v m = .ok b m ↔ x.value = b ∧ b < 256 := by
  rw [byte_eq_ok_iff, Heap.takenFor_number_iff hv, and_iff_left rfl]

theorem comparison_numbers {h : Heap} {w : Value} {y : Number} (hv : v.payload = .number x)
    (hw : w.payload = .number y) (hvariant : v.variant? = w.variant?) :
    h.comparison .eq v w span = .ok (decide (x.value = y.value)) := by
  have hcompare : h.compare v w = if x.value = y.value then .same else .differ := by
    unfold Heap.compare
    rw [if_neg (not_not.2 hvariant), hv, hw]
  show Except.ok (h.equal v w) = _
  unfold Heap.equal
  rw [Heap.agree]
  by_cases hxy : x.value = y.value
  · rw [if_pos hxy] at hcompare
    split <;> simp_all [Heap.agree]
  · rw [if_neg hxy] at hcompare
    split <;> simp_all

/-- A number in normal form acts by the rational that it stands for. -/
theorem IsNormal.actsByValue (hx : x.IsNormal) : x.ActsByValue where
  index _ _ _ _ _ hv := hx.index hv
  noIndex _ _ _ _ hv := hx.noIndex hv
  bound _ _ _ _ hv := hx.bound hv
  exponent _ _ hn hpower := hx.exponent hn hpower
  noExponent _ := hx.noExponent
  argument _ _ _ _ _ _ hv := hx.argument hv
  byte _ _ _ _ _ hv := byte_of_number hv
  equal _ _ _ _ _ hv hw hvariant := comparison_numbers hv hw hvariant

end Number

/-! ## Numbers that are reached -/

namespace Session

open Eval Interp

variable {m : Machine}

/-- In every machine that is reached in a session, all numbers are in normal form, and what a task, a run that
is stopped or a conversion of data gives or throws is so as well. So what asks for a whole number takes
exactly the integers, and numbers are equal if they stand for the same rational. -/
theorem numbers_stay_normal (hm : Reached m) :
    (∀ v, m.Keeps v → v.IsNormal) ∧
    (∀ (allows : Activity → Machine → Bool) (n : Nat) (t : Task), t.Only (· ∈ m.variants) →
      NormalOutcome (t.run (ofLevel n) m) ∧
      NormalOutcome (t.run (watched allows (exit .exhausted) n {}) m)) ∧
    (∀ d : Datum, d.Only (· ∈ m.variants) → (m.heap.ofDatum d).1.IsNormal) ∧
    ∀ (v : Value) (x : Number), v.IsNormal → v.payload = .number x → x.IsNormal ∧ x.ActsByValue := by
  have hgenuine := hm.genuine
  refine ⟨fun v hv => (hgenuine.only.of_keeps hv).isNormal, fun allows n t ht => ?_, fun d hd => ?_, ?_⟩
  · exact ⟨((carries_task (carrying_ofLevel n) ht).faithful hgenuine Value.Only.mono).normalOutcome,
      ((carries_task (carrying_watched n {}) ht).faithful hgenuine Value.Only.mono).normalOutcome⟩
  · exact (Heap.only_ofDatum hgenuine.only.heap hd).1.isNormal
  · intro v x hv hx
    have hnormal : x.IsNormal := by
      unfold Value.IsNormal at hv
      rwa [hx] at hv
    exact ⟨hnormal, hnormal.actsByValue⟩

/-- Whole numbers that come from fractions, a decimal, a power and a division, and a number that is not
whole. -/
theorem numbers_stay_normal_sums :
    let m := afterSource "let a = [1 / 2 + 1 / 2, 2.0, 4 ** -0, 6 / 3, 3 / 2]" (blank {} [])
    let items := (m.heap.array 0).toList
    let t : Task := .eval (.index .unknown (.name .unknown "a") (.literal .unknown (.number 4))) mainFrame
    items.map (·.payload) = [.number (.whole 1), .number (.whole 2), .number (.whole 1),
      .number (.whole 2), .number (.fraction (3 / 2))] ∧
    (∀ v ∈ items, v.IsNormal) ∧ NormalOutcome (t.run (ofLevel 3) m) ∧
    (m.heap.ofDatum (.number 5)).1.IsNormal ∧ (Number.fraction (3 / 2)).ActsByValue := by
  intro m items t
  have hitems : items.map (·.payload) = [.number (.whole 1), .number (.whole 2), .number (.whole 1),
      .number (.whole 2), .number (.fraction (3 / 2))] := by
    unfold items m
    rw [Text.ofString_ofList]
    decide +kernel
  have hreached : Reached m := .request (.blank {} []) (r := .source _ none) trivial
  obtain ⟨hkept, htasks, hdata, hnumbers⟩ := numbers_stay_normal hreached
  have hhalves : (Value.plain (.number (.fraction (3 / 2)))).IsNormal := by
    show 1 < (3 / 2 : Rat).den
    decide +kernel
  refine ⟨hitems, fun v hv => hkept v (.element hv), (htasks (fun _ _ => true) 3 t trivial).1, hdata _ .number,
    (hnumbers _ _ hhalves rfl).2⟩

end Session

end ScriptEngine

import ScriptEngine.Eval.Statement
import ScriptEngine.Proofs.Enum.Identity

/-!
# Constructors of variants

A value has room for one variant. A constructor stamps its argument, so that the result has the payload of the
argument and all its tags but the variant, whose place is taken by that of the constructor.

* `Heap.equal_iff_matches`: two values are equal if they match, with equal contents.
* `Value.equal_stamped`: stamped values are equal if they are so with their own variants set aside.
* **Constructors are injective up to the variant** (`constructors_injective`), and the variant of a constructed value
  is that of its constructor and no other.
* `constructors_forget_variants`: a constructed value does not tell what variant its argument was.
-/

namespace ScriptEngine

variable {h : Heap} {a b p q v w : Value} {V W : VariantTag} {key : Text} {tag : Tag}

/-- Two values are equal if they match and what they hold is equal. -/
theorem Heap.equal_iff_matches : h.equal a b = true ↔ h.Matches (fun a b => h.equal a b = true) a b := by
  refine ⟨h.isBisimulation_equal a b, fun hm => ?_⟩
  -- matching values are one step away from equal ones, which match themselves
  have hstep : h.IsBisimulation (h.Matches fun a b => h.equal a b = true) := by
    rintro x y ⟨hv, hp⟩
    exact ⟨hv, hp.mono h.isBisimulation_equal⟩
  exact equal_of_isBisimulation hstep hm

/-- Values that carry different variants, or of which one carries none, are not equal. -/
theorem Heap.equal_of_variant_ne (hne : a.variant? ≠ b.variant?) : h.equal a b = false :=
  Bool.eq_false_iff.2 fun he => hne (h.isBisimulation_equal a b he).1

namespace Value

theorem tag?_setTag : (v.setTag key tag).tag? key = some tag := by
  have hfind (tags : List (Text × Tag)) : ((putTag key tag tags).find? (·.1 = key)).map Prod.snd = some tag := by
    induction tags with
    | nil => simp [putTag]
    | cons e rest ih =>
      rw [putTag]
      split
      · simp
      · next he => rwa [List.find?_cons_of_neg (by simpa using he)]
  exact hfind v.tags

theorem tag?_eraseTag : (v.eraseTag key).tag? key = none := by
  rw [tag?, eraseTag, List.find?_filter]
  simp

/-- A stamped value carries the variant it is stamped with. -/
theorem variant?_stamped : (v.stamped V).variant? = some V := by
  rw [variant?, stamped, tag?_setTag]

/-- A value whose variant is set aside carries none. -/
theorem variant?_eraseTag : (v.eraseTag TagName.variant).variant? = none := by
  rw [variant?, tag?_eraseTag]

/-- Stamped values are equal exactly if the values are so with their own variants set aside. -/
theorem equal_stamped : h.equal (p.stamped V) (q.stamped V) =
    h.equal (p.eraseTag TagName.variant) (q.eraseTag TagName.variant) := by
  rw [Bool.eq_iff_iff, Heap.equal_iff_matches, Heap.equal_iff_matches, Heap.Matches, Heap.Matches, variant?_stamped,
    variant?_stamped, variant?_eraseTag, variant?_eraseTag]
  exact and_congr_left' (iff_of_true rfl rfl)

/-- Values that carry the same variant are equal exactly if they are so with it set aside. -/
theorem equal_eraseTag_variant (hpq : p.variant? = q.variant?) :
    h.equal (p.eraseTag TagName.variant) (q.eraseTag TagName.variant) = h.equal p q := by
  rw [Bool.eq_iff_iff, Heap.equal_iff_matches, Heap.equal_iff_matches, Heap.Matches, Heap.Matches, variant?_eraseTag,
    variant?_eraseTag]
  exact and_congr_left' (iff_of_true rfl hpq)

end Value

namespace Interp

variable {I : Interp} {m : Machine} {span : Option Span}

/-- A call of a variant stamps the argument. -/
theorem apply_variant (hv : v.payload = .null) (hV : v.variant? = some V) :
    I.apply v [p] span m = .ok (p.stamped V) m := by
  rw [apply, hv, hV]
  rfl

theorem binary_eq {s : Span} : I.binary (.compare .eq) a b s m = .ok (.bool (m.heap.equal a b)) m := by
  have hread : Eval.readHeap (·.comparison .eq a b s) m = .ok (m.heap.equal a b) m := Eval.readHeap_ok rfl
  rw [binary]
  exact Eval.bind_ok hread

theorem binary_isVariant {s : Span} (hW : w.variant? = some W) :
    I.binary .isVariant a w s m = .ok (.bool (decide (a.variant? = some W))) m := by
  have htest : I.isTest a w s m = .ok (decide (a.variant? = some W)) m := by
    rw [isTest, hW]
    rfl
  rw [binary]
  exact Eval.bind_ok htest

variable (I) in
/-- What `==` gives for the values that a callee makes of two arguments. -/
def equateResults (v p q : Value) (s : Span) : Eval Value := do
  let a ← I.apply v [p] s
  let b ← I.apply v [q] s
  I.binary (.compare .eq) a b s

variable (I) in
/-- What `is` gives for the value that a callee makes of an argument. -/
def testResult (v p w : Value) (s : Span) : Eval Value := do
  let a ← I.apply v [p] s
  I.binary .isVariant a w s

theorem equateResults_variant (hv : v.payload = .null) (hV : v.variant? = some V) {s : Span} :
    I.equateResults v p q s m = .ok (.bool (m.heap.equal (p.stamped V) (q.stamped V))) m := by
  have hp : I.apply v [p] s m = .ok (p.stamped V) m := apply_variant hv hV
  have hq : I.apply v [q] s m = .ok (q.stamped V) m := apply_variant hv hV
  rw [equateResults, Eval.bind_ok hp, Eval.bind_ok hq, binary_eq]

theorem testResult_variant (hv : v.payload = .null) (hV : v.variant? = some V) (hW : w.variant? = some W) {s : Span} :
    I.testResult v p w s m = .ok (.bool (decide (V = W))) m := by
  have hp : I.apply v [p] s m = .ok (p.stamped V) m := apply_variant hv hV
  rw [testResult, Eval.bind_ok hp, binary_isVariant hW, Value.variant?_stamped]
  simp

end Interp

/-- For a value `v` that is the constructor of a variant, and arguments of any kind: the constructed values are equal
exactly if the arguments are so with their own variants set aside, and so exactly if the arguments are equal when
these carry the same variant, or none. A constructed value is the variant of its constructor and no other one. -/
theorem constructors_injective {v : Value} {V : VariantTag} (hv : v.payload = .null) (hV : v.variant? = some V)
    (I : Interp) (m : Machine) (s : Span) (p q : Value) :
    I.equateResults v p q s m =
      .ok (.bool (m.heap.equal (p.eraseTag TagName.variant) (q.eraseTag TagName.variant))) m ∧
    (p.variant? = q.variant? → I.equateResults v p q s m = I.binary (.compare .eq) p q s m) ∧
    ∀ w W, w.variant? = some W → I.testResult v p w s m = .ok (.bool (decide (V = W))) m := by
  have hequal := Interp.equateResults_variant (I := I) (m := m) (p := p) (q := q) hv hV (s := s)
  rw [Value.equal_stamped] at hequal
  refine ⟨hequal, fun hpq => ?_, fun w W hW => Interp.testResult_variant hv hV hW⟩
  rw [hequal, Interp.binary_eq, Value.equal_eraseTag_variant hpq]

/-- A variant of an enum with two. -/
def leftVariant : VariantTag := ⟨⟨"Side", 1⟩, "Left", 2⟩

/-- The other one. -/
def rightVariant : VariantTag := ⟨⟨"Side", 1⟩, "Right", 3⟩

/-- Two numbers under one variant are equal if the numbers are, and neither is the other variant. -/
theorem constructors_injective_numbers :
    Interp.session.equateResults (.ofVariant leftVariant) (.number 1) (.number 2) .unknown {} =
      Interp.session.binary (.compare .eq) (.number 1) (.number 2) .unknown {} ∧
    Interp.session.testResult (.ofVariant leftVariant) (.number 1) (.ofVariant rightVariant) .unknown {} =
      .ok (.bool false) {} := by
  obtain ⟨-, hequal, his⟩ := constructors_injective (v := .ofVariant leftVariant) rfl Value.variant?_stamped
    Interp.session {} .unknown (.number 1) (.number 2)
  exact ⟨hequal rfl, his _ rightVariant Value.variant?_stamped⟩

/-- A constructor forgets the variant of its argument: a number under another variant and the number alone give equal
values, but are not equal. -/
theorem constructors_forget_variants :
    Interp.session.equateResults (.ofVariant leftVariant) ((Value.number 1).stamped rightVariant) (.number 1)
      .unknown {} = .ok (.bool true) {} ∧
    Interp.session.binary (.compare .eq) ((Value.number 1).stamped rightVariant) (.number 1) .unknown {} =
      .ok (.bool false) {} := by
  have hequal (h : Heap) : h.equal (((Value.number 1).stamped rightVariant).stamped leftVariant)
      ((Value.number 1).stamped leftVariant) = true :=
    Value.equal_of_payload rfl (by rw [Value.variant?_stamped, Value.variant?_stamped])
  have hdiffer (h : Heap) : h.equal ((Value.number 1).stamped rightVariant) (.number 1) = false :=
    Heap.equal_of_variant_ne (Value.variant?_stamped (V := rightVariant) ▸ nofun)
  rw [Interp.equateResults_variant (v := .ofVariant leftVariant) rfl Value.variant?_stamped, Interp.binary_eq, hequal,
    hdiffer]
  exact ⟨rfl, rfl⟩

end ScriptEngine

import ScriptEngine.Proofs.Eval.Slicing

/-!
# Slices of whole sequences

The ranges `0..-1` and `-1..0` run over all places of an array or a string, forwards and backwards, as long as
there is one.

* `whole_slices`: what `v[0..-1]` and `v[-1..0]` give. For a sequence without elements the last place `-1` stays
  in front of the first, so that both ranges run over `-1` and `0`, which are no places.
-/

namespace ScriptEngine

namespace Progression

variable {a b : Int}

theorem between_ascending (h : a ≤ b) :
    between a b none true true = .ok ⟨a, 1, (b - a + 1).toNat⟩ := by
  simp [between, direction, h, countBefore]
  omega

/-- From a bound down to another; between equal bounds the only number is gone to upwards. -/
theorem between_descending (h : b ≤ a) :
    ∃ p, between a b none true true = .ok p ∧ p.toList = (mk a (-1) (a - b + 1).toNat).toList := by
  obtain rfl | hlt := Int.le_iff_eq_or_lt.1 h
  · refine ⟨_, between_ascending (Int.le_refl b), ?_⟩
    simp [toList, get]
  · refine ⟨⟨a, -1, (a - b + 1).toNat⟩, ?_, rfl⟩
    simp [between, direction, countBefore, Int.not_le.2 hlt]
    omega

end Progression

namespace Interp

/-- The range `0..-1`. -/
def fromFirst (p : Nat → Span) : RangeParts :=
  ⟨p 0, .literal (p 1) (.number 0), .unary (p 2) .neg (.literal (p 3) (.number 1)), true, true, none⟩

/-- The range `-1..0`. -/
def fromLast (p : Nat → Span) : RangeParts :=
  ⟨p 0, .unary (p 1) .neg (.literal (p 2) (.number 1)), .literal (p 3) (.number 0), true, true, none⟩

variable {level frame : Nat} {e : Expr} {m m' m₁ : Machine} {v w w' : Value} {object : Expr} {s : Span}
  {items : List Value} {p : Nat → Span}

theorem givesBounds_fromFirst : (ofLevel (level + 2)).GivesBounds (fromFirst p) frame m 0 (-1) none m :=
  ⟨m, m, givesWhole_of_isNumber Expr.isNumber_literal (by omega),
    givesWhole_of_isNumber Expr.isNumber_literal.neg (by omega), .default⟩

theorem givesBounds_fromLast : (ofLevel (level + 2)).GivesBounds (fromLast p) frame m (-1) 0 none m :=
  ⟨m, m, givesWhole_of_isNumber Expr.isNumber_literal.neg (by omega),
    givesWhole_of_isNumber Expr.isNumber_literal (by omega), .default⟩

end Interp

section

variable {h : Heap} {v w w' : Value} {m m' m₁ m₂ : Machine} {items : List Value} {n : Nat}

/-- The numbers from the first place to the last are all places. -/
theorem Heap.ascending (hn : (h.units v).length = n) :
    (∀ x ∈ (Progression.mk 0 1 n).toList, h.HasPlace v x) ∧
      (Progression.mk 0 1 n).toList.map (h.unitAt v) = h.units v := by
  constructor
  · intro x hx
    obtain ⟨i, hi, rfl⟩ := List.mem_map.1 hx
    have hi : i < n := List.mem_range.1 hi
    simp only [Progression.get, HasPlace, hn]
    omega
  · refine List.ext_getElem (by simp [Progression.toList, hn]) fun i hi _ => ?_
    have hlt : i < (h.units v).length := by simpa [Progression.toList, hn] using hi
    simp [Progression.toList, Progression.get, unitAt, hlt]

/-- The numbers from the last place to the first are all places backwards. -/
theorem Heap.descending (hn : (h.units v).length = n) :
    (∀ x ∈ (Progression.mk (n - 1) (-1) n).toList, h.HasPlace v x) ∧
      (Progression.mk (n - 1) (-1) n).toList.map (h.unitAt v) = (h.units v).reverse := by
  constructor
  · intro x hx
    obtain ⟨i, hi, rfl⟩ := List.mem_map.1 hx
    have hi : i < n := List.mem_range.1 hi
    simp only [Progression.get, HasPlace, hn]
    omega
  · refine List.ext_getElem (by simp [Progression.toList, hn]) fun i hi _ => ?_
    have hlt : i < (h.units v).length := by simpa [Progression.toList, hn] using hi
    have hplace : ((n : Int) - 1 + i * -1).toNat = (h.units v).length - 1 - i := by omega
    simp only [Progression.toList, Progression.get, unitAt, List.getElem_map, List.getElem_range, hplace]
    rw [List.getElem_reverse, List.getD_eq_getElem?_getD, List.getElem?_eq_getElem (by omega), Option.getD_some]

/-- What is assembled from elements, and where. -/
theorem Machine.Assembles.unique (hw : m.Assembles v items w m₁) (hw' : m.Assembles v items w' m₂) :
    w = w' ∧ m₁ = m₂ := by
  obtain ⟨hv⟩ | ⟨hv, ht⟩ := hw <;> obtain ⟨hv'⟩ | ⟨hv', ht'⟩ := hw'
  · exact ⟨rfl, rfl⟩
  · rw [hv] at hv'
    cases hv'
  · rw [hv] at hv'
    cases hv'
  · have hinj : Function.Injective fun c => Value.string [c] := fun c d hcd => by
      simpa [Value.string, Value.plain] using hcd
    exact ⟨congrArg Value.string (hinj.list_map (ht.symm.trans ht')), rfl⟩

/-- The native function for reversing assembles the elements backwards. -/
theorem Native.reverse_assembles (I : Interp) (span : Option Span) (hv : v.IsSequence) :
    ∃ w m', Native.reverse.call I [v] span m = .ok w m' ∧ m.Assembles v (m.heap.units v).reverse w m' := by
  obtain ⟨payload, tags⟩ := v
  obtain ⟨id, rfl, hkind⟩ | ⟨t, rfl, hkind⟩ := hv.cases
  · exact ⟨_, _, rfl, .array hkind⟩
  · exact ⟨_, _, rfl, .string hkind (List.map_reverse ..).symm⟩

open Interp

variable {level frame : Nat} {object : Expr} {s : Span} {p : Nat → Span}

/-- A slice whose numbers are all places, in some order, has the elements in that order. -/
theorem slice_of_places {r : RangeParts} {start stop : Int} {numbers : Progression}
    (hobject : (ofLevel level).eval object frame m = .ok v m₁) (hv : v.IsSequence)
    (hbounds : (ofLevel level).GivesBounds r frame m₁ start stop none m₁)
    (hnumbers : Progression.between (m₁.heap.placeOf v start) (m₁.heap.placeOf v stop) none r.withStart r.withStop =
      .ok numbers)
    (hplaces : ∀ x ∈ numbers.toList, m₁.heap.HasPlace v x) :
    ∃ w m', (ofLevel (level + 1)).eval (.index s object r.literal) frame m = .ok w m' ∧
      m₁.Assembles v (numbers.toList.map (m₁.heap.unitAt v)) w m' := by
  rw [eval_slice hobject]
  exact (sliceBy_picks hv hbounds hnumbers).of_places hplaces

/-- A slice of which a number means no place is an index error. -/
theorem slice_of_none {r : RangeParts} {start stop x : Int} {numbers : Progression}
    (hobject : (ofLevel level).eval object frame m = .ok v m₁) (hv : v.IsSequence)
    (hbounds : (ofLevel level).GivesBounds r frame m₁ start stop none m₁)
    (hnumbers : Progression.between (m₁.heap.placeOf v start) (m₁.heap.placeOf v stop) none r.withStart r.withStop =
      .ok numbers)
    (hx : x ∈ numbers.toList) (hout : ¬ m₁.heap.HasPlace v (m₁.heap.placeOf v x)) :
    ∃ f, (ofLevel (level + 1)).eval (.index s object r.literal) frame m = .error (.failed (.fault f)) m₁ ∧
      f.kind = .index := by
  rw [eval_slice hobject]
  exact (sliceBy_picks hv hbounds hnumbers).outside ⟨_, List.mem_map_of_mem hx, hout⟩

/-- What `v[0..-1]` and `v[-1..0]` give for an array or a string `v`: all its elements, in a new cell for an array,
and the same as the native function for reversing gives; but index errors if `v` has no elements. -/
theorem whole_slices {I : Interp} (span : Option Span)
    (hobject : (ofLevel (level + 2)).eval object frame m = .ok v m₁) (hv : v.IsSequence) :
    let forwards := (ofLevel (level + 3)).eval (.index s object (fromFirst p).literal) frame m
    let backwards := (ofLevel (level + 3)).eval (.index s object (fromLast p).literal) frame m
    (m₁.heap.units v ≠ [] →
      (∃ w m', forwards = .ok w m' ∧ m₁.Assembles v (m₁.heap.units v) w m') ∧
      ∃ w m', backwards = .ok w m' ∧ m₁.Assembles v (m₁.heap.units v).reverse w m' ∧
        Native.reverse.call I [v] span m₁ = .ok w m') ∧
    (m₁.heap.units v = [] →
      (∃ f, forwards = .error (.failed (.fault f)) m₁ ∧ f.kind = .index) ∧
      ∃ f, backwards = .error (.failed (.fault f)) m₁ ∧ f.kind = .index) := by
  intro forwards backwards
  have hfirst : m₁.heap.placeOf v 0 = 0 := rfl
  have hlast : m₁.heap.placeOf v (-1) = (m₁.heap.units v).length - 1 := by
    rw [Heap.placeOf, boundIn, if_pos (by decide)]
    omega
  refine ⟨fun hsome => ?_, fun hnone => ?_⟩
  · have hpos : 0 < (m₁.heap.units v).length := List.length_pos_iff.2 hsome
    constructor
    · obtain ⟨hplaces, hunits⟩ := Heap.ascending (h := m₁.heap) (v := v) rfl
      rw [← hunits]
      refine slice_of_places hobject hv givesBounds_fromFirst ?_ hplaces
      rw [hfirst, hlast]
      refine (Progression.between_ascending (by omega)).trans ?_
      congr 2
      omega
    · obtain ⟨hplaces, hunits⟩ := Heap.descending (h := m₁.heap) (v := v) rfl
      obtain ⟨q, hq, hnumbers⟩ := Progression.between_descending (a := (m₁.heap.units v).length - 1) (b := 0) (by omega)
      have hcount : ((m₁.heap.units v).length - 1 - 0 + 1 : Int).toNat = (m₁.heap.units v).length := by omega
      rw [hcount] at hnumbers
      rw [← hnumbers] at hplaces hunits
      obtain ⟨w, m', hw, hitems⟩ := slice_of_places (s := s) hobject hv givesBounds_fromLast
        (by rw [hfirst, hlast]; exact hq) hplaces
      obtain ⟨w', m'', hw', hitems'⟩ := Native.reverse_assembles (m := m₁) I span hv
      rw [hunits] at hitems
      obtain ⟨rfl, rfl⟩ := hitems.unique hitems'
      exact ⟨w, m', hw, hitems, hw'⟩
  · have hempty : (m₁.heap.units v).length = 0 := by rw [hnone]; rfl
    have hout (x : Int) : ¬ m₁.heap.HasPlace v x := by
      unfold Heap.HasPlace
      omega
    rw [hempty] at hlast
    have hforwards : Progression.between (m₁.heap.placeOf v 0) (m₁.heap.placeOf v (-1)) none true true =
        .ok ⟨0, -1, 2⟩ := by rw [hfirst, hlast]; rfl
    have hbackwards : Progression.between (m₁.heap.placeOf v (-1)) (m₁.heap.placeOf v 0) none true true =
        .ok ⟨-1, 1, 2⟩ := by rw [hfirst, hlast]; rfl
    exact ⟨slice_of_none hobject hv givesBounds_fromFirst hforwards (x := 0) (by decide) (hout _),
      slice_of_none hobject hv givesBounds_fromLast hbackwards (x := 0) (by decide) (hout _)⟩

/-- The string `"abc"` forwards and backwards. -/
theorem whole_slices_abc :
    (∃ w m', (ofLevel 3).eval (.index default abc (fromFirst default).literal) 0 default = .ok w m' ∧
      m'.heap.units w = [.string "a", .string "b", .string "c"]) ∧
    ∃ w m', (ofLevel 3).eval (.index default abc (fromLast default).literal) 0 default = .ok w m' ∧
      m'.heap.units w = [.string "c", .string "b", .string "a"] := by
  have hobject : (ofLevel 2).eval abc 0 default = .ok (.string "abc") default := rfl
  obtain ⟨hsome, -⟩ := whole_slices (s := default) (p := default) (I := exhausted) none hobject (.inr rfl)
  obtain ⟨⟨w, m₁, hw, hitems⟩, w', m₂, hw', hitems', -⟩ := hsome (by decide)
  exact ⟨⟨w, m₁, hw, hitems.units⟩, w', m₂, hw', hitems'.units⟩

/-- The empty string has no slice `""[0..-1]`. -/
theorem no_whole_slice_of_empty :
    ¬ ∃ w m', (ofLevel 3).eval (.index default (.literal default (.string "")) (fromFirst default).literal) 0 default =
      .ok w m' := by
  rintro ⟨w, m', hw⟩
  have hobject : (ofLevel 2).eval (.literal default (.string "")) 0 default = .ok (.string "") default := rfl
  have hnumbers : Progression.between (boundIn 0 0) (boundIn 0 (-1)) none true true = .ok ⟨0, -1, 2⟩ := rfl
  obtain ⟨f, hf, -⟩ := slice_of_none (s := default) (x := 0) hobject (.inr rfl)
    (givesBounds_fromFirst (p := default)) hnumbers (by decide) (by decide)
  rw [hf] at hw
  cases hw

end

end ScriptEngine

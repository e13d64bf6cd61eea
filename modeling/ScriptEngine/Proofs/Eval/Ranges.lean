import ScriptEngine.Proofs.Eval.Slicing

/-!
# Ranges

The numbers that a range denotes.

* **Numbers up to a stop** (`Progression.Numbers`): those at the same distance from each other, in order, that do
  not pass the stop, which may be left out itself.
* `between_numbers`, `between_error_iff`: what bounds and a step denote, and for which they denote nothing.
* `range_lists_numbers`: a range evaluates to an array of its numbers, and a loop over it goes over the same pairs of
  an index and a number as a loop over that array.
-/

namespace ScriptEngine

namespace Progression

variable {start stop step : Int} {withStart withStop : Bool} {given : Option Int} {p : Progression} {i : Nat}

/-- A number is not past a stop, on the way in steps of `step`, nor is it the stop if that is left out. -/
def Upto (stop step : Int) (withStop : Bool) (x : Int) : Prop :=
  if 0 < step then (if withStop then x ≤ stop else x < stop) else if withStop then stop ≤ x else stop < x

/-- The numbers `start + i * step` in increasing `i`, from 0 on, or from 1 on if the start is left out, that are not
past the stop. -/
def Numbers (start stop step : Int) (withStart withStop : Bool) (xs : List Int) : Prop :=
  let first := if withStart then 0 else 1
  xs = (List.range' first xs.length).map (fun i : Nat => start + i * step) ∧
    ∀ i, first ≤ i → (Upto stop step withStop (start + i * step) ↔ i < first + xs.length)

/-- A step that does not lead from the start to the stop. -/
def Misleads (start stop step : Int) : Prop := step = 0 ∨ start < stop ∧ step < 0 ∨ stop < start ∧ 0 < step

instance : Decidable (Misleads start stop step) :=
  inferInstanceAs (Decidable (step = 0 ∨ start < stop ∧ step < 0 ∨ stop < start ∧ 0 < step))

/-! ## Counting -/

/-- As many numbers are counted as are before the limit. -/
theorem lt_countBefore (hstep : step ≠ 0) :
    i < countBefore start stop step ↔ if 0 < step then start + i * step < stop else stop < start + i * step := by
  unfold countBefore
  split
  · next hpos =>
    rw [Int.lt_toNat, ← Int.add_one_le_iff, Int.le_ediv_iff_mul_le hpos, Int.add_mul]
    omega
  · next hneg =>
    have hpos : 0 < -step := by omega
    rw [Int.lt_toNat, ← Int.add_one_le_iff, Int.le_ediv_iff_mul_le hpos, Int.add_mul, Int.mul_neg]
    omega

theorem direction_pos_iff : 0 < direction start stop ↔ start ≤ stop := by
  unfold direction
  split
  · next h => exact iff_of_true (by decide) h
  · next h => exact iff_of_false (by decide) h

theorem misleads_iff (hstep : step ≠ 0) :
    Misleads start stop step ↔ start ≠ stop ∧ (0 < step) ≠ (0 < direction start stop) := by
  simp only [Misleads, ne_eq, eq_iff_iff, direction_pos_iff]
  omega

/-- The bounds and a step denote nothing if the step does not lead from one to the other. -/
theorem between_error_iff :
    (∃ e, between start stop given withStart withStop = .error e) ↔
      Misleads start stop (given.getD (direction start stop)) := by
  unfold between
  by_cases hzero : given.getD (direction start stop) = 0
  · simp only [hzero, if_true]
    exact iff_of_true ⟨_, rfl⟩ (.inl rfl)
  · rw [misleads_iff hzero]
    simp only [hzero, if_false]
    split
    · next hwrong => exact iff_of_true ⟨_, rfl⟩ hwrong
    · next hright => exact iff_of_false nofun hright

/-- There is one list of the numbers. -/
theorem Numbers.unique {xs ys : List Int} (hxs : Numbers start stop step withStart withStop xs)
    (hys : Numbers start stop step withStart withStop ys) : xs = ys := by
  obtain ⟨hxs, hxlen⟩ := hxs
  obtain ⟨hys, hylen⟩ := hys
  have hlength : xs.length = ys.length := by
    have hx := (hxlen _ (Nat.le_add_right _ ys.length)).symm.trans (hylen _ (Nat.le_add_right _ _))
    have hy := (hxlen _ (Nat.le_add_right _ xs.length)).symm.trans (hylen _ (Nat.le_add_right _ _))
    omega
  rw [hxs, hys, hlength]

theorem length_toList : p.toList.length = p.count := by simp [toList]

/-- The stop is moved by one in the direction of the step if it belongs to the range, so that it is a limit that no
number reaches. -/
theorem upto_iff {x : Int} :
    Upto stop step withStop x ↔
      if 0 < step then x < (if withStop then stop + (if 0 < step then 1 else -1) else stop)
      else (if withStop then stop + (if 0 < step then 1 else -1) else stop) < x := by
  unfold Upto
  cases withStop with
  | false => simp
  | true =>
    simp only [if_true]
    split <;> omega

/-- The numbers from the one with index `k` on, as many as are before the limit. -/
theorem numbers_of_count (hstep : step ≠ 0) {k : Nat} (hk : k = if withStart then 0 else 1) {limit : Int}
    (hlimit : ∀ x, Upto stop step withStop x ↔ if 0 < step then x < limit else limit < x) :
    Numbers start stop step withStart withStop
      (mk (start + k * step) step (countBefore (start + k * step) limit step)).toList := by
  unfold Numbers
  rw [length_toList, ← hk]
  constructor
  · rw [toList, List.range'_eq_map_range, List.map_map]
    refine List.map_congr_left fun j _ => ?_
    simp only [get, Function.comp_apply]
    rw [Int.natCast_add, Int.add_mul, Int.add_assoc]
  · intro i hi
    obtain ⟨j, rfl⟩ := Nat.exists_eq_add_of_le hi
    have hplace : start + ((k + j : Nat) : Int) * step = start + k * step + j * step := by
      rw [Int.natCast_add, Int.add_mul, Int.add_assoc]
    rw [hlimit, hplace, Nat.add_lt_add_iff_left, lt_countBefore hstep]

/-- The numbers that bounds and a step denote. -/
theorem between_numbers (hp : between start stop given withStart withStop = .ok p) :
    Numbers start stop (given.getD (direction start stop)) withStart withStop p.toList := by
  unfold between at hp
  dsimp only at hp
  generalize given.getD (direction start stop) = step at hp ⊢
  split at hp
  · cases hp
  · next hzero =>
    split at hp
    · cases hp
    · cases hp
      have hfirst : (if withStart then start else start + step) =
          start + ((if withStart then 0 else 1 : Nat) : Int) * step := by
        cases withStart <;> simp
      rw [hfirst]
      exact numbers_of_count hzero rfl fun x => upto_iff

end Progression

namespace Interp

open Eval

variable {level frame : Nat} {r : RangeParts} {start stop : Int} {step : Option Int} {p : Progression}
  {m m' m₁ m₂ : Machine} {s : Span} {v : Value} {turn : Value → Value → Eval Bool}

/-! ## Evaluation -/

/-- The numbers of a range as values. -/
def numberValues (xs : List Int) : List Value := xs.map fun x : Int => .number x

theorem rangeArray_ok {I : Interp} (hp : I.progression r none frame m = .ok p m') :
    I.rangeArray r frame m = .ok (.plain (.array m'.heap.arrays.size))
      (m'.withHeap (m'.heap.newArray (numberValues p.toList).toArray).2) := by
  rw [rangeArray, bind_ok hp]
  rfl

/-! ## Loops -/

/-- The rounds of a loop over the numbers of a progression. -/
theorem forNumbers_eq (turn : Value → Value → Eval Bool) (p : Progression) (i left : Nat) :
    forNumbers turn p i left =
      forEach turn ((List.range' i left).map fun j => (.number (j : Nat), .number (p.get j))) := by
  induction left generalizing i with
  | zero => rfl
  | succ left ih =>
    rw [List.range'_succ, List.map_cons, forNumbers, forEach, ih]

theorem enumerated_numberValues (p : Progression) :
    Heap.enumerated (numberValues p.toList) =
      (List.range' 0 p.count).map fun j => (.number (j : Nat), .number (p.get j)) := by
  refine List.ext_getElem (by simp [Heap.enumerated, numberValues, Progression.length_toList]) fun i _ _ => ?_
  simp [Heap.enumerated, numberValues, Progression.toList]

/-- A loop over an array goes over its elements. -/
theorem elements_array {id : Nat} (hv : v.payload = .array id) :
    elements v s m = .ok (Heap.enumerated (m.heap.array id).toList) m := by
  have hfollow : m.heap.follow? v = some v := by
    rw [Heap.follow?, Heap.followIn?, hv]
  have hheap : Eval.heap m = .ok m.heap m := rfl
  rw [elements, bind_ok (readEndless_some hfollow), bind_ok hheap, Heap.pairs?, hv]
  rfl

/-- A loop over a range literal needs no array of its numbers. -/
theorem eval_forIn_range {indexName : Option Text} {valueName : Text} {body : Block}
    (hp : (ofLevel level).progression r none frame m = .ok p m') :
    (ofLevel (level + 1)).eval (.forIn s indexName valueName r.literal body) frame m =
      forEach ((ofLevel level).forRound indexName valueName body frame)
        (Heap.enumerated (numberValues p.toList)) m' := by
  have hloop : (ofLevel (level + 1)).eval (.forIn s indexName valueName r.literal body) frame = (do
      let p ← (ofLevel level).progression r none frame
      forNumbers ((ofLevel level).forRound indexName valueName body frame) p 0 p.count : Eval Value) := rfl
  rw [hloop, bind_ok hp, forNumbers_eq, enumerated_numberValues]

theorem eval_forIn_array {indexName : Option Text} {valueName : Text} {body : Block} {e : Expr} {id : Nat}
    (he : ∀ r : RangeParts, e ≠ r.literal) (hv : (ofLevel level).eval e frame m₁ = .ok v m₂)
    (hid : v.payload = .array id) :
    (ofLevel (level + 1)).eval (.forIn s indexName valueName e body) frame m₁ =
      forEach ((ofLevel level).forRound indexName valueName body frame)
        (Heap.enumerated (m₂.heap.array id).toList) m₂ := by
  have hloop : (ofLevel (level + 1)).eval (.forIn s indexName valueName e body) frame = (do
      forEach ((ofLevel level).forRound indexName valueName body frame)
        (← elements (← (ofLevel level).eval e frame) e.span) : Eval Value) := by
    cases e with
    | range span start stop withStart withStop step =>
      exact absurd rfl (he ⟨span, start, stop, withStart, withStop, step⟩)
    | _ => rfl
  rw [hloop, bind_ok hv, bind_ok (elements_array hid)]

/-- A range whose bounds and step are whole numbers is a value error if the step does not lead from the start to the
stop. Otherwise it evaluates to a new array of its numbers, and a loop over the range goes over the same pairs of an
index and a number, one round after the other, as a loop over that array. -/
theorem range_lists_numbers (hbounds : (ofLevel level).GivesBounds r frame m start stop step m') :
    let by_ := step.getD (if start ≤ stop then 1 else -1)
    let run := (ofLevel (level + 1)).eval r.literal frame m
    ((∃ f m₁, run = .error (.failed (.fault f)) m₁ ∧ f.kind = .value) ↔ Progression.Misleads start stop by_) ∧
    (¬ Progression.Misleads start stop by_ →
      ∃ xs, Progression.Numbers start stop by_ r.withStart r.withStop xs ∧
        run = .ok (.plain (.array m'.heap.arrays.size))
          (m'.withHeap (m'.heap.newArray (numberValues xs).toArray).2) ∧
        ∀ (s : Span) (indexName : Option Text) (valueName : Text) (body : Block),
          let turn := (ofLevel level).forRound indexName valueName body frame
          let pairs := Heap.enumerated (numberValues xs)
          (ofLevel (level + 1)).eval (.forIn s indexName valueName r.literal body) frame m = forEach turn pairs m' ∧
          ∀ (e : Expr) (v : Value) (id : Nat) (m₁ m₂ : Machine), (∀ r : RangeParts, e ≠ r.literal) →
            (ofLevel level).eval e frame m₁ = .ok v m₂ → v.payload = .array id →
            (m₂.heap.array id).toList = numberValues xs →
            (ofLevel (level + 1)).eval (.forIn s indexName valueName e body) frame m₁ = forEach turn pairs m₂) := by
  intro by_ run
  have hprogression : (ofLevel level).progression r none frame m = _ := progression_eq hbounds
  have hmisleads : (∃ e, Progression.between start stop step r.withStart r.withStop = .error e) ↔
      Progression.Misleads start stop by_ := Progression.between_error_iff
  have hrun : run = (ofLevel level).rangeArray r frame m := rfl
  cases hbetween : Progression.between start stop step r.withStart r.withStop with
  | error e =>
    have hwrong : Progression.Misleads start stop by_ := hmisleads.1 ⟨e, hbetween⟩
    simp only [placeIn, Option.elim_none, hbetween] at hprogression
    have hfault := hrun.trans (Eval.bind_error hprogression)
    exact ⟨iff_of_true ⟨_, m', hfault, rfl⟩ hwrong, fun hright => absurd hwrong hright⟩
  | ok p =>
    have hright : ¬ Progression.Misleads start stop by_ := by
      rw [← hmisleads, hbetween]
      exact nofun
    simp only [placeIn, Option.elim_none, hbetween] at hprogression
    have harray := hrun.trans (rangeArray_ok hprogression)
    refine ⟨iff_of_false ?_ hright, fun _ => ⟨p.toList, Progression.between_numbers hbetween, harray, ?_⟩⟩
    · rintro ⟨f, m₁, hf, -⟩
      rw [harray] at hf
      cases hf
    · intro s indexName valueName body turn pairs
      refine ⟨eval_forIn_range hprogression, fun e v id m₁ m₂ he hv hid hitems => ?_⟩
      rw [eval_forIn_array he hv hid, hitems]

/-- `1..6 step 2` -/
theorem range_lists_numbers_odd :
    (ofLevel 3).eval (RangeParts.literal ⟨default, .literal default (.number 1), .literal default (.number 6), true,
      true, some (.literal default (.number 2))⟩) 0 default =
      .ok (.plain (.array 0)) ((default : Machine).withHeap
        ((default : Machine).heap.newArray (numberValues [1, 3, 5]).toArray).2) := by
  have hbounds : (ofLevel 2).GivesBounds ⟨default, .literal default (.number 1), .literal default (.number 6), true,
      true, some (.literal default (.number 2))⟩ 0 default 1 6 (some 2) default :=
    ⟨default, default, givesWhole_of_isNumber Expr.isNumber_literal (by decide),
      givesWhole_of_isNumber Expr.isNumber_literal (by decide),
      .given (givesWhole_of_isNumber Expr.isNumber_literal (by decide))⟩
  obtain ⟨xs, hxs, hrun, -⟩ := (range_lists_numbers hbounds).2 (by decide)
  have hbetween : Progression.between 1 6 (some 2) true true = .ok ⟨1, 2, 3⟩ := rfl
  have hodd : Progression.Numbers 1 6 2 true true [1, 3, 5] := Progression.between_numbers hbetween
  rw [hxs.unique hodd] at hrun
  exact hrun

end Interp

end ScriptEngine

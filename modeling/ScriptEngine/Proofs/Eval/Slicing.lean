import ScriptEngine.Native.Run
import ScriptEngine.Proofs.Eval.Construct
import ScriptEngine.Proofs.Module.Load
import ScriptEngine.Proofs.Value.Growth
import ScriptEngine.Proofs.Value.ReadingBack

/-!
# Slices

What an array or a string gives for a range of positions.

* **The elements of a sequence** (`Heap.units`) are those of an array, or the characters of a string.
* `slice_picks`: a slice has the elements at the numbers of its range. The bounds are counted from the end if
  they are negative, and so is every number of the range once more. That differs from taking the numbers as they
  are exactly if some are negative and none is too far off.
* `whole_slices`: `v[0..-1]` has all elements and `v[-1..0]` has them backwards, unless there are none.
-/

namespace ScriptEngine

/-! ## Sequences -/

/-- A value is an array or a string. -/
def Value.IsSequence (v : Value) : Prop := v.kind = .array ∨ v.kind = .string

namespace Heap

/-- The elements of an array, or the characters of a string as strings of their own. -/
def units (h : Heap) (v : Value) : List Value :=
  match v.payload with
  | .array id => (h.array id).toList
  | .string t => t.map fun c => .string [c]
  | _ => []

/-- A number is the place of an element. -/
def HasPlace (h : Heap) (v : Value) (x : Int) : Prop := 0 ≤ x ∧ x < (h.units v).length

instance {h : Heap} {v : Value} {x : Int} : Decidable (h.HasPlace v x) :=
  inferInstanceAs (Decidable (0 ≤ x ∧ x < (h.units v).length))

/-- The element at a place. -/
def unitAt (h : Heap) (v : Value) (x : Int) : Value := (h.units v).getD x.toNat .null

/-- The place that an index means, from the end if it is negative. -/
def placeOf (h : Heap) (v : Value) (x : Int) : Int := boundIn (h.units v).length x

end Heap

/-- Elements as a value of the same kind as another: an array in a new cell, or a string. -/
inductive Machine.Assembles (m : Machine) (source : Value) (items : List Value) : Value → Machine → Prop
  | array (h : source.kind = .array) :
    m.Assembles source items (.plain (.array m.heap.arrays.size)) (m.withHeap (m.heap.newArray items.toArray).2)
  | string {t : Text} (h : source.kind = .string) (ht : items = t.map fun c => .string [c]) :
    m.Assembles source items (.string t) m

/-- A run gives the elements of a sequence at some places, or an index error if there is no element at one. -/
structure Machine.Picks (m : Machine) (v : Value) (places : List Int)
    (run : EStateM.Result Exit Machine Value) : Prop where
  inside : (∀ x ∈ places, m.heap.HasPlace v x) →
    ∃ w m', run = .ok w m' ∧ m.Assembles v (places.map (m.heap.unitAt v)) w m'
  outside : (∃ x ∈ places, ¬ m.heap.HasPlace v x) →
    ∃ f, run = .error (.failed (.fault f)) m ∧ f.kind = .index

section

variable {h : Heap} {v w : Value} {x : Int} {size : Nat} {s : Span} {m m' : Machine} {items : List Value}

theorem Value.IsSequence.cases (hv : v.IsSequence) :
    (∃ id, v.payload = .array id ∧ v.kind = .array) ∨ ∃ t, v.payload = .string t ∧ v.kind = .string := by
  obtain ⟨payload, tags⟩ := v
  cases payload <;> simp_all [IsSequence, Value.kind, Payload.kind]

theorem Heap.length?_sequence (hv : v.IsSequence) : h.length? v = some (h.units v).length := by
  obtain ⟨id, hp, -⟩ | ⟨t, hp, -⟩ := hv.cases <;> simp [length?, units, hp]

/-- What is assembled has the elements. -/
theorem Machine.Assembles.units (hw : m.Assembles v items w m') : m'.heap.units w = items := by
  cases hw with
  | array h => simp [Heap.units, Value.plain, Heap.array_newArray]
  | string h ht => exact ht.symm

/-! ## Single positions -/

theorem Number.whole?_ofRat (n : Int) : (Number.ofRat n).whole? = some n :=
  (Number.isNormal_ofRat n).whole?_eq_some_iff.2 (Number.value_ofRat n)

namespace Heap

theorem position_number_ok (hx : 0 ≤ boundIn size x ∧ boundIn size x < size) :
    position v (.number x) size s = .ok (boundIn size x).toNat := by
  unfold position
  simp only [Value.number, Value.plain, Number.whole?_ofRat]
  exact if_pos hx

theorem position_number_error (hx : ¬ (0 ≤ boundIn size x ∧ boundIn size x < size)) :
    ∃ f, position v (.number x) size s = .error f ∧ f.kind = .index := by
  unfold position
  simp only [Value.number, Value.plain, Number.whole?_ofRat]
  exact ⟨_, if_neg hx, rfl⟩

theorem element_ok (hv : v.IsSequence) (hx : h.HasPlace v (h.placeOf v x)) :
    h.element v (.number x) s = .ok (h.unitAt v (h.placeOf v x)) := by
  unfold element
  unfold HasPlace placeOf at hx
  unfold unitAt placeOf
  obtain ⟨id, hp, -⟩ | ⟨t, hp, -⟩ := hv.cases
  · simp only [units, hp, Array.length_toList] at hx ⊢
    rw [position_number_ok hx]
    simp
  · simp only [units, hp, List.length_map] at hx ⊢
    have hlt : (boundIn t.length x).toNat < t.length := by omega
    rw [position_number_ok hx]
    simp [hlt]

theorem element_error (hv : v.IsSequence) (hx : ¬ h.HasPlace v (h.placeOf v x)) :
    ∃ f, h.element v (.number x) s = .error f ∧ f.kind = .index := by
  unfold element
  unfold HasPlace placeOf at hx
  obtain ⟨id, hp, -⟩ | ⟨t, hp, -⟩ := hv.cases
  all_goals
    simp only [units, hp, Array.length_toList, List.length_map] at hx ⊢
    obtain ⟨f, hf, hk⟩ := position_number_error (v := v) (s := s) hx
    rw [hf]
    exact ⟨f, rfl, hk⟩

/-- What is at the places of a string are characters. -/
theorem unitAt_string (hv : v.kind = .string) (hx : h.HasPlace v x) : ∃ c, h.unitAt v x = .string [c] := by
  obtain ⟨payload, tags⟩ := v
  cases payload with
  | string t =>
    obtain ⟨hpos, hx⟩ : 0 ≤ x ∧ x < (t.map fun c => Value.string [c]).length := hx
    rw [List.length_map] at hx
    have hlt : x.toNat < t.length := by omega
    exact ⟨t[x.toNat], by simp [unitAt, units, hlt]⟩
  | _ => cases hv

end Heap

namespace Eval

theorem index_ok (hv : v.IsSequence) (hx : m.heap.HasPlace v (m.heap.placeOf v x)) :
    index v (.number x) s m = .ok (m.heap.unitAt v (m.heap.placeOf v x)) m :=
  readHeap_ok (r := (·.element v (.number x) s)) (Heap.element_ok hv hx)

theorem index_error (hv : v.IsSequence) (hx : ¬ m.heap.HasPlace v (m.heap.placeOf v x)) :
    ∃ f, index v (.number x) s m = .error (.failed (.fault f)) m ∧ f.kind = .index := by
  obtain ⟨f, hf, hk⟩ := Heap.element_error (s := s) hv hx
  exact ⟨f, readHeap_error (r := (·.element v (.number x) s)) hf, hk⟩

/-- Elements of a sequence are put together as a value of its kind. -/
theorem gathered_assembles (hv : v.IsSequence)
    (hitems : v.kind = .string → ∀ u ∈ items, ∃ c, u = .string [c]) :
    ∃ w m', gathered v items m = .ok w m' ∧ m.Assembles v items w m' := by
  unfold gathered
  obtain ⟨id, hp, hkind⟩ | ⟨t, hp, hkind⟩ := hv.cases
  · rw [hp]
    exact ⟨_, _, rfl, .array hkind⟩
  · rw [hp]
    refine ⟨_, _, rfl, .string hkind ?_⟩
    replace hitems := hitems hkind
    clear hv hp hkind
    induction items with
    | nil => rfl
    | cons u us ih =>
      obtain ⟨c, rfl⟩ := hitems u List.mem_cons_self
      rw [List.flatMap_cons, List.map_append, ← ih fun u hu => hitems u (List.mem_cons_of_mem _ hu)]
      rfl

end Eval

/-! ## Ranges of positions -/

namespace Interp

variable {p : Progression} {i left : Nat}

/-- Numbers that mean places of a sequence pick the elements there. -/
theorem picked_ok (hv : v.IsSequence)
    (hx : ∀ j ∈ List.range' i left, m.heap.HasPlace v (m.heap.placeOf v (p.get j))) :
    picked v p s i left m =
      .ok ((List.range' i left).map fun j => m.heap.unitAt v (m.heap.placeOf v (p.get j))) m := by
  induction left generalizing i with
  | zero => rfl
  | succ left ih =>
    rw [List.range'_succ] at hx ⊢
    rw [picked, Eval.bind_ok (Eval.index_ok hv (hx i List.mem_cons_self)),
      Eval.bind_ok (ih fun j hj => hx j (List.mem_cons_of_mem _ hj))]
    rfl

/-- A number that means no place ends the picking. -/
theorem picked_error (hv : v.IsSequence)
    (hx : ∃ j ∈ List.range' i left, ¬ m.heap.HasPlace v (m.heap.placeOf v (p.get j))) :
    ∃ f, picked v p s i left m = .error (.failed (.fault f)) m ∧ f.kind = .index := by
  induction left generalizing i with
  | zero =>
    obtain ⟨j, hj, -⟩ := hx
    cases hj
  | succ left ih =>
    rw [List.range'_succ] at hx
    rw [picked]
    by_cases hi : m.heap.HasPlace v (m.heap.placeOf v (p.get i))
    · obtain ⟨j, hj, hout⟩ := hx
      obtain rfl | hj := List.mem_cons.1 hj
      · exact absurd hi hout
      · obtain ⟨f, hf, hk⟩ := ih ⟨j, hj, hout⟩
        rw [Eval.bind_ok (Eval.index_ok hv hi), Eval.bind_error hf]
        exact ⟨f, rfl, hk⟩
    · obtain ⟨f, hf, hk⟩ := Eval.index_error (s := s) hv hi
      exact ⟨f, Eval.bind_error hf, hk⟩

/-- What is picked by the numbers of a progression and put together. -/
theorem gathered_picks (hv : v.IsSequence) :
    m.Picks v (p.toList.map (m.heap.placeOf v))
      ((picked v p s 0 p.count >>= fun items => Eval.gathered v items) m) := by
  have hmem {x : Int} : x ∈ p.toList.map (m.heap.placeOf v) ↔
      ∃ j ∈ List.range' 0 p.count, m.heap.placeOf v (p.get j) = x := by
    simp only [Progression.toList, List.range_eq_range', List.map_map, List.mem_map, Function.comp_apply]
  constructor
  · intro hx
    have hplaces : ∀ j ∈ List.range' 0 p.count, m.heap.HasPlace v (m.heap.placeOf v (p.get j)) :=
      fun j hj => hx _ (hmem.2 ⟨j, hj, rfl⟩)
    rw [Eval.bind_ok (picked_ok hv hplaces), Progression.toList, List.range_eq_range', List.map_map, List.map_map]
    refine Eval.gathered_assembles hv fun hkind u hu => ?_
    obtain ⟨j, hj, rfl⟩ := List.mem_map.1 hu
    exact Heap.unitAt_string hkind (hplaces j hj)
  · rintro ⟨x, hx, hout⟩
    obtain ⟨j, hj, rfl⟩ := hmem.1 hx
    obtain ⟨f, hf, hk⟩ := picked_error (s := s) hv ⟨j, hj, hout⟩
    exact ⟨f, Eval.bind_error hf, hk⟩

/-! ## Slices by range literals -/

/-- An expression is evaluated to a whole number. -/
def GivesWhole (I : Interp) (e : Expr) (frame : Nat) (m : Machine) (n : Int) (m' : Machine) : Prop :=
  ∃ v x, I.eval e frame m = .ok v m' ∧ v.payload = .number x ∧ x.whole? = some n

/-- The step of a range, if it has one, is evaluated to a whole number. -/
inductive GivesStep (I : Interp) (frame : Nat) (m : Machine) : Option Expr → Option Int → Machine → Prop
  | default : I.GivesStep frame m none none m
  | given {e : Expr} {n : Int} {m' : Machine} (h : I.GivesWhole e frame m n m') :
    I.GivesStep frame m (some e) (some n) m'

/-- The bounds and the step of a range are evaluated to whole numbers. -/
def GivesBounds (I : Interp) (r : RangeParts) (frame : Nat) (m : Machine) (start stop : Int) (step : Option Int)
    (m' : Machine) : Prop :=
  ∃ m₁ m₂, I.GivesWhole r.start frame m start m₁ ∧ I.GivesWhole r.stop frame m₁ stop m₂ ∧
    I.GivesStep frame m₂ r.step step m'

section

variable {I : Interp} {r : RangeParts} {e : Expr} {frame : Nat} {start stop n : Int} {step : Option Int} {m₁ : Machine}
  {what : Text}

theorem givesWhole_of_isNumber {k level : Nat} (he : e.IsNumber k n) (hk : k ≤ level) :
    (ofLevel level).GivesWhole e frame m n m :=
  ⟨.number n, .ofRat n, he level frame m hk, rfl, Number.whole?_ofRat n⟩

/-- What reads a whole number of a range from the value of its expression. -/
theorem GivesWhole.read (h : I.GivesWhole e frame m n m') :
    ∃ v, I.eval e frame m = .ok v m' ∧
      ∀ what s, Eval.readHeap (fun _ => rangeNumber v what s) m' = .ok n m' := by
  obtain ⟨v, x, he, hp, hx⟩ := h
  exact ⟨v, he, fun what s => Eval.readHeap_ok (by simp only [rangeNumber, hp, hx])⟩

/-- Where a number of a range is: inside a container of a given size it is counted from the end if it is negative. -/
def placeIn (size : Option Nat) (n : Int) : Int := size.elim n fun size => boundIn size n

/-- What a range denotes depends on its bounds and its step alone. -/
theorem progression_eq {size : Option Nat} (h : I.GivesBounds r frame m start stop step m') :
    I.progression r size frame m =
      match Progression.between (placeIn size start) (placeIn size stop) step r.withStart r.withStop with
      | .ok p => .ok p m'
      | .error e => Eval.failWith .value e.message ((r.step.map Expr.span).getD r.span) m' := by
  obtain ⟨span, first, last, withStart, withStop, by_⟩ := r
  obtain ⟨m₁, m₂, hstart, hstop, hstep⟩ := h
  obtain ⟨v, hv, hvn⟩ := hstart.read
  obtain ⟨w, hw, hwn⟩ := hstop.read
  have hpure (k : Option Int) (m : Machine) : (pure k : Eval (Option Int)) m = .ok k m := rfl
  have hend (x : Except RangeError Progression) (span : Span) (m : Machine) :
      (match x with
        | .ok p => pure p
        | .error e => Eval.failWith .value e.message span : Eval Progression) m =
      match x with
        | .ok p => .ok p m
        | .error e => Eval.failWith .value e.message span m := by
    cases x <;> rfl
  unfold progression
  dsimp only at hv hw hstep ⊢
  rw [Eval.bind_ok ((Eval.bind_ok hv).trans (hvn _ _)), Eval.bind_ok ((Eval.bind_ok hw).trans (hwn _ _))]
  cases hstep with
  | default =>
    dsimp only
    rw [Eval.bind_ok (hpure _ _)]
    cases size <;> exact hend _ _ _
  | given hk =>
    obtain ⟨u, hu, hun⟩ := hk.read
    dsimp only
    rw [Eval.bind_ok hu, Eval.bind_ok (hun _ _), Eval.bind_ok (hpure _ _)]
    cases size <;> exact hend _ _ _

/-- The numbers of a range inside a container of a given size. -/
theorem progression_ok (h : I.GivesBounds r frame m start stop step m')
    (hp : Progression.between (boundIn size start) (boundIn size stop) step r.withStart r.withStop = .ok p) :
    I.progression r (some size) frame m = .ok p m' := by
  have hplaces : Progression.between (placeIn (some size) start) (placeIn (some size) stop) step r.withStart
      r.withStop = .ok p := hp
  rw [progression_eq h, hplaces]

theorem sliceBy_picks (hv : v.IsSequence) (h : I.GivesBounds r frame m start stop step m')
    (hp : Progression.between (boundIn (m.heap.units v).length start) (boundIn (m.heap.units v).length stop) step
      r.withStart r.withStop = .ok p) :
    m'.Picks v (p.toList.map (m'.heap.placeOf v)) (I.sliceBy v r frame m) := by
  have hkind : ¬ (v.kind ≠ .array ∧ v.kind ≠ .string) := by
    obtain hv | hv := hv <;> simp [hv]
  have hheap : Eval.heap m = .ok m.heap m := rfl
  rw [sliceBy, if_neg hkind, Eval.bind_ok hheap, Heap.length?_sequence hv]
  rw [Option.getD_some, Eval.bind_ok (progression_ok h hp)]
  exact gathered_picks hv

end

end Interp

/-! ## When numbers are places -/

section

variable {xs : List Int} {run : EStateM.Result Exit Machine Value}

theorem Heap.hasPlace_placeOf :
    h.HasPlace v (h.placeOf v x) ↔ -(h.units v).length ≤ x ∧ x < (h.units v).length := by
  unfold HasPlace placeOf boundIn
  split <;> omega

theorem Heap.map_placeOf (hx : ∀ x ∈ xs, 0 ≤ x) : xs.map (h.placeOf v) = xs := by
  have hsame : ∀ x ∈ xs, h.placeOf v x = id x := fun x hmem => if_neg (Int.not_lt.2 (hx x hmem))
  rw [List.map_congr_left hsame, List.map_id]

/-- Numbers that are places are picked as they are. -/
theorem Machine.Picks.of_places (hr : m.Picks v (xs.map (m.heap.placeOf v)) run)
    (hx : ∀ x ∈ xs, m.heap.HasPlace v x) :
    ∃ w m', run = .ok w m' ∧ m.Assembles v (xs.map (m.heap.unitAt v)) w m' := by
  rw [Heap.map_placeOf fun x h => (hx x h).1] at hr
  exact hr.inside hx

/-- Counting numbers from the end where they are negative is the same as taking them as they are, except where
some are negative and all mean places. -/
theorem Machine.Picks.numbers_iff (hr : m.Picks v (xs.map (m.heap.placeOf v)) run) :
    m.Picks v xs run ↔ ¬ ((∀ x ∈ xs, m.heap.HasPlace v (m.heap.placeOf v x)) ∧ ∃ x ∈ xs, x < 0) := by
  constructor
  · rintro hnumbers ⟨hall, x, hx, hneg⟩
    obtain ⟨w, m', hw, -⟩ := hr.inside (List.forall_mem_map.2 hall)
    obtain ⟨f, hf, -⟩ := hnumbers.outside ⟨x, hx, fun h => absurd h.1 (by omega)⟩
    rw [hw] at hf
    cases hf
  · intro hno
    by_cases hneg : ∃ x ∈ xs, x < 0
    · -- a negative number is no place, and some number means none
      obtain ⟨x, hx, hneg⟩ := hneg
      have hout : ∃ y ∈ xs, ¬ m.heap.HasPlace v (m.heap.placeOf v y) := by
        by_contra hall
        push Not at hall
        exact hno ⟨hall, x, hx, hneg⟩
      obtain ⟨y, hy, hout⟩ := hout
      exact ⟨fun hall => absurd (hall x hx).1 (by omega), fun _ => hr.outside ⟨_, List.mem_map_of_mem hy, hout⟩⟩
    · push Not at hneg
      rwa [Heap.map_placeOf hneg] at hr

end

section

open Interp

variable {level frame : Nat} {object : Expr} {m₁ m₂ : Machine} {r : RangeParts} {start stop : Int} {step : Option Int}
  {p : Progression}

theorem eval_slice (hobject : (ofLevel level).eval object frame m = .ok v m₁) :
    (ofLevel (level + 1)).eval (.index s object r.literal) frame m = (ofLevel level).sliceBy v r frame m₁ := by
  have hexpr : (ofLevel (level + 1)).eval (.index s object r.literal) frame = (do
      (ofLevel level).sliceBy (← (ofLevel level).eval object frame) r frame : Eval Value) := rfl
  rw [hexpr, Eval.bind_ok hobject]

/-- A slice by a range of whole numbers has the elements at the numbers from one bound to the other, where bounds
that are negative are counted from the end. A number that is negative then is counted from the end too, and a
number that means no place makes the slice an index error. So the slice picks the numbers as they are unless all
mean places and some are negative. -/
theorem slice_picks (hobject : (ofLevel level).eval object frame m = .ok v m₁) (hv : v.IsSequence)
    (hbounds : (ofLevel level).GivesBounds r frame m₁ start stop step m₂)
    (hp : Progression.between (m₁.heap.placeOf v start) (m₁.heap.placeOf v stop) step r.withStart r.withStop = .ok p) :
    let run := (ofLevel (level + 1)).eval (.index s object r.literal) frame m
    m₂.Picks v (p.toList.map (m₂.heap.placeOf v)) run ∧
      (m₂.Picks v p.toList run ↔
        ¬ ((∀ x ∈ p.toList, -(m₂.heap.units v).length ≤ x ∧ x < (m₂.heap.units v).length) ∧
          ∃ x ∈ p.toList, x < 0)) := by
  intro run
  have hrun : run = (ofLevel level).sliceBy v r frame m₁ := eval_slice hobject
  have hpicks : m₂.Picks v (p.toList.map (m₂.heap.placeOf v)) run := hrun ▸ sliceBy_picks hv hbounds hp
  refine ⟨hpicks, ?_⟩
  rw [hpicks.numbers_iff]
  simp only [Heap.hasPlace_placeOf]

/-- The string `"abc"`, as an expression. -/
def abc : Expr := .literal default (.string "abc")

/-- The literal of a number that is counted from the end. -/
def fromEnd (n : Nat) : Expr := .unary default .neg (.literal default (.number n))

/-- `"abc"[1..-1]` -/
theorem slice_picks_tail : ∃ w m',
    (ofLevel 3).eval (.index default abc
      (RangeParts.literal ⟨default, .literal default (.number 1), fromEnd 1, true, true, none⟩)) 0 default = .ok w m' ∧
    m'.heap.units w = [.string "b", .string "c"] := by
  have hbounds : (ofLevel 2).GivesBounds ⟨default, .literal default (.number 1), fromEnd 1, true, true, none⟩ 0
      default 1 (-1) none default :=
    ⟨default, default, givesWhole_of_isNumber Expr.isNumber_literal (by decide),
      givesWhole_of_isNumber Expr.isNumber_literal.neg (by decide), .default⟩
  have hobject : (ofLevel 2).eval abc 0 default = .ok (.string "abc") default := rfl
  have h := slice_picks (s := default) (p := ⟨1, 1, 2⟩) hobject (.inr rfl) hbounds rfl
  obtain ⟨w, m', hw, hitems⟩ := h.1.inside (by decide)
  exact ⟨w, m', hw, hitems.units⟩

/-- In `"abc"[-4..0]` the numbers are `-1` and `0`. The first one is no place, and yet there is a slice. -/
theorem slice_of_wrapped_number :
    ¬ ∀ (level frame : Nat) (object : Expr) (s : Span) (r : RangeParts) (start stop : Int) (step : Option Int)
        (p : Progression) (v : Value) (m m₁ m₂ : Machine),
      (ofLevel level).eval object frame m = .ok v m₁ → v.IsSequence →
      (ofLevel level).GivesBounds r frame m₁ start stop step m₂ →
      Progression.between (m₁.heap.placeOf v start) (m₁.heap.placeOf v stop) step r.withStart r.withStop = .ok p →
      m₂.Picks v p.toList ((ofLevel (level + 1)).eval (.index s object r.literal) frame m) := by
  intro hall
  have hbounds : (ofLevel 2).GivesBounds ⟨default, fromEnd 4, .literal default (.number 0), true, true, none⟩ 0
      default (-4) 0 none default :=
    ⟨default, default, givesWhole_of_isNumber Expr.isNumber_literal.neg (by decide),
      givesWhole_of_isNumber Expr.isNumber_literal (by decide), .default⟩
  have hnumbers : Progression.between (boundIn 3 (-4)) (boundIn 3 0) none true true = .ok ⟨-1, 1, 2⟩ := rfl
  have hclaim := hall 2 0 abc default _ _ _ _ _ (.string "abc") default default default rfl (.inr rfl) hbounds hnumbers
  rw [eval_slice rfl] at hclaim
  have hpicks := sliceBy_picks (v := .string "abc") (.inr rfl) hbounds hnumbers
  exact hpicks.numbers_iff.1 hclaim ⟨by decide, by decide⟩

end

end

end ScriptEngine

import Mathlib.Data.List.Sort
import ScriptEngine.Proofs.Arrays.Sorting
import ScriptEngine.Proofs.Eval.Settling
import ScriptEngine.Proofs.Eval.Slicing

/-!
# Insertion

What the loops of a sort do to the elements of its result, and that they come to their end, if what they compare
elements by answers for them and has no side effects.

* `Inserting.swap`, `Inserting.sink`: an element is swapped with those before it as far as it is before them. The
  elements before it, from the next one on, take it in like `List.orderedInsert`.
* `Arranging.insert`, `Arranging.insertAll`: a round of the outer loop, and all of them.
-/

namespace ScriptEngine

open Eval Interp

/-- A position as a value. -/
abbrev Value.place (j : Nat) : Value := .number (j : Int)

/-- A value answers by `lt` when it is called with two of some values, and has no side effects: from any machine that
nothing of `m` is affected in and that has what is in the heap `h`. -/
def Compares (m : Machine) (h : Heap) (less : Value) (lt : Value → Value → Bool) (xs : List Value) : Prop :=
  ∀ x ∈ xs, ∀ y ∈ xs, ∀ m₁ span, m.Unaffected m₁ → h.Adds m₁.heap →
    ∃ v m₂, Settles (fun n => (ofLevel n).call less [x, y] span) m₁ (.ok v m₂) ∧ v.payload = .bool (lt x y) ∧
      m₁.Unaffected m₂

theorem Compares.adds {m : Machine} {h h' : Heap} {less : Value} {lt : Value → Value → Bool} {xs : List Value}
    (hless : Compares m h less lt xs) (hh : h.Adds h') : Compares m h' less lt xs :=
  fun x hx y hy m₁ span hm ha => hless x hx y hy m₁ span hm (hh.trans ha)

section

variable {m m' : Machine} {F G B j k owner : Nat} {h : Heap} {name other : Text} {known : Text → Value → Prop}
  {out v w : Value} {s s' : Span} {span : Option Span} {f : Frame} {e : Expr} {p : Nat → Span} {i : Nat}

/-! ## Positions -/

theorem index_place (hcell : out.payload = .array k) (hv : (m.heap.array k).toList[j]? = some v) :
    Eval.index out (.place j) s m = .ok v m := by
  have hsequence : out.IsSequence := .inl (by simp [Value.kind, hcell, Payload.kind])
  have hunits : m.heap.units out = (m.heap.array k).toList := by rw [Heap.units, hcell]
  have hplace : m.heap.placeOf out j = j := by simp [Heap.placeOf, boundIn]
  have hj : j < (m.heap.array k).toList.length := (List.getElem?_eq_some_iff.1 hv).1
  rw [index_ok hsequence (by rw [hplace, Heap.HasPlace, hunits]; omega), hplace, Heap.unitAt, hunits]
  simp only [Int.toNat_natCast, List.getD_eq_getElem?_getD, hv, Option.getD_some]

theorem setAt_place (hcell : out.payload = .array k) (hj : j < (m.heap.array k).size) :
    Eval.setAt out (.place j) v s m = .ok () (m.withHeap (m.heap.modifyArray k (·.setIfInBounds j v))) := by
  obtain ⟨payload, tags⟩ := out
  cases hcell
  have hbound : boundIn (m.heap.array k).size j = j := if_neg (by omega)
  have hposition : Heap.position ⟨.array k, tags⟩ (.place j) (m.heap.array k).size s = .ok j := by
    rw [Heap.position_number_ok (by omega), hbound, Int.toNat_natCast]
  have hread : readHeap (fun h => Heap.position ⟨.array k, tags⟩ (.place j) (h.array k).size s) m = .ok j m :=
    readHeap_ok hposition
  exact (bind_ok hread).trans rfl

theorem binary_previous {n : Nat} :
    (ofLevel n).binary (.arith .sub) (.place (j + 1)) (.number 1) s m = .ok (.place j) m := by
  refine arithmetic_ok ?_
  simp [Heap.arithmetic, Value.number, Value.plain, Number.calculate]

theorem binary_compare {n : Nat} {op : CompareOp} {truth : Bool} (hop : m.heap.comparison op v w s = .ok truth) :
    (ofLevel n).binary (.compare op) v w s m = .ok (.bool truth) m := by
  have hread : readHeap (·.comparison op v w s) m = .ok truth m := readHeap_ok hop
  exact (bind_ok hread).trans rfl

theorem binary_positive {n : Nat} :
    (ofLevel n).binary (.compare .gt) (.place j) (.number 0) s m = .ok (.bool (decide (0 < j))) m :=
  binary_compare (by simp [Heap.comparison, Value.number, Value.plain, Heap.ordered])

theorem binary_below {n bound : Nat} :
    (ofLevel n).binary (.compare .lt) (.place j) (.place bound) s m = .ok (.bool (decide (j < bound))) m :=
  binary_compare (by simp [Heap.comparison, Value.number, Value.plain, Heap.ordered])

theorem settles_countDown (hv : m.heap.lookup F name s' = .ok (.place (j + 1)))
    (ho : m.heap.assignable F name s' = .ok owner) :
    Settles (fun n => (ofLevel n).eval (.update s .decrement (.name s' name) false) F) m
      (.ok (.place (j + 1)) (m.withHeap (m.heap.bind owner (some name) (.place j) false))) := by
  refine Settles.succ (settles_of_eq fun n => ?_)
  have htarget : (ofLevel n).target (.name s' name) F m = .ok (.name F name s') m := rfl
  have hread : (Target.name F name s').read m = .ok (.place (j + 1)) m := readHeap_ok hv
  have howner : readHeap (·.assignable F name s') m = .ok owner m := readHeap_ok ho
  have hvalue : Value.number ((Number.ofRat ((j + 1 : Nat) : Int)).value + updateDelta .decrement) = .place j := by
    simp [updateDelta, Value.place]
  have hassign : Eval.assign F name (.place j) s' m =
      .ok () (m.withHeap (m.heap.bind owner (some name) (.place j) false)) := (bind_ok howner).trans rfl
  refine (bind_ok htarget).trans ((bind_ok hread).trans ?_)
  show (Eval.assign F name _ s' >>= fun _ => pure _ : Eval Value) m = _
  rw [hvalue, bind_ok hassign]
  rfl

/-! ## Frames -/

theorem Frame.get?_binding : (f.binding [(name, v)]).bindings.get? (some other) =
    if other = name then some v else f.bindings.get? (some other) := by
  show (f.bindings.insert (some name) v).get? (some other) = _
  rw [OrderedMap.get?_insert]
  simp only [Option.some.injEq]

/-- A frame knows what it binds. -/
theorem Frame.knowing_self : (f.binding [(name, v)]).Knowing known name v :=
  .inl (by rw [get?_binding, if_pos rfl])

theorem Frame.knowing_other (hne : other ≠ name) (hf : f.bindings.get? (some other) = none) (hv : known other w) :
    (f.binding [(name, v)]).Knowing known other w :=
  .inr ⟨by rw [get?_binding, if_neg hne, hf], hv⟩

/-- A variable is assigned in the frame around a block that does not bind it. -/
theorem Heap.assignable_parent (hn : (h.frame B).bindings.get? (some name) = none)
    (hp : (h.frame B).parent = some G) (hlt : G < B) (hpure : (h.frame B).isPure = false)
    (hbound : (h.frame G).bindings.contains (some name) = true) (hc : (h.frame G).constants = []) :
    h.assignable B name span = .ok G := by
  have hunbound : (h.frame B).bindings.contains (some name) = false := by
    rw [OrderedMap.contains_eq_isSome, hn]
    rfl
  have hresolve : h.resolve B name span = .ok G := by
    rw [resolve, resolveFrom, hunbound, hp]
    simp only [hlt, hpure, if_true, Bool.or_false, Bool.false_eq_true, if_false]
    rw [resolveFrom, if_pos hbound]
    rfl
  have hfree : h.isConstant G (some name) = false := by
    rw [isConstant, hc]
    rfl
  rw [assignable, hresolve]
  show (if h.isConstant G (some name) then _ else _) = _
  rw [hfree]
  rfl

namespace ArrayLibrary

/-- A name is bound in a frame that is new. -/
theorem settles_declareNew (hc : f.constants = [])
    (he : Settles (fun n => (ofLevel n).eval e m.heap.frames.size) (m.withHeap (m.heap.adding [f]))
      (.ok v (m.withHeap (m.heap.adding [f])))) :
    Settles (fun n => (ofLevel n).stmt (declare p i name e) m.heap.frames.size) (m.withHeap (m.heap.adding [f]))
      (.ok v (m.withHeap (m.heap.adding [f.binding [(name, v)]]))) :=
  he.bind (Settles.bind (settles_of_eq fun _ => define_adding hc) (settles_of_eq fun _ => rfl))

theorem settles_declare (he : Settles (fun n => (ofLevel n).eval e F) m (.ok v m')) (hs : m'.heap.Site F known) :
    Settles (fun n => (ofLevel n).stmt (declare p i name e) F) m
      (.ok v (m'.withHeap (m'.heap.bind F (some name) v false))) := by
  obtain ⟨N, hN⟩ := he
  exact ⟨N, fun n hn => stmt_declare (hN n hn) hs⟩

theorem settles_ref (hk : m.heap.Knows F known) (hv : known name v) :
    Settles (fun n => (ofLevel n).eval (ref p i name) F) m (.ok v m) :=
  Settles.succ (settles_of_eq fun _ => eval_ref hk hv)

theorem settles_literal {q : Rat} :
    Settles (fun n => (ofLevel n).eval (.literal s (.number q)) F) m (.ok (.number q) m) :=
  Settles.succ (settles_of_eq fun _ => rfl)

theorem settles_previous (hk : m.heap.Knows F known) (hj : known "j" (.place (j + 1))) :
    Settles (fun n => (ofLevel n).eval (previous p i) F) m (.ok (.place j) m) :=
  settles_binary (settles_ref hk hj) settles_literal fun _ => binary_previous

theorem settles_callNamed {f : Text} {es : List Expr} {vs : List Value} {r : EStateM.Result Exit Machine Value}
    (hk : m.heap.Knows F known) (hf : known f v)
    (hargs : Settles (fun n => (ofLevel n).evalList F es) m (.ok vs m'))
    (hcall : Settles (fun n => (ofLevel n).call v vs (some (p i))) m' r) :
    Settles (fun n => (ofLevel n).eval (callNamed p i f es) F) m r :=
  Settles.succ ((settles_ref hk hf).bind (hargs.bind hcall))

end ArrayLibrary

end

namespace ArrayLibrary

variable {L : Layout} {F G B i j k : Nat} {m₀ m m' : Machine} {known known' : Text → Value → Prop} {p : Nat → Span}
  {v w x y out before : Value} {h h' : Heap} {name : Text} {e : Expr} {s : Span} {xs ys tail items items' : List Value}
  {lt : Value → Value → Bool} {f : Frame} {i' k' : Nat}

/-- A place in the body of a sort that runs from the machine `m₀`: the result has the elements `items`, and nothing
else is affected. What was in the heap `h` is there as it was. -/
structure Arranging (L : Layout) (m₀ : Machine) (h : Heap) (F : Nat) (known : Text → Value → Prop) (out : Value)
    (k : Nat) (items : List Value) (m : Machine) : Prop extends Building L m₀.heap F known out k m.heap where
  unaffected : m₀.Unaffected m
  since : h.Adds m.heap
  items : (m.heap.array k).toList = items

namespace Arranging

variable (ha : Arranging L m₀ h F known out k items m)

include ha

theorem knows : m.heap.Knows F known := ha.site.knows

/-- Evaluations without side effects leave the result as it is. -/
theorem later (hm : m.Unaffected m') : Arranging L m₀ h F known out k items m' where
  toBuilding := ha.toBuilding.later ((Heap.Builds.refl ha.kept).grow hm.kept)
  unaffected := ha.unaffected.trans hm
  since := ha.since.trans hm.kept.toAdds
  items := by rw [hm.kept.array ha.lt, ha.items]

theorem mono (hsub : ∀ {n v}, known' n v → known n v) (hnative : known' "native" L.nativesValue)
    (hout : known' "out" out) : Arranging L m₀ h F known' out k items m :=
  ⟨ha.toBuilding.mono hsub hnative hout, ha.unaffected, ha.since, ha.items⟩

/-- A frame inside that of the place. -/
theorem child (hp : f.parent = some F) (hpure : f.isPure = false) (hc : f.constants = [])
    (hnative : f.bindings.get? (some "native") = none) (hout : f.bindings.get? (some "out") = none) :
    Arranging L m₀ m.heap m.heap.frames.size (f.Knowing known) out k items (m.withHeap (m.heap.adding [f])) where
  toBuilding := ha.toBuilding.child hp hpure hc hnative hout
  unaffected := ha.unaffected.trans (m.unaffected_adding _)
  since := (Heap.extends_adding _ _).toAdds
  items := ha.items

/-- Back from a place inside. -/
theorem back (hb : Arranging L m₀ m.heap B known' out k items' m') : Arranging L m₀ h F known out k items' m' where
  toInside := ha.toInside.later hb.since
  kept := hb.kept
  result := ha.result
  cell := ha.cell
  new := ha.new
  lt := hb.lt
  unaffected := hb.unaffected
  since := ha.since.trans hb.since
  items := hb.items

/-- A name is bound in the frame of the place, if that is newer than what is to be kept. -/
theorem bind (hF : h.frames.size ≤ F) (hnative : "native" ≠ name) (hout : "out" ≠ name) :
    Arranging L m₀ h F (Binding name v known) out k items (m.withHeap (m.heap.bind F (some name) v false)) where
  toBuilding := ha.toBuilding.bind hnative hout
  unaffected := ha.unaffected.bind ha.outer
  since := ha.since.bind hF
  items := ha.items

/-- An element of the result gets a value. -/
theorem set (j : Nat) (v : Value) :
    Arranging L m₀ h F known out k (items.set j v) (m.withHeap (m.heap.modifyArray k (·.setIfInBounds j v))) := by
  have hadds : m.heap.Adds (m.heap.modifyArray k (·.setIfInBounds j v)) :=
    ⟨Nat.le_refl _, fun _ => rfl, fun hc => hc, Nat.le_refl _, fun _ => rfl⟩
  exact
    { toInside := ha.toInside.later hadds
      kept := ha.kept.modifyArray ha.new _
      result := ha.result
      cell := ha.cell
      new := ha.new
      lt := by simpa [Heap.modifyArray] using ha.lt
      unaffected := ha.unaffected.modifyArray ha.new _
      since := ha.since.trans hadds
      items := by
        show ((m.heap.modifyArray k _).array k).toList = _
        rw [Heap.array_modifyArray, if_pos ⟨rfl, ha.lt⟩, Array.toList_setIfInBounds, ha.items] }

/-! ## Elements -/

theorem settles_element {index : Expr} (hi : OnlyReads index)
    (hindex : Settles (fun n => (ofLevel n).eval index F) m (.ok (.place j) m)) (hv : items[j]? = some v) :
    Settles (fun n => (ofLevel n).eval (element p i (ref p k' "out") index) F) m (.ok v m) :=
  settles_index hi (settles_ref ha.knows ha.result) hindex (index_place ha.cell (by rw [ha.items, hv]))

/-- An element of the result is assigned. -/
theorem assignElement {index : Expr} (hindex : Settles (fun n => (ofLevel n).eval index F) m (.ok (.place j) m))
    (he : Settles (fun n => (ofLevel n).eval e F) m (.ok v m)) (hj : j < items.length) :
    ∃ m', Settles (fun n => (ofLevel n).stmt (run p i (.assign s (element p i' (ref p k' "out") index) .set e)) F) m
        (.ok v m') ∧
      Arranging L m₀ h F known out k (items.set j v) m' ∧ m'.heap.frames = m.heap.frames :=
  ⟨_, settles_assignElement (settles_ref ha.knows ha.result) hindex he
    (setAt_place ha.cell (by rw [← Array.length_toList, ha.items]; exact hj)), ha.set j v, rfl⟩

omit ha in
/-- Two elements next to each other change their places, where one is held. -/
theorem exchange (ha : Arranging L m₀ h F known out k (ys.reverse ++ y :: x :: tail) m)
    (hj : known "j" (.place (ys.length + 1))) (hheld : known "held" x) :
    ∃ m₁ m₂, Settles (fun n => (ofLevel n).stmt (run p i (.assign (p (i + 1))
        (element p (i + 2) (ref p (i + 3) "out") (ref p (i + 4) "j")) .set
        (element p (i + 5) (ref p (i + 6) "out") (previous p (i + 7))))) F) m (.ok y m₁) ∧
      Settles (fun n => (ofLevel n).stmt (run p (i + 10) (.assign (p (i + 11))
        (element p (i + 12) (ref p (i + 13) "out") (previous p (i + 14))) .set (ref p (i + 17) "held"))) F) m₁
        (.ok x m₂) ∧
      Arranging L m₀ h F known out k (ys.reverse ++ x :: y :: tail) m₂ ∧ m₂.heap.frames = m.heap.frames := by
  have hy : (ys.reverse ++ y :: x :: tail)[ys.length]? = some y := by simp
  obtain ⟨m₁, hup, h₁, hframes₁⟩ := ha.assignElement (settles_ref ha.knows hj)
    (ha.settles_element onlyReads_previous (settles_previous ha.knows hj) hy) (by simp)
  obtain ⟨m₂, hdown, h₂, hframes₂⟩ := h₁.assignElement (settles_previous h₁.knows hj) (settles_ref h₁.knows hheld)
    (by simp)
  have hitems : ((ys.reverse ++ y :: x :: tail).set (ys.length + 1) y).set ys.length x =
      ys.reverse ++ x :: y :: tail := by
    simp [List.set_append_right]
  rw [hitems] at h₂
  exact ⟨m₁, m₂, hup, hdown, h₂, hframes₂.trans hframes₁⟩

end Arranging

/-! ## Sinking an element -/

/-- The test whether an element is swapped with the one before it. -/
def sinkTest (p : Nat → Span) (i : Nat) : Expr :=
  .logical (p (i + 2))
    (.binary (p (i + 3)) (ref p (i + 4) "j") (.compare .gt) (.literal (p (i + 5)) (.number 0))) .and
    (callNamed p (i + 6) "before"
      [element p (i + 8) (ref p (i + 9) "out") (ref p (i + 10) "j"),
       element p (i + 11) (ref p (i + 12) "out") (previous p (i + 13))])

/-- A place in the loop that swaps an element with those before it. The variable `j` of the frame counts its places. -/
structure Inserting (L : Layout) (m₀ : Machine) (h : Heap) (F : Nat) (out before : Value) (k j : Nat)
    (items : List Value) (m : Machine) : Prop extends
    Arranging L m₀ h F (Binding "j" (.place j) (SortNames L out before)) out k items m where
  frame_le : h.frames.size ≤ F
  counter : (m.heap.frame F).bindings.contains (some "j") = true

namespace Inserting

theorem later (hi : Inserting L m₀ h F out before k j items m) (hm : m.Unaffected m') :
    Inserting L m₀ h F out before k j items m' where
  toArranging := hi.toArranging.later hm
  frame_le := hi.frame_le
  counter := by rw [hm.kept.frame hi.site.lt, hi.counter]

/-- The place is counted down. -/
theorem countDown (hi : Inserting L m₀ h F out before k j items m) {j' : Nat} :
    Inserting L m₀ h F out before k j' items (m.withHeap (m.heap.bind F (some "j") (.place j') false)) where
  toArranging := by
    refine (hi.toArranging.bind hi.frame_le (by decide) (by decide)).mono ?_ (.inr ⟨by decide, .native⟩)
      (.inr ⟨by decide, .out⟩)
    rintro n v (hv | ⟨hn, hv⟩)
    · exact .inl hv
    · exact .inr ⟨hn, .inr ⟨hn, hv⟩⟩
  frame_le := hi.frame_le
  counter := Heap.contains_bind_self hi.site.lt

/-- The element is swapped with the one before it. -/
theorem swap (hi : Inserting L m₀ h F out before k (ys.length + 1) (ys.reverse ++ y :: x :: tail) m) :
    ∃ v m', Settles (fun n => (ofLevel n).block ⟨s, ArrayLibrary.swap p i⟩ F) m (.ok v m') ∧
      Inserting L m₀ h F out before k ys.length (ys.reverse ++ x :: y :: tail) m' := by
  obtain ⟨f, hf⟩ : ∃ f : Frame, f = { parent := some F, name := "block" } := ⟨_, rfl⟩
  have hx : (ys.reverse ++ y :: x :: tail)[ys.length + 1]? = some x := by simp
  have hunbound (name : Text) : f.bindings.get? (some name) = none := by
    rw [hf]
    rfl
  -- the element is held in the frame of the block
  have h₁ := hi.toArranging.child (f := f) (by rw [hf]) (by rw [hf]) (by rw [hf]) (hunbound _) (hunbound _)
  have hheld : Settles (fun n => (ofLevel n).stmt (declare p i "held" (element p (i + 1) (ref p (i + 2) "out")
      (ref p (i + 3) "j"))) m.heap.frames.size) _ (.ok x _) :=
    settles_declareNew (by rw [hf])
      (h₁.settles_element onlyReads_ref (settles_ref h₁.knows (.inr ⟨hunbound _, .inl ⟨rfl, rfl⟩⟩)) hx)
  have h₂ := hi.toArranging.child (f := f.binding [("held", x)]) (by rw [hf]; rfl) (by rw [hf]; rfl)
    (by rw [hf]; rfl) (by rw [Frame.get?_binding, if_neg (by decide), hunbound])
    (by rw [Frame.get?_binding, if_neg (by decide), hunbound])
  have hj : (f.binding [("held", x)]).Knowing (Binding "j" (.place (ys.length + 1)) (SortNames L out before)) "j"
      (.place (ys.length + 1)) := Frame.knowing_other (by decide) (hunbound _) (.inl ⟨rfl, rfl⟩)
  obtain ⟨m₁, m₂, hup, hdown, h₄, hframes⟩ := h₂.exchange (p := p) (i := i + 4) hj Frame.knowing_self
  -- the place is counted down in the frame around the block
  have hback := hi.toArranging.back h₄
  have hframe : m₂.heap.frame m.heap.frames.size = f.binding [("held", x)] :=
    (Heap.frame_of_frames_eq hframes _).trans Heap.frame_adding_size
  have hi' : Inserting L m₀ h F out before k (ys.length + 1) (ys.reverse ++ x :: y :: tail) m₂ :=
    ⟨hback, hi.frame_le, by rw [h₄.since.frame hi.site.lt, hi.counter]⟩
  have howner : m₂.heap.assignable m.heap.frames.size "j" (p (i + 24)) = .ok F := by
    refine Heap.assignable_parent ?_ ?_ hi.site.lt ?_ hi'.counter hi'.site.free
    · rw [hframe, Frame.get?_binding, if_neg (by decide), hunbound]
    · rw [hframe, hf]
      rfl
    · rw [hframe, hf]
      rfl
  have hcount := settles_countDown (s := p (i + 23)) (h₄.knows "j" _ hj (p (i + 24))) howner
  subst hf
  exact ⟨_, _, settles_block (settles_exec_cons hheld (settles_exec_cons hup (settles_exec_cons hdown
    (settles_exec_single hcount)))), hi'.countDown⟩

/-- The first element is not swapped. -/
theorem settles_sinkTest_first (hi : Inserting L m₀ h F out before k 0 items m) :
    ∃ v, Settles (fun n => (ofLevel n).eval (sinkTest p i) F) m (.ok v m) ∧ v.payload = .bool false :=
  ⟨.bool false, settles_and_false (settles_binary (settles_ref hi.knows (.inl ⟨rfl, rfl⟩)) settles_literal
    fun _ => binary_positive) rfl, rfl⟩

/-- The others are if they are before the one that is before them. -/
theorem settles_sinkTest (hi : Inserting L m₀ h F out before k (ys.length + 1) (ys.reverse ++ y :: x :: tail) m)
    (hless : Compares m₀ h before lt xs) (hx : x ∈ xs) (hy : y ∈ xs) :
    ∃ v m', Settles (fun n => (ofLevel n).eval (sinkTest p i) F) m (.ok v m') ∧ v.payload = .bool (lt x y) ∧
      m.Unaffected m' := by
  have hj : Binding "j" (.place (ys.length + 1)) (SortNames L out before) "j" (.place (ys.length + 1)) :=
    .inl ⟨rfl, rfl⟩
  obtain ⟨v, m', hcall, hv, hm'⟩ := hless x hx y hy m (some (p (i + 6))) hi.unaffected hi.since
  have hpositive : Settles (fun n => (ofLevel n).eval (.binary (p (i + 3)) (ref p (i + 4) "j") (.compare .gt)
      (.literal (p (i + 5)) (.number 0))) F) m (.ok (.bool (decide (0 < ys.length + 1))) m) :=
    settles_binary (settles_ref hi.knows hj) settles_literal fun _ => binary_positive
  have hargs : Settles (fun n => (ofLevel n).evalList F [element p (i + 8) (ref p (i + 9) "out") (ref p (i + 10) "j"),
      element p (i + 11) (ref p (i + 12) "out") (previous p (i + 13))]) m (.ok [x, y] m) :=
    settles_evalList_cons (hi.settles_element onlyReads_ref (settles_ref hi.knows hj) (by simp)) <|
      settles_evalList_cons (hi.settles_element onlyReads_previous (settles_previous hi.knows hj) (by simp))
        settles_evalList_nil
  refine ⟨v, m', ?_, hv, hm'⟩
  exact settles_and_true hpositive rfl
    (settles_callNamed hi.knows (.inr ⟨by decide, .before⟩) hargs hcall) hv

/-- The element is swapped with those before it until it is not before the next one. -/
theorem sink (hi : Inserting L m₀ h F out before k ys.length (ys.reverse ++ x :: tail) m)
    (hless : Compares m₀ h before lt xs) (hx : x ∈ xs) (hys : ∀ y ∈ ys, y ∈ xs) :
    ∃ j m', WhileSettles (sinkTest p i) ⟨s, ArrayLibrary.swap p (i + 17)⟩ F m m' ∧
      Inserting L m₀ h F out before k j ((ys.orderedInsert (fun x y => lt x y = false) x).reverse ++ tail) m' := by
  induction ys generalizing m tail with
  | nil =>
    obtain ⟨v, htest, hv⟩ := hi.settles_sinkTest_first (p := p) (i := i)
    exact ⟨_, m, .stop htest hv, hi⟩
  | cons y ys ih =>
    obtain ⟨hy, hys⟩ := List.forall_mem_cons.1 hys
    rw [List.reverse_cons, List.append_assoc] at hi
    obtain ⟨v, m₁, htest, hv, hm₁⟩ := hi.settles_sinkTest (p := p) (i := i) hless hx hy
    cases hlt : lt x y with
    | false =>
      rw [hlt] at hv
      refine ⟨(y :: ys).length, m₁, .stop htest hv, ?_⟩
      rw [List.orderedInsert, if_pos hlt]
      simpa using hi.later hm₁
    | true =>
      rw [hlt] at hv
      obtain ⟨w, m₂, hswap, hi₂⟩ := (hi.later hm₁).swap (p := p) (i := i + 17) (s := s)
      obtain ⟨j, m', hrest, hi'⟩ := ih hi₂ hys
      refine ⟨j, m', .next htest hv hswap hrest, ?_⟩
      rw [List.orderedInsert, if_neg (by simp [hlt]), List.reverse_cons, List.append_assoc]
      exact hi'

end Inserting

/-! ## Rounds -/

theorem settles_round {b : Nat → Eval Value} (hb : Settles b m (.ok v m')) :
    Settles (fun n => Interp.round (b n)) m (.ok true m') := by
  obtain ⟨N, hN⟩ := hb
  exact ⟨N, fun n hn => round_ok (hN n hn)⟩

namespace Arranging

/-- A round puts the next element where it belongs among those before it. -/
theorem insert (ha : Arranging L m₀ h F known out k (ys.reverse ++ x :: tail) m) (hbefore : known "before" before)
    (hless : Compares m₀ h before lt xs) (hx : x ∈ xs) (hys : ∀ y ∈ ys, y ∈ xs) :
    ∃ m', Settles (fun n => (ofLevel n).forRound none "i" ⟨s, [declare p 67 "j" (ref p 68 "i"), sink p 70]⟩ F v
        (.place ys.length)) m (.ok true m') ∧
      Arranging L m₀ h F known out k ((ys.orderedInsert (fun x y => lt x y = false) x).reverse ++ tail) m' := by
  have hunbound {name : Text} (hne : name ≠ "i") :
      (roundFrame F "i" (.place ys.length)).bindings.get? (some name) = none := by
    rw [get?_roundFrame, if_neg hne]
  have hbound {name : Text} (hi : name ≠ "i") (hj : name ≠ "j") :
      ((roundFrame F "i" (.place ys.length)).binding [("j", .place ys.length)]).bindings.get? (some name) = none := by
    rw [Frame.get?_binding, if_neg hj, hunbound hi]
  have h₁ := ha.child (f := roundFrame F "i" (.place ys.length)) rfl rfl rfl (hunbound (by decide))
    (hunbound (by decide))
  have hdeclare : Settles (fun n => (ofLevel n).stmt (declare p 67 "j" (ref p 68 "i")) m.heap.frames.size) _
      (.ok (.place ys.length) _) :=
    settles_declareNew rfl (settles_ref h₁.knows roundFrame_element)
  have h₂ := ha.child (f := (roundFrame F "i" (.place ys.length)).binding [("j", .place ys.length)]) rfl rfl rfl
    (hbound (by decide) (by decide)) (hbound (by decide) (by decide))
  have hnames {name : Text} {v : Value} (hv : Binding "j" (.place ys.length) (SortNames L out before) name v) :
      ((roundFrame F "i" (.place ys.length)).binding [("j", .place ys.length)]).Knowing known name v := by
    obtain ⟨rfl, rfl⟩ | ⟨-, hv⟩ := hv
    · exact Frame.knowing_self
    · cases hv with
      | native => exact Frame.knowing_other (by decide) (hunbound (by decide)) ha.native
      | out => exact Frame.knowing_other (by decide) (hunbound (by decide)) ha.result
      | before => exact Frame.knowing_other (by decide) (hunbound (by decide)) hbefore
  have hi : Inserting L m₀ m.heap m.heap.frames.size out before k ys.length (ys.reverse ++ x :: tail) _ :=
    { toArranging := h₂.mono hnames (.inr ⟨by decide, .native⟩) (.inr ⟨by decide, .out⟩)
      frame_le := Nat.le_refl _
      counter := by
        rw [OrderedMap.contains_eq_isSome]
        show (((m.heap.adding _).frame m.heap.frames.size).bindings.get? _).isSome = _
        rw [Heap.frame_adding_size, Frame.get?_binding, if_pos rfl]
        rfl }
  obtain ⟨j, m', hsink, hi'⟩ := hi.sink (p := p) (i := 70) (s := p 86) (hless.adds ha.since) hx hys
  have hloop : Settles (fun n => (ofLevel n).stmt (ArrayLibrary.sink p 70) m.heap.frames.size) _ (.ok .null m') :=
    hsink.eval
  refine ⟨m', ?_, ha.back hi'.toArranging⟩
  obtain ⟨N, hN⟩ := settles_round (settles_exec_cons hdeclare (settles_exec_single hloop))
  exact ⟨N, fun n hn => forRound_eq.trans (hN n hn)⟩

/-- The rounds of the loop put one element after the other where it belongs. -/
theorem insertAll {todo : List Value} {place : Nat} {q : Progression} (hq : ∀ n : Nat, q.get n = n + 1)
    (hplace : place + 1 = ys.length) (ha : Arranging L m₀ h F known out k (ys.reverse ++ todo) m)
    (hbefore : known "before" before) (hless : Compares m₀ h before lt xs) (htodo : ∀ x ∈ todo, x ∈ xs)
    (hys : ∀ y ∈ ys, y ∈ xs) :
    ∃ m', Settles (fun n => forNumbers ((ofLevel n).forRound none "i"
        ⟨s, [declare p 67 "j" (ref p 68 "i"), sink p 70]⟩ F) q place todo.length) m (.ok .null m') ∧
      Arranging L m₀ h F known out k
        (todo.foldl (fun ys x => ys.orderedInsert (fun x y => lt x y = false) x) ys).reverse m' := by
  induction todo generalizing ys m place with
  | nil => exact ⟨m, settles_forNumbers_zero, by simpa using ha⟩
  | cons x todo ih =>
    obtain ⟨hx, htodo⟩ := List.forall_mem_cons.1 htodo
    obtain ⟨m₁, hround, h₁⟩ := ha.insert (p := p) (s := s) (v := .number place) hbefore hless hx hys
    have hitem : Value.number (q.get place) = .place ys.length := by
      rw [hq, ← hplace]
      simp [Value.place]
    have hlength : place + 1 + 1 = (ys.orderedInsert (fun x y => lt x y = false) x).length := by
      rw [List.orderedInsert_length, hplace]
    obtain ⟨m', hrest, h'⟩ := ih hlength h₁ htodo
      (fun y hy => (List.mem_orderedInsert _).1 hy |>.elim (fun he => he ▸ hx) (hys y))
    exact ⟨m', settles_forNumbers_succ (by rw [hitem]; exact hround) hrest, h'⟩

end Arranging

end ArrayLibrary

end ScriptEngine

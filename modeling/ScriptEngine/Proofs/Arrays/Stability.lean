import Mathlib.Algebra.Order.Ring.Rat
import Mathlib.Data.List.Lex
import ScriptEngine.Proofs.Arrays.Forms
import ScriptEngine.Proofs.Arrays.Insertion

/-!
# Stability

A call of `sort` comes to its end with a new array that has the elements of its argument in order, and elements of
which none is before the other in the order in which the argument has them.

* `inserted`: what a list becomes when its elements are put in one after the other, each behind those that it is not
  before. It is `List.insertionSort` from behind.
* `Comparator`: what a call compares elements by, the default included. The default order is a strict weak order
  (`Comparable.isStrictWeakOrder`).
* `ArrayLibrary.sort_stable`: what the call gives.
-/

namespace ScriptEngine

open Eval Interp

/-! ## Lists -/

section

variable {α : Type} {lt : α → α → Bool} {xs : List α}

/-- The elements of a list, put in one after the other behind those that they are not before. -/
def inserted (lt : α → α → Bool) (xs : List α) : List α :=
  (xs.foldl (fun ys x => ys.orderedInsert (fun x y => lt x y = false) x) []).reverse

theorem inserted_eq : inserted lt xs = (xs.reverse.insertionSort fun x y => lt x y = false).reverse := by
  rw [inserted, List.insertionSort, List.foldr_reverse]

theorem inserted_of_short (hxs : xs.length < 2) : inserted lt xs = xs := by
  match xs, hxs with
  | [], _ => rfl
  | [x], _ => rfl

theorem perm_inserted : (inserted lt xs).Perm xs := by
  rw [inserted_eq]
  exact (List.reverse_perm _).trans ((List.perm_insertionSort _ _).trans (List.reverse_perm xs))

section

variable (lt) [hlt : IsStrictWeakOrder α fun x y => lt x y = true]

theorem total_notBefore : Std.Total fun x y => lt x y = false where
  total x y := by
    by_contra h
    rw [not_or, Bool.not_eq_false, Bool.not_eq_false] at h
    exact hlt.irrefl x (hlt.trans _ _ _ h.1 h.2)

theorem trans_notBefore : IsTrans α fun x y => lt x y = false where
  trans x y z hxy hyz := by
    by_contra hxz
    rw [Bool.not_eq_false] at hxz
    rw [← Bool.not_eq_true] at hxy hyz
    have hyx : ¬lt y x = true := fun hyx => hyz (hlt.trans _ _ _ hyx hxz)
    have hzy : ¬lt z y = true := fun hzy => hxy (hlt.trans _ _ _ hxz hzy)
    exact (hlt.incomp_trans x y z ⟨hxy, hyx⟩ ⟨hyz, hzy⟩).1 hxz

theorem pairwise_insertionSort_notBefore (xs : List α) :
    (xs.insertionSort fun x y => lt x y = false).Pairwise fun x y => lt x y = false := by
  have := total_notBefore lt
  have := trans_notBefore lt
  exact List.pairwise_insertionSort _ xs

end

/-- No later element is before an earlier one. -/
theorem pairwise_inserted (hlt : IsStrictWeakOrder {x // x ∈ xs} fun x y => lt x y = true) :
    (inserted lt xs).Pairwise fun x y => lt y x = false := by
  -- the order is one of the elements alone, so they are sorted as members of the list
  have hsorted := pairwise_insertionSort_notBefore (fun x y : {x // x ∈ xs} => lt x y) xs.attach.reverse
  have hmap := List.map_insertionSort (fun x y : {x // x ∈ xs} => lt x y = false) (fun x y => lt x y = false)
    Subtype.val xs.attach.reverse fun _ _ _ _ => Iff.rfl
  rw [List.map_reverse, List.attach_map_subtype_val] at hmap
  rw [inserted_eq, List.pairwise_reverse, ← hmap, List.pairwise_map]
  exact hsorted

/-- Elements that are not before each other keep their order. -/
theorem filter_inserted (hlt : IsStrictWeakOrder {x // x ∈ xs} fun x y => lt x y = true) {z : α} (hz : z ∈ xs) :
    (inserted lt xs).filter (fun x => !lt x z && !lt z x) = xs.filter fun x => !lt x z && !lt z x := by
  obtain ⟨same, hsame⟩ : ∃ same : α → Bool, same = fun x => !lt x z && !lt z x := ⟨_, rfl⟩
  have hequal : (xs.reverse.filter same).Pairwise fun x y => lt x y = false := by
    have hmem {x : α} (hx : x ∈ xs.reverse.filter same) : x ∈ xs ∧ ¬lt x z = true ∧ ¬lt z x = true := by
      simpa [hsame] using hx
    refine List.pairwise_of_forall_mem_list fun x hx y hy => ?_
    obtain ⟨hxs, hxz⟩ := hmem hx
    obtain ⟨hys, hyz⟩ := hmem hy
    rw [← Bool.not_eq_true]
    exact (hlt.incomp_trans ⟨x, hxs⟩ ⟨z, hz⟩ ⟨y, hys⟩ hxz hyz.symm).1
  -- as many elements as before, in an order in which they can be found in the list
  have hsublist : (xs.reverse.filter same).Sublist
      ((xs.reverse.insertionSort fun x y => lt x y = false).filter same) := by
    have hfilter := (List.sublist_insertionSort hequal List.filter_sublist).filter same
    simpa only [List.filter_filter, Bool.and_self] using hfilter
  have hlength := ((List.perm_insertionSort (fun x y => lt x y = false) xs.reverse).filter same).length_eq
  rw [← hsame, inserted_eq, List.filter_reverse, ← hsublist.eq_of_length hlength.symm, List.filter_reverse,
    List.reverse_reverse]

end

/-! ## The default order -/

/-- Texts are in the order of the numbers of their code points. -/
theorem Text.before_iff {s t : Text} : before s t = true ↔ s.map CodePoint.toNat < t.map CodePoint.toNat := by
  induction s, t using before.induct with
  | case1 s => simp [before]
  | case2 c t => simp [before, List.nil_lt_cons]
  | case3 a s b t ih => simp [before, List.cons_lt_cons_iff, ih]

/-- What is compared by its place in a linear order is in a strict weak order. -/
theorem isStrictWeakOrder_of_lt {α β : Type} [LinearOrder β] {r : α → α → Prop} (f : α → β)
    (hr : ∀ x y, r x y ↔ f x < f y) : IsStrictWeakOrder α r := by
  have : IsStrictWeakOrder β (· < ·) := isStrictWeakOrder_of_isOrderConnected
  obtain rfl : r = Order.Preimage f (· < ·) := funext₂ fun x y => propext (hr x y)
  infer_instance

/-- Whether a value is before another one in the order that a sort takes if it is given none. -/
def Value.before (v w : Value) : Bool :=
  match v.payload, w.payload with
  | .number a, .number b => a.value < b.value
  | .string s, .string t => Text.before s t
  | _, _ => false

/-- Values of one kind that has an order. -/
def Comparable (xs : List Value) : Prop := (∀ x ∈ xs, x.kind = .number) ∨ ∀ x ∈ xs, x.kind = .string

/-- The default order is a strict weak order. -/
theorem Comparable.isStrictWeakOrder {xs : List Value} (hxs : Comparable xs) :
    IsStrictWeakOrder {x // x ∈ xs} fun x y => Value.before x y = true := by
  obtain hnumber | hstring := hxs
  · have hpayload (x : {x // x ∈ xs}) : ∃ a, x.val.payload = .number a := by
      obtain ⟨⟨payload, tags⟩, hx⟩ := x
      have hkind := hnumber _ hx
      cases payload <;> first | exact ⟨_, rfl⟩ | cases hkind
    choose a ha using hpayload
    refine isStrictWeakOrder_of_lt (fun x => (a x).value) fun x y => ?_
    rw [Value.before, ha, ha, decide_eq_true_iff]
  · have hpayload (x : {x // x ∈ xs}) : ∃ t, x.val.payload = .string t := by
      obtain ⟨⟨payload, tags⟩, hx⟩ := x
      have hkind := hstring _ hx
      cases payload <;> first | exact ⟨_, rfl⟩ | cases hkind
    choose t ht using hpayload
    refine isStrictWeakOrder_of_lt (fun x => (t x).map CodePoint.toNat) fun x y => ?_
    rw [Value.before, ht, ht, Text.before_iff]

/-- What a sort that runs from a machine compares elements by: by what it was given, or by the default order. -/
inductive Comparator (m : Machine) (xs : List Value) : Value → (Value → Value → Bool) → Prop
  | given {less : Value} {lt : Value → Value → Bool} (h : Compares m m.heap less lt xs) : Comparator m xs less lt
  | default {less : Value} (hless : less.payload = .null) (hv : less.variant? = none) (hxs : Comparable xs) :
    Comparator m xs less Value.before

section

variable {h : Heap} {v w : Value} {s : Span} {m : Machine} {xs : List Value} {lt : Value → Value → Bool}

theorem Comparable.comparison (hxs : Comparable xs) (hv : v ∈ xs) (hw : w ∈ xs) :
    h.comparison .lt v w s = .ok (v.before w) := by
  have hkind : v.kind = .number ∧ w.kind = .number ∨ v.kind = .string ∧ w.kind = .string :=
    hxs.imp (fun hall => ⟨hall v hv, hall w hw⟩) fun hall => ⟨hall v hv, hall w hw⟩
  obtain ⟨payload, tags⟩ := v
  obtain ⟨payload', tags'⟩ := w
  cases payload <;> cases payload' <;>
    simp_all [Value.kind, Payload.kind, Heap.comparison, Heap.ordered, Value.before]

/-- A value equals the null value if it is null without a variant. -/
theorem Heap.equal_null : h.equal v .null = decide (v.payload = .null ∧ v.variant? = none) := by
  have hc : h.compare v .null =
      if v.variant? ≠ none then .differ else if v.payload = .null then .same else .differ := by
    rw [compare]
    cases v.payload <;> rfl
  by_cases hv : v.variant? = none
  · by_cases hp : v.payload = .null
    · rw [equal_of_same (by rw [hc, if_neg (by simp [hv]), if_pos hp]), decide_eq_true ⟨hp, hv⟩]
    · rw [equal_of_differ (by rw [hc, if_neg (by simp [hv]), if_neg hp]), decide_eq_false fun h => hp h.1]
  · rw [equal_of_differ (by rw [hc, if_pos hv]), decide_eq_false fun h => hv h.2]

/-- What equals the null value cannot be called. -/
theorem Compares.not_null {less : Value} (hless : Compares m h less lt xs) (hh : h.Adds m.heap) (hv : v ∈ xs) :
    ¬(less.payload = .null ∧ less.variant? = none) := by
  rintro ⟨hp, hvariant⟩
  obtain ⟨w, m', hcall, -⟩ := hless v hv v hv m none (.refl m) hh
  have hfail : Settles (fun n => (ofLevel n).call less [v, v] none) m
      ((Eval.failWith .type ("a " ++ less.typeName ++ " is not callable") none : Eval Value) m) := by
    refine Settles.succ (settles_of_eq fun n => ?_)
    show (ofLevel n).apply less [v, v] none m = _
    rw [apply, hp, hvariant]
  cases hcall.unique hfail

end

namespace ArrayLibrary

variable {L : Layout} {F k id i j : Nat} {m₀ m m₁ : Machine} {known : Text → Value → Prop} {p : Nat → Span}
  {arr out before less : Value} {h : Heap} {items xs args : List Value} {lt : Value → Value → Bool} {s : Span}

/-- The function for the default order. -/
theorem compares_ascending {B : Nat} (hc : h.closures[i]? = some ⟨ascending p j, B⟩) (hB : B < h.frames.size)
    (hd : m.depth < m.settings.callLimit.count) (hxs : Comparable xs) :
    Compares m h (.plain (.function i)) Value.before xs := by
  intro x hx y hy m₁ span hm ha
  obtain ⟨f, hf⟩ : ∃ f : Frame, f = Closure.callFrame ⟨ascending p j, B⟩ [("a", x), ("b", y)] := ⟨_, rfl⟩
  obtain ⟨m₂, hm₂⟩ : ∃ m₂, m₂ = m₁.withHeap (m₁.heap.adding [f]) := ⟨_, rfl⟩
  have hk : m₂.heap.Knows m₁.heap.frames.size (f.Knowing fun _ _ => False) := by
    rw [hm₂, hf]
    exact .child nofun (Nat.lt_of_lt_of_le hB ha.frames_le) rfl rfl
  have hbody (n : Nat) : (ofLevel (n + 3)).exec (ascending p j).body.statements m₁.heap.frames.size
      (m₂.withDepth (m₁.depth + 1)) = .ok (.bool (x.before y)) (m₂.withDepth (m₁.depth + 1)) := by
    have hleft : (ofLevel (n + 1)).eval (ref p (j + 6) "a") m₁.heap.frames.size (m₂.withDepth (m₁.depth + 1)) =
        .ok x (m₂.withDepth (m₁.depth + 1)) := eval_ref hk (by rw [hf]; exact .inl rfl)
    have hright : (ofLevel (n + 1)).eval (ref p (j + 7) "b") m₁.heap.frames.size (m₂.withDepth (m₁.depth + 1)) =
        .ok y (m₂.withDepth (m₁.depth + 1)) := eval_ref hk (by rw [hf]; exact .inl rfl)
    exact (eval_binary hleft hright).trans (binary_compare (hxs.comparison hx hy))
  refine ⟨.bool (x.before y), m₂, ⟨4, fun n hn => ?_⟩, rfl, by rw [hm₂]; exact m₁.unaffected_adding _⟩
  obtain ⟨n, rfl⟩ : ∃ n', n = n' + 4 := ⟨n - 4, by omega⟩
  have hbound : m₁.bound ⟨ascending p j, B⟩ [("a", x), ("b", y)] none = m₂ := by rw [hm₂, hf]; rfl
  have hd₁ : m₁.depth < m₁.settings.callLimit.count := by rw [hm.depth, hm.settings]; exact hd
  dsimp only
  rw [call_function (ha.closure hc), callClosure_ends hd₁ rfl rfl (by rw [hbound]; rfl) (attempt_ok (hbody n))]
  rw [hm₂]
  rfl

/-! ## The order -/

/-- What stands for the order of a sort: the one that it was given, or a function for the default order. -/
inductive OrderOf (h : Heap) (less : Value) : Value → Prop
  | given (hless : ¬(less.payload = .null ∧ less.variant? = none)) : OrderOf h less less
  | default {p : Nat → Span} {i j B : Nat} (hless : less.payload = .null ∧ less.variant? = none)
    (hc : h.closures[i]? = some ⟨ascending p j, B⟩) (hB : B < h.frames.size) : OrderOf h less (.plain (.function i))

theorem OrderOf.bind {n : BindingName} {v w : Value} (hv : OrderOf h less v) : OrderOf (h.bind F n w false) less v := by
  cases hv with
  | given hless => exact .given hless
  | default hless hc hB => exact .default hless hc (by rwa [Heap.size_bind])

/-- The order answers as what the elements are compared by. -/
theorem OrderOf.compares (hv : OrderOf h less before) (hcompares : Comparator m xs less lt) (hh : m.heap.Adds h)
    (hd : m.depth < m.settings.callLimit.count) (hxs : xs ≠ []) : Compares m h before lt xs := by
  cases hv with
  | given hless =>
    cases hcompares with
    | given hgiven => exact hgiven.adds hh
    | default hp hvariant => exact absurd ⟨hp, hvariant⟩ hless
  | default hless hc hB =>
    cases hcompares with
    | given hgiven =>
      -- what answers for an element can be called, so it is not null
      obtain ⟨x, hx⟩ := List.exists_mem_of_ne_nil _ hxs
      exact absurd hless (hgiven.not_null (.refl _) hx)
    | default hp hvariant hall => exact compares_ascending hc hB hd hall

/-- The expression for the order. -/
theorem settles_order (hk : m.heap.Knows F known) (hF : F < m.heap.frames.size) (hless : known "less" less) :
    ∃ before m', Settles (fun n => (ofLevel n).eval (.ifElse (p 41)
        (.binary (p 42) (ref p 43 "less") (.compare .eq) (.literal (p 44) .null))
        ⟨p 45, [run p 46 (.function (ascending p 47))]⟩ (some (.block ⟨p 55, [run p 56 (ref p 57 "less")]⟩))) F) m
        (.ok before m') ∧ m.Unaffected m' ∧ OrderOf m'.heap less before := by
  obtain ⟨f, hf⟩ : ∃ f : Frame, f = { parent := some F, name := "block" } := ⟨_, rfl⟩
  have htest : Settles (fun n => (ofLevel n).eval (.binary (p 42) (ref p 43 "less") (.compare .eq)
      (.literal (p 44) .null)) F) m (.ok (.bool (m.heap.equal less .null)) m) :=
    settles_binary (settles_ref hk hless) (Settles.succ (settles_of_eq fun _ => rfl)) fun _ => binary_compare rfl
  rw [Heap.equal_null] at htest
  have hframe := m.unaffected_adding [f]
  by_cases hnull : less.payload = .null ∧ less.variant? = none
  · have hfunction : Settles (fun n => (ofLevel n).stmt (run p 46 (.function (ascending p 47))) m.heap.frames.size)
        (m.withHeap (m.heap.adding [f])) (.ok _ _) :=
      Settles.succ (settles_of_eq fun _ => eval_function rfl rfl)
    subst hf
    refine ⟨_, _, settles_then htest (by rw [decide_eq_true hnull]; rfl)
      (settles_block (settles_exec_single hfunction)), ?_, ?_⟩
    · exact hframe.heap (hframe.kept.trans (Heap.extends_newClosure _ _)) rfl
    · exact .default hnull Array.getElem?_push_size (by simp [Heap.newClosure])
  · have hk' : (m.heap.adding [f]).Knows m.heap.frames.size (f.Knowing known) :=
      .child hk hF (by rw [hf]) (by rw [hf])
    have hgiven : Settles (fun n => (ofLevel n).stmt (run p 56 (ref p 57 "less")) m.heap.frames.size)
        (m.withHeap (m.heap.adding [f])) (.ok less _) := settles_ref hk' (.inr ⟨by rw [hf]; rfl, hless⟩)
    subst hf
    refine ⟨less, _, settles_else htest (by rw [decide_eq_false hnull]; rfl) (Settles.succ ?_), hframe, .given hnull⟩
    exact settles_block (settles_exec_single hgiven)

/-! ## The body -/

/-- The result is declared as a copy of the array. -/
theorem arranging_copied {d : Nat} (hl : L.LoadedIn m.heap) (harr : arr.payload = .array id)
    (hs : Starts L (.plain .sort) p arr args m m₁) :
    ∃ m₂ out k, Settles (fun n => (ofLevel n).stmt (declareCopy p 20) m.heap.frames.size) (m₁.withDepth d)
        (.ok out m₂) ∧
      Arranging L (m.withDepth d) m.heap m.heap.frames.size
        (Binding "out" out (callKnown L (.plain .sort) p arr args m)) out k (m.heap.array id).toList m₂ := by
  have hi : Inside L m.heap m.heap.frames.size (callKnown L (.plain .sort) p arr args m) m₁.heap := hs.inside hl
  have harrays : m₁.heap.arrays = m.heap.arrays := hs.arrays
  have hunaffected := (hs.grown.unaffected hs.kept).withDepth d
  have hdeclare (n : Nat) : (ofLevel (n + 2)).stmt (declareCopy p 20) m.heap.frames.size (m₁.withDepth d) = _ :=
    stmt_declareCopy (m := m₁.withDepth d) hi callKnown_array harr
  have hb := Building.of_declared (m := m₁.withDepth d) hi hs.kept (m₁.heap.array id)
    (rfl : (copyOf m₁ arr).payload = .array m₁.heap.arrays.size)
  refine ⟨_, _, m₁.heap.arrays.size, Settles.succ (Settles.succ (settles_of_eq hdeclare)), ?_⟩
  exact
    { toBuilding := hb
      unaffected := hunaffected.heap hb.kept rfl
      since := hb.kept.toAdds
      items := by
        show ((copied (m₁.withDepth d) m.heap.frames.size id arr).heap.array m₁.heap.arrays.size).toList = _
        rw [array_copied, if_pos rfl, Heap.array, harrays]
        rfl }

namespace Arranging

variable (ha : Arranging L m₀ h F known out k items m)

include ha

theorem here : Arranging L m₀ m.heap F known out k items m := { ha with since := .refl _ }

theorem eval_length {n : Nat} :
    (ofLevel (n + 2)).eval (.unary s .length (ref p i "out")) F m = .ok (.place items.length) m := by
  have hlength : m.heap.length? out = some items.length := by
    rw [Heap.length?, ha.cell, ← ha.items, Array.length_toList]
  have hexpr : (ofLevel (n + 2)).eval (.unary s .length (ref p i "out")) F = (do
      let v ← (ofLevel (n + 1)).eval (ref p i "out") F
      Interp.unary .length v s : Eval Value) := rfl
  have hheap : Eval.heap m = .ok m.heap m := rfl
  rw [hexpr, bind_ok (eval_ref ha.knows ha.result), unary, bind_ok hheap, hlength]
  rfl

/-- The test whether there is nothing to sort. -/
theorem settles_isShort :
    Settles (fun n => (ofLevel n).eval (.binary (p 33) (.unary (p 34) .length (ref p 35 "out")) (.compare .lt)
      (.literal (p 36) (.number 2))) F) m (.ok (.bool (decide (items.length < 2))) m) :=
  settles_binary (Settles.succ (Settles.succ (settles_of_eq fun _ => ha.eval_length))) settles_literal
    fun _ => binary_below

/-- If there is nothing to sort, the copy is returned. -/
theorem settles_short (hshort : items.length < 2) :
    ∃ m', Settles (fun n => (ofLevel n).exec (Operation.sort.plainBody p).tail F) m (.error (.returned out (p 37)) m') ∧
      Arranging L m₀ h F known out k items m' := by
  have hblock := ha.child (f := { parent := some F, name := "block" }) rfl rfl rfl rfl rfl
  refine ⟨_, settles_exec_exit ?_, ha.back hblock⟩
  exact settles_then ha.settles_isShort (by rw [decide_eq_true hshort]; rfl)
    (settles_block (settles_exec_single (settles_return (settles_ref hblock.knows hblock.result))))

theorem settles_range (hlong : 2 ≤ items.length) {t : Span} :
    Settles (fun n => (ofLevel n).progression ⟨s, .literal t (.number 1), .unary (p 65) .length (ref p 66 "out"), true,
      false, none⟩ none F) m (.ok ⟨1, 1, items.length - 1⟩ m) := by
  refine Settles.succ (Settles.succ (settles_of_eq fun n => ?_))
  have hbounds : (ofLevel (n + 2)).GivesBounds ⟨s, .literal t (.number 1), .unary (p 65) .length (ref p 66 "out"), true,
      false, none⟩ F m 1 items.length none m :=
    ⟨m, m, ⟨.number 1, .ofRat 1, rfl, rfl, rfl⟩, ⟨_, .ofRat _, ha.eval_length, rfl, Number.whole?_ofRat _⟩, .default⟩
  have hbetween : Progression.between (placeIn none 1) (placeIn none items.length) none true false =
      .ok ⟨1, 1, items.length - 1⟩ := by
    have hdirection : Progression.direction 1 (items.length : Int) = 1 := if_pos (by omega)
    simp [placeIn, Progression.between, hdirection, Progression.countBefore]
  rw [progression_eq hbounds, hbetween]

/-- The loop over the elements that are put in. -/
theorem settles_loop (hbefore : known "before" before) (hless : Compares m₀ h before lt items)
    (hlong : 2 ≤ items.length) :
    ∃ m', Settles (fun n => (ofLevel n).stmt (loopOver p 60 "i"
        (.range (p 63) (.literal (p 64) (.number 1)) (.unary (p 65) .length (ref p 66 "out")) true false none)
        [declare p 67 "j" (ref p 68 "i"), sink p 70]) F) m (.ok .null m') ∧
      Arranging L m₀ h F known out k (inserted lt items) m' := by
  obtain ⟨x, todo, rfl⟩ : ∃ x todo, items = x :: todo := List.exists_cons_of_length_pos (by omega)
  have hstart : Arranging L m₀ h F known out k ([x].reverse ++ todo) m := ha
  obtain ⟨m', hrounds, h'⟩ := hstart.insertAll (p := p) (s := p 62) (q := ⟨1, 1, todo.length⟩)
    (fun n => by simp [Progression.get, Int.add_comm]) rfl hbefore hless (fun y hy => .tail _ hy) (by simp)
  exact ⟨m', Settles.succ (Settles.bind (ha.settles_range hlong) hrounds), h'⟩

/-- If there is something to sort, the copy is sorted in the order that is declared. -/
theorem settles_long (hF : h.frames.size ≤ F) (hd : m₀.depth < m₀.settings.callLimit.count) (hless : known "less" less)
    (hcompares : Comparator m₀ items less lt) (hlong : 2 ≤ items.length) :
    ∃ known' m', Settles (fun n => (ofLevel n).exec (Operation.sort.plainBody p).tail F) m (.ok out m') ∧
      Arranging L m₀ h F known' out k (inserted lt items) m' := by
  obtain ⟨before, m₁, horder, hm₁, hbefore⟩ := settles_order (p := p) ha.knows ha.site.lt hless
  have h₁ := ha.later hm₁
  -- the order may be a function that was made here: the loop is seen from where it has been declared
  have h₂ : Arranging L m₀ h F (Binding "before" before known) out k items _ := h₁.bind hF (by decide) (by decide)
  have hanswers := hbefore.bind.compares hcompares h₂.kept.toAdds hd (List.ne_nil_of_length_pos (by omega))
  obtain ⟨m₃, hloop, h₃⟩ := h₂.here.settles_loop (p := p) (.inl ⟨rfl, rfl⟩) hanswers hlong
  refine ⟨_, m₃, ?_, { h₃ with since := h₂.since.trans h₃.since }⟩
  exact settles_exec_cons (settles_noElse ha.settles_isShort (by rw [decide_eq_false (by omega)]; rfl))
    (settles_exec_cons (settles_declare horder h₁.site) (settles_exec_cons hloop
      (settles_exec_single (settles_ref h₃.knows h₃.result))))

end Arranging

/-- The body ends with the copy, which is sorted. -/
theorem endsBy_sortBody (hl : L.LoadedIn m.heap) (hd : m.depth + 1 < m.settings.callLimit.count)
    (harr : arr.payload = .array id) (hs : Starts L (.plain .sort) p arr args m m₁)
    (hcompares : Comparator (m.withDepth (m.depth + 1)) (m.heap.array id).toList (args.getD 0 .null) lt) :
    ∃ out r m₂ known k, Settles (fun n => attempt ((ofLevel n).exec (Operation.sort.plainBody p) m.heap.frames.size))
        (m₁.withDepth (m.depth + 1)) (.ok r m₂) ∧
      (∀ c span m, bodyResult c span r m = .ok out m) ∧
      Arranging L (m.withDepth (m.depth + 1)) m.heap m.heap.frames.size known out k
        (inserted lt (m.heap.array id).toList) m₂ := by
  obtain ⟨m₂, out, k, hcopy, ha⟩ := arranging_copied (d := m.depth + 1) hl harr hs
  by_cases hlong : 2 ≤ (m.heap.array id).toList.length
  · have hless : Binding "out" out (callKnown L (.plain .sort) p arr args m) "less" (args.getD 0 .null) :=
      .inr ⟨by decide, .inl rfl⟩
    obtain ⟨known, m₃, hbody, h₃⟩ := ha.settles_long (p := p) (Nat.le_refl _) hd hless hcompares hlong
    exact ⟨out, .ok out, m₃, known, k, (settles_exec_cons hcopy hbody).attempt_ok, fun _ _ _ => rfl, h₃⟩
  · obtain ⟨m₃, hbody, h₃⟩ := ha.settles_short (p := p) (Nat.not_le.1 hlong)
    rw [inserted_of_short (Nat.not_le.1 hlong)]
    exact ⟨out, .error (.returned out (p 37)), m₃, _, k, (settles_exec_cons hcopy hbody).attempt_error,
      fun _ _ _ => rfl, h₃⟩

/-- Scripts find `sort` as a member of `Array`. A call of it with an array, and with something that compares its
elements without side effects, comes to its end. It gives a new array that is a permutation of the array, and nothing
else is affected. If the elements are compared by a strict weak order, no later element is before an earlier one, and
elements that are not before each other have the order in which they are in the array. -/
theorem sort_stable (hm : m.HasPrelude) (hd : m.depth + 1 < m.settings.callLimit.count)
    (harr : arr.payload = .array id) (hargs : args.length ≤ 1)
    (hcompares : Comparator (m.withDepth (m.depth + 1)) (m.heap.array id).toList (args.getD 0 .null) lt) :
    ∃ sort v m' k, m.heap.globalMember "Array" "sort" = .ok sort ∧
      (∀ span, Settles (fun n => (ofLevel n).call sort (arr :: args) span) m (.ok v m')) ∧
      NewArray m m' v k ∧ m.Unaffected m' ∧ (m'.heap.array k).toList.Perm (m.heap.array id).toList ∧
      (IsStrictWeakOrder {x // x ∈ (m.heap.array id).toList} (fun x y => lt x y = true) →
        (m'.heap.array k).toList.Pairwise (fun x y => lt y x = false) ∧
        ∀ z ∈ (m.heap.array id).toList, (m'.heap.array k).toList.filter (fun x => !lt x z && !lt z x) =
          (m.heap.array id).toList.filter fun x => !lt x z && !lt z x) := by
  obtain ⟨L, hl, hnames, -⟩ := hm.arrayLibrary
  have hfits : Operation.sort.Fits args := .inr hargs
  obtain ⟨p, m₁, hs, hcall⟩ := call_library (.plain .sort) hl hd hfits
    (accepts_array (by decide) harr : Operation.Accepts _ arr args)
  obtain ⟨out, r, m₂, known, k, ⟨N, hN⟩, hresult, h⟩ := endsBy_sortBody hl hd harr hs hcompares
  have hitems : ((m₂.withDepth m.depth).heap.array k).toList = inserted lt (m.heap.array id).toList := h.items
  refine ⟨_, out, m₂.withDepth m.depth, k, hnames (.plain .sort), fun span => ⟨N + 10, fun n hn => ?_⟩, ?_, ?_, ?_,
    fun hlt => ?_⟩
  · obtain ⟨n, rfl⟩ : ∃ n', n = n' + 10 := ⟨n - 10, by omega⟩
    exact (hcall span r m₂ (hN (n + 9) (by omega))).trans (hresult _ _ _)
  · exact ⟨h.cell, h.new, h.lt, h.kept.array⟩
  · exact h.unaffected.withDepth m.depth
  · rw [hitems]
    exact perm_inserted
  · rw [hitems]
    exact ⟨pairwise_inserted hlt, fun z hz => filter_inserted hlt hz⟩

/-- A call of `sort` with an array of the numbers 3, 1 and 2 gives a new array of them in order. -/
def SortsNumbers (m : Machine) (id : Nat) (args : List Value) : Prop :=
  ∃ sort v m' k, m.heap.globalMember "Array" "sort" = .ok sort ∧
    (∀ span, Settles (fun n => (ofLevel n).call sort (.plain (.array id) :: args) span) m (.ok v m')) ∧
    NewArray m m' v k ∧ (m'.heap.array k).toList.Perm [.number 3, .number 1, .number 2] ∧
    (m'.heap.array k).toList.Pairwise fun x y => y.before x = false

/-- `Array.sort([3, 1, 2])` and `Array.sort([3, 1, 2], func(a, b) { a < b })` -/
theorem sort_stable_numbers :
    ∃ (m : Machine) (id i F : Nat), m.HasPrelude ∧ m.heap.array id = #[.number 3, .number 1, .number 2] ∧
      m.heap.closures[i]? = some ⟨ascending default 0, F⟩ ∧
      SortsNumbers m id [] ∧ SortsNumbers m id [.plain (.function i)] := by
  obtain ⟨m₀, id, hm₀⟩ := Session.exists_readyWith #[.number 3, .number 1, .number 2]
  have hglobal : m₀.globalFrame < m₀.heap.frames.size := hm₀.closed.global
  obtain ⟨m, hm⟩ : ∃ m, m = m₀.withHeap (m₀.heap.newClosure ⟨ascending default 0, m₀.globalFrame⟩).2 := ⟨_, rfl⟩
  have hready : m.ReadyWith id #[.number 3, .number 1, .number 2] := by
    rw [hm]
    exact ⟨hm₀.newClosure hglobal, hm₀.lt, hm₀.items⟩
  have hless : m.heap.closures[m₀.heap.closures.size]? = some ⟨ascending default 0, m₀.globalFrame⟩ := by
    rw [hm]
    exact Array.getElem?_push_size
  have hcomparable : Comparable (m.heap.array id).toList := by
    rw [hready.items]
    exact .inl (by simp [Value.kind, Value.number, Value.plain, Payload.kind])
  have hsorts {args : List Value} (hargs : args.length ≤ 1) (hcompares : Comparator (m.withDepth (m.depth + 1))
      (m.heap.array id).toList (args.getD 0 .null) Value.before) : SortsNumbers m id args := by
    obtain ⟨sort, v, m', k, hname, hcall, hnew, -, hperm, hsorted⟩ :=
      sort_stable hready.prelude (hready.lt_limit (by decide)) (rfl : (Value.plain (.array id)).payload = _) hargs
        hcompares
    rw [hready.items] at hperm
    exact ⟨sort, v, m', k, hname, hcall, hnew, hperm, (hsorted hcomparable.isStrictWeakOrder).1⟩
  refine ⟨m, id, _, _, hready.prelude, hready.items, hless, hsorts (Nat.zero_le 1) (.default rfl rfl hcomparable),
    hsorts (Nat.le_refl 1) (.given ?_)⟩
  exact compares_ascending hless (by rw [hm]; exact hglobal) (hready.lt_limit (by decide)) hcomparable

end ArrayLibrary

end ScriptEngine

import Mathlib.Order.Bounds.Defs
import ScriptEngine.Proofs.Arrays.Forms
import ScriptEngine.Proofs.Arrays.Insertion
import ScriptEngine.Proofs.Eval.Places
import ScriptEngine.Proofs.Value.DeepCopy

/-!
# Membership

Whether a value is in an array is told by three functions of the library: `includes?` asks the operator `in`, `index_of`
goes over the array and is left at the first element that is `==` to the value, and `remove` keeps the elements that are
not.

* `Heap.Shares.equal`: values that two heaps share are equal in both or in neither, so that it does not matter when they
  are compared.
* `settles_filter`: a call of `filter` with a test that has no side effects keeps the elements that pass it, in order.
* `settles_firstOf`: a loop over an array that is left at the first element that passes a test.
* `membership_agrees`: the three functions together.
-/

namespace ScriptEngine

open Eval Interp

/-! ## Equality as a heap grows -/

namespace Heap

variable {h h' : Heap} {P : Value → Prop} {a b v : Value}

theorem forall₂_and_mem {R : Value → Value → Prop} {xs ys : List Value} (hxy : List.Forall₂ R xs ys)
    (hx : ∀ x ∈ xs, P x) (hy : ∀ y ∈ ys, P y) : List.Forall₂ (fun x y => R x y ∧ P x ∧ P y) xs ys := by
  induction hxy with
  | nil => exact .nil
  | cons hab _ ih =>
    rw [List.forall_mem_cons] at hx hy
    exact .cons ⟨hab, hx.1, hy.1⟩ (ih hx.2 hy.2)

theorem rel_and_mem {R : Value → Value → Prop} {x y : Option Value} (hxy : Option.Rel R x y) (hx : ∀ v ∈ x, P v)
    (hy : ∀ v ∈ y, P v) : Option.Rel (fun x y => R x y ∧ P x ∧ P y) x y := by
  cases hxy with
  | none => exact .none
  | some hab => exact .some ⟨hab, hx _ rfl, hy _ rfl⟩

/-- The cells of some values are the same in two heaps, and hold such values only. -/
structure Shares (P : Value → Prop) (h h' : Heap) : Prop where
  array : ∀ {v i}, P v → v.payload = .array i → h'.array i = h.array i
  object : ∀ {v i}, P v → v.payload = .object i → h'.object i = h.object i
  items : ∀ {v i}, P v → v.payload = .array i → ∀ w ∈ (h.array i).toList, P w
  entries : ∀ {v i}, P v → v.payload = .object i → ∀ k, ∀ w ∈ (h.object i).get? k, P w

namespace Shares

theorem symm (hs : Shares P h h') : Shares P h' h where
  array hv hi := (hs.array hv hi).symm
  object hv hi := (hs.object hv hi).symm
  items hv hi := by
    rw [hs.array hv hi]
    exact hs.items hv hi
  entries hv hi := by
    rw [hs.object hv hi]
    exact hs.entries hv hi

/-- What is equal in the one heap is related by a bisimulation in the other. -/
theorem isBisimulation (hs : Shares P h h') : h'.IsBisimulation fun a b => h.equal a b = true ∧ P a ∧ P b := by
  rintro ⟨x, s⟩ ⟨y, t⟩ ⟨hequal, ha, hb⟩
  obtain ⟨hv, hp⟩ := h.isBisimulation_equal _ _ hequal
  refine ⟨hv, ?_⟩
  dsimp only at hp ⊢
  cases hp with
  | array items =>
    refine .array ?_
    rw [hs.array ha rfl, hs.array hb rfl]
    exact forall₂_and_mem items (hs.items ha rfl) (hs.items hb rfl)
  | object entries =>
    refine .object fun k => ?_
    rw [hs.object ha rfl, hs.object hb rfl]
    exact rel_and_mem (entries k) (hs.entries ha rfl k) (hs.entries hb rfl k)
  | number value => exact .number value
  | _ => constructor

theorem equal (hs : Shares P h h') (ha : P a) (hb : P b) : h'.equal a b = h.equal a b := by
  rw [Bool.eq_iff_iff]
  exact ⟨fun he => equal_of_isBisimulation hs.symm.isBisimulation ⟨he, ha, hb⟩,
    fun he => equal_of_isBisimulation hs.isBisimulation ⟨he, ha, hb⟩⟩

end Shares

/-- What is on a heap is the same as the heap grows. -/
theorem Extends.shares (hh : h.Extends h') : Shares h.Contains h h' where
  array {v i} hv hi := hh.array (by simpa [holds] using hv (.array i) (.here (by rw [Value.cell?, hi])))
  object {v i} hv hi := hh.object (by simpa [holds] using hv (.object i) (.here (by rw [Value.cell?, hi])))
  items {v i} hv hi w hw c hc := hv c (.of_mem_contents (c := .array i) (by rw [Value.cell?, hi]) hw hc)
  entries {v i} hv hi k w hw c hc := by
    refine hv c (.of_mem_contents (c := .object i) (by rw [Value.cell?, hi]) ?_ hc)
    exact List.mem_map_of_mem (OrderedMap.get?_eq_some_iff.1 hw)

end Heap


namespace ArrayLibrary

variable {L : Layout} {F B i j k id : Nat} {m₀ m m₁ m' : Machine} {known : Text → Value → Prop} {p : Nat → Span}
  {arr x v out keep : Value} {h : Heap} {items xs : List Value} {test : Value → Bool} {s : Span}
  {span : Option Span}

/-! ## Filtering -/

/-- A value answers by a test when it is called with one of some values, and has no side effects. -/
def Judges (m : Machine) (keep : Value) (test : Value → Bool) (xs : List Value) : Prop :=
  ∀ x ∈ xs, ∀ m₁ span, m.Unaffected m₁ →
    ∃ v m₂, Settles (fun n => (ofLevel n).call keep [x] span) m₁ (.ok v m₂) ∧ v.payload = .bool (test x) ∧
      m₁.Unaffected m₂

namespace Arranging

variable (ha : Arranging L m₀ h F known out k items m)

include ha

/-- An element is added to the result. -/
theorem push (v : Value) :
    Arranging L m₀ h F known out k (items ++ [v]) (m.withHeap (m.heap.modifyArray k (·.push v))) := by
  have hadds : m.heap.Adds (m.heap.modifyArray k (·.push v)) :=
    ⟨Nat.le_refl _, fun _ => rfl, fun hc => hc, Nat.le_refl _, fun _ => rfl⟩
  exact
    { toInside := ha.toInside.later hadds
      kept := ha.kept.modifyArray ha.new _
      result := ha.result
      cell := ha.cell
      new := ha.new
      lt := by simpa [Heap.modifyArray] using ha.lt
      unaffected := ha.unaffected.modifyArray ha.new _
      since := ha.since.trans hadds
      items := by
        show ((m.heap.modifyArray k _).array k).toList = _
        rw [Heap.array_modifyArray, if_pos ⟨rfl, ha.lt⟩, Array.toList_push, ha.items] }

theorem settles_pushOne {name : Text} (hv : known name v) :
    Settles (fun n => (ofLevel n).stmt (pushOne p i "out" (ref p j name)) F) m
      (.ok out (m.withHeap (m.heap.modifyArray k (·.push v)))) :=
  settles_callMember ha.knows ha.native (ha.loaded.natives _ (by decide))
    (settles_evalList_cons (settles_ref ha.knows ha.result) (settles_evalList_cons (settles_ref ha.knows hv)
      settles_evalList_nil)) fun _ => call_pushArray ha.cell

/-- A round keeps its element if the test says so. -/
theorem sift (index : Value) (hkeep : known "keep" keep) (hjudges : Judges m₀ keep test xs) (hx : x ∈ xs) :
    ∃ m', Settles (fun n => (ofLevel n).forRound none "v" ⟨s, [when p 34 (callNamed p 37 "keep" [ref p 39 "v"])
        [pushOne p 40 "out" (ref p 45 "v")]]⟩ F index x) m (.ok true m') ∧
      Arranging L m₀ h F known out k (items ++ [x].filter test) m' := by
  have h₁ := ha.child (f := roundFrame F "v" x) rfl rfl rfl (by rw [get?_roundFrame, if_neg (by decide)])
    (by rw [get?_roundFrame, if_neg (by decide)])
  obtain ⟨v, m₂, hcall, hv, hm₂⟩ := hjudges x hx _ (some (p 37)) h₁.unaffected
  have htest : Settles (fun n => (ofLevel n).eval (callNamed p 37 "keep" [ref p 39 "v"]) m.heap.frames.size)
      (m.withHeap (m.heap.adding [roundFrame F "v" x])) (.ok v m₂) :=
    settles_callNamed h₁.knows (roundFrame_other (by decide) hkeep)
      (settles_evalList_cons (settles_ref h₁.knows roundFrame_element) settles_evalList_nil) hcall
  have h₂ := h₁.later hm₂
  cases hx : test x with
  | false =>
    rw [hx] at hv
    have hwhen : Settles (fun n => (ofLevel n).stmt (when p 34 (callNamed p 37 "keep" [ref p 39 "v"])
        [pushOne p 40 "out" (ref p 45 "v")]) m.heap.frames.size)
        (m.withHeap (m.heap.adding [roundFrame F "v" x])) (.ok .null m₂) := settles_noElse htest hv
    exact ⟨m₂, settles_turn (settles_exec_single hwhen), by simpa [hx] using ha.back h₂⟩
  | true =>
    rw [hx] at hv
    have h₃ := h₂.child (f := { parent := some m.heap.frames.size, name := "block" }) rfl rfl rfl rfl rfl
    have hwhen : Settles (fun n => (ofLevel n).stmt (when p 34 (callNamed p 37 "keep" [ref p 39 "v"])
        [pushOne p 40 "out" (ref p 45 "v")]) m.heap.frames.size)
        (m.withHeap (m.heap.adding [roundFrame F "v" x])) (.ok out _) :=
      settles_then htest hv (settles_block (settles_exec_single (h₃.settles_pushOne
        (.inr ⟨rfl, roundFrame_element⟩))))
    exact ⟨_, settles_turn (settles_exec_single hwhen), by simpa [hx] using ha.back (h₂.back (h₃.push x))⟩

/-- The rounds keep the elements that pass the test, one after the other. -/
theorem siftAll (hkeep : known "keep" keep) (hjudges : Judges m₀ keep test xs) (todo : List (Value × Value))
    (htodo : ∀ x ∈ todo.map Prod.snd, x ∈ xs) :
    ∃ m', Settles (fun n => forEach ((ofLevel n).forRound none "v" ⟨s, [when p 34
        (callNamed p 37 "keep" [ref p 39 "v"]) [pushOne p 40 "out" (ref p 45 "v")]]⟩ F) todo) m (.ok .null m') ∧
      Arranging L m₀ h F known out k (items ++ (todo.map Prod.snd).filter test) m' := by
  induction todo generalizing m items with
  | nil => exact ⟨m, settles_forEach_nil, by simpa using ha⟩
  | cons x todo ih =>
    obtain ⟨hx, htodo⟩ := List.forall_mem_cons.1 htodo
    obtain ⟨m₁, hround, h₁⟩ := ha.sift (p := p) (s := s) x.1 hkeep hjudges hx
    obtain ⟨m', hrest, h'⟩ := ih h₁ htodo
    refine ⟨m', settles_forEach_cons hround hrest, ?_⟩
    rwa [List.map_cons, ← List.singleton_append, List.filter_append, ← List.append_assoc]

end Arranging

/-- The result is declared as an empty array. -/
theorem arranging_empty {d : Nat} {args : List Value} (hl : L.LoadedIn m.heap)
    (hs : Starts L (.plain .filter) p arr args m m₁) :
    ∃ m₂ out k, Settles (fun n => (ofLevel n).stmt (declareEmpty p 20) m.heap.frames.size) (m₁.withDepth d)
        (.ok out m₂) ∧
      Arranging L (m.withDepth d) m.heap m.heap.frames.size
        (Binding "out" out (callKnown L (.plain .filter) p arr args m)) out k [] m₂ := by
  have hi : Inside L m.heap m.heap.frames.size (callKnown L (.plain .filter) p arr args m) m₁.heap := hs.inside hl
  have hunaffected := (hs.grown.unaffected hs.kept).withDepth d
  have hdeclare (n : Nat) : (ofLevel (n + 1)).stmt (declareEmpty p 20) m.heap.frames.size (m₁.withDepth d) = _ :=
    stmt_declareEmpty (m := m₁.withDepth d) hi
  have hb := Building.of_declared (m := m₁.withDepth d) hi hs.kept #[]
    (rfl : (Value.plain (.array m₁.heap.arrays.size)).payload = .array m₁.heap.arrays.size)
  refine ⟨_, _, m₁.heap.arrays.size, Settles.succ (settles_of_eq hdeclare), ?_⟩
  exact
    { toBuilding := hb
      unaffected := hunaffected.heap hb.kept rfl
      since := hb.kept.toAdds
      items := by
        show ((m₁.heap.newArray #[]).2.array m₁.heap.arrays.size).toList = _
        rw [Heap.array_newArray, if_pos rfl] }

/-- A call of `filter` with what is accepted as a function and judges the elements without side effects gives a new
array of the elements that pass the test, in order. Nothing else is affected. -/
theorem settles_filter (hl : L.LoadedIn m.heap) (hd : m.depth + 1 < m.settings.callLimit.count)
    (harr : arr.payload = .array id) (hid : id < m.heap.arrays.size)
    (haccepts : Operation.filter.Accepts arr [keep])
    (hjudges : Judges (m.withDepth (m.depth + 1)) keep test (m.heap.array id).toList) :
    ∃ v m' k, (∀ span, Settles (fun n => (ofLevel n).call (L.value (.plain .filter)) [arr, keep] span) m (.ok v m')) ∧
      NewArray m m' v k ∧ m.Unaffected m' ∧ (m'.heap.array k).toList = (m.heap.array id).toList.filter test := by
  have hfits : Operation.filter.Fits [keep] := .inr (Nat.le_refl 1)
  obtain ⟨p, m₁, hs, hcall⟩ := call_library (.plain .filter) hl hd hfits haccepts
  obtain ⟨m₂, out, k, hdeclare, h₂⟩ := arranging_empty (d := m.depth + 1) hl hs
  have hkeep : Binding "out" out (callKnown L (.plain .filter) p arr [keep] m) "keep" keep :=
    .inr ⟨by decide, .inl rfl⟩
  have hitems : (m₂.heap.array id).toList = (m.heap.array id).toList := by
    rw [h₂.kept.array hid]
  obtain ⟨m₃, hrounds, h₃⟩ := h₂.siftAll (p := p) (s := p 32) hkeep hjudges
    (Heap.enumerated (m.heap.array id).toList) (by rw [Heap.map_enumerated]; exact fun _ hx => hx)
  rw [Heap.map_enumerated, List.nil_append] at h₃
  have hloop : Settles (fun n => (ofLevel n).stmt (loopOver p 30 "v" (ref p 33 "arr") [when p 34
      (callNamed p 37 "keep" [ref p 39 "v"]) [pushOne p 40 "out" (ref p 45 "v")]]) m.heap.frames.size) m₂
      (.ok .null m₃) :=
    settles_forIn_array (fun _ => nofun) (settles_ref h₂.knows (.inr ⟨by decide, callKnown_array⟩)) harr
      (by rw [hitems]; exact hrounds)
  have hresult : Settles (fun n => (ofLevel n).stmt (run p 50 (ref p 51 "out")) m.heap.frames.size) m₃ (.ok out m₃) :=
    settles_ref h₃.knows h₃.result
  obtain ⟨N, hN⟩ := settles_exec_cons hdeclare (settles_exec_cons hloop (settles_exec_single hresult))
  refine ⟨out, m₃.withDepth m.depth, k, fun span => ⟨N + 10, fun n hn => ?_⟩, ?_, ?_, h₃.items⟩
  · obtain ⟨n, rfl⟩ : ∃ n', n = n' + 10 := ⟨n - 10, by omega⟩
    exact hcall span (.ok out) m₃ (attempt_ok (hN (n + 9) (by omega)))
  · exact ⟨h₃.cell, h₃.new, h₃.lt, h₃.kept.array⟩
  · exact h₃.unaffected.withDepth m.depth

/-! ## Removing -/

/-- The test of what a removal keeps compares with what `x` stands for where the test was made. -/
theorem judges_different (hc : m₀.heap.closures[i]? = some ⟨different p j, B⟩) (hk : m₀.heap.Knows B known)
    (hB : B < m₀.heap.frames.size) (hx : known "x" x) (hd : m₀.depth < m₀.settings.callLimit.count)
    (hh : h.Extends m₀.heap) (hheld : h.Contains x) (hxs : ∀ v ∈ xs, h.Contains v) :
    Judges m₀ (.plain (.function i)) (fun v => !h.equal v x) xs := by
  intro v hv m₁ span hm
  have hplace := (Machine.Within.of_call ⟨different p j, B⟩ [("v", v)] (hk.adds hm.kept.toAdds hB)
    (Nat.lt_of_lt_of_le hB hm.kept.frames_le)).withDepth (m₁.depth + 1)
  have hbound : bindings (different p j) [v] = some (boundTo [("v", v)] none) := rfl
  have hcompare {h' : Heap} {s : Span} (hh' : m₀.heap.Extends h') :
      h'.comparison .ne v x s = .ok (!h.equal v x) := by
    rw [← (hh.trans hh').shares.equal (hxs v hv) hheld]
    rfl
  have hdepth : m₁.depth < m₁.settings.callLimit.count := by
    rw [hm.depth, hm.settings]
    exact hd
  refine ⟨.bool (!h.equal v x), _, settles_call (hm.kept.closure hc) hdepth rfl hbound (settles_of_eq fun _ => rfl)
    (.value ?_) nofun, rfl, hplace.unaffected.withDepth m₁.depth⟩
  have hbody : Settles (fun n => (ofLevel n).stmt (run p (j + 3) (.binary (p (j + 4)) (ref p (j + 5) "v")
      (.compare .ne) (ref p (j + 6) "x"))) m₁.heap.frames.size) _ (.ok (.bool (!h.equal v x)) _) :=
    settles_binary (settles_ref hplace.knows (.inl rfl)) (settles_ref hplace.knows (.inr ⟨rfl, hx⟩)) fun _ =>
      binary_compare (hcompare (hm.kept.trans hplace.unaffected.kept))
  exact settles_exec_single hbody

/-- A call of `remove` gives a new array of the elements that are not `==` to the value, in order. Nothing else is
affected. -/
theorem settles_remove (hl : L.LoadedIn m.heap) (hd : m.depth + 2 < m.settings.callLimit.count)
    (harr : arr.payload = .array id) (hheld : m.heap.Contains arr) (hx : m.heap.Contains x) :
    ∃ v m' k, (∀ span, Settles (fun n => (ofLevel n).call (L.value (.plain .remove)) [arr, x] span) m (.ok v m')) ∧
      NewArray m m' v k ∧ m.Unaffected m' ∧
      (m'.heap.array k).toList = (m.heap.array id).toList.filter fun v => !m.heap.equal v x := by
  have hid : id < m.heap.arrays.size := by
    simpa [Heap.holds] using hheld (.array id) (.here (by rw [Value.cell?, harr]))
  have hfits : Operation.remove.Fits [x] := .inr (Nat.le_refl 1)
  have haccepts : Operation.remove.Accepts arr [x] := accepts_array (by decide) harr
  obtain ⟨p, m₁, hs, hcall⟩ := call_library (.plain .remove) hl (Nat.lt_of_succ_lt hd) hfits haccepts
  obtain ⟨m₂, hm₂⟩ : ∃ m₂, m₂ = (m₁.withDepth (m.depth + 1)).withHeap
    (m₁.heap.newClosure ⟨different p 24, m.heap.frames.size⟩).2 := ⟨_, rfl⟩
  have hunaffected : (m.withDepth (m.depth + 1)).Unaffected m₂ := by
    rw [hm₂]
    exact ((hs.grown.unaffected hs.kept).withDepth _).heap (hs.kept.trans (Heap.extends_newClosure _ _)) rfl
  have hsite : m₂.heap.Site m.heap.frames.size (callKnown L (.plain .remove) p arr [x] m) := by
    rw [hm₂]
    exact hs.site.adds (Heap.extends_newClosure _ _).toAdds
  have hitems : (m₂.heap.array id).toList = (m.heap.array id).toList := by
    rw [hunaffected.kept.array hid]
  have hd₂ : m₂.depth + 1 < m₂.settings.callLimit.count := by
    rw [hunaffected.depth, hunaffected.settings]
    exact hd
  have hjudges : Judges (m₂.withDepth (m₂.depth + 1)) (.plain (.function m₁.heap.closures.size))
      (fun v => !m.heap.equal v x) (m₂.heap.array id).toList := by
    refine judges_different (p := p) (j := 24) (B := m.heap.frames.size) ?_ hsite.knows hsite.lt (.inl rfl) hd₂
      hunaffected.kept hx fun v hv => ?_
    · rw [hm₂]
      exact Array.getElem?_push_size
    · rw [hitems] at hv
      exact (Heap.Extends.refl m.heap).shares.items hheld harr v hv
  obtain ⟨v, m₃, k, hfilter, hnew, hm₃, hkept⟩ := settles_filter (hl.adds hunaffected.kept.toAdds) hd₂ harr
    (Nat.lt_of_lt_of_le hid hunaffected.kept.arrays_le) (accepts_filter haccepts) hjudges
  have hargs : Settles (fun n => (ofLevel n).evalList m.heap.frames.size
      [ref p 23 "arr", .function (different p 24)]) (m₁.withDepth (m.depth + 1))
      (.ok [arr, .plain (.function m₁.heap.closures.size)] m₂) := by
    rw [hm₂]
    refine settles_evalList_cons (settles_ref hs.site.knows callKnown_array) (settles_evalList_cons ?_
      settles_evalList_nil)
    exact Settles.succ (settles_of_eq fun _ => eval_function rfl rfl)
  have hrun : Settles (fun n => (ofLevel n).stmt (run p 20 (callNamed p 21 "filter" [ref p 23 "arr",
      .function (different p 24)])) m.heap.frames.size) (m₁.withDepth (m.depth + 1)) (.ok v m₃) :=
    settles_callNamed hs.site.knows (.inr ⟨rfl, .function (.plain .filter)⟩) hargs (hfilter _)
  obtain ⟨N, hN⟩ := settles_exec_single hrun
  refine ⟨v, m₃.withDepth m.depth, k, fun span => ⟨N + 10, fun n hn => ?_⟩, ?_, ?_, by rw [← hitems, ← hkept]⟩
  · obtain ⟨n, rfl⟩ : ∃ n', n = n' + 10 := ⟨n - 10, by omega⟩
    exact hcall span (.ok v) m₃ (attempt_ok (hN (n + 9) (by omega)))
  · refine ⟨hnew.payload, Nat.le_trans hunaffected.kept.arrays_le hnew.new, hnew.lt, fun hj => ?_⟩
    exact (hnew.unchanged (Nat.lt_of_lt_of_le hj hunaffected.kept.arrays_le)).trans (hunaffected.kept.array hj)
  · exact (hunaffected.trans hm₃).withDepth m.depth

/-! ## Searching -/

/-- The names that are known in a call. -/
abbrev searchKnown (L : Layout) (f : Search) (p : Nat → Span) (arr x : Value) : Text → Value → Prop :=
  (Closure.callFrame ⟨f.definition p, L.frame⟩ [("arr", arr), ("x", x)]).Knowing L.Names

variable {f : Search}

/-- A call with an array gives what the body finishes with. -/
theorem settles_searchCall (hl : L.LoadedIn m.heap) (hd : m.depth < m.settings.callLimit.count) (f : Search)
    (x : Value) (harr : arr.payload = .array id) :
    ∃ p m₁, (m.withDepth (m.depth + 1)).Within m.heap.frames.size (searchKnown L f p arr x) m₁ ∧
      ∀ v m₂, Finishes (fun n => (ofLevel n).exec (f.body p) m.heap.frames.size) m₁ v m₂ →
        (isPredicateName f.name → v.kind = .boolean) →
        ∀ span, Settles (fun n => (ofLevel n).call (L.searchValue f) [arr, x] span) m
          (.ok v (m₂.withDepth m.depth)) := by
  obtain ⟨p, hc⟩ := hl.searchDefinition f
  obtain ⟨m₁, hm₁⟩ : ∃ m₁, m₁ = m.withHeap (m.heap.adding
    [Closure.callFrame ⟨f.definition p, L.frame⟩ [("arr", arr), ("x", x)]]) := ⟨_, rfl⟩
  have hplace : m.Within m.heap.frames.size (searchKnown L f p arr x) m₁ := by
    rw [hm₁]
    exact .of_call ⟨f.definition p, L.frame⟩ _ hl.knows hl.frame_lt
  have hbound : bindings (f.definition p) [arr, x] = some (boundTo [("arr", arr), ("x", x)] none) := rfl
  have haccepts : Predicate.isArray.accepts arr = true := by simp [Predicate.accepts, Value.kind, harr, Payload.kind]
  obtain ⟨m₂, htest, hgrown, harrays⟩ := call_predicate (n := 0) (v := arr) .isArray
    (hl.adds hplace.unaffected.kept.toAdds) (by rw [hplace.unaffected.depth, hplace.unaffected.settings]; exact hd)
  rw [haccepts] at htest
  have hm₂ := hgrown.unaffected ⟨hgrown.adds, by rw [harrays], fun _ => by rw [Heap.array, harrays]; rfl⟩
  have hchecks (span : Option Span) : Settles (fun n => (ofLevel n).checkConstraints ⟨f.definition p, L.frame⟩
      m.heap.frames.size span) m₁ (.ok () m₂) := by
    have hfirst : Settles (fun n => (ofLevel n).checkParameter ⟨f.definition p, L.frame⟩ m.heap.frames.size span
        ⟨p 2, "arr", some (ref p 3 Predicate.isArray.name), []⟩) m₁ (.ok () m₂) :=
      settles_checkParameter rfl rfl (settles_ref hplace.knows (.inr ⟨rfl, .predicate .isArray⟩)) hplace.knows
        (.inl rfl) (settles_call_of_ok (htest span))
    have hall : Settles (fun n => (f.definition p).parameters.forM ((ofLevel n).checkParameter
        ⟨f.definition p, L.frame⟩ m.heap.frames.size span)) m₁ (.ok () m₂) :=
      hfirst.bind (settles_of_eq fun _ => rfl)
    exact hall.bind (settles_of_eq fun _ => rfl)
  refine ⟨p, m₂.withDepth (m.depth + 1), (hplace.later hm₂).withDepth _, fun v m₃ hbody hv span => ?_⟩
  rw [hm₁] at hchecks
  refine settles_call hc hd rfl hbound (hchecks span) hbody fun name hname => ?_
  cases hname
  exact hv

/-- A loop over elements whose rounds have no side effects, and which is left at the first one that passes a test. -/
theorem settles_firstOf {turn : Nat → Value → Value → Eval Bool} {leave : Nat → Exit}
    (hturn : ∀ (place : Nat), ∀ v ∈ items, ∀ m', m.Unaffected m' → ∃ m'', m'.Unaffected m'' ∧
      Settles (fun n => turn n (.number place) v) m' (if test v then .error (leave place) m'' else .ok true m''))
    (place : Nat) (hm : m.Unaffected m') :
    ∃ m'', m.Unaffected m'' ∧
      Settles (fun n => forEach (turn n) ((items.zipIdx place).map fun (v, i) => (.number i, v))) m'
        (match items.findIdx? test with
          | some i => .error (leave (place + i)) m''
          | none => .ok .null m'') := by
  induction items generalizing m' place with
  | nil => exact ⟨m', hm, settles_forEach_nil⟩
  | cons v rest ih =>
    obtain ⟨m₁, hm₁, hround⟩ := hturn place v (.head _) m' hm
    rw [List.findIdx?_cons]
    cases hv : test v with
    | true =>
      rw [hv] at hround
      exact ⟨m₁, hm.trans hm₁, hround.bindError⟩
    | false =>
      rw [hv] at hround
      obtain ⟨m'', hm'', hrest⟩ := ih (fun i w hw => hturn i w (.tail _ hw)) (place + 1) (hm.trans hm₁)
      refine ⟨m'', hm'', settles_forEach_cons hround ?_⟩
      cases hfind : rest.findIdx? test with
      | none =>
        rw [hfind] at hrest
        exact hrest
      | some i =>
        have hplace : place + 1 + i = place + (i + 1) := by omega
        rw [hfind] at hrest
        dsimp only at hrest
        rwa [hplace] at hrest

/-- The position of the first of some elements that equals a value, or null. -/
def placeAmong (h : Heap) (items : List Value) (x : Value) : Value :=
  (items.findIdx? (h.equal · x)).elim .null fun i => .number (i : Rat)

/-- What a body that looks for `x` in `arr` relies on: the heap from which both are compared, which what runs here has
not changed. -/
structure Seeking (L : Layout) (h : Heap) (f : Search) (p : Nat → Span) (m₀ : Machine) (F : Nat) (arr x : Value)
    (id : Nat) (m : Machine) : Prop extends Machine.Within m₀ F (searchKnown L f p arr x) m where
  start : h.Extends m₀.heap
  cell : arr.payload = .array id
  array : h.Contains arr
  held : h.Contains x

namespace Seeking

variable (hm : Seeking L h f p m₀ F arr x id m)

include hm

theorem later (hm' : m.Unaffected m') : Seeking L h f p m₀ F arr x id m' :=
  ⟨hm.toWithin.later hm', hm.start, hm.cell, hm.array, hm.held⟩

theorem since : h.Extends m.heap := hm.start.trans hm.unaffected.kept

theorem array_eq : m.heap.array id = h.array id := hm.since.shares.array hm.array hm.cell

/-- An element equals the value as it did. -/
theorem equal {h' : Heap} (hv : v ∈ (h.array id).toList) (hh : m.heap.Extends h') : h'.equal v x = h.equal v x :=
  have hshares := (hm.since.trans hh).shares
  hshares.equal (hshares.items hm.array hm.cell v hv) hm.held

/-- The body of `includes?` finishes with whether an element equals the value. -/
theorem finishes_includes (hf : f = .includes) :
    Finishes (fun n => (ofLevel n).exec (Search.includes.body p) F) m
      (.bool ((h.array id).toList.any (h.equal · x))) m := by
  subst hf
  have hmember : m.heap.membership x arr (p 21) = .ok ((h.array id).toList.any (h.equal · x)) := by
    rw [Heap.membership, hm.cell]
    dsimp only
    rw [hm.array_eq, ← Array.any_toList]
    refine congrArg Except.ok (Bool.eq_iff_iff.2 ?_)
    rw [List.any_eq_true, List.any_eq_true]
    refine exists_congr fun v => and_congr_right fun hv => ?_
    -- the operator compares in the other direction
    rw [← hm.equal hv (.refl _)]
    exact ⟨m.heap.equivalence_equal.symm, m.heap.equivalence_equal.symm⟩
  have hwithin : Settles (fun n => (ofLevel n).stmt (run p 20 (.binary (p 21) (ref p 22 "x") .within (ref p 23 "arr")))
      F) m (.ok (.bool ((h.array id).toList.any (h.equal · x))) m) := by
    refine settles_binary (settles_ref hm.knows (.inl rfl)) (settles_ref hm.knows (.inl rfl)) fun n => ?_
    exact (bind_ok (readHeap_ok hmember)).trans rfl
  exact .value (settles_exec_single hwithin)

/-- A round of the loop of `index_of` returns its position if its element equals the value. -/
theorem settles_returnEqual (hf : f = .indexOf) (hv : v ∈ (h.array id).toList) (place : Nat) :
    ∃ m', m.Unaffected m' ∧ Settles (fun n => (ofLevel n).forRound (some "i") "v" ⟨p 22, [Search.returnEqual p]⟩ F
      (.number place) v) m (if h.equal v x then .error (.returned (.number place) (p 36)) m' else .ok true m') := by
  subst hf
  have hplace := hm.child (f := turnFrame F [("i", .number place), ("v", v)]) rfl rfl rfl
  have htest : Settles (fun n => (ofLevel n).eval (.binary (p 33) (ref p 34 "v") (.compare .eq) (ref p 35 "x"))
      m.heap.frames.size) _ (.ok (.bool (h.equal v x)) _) :=
    settles_binary (settles_ref hplace.knows (.inl rfl)) (settles_ref hplace.knows (.inr ⟨rfl, .inl rfl⟩))
      fun _ => binary_compare (congrArg Except.ok (hm.equal hv (Heap.extends_adding _ _)))
  cases hequal : h.equal v x with
  | false =>
    rw [hequal] at htest
    have hstmt : Settles (fun n => (ofLevel n).stmt (Search.returnEqual p) m.heap.frames.size) _ (.ok .null _) :=
      settles_noElse htest rfl
    exact ⟨_, m.unaffected_adding _, settles_turn (settles_exec_single hstmt)⟩
  | true =>
    rw [hequal] at htest
    have hblock := hplace.child (f := { parent := some m.heap.frames.size, name := "block" }) rfl rfl rfl
    have hstmt : Settles (fun n => (ofLevel n).stmt (Search.returnEqual p) m.heap.frames.size) _
        (.error (.returned (.number place) (p 36)) _) :=
      settles_then htest rfl (settles_block (settles_exec_single (settles_return
        (settles_ref hblock.knows (.inr ⟨rfl, .inl rfl⟩)))))
    exact ⟨_, (m.unaffected_adding _).trans (Machine.unaffected_adding _ _),
      settles_turn_returned (settles_exec_single hstmt)⟩

/-- The body of `index_of` finishes with the position of the first element that equals the value. -/
theorem finishes_indexOf (hf : f = .indexOf) :
    ∃ m', m.Unaffected m' ∧ Finishes (fun n => (ofLevel n).exec (Search.indexOf.body p) F) m
      (placeAmong h (h.array id).toList x) m' := by
  have hturn (place : Nat) : ∀ v ∈ (h.array id).toList, ∀ m₁, m.Unaffected m₁ → ∃ m₂, m₁.Unaffected m₂ ∧
      Settles (fun n => (ofLevel n).forRound (some "i") "v" ⟨p 22, [Search.returnEqual p]⟩ F (.number place) v) m₁
        (if h.equal v x then .error (.returned (.number place) (p 36)) m₂ else .ok true m₂) :=
    fun v hv m₁ hm₁ => (hm.later hm₁).settles_returnEqual hf hv place
  obtain ⟨m', hm', hloop⟩ := settles_firstOf hturn 0 (.refl m)
  refine ⟨m', hm', ?_⟩
  have heval {r : EStateM.Result Exit Machine Value}
      (hr : Settles (fun n => forEach ((ofLevel n).forRound (some "i") "v" ⟨p 22, [Search.returnEqual p]⟩ F)
        (Heap.enumerated (m.heap.array id).toList)) m r) :
      Settles (fun n => (ofLevel n).stmt (run p 20 (.forIn (p 21) (some "i") "v" (ref p 23 "arr")
        ⟨p 22, [Search.returnEqual p]⟩)) F) m r :=
    settles_forIn_array (fun _ => nofun) (settles_ref hm.knows (.inl (by rw [hf]; rfl))) hm.cell hr
  rw [hm.array_eq] at heval
  unfold placeAmong
  cases hfind : (h.array id).toList.findIdx? (h.equal · x) with
  | none =>
    rw [hfind] at hloop
    have hnull : Settles (fun n => (ofLevel n).stmt (run p 40 (.literal (p 41) .null)) F) m' (.ok .null m') :=
      Interp.settles_literal
    exact .value (settles_exec_cons (heval hloop) (settles_exec_single hnull))
  | some i =>
    rw [hfind] at hloop
    dsimp only at hloop
    rw [Nat.zero_add] at hloop
    exact .returned (settles_exec_exit (heval hloop))

end Seeking

/-! ## Agreement -/

theorem placeAmong_eq_null_iff : placeAmong h xs x = .null ↔ ∀ v ∈ xs, h.equal v x = false := by
  unfold placeAmong
  cases hfind : xs.findIdx? (h.equal · x) with
  | none => simpa using List.findIdx?_eq_none_iff.1 hfind
  | some i =>
    obtain ⟨hi, hequal, -⟩ := List.findIdx?_eq_some_iff_getElem.1 hfind
    refine ⟨nofun, fun h => ?_⟩
    rw [h _ (List.getElem_mem hi)] at hequal
    cases hequal

/-- The position is the least one whose element equals the value. -/
theorem placeAmong_least (hplace : placeAmong h xs x ≠ .null) :
    ∃ i : Nat, IsLeast {i | ∃ v, xs[i]? = some v ∧ h.equal v x = true} i ∧ placeAmong h xs x = .number (i : Rat) := by
  unfold placeAmong at hplace ⊢
  cases hfind : xs.findIdx? (h.equal · x) with
  | none => exact absurd (by rw [hfind]; rfl) hplace
  | some i =>
    obtain ⟨hi, hequal, hbefore⟩ := List.findIdx?_eq_some_iff_getElem.1 hfind
    refine ⟨i, ⟨⟨xs[i], List.getElem?_eq_getElem hi, hequal⟩, ?_⟩, rfl⟩
    rintro j ⟨v, hv, hj⟩
    obtain ⟨hlt, rfl⟩ := List.getElem?_eq_some_iff.1 hv
    exact Nat.le_of_not_lt fun hji => hbefore j hji hj

/-- What the three functions say about a value and the elements of an array fits together: whether it is among them,
the position at which it is, or null, and the elements that are left without it. -/
structure Agree (h : Heap) (items : List Value) (x : Value) (found : Bool) (place : Value) (rest : List Value) :
    Prop where
  found : found = true ↔ place ≠ .null
  shorter : place ≠ .null ↔ rest.length < items.length
  least : place ≠ .null →
    ∃ i : Nat, IsLeast {i | ∃ v, items[i]? = some v ∧ h.equal v x = true} i ∧ place = .number (i : Rat)
  rest : rest = items.filter fun v => !h.equal v x

theorem agree : Agree h items x (items.any (h.equal · x)) (placeAmong h items x)
    (items.filter fun v => !h.equal v x) where
  found := by simp [Ne, placeAmong_eq_null_iff]
  shorter := by simp [Ne, placeAmong_eq_null_iff, List.length_filter_lt_length_iff_exists]
  least := placeAmong_least
  rest := rfl

/-- Scripts find `includes?`, `index_of` and `remove` as members of `Array`. Whether an array includes a value, at which
position it has the value, and what is left if the value is removed is one question, for every array and value of a
heap. The calls come to their end, and change nothing that is there. -/
theorem membership_agrees (hm : m.HasPrelude) (hd : m.depth + 2 < m.settings.callLimit.count)
    (harr : arr.payload = .array id) (hheld : m.heap.Contains arr) (hx : m.heap.Contains x) :
    ∃ includes indexOf remove found place rest k m₁ m₂ m₃,
      (m.heap.globalMember "Array" "includes?" = .ok includes ∧ m.heap.globalMember "Array" "index_of" = .ok indexOf ∧
        m.heap.globalMember "Array" "remove" = .ok remove) ∧
      (∀ span, Settles (fun n => (ofLevel n).call includes [arr, x] span) m (.ok (.bool found) m₁)) ∧
      m.Unaffected m₁ ∧
      (∀ span, Settles (fun n => (ofLevel n).call indexOf [arr, x] span) m (.ok place m₂)) ∧ m.Unaffected m₂ ∧
      (∀ span, Settles (fun n => (ofLevel n).call remove [arr, x] span) m (.ok rest m₃)) ∧
      m.Unaffected m₃ ∧ NewArray m m₃ rest k ∧
      Agree m.heap (m.heap.array id).toList x found place (m₃.heap.array k).toList := by
  obtain ⟨L, hl, hnames, hsearches⟩ := hm.arrayLibrary
  have hdepth : m.depth < m.settings.callLimit.count := by omega
  obtain ⟨p, m₁, hplace, hincludes⟩ := settles_searchCall hl hdepth .includes x harr
  have h₁ : Seeking L m.heap .includes p _ _ arr x id m₁ := ⟨hplace, .refl _, harr, hheld, hx⟩
  obtain ⟨q, m₂, hplace', hindexOf⟩ := settles_searchCall hl hdepth .indexOf x harr
  have h₂ : Seeking L m.heap .indexOf q _ _ arr x id m₂ := ⟨hplace', .refl _, harr, hheld, hx⟩
  obtain ⟨m₃, hm₃, hfinishes⟩ := h₂.finishes_indexOf rfl
  obtain ⟨rest, m₄, k, hremove, hnew, hm₄, hrest⟩ := settles_remove hl hd harr hheld hx
  refine ⟨_, _, _, _, _, rest, k, _, _, m₄, ⟨hsearches .includes, hsearches .indexOf, hnames (.plain .remove)⟩,
    hincludes _ _ (h₁.finishes_includes rfl) fun _ => rfl, ?_,
    hindexOf _ _ hfinishes (fun h => absurd h (by decide)), ?_, hremove, hm₄, hnew, ?_⟩
  · exact h₁.unaffected.withDepth m.depth
  · exact (h₂.unaffected.trans hm₃).withDepth m.depth
  · rw [hrest]
    exact agree

/-- The array `[1, a, [2]]`, which holds itself, is in a heap, and another array `[2]`. -/
structure Nested (h : Heap) (a inner x : Nat) : Prop where
  lt : a < h.arrays.size ∧ inner < h.arrays.size ∧ x < h.arrays.size
  array : h.array a = #[.number 1, .plain (.array a), .plain (.array inner)]
  inner : h.array inner = #[.number 2]
  other : h.array x = #[.number 2]

/-- There is a session with such arrays. -/
theorem exists_nested : ∃ (m : Machine) (a inner x : Nat), m.Ready ∧ Nested m.heap a inner x := by
  obtain ⟨m, hm⟩ := Session.exists_ready
  refine ⟨_, m.heap.arrays.size + 2, m.heap.arrays.size, m.heap.arrays.size + 1,
    ((hm.newArray #[.number 2]).newArray #[.number 2]).newArray #[.number 1, .plain (.array (m.heap.arrays.size + 2)),
      .plain (.array m.heap.arrays.size)], ?_⟩
  constructor
  · simp [Heap.newArray]
    omega
  all_goals simp [Heap.newArray, Heap.array, Array.getElem_push, Nat.add_assoc]

namespace Nested

variable {h : Heap} {a inner x c : Nat} (hn : Nested h a inner x)

include hn

/-- The arrays lead only to each other. -/
theorem contains (hc : c ∈ [a, inner, x]) : h.Contains (.plain (.array c)) := by
  obtain ⟨⟨ha, hi, hx⟩, harray, hinner, hother⟩ := hn
  refine Heap.contains_of_cells [.array a, .array inner, .array x] ?_ ?_
  · rintro _ ⟨⟩
    simpa using hc
  · simp [Heap.holds, Heap.contents, Value.cell?, Value.number, Value.plain, *]

/-- The inner array is equal to the other one. -/
theorem equal_inner : h.equal (.plain (.array inner)) (.plain (.array x)) = true := by
  refine Heap.equal_of_isBisimulation
    (R := fun v w => v = w ∨ v = .plain (.array inner) ∧ w = .plain (.array x)) ?_ (.inr ⟨rfl, rfl⟩)
  rintro v w (rfl | ⟨rfl, rfl⟩)
  · exact ⟨rfl, .refl (fun _ => .inl rfl) _⟩
  · refine ⟨rfl, .array ?_⟩
    rw [hn.inner, hn.other]
    exact List.forall₂_same.2 fun _ _ => .inl rfl

end Nested

/-- `a = [1, a, [2]]` has an array that is `==` to `[2]`. -/
theorem membership_agrees_nested :
    ∃ (m : Machine) (a inner x : Nat), m.HasPrelude ∧ Nested m.heap a inner x ∧
      ∃ includes indexOf remove place rest k m₁ m₂ m₃,
        (m.heap.globalMember "Array" "includes?" = .ok includes ∧
          m.heap.globalMember "Array" "index_of" = .ok indexOf ∧ m.heap.globalMember "Array" "remove" = .ok remove) ∧
        (∀ span, Settles (fun n => (ofLevel n).call includes [.plain (.array a), .plain (.array x)] span) m
          (.ok (.bool true) m₁)) ∧
        (∀ span, Settles (fun n => (ofLevel n).call indexOf [.plain (.array a), .plain (.array x)] span) m
          (.ok place m₂)) ∧
        (∀ span, Settles (fun n => (ofLevel n).call remove [.plain (.array a), .plain (.array x)] span) m
          (.ok rest m₃)) ∧
        NewArray m m₃ rest k ∧ Agree m.heap [.number 1, .plain (.array a), .plain (.array inner)]
          (.plain (.array x)) true place (m₃.heap.array k).toList := by
  obtain ⟨m, a, inner, x, hm, hn⟩ := exists_nested
  obtain ⟨includes, indexOf, remove, found, place, rest, k, m₁, m₂, m₃, hnames, hincludes, -, hindexOf, -, hremove, -,
    hnew, hagree⟩ := membership_agrees hm.prelude (hm.lt_limit (by decide)) (rfl : (Value.plain (.array a)).payload = _)
      (hn.contains (by simp)) (hn.contains (c := x) (by simp))
  rw [hn.array] at hagree
  have hfound : found = true := by
    rw [hagree.found, hagree.shorter, hagree.rest, List.length_filter_lt_length_iff_exists]
    exact ⟨.plain (.array inner), .tail _ (.tail _ (.head _)), by rw [hn.equal_inner]; decide⟩
  subst hfound
  exact ⟨m, a, inner, x, hm.prelude, hn, includes, indexOf, remove, place, rest, k, m₁, m₂, m₃, hnames, hincludes,
    hindexOf, hremove, hnew, hagree⟩

end ArrayLibrary

end ScriptEngine

import ScriptEngine.Proofs.Arrays.Call
import ScriptEngine.Proofs.Eval.Leading

/-!
# Loops of the array library

* **Appending** (`Machine.Appends`): one array has got further elements behind its own.
* `stmt_pushEach`: the loop that pushes the elements of one thing appends them.
* `stmt_pushElements`: the loop that does so for every argument appends what the arguments hold when their turn
  comes (`Heap.joined?`). What the array itself holds has grown by then.
-/

namespace ScriptEngine

/-- The elements of a value, without positions and keys. References are followed. -/
def Heap.elementsOf? (h : Heap) (v : Value) : Option (List Value) :=
  (h.follow? v).bind fun target => (h.pairs? target).map fun items => items.map Prod.snd

/-- A value is an array cell, or leads there through references. -/
def Heap.LeadsTo (h : Heap) (v : Value) (id : Nat) : Prop :=
  ∃ target, h.follow? v = some target ∧ target.payload = .array id

instance (h : Heap) (v : Value) (id : Nat) : Decidable (h.LeadsTo v id) :=
  match hf : h.follow? v with
  | some target =>
    decidable_of_iff (target.payload = .array id) <| by simp [Heap.LeadsTo, hf]
  | none => isFalse <| by simp [Heap.LeadsTo, hf]

/-- What an array holds after the elements of some things have been pushed to it one after another, if all of them
have elements. The elements of the array itself are those it has when its turn comes. -/
def Heap.joined? (h : Heap) (id : Nat) : List Value → List Value → Option (List Value)
  | items, [] => some items
  | items, v :: rest =>
    (if h.LeadsTo v id then some items else h.elementsOf? v).bind fun further =>
      h.joined? id (items ++ further) rest

theorem Heap.follow?_congr {h h' : Heap} (hr : h'.references = h.references) (v : Value) :
    h'.follow? v = h.follow? v := by
  have hin (steps : Nat) (v : Value) : h'.followIn? steps v = h.followIn? steps v := by
    induction steps generalizing v with
    | zero => rfl
    | succ n ih =>
      unfold Heap.followIn?
      split
      · rw [ih, Heap.reference, Heap.reference, hr]
      · rfl
  rw [Heap.follow?, Heap.follow?, hr, hin]

@[simp] theorem Heap.map_enumerated (items : List Value) : (Heap.enumerated items).map Prod.snd = items := by
  rw [Heap.enumerated, List.map_map]
  exact List.zipIdx_map_fst 0 items

/-- The elements of a value depend on references and on the cell that it leads to. -/
theorem Heap.elementsOf?_congr {h h' : Heap} {v : Value} (hr : h'.references = h.references)
    (ho : h'.objects = h.objects) (ha : ∀ j, h.LeadsTo v j → h'.array j = h.array j) :
    h'.elementsOf? v = h.elementsOf? v := by
  rw [Heap.elementsOf?, Heap.elementsOf?, Heap.follow?_congr hr]
  cases hf : h.follow? v with
  | none => rfl
  | some w =>
    simp only [Option.bind_some]
    cases hw : w.payload with
    | array j => simp [Heap.pairs?, hw, ha j ⟨w, hf, hw⟩]
    | object j => simp [Heap.pairs?, hw, Heap.object, ho]
    | _ => simp [Heap.pairs?, hw]

theorem Heap.elementsOf?_adding {h : Heap} {fs : List Frame} {v : Value} :
    (h.adding fs).elementsOf? v = h.elementsOf? v :=
  elementsOf?_congr rfl rfl fun _ _ => rfl

/-- One array has got further elements behind its own, and frames may have been added. -/
structure Machine.Appends (id : Nat) (xs : List Value) (m m' : Machine) : Prop extends m.Grown m' where
  size : m'.heap.arrays.size = m.heap.arrays.size
  here : (m'.heap.array id).toList = (m.heap.array id).toList ++ xs
  others : ∀ j ≠ id, m'.heap.array j = m.heap.array j

namespace Machine

variable {m m' m'' : Machine} {id : Nat} {xs ys : List Value} {v : Value} {fs : List Frame}

theorem Appends.of_grown (h : m.Grown m') (ha : m'.heap.arrays = m.heap.arrays) : m.Appends id [] m' where
  toGrown := h
  size := by rw [ha]
  here := by rw [Heap.array, ha, List.append_nil]; rfl
  others j _ := by rw [Heap.array, ha]; rfl

theorem Appends.trans (h : m.Appends id xs m') (h' : m'.Appends id ys m'') : m.Appends id (xs ++ ys) m'' where
  toGrown := h.toGrown.trans h'.toGrown
  size := h'.size.trans h.size
  here := by rw [h'.here, h.here, List.append_assoc]
  others j hj := (h'.others j hj).trans (h.others j hj)

/-- The elements of things that do not lead to the array are as they were. -/
theorem Appends.elementsOf? (h : m.Appends id xs m') (v : Value) :
    m'.heap.elementsOf? v =
      if m.heap.LeadsTo v id then some (m'.heap.array id).toList else m.heap.elementsOf? v := by
  split
  · next hv =>
    obtain ⟨w, hf, hw⟩ := hv
    have hf' : m'.heap.follow? v = some w := by rw [Heap.follow?_congr h.references, hf]
    simp [Heap.elementsOf?, hf', Heap.pairs?, hw]
  · next hv =>
    refine Heap.elementsOf?_congr h.references h.objects fun j hj => h.others j ?_
    rintro rfl
    exact hv hj

theorem appends_push (hid : id < m.heap.arrays.size) :
    m.Appends id [v] (m.withHeap (m.heap.modifyArray id (·.push v))) where
  toGrown := m.grown_modifyArray id _
  size := by simp [Heap.modifyArray]
  here := by rw [Heap.array_modifyArray, if_pos ⟨rfl, hid⟩, Array.toList_push]
  others j hj := by rw [Heap.array_modifyArray, if_neg fun h => hj h.1]

end Machine

namespace ArrayLibrary

open Eval Interp

theorem call_pushArray {I : Interp} {arr v : Value} {id : Nat} {span : Option Span} {m : Machine}
    (ha : arr.payload = .array id) :
    Native.pushArray.call I [arr, v] span m = .ok arr (m.withHeap (m.heap.modifyArray id (·.push v))) := by
  obtain ⟨payload, tags⟩ := arr
  cases ha
  rfl

variable {L : Layout} {n F i id : Nat} {m m' : Machine} {known : Text → Value → Prop} {p : Nat → Span}
  {arr v item : Value} {name source target : Text} {I : Interp} {span : Span} {body : List Stmt}
  {items : List (Value × Value)}

/-! ## Rounds -/

/-- The frame of a round. -/
def roundFrame (F : Nat) (name : Text) (item : Value) : Frame :=
  Frame.binding { parent := some F, name := "for" } [(name, item)]

theorem forRound_eq {b : Block} {index : Value} :
    I.forRound none name b F index item m =
      Interp.round (I.exec b.statements m.heap.frames.size) (m.withHeap (m.heap.adding [roundFrame F name item])) := by
  rw [forRound, bind_ok (childFrame_adding F "for" false)]
  show (Eval.define m.heap.frames.size (some name) item false none >>= fun _ =>
    Interp.round (I.exec b.statements m.heap.frames.size)) _ = _
  rw [bind_ok (define_adding rfl)]
  rfl

theorem round_ok {x : Eval Value} (hx : x m = .ok v m') : Interp.round x m = .ok true m' := by
  rw [Interp.round, bind_ok (attempt_ok hx)]
  rfl

/-- A loop each of whose rounds appends its element. -/
theorem forEach_appends {turn : Value → Value → Eval Bool} {Inv : Machine → Prop} {id : Nat} (hm : Inv m)
    (hturn : ∀ m index item, Inv m → ∃ m', turn index item m = .ok true m' ∧ m.Appends id [item] m' ∧ Inv m') :
    ∃ m', forEach turn items m = .ok .null m' ∧ m.Appends id (items.map Prod.snd) m' := by
  induction items generalizing m with
  | nil => exact ⟨m, rfl, .of_grown (.refl m) rfl⟩
  | cons x rest ih =>
    obtain ⟨index, item⟩ := x
    obtain ⟨m₁, hrun, hone, hm₁⟩ := hturn m index item hm
    obtain ⟨m', hrest, hothers⟩ := ih hm₁
    refine ⟨m', ?_, hone.trans hothers⟩
    rw [forEach, bind_ok hrun]
    exact hrest

theorem elements_ok {vs : List (Value × Value)} {w : Value} (hf : m.heap.follow? v = some w)
    (hp : m.heap.pairs? w = some vs) : elements v span m = .ok vs m := by
  have hheap : Eval.heap m = .ok m.heap m := rfl
  rw [elements, bind_ok (readEndless_some hf), bind_ok hheap, hp]
  rfl

theorem get?_roundFrame (other : Text) :
    (roundFrame F name item).bindings.get? (some other) = if other = name then some item else none := by
  show (OrderedMap.empty.insert (some name) item).get? (some other) = _
  rw [OrderedMap.get?_insert]
  simp only [Option.some.injEq]
  rfl

/-- A round knows its element, and the other names as the loop does. -/
theorem roundFrame_element : (roundFrame F name item).Knowing known name item :=
  .inl (by rw [get?_roundFrame, if_pos rfl])

theorem roundFrame_other {other : Text} (hne : other ≠ name) (hk : known other v) :
    (roundFrame F name item).Knowing known other v :=
  .inr ⟨by rw [get?_roundFrame, if_neg hne], hk⟩

/-! ## Loops that push -/

/-- Where a loop that pushes runs: a frame knows the array that is pushed to, and its cell is there. -/
structure Pushing (L : Layout) (h₀ : Heap) (F : Nat) (known : Text → Value → Prop) (target : Text) (arr : Value)
    (id : Nat) (m : Machine) : Prop extends Inside L h₀ F known m.heap where
  array : known target arr
  cell : arr.payload = .array id
  lt : id < m.heap.arrays.size

namespace Pushing

variable {xs : List Value} {h₀ : Heap}

theorem appends (h : Pushing L h₀ F known target arr id m) (ha : m.Appends id xs m') :
    Pushing L h₀ F known target arr id m' where
  toInside := h.toInside.later ha.adds
  array := h.array
  cell := h.cell
  lt := by rw [ha.size]; exact h.lt

/-- A round of a loop whose element has another name. -/
theorem round (h : Pushing L h₀ F known target arr id m) (hnative : "native" ≠ name) (htarget : target ≠ name)
    (item : Value) :
    Pushing L h₀ m.heap.frames.size ((roundFrame F name item).Knowing known) target arr id
      (m.withHeap (m.heap.adding [roundFrame F name item])) where
  toInside := h.toInside.child rfl rfl rfl (by rw [get?_roundFrame, if_neg hnative])
  array := roundFrame_other htarget h.array
  cell := h.cell
  lt := h.lt

theorem exec_pushOne {j : Nat} (h : Pushing L h₀ F known target arr id m) (hv : known name v) :
    ∃ m', (ofLevel (n + 3)).exec [pushOne p i target (ref p j name)] F m = .ok arr m' ∧ m.Appends id [v] m' := by
  have hargs : (ofLevel (n + 1)).evalList F [ref p (i + 4) target, ref p j name] m = .ok [arr, v] m :=
    evalList_cons (eval_ref h.site.knows h.array) (evalList_cons (eval_ref h.site.knows hv) rfl)
  refine ⟨_, ?_, Machine.appends_push h.lt⟩
  rw [pushOne, exec_run, callNative, eval_callMember h.loaded h.site.knows h.native (by decide), bind_ok hargs]
  exact call_pushArray h.cell

/-- The loop that pushes the elements of one thing. -/
theorem stmt_pushEach (h : Pushing L h₀ F known target arr id m) (htarget : target ≠ "v") (hv : known source v)
    (hitems : m.heap.elementsOf? v = some xs) :
    ∃ m', (ofLevel (n + 4)).stmt (pushEach p i source target) F m = .ok .null m' ∧ m.Appends id xs m' := by
  obtain ⟨w, hfollow, vs, hpairs, rfl⟩ : ∃ w, m.heap.follow? v = some w ∧
      ∃ vs, m.heap.pairs? w = some vs ∧ vs.map Prod.snd = xs := by
    simpa [Heap.elementsOf?, Option.bind_eq_some_iff] using hitems
  have hturn (m : Machine) (index item : Value) (hm : Pushing L h₀ F known target arr id m) :
      ∃ m', (ofLevel (n + 3)).forRound none "v" ⟨p (i + 2), [pushOne p (i + 4) target (ref p (i + 9) "v")]⟩ F
        index item m = .ok true m' ∧ m.Appends id [item] m' ∧ Pushing L h₀ F known target arr id m' := by
    have hround := hm.round (by decide) htarget item
    obtain ⟨m', hpush, happends⟩ := hround.exec_pushOne (n := n) (p := p) (i := i + 4) (j := i + 9) roundFrame_element
    have hone : m.Appends id [item] m' := (Machine.Appends.of_grown (m.grown_adding _) rfl).trans happends
    refine ⟨m', ?_, hone, hm.appends hone⟩
    rw [forRound_eq]
    exact round_ok hpush
  obtain ⟨m', hrun, happends⟩ :=
    (forEach_appends h hturn : ∃ m', forEach _ vs m = .ok .null m' ∧ m.Appends id (vs.map Prod.snd) m')
  refine ⟨m', ?_, happends⟩
  have hstmt : (ofLevel (n + 4)).stmt (pushEach p i source target) F = (do
      let v ← (ofLevel (n + 3)).eval (ref p (i + 3) source) F
      let items ← elements v (p (i + 3))
      forEach ((ofLevel (n + 3)).forRound none "v"
        ⟨p (i + 2), [pushOne p (i + 4) target (ref p (i + 9) "v")]⟩ F) items : Eval Value) := rfl
  rw [hstmt, bind_ok (eval_ref h.site.knows hv), bind_ok (elements_ok hfollow hpairs)]
  exact hrun

/-- The loop ends by an error if there are no elements. -/
theorem stmt_pushEach_error (h : Pushing L h₀ F known target arr id m) (hv : known source v)
    (hitems : m.heap.elementsOf? v = none) :
    ∃ e, (ofLevel (n + 4)).stmt (pushEach p i source target) F m = .error e m ∧ e.jump? = none := by
  obtain ⟨e, helements, he⟩ : ∃ e, elements v (p (i + 3)) m = .error e m ∧ e.jump? = none := by
    cases hf : m.heap.follow? v with
    | none =>
      exact ⟨_, bind_error (readEndless_none hf), rfl⟩
    | some w =>
      have hp : m.heap.pairs? w = none := by
        simpa [Heap.elementsOf?, hf] using hitems
      have hheap : Eval.heap m = .ok m.heap m := rfl
      refine ⟨.failed (.fault (Heap.notIterable w (p (i + 3)))), ?_, rfl⟩
      rw [elements, bind_ok (readEndless_some hf), bind_ok hheap, hp]
      rfl
  have hstmt : (ofLevel (n + 4)).stmt (pushEach p i source target) F = (do
      let v ← (ofLevel (n + 3)).eval (ref p (i + 3) source) F
      let items ← elements v (p (i + 3))
      forEach ((ofLevel (n + 3)).forRound none "v"
        ⟨p (i + 2), [pushOne p (i + 4) target (ref p (i + 9) "v")]⟩ F) items : Eval Value) := rfl
  refine ⟨e, ?_, he⟩
  rw [hstmt, bind_ok (eval_ref h.site.knows hv), bind_error helements]

/-! ### Every argument -/

section

variable {m₀ : Machine} {ys final : List Value} {k r : Value}

/-- A round of the loop over the arguments. -/
abbrev argumentRound (n : Nat) (p : Nat → Span) (i F : Nat) (target : Text) : Value → Value → Eval Bool :=
  (ofLevel (n + 5)).forRound none "other" ⟨p (i + 2), [pushEach p (i + 4) "other" target]⟩ F

theorem argumentRound_ok (h : Pushing L h₀ F known target arr id m) (hother : target ≠ "other") (htarget : target ≠ "v")
    {xs : List Value} (hitems : m.heap.elementsOf? item = some xs) :
    ∃ m', argumentRound n p i F target k item m = .ok true m' ∧ m.Appends id xs m' := by
  have hround := h.round (by decide) hother item
  have hitems' : (m.withHeap (m.heap.adding [roundFrame F "other" item])).heap.elementsOf? item = some xs :=
    Heap.elementsOf?_adding.trans hitems
  obtain ⟨m', hpush, happends⟩ :=
    hround.stmt_pushEach (n := n) (p := p) (i := i + 4) htarget roundFrame_element hitems'
  refine ⟨m', ?_, (Machine.Appends.of_grown (m.grown_adding _) rfl).trans happends⟩
  rw [argumentRound, forRound_eq]
  exact round_ok hpush

theorem argumentRound_error (h : Pushing L h₀ F known target arr id m) (hother : target ≠ "other")
    (hitems : m.heap.elementsOf? item = none) :
    ∃ e m', argumentRound n p i F target k item m = .error e m' ∧ e.jump? = none := by
  have hround := h.round (by decide) hother item
  have hitems' : (m.withHeap (m.heap.adding [roundFrame F "other" item])).heap.elementsOf? item = none :=
    Heap.elementsOf?_adding.trans hitems
  obtain ⟨e, hpush, he⟩ :=
    hround.stmt_pushEach_error (n := n) (p := p) (i := i + 4) roundFrame_element hitems'
  refine ⟨e, m.withHeap (m.heap.adding [roundFrame F "other" item]), ?_, he⟩
  rw [argumentRound, forRound_eq, Interp.round]
  refine (bind_ok (attempt_error hpush)).trans ?_
  cases e with
  | returned | broke | continued => cases he
  | thrown | failed | crashed | exhausted => rfl

/-- The loop over the arguments, if all of them have elements. -/
theorem forEach_argumentRound (h : Pushing L h₀ F known target arr id m) (hother : target ≠ "other")
    (htarget : target ≠ "v") (hm : m₀.Appends id ys m)
    (hfinal : m₀.heap.joined? id (m.heap.array id).toList (items.map Prod.snd) = some final) :
    ∃ m' zs, forEach (argumentRound n p i F target) items m = .ok .null m' ∧ m₀.Appends id zs m' ∧
      (m'.heap.array id).toList = final := by
  induction items generalizing m ys with
  | nil =>
    cases hfinal
    exact ⟨m, ys, rfl, hm, rfl⟩
  | cons x rest ih =>
    obtain ⟨index, item⟩ := x
    rw [List.map_cons, Heap.joined?, ← hm.elementsOf?] at hfinal
    obtain ⟨xs, hitems, hrest⟩ := Option.bind_eq_some_iff.1 hfinal
    obtain ⟨m₁, hrun, happends⟩ := h.argumentRound_ok (n := n) (p := p) (i := i) (k := index) hother htarget hitems
    rw [← happends.here] at hrest
    obtain ⟨m', zs, hloop, hm', hfinal'⟩ := ih (h.appends happends) (hm.trans happends) hrest
    refine ⟨m', zs, ?_, hm', hfinal'⟩
    rw [forEach, bind_ok hrun]
    exact hloop

/-- The loop over the arguments ends by an error unless all of them have elements. -/
theorem forEach_argumentRound_error (h : Pushing L h₀ F known target arr id m) (hother : target ≠ "other")
    (htarget : target ≠ "v") (hm : m₀.Appends id ys m)
    (hnone : m₀.heap.joined? id (m.heap.array id).toList (items.map Prod.snd) = none) :
    ∃ e m', forEach (argumentRound n p i F target) items m = .error e m' ∧ e.jump? = none := by
  induction items generalizing m ys with
  | nil => cases hnone
  | cons x rest ih =>
    obtain ⟨index, item⟩ := x
    rw [List.map_cons, Heap.joined?, ← hm.elementsOf?] at hnone
    cases hitems : m.heap.elementsOf? item with
    | none =>
      obtain ⟨e, m₁, hround, he⟩ :=
        h.argumentRound_error (n := n) (p := p) (i := i) (k := index) hother hitems
      exact ⟨e, m₁, by rw [forEach, bind_error hround], he⟩
    | some xs =>
      obtain ⟨m₁, hround, happends⟩ :=
        h.argumentRound_ok (n := n) (p := p) (i := i) (k := index) hother htarget hitems
      rw [hitems, Option.bind_some, ← happends.here] at hnone
      obtain ⟨e, m', hloop, he⟩ := ih (h.appends happends) (hm.trans happends) hnone
      refine ⟨e, m', ?_, he⟩
      rw [forEach, bind_ok hround]
      exact hloop

/-- The statement by which the elements of every argument are pushed. -/
theorem stmt_pushElements_eq (hk : m.heap.Knows F known) {rest : Value} {cell : Nat} {args : List Value}
    (hrest : known variadicName rest) (hcell : rest.payload = .array cell) (hargs : m.heap.array cell = args.toArray) :
    (ofLevel (n + 6)).stmt (pushElements p i target) F m =
      forEach (argumentRound n p i F target) (Heap.enumerated args) m := by
  have hfollow : m.heap.follow? rest = some rest := by
    rw [Heap.follow?, Heap.followIn?, hcell]
  have hpairs : m.heap.pairs? rest = some (Heap.enumerated args) := by
    rw [Heap.pairs?, hcell]
    simp only [hargs, List.toList_toArray]
  have hstmt : (ofLevel (n + 6)).stmt (pushElements p i target) F = (do
      let v ← (ofLevel (n + 5)).eval (ref p (i + 3) variadicName) F
      let items ← elements v (p (i + 3))
      forEach (argumentRound n p i F target) items : Eval Value) := rfl
  rw [hstmt, bind_ok (eval_ref hk hrest), bind_ok (elements_ok hfollow hpairs)]

/-- The loop that pushes the elements of every argument. -/
theorem stmt_pushElements (h : Pushing L h₀ F known target arr id m) (hother : target ≠ "other")
    (htarget : target ≠ "v") {rest : Value} {cell : Nat} {args : List Value} (hrest : known variadicName rest)
    (hcell : rest.payload = .array cell) (hargs : m.heap.array cell = args.toArray)
    (hfinal : m.heap.joined? id (m.heap.array id).toList args = some final) :
    ∃ m' zs, (ofLevel (n + 6)).stmt (pushElements p i target) F m = .ok .null m' ∧ m.Appends id zs m' ∧
      (m'.heap.array id).toList = final := by
  rw [stmt_pushElements_eq h.site.knows hrest hcell hargs]
  refine h.forEach_argumentRound hother htarget (.of_grown (.refl m) rfl) ?_
  rw [Heap.map_enumerated]
  exact hfinal

/-- The loop ends by an error unless every argument has elements. -/
theorem stmt_pushElements_error (h : Pushing L h₀ F known target arr id m) (hother : target ≠ "other")
    (htarget : target ≠ "v") {rest : Value} {cell : Nat} {args : List Value} (hrest : known variadicName rest)
    (hcell : rest.payload = .array cell) (hargs : m.heap.array cell = args.toArray)
    (hnone : m.heap.joined? id (m.heap.array id).toList args = none) :
    ∃ e m', (ofLevel (n + 6)).stmt (pushElements p i target) F m = .error e m' ∧ e.jump? = none := by
  rw [stmt_pushElements_eq h.site.knows hrest hcell hargs]
  refine h.forEach_argumentRound_error hother htarget (.of_grown (.refl m) rfl) ?_
  rw [Heap.map_enumerated]
  exact hnone

end

end Pushing

end ArrayLibrary

end ScriptEngine

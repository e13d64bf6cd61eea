import ScriptEngine.Proofs.Arrays.Loops

/-!
# Appending

`push` and `concat` append to a copy, `push!` and `concat!` to the array itself.

* `NewArray`: a value is a new array, and the other arrays are as they were.
* `newArray_of_appends`: what a copy holds that has been appended to.
* `call_push`, `call_pushInPlace`: both forms of `push` lead to the same elements.
-/

namespace ScriptEngine.ArrayLibrary

open Eval Interp

variable {L : Layout} {n F i id : Nat} {m m' m₀ : Machine} {known : Text → Value → Prop} {p : Nat → Span}
  {arr v : Value} {args final : List Value} {span : Option Span}

/-- A value is an array in a cell that is new, and the other arrays are as they were. -/
structure NewArray (m m' : Machine) (v : Value) (cell : Nat) : Prop where
  payload : v.payload = .array cell
  new : m.heap.arrays.size ≤ cell
  lt : cell < m'.heap.arrays.size
  unchanged : ∀ {j}, j < m.heap.arrays.size → m'.heap.array j = m.heap.array j

theorem call_shallowCopy {I : Interp} (ha : arr.payload = .array id) :
    Native.shallowCopy.call I [arr] span m =
      .ok { arr with payload := .array m.heap.arrays.size } (m.withHeap (m.heap.newArray (m.heap.array id)).2) := by
  obtain ⟨payload, tags⟩ := arr
  cases ha
  rfl

/-- A copy of an array value that is put into a new cell. -/
abbrev copyOf (m : Machine) (arr : Value) : Value := { arr with payload := .array m.heap.arrays.size }

/-- The machine where the result has been declared as a copy. -/
abbrev copied (m : Machine) (F id : Nat) (arr : Value) : Machine :=
  m.withHeap ((m.heap.newArray (m.heap.array id)).2.bind F (some "out") (copyOf m arr) false)

section

variable {h₀ : Heap}

/-- The declaration of the result as a copy. -/
theorem stmt_declareCopy (hi : Inside L h₀ F known m.heap) (ha : known "arr" arr) (hcell : arr.payload = .array id) :
    (ofLevel (n + 2)).stmt (declareCopy p i) F m = .ok (copyOf m arr) (copied m F id arr) := by
  have hargs : (ofLevel (n + 1)).evalList F [ref p (i + 4) "arr"] m = .ok [arr] m :=
    evalList_cons (eval_ref hi.site.knows ha) rfl
  have hcopy : (ofLevel (n + 2)).eval (callNative p (i + 1) .shallowCopy [ref p (i + 4) "arr"]) F m =
      .ok (copyOf m arr) (m.withHeap (m.heap.newArray (m.heap.array id)).2) := by
    rw [callNative, eval_callMember hi.loaded hi.site.knows hi.native (by decide), bind_ok hargs]
    exact call_shallowCopy hcell
  exact stmt_declare hcopy (hi.site.adds (m.grown_newArray _).adds)

theorem copied_pushing (hi : Inside L h₀ F known m.heap) :
    Pushing L h₀ F (Binding "out" (copyOf m arr) known) "out" (copyOf m arr) m.heap.arrays.size
      (copied m F id arr) where
  toInside := (hi.later (m.grown_newArray _).adds).bind (by decide)
  array := .inl ⟨rfl, rfl⟩
  cell := rfl
  lt := by simp [Heap.bind, Heap.modifyFrame, Heap.newArray]

theorem array_copied (j : Nat) :
    (copied m F id arr).heap.array j = if j = m.heap.arrays.size then m.heap.array id else m.heap.array j :=
  m.heap.array_newArray _ j

end

theorem elementsOf?_array {h : Heap} (hv : v.payload = .array id) : h.elementsOf? v = some (h.array id).toList := by
  have hfollow : h.follow? v = some v := by
    rw [Heap.follow?, Heap.followIn?, hv]
  simp [Heap.elementsOf?, hfollow, Heap.pairs?, hv]

/-- What takes only an array accepts one. -/
theorem accepts_array {op : Operation} (hop : ∀ x ∈ op.furtherParameters, x.2 = none) (harr : arr.payload = .array id) :
    op.Accepts arr args := by
  intro q v hq
  obtain ⟨⟨x, i⟩, hx, he⟩ := List.mem_map.1 hq
  have he : x.2.map (·, (arr :: args).getD i .null) = some (q, v) := he
  obtain ⟨hpredicate, hfirst⟩ : x.2 = some .isArray ∧ i = 0 := by
    rw [Operation.parameters, List.zipIdx_cons, List.mem_cons] at hx
    obtain hx | hx := hx
    · cases hx
      exact ⟨rfl, rfl⟩
    · rw [hop x (List.fst_mem_of_mem_zipIdx hx)] at he
      cases he
  rw [hpredicate, hfirst] at he
  cases he
  simp [Predicate.accepts, Value.kind, harr, Payload.kind]

section

variable {f : Function} {m₁ : Machine}

/-- The arrays where the body of a function with a variadic parameter begins. -/
theorem Starts.array (hs : Starts L f p arr args m m₁) (hf : f.operation.isVariadic = true) (j : Nat) :
    m₁.heap.array j = if j = m.heap.arrays.size then args.toArray else m.heap.array j := by
  rw [Heap.array, hs.arrays, if_pos hf]
  exact m.heap.array_newArray args.toArray j

theorem Starts.size (hs : Starts L f p arr args m m₁) (hf : f.operation.isVariadic = true) :
    m₁.heap.arrays.size = m.heap.arrays.size + 1 := by
  rw [hs.arrays, if_pos hf, Array.size_push]

/-- The array of the call is pushed to where the body begins. -/
theorem Starts.pushing {d : Nat} (hs : Starts L f p arr args m m₁) (hl : L.LoadedIn m.heap)
    (hf : f.operation.isVariadic = true) (harr : arr.payload = .array id) (hid : id < m.heap.arrays.size) :
    Pushing L m.heap m.heap.frames.size (callKnown L f p arr args m) "arr" arr id (m₁.withDepth d) := by
  have hi : Inside L m.heap m.heap.frames.size (callKnown L f p arr args m) m₁.heap := hs.inside hl
  refine ⟨hi, callKnown_array, harr, ?_⟩
  show id < m₁.heap.arrays.size
  rw [hs.size hf]
  exact Nat.lt_succ_of_lt hid

/-- The name of the variadic parameter stands for the array of its arguments. -/
theorem callKnown_rest (hf : f.operation.isVariadic = true) :
    callKnown L f p arr args m variadicName (.plain (.array m.heap.arrays.size)) := by
  obtain ⟨op⟩ | ⟨op⟩ := f <;> cases op <;> first | exact .inl rfl | cases hf

end

/-- A body that ends with a value gives it. -/
theorem exec_last {name : Text} {j : Nat} {h₀ : Heap} (hi : Inside L h₀ F known m.heap) (hv : known name v) :
    (ofLevel (n + 2)).exec [run p i (ref p j name)] F m = .ok v m := by
  rw [exec_run]
  exact eval_ref hi.site.knows hv

/-! ## Results in a copy -/

section

variable {op : Operation} {m₁ m₂ : Machine} {k : Nat} {xs : List Value}

/-- What the copy holds that further elements have been appended to, in a call with a variadic parameter. -/
theorem newArray_of_appends (hs : Starts L (.plain op) p arr args m m₁) (hop : op.isVariadic = true)
    (hid : id < m.heap.arrays.size)
    (ha : (copied (m₁.withDepth (m.depth + 1)) m.heap.frames.size id arr).Appends m₁.heap.arrays.size xs m₂) :
    NewArray m (m₂.withDepth m.depth) (copyOf m₁ arr) m₁.heap.arrays.size ∧
      (m₂.heap.array m₁.heap.arrays.size).toList = (m.heap.array id).toList ++ xs := by
  have hsize := hs.size hop
  have hsizes : (copied (m₁.withDepth (m.depth + 1)) m.heap.frames.size id arr).heap.arrays.size =
      m₁.heap.arrays.size + 1 := by simp [Heap.bind, Heap.modifyFrame, Heap.newArray]
  refine ⟨⟨rfl, by omega, ?_, fun {j} hj => ?_⟩, ?_⟩
  · show _ < m₂.heap.arrays.size
    rw [ha.size, hsizes]
    exact Nat.lt_succ_self _
  · show m₂.heap.array j = _
    rw [ha.others j (by omega), array_copied, if_neg (by show j ≠ m₁.heap.arrays.size; omega), hs.array hop,
      if_neg (Nat.ne_of_lt hj)]
  · rw [ha.here, array_copied, if_pos rfl, hs.array hop, if_neg (Nat.ne_of_lt hid)]

end

/-! ## Pushing -/

/-- A call of `push` gives a copy with the arguments behind the elements. -/
theorem call_push (args : List Value) (hl : L.LoadedIn m.heap) (hd : m.depth + 1 < m.settings.callLimit.count)
    (harr : arr.payload = .array id) (hid : id < m.heap.arrays.size) :
    ∃ v m' k, (∀ span, (ofLevel (n + 10)).call (L.value (.plain .push)) (arr :: args) span m = .ok v m') ∧
      NewArray m m' v k ∧ (m'.heap.array k).toList = (m.heap.array id).toList ++ args := by
  obtain ⟨p, m₁, hs, hcall⟩ := call_library (.plain .push) hl hd (.inl rfl)
    (accepts_array (by decide) harr : Operation.Accepts _ arr args)
  have hi : Inside L m.heap m.heap.frames.size _ m₁.heap := hs.inside hl
  have hcopy := stmt_declareCopy (n := n + 6) (p := p) (i := 20) (m := m₁.withDepth (m.depth + 1)) hi callKnown_array harr
  have hpush : Pushing L m.heap m.heap.frames.size _ "out" _ _
      (copied (m₁.withDepth (m.depth + 1)) m.heap.frames.size id arr) := copied_pushing hi
  have hargs : (copied (m₁.withDepth (m.depth + 1)) m.heap.frames.size id arr).heap.elementsOf?
      (.plain (.array m.heap.arrays.size)) = some args := by
    have hsize := hs.size rfl
    rw [elementsOf?_array rfl, array_copied, if_neg (by show _ ≠ m₁.heap.arrays.size; omega), hs.array rfl, if_pos rfl]
  obtain ⟨m₂, hloop, happends⟩ := hpush.stmt_pushEach (n := n + 4) (p := p) (i := 30) (by decide)
    (.inr ⟨by decide, callKnown_rest rfl⟩) hargs
  obtain ⟨hnew, helements⟩ := newArray_of_appends hs rfl hid happends
  refine ⟨_, m₂.withDepth m.depth, _, fun span => ?_, hnew, helements⟩
  refine hcall span (.ok (copyOf m₁ arr)) m₂ (attempt_ok ?_)
  rw [Function.body, Operation.plainBody, exec_cons hcopy, exec_cons hloop]
  exact exec_last (n := n + 7) (hpush.appends happends).toInside (.inl ⟨rfl, rfl⟩)

/-- A call of `push!` puts the arguments behind the elements. -/
theorem call_pushInPlace (args : List Value) (hl : L.LoadedIn m.heap) (hd : m.depth + 1 < m.settings.callLimit.count)
    (harr : arr.payload = .array id) (hid : id < m.heap.arrays.size) :
    ∃ m', (∀ span, (ofLevel (n + 10)).call (L.value (.inPlace .push)) (arr :: args) span m = .ok arr m') ∧
      (m'.heap.array id).toList = (m.heap.array id).toList ++ args := by
  obtain ⟨p, m₁, hs, hcall⟩ := call_library (.inPlace .push) hl hd (.inl rfl)
    (accepts_array (by decide) harr : Operation.Accepts _ arr args)
  have hpush := hs.pushing (d := m.depth + 1) hl rfl harr hid
  have hargs : (m₁.withDepth (m.depth + 1)).heap.elementsOf? (.plain (.array m.heap.arrays.size)) = some args := by
    rw [elementsOf?_array rfl, hs.array rfl, if_pos rfl]
  obtain ⟨m₂, hloop, happends⟩ := hpush.stmt_pushEach (n := n + 4) (p := p) (i := 20) (by decide)
    (callKnown_rest rfl) hargs
  refine ⟨m₂.withDepth m.depth, fun span => ?_, ?_⟩
  · refine hcall span (.ok arr) m₂ (attempt_ok ?_)
    rw [Function.body, Operation.inPlaceBody, exec_cons hloop]
    exact exec_last (n := n + 7) (hpush.appends happends).toInside callKnown_array
  · exact happends.here.trans (by rw [hs.array rfl, if_neg (Nat.ne_of_lt hid)])

end ScriptEngine.ArrayLibrary

import ScriptEngine.Proofs.Arrays.Sorting
import ScriptEngine.Proofs.Eval.CallDepth

/-!
# Forms in place that replace

Seven of the forms in place call the plain form and give the array the elements of what it returns; `reverse!` does
the same with the native function.

* `call_inPlace`: what one of the seven does, by what the plain form does with a call to spare.
* `call_reverse`, `call_reverseInPlace`: both forms of `reverse` lead to the same elements.
-/

namespace ScriptEngine.ArrayLibrary

open Eval Interp

variable {L : Layout} {n F i k id : Nat} {m m' : Machine} {known : Text → Value → Prop} {p : Nat → Span}
  {arr v w : Value} {args : List Value} {span span' : Option Span} {I : Interp} {op : Operation}

namespace Operation

/-- Whether the form in place calls the plain form. -/
def replaces : Operation → Bool
  | push | concat | reverse => false
  | _ => true

/-- The arguments that the form in place passes on. -/
def passed (op : Operation) (args : List Value) : List Value :=
  op.furtherParameters.zipIdx.map fun x => args.getD x.2 .null

theorem inPlaceBody_of_replaces (hop : op.replaces = true) :
    op.inPlaceBody p = [run p 20 (callNative p 21 .replaceArray [ref p 24 "arr",
      callNamed p 25 op.name (op.parameters.zipIdx.map fun x => ref p (27 + x.2) x.1.1)])] := by
  cases op <;> first | rfl | cases hop

theorem not_isVariadic (hop : op.replaces = true) : op.isVariadic = false := by
  cases op <;> first | rfl | cases hop

theorem fits_passed : op.Fits (op.passed args) := .inr (by simp [passed])

theorem values_passed : op.values arr (op.passed args) = op.values arr args := by
  cases op <;> rfl

end Operation

theorem call_replaceArray (ha : arr.payload = .array id) (hv : v.payload = .array k) :
    Native.replaceArray.call I [arr, v] span m =
      .ok arr (m.withHeap (m.heap.modifyArray id fun _ => m.heap.array k)) := by
  obtain ⟨payload, tags⟩ := arr
  obtain ⟨payload', tags'⟩ := v
  cases ha
  cases hv
  rfl

/-- The plain form is known to the form in place. -/
theorem callKnown_plain : callKnown L (.inPlace op) p arr args m op.name (L.value (.plain op)) :=
  .inr ⟨by cases op <;> rfl, .function (.plain op)⟩

/-- The parameters of the form in place, evaluated. -/
theorem evalList_passed {m₁ : Machine} (hop : op.replaces = true)
    (hk : m₁.heap.Knows F (callKnown L (.inPlace op) p arr args m)) :
    (ofLevel (n + 1)).evalList F (op.parameters.zipIdx.map fun x => ref p (27 + x.2) x.1.1) m₁ =
      .ok (arr :: op.passed args) m₁ := by
  have hnil : (ofLevel (n + 1)).evalList F [] m₁ = .ok [] m₁ := rfl
  cases op <;> first
    | exact evalList_cons (eval_ref hk (.inl rfl)) (evalList_cons (eval_ref hk (.inl rfl)) hnil)
    | exact evalList_cons (eval_ref hk (.inl rfl)) (evalList_cons (eval_ref hk (.inl rfl))
        (evalList_cons (eval_ref hk (.inl rfl)) hnil))
    | cases hop

/-- A form in place that replaces gives the array the elements that the plain form gives with a call to spare. -/
theorem call_inPlace (hop : op.replaces = true) (hl : L.LoadedIn m.heap) (hm : m.Closed)
    (hd : m.depth + 2 < m.settings.callLimit.count) (harr : arr.payload = .array id)
    (h : (sparing 1 n).call (L.value (.plain op)) (arr :: args) span m = .ok v m')
    (hid : id < m'.heap.arrays.size) (hv : v.payload = .array k) :
    ∃ m'', (∀ span, (ofLevel (n + 14)).call (L.value (.inPlace op)) (arr :: args) span m = .ok arr m'') ∧
      m''.heap.array id = m'.heap.array k := by
  have hvariadic := Operation.not_isVariadic hop
  have hd₁ : m.depth + 1 < m.settings.callLimit.count := Nat.lt_of_succ_lt hd
  obtain ⟨-, hfits, haccepts⟩ := call_library_ok (.plain op) hl (call_of_sparing (Nat.le_add_right n 10) h)
  obtain ⟨p, m₁, hs, hcall⟩ := call_library (.inPlace op) hl hd₁ hfits (haccepts hd₁)
  have harrays₁ : m₁.heap.arrays = m.heap.arrays := by
    rw [hs.arrays, if_neg (by simp [Function.operation, hvariadic])]
  obtain ⟨fs, hfs⟩ : ∃ fs, m₁ = m.withHeap (m.heap.adding fs) := ⟨_, hs.grown.eq_adding harrays₁⟩
  obtain ⟨m₂, hm₂⟩ : ∃ m₂, m₂ = m₁.withDepth (m.depth + 1) := ⟨_, rfl⟩
  have hi : Inside L m.heap m.heap.frames.size (callKnown L (.inPlace op) p arr args m) m₂.heap := by
    have hinside := hs.inside hl
    rw [hm₂]
    exact hinside
  -- the plain form does at the body what it does at the call, one call deeper
  obtain ⟨m₃, hdeeper, harrays⟩ := hm.call_deeper (Nat.le_refl 1) (Nat.le_add_right n 10) h fs
  rw [← hfs, ← hm₂] at hdeeper
  have hplain : (ofLevel (n + 10)).call (L.value (.plain op)) (arr :: op.passed args) (some (p 25)) m₂ = .ok v m₃ := by
    refine call_congr (.plain op) hi.loaded ?_ (haccepts hd₁) hfits Operation.fits_passed Operation.values_passed ?_
      hdeeper
    · rw [hm₂, hfs]
      exact hd
    · simp [Function.operation, Operation.rest?, hvariadic]
  -- the body of the form in place
  have hargs : (ofLevel (n + 11)).evalList m.heap.frames.size [ref p 24 "arr",
      callNamed p 25 op.name (op.parameters.zipIdx.map fun x => ref p (27 + x.2) x.1.1)] m₂ = .ok [arr, v] m₃ :=
    evalList_cons (eval_ref hi.site.knows callKnown_array) <| evalList_cons
      ((eval_callNamed hi.site.knows callKnown_plain (evalList_passed hop hi.site.knows)).trans hplain) rfl
  have hexec : (ofLevel (n + 13)).exec ((Function.inPlace op).body p) m.heap.frames.size m₂ =
      .ok arr (m₃.withHeap (m₃.heap.modifyArray id fun _ => m₃.heap.array k)) := by
    rw [Function.body, Operation.inPlaceBody_of_replaces hop, exec_run, callNative,
      eval_callMember hi.loaded hi.site.knows hi.native (by decide), bind_ok hargs, call_replaceArray harr hv]
  rw [hm₂] at hexec
  refine ⟨_, fun span => hcall span (.ok arr) _ (attempt_ok hexec), ?_⟩
  show (m₃.heap.modifyArray id fun _ => m₃.heap.array k).array id = _
  rw [Heap.array_modifyArray, if_pos ⟨rfl, by rw [harrays]; exact hid⟩, Heap.array, harrays]
  rfl

/-! ## Reversing -/

theorem call_nativeReverse (ha : arr.payload = .array id) :
    Native.reverse.call I [arr] span m = .ok (.plain (.array m.heap.arrays.size))
      (m.withHeap (m.heap.newArray (m.heap.array id).toList.reverse.toArray).2) := by
  obtain ⟨payload, tags⟩ := arr
  cases ha
  rfl

section

variable {m₁ : Machine} {h₀ : Heap}

theorem eval_reverse (hi : Inside L h₀ F known m.heap) (ha : known "arr" arr) (harr : arr.payload = .array id) :
    (ofLevel (n + 2)).eval (callNative p i .reverse [ref p (i + 3) "arr"]) F m =
      .ok (.plain (.array m.heap.arrays.size))
        (m.withHeap (m.heap.newArray (m.heap.array id).toList.reverse.toArray).2) := by
  have hargs : (ofLevel (n + 1)).evalList F [ref p (i + 3) "arr"] m = .ok [arr] m :=
    evalList_cons (eval_ref hi.site.knows ha) rfl
  rw [callNative, eval_callMember hi.loaded hi.site.knows hi.native (by decide), bind_ok hargs]
  exact call_nativeReverse harr

/-- A call of `reverse` gives a new array with the elements backwards. -/
theorem call_reverse (hl : L.LoadedIn m.heap) (hd : m.depth + 1 < m.settings.callLimit.count)
    (harr : arr.payload = .array id) (hfits : Operation.reverse.Fits args) :
    ∃ v m' k, (∀ span, (ofLevel (n + 10)).call (L.value (.plain .reverse)) (arr :: args) span m = .ok v m') ∧
      NewArray m m' v k ∧ (m'.heap.array k).toList = (m.heap.array id).toList.reverse := by
  obtain ⟨p, m₁, hs, hcall⟩ := call_library (.plain .reverse) hl hd hfits
    (accepts_array (by decide) harr : Operation.Accepts _ arr args)
  have hi : Inside L m.heap m.heap.frames.size _ m₁.heap := hs.inside hl
  have harrays : m₁.heap.arrays = m.heap.arrays := hs.arrays
  have hbody := eval_reverse (n := n + 6) (p := p) (i := 21) (m := m₁.withDepth (m.depth + 1)) hi callKnown_array harr
  refine ⟨_, _, m.heap.arrays.size, fun span => hcall span (.ok _) _ (attempt_ok hbody), ?_, ?_⟩
  · refine ⟨by rw [harrays]; rfl, Nat.le_refl _, ?_, fun {j} hj => ?_⟩
    · show _ < (m₁.heap.newArray _).2.arrays.size
      simp [Heap.newArray, harrays]
    · show (m₁.heap.newArray _).2.array j = _
      rw [Heap.array_newArray, harrays, if_neg (Nat.ne_of_lt hj), Heap.array, harrays]
      rfl
  · show ((m₁.heap.newArray _).2.array _).toList = _
    rw [Heap.array_newArray, harrays, if_pos rfl, Heap.array, harrays]
    rfl

/-- A call of `reverse!` puts the elements backwards. -/
theorem call_reverseInPlace (hl : L.LoadedIn m.heap) (hd : m.depth + 1 < m.settings.callLimit.count)
    (harr : arr.payload = .array id) (hid : id < m.heap.arrays.size) (hfits : Operation.reverse.Fits args) :
    ∃ m', (∀ span, (ofLevel (n + 10)).call (L.value (.inPlace .reverse)) (arr :: args) span m = .ok arr m') ∧
      (m'.heap.array id).toList = (m.heap.array id).toList.reverse := by
  obtain ⟨p, m₁, hs, hcall⟩ := call_library (.inPlace .reverse) hl hd hfits
    (accepts_array (by decide) harr : Operation.Accepts _ arr args)
  have harrays : m₁.heap.arrays = m.heap.arrays := hs.arrays
  obtain ⟨m₂, hm₂⟩ : ∃ m₂, m₂ = m₁.withDepth (m.depth + 1) := ⟨_, rfl⟩
  have hi : Inside L m.heap m.heap.frames.size (callKnown L (.inPlace .reverse) p arr args m) m₂.heap := by
    have hinside := hs.inside hl
    rw [hm₂]
    exact hinside
  have hreverse := eval_reverse (n := n + 5) (p := p) (i := 25) hi callKnown_array harr
  obtain ⟨m₃, hm₃⟩ : ∃ m₃, m₃ = m₂.withHeap (m₂.heap.newArray (m₂.heap.array id).toList.reverse.toArray).2 := ⟨_, rfl⟩
  rw [← hm₃] at hreverse
  have hargs : (ofLevel (n + 7)).evalList m.heap.frames.size
      [ref p 24 "arr", callNative p 25 .reverse [ref p 28 "arr"]] m₂ = .ok [arr, .plain (.array m₂.heap.arrays.size)] m₃ :=
    evalList_cons (eval_ref hi.site.knows callKnown_array) (evalList_cons hreverse rfl)
  have hexec : (ofLevel (n + 9)).exec ((Function.inPlace .reverse).body p) m.heap.frames.size m₂ =
      .ok arr (m₃.withHeap (m₃.heap.modifyArray id fun _ => m₃.heap.array m₂.heap.arrays.size)) := by
    rw [Function.body, Operation.inPlaceBody, exec_run, callNative,
      eval_callMember hi.loaded hi.site.knows hi.native (by decide), bind_ok hargs]
    exact call_replaceArray harr rfl
  rw [hm₃] at hexec
  rw [hm₂] at hexec
  refine ⟨_, fun span => hcall span (.ok arr) _ (attempt_ok hexec), ?_⟩
  show (((m₁.heap.newArray _).2.modifyArray id fun _ => (m₁.heap.newArray _).2.array m₁.heap.arrays.size).array id).toList = _
  have hlt : id < (m₁.heap.newArray (m₁.heap.array id).toList.reverse.toArray).2.arrays.size := by
    simp only [Heap.newArray, Array.size_push, harrays]
    omega
  rw [Heap.array_modifyArray, if_pos ⟨rfl, hlt⟩, Heap.array_newArray, if_pos rfl, Heap.array, harrays]
  rfl

end

end ScriptEngine.ArrayLibrary

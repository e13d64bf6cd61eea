import ScriptEngine.Proofs.Arrays.Appending

/-!
# Concatenating

`concat` pushes what its arguments hold to a copy, `concat!` to the array itself.

* `call_concat`: the plain form gives the elements of the array and those of the arguments.
* `call_concatInPlace`: the form in place gives what `Heap.joined?` says.
* `Heap.joined?_eq`: both give the same elements unless the array is an argument after one that has elements
  (`Heap.Regrows`), for then it has grown when its turn comes.
-/

namespace ScriptEngine

namespace Heap

/-- The elements of some values one after another, if all of them have elements. -/
def elementsOfAll? (h : Heap) : List Value → Option (List Value)
  | [] => some []
  | v :: rest => (h.elementsOf? v).bind fun xs => (h.elementsOfAll? rest).map (xs ++ ·)

/-- An array is among some values after one that has elements. -/
def Regrows (h : Heap) (id : Nat) (vs : List Value) : Prop :=
  ∃ before v after, vs = before ++ v :: after ∧ h.LeadsTo v id ∧ ∃ w ∈ before, h.elementsOf? w ≠ some []

variable {h h' : Heap} {id : Nat} {v : Value} {vs items grown xs : List Value}

theorem leadsTo_congr (hr : h'.references = h.references) : h'.LeadsTo v id ↔ h.LeadsTo v id := by
  rw [LeadsTo, LeadsTo, follow?_congr hr]

theorem elementsOf?_of_leadsTo (hv : h.LeadsTo v id) : h.elementsOf? v = some (h.array id).toList := by
  obtain ⟨w, hf, hw⟩ := hv
  simp [elementsOf?, hf, pairs?, hw]

section

variable (hr : h'.references = h.references) (ho : h'.objects = h.objects)
  (ha : ∀ v ∈ vs, ∀ j, h.LeadsTo v j → h'.array j = h.array j)

include hr ho ha

theorem joined?_congr : h'.joined? id items vs = h.joined? id items vs := by
  induction vs generalizing items with
  | nil => rfl
  | cons v rest ih =>
    have hv : h'.elementsOf? v = h.elementsOf? v := elementsOf?_congr hr ho (ha v (.head _))
    simp only [joined?, leadsTo_congr hr, hv, ih fun w hw => ha w (.tail _ hw)]

end

/-- What is pushed to an array that is not among the values. -/
theorem joined?_of_not_leadsTo (hv : ∀ v ∈ vs, ¬h.LeadsTo v id) :
    h.joined? id items vs = (h.elementsOfAll? vs).map (items ++ ·) := by
  induction vs generalizing items with
  | nil => simp [joined?, elementsOfAll?]
  | cons v rest ih =>
    rw [joined?, elementsOfAll?, if_neg (hv v (.head _))]
    cases h.elementsOf? v with
    | none => rfl
    | some xs =>
      simp only [Option.bind_some, ih fun w hw => hv w (.tail _ hw), Option.map_map]
      exact congrArg (Option.map · _) (funext fun ys => List.append_assoc items xs ys)

/-- An array is among some values after it has grown, or after a value that has elements. -/
def Regrown (h : Heap) (id : Nat) (grown vs : List Value) : Prop :=
  ∃ before v after, vs = before ++ v :: after ∧ h.LeadsTo v id ∧
    (grown ≠ [] ∨ ∃ w ∈ before, h.elementsOf? w ≠ some [])

theorem regrown_cons (hv : h.elementsOf? v = some xs) :
    h.Regrown id grown (v :: vs) ↔ grown ≠ [] ∧ h.LeadsTo v id ∨ h.Regrown id (grown ++ xs) vs := by
  have hgrow {before : List Value} : (grown ≠ [] ∨ ∃ w ∈ v :: before, h.elementsOf? w ≠ some []) ↔
      (grown ++ xs ≠ [] ∨ ∃ w ∈ before, h.elementsOf? w ≠ some []) := by
    simp only [List.exists_mem_cons_iff, hv, ne_eq, Option.some.injEq, List.append_eq_nil_iff]
    tauto
  constructor
  · rintro ⟨before, w, after, hsplit, hw, hgrown⟩
    cases before with
    | nil =>
      cases hsplit
      exact .inl ⟨by simpa using hgrown, hw⟩
    | cons u before =>
      cases hsplit
      exact .inr ⟨before, w, after, rfl, hw, hgrow.1 hgrown⟩
  · rintro (⟨hgrown, hw⟩ | ⟨before, w, after, rfl, hw, hgrown⟩)
    · exact ⟨[], v, vs, rfl, hw, .inl hgrown⟩
    · exact ⟨v :: before, w, after, rfl, hw, hgrow.2 hgrown⟩

/-- What is pushed to an array one value after another has the elements that the values had before, unless the array
is among them after it has grown. -/
theorem joined?_grown (id : Nat) (grown : List Value) (hall : h.elementsOfAll? vs = some xs) :
    ∃ final, h.joined? id ((h.array id).toList ++ grown) vs = some final ∧
      ((h.array id).toList ++ grown ++ xs).length ≤ final.length ∧
      (final = (h.array id).toList ++ grown ++ xs ↔ ¬h.Regrown id grown vs) := by
  induction vs generalizing grown xs with
  | nil =>
    cases hall
    refine ⟨_, rfl, by simp, by simp [Regrown]⟩
  | cons v rest ih =>
    obtain ⟨ys, hv, zs, hrest, rfl⟩ : ∃ ys, h.elementsOf? v = some ys ∧ ∃ zs, h.elementsOfAll? rest = some zs ∧
        ys ++ zs = xs := by
      simpa [elementsOfAll?, Option.bind_eq_some_iff] using hall
    rw [regrown_cons hv, joined?]
    by_cases hlead : h.LeadsTo v id
    · obtain ⟨final, hfinal, hle, heq⟩ := ih (grown ++ ((h.array id).toList ++ grown)) hrest
      have hys : (h.array id).toList = ys := Option.some.inj ((elementsOf?_of_leadsTo hlead).symm.trans hv)
      refine ⟨final, ?_, ?_, ?_⟩
      · rw [if_pos hlead, Option.bind_some, List.append_assoc, hfinal]
      · simp only [List.length_append, hys] at hle ⊢
        omega
      · by_cases hgrown : grown = []
        · subst hgrown
          rw [hys] at heq ⊢
          simpa using heq
        · have hpos : 0 < grown.length := List.length_pos_of_ne_nil hgrown
          have hne : final ≠ (h.array id).toList ++ grown ++ (ys ++ zs) := by
            intro he
            rw [he] at hle
            simp only [List.length_append, hys] at hle
            omega
          exact ⟨fun he => absurd he hne, fun hno => absurd (.inl ⟨hgrown, hlead⟩) hno⟩
    · obtain ⟨final, hfinal, hle, heq⟩ := ih (grown ++ ys) hrest
      refine ⟨final, ?_, ?_, ?_⟩
      · rw [if_neg hlead, hv, Option.bind_some, List.append_assoc, hfinal]
      · simpa [List.append_assoc] using hle
      · simp only [← List.append_assoc, hlead, and_false, false_or] at heq ⊢
        exact heq

/-- The two forms lead to the same elements unless the array is an argument after one that has elements. -/
theorem joined?_eq (id : Nat) (hall : h.elementsOfAll? vs = some xs) :
    ∃ final, h.joined? id (h.array id).toList vs = some final ∧
      (final = (h.array id).toList ++ xs ↔ ¬h.Regrows id vs) := by
  obtain ⟨final, hfinal, -, heq⟩ := joined?_grown id [] hall
  refine ⟨final, ?_, ?_⟩
  · simpa using hfinal
  · simpa [Regrown, Regrows] using heq

end Heap

namespace ArrayLibrary

open Eval Interp

variable {L : Layout} {n id : Nat} {m m' : Machine} {arr v : Value} {args xs : List Value} {span : Option Span}

/-- The cells that some values lead to are there. -/
def Present (h : Heap) (vs : List Value) : Prop := ∀ v ∈ vs, ∀ id, h.LeadsTo v id → id < h.arrays.size

section

variable {p : Nat → Span} {f : Function} {m₁ : Machine}

/-- What the arguments of a call lead to is as it was where the body begins. -/
theorem Starts.array_args (hs : Starts L f p arr args m m₁) (hf : f.operation.isVariadic = true)
    (hargs : Present m.heap args) : ∀ v ∈ args, ∀ j, m.heap.LeadsTo v j → m₁.heap.array j = m.heap.array j := by
  intro v hv j hj
  rw [hs.array hf, if_neg (Nat.ne_of_lt (hargs v hv j hj))]

end

section

variable {p : Nat → Span} {m₁ : Machine}

/-- Where the loop over the arguments of `concat` begins, the copy is not among them. -/
theorem Starts.copied_concat (hs : Starts L (.plain .concat) p arr args m m₁) (hl : L.LoadedIn m.heap)
    (hid : id < m.heap.arrays.size) (hargs : Present m.heap args) {m₂ : Machine}
    (hm₂ : m₂ = copied (m₁.withDepth (m.depth + 1)) m.heap.frames.size id arr) :
    Pushing L m.heap m.heap.frames.size (Binding "out" (copyOf m₁ arr) (callKnown L (.plain .concat) p arr args m))
        "out" (copyOf m₁ arr) m₁.heap.arrays.size m₂ ∧
      m₂.heap.array m.heap.arrays.size = args.toArray ∧
      m₂.heap.joined? m₁.heap.arrays.size (m₂.heap.array m₁.heap.arrays.size).toList args =
        (m.heap.elementsOfAll? args).map ((m.heap.array id).toList ++ ·) := by
  have hi : Inside L m.heap m.heap.frames.size _ m₁.heap := hs.inside hl
  have hsize := hs.size rfl
  have hbefore (j : Nat) (hj : j < m₁.heap.arrays.size) : m₂.heap.array j = m₁.heap.array j := by
    rw [hm₂, array_copied, if_neg (Nat.ne_of_lt hj)]
  have hitems : (m₂.heap.array m₁.heap.arrays.size).toList = (m.heap.array id).toList := by
    rw [hm₂, array_copied, if_pos rfl, hs.array rfl, if_neg (Nat.ne_of_lt hid)]
  have hr : m₂.heap.references = m.heap.references := by
    rw [hm₂]
    exact hs.grown.references
  have ho : m₂.heap.objects = m.heap.objects := by
    rw [hm₂]
    exact hs.grown.objects
  refine ⟨?_, ?_, ?_⟩
  · rw [hm₂]
    exact copied_pushing (m := m₁.withDepth (m.depth + 1)) hi
  · rw [hbefore _ (by omega), hs.array rfl, if_pos rfl]
  · rw [hitems, Heap.joined?_congr hr ho fun v hv j hj => ?_, Heap.joined?_of_not_leadsTo fun v hv hlead => ?_]
    · have hlt := hargs v hv _ hlead
      omega
    · have hlt := hargs v hv j hj
      rw [hbefore j (by omega), hs.array_args rfl hargs v hv j hj]

end

section

variable (hl : L.LoadedIn m.heap) (hd : m.depth + 1 < m.settings.callLimit.count) (harr : arr.payload = .array id)
  (hid : id < m.heap.arrays.size) (hargs : Present m.heap args)

include hl hd harr hid hargs

/-- A call of `concat` gives a copy with the elements of the arguments behind its own. -/
theorem call_concat (hall : m.heap.elementsOfAll? args = some xs) :
    ∃ v m' k, (∀ span, (ofLevel (n + 10)).call (L.value (.plain .concat)) (arr :: args) span m = .ok v m') ∧
      NewArray m m' v k ∧ (m'.heap.array k).toList = (m.heap.array id).toList ++ xs := by
  obtain ⟨p, m₁, hs, hcall⟩ := call_library (.plain .concat) hl hd (.inl rfl)
    (accepts_array (by decide) harr : Operation.Accepts _ arr args)
  have hi : Inside L m.heap m.heap.frames.size _ m₁.heap := hs.inside hl
  have hcopy := stmt_declareCopy (n := n + 6) (p := p) (i := 20) (m := m₁.withDepth (m.depth + 1)) hi callKnown_array harr
  obtain ⟨m₂, hm₂⟩ : ∃ m₂, m₂ = copied (m₁.withDepth (m.depth + 1)) m.heap.frames.size id arr := ⟨_, rfl⟩
  obtain ⟨hpush, hrest, hjoined⟩ := hs.copied_concat hl hid hargs hm₂
  rw [hall] at hjoined
  obtain ⟨m₃, zs, hloop, happends, hfinal⟩ := hpush.stmt_pushElements (n := n + 2) (p := p) (i := 30) (by decide)
    (by decide) (.inr ⟨by decide, callKnown_rest rfl⟩) rfl hrest hjoined
  have hlast := exec_last (n := n + 7) (p := p) (i := 50) (j := 51) (hpush.appends happends).toInside (.inl ⟨rfl, rfl⟩)
  rw [hm₂] at hloop happends
  refine ⟨_, m₃.withDepth m.depth, _, fun span => hcall span (.ok (copyOf m₁ arr)) m₃ (attempt_ok ?_),
    (newArray_of_appends hs rfl hid happends).1, hfinal⟩
  rw [Function.body, Operation.plainBody, exec_cons hcopy, exec_cons hloop]
  exact hlast

/-- A call of `concat` gives something only if all the arguments have elements. -/
theorem elementsOfAll?_of_call (h : (ofLevel (n + 10)).call (L.value (.plain .concat)) (arr :: args) span m = .ok v m') :
    ∃ xs, m.heap.elementsOfAll? args = some xs := by
  cases hall : m.heap.elementsOfAll? args with
  | some xs => exact ⟨xs, rfl⟩
  | none =>
    -- the loop over the arguments ends by an error, and so does the call
    obtain ⟨p, m₁, hs, hcall⟩ := call_library (.plain .concat) hl hd (.inl rfl)
      (accepts_array (by decide) harr : Operation.Accepts _ arr args)
    have hi : Inside L m.heap m.heap.frames.size _ m₁.heap := hs.inside hl
    have hcopy := stmt_declareCopy (n := n + 6) (p := p) (i := 20) (m := m₁.withDepth (m.depth + 1)) hi callKnown_array harr
    obtain ⟨hpush, hrest, hjoined⟩ := hs.copied_concat hl hid hargs rfl
    rw [hall] at hjoined
    obtain ⟨e, m₃, hloop, he⟩ := hpush.stmt_pushElements_error (n := n + 2) (p := p) (i := 30) (by decide)
      (by decide) (.inr ⟨by decide, callKnown_rest rfl⟩) rfl hrest hjoined
    have hbody : ((ofLevel (n + 9)).exec ((Function.plain .concat).body p) m.heap.frames.size).EndsBy
        (m₁.withDepth (m.depth + 1)) (.error e) m₃ := by
      refine attempt_error ?_
      rw [Function.body, Operation.plainBody, exec_cons hcopy]
      exact bind_error hloop
    obtain ⟨e', hfail, -⟩ := bodyResult_error he
    cases ((hcall span _ _ hbody).trans hfail).symm.trans h

end

/-- A call of `concat!` puts what the arguments hold when their turn comes behind the elements. -/
theorem call_concatInPlace {final : List Value} (hl : L.LoadedIn m.heap)
    (hd : m.depth + 1 < m.settings.callLimit.count)
    (harr : arr.payload = .array id) (hid : id < m.heap.arrays.size) (hargs : Present m.heap args)
    (hfinal : m.heap.joined? id (m.heap.array id).toList args = some final) :
    ∃ m', (∀ span, (ofLevel (n + 10)).call (L.value (.inPlace .concat)) (arr :: args) span m = .ok arr m') ∧
      (m'.heap.array id).toList = final := by
  obtain ⟨p, m₁, hs, hcall⟩ := call_library (.inPlace .concat) hl hd (.inl rfl)
    (accepts_array (by decide) harr : Operation.Accepts _ arr args)
  have hpush := hs.pushing (d := m.depth + 1) hl rfl harr hid
  have hrest : (m₁.withDepth (m.depth + 1)).heap.array m.heap.arrays.size = args.toArray := by
    rw [hs.array rfl, if_pos rfl]
  have hjoined : (m₁.withDepth (m.depth + 1)).heap.joined? id
      ((m₁.withDepth (m.depth + 1)).heap.array id).toList args = some final := by
    rw [hs.array rfl, if_neg (Nat.ne_of_lt hid), ← hfinal]
    exact Heap.joined?_congr hs.grown.references hs.grown.objects (hs.array_args rfl hargs)
  obtain ⟨m₂, zs, hloop, happends, hresult⟩ := hpush.stmt_pushElements (n := n + 2) (p := p) (i := 20) (by decide)
    (by decide) (callKnown_rest rfl) rfl hrest hjoined
  refine ⟨m₂.withDepth m.depth, fun span => ?_, hresult⟩
  refine hcall span (.ok arr) m₂ (attempt_ok ?_)
  rw [Function.body, Operation.inPlaceBody, exec_cons hloop]
  exact exec_last (n := n + 7) (hpush.appends happends).toInside callKnown_array

end ArrayLibrary

end ScriptEngine

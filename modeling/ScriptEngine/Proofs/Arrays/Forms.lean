import ScriptEngine.Proofs.Arrays.Concatenating
import ScriptEngine.Proofs.Arrays.InPlace
import ScriptEngine.Proofs.Session.Started

/-!
# The two forms of an operation

* `newArray_of_call`: the plain form gives a new array.
* `inPlace_of_replaces`, `inPlace_of_own`: what the form in place leads to, by whether it calls the plain form.
* `forms_agree`: the form in place leaves the array with the elements of the new one, unless `concat!` comes to the
  array as an argument after it has grown.
* `forms_differ_concat_twice`: with the array twice among its arguments, `concat!` comes to it so.
-/

namespace ScriptEngine.ArrayLibrary

open Eval Interp

variable {L : Layout} {n id k : Nat} {m m' : Machine} {arr v : Value} {args : List Value} {span : Option Span}
  {op : Operation}

theorem Fresh.newArray (h : Fresh m.heap v m') : ∃ k, NewArray m m' v k := by
  obtain ⟨k, hv, hk, hlt⟩ := h.cell
  exact ⟨k, hv, hk, hlt, h.kept.array⟩

/-- The bodies of the plain forms but those that append give new arrays. -/
theorem leads_plainBody {p : Nat → Span} {m₁ : Machine} (hop : op.isVariadic = false) (hl : L.LoadedIn m.heap)
    (hd : m.depth + 2 < m.settings.callLimit.count) (harr : arr.payload = .array id)
    (hf : op.takesCallback = true → ∀ f ∈ args, m.heap.Effectless f) (ha : op.Accepts arr args)
    (hs : Starts L (.plain op) p arr args m m₁) :
    ((ofLevel (n + 12)).exec (op.plainBody p) m.heap.frames.size).Leads (m₁.withDepth (m.depth + 1)) (Fresh m.heap)
      (Fresh m.heap) := by
  have hslice (es : List Expr) (hes : ∀ e ∈ es, OnlyReads e) := leads_sliceBody (n := n + 9) (d := m.depth + 1)
    (R := Fresh m.heap) hl hs harr hes
  cases op with
  | push | concat => cases hop
  | skip => exact hslice _ (List.forall_mem_singleton.2 onlyReads_ref)
  | slice => exact hslice _ (List.forall_mem_cons.2 ⟨onlyReads_ref, List.forall_mem_singleton.2 onlyReads_ref⟩)
  | take => exact hslice _ (List.forall_mem_cons.2 ⟨.literal _ _, List.forall_mem_singleton.2 onlyReads_ref⟩)
  | map => exact leads_map hl (hf rfl) hs
  | filter => exact leads_filter hl (hf rfl) hs
  | reverse =>
    have hi : Inside L m.heap m.heap.frames.size _ m₁.heap := hs.inside hl
    have hbody := eval_reverse (n := n + 9) (p := p) (i := 21) (m := m₁.withDepth (m.depth + 1)) hi callKnown_array harr
    exact leads_of_ok hbody
      ⟨hs.kept.trans (Heap.extends_newArray _ _), _, rfl, hs.kept.arrays_le, by simp [Heap.newArray]⟩
  | remove => exact leads_remove hl hd ha hs
  | sort => exact leads_sort hl (hf rfl) harr hs

/-- A plain form that succeeds gives a new array and leaves the others as they were. -/
theorem newArray_of_call (hl : L.LoadedIn m.heap) (hd : m.depth + 2 < m.settings.callLimit.count)
    (harr : arr.payload = .array id) (hid : id < m.heap.arrays.size) (hargs : Present m.heap args)
    (hf : op.takesCallback = true → ∀ f ∈ args, m.heap.Effectless f)
    (h : (ofLevel (n + 13)).call (L.value (.plain op)) (arr :: args) span m = .ok v m') : ∃ k, NewArray m m' v k := by
  have hd₁ : m.depth + 1 < m.settings.callLimit.count := Nat.lt_of_succ_lt hd
  cases hop : op.isVariadic with
  | false =>
    obtain ⟨-, hfits, haccepts⟩ := call_library_ok (n := n + 3) (.plain op) hl h
    have hlead : ((ofLevel (n + 13)).call (L.value (.plain op)) (arr :: args) span).Leads m (Fresh m.heap)
        fun _ _ => False :=
      leads_plain hl hd₁ hfits (haccepts hd₁) fun hs => leads_plainBody hop hl hd harr hf (haccepts hd₁) hs
    exact (hlead.gives h).newArray
  | true =>
    cases op with
    | push =>
      obtain ⟨w, m₁, k, hcall, hnew, -⟩ := call_push (n := n + 3) args hl hd₁ harr hid
      cases (hcall span).symm.trans h
      exact ⟨k, hnew⟩
    | concat =>
      obtain ⟨xs, hall⟩ := elementsOfAll?_of_call (n := n + 3) hl hd₁ harr hid hargs h
      obtain ⟨w, m₁, k, hcall, hnew, -⟩ := call_concat (n := n + 3) hl hd₁ harr hid hargs hall
      cases (hcall span).symm.trans h
      exact ⟨k, hnew⟩
    | _ => cases hop

/-- The setting of a call of an operation with an array: the prelude is there, calls may nest four deep, and the
arguments lead to cells that are there. What is called has no effects. -/
structure Operation.Called (op : Operation) (m : Machine) (arr : Value) (id : Nat) (args : List Value) : Prop where
  prelude : m.HasPrelude
  closed : m.Closed
  depth : m.depth + 3 < m.settings.callLimit.count
  array : arr.payload = .array id
  lt : id < m.heap.arrays.size
  present : Present m.heap args
  effectless : op.takesCallback = true → ∀ f ∈ args, m.heap.Effectless f

/-- A form in place that replaces leads to the elements that the plain form gives. -/
theorem inPlace_of_replaces (hop : op.replaces = true) (hl : L.LoadedIn m.heap) (hc : op.Called m arr id args)
    (h : (sparing 1 n).call (L.value (.plain op)) (arr :: args) span m = .ok v m') :
    ∃ k m'', NewArray m m' v k ∧
      (∀ span, Settles (fun n => (ofLevel n).call (L.value (.inPlace op)) (arr :: args) span) m (.ok arr m'')) ∧
      m''.heap.array id = m'.heap.array k := by
  have hd : m.depth + 2 < m.settings.callLimit.count := Nat.lt_of_succ_lt hc.depth
  obtain ⟨k, hnew⟩ := newArray_of_call hl hd hc.array hc.lt hc.present hc.effectless
    (call_of_sparing (Nat.le_add_right n 13) h)
  have hid : id < m'.heap.arrays.size := Nat.lt_trans (Nat.lt_of_lt_of_le hc.lt hnew.new) hnew.lt
  obtain ⟨m'', hcall, hitems⟩ := call_inPlace hop hl hc.closed hd hc.array h hid hnew.payload
  exact ⟨k, m'', hnew, fun span => settles_call_of_ok (hcall span), hitems⟩

/-- A form in place with a body of its own leads to the elements that the plain form gives, unless it is `concat!` and
comes to the array as an argument after it has grown. -/
theorem inPlace_of_own (hop : op.replaces = false) (hl : L.LoadedIn m.heap) (hc : op.Called m arr id args)
    (h : (ofLevel (n + 13)).call (L.value (.plain op)) (arr :: args) span m = .ok v m') :
    ∃ k m'', NewArray m m' v k ∧
      (∀ span, Settles (fun n => (ofLevel n).call (L.value (.inPlace op)) (arr :: args) span) m (.ok arr m'')) ∧
      (m''.heap.array id = m'.heap.array k ↔ ¬ (op = .concat ∧ m.heap.Regrows id args)) := by
  have hd : m.depth + 1 < m.settings.callLimit.count := by
    have := hc.depth
    omega
  cases op with
  | push =>
    obtain ⟨w, m₁, k, hplain, hnew, hitems⟩ := call_push (n := n + 3) args hl hd hc.array hc.lt
    cases (hplain span).symm.trans h
    obtain ⟨m'', hcall, hitems'⟩ := call_pushInPlace (n := n + 7) args hl hd hc.array hc.lt
    exact ⟨k, m'', hnew, fun span => settles_call_of_ok (hcall span), fun _ => nofun,
      fun _ => Array.ext' (hitems'.trans hitems.symm)⟩
  | concat =>
    obtain ⟨xs, hall⟩ := elementsOfAll?_of_call (n := n + 3) hl hd hc.array hc.lt hc.present h
    obtain ⟨w, m₁, k, hplain, hnew, hitems⟩ := call_concat (n := n + 3) hl hd hc.array hc.lt hc.present hall
    cases (hplain span).symm.trans h
    obtain ⟨final, hfinal, hiff⟩ := Heap.joined?_eq id hall
    obtain ⟨m'', hcall, hitems'⟩ := call_concatInPlace (n := n + 7) hl hd hc.array hc.lt hc.present hfinal
    refine ⟨k, m'', hnew, fun span => settles_call_of_ok (hcall span), ?_⟩
    rw [← Array.toList_inj, hitems, hitems', hiff]
    simp
  | reverse =>
    obtain ⟨-, hfits, -⟩ := call_library_ok (n := n + 3) (.plain .reverse) hl h
    obtain ⟨w, m₁, k, hplain, hnew, hitems⟩ := call_reverse (n := n + 3) hl hd hc.array hfits
    cases (hplain span).symm.trans h
    obtain ⟨m'', hcall, hitems'⟩ := call_reverseInPlace (n := n + 7) hl hd hc.array hc.lt hfits
    exact ⟨k, m'', hnew, fun span => settles_call_of_ok (hcall span), fun _ => nofun,
      fun _ => Array.ext' (hitems'.trans hitems.symm)⟩
  | _ => cases hop

/-- Scripts find the two forms of an operation as members of `Array`. Where the plain form succeeds and leaves a call
to spare, it gives a new array, and the form in place succeeds from the same machine with the array itself, which then
has the elements of the new one, unless `concat!` comes to the array as an argument after it has grown. -/
theorem forms_agree (op : Operation) (hc : op.Called m arr id args) :
    ∃ plain inPlace, m.heap.globalMember "Array" op.name = .ok plain ∧
      m.heap.globalMember "Array" (op.name ++ "!") = .ok inPlace ∧
      ∀ {n span v m'}, (sparing 1 n).call plain (arr :: args) span m = .ok v m' →
        (ofLevel n).call plain (arr :: args) span m = .ok v m' ∧ ∃ k m'', NewArray m m' v k ∧
          (∀ span, Settles (fun n => (ofLevel n).call inPlace (arr :: args) span) m (.ok arr m'')) ∧
          (m''.heap.array id = m'.heap.array k ↔ ¬ (op = .concat ∧ m.heap.Regrows id args)) := by
  obtain ⟨L, hl, hnames, -⟩ := hc.prelude.arrayLibrary
  refine ⟨_, _, hnames (.plain op), hnames (.inPlace op), fun {n span v m'} h => ?_⟩
  refine ⟨call_of_sparing (Nat.le_refl n) h, ?_⟩
  cases hop : op.replaces with
  | true =>
    obtain ⟨k, m'', hnew, hcall, hitems⟩ := inPlace_of_replaces hop hl hc h
    have hne : op ≠ .concat := by
      rintro rfl
      cases hop
    exact ⟨k, m'', hnew, hcall, fun _ he => hne he.1, fun _ => hitems⟩
  | false => exact inPlace_of_own hop hl hc (call_of_sparing (Nat.le_add_right n 13) h)

/-! ## Concatenating an array with itself -/

theorem leadsTo_array {h : Heap} {j : Nat} : h.LeadsTo (.plain (.array id)) j ↔ j = id := by
  have hfollow : h.follow? (.plain (.array id)) = some (.plain (.array id)) := by
    rw [Heap.follow?, Heap.followIn?]
    rfl
  constructor
  · rintro ⟨w, hw, hj⟩
    rw [hfollow] at hw
    cases hw
    cases hj
    rfl
  · rintro rfl
    exact ⟨_, hfollow, rfl⟩

section

variable {items : Array Value} {count : Nat}

/-- A call of `concat` with an array and copies of it. -/
theorem called_concat (hm : m.ReadyWith id items) (count : Nat) :
    Operation.concat.Called m (.plain (.array id)) id (List.replicate count (.plain (.array id))) where
  prelude := hm.prelude
  closed := hm.closed
  depth := hm.lt_limit (by decide)
  array := rfl
  lt := hm.lt
  present v hv j hj := by
    rw [List.eq_of_mem_replicate hv, leadsTo_array] at hj
    exact hj ▸ hm.lt
  effectless := nofun

theorem elementsOfAll?_copies (hm : m.ReadyWith id items) (count : Nat) :
    m.heap.elementsOfAll? (List.replicate count (.plain (.array id))) =
      some (List.replicate count items.toList).flatten := by
  induction count with
  | zero => rfl
  | succ n ih =>
    have hitems : m.heap.elementsOf? (.plain (.array id)) = some items.toList :=
      (elementsOf?_array rfl).trans (by rw [hm.items])
    rw [List.replicate_succ, Heap.elementsOfAll?, hitems, ih]
    rfl

/-- The plain form gives the elements once more for each copy, with a call to spare. -/
theorem call_concat_copies (hm : m.ReadyWith id items) (count : Nat) {plain : Value}
    (hplain : m.heap.globalMember "Array" "concat" = .ok plain) :
    ∃ v m', (sparing 1 13).call plain (.plain (.array id) :: List.replicate count (.plain (.array id))) none m =
        .ok v m' ∧
      m'.heap.elementsOf? v = some (items.toList ++ (List.replicate count items.toList).flatten) := by
  obtain ⟨L, hl, hnames, -⟩ := hm.prelude.arrayLibrary
  cases (hnames (.plain .concat)).symm.trans hplain
  have hc := called_concat hm count
  obtain ⟨v, m', k, hcall, hnew, hitems⟩ := call_concat (n := 3) hl (hm.lt_limit (by decide)) hc.array hc.lt hc.present
    (elementsOfAll?_copies hm count)
  have hspares : m.depth + 13 + 1 ≤ m.settings.callLimit.count := by
    rw [hm.depth, hm.limit]
    decide
  refine ⟨v, m', (sparing_call_eq hspares _ _ _).trans (hcall none), ?_⟩
  rw [elementsOf?_array hnew.payload, hitems, hm.items]

end

/-- `Array.concat!(a, a)` where `a` is `[1, 2]` -/
theorem forms_agree_concat_itself :
    ∃ (m : Machine) (id : Nat), m.HasPrelude ∧ m.heap.array id = #[.number 1, .number 2] ∧
      ∃ plain inPlace, m.heap.globalMember "Array" "concat" = .ok plain ∧
        m.heap.globalMember "Array" "concat!" = .ok inPlace ∧ ∃ n v m' k m'',
          (ofLevel n).call plain [.plain (.array id), .plain (.array id)] none m = .ok v m' ∧ NewArray m m' v k ∧
          Settles (fun n => (ofLevel n).call inPlace [.plain (.array id), .plain (.array id)] none) m
            (.ok (.plain (.array id)) m'') ∧
          m''.heap.array id = m'.heap.array k := by
  obtain ⟨m, id, hm⟩ := Session.exists_readyWith #[.number 1, .number 2]
  obtain ⟨plain, inPlace, hplain, hinPlace, hagree⟩ := forms_agree .concat (called_concat hm 1)
  obtain ⟨v, m', hspared, -⟩ := call_concat_copies hm 1 hplain
  obtain ⟨hcall, k, m'', hnew, hcall', hiff⟩ := hagree hspared
  refine ⟨m, id, hm.prelude, hm.items, plain, inPlace, hplain, hinPlace, 13, v, m', k, m'', hcall, hnew, hcall' none,
    hiff.2 ?_⟩
  rintro ⟨-, before, u, after, hsplit, -, w, hw, -⟩
  -- the only argument has none before it
  obtain - | ⟨x, before⟩ := before
  · cases hw
  · simp at hsplit

/-- In `Array.concat!(a, a, a)` the second `a` among the arguments has grown when its turn comes. -/
theorem forms_differ_concat_twice :
    ¬ ∀ (op : Operation) (m : Machine) (arr : Value) (id : Nat) (args : List Value), op.Called m arr id args →
      ∃ plain inPlace, m.heap.globalMember "Array" op.name = .ok plain ∧
        m.heap.globalMember "Array" (op.name ++ "!") = .ok inPlace ∧
        ∀ {n span v m'}, (sparing 1 n).call plain (arr :: args) span m = .ok v m' → ∃ k m'', NewArray m m' v k ∧
          (∀ span, Settles (fun n => (ofLevel n).call inPlace (arr :: args) span) m (.ok arr m'')) ∧
          m''.heap.array id = m'.heap.array k := by
  intro hall
  obtain ⟨m, id, hm⟩ := Session.exists_readyWith #[.number 1, .number 2]
  have hc := called_concat hm 2
  obtain ⟨plain, inPlace, hplain, hinPlace, hagree⟩ := hall _ _ _ _ _ hc
  obtain ⟨v, m', hspared, hv⟩ := call_concat_copies hm 2 hplain
  obtain ⟨k, m'', hnew, hcall, hitems⟩ := hagree hspared
  have hjoined : m.heap.joined? id (m.heap.array id).toList (List.replicate 2 (.plain (.array id))) =
      some [.number 1, .number 2, .number 1, .number 2, .number 1, .number 2, .number 1, .number 2] := by
    simp [Heap.joined?, leadsTo_array, hm.items]
  obtain ⟨L, hl, hnames, -⟩ := hm.prelude.arrayLibrary
  cases (hnames (.inPlace .concat)).symm.trans hinPlace
  obtain ⟨m₂, hcall₂, hitems₂⟩ :=
    call_concatInPlace (n := 0) hl (hm.lt_limit (by decide)) hc.array hc.lt hc.present hjoined
  cases (hcall none).unique (settles_call_of_ok (hcall₂ none))
  rw [elementsOf?_array hnew.payload, ← hitems, hitems₂] at hv
  exact absurd (congrArg (Option.map List.length) hv) (by decide)

end ScriptEngine.ArrayLibrary

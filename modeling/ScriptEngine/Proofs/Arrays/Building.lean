import ScriptEngine.Proofs.Arrays.Appending

/-!
# Plain forms that build

What a call of a plain form leads to: an array that was not there before, with everything that was there as it was
(`Fresh`). The body changes nothing but its result.

* `Building`: a place in a body where the result has been declared, with rules for its steps and loops.
* `leads_plain`: a call leads to a new array if the body does.
* `leads_map`, `leads_filter`, `leads_remove`, `leads_sliceBody`: the bodies do.
-/

namespace ScriptEngine

/-- What a heap has is as it was in a later heap, but for arrays that an earlier one did not have. -/
structure Heap.Builds (h₀ h h' : Heap) : Prop extends h.Adds h' where
  kept : h₀.Extends h'
  arrays_le : h.arrays.size ≤ h'.arrays.size

namespace Heap.Builds

variable {h₀ h h' h'' : Heap}

theorem refl (hh : h₀.Extends h) : h₀.Builds h h := ⟨.refl h, hh, Nat.le_refl _⟩

theorem trans (hb : h₀.Builds h h') (hb' : h₀.Builds h' h'') : h₀.Builds h h'' :=
  ⟨hb.toAdds.trans hb'.toAdds, hb'.kept, Nat.le_trans hb.arrays_le hb'.arrays_le⟩

theorem grow (hb : h₀.Builds h h') (he : h'.Extends h'') : h₀.Builds h h'' :=
  ⟨hb.toAdds.trans he.toAdds, hb.kept.trans he, Nat.le_trans hb.arrays_le he.arrays_le⟩

/-- An array may be changed that the earlier heap did not have. -/
theorem modifyArray {k : Nat} (hb : h₀.Builds h h') (hk : h₀.arrays.size ≤ k) (g : Array Value → Array Value) :
    h₀.Builds h (h'.modifyArray k g) where
  toAdds := ⟨hb.objects_le, hb.object, hb.closure, hb.frames_le, hb.frame⟩
  kept := hb.kept.modifyArray hk g
  arrays_le := by simpa [Heap.modifyArray] using hb.arrays_le

end Heap.Builds

namespace ArrayLibrary

open Eval Interp

variable {L : Layout} {n F i j k : Nat} {m m' : Machine} {known : Text → Value → Prop} {p : Nat → Span}
  {arr v w out item : Value} {args : List Value} {span : Option Span} {h₀ h h' : Heap} {R : Value → Machine → Prop}
  {name source : Text} {e test : Expr} {body : List Stmt} {I : Interp} {s : Span}

/-- A value is an array that a heap did not have, and what the heap has is as it was. -/
structure Fresh (h₀ : Heap) (v : Value) (m : Machine) : Prop where
  kept : h₀.Extends m.heap
  cell : ∃ k, v.payload = .array k ∧ h₀.arrays.size ≤ k ∧ k < m.heap.arrays.size

/-- A place in the body of a function that was called where the heap was `h₀`: what it had is as it was, and the
name of the result stands for an array that it did not have. -/
structure Building (L : Layout) (h₀ : Heap) (F : Nat) (known : Text → Value → Prop) (out : Value) (k : Nat)
    (h : Heap) : Prop extends Inside L h₀ F known h where
  kept : h₀.Extends h
  result : known "out" out
  cell : out.payload = .array k
  new : h₀.arrays.size ≤ k
  lt : k < h.arrays.size

namespace Building

theorem later (hb : Building L h₀ F known out k h) (hh : h₀.Builds h h') : Building L h₀ F known out k h' :=
  ⟨hb.toInside.later hh.toAdds, hh.kept, hb.result, hb.cell, hb.new, Nat.lt_of_lt_of_le hb.lt hh.arrays_le⟩

theorem fresh (hb : Building L h₀ F known out k m.heap) : Fresh h₀ out m :=
  ⟨hb.kept, k, hb.cell, hb.new, hb.lt⟩

/-- The result has been declared as a new array. -/
theorem of_declared (hi : Inside L h₀ F known m.heap) (hkept : h₀.Extends m.heap) (items : Array Value)
    (hout : out.payload = .array m.heap.arrays.size) :
    Building L h₀ F (Binding "out" out known) out m.heap.arrays.size
      ((m.heap.newArray items).2.bind F (some "out") out false) where
  toInside := (hi.later (m.grown_newArray _).adds).bind (by decide)
  kept := (hkept.trans (Heap.extends_newArray _ _)).bind hi.outer
  result := .inl ⟨rfl, rfl⟩
  cell := hout
  new := hkept.arrays_le
  lt := by simp [Heap.bind, Heap.modifyFrame, Heap.newArray]

/-- A frame inside that of the body. -/
theorem child {fr : Frame} (hb : Building L h₀ F known out k h) (hp : fr.parent = some F) (hpure : fr.isPure = false)
    (hc : fr.constants = []) (hnative : fr.bindings.get? (some "native") = none)
    (hout : fr.bindings.get? (some "out") = none) :
    Building L h₀ h.frames.size (fr.Knowing known) out k (h.adding [fr]) where
  toInside := hb.toInside.child hp hpure hc hnative
  kept := hb.kept.trans (Heap.extends_adding _ _)
  result := .inr ⟨hout, hb.result⟩
  cell := hb.cell
  new := hb.new
  lt := hb.lt

end Building

/-! ## Steps -/

theorem onlyReads_ref : OnlyReads (ref p i name) := .name _ _

theorem leads_exec_cons {st t : Stmt} {rest : List Stmt} {Q P : Value → Machine → Prop}
    (hs : ((ofLevel n).stmt st F).Leads m Q R)
    (hrest : ∀ v m', Q v m' → ((ofLevel (n + 1)).exec (t :: rest) F).Leads m' P R) :
    ((ofLevel (n + 1)).exec (st :: t :: rest) F).Leads m P R :=
  hs.bind hrest

theorem Leads.since {x : Eval Value} (hm : h₀.Builds h m.heap)
    (hx : x.Leads m (fun _ m' => h₀.Builds m.heap m'.heap) R) : x.Leads m (fun _ m' => h₀.Builds h m'.heap) R :=
  hx.mono (fun _ _ h' => hm.trans h') fun _ _ h' => h'

section

variable (hb : Building L h₀ F known out k m.heap)

include hb

theorem leads_reads (he : OnlyReads e) : ((ofLevel n).eval e F).Leads m (fun _ m' => h₀.Builds m.heap m'.heap) R :=
  (leads_eval (.refl _) he _ _).mono (fun _ _ h' => (Heap.Builds.refl hb.kept).grow h') fun _ _ h' => h'

/-- Pushing to the result. -/
theorem leads_pushOne (he : ((ofLevel (n + 1)).eval e F).Leads m (fun _ m' => h₀.Builds m.heap m'.heap) R) :
    ((ofLevel (n + 3)).exec [pushOne p i "out" e] F).Leads m (fun _ m' => h₀.Builds m.heap m'.heap) R := by
  have hout : (ofLevel (n + 1)).eval (ref p (i + 4) "out") F m = .ok out m := eval_ref hb.site.knows hb.result
  have hitem : ((ofLevel (n + 1)).evalList F [e]).Leads m
      (fun vs m' => (∃ w, vs = [w]) ∧ h₀.Builds m.heap m'.heap) R :=
    he.bind fun w m₁ h₁ => leads_pure ⟨⟨w, rfl⟩, h₁⟩
  have hargs : ((ofLevel (n + 1)).evalList F [ref p (i + 4) "out", e]).Leads m
      (fun vs m' => (∃ w, vs = [out, w]) ∧ h₀.Builds m.heap m'.heap) R :=
    leads_bind_ok hout <| hitem.bind fun vs m₁ h₁ => leads_pure ⟨h₁.1.imp fun w hw => by rw [hw], h₁.2⟩
  have hcall : (ofLevel (n + 3)).exec [pushOne p i "out" e] F m =
      ((ofLevel (n + 1)).evalList F [ref p (i + 4) "out", e] >>= fun vs =>
        Native.pushArray.call (ofLevel n) vs (some (p (i + 1)))) m := by
    rw [pushOne, exec_run, callNative, eval_callMember hb.loaded hb.site.knows hb.native (by decide)]
  refine .congr hcall (hargs.bind ?_)
  rintro _ m₁ ⟨⟨w, rfl⟩, h₁⟩
  exact leads_of_ok (call_pushArray hb.cell) (h₁.modifyArray hb.new _)

/-- A call of what has no effects, with arguments that only read. -/
theorem leads_callNamed {f : Text} {es : List Expr} (hf : known f v) (heffect : m.heap.Effectless v)
    (hes : ∀ e ∈ es, OnlyReads e) :
    ((ofLevel (n + 2)).eval (callNamed p i f es) F).Leads m (fun _ m' => h₀.Builds m.heap m'.heap) R := by
  have hcall : (ofLevel (n + 2)).eval (callNamed p i f es) F = (do
      let v ← (ofLevel (n + 1)).eval (ref p (i + 1) f) F
      (ofLevel (n + 1)).call v (← (ofLevel (n + 1)).evalList F es) (p i) : Eval Value) := rfl
  rw [hcall]
  refine leads_bind_ok (eval_ref hb.site.knows hf) ?_
  refine (leads_evalList (.refl m.heap) hes _ _).bind fun vs m₁ h₁ => ?_
  exact (leads_call (heffect.adds h₁.toAdds) h₁).mono (fun _ _ h₂ => (Heap.Builds.refl hb.kept).grow h₂) fun _ _ h' => h'

/-- A block inside the body, by what its statements do in its frame. -/
theorem leads_block {Q : Value → Machine → Prop}
    (hbody : ∀ m', Building L h₀ m.heap.frames.size (Frame.Knowing { parent := some F, name := "block" } known) out k
        m'.heap → h₀.Builds m.heap m'.heap → (m'.heap.frame m.heap.frames.size).parent = some F →
      (I.exec body m.heap.frames.size).Leads m' Q R) :
    (I.block ⟨s, body⟩ F).Leads m Q R :=
  leads_bind_ok (childFrame_adding F "block" false) <|
    hbody (m.withHeap (m.heap.adding _)) (hb.child rfl rfl rfl rfl rfl)
      ((Heap.Builds.refl hb.kept).grow (Heap.extends_adding _ _)) (by rw [Heap.frame_adding_size])

/-- A conditional whose test may call what has no effects. -/
theorem leads_when (htest : ((ofLevel n).eval test F).Leads m (fun _ m' => h₀.Builds m.heap m'.heap) R)
    (hbody : ∀ {G m'}, Building L h₀ G (Frame.Knowing { parent := some F, name := "block" } known) out k m'.heap →
      ((ofLevel n).exec body G).Leads m' (fun _ m'' => h₀.Builds m'.heap m''.heap) R) :
    ((ofLevel (n + 1)).stmt (when p i test body) F).Leads m (fun _ m' => h₀.Builds m.heap m'.heap) R :=
  (leads_condition (J := fun m' => h₀.Builds m.heap m'.heap) htest).bind fun _ _ h₁ =>
    leads_ite (fun _ => leads_block (hb.later h₁) fun _ hb' h₂ _ => Leads.since (h₁.trans h₂) (hbody hb'))
      fun _ => leads_pure h₁

/-! ### Loops -/

/-- A round of a loop over elements, by what its body does in the frame of the round. -/
theorem leads_forRound (hnative : "native" ≠ name) (hout : "out" ≠ name)
    (hbody : ∀ {m'}, Building L h₀ m.heap.frames.size ((roundFrame F name item).Knowing known) out k m'.heap →
      h₀.Builds m.heap m'.heap →
      (I.exec body m.heap.frames.size).Leads m' (fun _ m'' => h₀.Builds m.heap m''.heap) R) :
    (I.forRound none name ⟨s, body⟩ F v item).Leads m (fun _ m' => h₀.Builds m.heap m'.heap) R :=
  .congr forRound_eq <| leads_round <| hbody
    (hb.child rfl rfl rfl (by rw [get?_roundFrame, if_neg hnative]) (by rw [get?_roundFrame, if_neg hout]))
    ((Heap.Builds.refl hb.kept).grow (Heap.extends_adding _ _))

/-- A loop over the elements of something. -/
theorem leads_loopOver (hnative : "native" ≠ name) (hout : "out" ≠ name) (hsource : known source v)
    (hbody : ∀ {G item m'}, Building L h₀ G ((roundFrame F name item).Knowing known) out k m'.heap →
      ((ofLevel (n + 1)).exec body G).Leads m' (fun _ m'' => h₀.Builds m'.heap m''.heap) R) :
    ((ofLevel (n + 2)).stmt (loopOver p i name (ref p j source) body) F).Leads m
      (fun _ m' => h₀.Builds m.heap m'.heap) R := by
  have hstmt : (ofLevel (n + 2)).stmt (loopOver p i name (ref p j source) body) F = (do
      let v ← (ofLevel (n + 1)).eval (ref p j source) F
      let items ← elements v (p j)
      forEach ((ofLevel (n + 1)).forRound none name ⟨p (i + 2), body⟩ F) items : Eval Value) := rfl
  have helements : (elements v (p j)).Leads m (fun _ m' => m' = m) R := by
    refine leads_readEndless.bind fun target m' h' => leads_heap ?_
    cases m'.heap.pairs? target with
    | some items => exact leads_pure h'
    | none => exact leads_fail
  rw [hstmt]
  refine leads_bind_ok (eval_ref hb.site.knows hsource) (helements.bind ?_)
  rintro items _ rfl
  refine leads_forEach (.refl hb.kept) (fun index item m' hm' => ?_) items
  exact (leads_forRound (hb.later hm') hnative hout fun hb' h₂ => Leads.since h₂ (hbody hb')).mono
    (fun _ _ h' => hm'.trans h') fun _ _ h' => h'

end

/-! ## Calls -/

section

variable {op : Operation} {m₁ : Machine} {id d : Nat}

/-- Nothing has been changed where the body of a function begins. -/
theorem Starts.kept {f : Function} (hs : Starts L f p arr args m m₁) : m.heap.Extends m₁.heap where
  toAdds := hs.adds
  arrays_le := by
    rw [hs.arrays]
    split <;> simp
  array {i} hi := by
    by_cases hf : f.operation.isVariadic = true
    · rw [hs.array hf, if_neg (Nat.ne_of_lt hi)]
    · rw [Heap.array, hs.arrays, if_neg hf]
      rfl

/-- A call of a plain form gives a new array if its body does. -/
theorem leads_plain (hl : L.LoadedIn m.heap) (hd : m.depth + 1 < m.settings.callLimit.count) (hfits : op.Fits args)
    (haccepts : op.Accepts arr args)
    (hbody : ∀ {p m₁}, Starts L (.plain op) p arr args m m₁ →
      ((ofLevel (n + 9)).exec (op.plainBody p) m.heap.frames.size).Leads (m₁.withDepth (m.depth + 1)) (Fresh m.heap)
        (Fresh m.heap)) :
    ((ofLevel (n + 10)).call (L.value (.plain op)) (arr :: args) span).Leads m (Fresh m.heap) R := by
  obtain ⟨p, m₁, hs, hcall⟩ := call_library (.plain op) hl hd hfits haccepts
  obtain ⟨r, m₂, hr⟩ := endsBy_total ((ofLevel (n + 9)).exec ((Function.plain op).body p) m.heap.frames.size)
    (m₁.withDepth (m.depth + 1))
  have hlead := hbody hs
  refine .congr (hcall span r m₂ hr) ?_
  cases r with
  | ok w =>
    have hfresh : Fresh m.heap w m₂ := hlead.gives hr.ok
    exact leads_pure ⟨hfresh.kept, hfresh.cell⟩
  | error e =>
    obtain he | ⟨w, s, rfl, hfresh⟩ := hlead.leaves hr.error
    · obtain ⟨e', hresult, he'⟩ := bodyResult_error he
      exact leads_of_error hresult he'
    · exact leads_pure ⟨hfresh.kept, hfresh.cell⟩

theorem effectless_argument (hf : ∀ f ∈ args, h.Effectless f) (i : Nat) : h.Effectless (args.getD i .null) := by
  rw [List.getD_eq_getElem?_getD]
  cases hx : args[i]? with
  | some f => exact hf f (List.mem_of_getElem? hx)
  | none => exact effectless_null

/-! ## Collecting -/

theorem stmt_declareEmpty (hi : Inside L h₀ F known m.heap) :
    (ofLevel (n + 1)).stmt (declareEmpty p i) F m = .ok (.plain (.array m.heap.arrays.size))
      (m.withHeap ((m.heap.newArray #[]).2.bind F (some "out") (.plain (.array m.heap.arrays.size)) false)) := by
  have hempty : (ofLevel (n + 1)).eval (.array (p (i + 1)) []) F m =
      .ok (.plain (.array m.heap.arrays.size)) (m.withHeap (m.heap.newArray #[]).2) := rfl
  exact stmt_declare hempty (hi.site.adds (m.grown_newArray _).adds)

/-- A body that ends with the result. -/
theorem leads_result (hb : Building L h₀ F known out k m.heap) :
    ((ofLevel (n + 2)).exec [run p i (ref p j "out")] F).Leads m (Fresh h₀) R :=
  leads_of_ok (exec_last hb.toInside hb.result) hb.fresh

/-- A body that collects a new array in a loop over the elements of the array. -/
theorem leads_collect {f : Function} (hl : L.LoadedIn m.heap) (hs : Starts L f p arr args m m₁)
    (hbody : ∀ {G item m'}, Building L m.heap G ((roundFrame m.heap.frames.size "v" item).Knowing
        (Binding "out" (.plain (.array m₁.heap.arrays.size)) (callKnown L f p arr args m)))
        (.plain (.array m₁.heap.arrays.size)) m₁.heap.arrays.size m'.heap →
      ((ofLevel (n + 6)).exec body G).Leads m' (fun _ m'' => m.heap.Builds m'.heap m''.heap) (Fresh m.heap)) :
    ((ofLevel (n + 8)).exec [declareEmpty p 20, loopOver p 30 "v" (ref p 33 "arr") body, run p 50 (ref p 51 "out")]
      m.heap.frames.size).Leads (m₁.withDepth d) (Fresh m.heap) (Fresh m.heap) := by
  have hi : Inside L m.heap m.heap.frames.size (callKnown L f p arr args m) m₁.heap := hs.inside hl
  have hb := Building.of_declared (m := m₁.withDepth d) hi hs.kept #[]
    (rfl : (Value.plain (.array m₁.heap.arrays.size)).payload = .array m₁.heap.arrays.size)
  refine leads_exec_cons (leads_of_ok (stmt_declareEmpty (m := m₁.withDepth d) hi)
    (Q := fun _ m₂ => Building _ _ _ _ _ _ m₂.heap) hb) fun _ m₂ hb => ?_
  refine leads_exec_cons (Q := fun _ m₃ => m.heap.Builds m₂.heap m₃.heap) ?_
    fun _ m₃ h₃ => leads_result (hb.later h₃)
  exact leads_loopOver hb (by decide) (by decide) (.inr ⟨by decide, callKnown_array⟩) hbody

theorem leads_map (hl : L.LoadedIn m.heap) (hf : ∀ f ∈ args, m.heap.Effectless f)
    (hs : Starts L (.plain .map) p arr args m m₁) :
    ((ofLevel (n + 8)).exec (Operation.map.plainBody p) m.heap.frames.size).Leads (m₁.withDepth d) (Fresh m.heap)
      (Fresh m.heap) := by
  refine leads_collect hl hs fun hb => ?_
  refine leads_pushOne hb (leads_callNamed hb ?_ ((effectless_argument hf 0).adds hb.adds) ?_)
  · exact roundFrame_other (by decide) (.inr ⟨by decide, .inl rfl⟩)
  · exact List.forall_mem_singleton.2 onlyReads_ref

theorem leads_filter (hl : L.LoadedIn m.heap) (hf : ∀ f ∈ args, m.heap.Effectless f)
    (hs : Starts L (.plain .filter) p arr args m m₁) :
    ((ofLevel (n + 8)).exec (Operation.filter.plainBody p) m.heap.frames.size).Leads (m₁.withDepth d) (Fresh m.heap)
      (Fresh m.heap) := by
  refine leads_collect hl hs fun hb => ?_
  refine leads_when hb (leads_callNamed hb ?_ ((effectless_argument hf 0).adds hb.adds) ?_) fun hb' => ?_
  · exact roundFrame_other (by decide) (.inr ⟨by decide, .inl rfl⟩)
  · exact List.forall_mem_singleton.2 onlyReads_ref
  · exact leads_pushOne hb' (leads_reads hb' onlyReads_ref)

/-! ## Removing -/

theorem onlyComputes_different : OnlyComputes (different p i) where
  name := rfl
  parameters := by simp [different]
  whereClauses := rfl
  body := ⟨_, _, rfl, .compare onlyReads_ref onlyReads_ref⟩

/-- The expression of a function without a name. -/
theorem eval_function {d : FunctionDef} (hname : d.name = none) (hpure : d.isPure = false) :
    (ofLevel (n + 1)).eval (.function d) F m =
      .ok (.plain (.function m.heap.closures.size)) (m.withHeap (m.heap.newClosure ⟨d, F⟩).2) := by
  have hcheck : readHeap (·.checkPure F d) m = .ok () m := by
    refine readHeap_ok ?_
    unfold Heap.checkPure
    rw [hpure]
    rfl
  have hexpr : (ofLevel (n + 1)).eval (.function d) F = function d F := rfl
  rw [hexpr, function, bind_ok hcheck, hname]
  rfl

/-- What a removal passes to `filter` is accepted. -/
theorem accepts_filter {i : Nat} (ha : Operation.remove.Accepts arr args) :
    Operation.filter.Accepts arr [.plain (.function i)] := by
  intro q v hq
  simp [Operation.questions, Operation.parameters, Operation.furtherParameters] at hq
  obtain ⟨rfl, rfl⟩ | ⟨rfl, rfl⟩ := hq
  · exact ha _ _ (.head _)
  · rfl

theorem Fresh.of_extends (h : Fresh h' v m) (hh : h₀.Extends h') : Fresh h₀ v m :=
  ⟨hh.trans h.kept, h.cell.imp fun _ hk => ⟨hk.1, Nat.le_trans hh.arrays_le hk.2.1, hk.2.2⟩⟩

theorem leads_remove (hl : L.LoadedIn m.heap) (hd : m.depth + 2 < m.settings.callLimit.count)
    (ha : Operation.remove.Accepts arr args) (hs : Starts L (.plain .remove) p arr args m m₁) :
    ((ofLevel (n + 12)).exec (Operation.remove.plainBody p) m.heap.frames.size).Leads (m₁.withDepth (m.depth + 1))
      (Fresh m.heap) (Fresh m.heap) := by
  have hi : Inside L m.heap m.heap.frames.size (callKnown L (.plain .remove) p arr args m) m₁.heap := hs.inside hl
  obtain ⟨m₂, hm₂⟩ : ∃ m₂, m₂ = (m₁.withDepth (m.depth + 1)).withHeap
    (m₁.heap.newClosure ⟨different p 24, m.heap.frames.size⟩).2 := ⟨_, rfl⟩
  have hgrown : m.heap.Extends m₂.heap := by
    rw [hm₂]
    exact hs.kept.trans (m₁.heap.extends_newClosure _)
  have hargs : (ofLevel (n + 10)).evalList m.heap.frames.size [ref p 23 "arr", .function (different p 24)]
      (m₁.withDepth (m.depth + 1)) = .ok [arr, .plain (.function m₁.heap.closures.size)] m₂ := by
    rw [hm₂]
    exact evalList_cons (eval_ref hi.site.knows callKnown_array) (evalList_cons (eval_function rfl rfl) rfl)
  have hcall : (ofLevel (n + 12)).exec (Operation.remove.plainBody p) m.heap.frames.size (m₁.withDepth (m.depth + 1)) =
      (ofLevel (n + 10)).call (L.value (.plain .filter)) [arr, .plain (.function m₁.heap.closures.size)] (some (p 21))
        m₂ :=
    eval_callNamed hi.site.knows (.inr ⟨rfl, .function (.plain .filter)⟩) hargs
  have heffect : m₂.heap.Effectless (.plain (.function m₁.heap.closures.size)) := by
    refine effectless_function (c := ⟨different p 24, m.heap.frames.size⟩) ?_ onlyComputes_different
    rw [hm₂]
    exact Array.getElem?_push_size
  have hd₂ : m₂.depth + 1 < m₂.settings.callLimit.count := by
    rw [hm₂]
    show m.depth + 2 < m₁.settings.callLimit.count
    rw [hs.grown.settings]
    exact hd
  have hfits : Operation.filter.Fits [.plain (.function m₁.heap.closures.size)] := .inr (Nat.le_refl 1)
  refine .congr hcall ?_
  refine (leads_plain (hl.adds hgrown.toAdds) hd₂ hfits (accepts_filter ha) fun hs₂ =>
    leads_filter (hl.adds hgrown.toAdds) (List.forall_mem_singleton.2 heffect) hs₂).mono ?_ fun _ _ h' => h'
  exact fun v m' hv => hv.of_extends hgrown

/-! ## Slices -/

theorem leads_fresh (hkept : h₀.Extends m.heap) {items : Array Value} :
    (Eval.newArray items).Leads m (Fresh h₀) R :=
  leads_of_ok rfl ⟨hkept.trans (Heap.extends_newArray _ _), _, rfl, hkept.arrays_le, by simp⟩

theorem leads_whole {f : Native} {position : Nat} : (f.whole position span v).Leads m (fun _ m' => m' = m) R := by
  have hnumber : (f.number position span v).Leads m (fun _ m' => m' = m) R := by
    unfold Native.number
    split
    · exact leads_pure rfl
    · exact leads_failWith
  refine hnumber.bind fun x m' hm' => ?_
  cases x.whole? with
  | some n => exact leads_pure hm'
  | none => exact leads_failWith

theorem leads_nativeCall {f : Native} {Q : Value → Machine → Prop}
    (hrun : (f.run I args span).Leads m Q fun _ _ => False) : (f.call I args span).Leads m Q R := by
  refine leads_ite (fun _ => leads_failWith) fun _ => ?_
  cases h : f.run I args span m with
  | ok v m' => exact leads_bind_ok (attempt_ok h) (leads_pure (hrun.gives h))
  | error e m' =>
    have he := (hrun.leaves h).resolve_right (by simp)
    refine leads_bind_ok (attempt_error h) ?_
    split
    · exact leads_fail
    · exact leads_ite (fun _ => leads_failWith) fun _ => leads_exit rfl
    · exact leads_of_error rfl he

/-- A part of an array is a new array. -/
theorem leads_sliceOf (hkept : h₀.Extends m.heap) (harr : arr.payload = .array id) {stop : Option Value} :
    (Native.sliceOf span arr v stop).Leads m (Fresh h₀) R := by
  have hitems : Native.slice.arrayItems 1 span arr m = .ok (m.heap.array id).toList m := by
    rw [Native.arrayItems, Native.arrayCell, harr]
    rfl
  unfold Native.sliceOf
  refine leads_whole.bind ?_
  rintro first m₁ rfl
  extract_lets rest
  have hrest (last : Option Int) : (rest last).Leads m₁ (Fresh h₀) R := by
    unfold rest
    rw [harr]
    exact leads_bind_ok hitems (leads_fresh hkept)
  split
  · refine leads_whole.bind ?_
    rintro last _ rfl
    exact hrest _
  · exact hrest none

/-- The native function by which `skip`, `slice` and `take` give their results. -/
theorem leads_slice (hkept : h₀.Extends m.heap) (harr : arr.payload = .array id) :
    (Native.slice.call I (arr :: args) span).Leads m (Fresh h₀) R := by
  refine leads_nativeCall ?_
  cases args with
  | nil => exact leads_failWith
  | cons v rest => exact leads_sliceOf hkept harr

/-- A body that gives a part of the array. -/
theorem leads_sliceBody {f : Function} {es : List Expr} (hl : L.LoadedIn m.heap) (hs : Starts L f p arr args m m₁)
    (harr : arr.payload = .array id) (hes : ∀ e ∈ es, OnlyReads e) :
    ((ofLevel (n + 3)).exec [run p 20 (callNative p 21 .slice (ref p 24 "arr" :: es))] m.heap.frames.size).Leads
      (m₁.withDepth d) (Fresh m.heap) R := by
  have hi : Inside L m.heap m.heap.frames.size (callKnown L f p arr args m) m₁.heap := hs.inside hl
  refine .congr (eval_callMember hi.loaded hi.site.knows hi.native (by decide)) ?_
  have hargs : ((ofLevel (n + 1)).evalList m.heap.frames.size (ref p 24 "arr" :: es)).Leads (m₁.withDepth d)
      (fun vs m' => (∃ rest, vs = arr :: rest) ∧ m.heap.Extends m'.heap) R :=
    leads_bind_ok (eval_ref hi.site.knows callKnown_array) <|
      (leads_evalList (m := m₁.withDepth d) hs.kept hes _ _).bind fun rest m₂ h₂ => leads_pure ⟨⟨rest, rfl⟩, h₂⟩
  refine hargs.bind ?_
  rintro _ m₂ ⟨⟨rest, rfl⟩, h₂⟩
  exact leads_slice h₂ harr

end

end ArrayLibrary

end ScriptEngine

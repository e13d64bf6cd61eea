import ScriptEngine.Proofs.Arrays.Predicates
import ScriptEngine.Proofs.Results.Library
import ScriptEngine.Proofs.Session.Started

/-!
# Unwrapping results

* `call_unwrap_ok`, `call_unwrap_err`, `call_unwrapOr`: what the functions do with a result.
* **Unwrapping keeps the stamp** (`unwrapping_keeps_stamp`): what is unwrapped, or thrown, is the result itself. It has
  the payload of the value that was wrapped, but the two are equal only if that value carried the stamp already.
-/

namespace ScriptEngine

namespace Value

variable {h : Heap} {v : Value} {t : VariantTag}

/-- A stamped value is equal to the value if that carries the stamp already. -/
theorem equal_stamped_self : h.equal (v.stamped t) v = decide (v.variant? = some t) := by
  rw [Bool.eq_iff_iff, Heap.equal_iff_matches, Heap.Matches, variant?_stamped, decide_eq_true_iff]
  exact ⟨fun hm => hm.1.symm, fun hv => ⟨hv.symm, .refl h.equivalence_equal.refl _⟩⟩

end Value

namespace Interp

variable {I : Interp} {m m' : Machine} {v : Value} {s : Span} {F : Nat} {arm : MatchArm} {rest : List MatchArm}

/-- A block runs in a further frame. -/
theorem block_eq {b : Block} : I.block b F m = I.exec b.statements m.heap.frames.size
    (m.withHeap (m.heap.adding [{ parent := some F, name := "block" }])) :=
  Eval.bind_ok (Eval.childFrame_adding F "block" false)

theorem arms_pass (hp : I.armMatches arm v F m = .ok true m') :
    I.arms v s F (arm :: rest) m = I.block arm.body F m' := by
  rw [arms, Eval.bind_ok hp]
  rfl

theorem arms_skip (hp : I.armMatches arm v F m = .ok false m') :
    I.arms v s F (arm :: rest) m = I.arms v s F rest m' := by
  rw [arms, Eval.bind_ok hp]
  rfl

end Interp

namespace ResultLibrary

open ArrayLibrary (ref run callNamed eval_ref exec_run)

/-! ## Runs of the functions -/

open Eval Interp

variable {L : Layout} {p : Nat → Span} {i n F : Nat} {m : Machine} {known : Text → Value → Prop} {name : Text}
  {v w r d : Value} {t : VariantTag} {s : Span} {span : Option Span}

/-- A place in the body of a function: the names that it uses are known. -/
structure Inside (L : Layout) (F : Nat) (r : Value) (known : Text → Value → Prop) (h : Heap) : Prop where
  loaded : L.LoadedIn h
  lt : F < h.frames.size
  knows : h.Knows F known
  result : known "Result" L.result
  argument : known "r" r

/-- A place in a further frame for a block. -/
theorem Inside.block {h : Heap} (hi : Inside L F r known h) :
    (h.adding [{ parent := some F, name := "block" }]).Knows h.frames.size known := by
  intro name v hv span
  exact hi.knows.child hi.lt rfl rfl name v (.inr ⟨rfl, hv⟩) span

theorem eval_variantRef (hi : Inside L F r known m.heap)
    (ht : (m.heap.object L.cell).get? name = some (.ofVariant t)) :
    (ofLevel (n + 2)).eval (variantRef p i name) F m = .ok (.ofVariant t) m := by
  have hobject : (ofLevel (n + 1)).eval (ref p (i + 1) "Result") F m = .ok L.result m := eval_ref hi.knows hi.result
  have hmember : readHeap (·.member L.result name (p i)) m = .ok (.ofVariant t) m := by
    refine readHeap_ok ?_
    unfold Heap.member Heap.ownMember?
    simp only [hi.loaded.payload, ht]
  exact (bind_ok hobject).trans hmember

/-- The test of a value for a variant. -/
theorem isTest_ofVariant {I : Interp} : I.isTest v (.ofVariant t) s m = .ok (decide (v.variant? = some t)) m := by
  rw [isTest, Value.ofVariant, Value.variant?_stamped]
  rfl

theorem armMatches_variant {b : Block} (hi : Inside L F r known m.heap)
    (ht : (m.heap.object L.cell).get? name = some (.ofVariant t)) :
    (ofLevel (n + 2)).armMatches ⟨s, .isVariant (variantRef p i name), b⟩ v F m =
      .ok (decide (v.variant? = some t)) m := by
  rw [armMatches]
  exact (bind_ok (eval_variantRef hi ht)).trans isTest_ofVariant

/-- The machine in a further frame for a block. -/
abbrev blockStart (F : Nat) (m : Machine) : Machine :=
  m.withHeap (m.heap.adding [{ parent := some F, name := "block" }])

/-- A block that gives what a name stands for. -/
theorem block_giving (hi : Inside L F r known m.heap) (hv : known name v) :
    (ofLevel (n + 2)).block (giving p i name) F m = .ok v (blockStart F m) := by
  rw [block_eq, giving, exec_run]
  exact eval_ref hi.block hv

/-- A block that throws what a name stands for. -/
theorem block_throwing (hi : Inside L F r known m.heap) (hv : known name v) {j : Nat} :
    (ofLevel (n + 2)).block (throwing p i (ref p j name)) F m =
      .error (.thrown v (p (i + 1))) (blockStart F m) := by
  have he : (ofLevel (n + 1)).eval (ref p j name) m.heap.frames.size (blockStart F m) = .ok v (blockStart F m) :=
    eval_ref hi.block hv
  rw [block_eq]
  exact bind_ok he

/-- The first arm of `unwrap` takes an `Ok`. -/
theorem exec_unwrap_ok (hi : Inside L F r known m.heap) (hr : r.variant? = some L.ok) :
    (ofLevel (n + 5)).exec (unwrap p).body.statements F m = .ok r (blockStart F m) := by
  have hsubject := eval_ref (n := n + 2) (p := p) (i := 5) hi.knows hi.argument
  have hok := armMatches_variant (n := n + 1) (p := p) (i := 7) (s := p 6) (v := r) (b := giving p 10 "r") hi
    hi.loaded.ok
  rw [decide_eq_true hr] at hok
  exact (bind_ok hsubject).trans ((arms_pass hok).trans (block_giving hi hi.argument))

/-- The second arm of `unwrap` takes an `Err`. -/
theorem exec_unwrap_err (hi : Inside L F r known m.heap) (hr : r.variant? = some L.err) :
    (ofLevel (n + 5)).exec (unwrap p).body.statements F m = .error (.thrown r (p 25)) (blockStart F m) := by
  have hsubject := eval_ref (n := n + 2) (p := p) (i := 5) hi.knows hi.argument
  have hok := armMatches_variant (n := n + 1) (p := p) (i := 7) (s := p 6) (v := r) (b := giving p 10 "r") hi
    hi.loaded.ok
  have herr := armMatches_variant (n := n + 1) (p := p) (i := 21) (s := p 20) (v := r)
    (b := throwing p 24 (ref p 26 "r")) hi hi.loaded.err
  rw [hr, decide_eq_false fun he => hi.loaded.distinct (Option.some.inj he).symm] at hok
  rw [decide_eq_true hr] at herr
  exact (bind_ok hsubject).trans ((arms_skip hok).trans ((arms_pass herr).trans (block_throwing hi hi.argument)))

/-- The branches of `unwrap_or` are for an `Ok` and for everything else. -/
theorem exec_unwrapOr (hi : Inside L F r known m.heap) (hd : known "fallback" d) :
    (ofLevel (n + 5)).exec (unwrapOr p).body.statements F m =
      .ok (if r.variant? = some L.ok then r else d) (blockStart F m) := by
  have hargument := eval_ref (n := n + 1) (p := p) (i := 7) hi.knows hi.argument
  have hok := eval_variantRef (n := n) (p := p) (i := 8) hi hi.loaded.ok
  have htest : (ofLevel (n + 3)).eval (.binary (p 6) (ref p 7 "r") .isVariant (variantRef p 8 "Ok")) F m =
      .ok (.bool (decide (r.variant? = some L.ok))) m := by
    rw [ArrayLibrary.eval_binary hargument hok]
    exact binary_isVariant Value.variant?_stamped
  have hcondition : (ofLevel (n + 3)).condition (.binary (p 6) (ref p 7 "r") .isVariant (variantRef p 8 "Ok")) F
      "if" m = .ok (decide (r.variant? = some L.ok)) m := by
    rw [condition, bind_ok htest]
    rfl
  refine (bind_ok hcondition).trans ?_
  by_cases hr : r.variant? = some L.ok
  · simp only [decide_eq_true hr, if_true, if_pos hr]
    exact block_giving hi hi.argument
  · simp only [decide_eq_false hr, Bool.false_eq_true, if_false, if_neg hr]
    exact block_giving (n := n) (p := p) (i := 20) hi hd

/-! ## Calls of the functions -/

/-- The machine where the body of a function begins. -/
abbrev callStart (L : Layout) (f : FunctionDef) (values : List (Text × Value)) (m : Machine) : Machine :=
  (m.withHeap (m.heap.adding [Closure.callFrame ⟨f, L.frame⟩ values])).withDepth (m.depth + 1)

theorem grown_callStart {f : FunctionDef} {values : List (Text × Value)} :
    (m.withDepth (m.depth + 1)).Grown (callStart L f values m) := (m.withDepth (m.depth + 1)).grown_adding _

/-- The body of a function begins at a place where its parameter and the enum are known. -/
theorem inside_callStart {f : FunctionDef} {values : List (Text × Value)} (hl : L.LoadedIn m.heap)
    (hr : (Closure.callFrame ⟨f, L.frame⟩ values).bindings.get? (some "r") = some r)
    (hresult : (Closure.callFrame ⟨f, L.frame⟩ values).bindings.get? (some "Result") = none) :
    Inside L m.heap.frames.size r ((Closure.callFrame ⟨f, L.frame⟩ values).Knowing L.Names)
      (callStart L f values m).heap where
  loaded := hl.adding _
  lt := by simp
  knows := hl.knows.child hl.frame_lt rfl rfl
  result := .inr ⟨hresult, .result⟩
  argument := .inl hr

/-- The call of a function of the library that is no predicate and asks nothing of its parameters, by the way its
body ends. -/
theorem call_ends {id : Nat} {f : FunctionDef} {values : List (Text × Value)} {args : List Value}
    {e : Except Exit Value} {m₂ : Machine} (hc : m.heap.closures[id]? = some ⟨f, L.frame⟩)
    (hd : m.depth < m.settings.callLimit.count) (hb : bindings f args = some (boundTo values none))
    (hpure : f.isPure = false) (hpred : ∀ name, f.name = some name → isPredicateName name = false)
    (hchecks : (ofLevel n).checkConstraints ⟨f, L.frame⟩ m.heap.frames.size span
      (m.bound ⟨f, L.frame⟩ values none) = .ok () (m.bound ⟨f, L.frame⟩ values none))
    (hbody : ((ofLevel n).exec f.body.statements m.heap.frames.size).EndsBy (callStart L f values m) e m₂) :
    (ofLevel (n + 1)).call (.plain (.function id)) args span m =
      bodyResult ⟨f, L.frame⟩ span e (m₂.withDepth m.depth) := by
  have hresult : (fun v => checkPredicate ⟨f, L.frame⟩ v span) = pure := by
    funext v
    unfold checkPredicate
    cases hname : f.name with
    | none => rfl
    | some name =>
      simp only [hpred name hname, Bool.false_eq_true, false_and, if_false]
  rw [call_function hc, callClosure_ends hd hpure hb hchecks hbody, hresult, bind_pure]

/-- A call has grown the machine by its frame and that of a block. -/
theorem grown_block {f : FunctionDef} {values : List (Text × Value)} :
    m.Grown ((blockStart F (callStart L f values m)).withDepth m.depth) :=
  (grown_callStart.trans (Machine.grown_adding _ _)).leaving

theorem call_unwrap_ok (hl : L.LoadedIn m.heap) (hd : m.depth < m.settings.callLimit.count)
    (hr : r.variant? = some L.ok) :
    ∃ m', m.Grown m' ∧ (ofLevel (n + 6)).call L.unwrapValue [r] span m = .ok r m' := by
  obtain ⟨p, hc⟩ := hl.unwrap
  have hbody := exec_unwrap_ok (n := n) (p := p) (m := callStart L (unwrap p) [("r", r)] m)
    (inside_callStart hl rfl rfl) hr
  refine ⟨_, grown_block, call_ends hc hd rfl rfl (fun _ hn => ?_) rfl (attempt_ok hbody)⟩
  cases hn
  decide

theorem call_unwrap_err (hl : L.LoadedIn m.heap) (hd : m.depth < m.settings.callLimit.count)
    (hr : r.variant? = some L.err) :
    ∃ s m', m.Grown m' ∧ (ofLevel (n + 6)).call L.unwrapValue [r] span m = .error (.thrown r s) m' := by
  obtain ⟨p, hc⟩ := hl.unwrap
  have hbody := exec_unwrap_err (n := n) (p := p) (m := callStart L (unwrap p) [("r", r)] m)
    (inside_callStart hl rfl rfl) hr
  refine ⟨p 25, _, grown_block, call_ends hc hd rfl rfl (fun _ hn => ?_) rfl (attempt_error hbody)⟩
  cases hn
  decide

theorem call_unwrapOr (hl : L.LoadedIn m.heap) (hd : m.depth < m.settings.callLimit.count) (r d : Value)
    (span : Option Span) :
    ∃ m', m.Grown m' ∧ (ofLevel (n + 6)).call L.unwrapOrValue [r, d] span m =
      .ok (if r.variant? = some L.ok then r else d) m' := by
  obtain ⟨p, hc⟩ := hl.unwrapOr
  have hbody := exec_unwrapOr (n := n) (p := p) (m := callStart L (unwrapOr p) [("r", r), ("fallback", d)] m)
    (inside_callStart hl rfl rfl) (.inl rfl)
  refine ⟨_, grown_block, call_ends hc hd rfl rfl (fun _ hn => ?_) rfl (attempt_ok hbody)⟩
  cases hn
  decide

/-! ## Wrapping and unwrapping -/

/-- A call of a function with what a constructor makes of a value, and further arguments. -/
def callWrapped (I : Interp) (f constructor v : Value) (args : List Value) (span : Option Span) : Eval Value := do
  let r ← I.call constructor [v] span
  I.call f (r :: args) span

theorem callWrapped_eq {f : Value} {args : List Value} :
    callWrapped (ofLevel (n + 1)) f (.ofVariant t) v args span m =
      (ofLevel (n + 1)).call f (v.stamped t :: args) span m := by
  have hwrap : (ofLevel n).apply (.ofVariant t) [v] span m = .ok (v.stamped t) m :=
    apply_variant (v := .ofVariant t) rfl Value.variant?_stamped
  exact bind_ok hwrap

/-- Scripts find `unwrap` and `unwrap_or`, and the variants as members of `Result`. Where a call is allowed, for every
value and every fallback: unwrapping an `Ok` of the value gives the `Ok`, with a fallback or without, unwrapping an
`Err` gives the fallback or throws the `Err`. A wrapped value is equal to the value exactly if that carries the stamp of
the wrapper already. -/
theorem unwrapping_keeps_stamp {m : Machine} (hm : m.HasPrelude) (hd : m.depth < m.settings.callLimit.count) :
    ∃ (unwrap unwrapOr : Value) (ok err : VariantTag),
      (m.heap.global "unwrap" = .ok unwrap ∧ m.heap.global "unwrap_or" = .ok unwrapOr ∧
        m.heap.globalMember "Result" "Ok" = .ok (.ofVariant ok) ∧
        m.heap.globalMember "Result" "Err" = .ok (.ofVariant err)) ∧
      ∀ (n : Nat) (span : Option Span) (v d : Value),
        (∃ m', m.Grown m' ∧
          callWrapped (ofLevel (n + 6)) unwrap (.ofVariant ok) v [] span m = .ok (v.stamped ok) m') ∧
        (∃ m', m.Grown m' ∧
          callWrapped (ofLevel (n + 6)) unwrapOr (.ofVariant ok) v [d] span m = .ok (v.stamped ok) m') ∧
        (∃ m', m.Grown m' ∧ callWrapped (ofLevel (n + 6)) unwrapOr (.ofVariant err) v [d] span m = .ok d m') ∧
        (∃ s m', m.Grown m' ∧
          callWrapped (ofLevel (n + 6)) unwrap (.ofVariant err) v [] span m = .error (.thrown (v.stamped err) s) m') ∧
        ∀ h : Heap, h.equal d d = true ∧ ∀ t, h.equal (v.stamped t) v = decide (v.variant? = some t) := by
  obtain ⟨L, hl, hunwrap, hunwrapOr, hok, herr⟩ := hm.resultLibrary
  refine ⟨_, _, _, _, ⟨hunwrap, hunwrapOr, hok, herr⟩, fun n span v d => ?_⟩
  have hok : (v.stamped L.ok).variant? = some L.ok := Value.variant?_stamped
  have herr : (v.stamped L.err).variant? = some L.err := Value.variant?_stamped
  have hne : (v.stamped L.err).variant? ≠ some L.ok := herr ▸ fun he => hl.distinct (Option.some.inj he).symm
  simp only [callWrapped_eq]
  refine ⟨call_unwrap_ok hl hd hok, ?_, ?_, call_unwrap_err hl hd herr,
    fun h => ⟨h.equivalence_equal.refl d, fun t => Value.equal_stamped_self⟩⟩
  · have hcall := call_unwrapOr (n := n) hl hd (v.stamped L.ok) d span
    rwa [if_pos hok] at hcall
  · have hcall := call_unwrapOr (n := n) hl hd (v.stamped L.err) d span
    rwa [if_neg hne] at hcall

/-- What is unwrapped from an `Ok` of 5 is not 5. -/
theorem unwrapping_keeps_stamp_five :
    ∃ (m : Machine) (unwrap : Value) (ok : VariantTag), m.HasPrelude ∧ m.heap.global "unwrap" = .ok unwrap ∧
      m.heap.globalMember "Result" "Ok" = .ok (.ofVariant ok) ∧
      (∃ m', callWrapped (ofLevel 6) unwrap (.ofVariant ok) (.number 5) [] none m =
        .ok ((Value.number 5).stamped ok) m') ∧
      ∀ h : Heap, h.equal ((Value.number 5).stamped ok) (.number 5) = false := by
  obtain ⟨m, hm⟩ := Session.exists_ready
  obtain ⟨unwrap, _, ok, _, ⟨hunwrap, -, hok, -⟩, hall⟩ :=
    unwrapping_keeps_stamp hm.prelude (hm.lt_limit (by decide : 0 < 400))
  obtain ⟨⟨m', -, hcall⟩, -, -, -, hequal⟩ := hall 0 none (.number 5) .null
  exact ⟨m, unwrap, ok, hm.prelude, hunwrap, hok, ⟨m', hcall⟩, fun h => (hequal h).2 _⟩

end ResultLibrary

namespace Session

/-- The value of a source in a machine before anything is defined. -/
def valueOf? (source : Text) : Option Value :=
  match runSource source none (blank {} []) with
  | .ok (.ok v) _ => some v
  | _ => none

/-- With the library as it is written, what is unwrapped from an `Ok` of 1 is not 1. -/
theorem unwrap_gives_wrapper :
    ∃ v, valueOf? (Prelude.Library.source ⟨"result.zr", Prelude.results⟩ ++ "unwrap(Result.Ok(1))") = some v ∧
      ∀ h : Heap, h.equal v (.number 1) = false := by
  have hrun : (valueOf? (Prelude.Library.source ⟨"result.zr", Prelude.results⟩ ++ "unwrap(Result.Ok(1))")).bind
      Value.variant? = some ⟨⟨"Result", 1⟩, "Ok", 2⟩ := by
    simp only [Prelude.Library.source, Prelude.results, List.flatMap_cons, List.flatMap_nil]
    repeat rw [Text.ofString_ofList]
    decide +kernel
  obtain ⟨v, hv, hvariant⟩ := Option.bind_eq_some_iff.1 hrun
  have hne : v.variant? ≠ (Value.number 1).variant? := hvariant ▸ nofun
  exact ⟨v, hv, fun h => Heap.equal_of_variant_ne hne⟩

end Session

end ScriptEngine

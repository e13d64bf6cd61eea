import Mathlib.Data.List.Forall2
import ScriptEngine.Proofs.Arrays.Predicates
import ScriptEngine.Proofs.Eval.Levels

/-!
# Calls of the array library

A call of a function of the library binds its parameters, asks the predicates of the parameters and runs its body.

* `call_runs`: a call whose arguments are accepted runs the body.
* `call_library`: what a call gives by the way its body ends, if the arguments fit and are accepted.
* `call_library_ok`: the arguments of a call that gives a value fit and are accepted.
-/

namespace ScriptEngine.ArrayLibrary

open Eval Interp

namespace Operation

/-- Whether an operation takes any number of arguments. -/
def isVariadic : Operation → Bool
  | push | concat => true
  | _ => false

/-- Whether there are not too many arguments. -/
def Fits (op : Operation) (args : List Value) : Prop :=
  op.isVariadic = true ∨ args.length ≤ op.furtherParameters.length

/-- The parameters that take one argument each, with their arguments. -/
def values (op : Operation) (arr : Value) (args : List Value) : List (Text × Value) :=
  ("arr", arr) :: if op.isVariadic then [] else
    op.furtherParameters.zipIdx.map fun (x, i) => (x.1, args.getD i .null)

/-- The arguments that the variadic parameter takes. -/
def rest? (op : Operation) (args : List Value) : Option (List Value) :=
  if op.isVariadic then some args else none

/-- What the parameters of an operation ask of its arguments. -/
def questions (op : Operation) (arr : Value) (args : List Value) : List (Option (Predicate × Value)) :=
  op.parameters.zipIdx.map fun (x, i) => x.2.map (·, (arr :: args).getD i .null)

/-- The parameters of an operation accept its arguments. -/
def Accepts (op : Operation) (arr : Value) (args : List Value) : Prop :=
  ∀ q v, some (q, v) ∈ op.questions arr args → q.accepts v = true

end Operation

variable {L : Layout} {n F : Nat} {m m' : Machine} {known : Text → Value → Prop} {p : Nat → Span} {f : Function}
  {op : Operation} {arr v : Value} {args : List Value} {span : Option Span} {c : Closure} {P : Parameter}
  {ps : List Parameter} {qs : List (Option (Predicate × Value))}

/-! ## Parameters -/

theorem length_parameters (f : Function) :
    (f.definition p).parameters.length = f.operation.furtherParameters.length + 1 := by
  simp [Function.definition, Operation.parameters]

theorem variadicIndex?_definition (f : Function) :
    (f.definition p).variadicIndex? = if f.operation.isVariadic then some 1 else none := by
  obtain ⟨op⟩ | ⟨op⟩ := f <;> cases op <;> rfl

theorem bindings_of_variadic {f : FunctionDef} (hi : f.variadicIndex? = some 1) (hlen : f.parameters.length = 2) :
    bindings f (arr :: args) = some (positional (f.parameters.take 1) (arr :: args) ++ [(variadicName, .rest args)]) := by
  have hdrop : f.parameters.drop 2 = [] := List.drop_eq_nil_of_le (Nat.le_of_eq hlen)
  unfold bindings
  rw [hi]
  simp [hdrop, positional]

theorem bindings_of_not_variadic {f : FunctionDef} (hi : f.variadicIndex? = none) (args : List Value) :
    bindings f args = if f.parameters.length < args.length then none else some (positional f.parameters args) := by
  unfold bindings
  rw [hi]

/-- What the parameters of an operation are bound to, if there are not too many arguments. -/
theorem bindings_definition (f : Function) (arr : Value) (hfits : f.operation.Fits args) :
    bindings (f.definition p) (arr :: args) =
      some (boundTo (f.operation.values arr args) (f.operation.rest? args)) := by
  have hi := variadicIndex?_definition (p := p) f
  cases hv : f.operation.isVariadic with
  | true =>
    rw [hv] at hi
    have hlen : (f.definition p).parameters.length = 2 := by
      rw [length_parameters]
      obtain ⟨op⟩ | ⟨op⟩ := f <;> cases op <;> first | rfl | cases hv
    rw [bindings_of_variadic hi hlen, Operation.values, Operation.rest?, if_pos hv, if_pos hv]
    rfl
  | false =>
    rw [hv] at hi
    have hle : args.length ≤ f.operation.furtherParameters.length := hfits.resolve_left (by simp [hv])
    rw [bindings_of_not_variadic hi, if_neg (by rw [length_parameters, List.length_cons]; omega), Operation.values,
      Operation.rest?, hv]
    obtain ⟨op⟩ | ⟨op⟩ := f <;> cases op <;> rfl

theorem fits_of_bindings {bound : List (Text × Argument)}
    (hb : bindings (f.definition p) (arr :: args) = some bound) : f.operation.Fits args := by
  cases hv : f.operation.isVariadic with
  | true => exact .inl hv
  | false =>
    have hi := variadicIndex?_definition (p := p) f
    rw [hv] at hi
    rw [bindings_of_not_variadic hi, length_parameters, List.length_cons] at hb
    split at hb
    · cases hb
    · exact .inr (by omega)

/-- What a parameter asks: nothing, or a predicate about what it is bound to. -/
inductive Asks (L : Layout) (known : Text → Value → Prop) : Parameter → Option (Predicate × Value) → Prop
  | nothing {P : Parameter} (h : P.predicate = none) : Asks L known P none
  | test {P : Parameter} {p : Nat → Span} {i : Nat} {q : Predicate} {v : Value}
      (h : P.predicate = some (ref p i q.name)) (hargs : P.predicateArgs = []) (hv : known P.name v)
      (hq : known q.name (L.predicateValue q)) : Asks L known P (some (q, v))

/-- What a check does with the answer of a predicate. -/
def verdict (c : Closure) (span : Option Span) (P : Parameter) (predicate : Expr) (argument result : Value) :
    Eval Unit := do
  match result.payload with
  | .bool true => return ()
  | _ =>
    Eval.fail
      { kind := .argumentType, span := span, data := some argument,
        message := "argument '" ++ P.name ++ "' of " ++ c.name ++ "() failed predicate " ++
          predicateName predicate ++ " (got " ++ (← Eval.quotedForm argument) ++ ")" }

theorem checkParameter_eq {q : Predicate} (hl : L.LoadedIn m.heap) (hk : m.heap.Knows F known)
    (hd : m.depth + q.height < m.settings.callLimit.count) (ha : Asks L known P (some (q, v))) :
    ∃ m' predicate, (∀ c span, (ofLevel (n + 9)).checkParameter c F span P m =
      verdict c span P predicate v (.bool (q.accepts v)) m') ∧ m.Grown m' ∧ m'.heap.arrays = m.heap.arrays := by
  cases ha with
  | @test p i q v h hargs hv hq =>
    obtain ⟨m', hcall, hgrown, harrays⟩ := call_predicate (n := n) (v := v) q hl hd
    refine ⟨m', ref p i q.name, fun c span => ?_, hgrown, harrays⟩
    have htest : (ofLevel (n + 9)).eval (ref p i q.name) F m = .ok (L.predicateValue q) m := eval_ref hk hq
    have hextra : (ofLevel (n + 9)).evalList F P.predicateArgs m = .ok [] m := by
      rw [hargs]
      rfl
    have hargument : Eval.lookup F P.name none m = .ok v m := readHeap_ok (hk _ _ hv _)
    unfold checkParameter
    rw [h]
    simp only
    rw [bind_ok htest, bind_ok hextra, bind_ok hargument, bind_ok (hcall span)]
    rfl

theorem verdict_refused {predicate : Expr} {a b : Value} (hb : b = .bool false) :
    verdict c span P predicate a b m ≠ .ok () m' := by
  subst hb
  show (Eval.quotedForm a >>= fun t => Eval.fail _) m ≠ _
  cases hq : Eval.quotedForm a m with
  | ok t m₁ =>
    rw [bind_ok hq]
    exact nofun
  | error e m₁ =>
    rw [bind_error hq]
    exact nofun

/-- Parameters that accept their arguments pass. -/
theorem checkParameters_ok (hask : List.Forall₂ (Asks L known) ps qs) (hl : L.LoadedIn m.heap)
    (hs : m.heap.Site F known) (hd : ∀ q v, some (q, v) ∈ qs → m.depth + q.height < m.settings.callLimit.count)
    (ha : ∀ q v, some (q, v) ∈ qs → q.accepts v = true) :
    ∃ m', (∀ c span, ps.forM ((ofLevel (n + 9)).checkParameter c F span) m = .ok () m') ∧ m.Grown m' ∧
      m'.heap.arrays = m.heap.arrays := by
  induction hask generalizing m with
  | nil => exact ⟨m, fun _ _ => rfl, .refl m, rfl⟩
  | @cons P x ps qs hP hrest ih =>
    obtain ⟨m₁, hstep, hgrown, harrays⟩ : ∃ m₁, (∀ c span, (ofLevel (n + 9)).checkParameter c F span P m =
        .ok () m₁) ∧ m.Grown m₁ ∧ m₁.heap.arrays = m.heap.arrays := by
      cases x with
      | none =>
        refine ⟨m, fun c span => ?_, .refl m, rfl⟩
        obtain ⟨hnone⟩ := hP
        rw [checkParameter, hnone]
        rfl
      | some x =>
        obtain ⟨q, v⟩ := x
        obtain ⟨m₁, predicate, hrun, hgrown, harrays⟩ :=
          checkParameter_eq (n := n) hl hs.knows (hd q v (.head _)) hP
        refine ⟨m₁, fun c span => ?_, hgrown, harrays⟩
        rw [hrun, ha q v (.head _)]
        rfl
    obtain ⟨m', hrun, hgrown', harrays'⟩ := ih (hl.adds hgrown.adds) (hs.adds hgrown.adds)
      (fun q v hq => by rw [hgrown.depth, hgrown.settings]; exact hd q v (.tail _ hq))
      fun q v hq => ha q v (.tail _ hq)
    exact ⟨m', fun c span => (forM_cons_ok (hstep c span)).trans (hrun c span), hgrown.trans hgrown',
      harrays'.trans harrays⟩

/-- Parameters that pass accept their arguments. -/
theorem accepts_of_checkParameters (hask : List.Forall₂ (Asks L known) ps qs) (hl : L.LoadedIn m.heap)
    (hs : m.heap.Site F known) (hd : ∀ q v, some (q, v) ∈ qs → m.depth + q.height < m.settings.callLimit.count)
    (h : ps.forM ((ofLevel (n + 9)).checkParameter c F span) m = .ok () m') {q : Predicate} {v : Value}
    (hq : some (q, v) ∈ qs) : q.accepts v = true := by
  induction hask generalizing m with
  | nil => cases hq
  | @cons P x ps qs hP hrest ih =>
    obtain ⟨_, m₁, hstep, hrun⟩ := of_bind_ok (f := fun _ => ps.forM _) h
    -- whatever the parameter asks, it passes and adds frames only
    obtain ⟨hgrown, haccepts⟩ : m.Grown m₁ ∧ ∀ q v, some (q, v) = x → q.accepts v = true := by
      cases x with
      | none =>
        obtain ⟨hnone⟩ := hP
        rw [checkParameter, hnone] at hstep
        cases hstep
        exact ⟨.refl m, fun _ _ he => absurd he (Option.some_ne_none _)⟩
      | some x =>
        obtain ⟨q, v⟩ := x
        obtain ⟨m₂, predicate, hcheck, hgrown, -⟩ := checkParameter_eq (n := n) hl hs.knows (hd q v (.head _)) hP
        rw [hcheck] at hstep
        cases ha : q.accepts v with
        | false =>
          rw [ha] at hstep
          exact absurd hstep (verdict_refused rfl)
        | true =>
          rw [ha] at hstep
          cases hstep
          refine ⟨hgrown, fun q' v' he => ?_⟩
          cases he
          exact ha
    cases hq with
    | head => exact haccepts q v rfl
    | tail _ hq =>
      refine ih (hl.adds hgrown.adds) (hs.adds hgrown.adds) (fun q v hq => ?_) hrun hq
      rw [hgrown.depth, hgrown.settings]
      exact hd q v (.tail _ hq)

/-! ## Calls -/

/-- What the parameters are bound to in a call from a machine: the variadic one to an array of its own. -/
def Operation.bound (op : Operation) (arr : Value) (args : List Value) (m : Machine) : List (Text × Value) :=
  op.values arr args ++ if op.isVariadic then [(variadicName, .plain (.array m.heap.arrays.size))] else []

/-- The names that are known in a call of a function of the library. -/
def callKnown (L : Layout) (f : Function) (p : Nat → Span) (arr : Value) (args : List Value) (m : Machine) :
    Text → Value → Prop :=
  (Closure.callFrame ⟨f.definition p, L.frame⟩ (f.operation.bound arr args m)).Knowing L.Names

/-- A machine where the body of a function of the library begins, but for its depth. -/
structure Starts (L : Layout) (f : Function) (p : Nat → Span) (arr : Value) (args : List Value) (m m₁ : Machine) :
    Prop where
  grown : m.Grown m₁
  arrays : m₁.heap.arrays = if f.operation.isVariadic then m.heap.arrays.push args.toArray else m.heap.arrays
  site : m₁.heap.Site m.heap.frames.size (callKnown L f p arr args m)

theorem asks_parameters (f : Function) :
    List.Forall₂ (Asks L (callKnown L f p arr args m)) (f.definition p).parameters
      (f.operation.questions arr args) := by
  obtain ⟨op⟩ | ⟨op⟩ := f <;> cases op <;>
    repeat first
      | exact .nil
      | refine .cons (.test rfl rfl (.inl rfl) (.inr ⟨rfl, .predicate _⟩)) ?_
      | refine .cons (.nothing rfl) ?_

theorem bound_starts (hl : L.LoadedIn m.heap) (f : Function) :
    Starts L f p arr args m (m.bound ⟨f.definition p, L.frame⟩ (f.operation.values arr args)
      (f.operation.rest? args)) := by
  cases hv : f.operation.isVariadic with
  | true =>
    have hgrown := m.grown_newArray args.toArray
    have hbound : f.operation.bound arr args m =
        f.operation.values arr args ++ [(variadicName, .plain (.array m.heap.arrays.size))] := by
      rw [Operation.bound, hv, if_pos rfl]
    rw [Operation.rest?, if_pos hv]
    refine ⟨hgrown.trans (Machine.grown_adding _ _), by rw [if_pos hv]; rfl, ?_⟩
    rw [callKnown, hbound]
    exact .child (hl.adds hgrown.adds).knows (hl.adds hgrown.adds).frame_lt rfl rfl rfl
  | false =>
    have hbound : f.operation.bound arr args m = f.operation.values arr args := by
      rw [Operation.bound, hv, if_neg Bool.false_ne_true, List.append_nil]
    rw [Operation.rest?, if_neg (by simp [hv])]
    refine ⟨m.grown_adding _, by rw [if_neg (by simp [hv])]; rfl, ?_⟩
    rw [callKnown, hbound]
    exact .child hl.knows hl.frame_lt rfl rfl rfl

theorem Starts.adds {m₁ : Machine} (h : Starts L f p arr args m m₁) : m.heap.Adds m₁.heap := h.grown.adds

theorem height_le_one (q : Predicate) : q.height ≤ 1 := by cases q <;> decide

theorem not_isPredicateName (f : Function) : isPredicateName f.name = false := by
  obtain ⟨op⟩ | ⟨op⟩ := f <;> cases op <;> decide

/-- Calls of a function of the library run its body, with the same machine to begin with at all levels and for all
arguments that the parameters are bound to in the same way. -/
theorem call_runs (f : Function) (hl : L.LoadedIn m.heap) (hd : m.depth + 1 < m.settings.callLimit.count)
    (ha : f.operation.Accepts arr args) :
    ∃ p m₁, Starts L f p arr args m m₁ ∧ ∀ n args' span, f.operation.Fits args' →
      f.operation.values arr args' = f.operation.values arr args →
      f.operation.rest? args' = f.operation.rest? args →
      (ofLevel (n + 10)).call (L.value f) (arr :: args') span m =
        (Eval.deeper m.depth ((ofLevel (n + 9)).exec (f.body p) m.heap.frames.size) >>=
          bodyResult ⟨f.definition p, L.frame⟩ span) m₁ := by
  obtain ⟨p, hc⟩ := hl.definition f
  have hs : Starts L f p arr args m _ := bound_starts hl f
  obtain ⟨m₁, hparameters, hgrown, harrays⟩ := checkParameters_ok (n := 0) (asks_parameters f) (hl.adds hs.adds)
    hs.site (fun q v _ => by
      rw [hs.grown.depth, hs.grown.settings]
      exact Nat.lt_of_le_of_lt (Nat.add_le_add_left (height_le_one q) _) hd) ha
  refine ⟨p, m₁, ⟨hs.grown.trans hgrown, harrays.trans hs.arrays, hs.site.adds hgrown.adds⟩,
    fun n args' span hfits hvalues hrest => ?_⟩
  have hchecks : (ofLevel (n + 9)).checkConstraints ⟨f.definition p, L.frame⟩ m.heap.frames.size span
      (m.bound ⟨f.definition p, L.frame⟩ (f.operation.values arr args) (f.operation.rest? args)) = .ok () m₁ := by
    -- the checks end at the least level, and in the same way at the others
    have hlevel : ((f.definition p).parameters.forM
          ((ofLevel 9).checkParameter ⟨f.definition p, L.frame⟩ m.heap.frames.size span)).Approximates
        ((f.definition p).parameters.forM
          ((ofLevel (n + 9)).checkParameter ⟨f.definition p, L.frame⟩ m.heap.frames.size span)) :=
      (shifts_forM fun _ _ => (relocates_ofLevel (Nat.le_add_left 9 n) rfl).checkParameter).approximates
    obtain ⟨m', hout⟩ | hsame := hlevel _
    · cases hout.symm.trans (hparameters _ span)
    · rw [checkConstraints, bind_ok (hsame.symm.trans (hparameters _ span))]
      rfl
  have hresult : (fun v => checkPredicate ⟨f.definition p, L.frame⟩ v span) = pure := by
    funext v
    show (if isPredicateName f.name ∧ v.kind ≠ .boolean then _ else _ : Eval Value) = _
    rw [if_neg (by simp [not_isPredicateName])]
  rw [Layout.value, call_function hc,
    callClosure_eq (Nat.lt_of_succ_lt hd) rfl (bindings_definition f arr hfits), hvalues, hrest, bind_ok hchecks,
    hresult]
  exact congrArg (fun k => (Eval.deeper m.depth _ >>= k) m₁) (funext fun r => bind_pure (bodyResult _ span r))

/-- A call of a function of the library, by the way its body ends. -/
theorem call_library (f : Function) (hl : L.LoadedIn m.heap) (hd : m.depth + 1 < m.settings.callLimit.count)
    (hfits : f.operation.Fits args) (ha : f.operation.Accepts arr args) :
    ∃ p m₁, Starts L f p arr args m m₁ ∧ ∀ {n} span r m₂,
      ((ofLevel (n + 9)).exec (f.body p) m.heap.frames.size).EndsBy (m₁.withDepth (m.depth + 1)) r m₂ →
      (ofLevel (n + 10)).call (L.value f) (arr :: args) span m =
        bodyResult ⟨f.definition p, L.frame⟩ span r (m₂.withDepth m.depth) := by
  obtain ⟨p, m₁, hs, hcall⟩ := call_runs f hl hd ha
  refine ⟨p, m₁, hs, fun {n} span r m₂ hbody => ?_⟩
  rw [hcall n args span hfits rfl rfl, bind_ok (deeper_ends hbody)]

/-- The value of a body does not depend on the call. -/
theorem bodyResult_ok {c c' : Closure} {span' : Option Span} {r : Except Exit Value}
    (h : bodyResult c span r m = .ok v m') : bodyResult c' span' r m = .ok v m' := by
  unfold bodyResult at h ⊢
  split at h <;> first | exact h | cases h

/-- The value of a call depends on what the parameters are bound to alone. -/
theorem call_congr (f : Function) {args' : List Value} {span' : Option Span} (hl : L.LoadedIn m.heap)
    (hd : m.depth + 1 < m.settings.callLimit.count) (ha : f.operation.Accepts arr args)
    (hfits : f.operation.Fits args) (hfits' : f.operation.Fits args')
    (hvalues : f.operation.values arr args' = f.operation.values arr args)
    (hrest : f.operation.rest? args' = f.operation.rest? args)
    (h : (ofLevel (n + 10)).call (L.value f) (arr :: args) span m = .ok v m') :
    (ofLevel (n + 10)).call (L.value f) (arr :: args') span' m = .ok v m' := by
  obtain ⟨p, m₁, -, hcall⟩ := call_runs f hl hd ha
  rw [hcall n args span hfits rfl rfl] at h
  obtain ⟨r, m₂, hbody, hresult⟩ := of_bind_ok h
  rw [hcall n args' span' hfits' hvalues hrest, bind_ok hbody]
  exact bodyResult_ok hresult

/-- The arguments of a call that gives a value fit and are accepted. -/
theorem call_library_ok (f : Function) (hl : L.LoadedIn m.heap)
    (h : (ofLevel (n + 10)).call (L.value f) (arr :: args) span m = .ok v m') :
    m.depth < m.settings.callLimit.count ∧ f.operation.Fits args ∧
      (m.depth + 1 < m.settings.callLimit.count → f.operation.Accepts arr args) := by
  obtain ⟨p, hc⟩ := hl.definition f
  rw [Layout.value, call_function hc] at h
  obtain ⟨hd, bound, hb⟩ := callClosure_ok h
  have hfits := fits_of_bindings hb
  refine ⟨hd, hfits, fun hd' q v hq => ?_⟩
  have hs : Starts L f p arr args m _ := bound_starts hl f
  rw [callClosure_eq hd rfl (bindings_definition f arr hfits)] at h
  obtain ⟨_, m₁, hchecks, -⟩ := of_bind_ok h
  obtain ⟨_, m₂, hparameters, -⟩ := of_bind_ok hchecks
  refine accepts_of_checkParameters (n := n) (asks_parameters f) (hl.adds hs.adds) hs.site (fun q v _ => ?_)
    hparameters hq
  rw [hs.grown.depth, hs.grown.settings]
  exact Nat.lt_of_le_of_lt (Nat.add_le_add_left (height_le_one q) _) hd'

/-! ## Bodies -/

/-- A place in the body of a function that was called where the heap was `h₀`: a frame that was not there then,
from which the native functions are found. -/
structure Inside (L : Layout) (h₀ : Heap) (F : Nat) (known : Text → Value → Prop) (h : Heap) : Prop where
  start : L.LoadedIn h₀
  adds : h₀.Adds h
  outer : h₀.frames.size ≤ F
  site : h.Site F known
  native : known "native" L.nativesValue

namespace Inside

variable {h₀ h h' : Heap} {name : Text} {fr : Frame} {fs : List Frame}

theorem loaded (hi : Inside L h₀ F known h) : L.LoadedIn h := hi.start.adds hi.adds

theorem later (hi : Inside L h₀ F known h) (ha : h.Adds h') : Inside L h₀ F known h' :=
  ⟨hi.start, hi.adds.trans ha, hi.outer, hi.site.adds ha, hi.native⟩

theorem bind (hi : Inside L h₀ F known h) (hname : "native" ≠ name) :
    Inside L h₀ F (Binding name v known) (h.bind F (some name) v false) :=
  ⟨hi.start, hi.adds.bind hi.outer, hi.outer, hi.site.bind, .inr ⟨hname, hi.native⟩⟩

/-- A frame inside that of the body. -/
theorem child (hi : Inside L h₀ F known h) (hp : fr.parent = some F) (hpure : fr.isPure = false)
    (hc : fr.constants = []) (hname : fr.bindings.get? (some "native") = none) :
    Inside L h₀ h.frames.size (fr.Knowing known) (h.adding (fr :: fs)) where
  start := hi.start
  adds := hi.adds.trans (Heap.extends_adding _ _).toAdds
  outer := hi.adds.frames_le
  site := .child hi.site.knows hi.site.lt hp hpure hc
  native := .inr ⟨hname, hi.native⟩

end Inside

theorem Starts.inside {m₁ : Machine} (hl : L.LoadedIn m.heap) (h : Starts L f p arr args m m₁) :
    Inside L m.heap m.heap.frames.size (callKnown L f p arr args m) m₁.heap where
  start := hl
  adds := h.adds
  outer := Nat.le_refl _
  site := h.site
  native := .inr ⟨by obtain ⟨op⟩ | ⟨op⟩ := f <;> cases op <;> rfl, .native⟩

theorem callKnown_array : callKnown L f p arr args m "arr" arr := by
  obtain ⟨op⟩ | ⟨op⟩ := f <;> cases op <;> exact .inl rfl

end ScriptEngine.ArrayLibrary

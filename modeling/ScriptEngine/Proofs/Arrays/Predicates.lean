import ScriptEngine.Proofs.Arrays.Library
import ScriptEngine.Proofs.Eval.Calling

/-!
# Runs of library code

What the expressions and statements that the library is made of do from a machine, one lemma for each form, and
what its predicates answer.

* `eval_callMember`: a call of a native function.
* `call_predicate`: a predicate answers whether it accepts its argument (`Predicate.accepts`), and changes nothing
  but for further frames.
-/

namespace ScriptEngine

namespace Heap

variable {h : Heap} {a b : Value}

theorem equal_of_same (hc : h.compare a b = .same) : h.equal a b = true := by
  rw [equal, agree]
  split <;> simp_all [agree]

theorem equal_of_differ (hc : h.compare a b = .differ) : h.equal a b = false := by
  rw [equal, agree]
  split <;> simp_all

theorem equal_string (s t : Text) : h.equal (.string s) (.string t) = decide (s = t) := by
  have hc : h.compare (.string s) (.string t) = if Payload.string s = .string t then .same else .differ := rfl
  by_cases hst : s = t
  · rw [equal_of_same (by rw [hc, if_pos (by rw [hst])]), decide_eq_true hst]
  · rw [equal_of_differ (by rw [hc, if_neg (by simpa using hst)]), decide_eq_false hst]

/-- A number without tags equals numbers of the same value that carry no variant. -/
theorem equal_number {x : Number} {q : Rat} (hb : b.payload = .number x) :
    h.equal (.number q) b = decide (b.variant? = none ∧ q = x.value) := by
  have hc : h.compare (.number q) b =
      if none ≠ b.variant? then .differ else if (Number.ofRat q).value = x.value then .same else .differ := by
    rw [compare, hb]
    rfl
  rw [Number.value_ofRat] at hc
  by_cases hv : b.variant? = none
  · by_cases hq : q = x.value
    · rw [equal_of_same (by rw [hc, hv, if_neg (by simp), if_pos hq]), decide_eq_true ⟨hv, hq⟩]
    · rw [equal_of_differ (by rw [hc, hv, if_neg (by simp), if_neg hq]), decide_eq_false fun hb => hq hb.2]
  · rw [equal_of_differ (by rw [hc, if_pos (Ne.symm hv)]), decide_eq_false fun hb => hv hb.1]

end Heap

namespace ArrayLibrary

open Eval Interp

variable {p : Nat → Span} {i n F id : Nat} {m m' m'' : Machine} {known : Text → Value → Prop} {name : Text}
  {v w arr : Value} {I : Interp} {span : Option Span} {s : Span} {e l r : Expr} {L : Layout}

/-! ## Expressions -/

theorem eval_ref (hk : m.heap.Knows F known) (hv : known name v) :
    (ofLevel (n + 1)).eval (ref p i name) F m = .ok v m :=
  readHeap_ok (hk name v hv _)

theorem evalList_cons {es : List Expr} {vs : List Value} (he : I.eval e F m = .ok v m')
    (hes : I.evalList F es m' = .ok vs m'') : I.evalList F (e :: es) m = .ok (v :: vs) m'' := by
  rw [evalList, bind_ok he, bind_ok hes]
  rfl

theorem eval_binary {op : BinaryOp} (hl : (ofLevel n).eval l F m = .ok v m')
    (hr : (ofLevel n).eval r F m' = .ok w m'') :
    (ofLevel (n + 1)).eval (.binary s l op r) F m = (ofLevel n).binary op v w s m'' := by
  have hexpr : (ofLevel (n + 1)).eval (.binary s l op r) F = (do
      let v ← (ofLevel n).eval l F
      let w ← (ofLevel n).eval r F
      (ofLevel n).binary op v w s : Eval Value) := rfl
  rw [hexpr, bind_ok hl, bind_ok hr]

/-- A logical operator, of which the right operand is evaluated if the left one does not decide. -/
theorem eval_logical {op : LogicalOp} {a b : Bool} (hl : (ofLevel n).eval l F m = .ok (.bool a) m')
    (hr : a ≠ decisive op → (ofLevel n).eval r F m' = .ok (.bool b) m') :
    (ofLevel (n + 1)).eval (.logical s l op r) F m =
      .ok (.bool (if a = decisive op then a else b)) m' := by
  have hleft : (ofLevel n).logicalOperand op "left" l F m = .ok (.bool a, a) m' := by
    rw [logicalOperand, bind_ok hl]
    rfl
  have hexpr : (ofLevel (n + 1)).eval (.logical s l op r) F = (ofLevel n).logical l op r F := rfl
  rw [hexpr, Interp.logical, bind_ok hleft]
  by_cases ha : a = decisive op
  · simp only [if_pos ha]
    rfl
  · have hright : (ofLevel n).logicalOperand op "right" r F m' = .ok (.bool b, b) m' := by
      rw [logicalOperand, bind_ok (hr ha)]
      rfl
    simp only [if_neg ha]
    rw [bind_ok hright]
    rfl

theorem eval_callNamed {f : Text} {args : List Expr} {vs : List Value} (hk : m.heap.Knows F known)
    (hf : known f v) (hargs : (ofLevel (n + 1)).evalList F args m = .ok vs m') :
    (ofLevel (n + 2)).eval (callNamed p i f args) F m = (ofLevel (n + 1)).call v vs (some (p i)) m' := by
  have hexpr : (ofLevel (n + 2)).eval (callNamed p i f args) F = (do
      let v ← (ofLevel (n + 1)).eval (ref p (i + 1) f) F
      (ofLevel (n + 1)).call v (← (ofLevel (n + 1)).evalList F args) (p i) : Eval Value) := rfl
  rw [hexpr, bind_ok (eval_ref hk hf), bind_ok hargs]

/-- A call of a native function, which is found before its arguments are evaluated. -/
theorem eval_callMember {holder : Text} {f : Native} {args : List Expr} (hl : L.LoadedIn m.heap)
    (hk : m.heap.Knows F known) (hh : known holder L.nativesValue) (hf : f ∈ Native.standard) :
    (ofLevel (n + 2)).eval (callMember p i holder f args) F m =
      ((ofLevel (n + 1)).evalList F args >>= fun vs => f.call (ofLevel n) vs (some (p i))) m := by
  have hreceiver : (ofLevel (n + 1)).eval (ref p (i + 2) holder) F m = .ok L.nativesValue m := eval_ref hk hh
  have hmethod : readHeap (·.method L.nativesValue f.name (p (i + 1))) m = .ok (.plain (.native f), false) m := by
    refine readHeap_ok ?_
    unfold Heap.method Heap.ownMember?
    simp only [Layout.nativesValue, Value.plain, hl.natives f hf]
  have hcall : (ofLevel (n + 2)).eval (callMember p i holder f args) F =
      (ofLevel (n + 1)).callExpr (.member (p (i + 1)) (ref p (i + 2) holder) f.name) args (p i) F := rfl
  rw [hcall, callExpr, bind_ok hreceiver, bind_ok hmethod]
  rfl

/-! ## Statements -/

theorem exec_run : (ofLevel (n + 1)).exec [run p i e] F = (ofLevel n).eval e F := rfl

theorem exec_cons {st t : Stmt} {rest : List Stmt} (hs : (ofLevel n).stmt st F m = .ok v m') :
    (ofLevel (n + 1)).exec (st :: t :: rest) F m = (ofLevel (n + 1)).exec (t :: rest) F m' := by
  have hexec : (ofLevel (n + 1)).exec (st :: t :: rest) F = (do
      let _ ← (ofLevel n).stmt st F
      (ofLevel (n + 1)).exec (t :: rest) F : Eval Value) := rfl
  rw [hexec, bind_ok hs]

theorem stmt_declare (he : I.eval e F m = .ok v m') (hs : m'.heap.Site F known) :
    I.stmt (declare p i name e) F m = .ok v (m'.withHeap (m'.heap.bind F (some name) v false)) := by
  have hdefine : Eval.define F (some name) v false (some (p i)) m' =
      .ok () (m'.withHeap (m'.heap.bind F (some name) v false)) := by
    show (if m'.heap.isConstant F (some name) then _ else _ : Eval Unit) m' = _
    rw [hs.isConstant]
    rfl
  have hstmt : I.stmt (declare p i name e) F = (do
      let v ← I.eval e F
      Eval.define F (some name) v false (some (p i))
      return v : Eval Value) := rfl
  rw [hstmt, bind_ok he, bind_ok hdefine]
  rfl

/-! ## Natives -/

theorem call_typeOf : Native.typeOf.call I [v] span m = .ok (.string v.typeName) m := rfl

theorem call_floor {x : Number} (hv : v.payload = .number x) :
    Native.floor.call I [v] span m = .ok (.number x.value.floor) m := by
  obtain ⟨payload, tags⟩ := v
  cases hv
  rfl

/-! ## Predicates -/

/-- Whether a predicate accepts a value. -/
def Predicate.accepts (v : Value) : Predicate → Bool
  | isArray => v.kind = .array
  | isNumber => v.kind = .number
  | isFunction => v.kind = .function || v.kind = .native
  | isInt =>
    match v.payload with
    | .number x => v.variant? = none ∧ (x.value.floor : Rat) = x.value
    | _ => false

/-- How many calls deep a predicate goes below itself. -/
def Predicate.height : Predicate → Nat
  | isInt => 1
  | _ => 0

theorem Kind.name_inj {k k' : Kind} : k.name = k'.name ↔ k = k' := by
  cases k <;> cases k' <;> decide

/-- The frame of a call of a predicate. -/
def predicateFrame (L : Layout) (q : Predicate) (p : Nat → Span) (v : Value) : Frame :=
  Closure.callFrame ⟨q.definition p, L.predicateFrame⟩ [("v", v)]

/-- What is known in a call of a predicate. -/
abbrev predicateKnown (L : Layout) (q : Predicate) (p : Nat → Span) (v : Value) : Text → Value → Prop :=
  (predicateFrame L q p v).Knowing L.PredicateNames

theorem eval_typeOfArgument (hl : L.LoadedIn m.heap) (hk : m.heap.Knows F known)
    (hn : known nativesName L.nativesValue) (hv : known "v" v) :
    (ofLevel (n + 2)).eval (Predicate.typeOfArgument p i) F m = .ok (.string v.typeName) m := by
  have hargs : (ofLevel (n + 1)).evalList F [ref p (i + 3) "v"] m = .ok [v] m :=
    evalList_cons (eval_ref hk hv) rfl
  rw [Predicate.typeOfArgument, eval_callMember hl hk hn (by decide), bind_ok hargs]
  exact call_typeOf

theorem eval_isText {t t' : Text} (he : (ofLevel (n + 1)).eval e F m = .ok (.string t) m') :
    (ofLevel (n + 2)).eval (Predicate.isText p i e t') F m = .ok (.bool (t = t')) m' := by
  have hlit : (ofLevel (n + 1)).eval (.literal (p (i + 1)) (.string t')) F m' = .ok (.string t') m' := rfl
  rw [Predicate.isText, eval_binary he hlit, ← Heap.equal_string (h := m'.heap)]
  rfl

/-- The machine where the body of a predicate begins. -/
abbrev predicateStart (L : Layout) (q : Predicate) (p : Nat → Span) (v : Value) (m : Machine) : Machine :=
  (m.withHeap (m.heap.adding [predicateFrame L q p v])).withDepth (m.depth + 1)

/-- A call of a predicate whose body gives a boolean. -/
theorem call_predicate_of_body {q : Predicate} {b : Bool} (hl : L.LoadedIn m.heap)
    (hd : m.depth < m.settings.callLimit.count)
    (hbody : ∀ p, ∃ m₂, (ofLevel n).exec (q.body p) m.heap.frames.size (predicateStart L q p v m) =
        .ok (.bool b) m₂ ∧ (m.withDepth (m.depth + 1)).Grown m₂ ∧ m₂.heap.arrays = m.heap.arrays) :
    ∃ m', (∀ span, (ofLevel (n + 1)).call (L.predicateValue q) [v] span m = .ok (.bool b) m') ∧ m.Grown m' ∧
      m'.heap.arrays = m.heap.arrays := by
  obtain ⟨p, hc⟩ := hl.predicateDefinition q
  obtain ⟨m₂, hrun, hgrown, harrays⟩ := hbody p
  have hb : bindings (q.definition p) [v] = some (boundTo [("v", v)] none) := rfl
  refine ⟨m₂.withDepth m.depth, fun span => ?_, hgrown.leaving, harrays⟩
  rw [Layout.predicateValue, call_function hc, callClosure_ends hd rfl hb rfl (attempt_ok hrun)]
  have hname : ¬(isPredicateName q.name ∧ (Value.bool b).kind ≠ .boolean) := fun h => h.2 rfl
  show (if isPredicateName q.name ∧ (Value.bool b).kind ≠ .boolean then _ else _ : Eval Value) _ = _
  rw [if_neg hname]
  rfl

section

variable {q : Predicate}

theorem Layout.LoadedIn.predicateStart (hl : L.LoadedIn m.heap) : L.LoadedIn (predicateStart L q p v m).heap :=
  hl.adds (Heap.extends_adding _ _).toAdds

theorem predicateStart_site (hl : L.LoadedIn m.heap) :
    (predicateStart L q p v m).heap.Site m.heap.frames.size (predicateKnown L q p v) :=
  .child hl.predicateKnows hl.predicateFrame_lt rfl rfl rfl

theorem predicateStart_grown : (m.withDepth (m.depth + 1)).Grown (predicateStart L q p v m) :=
  (m.withDepth (m.depth + 1)).grown_adding _

theorem predicateKnown_natives : predicateKnown L q p v nativesName L.nativesValue := .inr ⟨rfl, .natives⟩

theorem predicateKnown_argument : predicateKnown L q p v "v" v := .inl rfl

end

/-- A predicate that asks for one kind. -/
theorem call_kindPredicate {q : Predicate} {k : Kind} (hl : L.LoadedIn m.heap)
    (hd : m.depth < m.settings.callLimit.count)
    (hq : ∀ p, q.body p = [run p 10 (Predicate.isText p 11 (Predicate.typeOfArgument p 13) k.name)]) :
    ∃ m', (∀ span, (ofLevel (n + 5)).call (L.predicateValue q) [v] span m = .ok (.bool (v.kind = k)) m') ∧
      m.Grown m' ∧ m'.heap.arrays = m.heap.arrays := by
  refine call_predicate_of_body hl hd fun p => ⟨predicateStart L q p v m, ?_, predicateStart_grown, rfl⟩
  have htype := eval_typeOfArgument (n := n) (p := p) (i := 13) (hl.predicateStart (q := q) (p := p) (v := v))
    (predicateStart_site hl).knows predicateKnown_natives predicateKnown_argument
  rw [hq, exec_run, eval_isText htype]
  simp only [Value.typeName, Kind.name_inj]

theorem call_isNumber (hl : L.LoadedIn m.heap) (hd : m.depth < m.settings.callLimit.count) :
    ∃ m', (∀ span, (ofLevel (n + 5)).call (L.predicateValue .isNumber) [v] span m =
        .ok (.bool (v.kind = .number)) m') ∧ m.Grown m' ∧ m'.heap.arrays = m.heap.arrays :=
  call_kindPredicate hl hd fun _ => rfl

theorem call_isFunction (hl : L.LoadedIn m.heap) (hd : m.depth < m.settings.callLimit.count) :
    ∃ m', (∀ span, (ofLevel (n + 5)).call (L.predicateValue .isFunction) [v] span m =
        .ok (.bool (v.kind = .function || v.kind = .native)) m') ∧ m.Grown m' ∧
      m'.heap.arrays = m.heap.arrays := by
  refine call_predicate_of_body hl hd fun p => ?_
  have hs := predicateStart_site (p := p) (v := v) (q := .isFunction) hl
  have ht : (ofLevel (n + 3)).eval (Predicate.typeOfArgument p 11) m.heap.frames.size
      (predicateStart L .isFunction p v m) = .ok (.string v.typeName) (predicateStart L .isFunction p v m) :=
    eval_typeOfArgument hl.predicateStart hs.knows predicateKnown_natives predicateKnown_argument
  obtain ⟨m₂, hm₂⟩ : ∃ m₂, m₂ = (predicateStart L .isFunction p v m).withHeap
    ((predicateStart L .isFunction p v m).heap.bind m.heap.frames.size (some "t") (.string v.typeName) false) :=
    ⟨_, rfl⟩
  have hdeclare : (ofLevel (n + 3)).stmt (declare p 10 "t" (Predicate.typeOfArgument p 11)) m.heap.frames.size
      (predicateStart L .isFunction p v m) = .ok (.string v.typeName) m₂ := by
    rw [hm₂]
    exact stmt_declare ht hs
  have ht₂ (i : Nat) : (ofLevel (n + 1)).eval (ref p i "t") m.heap.frames.size m₂ = .ok (.string v.typeName) m₂ := by
    rw [hm₂]
    exact eval_ref hs.bind.knows (.inl ⟨rfl, rfl⟩)
  have hgrown : (m.withDepth (m.depth + 1)).Grown m₂ := by
    rw [hm₂]
    exact predicateStart_grown.bind (Nat.le_refl _)
  refine ⟨m₂, ?_, hgrown, by rw [hm₂]; rfl⟩
  have hkind : (if decide (v.typeName = "function") = decisive .or then decide (v.typeName = "function")
      else decide (v.typeName = "native_function")) = (v.kind = .function || v.kind = .native) := by
    rw [Value.typeName]
    cases v.kind <;> rfl
  rw [Predicate.body, exec_cons hdeclare, exec_run,
    eval_logical (eval_isText (ht₂ 24)) fun _ => eval_isText (ht₂ 27), hkind]

theorem call_isInt (hl : L.LoadedIn m.heap) (hd : m.depth + 1 < m.settings.callLimit.count) :
    ∃ m', (∀ span, (ofLevel (n + 9)).call (L.predicateValue .isInt) [v] span m =
        .ok (.bool (Predicate.isInt.accepts v)) m') ∧ m.Grown m' ∧ m'.heap.arrays = m.heap.arrays := by
  refine call_predicate_of_body hl (Nat.lt_of_succ_lt hd) fun p => ?_
  have hs := predicateStart_site (p := p) (v := v) (q := .isInt) hl
  obtain ⟨m', hnumber, hgrown, harrays⟩ := call_isNumber (n := n) (v := v)
    (hl.predicateStart (q := .isInt) (p := p) (v := v)) hd
  have hl' := hl.predicateStart.adds hgrown.adds
  have hk' := (hs.adds hgrown.adds).knows
  have hargs : (ofLevel (n + 5)).evalList m.heap.frames.size [ref p 14 "v"] (predicateStart L .isInt p v m) =
      .ok [v] (predicateStart L .isInt p v m) := evalList_cons (eval_ref hs.knows predicateKnown_argument) rfl
  have hleft := (eval_callNamed (p := p) (i := 12) hs.knows (.inr ⟨rfl, .isNumber⟩) hargs).trans (hnumber _)
  refine ⟨m', ?_, predicateStart_grown.trans hgrown, harrays⟩
  rw [Predicate.body, exec_run]
  by_cases hv : v.kind = .number
  · obtain ⟨x, hx⟩ : ∃ x, v.payload = .number x := by
      cases hx : v.payload with
      | number x => exact ⟨x, rfl⟩
      | _ => simp [Value.kind, hx, Payload.kind] at hv
    have hargs' : (ofLevel (n + 4)).evalList m.heap.frames.size [ref p 19 "v"] m' = .ok [v] m' :=
      evalList_cons (eval_ref hk' predicateKnown_argument) rfl
    have hfloor : (ofLevel (n + 5)).eval (callMember p 16 nativesName .floor [ref p 19 "v"]) m.heap.frames.size m' =
        .ok (.number x.value.floor) m' := by
      rw [eval_callMember hl' hk' predicateKnown_natives (by decide), bind_ok hargs', call_floor hx]
    have hright : (ofLevel (n + 6)).eval (.binary (p 15) (callMember p 16 nativesName .floor [ref p 19 "v"])
        (.compare .eq) (ref p 20 "v")) m.heap.frames.size m' = .ok (.bool (Predicate.isInt.accepts v)) m' := by
      rw [eval_binary hfloor (eval_ref hk' predicateKnown_argument)]
      have haccepts : Predicate.isInt.accepts v = m'.heap.equal (.number x.value.floor) v := by
        rw [Heap.equal_number hx, Predicate.accepts, hx]
      rw [haccepts]
      rfl
    rw [eval_logical hleft fun _ => hright, if_neg (by simp [hv, decisive])]
  · have haccepts : Predicate.isInt.accepts v = false := by
      rw [Predicate.accepts]
      split
      · next x hx => exact absurd (by rw [Value.kind, hx, Payload.kind]) hv
      · rfl
    have hfalse : decide (v.kind = .number) = decisive .and := decide_eq_false hv
    rw [eval_logical (b := false) hleft fun hne => absurd hfalse hne, if_pos hfalse, hfalse, haccepts]
    rfl

/-- A predicate answers whether it accepts its argument. -/
theorem call_predicate (q : Predicate) (hl : L.LoadedIn m.heap)
    (hd : m.depth + q.height < m.settings.callLimit.count) :
    ∃ m', (∀ span, (ofLevel (n + 9)).call (L.predicateValue q) [v] span m = .ok (.bool (q.accepts v)) m') ∧
      m.Grown m' ∧ m'.heap.arrays = m.heap.arrays := by
  cases q with
  | isArray => exact call_kindPredicate hl hd fun _ => rfl
  | isNumber => exact call_kindPredicate hl hd fun _ => rfl
  | isFunction => exact call_isFunction hl hd
  | isInt => exact call_isInt hl hd

end ArrayLibrary

end ScriptEngine

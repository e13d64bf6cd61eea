import ScriptEngine.Proofs.Eval.Statement
import ScriptEngine.Session

/-!
# Jumps across calls

The statements of a body are run where their jumps end: a return gives the result of the call, and a
break or continue that leaves the body is a fault. The constraints of a function are checked before
that, and nothing there ends a jump.

* **Bodies** let no jump out of a call. A call ends by a jump exactly if the check of the constraints
  does (`Interp.callClosure_error_iff`).
* **Constraints** are where a jump that leaves a call was written. `Contract.exposing` is the contract
  that says so, and every level of evaluation respects it (`Contract.governs_ofLevel`).
-/

namespace ScriptEngine

namespace Contract

variable {α β : Type} {x : Eval α} {f : α → Eval β} {m m' : Machine} {e : Exit}

/-! ## Where a jump comes from in a sequence -/

/-- The contract by which no jump ends an evaluation. -/
def jumpless : Contract where
  holds _ := True
  step _ _ := True
  exits e _ := e.jump? = none
  holds_of_local _ _ := trivial
  holds_newClosure _ _ := trivial
  step_of_follows _ := trivial
  step_trans _ _ := trivial
  exits_of_step he _ := he
  exits_plain he := he
  holds_noting _ := trivial
  exits_noting he := he
  step_try _ _ := trivial

theorem Keeps.jump (hx : jumpless.Keeps x) (h : x m = .error e m') : e.jump? = none := by
  have ha := (hx m trivial).2
  rw [h] at ha
  exact ha.2.2

/-- What is done outside a body respects the contract whatever the body does. -/
theorem keeps_jumpless_allowing : (jumpless.allowing (·.jump? ≠ none)).Keeps x := by
  refine keeps_of_accepts fun m _ => ?_
  cases h : x m with
  | ok a m' => exact ⟨trivial, trivial⟩
  | error e m' => exact ⟨trivial, trivial, (em (e.jump? = none)).symm⟩

theorem encloses_jumpless {d : Nat} : jumpless.Encloses jumpless d :=
  ⟨fun _ _ _ => trivial, fun _ _ _ _ => trivial, id, id⟩

theorem bind_error_iff : (x >>= f) m = .error e m' ↔
    x m = .error e m' ∨ ∃ a m₁, x m = .ok a m₁ ∧ f a m₁ = .error e m' := by
  simp only [Bind.bind, EStateM.bind]
  cases x m with
  | ok a m₁ => simp
  | error e₁ m₁ => simp

/-- A jump does not come from the first evaluation of a sequence. -/
theorem Keeps.bind_jump (hx : jumpless.Keeps x) (hj : e.jump? ≠ none) :
    (x >>= f) m = .error e m' ↔ ∃ a m₁, x m = .ok a m₁ ∧ f a m₁ = .error e m' :=
  bind_error_iff.trans ⟨fun h => h.resolve_left fun h => hj (hx.jump h), .inr⟩

/-- A jump comes from the first evaluation of a sequence. -/
theorem bind_jump_iff (hf : ∀ a, jumpless.Keeps (f a)) (hj : e.jump? ≠ none) :
    (x >>= f) m = .error e m' ↔ x m = .error e m' := by
  refine bind_error_iff.trans ⟨fun h => h.resolve_right ?_, .inl⟩
  rintro ⟨a, m₁, -, h⟩
  exact hj ((hf a).jump h)

end Contract

open Contract in
/-- A call ends by a jump if and only if it is not too deep, its parameters can be bound, and the check
of its constraints ends by that jump. -/
theorem Interp.callClosure_error_iff (I : Interp) {c : Closure} {args : List Value}
    {span : Option Span} {m m' : Machine} {e : Exit} (hj : e.jump? ≠ none) :
    I.callClosure c args span m = .error e m' ↔
      m.depth < m.settings.callLimit.count ∧ ∃ frame m₁ m₂,
        Eval.childFrame c.frame ("call:" ++ c.name) c.definition.isPure m = .ok frame m₁ ∧
        bindParameters c frame args span m₁ = .ok () m₂ ∧
        I.checkConstraints c frame span m₂ = .error e m' := by
  have hbody (frame : Nat) : jumpless.Keeps (do
      let outcome ← Eval.deeper m.depth (I.exec c.definition.body.statements frame)
      checkPredicate c (← bodyResult c span outcome) span) := by
    rw [← bind_assoc]
    exact (meets_body (m := m) encloses_jumpless trivial rfl (fun _ => id)
      keeps_jumpless_allowing).bind fun _ => Eval.isPlain_checkPredicate.keeps
  show (if m.settings.callLimit.count ≤ m.depth then _ else _ : Eval Value) m = _ ↔ _
  split
  · next h =>
    refine ⟨fun he => absurd (keeps_failWith.jump he) hj, fun he => absurd he.1 (Nat.not_lt.mpr h)⟩
  · next h =>
    rw [keeps_childFrame.bind_jump hj]
    simp only [keeps_bindParameters.bind_jump hj, bind_jump_iff (fun _ => hbody _) hj]
    constructor
    · rintro ⟨frame, m₁, h₁, _, m₂, h₂, h₃⟩
      exact ⟨Nat.lt_of_not_le h, frame, m₁, m₂, h₁, h₂, h₃⟩
    · rintro ⟨-, frame, m₁, m₂, h₁, h₂, h₃⟩
      exact ⟨frame, m₁, h₁, (), m₂, h₂, h₃⟩

/-! ## Where a jump that leaves a call was written -/

/-- A function of the heap has a constraint that exposes the jump. -/
def Heap.ExposesJump (h : Heap) (j : Jump × Span) : Prop :=
  ∃ c ∈ h.closures, ∃ n ∈ c.definition.constraints, n.Exposes j

theorem Heap.Grows.mem_closures {h h' : Heap} (hg : h.Grows h') {c : Closure} (hc : c ∈ h.closures) :
    c ∈ h'.closures :=
  Array.mem_toList_iff.mp (hg.closures.subset (Array.mem_toList_iff.mpr hc))

namespace Contract

/-- The contract by which only jumps that a constraint exposes end an evaluation. -/
def exposing : Contract where
  holds _ := True
  step m m' := m.heap.Grows m'.heap
  exits e m := ∀ j, e.jump? = some j → m.heap.ExposesJump j
  holds_of_local _ _ := trivial
  holds_newClosure _ _ := trivial
  step_of_follows hf := hf.heap
  step_trans hs hs' := hs.trans hs'
  exits_of_step he hs j hj := by
    obtain ⟨c, hc, hx⟩ := he j hj
    exact ⟨c, hs.mem_closures hc, hx⟩
  exits_plain he j hj := by simp [he] at hj
  holds_noting _ := trivial
  exits_noting he := he
  step_try hs hs' := hs.trans hs'

instance : exposing.Universal := ⟨fun _ => trivial⟩

theorem encloses_exposing {d : Nat} : exposing.Encloses exposing d :=
  ⟨fun _ _ _ => trivial, fun _ _ _ _ => trivial, id, id⟩

theorem loads_exposing : exposing.Loads where
  parsed _ := trivial
  reuse _ := ⟨trivial, .of_eq rfl⟩
  enter _ _ _ _ := trivial
  leave _ _ _ hs := ⟨trivial, hs⟩
  exits he := he

/-- A call of a function of the heap. What its constraints expose is exposed by the heap. -/
theorem exposing_callClosure {I : Interp} (G : exposing.Governs I I) {m : Machine} {c : Closure}
    {args : List Value} {span : Option Span} (hc : c ∈ m.heap.closures) :
    exposing.MeetsAt m (I.callClosure c args span) (I.callClosure c args span) := by
  have hcall : (exposing.within c.definition.constraints).Keeps (I.callClosure c args span) :=
    meets_callClosure (fun frame => G.checkConstraints trivial frame span) fun _ _ _ =>
      ⟨exposing, encloses_exposing, fun frame => G.exec _ frame⟩
  refine ⟨rfl, (hcall m trivial).2.mono fun e m' hs he j hj => ?_⟩
  obtain ⟨n, hn, j', hj', hx⟩ := he
  cases hj.symm.trans hj'
  exact ⟨c, hs.mem_closures hc, n, hn, hx⟩

/-- Every level of evaluation respects the contract. -/
theorem governs_ofLevel (n : Nat) : exposing.Governs (.ofLevel n) (.ofLevel n) := by
  induction n with
  | zero => exact governs_exhausted loads_exposing
  | succ n G =>
    refine ⟨⟨G.expr, fun f args span => ?_⟩, loads_exposing, rfl, G.stmts⟩
    refine meets_apply (fun m _ c _ _ hc => exposing_callClosure G hc) fun native _ => ?_
    exact meets_nativeCall (fun _ => G.call) fun _ => ⟨exposing, encloses_exposing, G.call⟩

end Contract

namespace Interp

/-- A jump leaves the call of a function if and only if it leaves the check of the function's
constraints, and a jump that leaves a call of any value was written in a constraint of a function of the
heap. -/
theorem jump_leaves_call (n : Nat) {args : List Value} {span : Option Span} {m m' : Machine} {e : Exit}
    {j : Jump × Span} (hj : e.jump? = some j) :
    (∀ c, (ofLevel n).callClosure c args span m = .error e m' ↔
      m.depth < m.settings.callLimit.count ∧ ∃ frame m₁ m₂,
        Eval.childFrame c.frame ("call:" ++ c.name) c.definition.isPure m = .ok frame m₁ ∧
        bindParameters c frame args span m₁ = .ok () m₂ ∧
        (ofLevel n).checkConstraints c frame span m₂ = .error e m') ∧
    ∀ f, (ofLevel n).call f args span m = .error e m' → m'.heap.ExposesJump j := by
  refine ⟨fun c => callClosure_error_iff _ (by simp [hj]), fun f h => ?_⟩
  have ha := ((Contract.governs_ofLevel n).call f args span m trivial).2
  rw [h] at ha
  exact ha.2.2 j hj

/-- A function whose where clause is a break. -/
def breaker : FunctionDef :=
  let s := Span.unknown
  { span := s, name := none, parameters := [], isPure := false,
    whereClauses := [.ifElse s (.literal s (.bool true)) ⟨s, [.breakLoop s]⟩ none],
    body := ⟨s, [.expression s (.literal s (.number 1))]⟩ }

/-- A machine with one function. -/
def machineWith (f : FunctionDef) : Machine :=
  let m := Session.blank {} []
  { m with heap := (m.heap.newClosure ⟨f, Session.mainFrame⟩).2 }

theorem call_breaker : ∃ m', (ofLevel 9).call (.plain (.function 0)) [] none (machineWith breaker) =
    .error (.broke Span.unknown) m' :=
  ⟨_, rfl⟩

theorem jump_leaves_call_breaker :
    ∃ m', (ofLevel 9).call (.plain (.function 0)) [] none (machineWith breaker) =
      .error (.broke Span.unknown) m' ∧ m'.heap.ExposesJump (.brk, Span.unknown) := by
  obtain ⟨m', h⟩ := call_breaker
  exact ⟨m', h, (jump_leaves_call 9 rfl).2 _ h⟩

/-- Runs a source in the main frame of a session without a prelude. -/
def runText (I : Interp) (s : Settings) (source : Text) : EStateM.Result Exit Machine Value :=
  (do I.runProgram (← Eval.parse source none) Session.mainFrame) (Session.blank s [])

/-- A run ended with a value. -/
def isOk : EStateM.Result Exit Machine Value → Bool
  | .ok _ _ => true
  | .error _ _ => false

/-- An endless loop whose body has no break of its own. -/
def endlessLoop : Text := "loop { (func() where if true { break } else { true } { 1 })() }"

/-- A jump that is written in a function leaves a call of it, and ends a loop of the caller. -/
theorem callee_break_ends_loop :
    (∃ e m', (ofLevel 9).call (.plain (.function 0)) [] none (machineWith breaker) = .error e m' ∧
      e.jump? ≠ none) ∧
    isOk ((ofLevel 16).runText {} endlessLoop) = true := by
  obtain ⟨m', h⟩ := call_breaker
  refine ⟨⟨_, m', h, by simp [Exit.jump?]⟩, ?_⟩
  rw [endlessLoop, Text.ofString_ofList]
  decide +kernel

end Interp

end ScriptEngine

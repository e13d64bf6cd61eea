import ScriptEngine.Proofs.Program.Form
import ScriptEngine.Proofs.Program.Parsed
import ScriptEngine.Proofs.Session.Contract

/-!
# Vetted runs

Some faults of the evaluator are about trees that no source is parsed into. A run never comes to them if all
that it evaluates is well formed.

* **Vetted runs** (`Interp.vetted`) do something else, no matter what, in place of an expression or a
  statement that is not well formed.
* **Well-formed machines** (`Machine.WellFormed`): the functions of the heap are well formed, and evaluation
  keeps them so, since a function that is defined is a part of what is evaluated. `Contract.vetting` is the
  contract that says this.
* On such machines vetted runs of programs that were parsed are the same as those that are not vetted
  (`Contract.governs_vetted`), and sessions come to no other machines.
-/

namespace ScriptEngine

/-- The functions of a machine are well formed all the way down. -/
def Machine.WellFormed (m : Machine) : Prop :=
  ∀ c ∈ m.heap.closures, (Node.function c.definition).Everywhere Node.WellFormed

/-- The interpreter of a level that does something else in place of what is not well formed. -/
def Interp.vetted (refuse : Eval Value) : Nat → Interp
  | 0 => exhausted
  | n + 1 =>
    { fuel := n + 1
      eval := fun e frame =>
        if (Node.expr e).WellFormed then (vetted refuse n).expr e frame else refuse
      exec := fun ss frame =>
        if ∀ s ∈ ss, (Node.stmt s).WellFormed then (vetted refuse n).stmts frame ss else refuse
      call := fun f args span => (vetted refuse n).apply f args span }

/-- A program that was parsed is well formed all the way down. -/
theorem Program.everywhere_of_parse {source : Text} {file : Option Text} {p : Program}
    (h : parse source file = .ok p) : (Node.program p).Everywhere Node.WellFormed := by
  obtain ⟨tokens, -, hplaced⟩ := placed_of_parse h
  exact hplaced.everywhere.mono fun _ hn => hn.2

namespace Contract

/-- The contract of evaluations of what is well formed. Functions that are defined are well formed. -/
def vetting : Contract where
  holds m := m.WellFormed
  step _ _ := True
  exits _ _ := True
  admits n := n.Everywhere Node.WellFormed
  holds_of_local hl hm := by
    unfold Machine.WellFormed
    rw [hl.closures]
    exact hm
  holds_newClosure hf hm := by
    intro c hc
    obtain hc | rfl := Array.mem_push.1 hc
    · exact hm c hc
    · exact hf
  step_of_follows _ := trivial
  step_trans _ _ := trivial
  exits_of_step _ _ := trivial
  exits_plain _ := trivial
  holds_noting hm := hm
  exits_noting _ := trivial
  step_try _ _ := trivial
  admits_child hn hc := hn.child hc
  admits_closure hm hc := hm _ hc

theorem encloses_vetting {d : Nat} : vetting.Encloses vetting d where
  enter hm hs _ c hc := hm c (hs.closures ▸ hc)
  leave _ hm' hs _ c hc := hm' c (hs.closures ▸ hc)
  step _ := trivial
  exits _ := trivial

theorem loads_vetting : vetting.Loads where
  parsed hp := Program.everywhere_of_parse hp
  reuse hm := ⟨hm, trivial⟩
  enter hm _ _ _ := hm
  leave _ _ hm _ := ⟨hm, trivial⟩
  exits _ := trivial

/-- A call of a well-formed function evaluates its constraints and its body, which are below it. -/
theorem vetting_callClosure {I J : Interp} (G : vetting.Governs I J) {m : Machine} {c : Closure}
    {args : List Value} {span : Option Span} (hm : vetting.holds m)
    (hc : vetting.admits (.function c.definition)) :
    vetting.MeetsAt m (I.callClosure c args span) (J.callClosure c args span) := by
  have hbody := vetting.admits_child hc (Node.body_mem_children c.definition)
  have hcall : (vetting.within c.definition.constraints).Meets (I.callClosure c args span)
      (J.callClosure c args span) :=
    meets_callClosure (fun frame => G.checkConstraints hc frame span) fun _ _ _ =>
      ⟨vetting, encloses_vetting, G.execBlock hbody⟩
  obtain ⟨he, ha⟩ := hcall m hm
  exact ⟨he, ha.mono fun _ _ _ _ => trivial⟩

/-- Vetted runs are the same as those that are not vetted. -/
theorem governs_vetted (refuse : Eval Value) (n : Nat) :
    vetting.Governs (.ofLevel n) (.vetted refuse n) := by
  induction n with
  | zero => exact governs_exhausted loads_vetting
  | succ n G =>
    refine ⟨⟨fun {e} he frame => ?_, fun f args span => ?_⟩, loads_vetting, rfl, fun {ss} hss frame => ?_⟩
    · have heval : (Interp.vetted refuse (n + 1)).eval e frame = (Interp.vetted refuse n).expr e frame :=
        if_pos he.here
      rw [Evals, heval]
      exact G.expr he frame
    · refine meets_apply (fun m _ c _ hm hc => ?_) fun native _ => ?_
      · exact vetting_callClosure G hm (hm c hc)
      · exact meets_nativeCall (fun _ => G.call) fun _ => ⟨vetting, encloses_vetting, G.call⟩
    · have hexec : (Interp.vetted refuse (n + 1)).exec ss frame = (Interp.vetted refuse n).stmts frame ss :=
        if_pos fun s hs => (hss s hs).here
      rw [hexec]
      exact G.stmts hss frame

end Contract

/-! ## Sessions -/

namespace Session

open Contract

theorem vetting_session : vetting.Governs .session .session :=
  (governs_vetted (Eval.exit .exhausted) Interp.sessionLevel).left

theorem wellFormed_blank (s : Settings) (input : Text) : (blank s input).WellFormed :=
  fun _ hc => absurd hc (Array.not_mem_empty _)

/-- Sessions come to well-formed machines only. -/
theorem wellFormed_serveAll {s : Settings} {p : Provisions} {m : Machine} (hstart : start s p = .ok m)
    (rs : List Request) : (serveAll m rs).WellFormed := by
  obtain ⟨hready, -⟩ := holds_start vetting_session (wellFormed_blank s p.input) hstart
  exact (holds_serveAll vetting_session (fun hm => ⟨hm, trivial⟩) hready rs).1

end Session

/-! ## What is left to fail -/

/-- A target that can be assigned to fails only as one of its parts does. -/
theorem Interp.target_error {I : Interp} {e : Expr} {frame : Nat} {m m' : Machine} {x : Exit}
    (he : e.isAssignable) (h : I.target e frame m = .error x m') :
    ∃ c m₁, .expr c ∈ (Node.expr e).children ∧ I.eval c frame m₁ = .error x m' := by
  cases e with
  | name s n => cases h
  | member s object n =>
    cases hobject : I.eval object frame m with
    | ok v m₁ =>
      rw [Interp.target, Eval.bind_ok hobject] at h
      cases h
    | error x₁ m₁ =>
      rw [Interp.target, Eval.bind_error hobject] at h
      cases h
      exact ⟨object, m, .head _, hobject⟩
  | index s object i =>
    cases hobject : I.eval object frame m with
    | error x₁ m₁ =>
      rw [Interp.target, Eval.bind_error hobject] at h
      cases h
      exact ⟨object, m, .head _, hobject⟩
    | ok v m₁ =>
      rw [Interp.target, Eval.bind_ok hobject] at h
      cases hi : I.eval i frame m₁ with
      | error x₂ m₂ =>
        rw [Eval.bind_error hi] at h
        cases h
        exact ⟨i, m₁, .tail _ (.head _), hi⟩
      | ok w m₂ =>
        rw [Eval.bind_ok hi] at h
        cases h
  | _ => cases he

/-- A unary operator fails only by the type of its operand. -/
theorem Interp.unary_error {op : UnaryOp} {v : Value} {span : Span} {m m' : Machine} {x : Exit}
    (h : Interp.unary op v span m = .error x m') : ∃ f, x = .failed (.fault f) ∧ f.kind = .type := by
  cases op with
  | length =>
    have hheap : Eval.heap m = .ok m.heap m := rfl
    rw [Interp.unary, Eval.bind_ok hheap] at h
    cases hlength : m.heap.length? v with
    | some n =>
      rw [hlength] at h
      cases h
    | none =>
      rw [hlength] at h
      cases h
      exact ⟨_, rfl, rfl⟩
  | typeof => cases h
  | _ =>
    obtain ⟨payload, tags⟩ := v
    cases payload <;> cases h <;> exact ⟨_, rfl, rfl⟩

/-- Arithmetic on two numbers does not fail by the types of the operands. -/
theorem Heap.arithmetic_numbers {h : Heap} {op : ArithOp} {left right : Value} {span : Span} {a b : Number}
    {f : Fault} (hleft : left.payload = .number a) (hright : right.payload = .number b)
    (hf : h.arithmetic op left right span = .error f) : f.kind ≠ .type := by
  unfold arithmetic at hf
  rw [hleft, hright] at hf
  simp only at hf
  split at hf
  · cases hf
  · next e _ =>
    cases hf
    show e.kind ≠ .type
    cases e <;> decide

/-- The labels of the nodes that are evaluated. -/
def Interp.handledLabels : List Text :=
  ["Literal", "Identifier", "BinaryOp", "LogicalOp", "UnaryOp", "UpdateExpr", "Assignment", "MemberAccess",
   "IndexAccess", "Call", "ArrayLiteral", "ObjectLiteral", "RangeExpr", "Block", "IfExpr", "Ternary",
   "WhileLoop", "LoopExpr", "ForIn", "TryCatch", "MatchExpr", "FunctionDef", "ExpressionStatement", "VarDecl",
   "ReturnStatement", "BreakStatement", "ContinueStatement", "ThrowStatement", "EnumDecl", "ImportStatement",
   "ExportStatement"].map Text.ofString

theorem Interp.expr_label_mem (e : Expr) : (Node.expr e).label ∈ handledLabels := by
  cases e <;> simp [handledLabels, Node.label]

theorem Interp.stmt_label_mem (s : Stmt) : (Node.stmt s).label ∈ handledLabels := by
  cases s <;> simp [handledLabels, Node.label]

open Interp in
/-- Every program that is parsed is in the form that the evaluator relies on, in each of its nodes. So a run
of it on a well-formed machine is the same whatever is done in place of what is not well formed, and the
machine stays well formed; the machines of sessions always are. What the evaluator has left to do can always
be done: it knows all nodes, a target that can be assigned to fails only as its parts do, a unary operator
only by the type of its operand, and arithmetic on two numbers not by the types of the operands. -/
theorem parsed_programs_evaluable {source : Text} {file : Option Text} {p : Program}
    (h : Program.parse source file = .ok p) :
    (∀ n ∈ (Node.program p).walk, n.Regular) ∧
    (∀ refuse n m, m.WellFormed →
      (∀ frame, (vetted refuse n).runProgram p frame m = (ofLevel n).runProgram p frame m ∧
        (((ofLevel n).runProgram p frame).after m).WellFormed) ∧
      ∀ f args span, (vetted refuse n).call f args span m = (ofLevel n).call f args span m) ∧
    (∀ s q m, Session.start s q = .ok m → ∀ rs, (Session.serveAll m rs).WellFormed) ∧
    ((∀ e, (Node.expr e).label ∈ handledLabels) ∧ ∀ s, (Node.stmt s).label ∈ handledLabels) ∧
    (∀ (I : Interp) e frame m x m', e.isAssignable → I.target e frame m = .error x m' →
      ∃ c m₁, .expr c ∈ (Node.expr e).children ∧ I.eval c frame m₁ = .error x m') ∧
    (∀ op v span m x m', unary op v span m = .error x m' →
      ∃ f, x = .failed (.fault f) ∧ f.kind = .type) ∧
    ∀ (hp : Heap) op left right span a b f, left.payload = .number a → right.payload = .number b →
      hp.arithmetic op left right span = .error f → f.kind ≠ .type := by
  have hform := Program.everywhere_of_parse h
  refine ⟨fun n hn => (hform.of_walk n hn).regular, fun refuse n m hm => ⟨fun frame => ?_, ?_⟩,
    fun s q m hstart rs => Session.wellFormed_serveAll hstart rs, ⟨expr_label_mem, stmt_label_mem⟩, ?_, ?_, ?_⟩
  · have hrun : Contract.vetting.Meets ((ofLevel n).runProgram p frame) ((vetted refuse n).runProgram p frame) :=
      (Contract.governs_vetted refuse n).runAdmitted hform
    exact ⟨(hrun m hm).1.symm, (hrun.left.after hm).1⟩
  · intro f args span
    exact ((Contract.governs_vetted refuse n).call f args span m hm).1.symm
  · exact fun I e frame m x m' he hx => target_error he hx
  · exact fun op v span m x m' hx => unary_error hx
  · exact fun hp op left right span a b f hleft hright hf => hp.arithmetic_numbers hleft hright hf

/-- A program with targets, operators, arms, a handler and a function that takes any number of arguments. -/
def countingSource : Text :=
  "export func count(x, __args__) \x7b
  x += $__args__
  match (x) \x7b > 2 \x7b try \x7b x++ \x7d finally \x7b \x7d \x7d else \x7b -x \x7d \x7d
\x7d
count(1, 2, 3)"

open Interp in
theorem parsed_programs_evaluable_counting :
    ∃ p, Program.parse countingSource none = .ok p ∧
      (∀ n ∈ (Node.program p).walk, n.Regular) ∧
      ∀ refuse, let m := Session.blank {} []
        (vetted refuse 60).runProgram p Session.mainFrame m = (ofLevel 60).runProgram p Session.mainFrame m := by
  have hparse : (Program.parse countingSource none).toOption.isSome := by
    rw [countingSource, Text.ofString_ofList]
    decide +kernel
  cases hp : Program.parse countingSource none with
  | error e =>
    rw [hp] at hparse
    cases hparse
  | ok p =>
    obtain ⟨hregular, hruns, -⟩ := parsed_programs_evaluable hp
    exact ⟨p, rfl, hregular, fun refuse => ((hruns refuse 60 _ (Session.wellFormed_blank {} [])).1 _).1⟩

end ScriptEngine

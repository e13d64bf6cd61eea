import ScriptEngine.Eval.Statement
import ScriptEngine.Proofs.Eval.Cleanup
import ScriptEngine.Proofs.Eval.Native
import ScriptEngine.Proofs.Module.Load

/-!
# Contracts of constructs

What a construct does by two interpreters, given what its parts do by them. There is one lemma for each
construct, and it asks only for the parts that the construct evaluates.

* **Within nodes** (`Contract.within`) an evaluation may also end by a jump that the nodes expose.
* **Interpreters that agree** (`Contract.Governs`) do the same for every expression that is admitted, within
  it, for every list of such statements, within them, and for every call, which no jump leaves.
* `Contract.Governs.expr`, `Contract.Governs.stmts` and `Contract.meetsAt_callClosure` carry the
  agreement from one level of evaluation to the next.
-/

namespace ScriptEngine

/-- An exit is a jump that one of the nodes exposes. -/
def Exit.ExposedBy (e : Exit) (ns : List Node) : Prop :=
  ∃ n ∈ ns, ∃ j, e.jump? = some j ∧ n.Exposes j

theorem Exit.ExposedBy.jump {e : Exit} {ns : List Node} (h : e.ExposedBy ns) : e.jump? ≠ none := by
  obtain ⟨n, -, j, hj, -⟩ := h
  simp [hj]

/-- An exit that ends a round of a loop. -/
def Exit.EndsRound (e : Exit) : Prop := ∃ s, e = .broke s ∨ e = .continued s

/-- A range expression by its parts. -/
def Interp.RangeParts.literal (r : RangeParts) : Expr :=
  .range r.span r.start r.stop r.withStart r.withStop r.step

namespace Contract

open Eval

/-- The contract of what is evaluated as a part of the nodes. -/
def within (C : Contract) (ns : List Node) : Contract := C.allowing (·.ExposedBy ns)

theorem Meets.within_of_mem {α : Type} {C : Contract} {x y : Eval α} {n : Node} {ns : List Node}
    (hx : (C.within [n]).Meets x y) (hn : n ∈ ns) : (C.within ns).Meets x y := by
  refine hx.mono rfl rfl fun e m he => he.imp_left ?_
  rintro ⟨c, hc, hx⟩
  exact ⟨c, List.mem_singleton.mp hc ▸ hn, hx⟩

/-- What two interpreters do for an expression. -/
def Evals (C : Contract) (I J : Interp) (frame : Nat) (e : Expr) : Prop :=
  C.Meets (I.eval e frame) (J.eval e frame)

/-- What two interpreters do for the parts of an expression. -/
def EvalsParts (C : Contract) (I J : Interp) (frame : Nat) (e : Expr) : Prop :=
  ∀ c, .expr c ∈ (Node.expr e).parts → C.Evals I J frame c

variable {α : Type} {C D : Contract} {I J : Interp} {frame : Nat} {span : Span} {v w : Value}

/-! ## Lists of expressions -/

theorem meets_evalList {es : List Expr} (h : ∀ e ∈ es, C.Evals I J frame e) :
    C.Meets (I.evalList frame es) (J.evalList frame es) := by
  induction es with
  | nil => exact keeps_pure
  | cons e es ih =>
    exact (h e (.head _)).bind fun _ => (ih fun c hc => h c (.tail _ hc)).bind fun _ => keeps_pure

theorem meets_entries {es : List ObjectEntry} (h : ∀ e ∈ es, C.Evals I J frame e.value) :
    C.Meets (I.entries frame es) (J.entries frame es) := by
  induction es with
  | nil => exact keeps_pure
  | cons e es ih =>
    exact (h e (.head _)).bind fun _ => (ih fun c hc => h c (.tail _ hc)).bind fun _ => keeps_pure

/-! ## Operators -/

theorem Evals.condition {e : Expr} {construct : Text} (he : C.Evals I J frame e) :
    C.Meets (I.condition e frame construct) (J.condition e frame construct) := by
  refine he.bind fun v => ?_
  split <;> simp

theorem Calls.isTest (hcall : C.Calls I J) : C.Meets (I.isTest v w span) (J.isTest v w span) := by
  unfold Interp.isTest
  split
  · exact keeps_pure
  · exact keeps_pure
  · refine .ite (fun _ => (hcall _ _ _).bind fun result => ?_) fun _ => isPlain_equal.keeps
    split <;> simp

theorem Calls.binary {op : BinaryOp} (hcall : C.Calls I J) :
    C.Meets (I.binary op v w span) (J.binary op v w span) := by
  cases op with
  | arith op => exact isPlain_arithmetic.keeps
  | compare op => exact keeps_readHeap.bind fun _ => keeps_pure
  | within => exact keeps_readHeap.bind fun _ => keeps_pure
  | isVariant => exact hcall.isTest.bind fun _ => keeps_pure

theorem Evals.logicalOperand {op : LogicalOp} {side : Text} {e : Expr} (he : C.Evals I J frame e) :
    C.Meets (I.logicalOperand op side e frame) (J.logicalOperand op side e frame) := by
  refine he.bind fun v => ?_
  split <;> simp

theorem Evals.logical {l r : Expr} {op : LogicalOp} (hl : C.Evals I J frame l)
    (hr : C.Evals I J frame r) : C.Meets (I.logical l op r frame) (J.logical l op r frame) :=
  hl.logicalOperand.bind fun _ =>
    .ite (fun _ => keeps_pure) fun _ => hr.logicalOperand.bind fun _ => keeps_pure

/-! ## Targets -/

theorem keeps_writeTarget {t : Interp.Target} : C.Keeps (t.write v) := by
  cases t with
  | name frame n span => exact keeps_assign
  | member object n span => exact isPlain_setAt.keeps
  | index object i span => exact isPlain_setAt.keeps

/-- Of a target the parts are evaluated. -/
theorem meets_target {e : Expr} (h : C.EvalsParts I J frame e) :
    C.Meets (I.target e frame) (J.target e frame) := by
  cases e with
  | name span n => exact keeps_pure
  | member span object n => exact (h object (.head _)).bind fun _ => keeps_pure
  | index span object i =>
    exact (h object (.head _)).bind fun _ => (h i (.tail _ (.head _))).bind fun _ => keeps_pure
  | _ => exact keeps_failWith

theorem keeps_readTarget {t : Interp.Target} : C.Keeps t.read := by
  cases t with
  | name frame n span => exact keeps_readHeap
  | member object n span => exact keeps_readHeap
  | index object i span => exact isPlain_index.keeps

theorem meets_assignment {l r : Expr} {op : AssignOp} (hl : C.EvalsParts I J frame l)
    (hr : C.Evals I J frame r) :
    C.Meets (I.assignment l op r span frame) (J.assignment l op r span frame) := by
  refine (meets_target hl).bind fun place => ?_
  extract_lets k
  have hk : ∀ v, C.Keeps (k v) := fun v => keeps_writeTarget.bind fun _ => keeps_pure
  split
  · exact hr.bind hk
  · exact keeps_readTarget.bind fun _ => hr.bind fun _ => isPlain_arithmetic.keeps.bind hk

theorem meets_update {e : Expr} {op : UpdateOp} {yieldsNew : Bool}
    (h : C.EvalsParts I J frame e) :
    C.Meets (I.update op e yieldsNew span frame) (J.update op e yieldsNew span frame) := by
  refine (meets_target h).bind fun place => keeps_readTarget.bind fun current => ?_
  split
  · exact keeps_writeTarget.bind fun _ => keeps_pure
  · exact keeps_failWith

/-! ## Ranges -/

variable {r : Interp.RangeParts}

theorem meets_progression {size : Option Nat} (h : C.EvalsParts I J frame r.literal) :
    C.Meets (I.progression r size frame) (J.progression r size frame) := by
  unfold Interp.progression
  extract_lets bound place bound'
  have hbound {e : Expr} {what : Text} (he : C.Evals I J frame e) :
      C.Meets (bound e what) (bound' e what) := he.bind fun _ => keeps_readHeap
  refine (hbound (h _ (.head _))).bind fun start => (hbound (h _ (.tail _ (.head _)))).bind fun stop => ?_
  extract_lets k
  have hk : ∀ step, C.Keeps (k step) := by
    intro step
    unfold k
    split <;> simp
  have hstep : ∀ e, r.step = some e → C.Evals I J frame e := by
    intro e he
    refine h e ?_
    rw [Interp.RangeParts.literal, he]
    exact Node.mem_parts_step
  split
  · exact keeps_pure.bind hk
  · next e he =>
    exact (hstep e he).bind fun _ => keeps_readHeap.bind fun _ => keeps_pure.bind hk

theorem meets_rangeArray (h : C.EvalsParts I J frame r.literal) :
    C.Meets (I.rangeArray r frame) (J.rangeArray r frame) :=
  (meets_progression h).bind fun _ => isPlain_newArray.keeps

theorem meets_sliceBy (h : C.EvalsParts I J frame r.literal) :
    C.Meets (I.sliceBy v r frame) (J.sliceBy v r frame) :=
  .ite (fun _ => keeps_failWith) fun _ => keeps_heap.bind fun _ =>
    (meets_progression h).bind fun _ => isPlain_picked.keeps.bind fun _ => isPlain_gathered.keeps

/-! ## Loops -/

variable {x y : Eval Value}

/-- A round ends by itself the exits that end a round. -/
theorem meets_round (hx : (C.allowing Exit.EndsRound).Meets x y) :
    C.Meets (Interp.round x) (Interp.round y) := by
  refine meets_attempt hx (fun _ => keeps_pure) (fun e he => ?_) fun e he => ?_
  · obtain ⟨s, rfl | rfl⟩ := he <;> exact keeps_pure
  · cases e with
    | broke s => exact absurd ⟨s, .inl rfl⟩ he
    | continued s => exact absurd ⟨s, .inr rfl⟩ he
    | _ => exact keeps_raising

theorem meets_rounds {test test' : Eval Bool} (htest : C.Meets test test')
    (hx : (C.allowing Exit.EndsRound).Meets x y) (fuel : Nat) :
    C.Meets (Interp.rounds test x fuel) (Interp.rounds test' y fuel) := by
  induction fuel with
  | zero => exact keeps_exhausted
  | succ n ih =>
    exact htest.bind fun _ => .ite (fun _ => (meets_round hx).bind fun _ =>
      .ite (fun _ => ih) fun _ => keeps_pure) fun _ => keeps_pure

theorem meets_forRound {indexName : Option Text} {valueName : Text} {body : Block} {i item : Value}
    (hbody : ∀ frame, (C.allowing Exit.EndsRound).Meets (I.exec body.statements frame)
      (J.exec body.statements frame)) :
    C.Meets (I.forRound indexName valueName body frame i item)
      (J.forRound indexName valueName body frame i item) := by
  refine keeps_childFrame.bind fun inner => ?_
  extract_lets k k'
  have hk : ∀ u, C.Meets (k u) (k' u) := fun _ => keeps_define.bind fun _ => meets_round (hbody inner)
  split
  · exact keeps_define.bind hk
  · exact hk ()

variable {turn turn' : Value → Value → Eval Bool}

theorem meets_forEach (hturn : ∀ i item, C.Meets (turn i item) (turn' i item))
    (items : List (Value × Value)) :
    C.Meets (Interp.forEach turn items) (Interp.forEach turn' items) := by
  induction items with
  | nil => exact keeps_pure
  | cons p rest ih => exact (hturn _ _).bind fun _ => .ite (fun _ => ih) fun _ => keeps_pure

theorem meets_forNumbers (hturn : ∀ i item, C.Meets (turn i item) (turn' i item)) {p : Progression}
    {i left : Nat} :
    C.Meets (Interp.forNumbers turn p i left) (Interp.forNumbers turn' p i left) := by
  induction left generalizing i with
  | zero => exact keeps_pure
  | succ n ih => exact (hturn _ _).bind fun _ => .ite (fun _ => ih) fun _ => keeps_pure

/-- A loop over a range literal evaluates the parts of the literal, other loops what they go over. -/
theorem meets_forIn {indexName : Option Text} {valueName : Text} {iterable : Expr} {body : Block}
    (hself : C.Evals I J frame iterable) (hparts : C.EvalsParts I J frame iterable)
    (hbody : ∀ frame, (C.allowing Exit.EndsRound).Meets (I.exec body.statements frame)
      (J.exec body.statements frame)) :
    C.Meets (I.forIn indexName valueName iterable body frame)
      (J.forIn indexName valueName iterable body frame) := by
  have hturn (i item : Value) : C.Meets (I.forRound indexName valueName body frame i item)
      (J.forRound indexName valueName body frame i item) := meets_forRound hbody
  cases iterable with
  | range s start stop withStart withStop step =>
    exact (meets_progression hparts).bind fun _ => meets_forNumbers hturn
  | _ => exact hself.bind fun _ => isPlain_elements.keeps.bind fun _ => meets_forEach hturn _

/-! ## Errors and matches -/

theorem meets_handle {name : Option Text} {handler : Block}
    (hhandler : ∀ frame, C.Meets (I.exec handler.statements frame) (J.exec handler.statements frame)) :
    C.Meets (I.handle name handler frame v) (J.handle name handler frame v) := by
  refine keeps_childFrame.bind fun inner => ?_
  extract_lets k k'
  have hk : ∀ u, C.Meets (k u) (k' u) := fun _ => hhandler inner
  split
  · exact keeps_define.bind hk
  · exact hk ()

theorem meets_guarded {body : Block} {name : Option Text} {handler : Option Block}
    (hbody : C.Meets (I.block body frame) (J.block body frame))
    (hhandler : ∀ b ∈ handler, ∀ frame, C.Meets (I.exec b.statements frame) (J.exec b.statements frame)) :
    C.Meets (I.guarded body name handler frame) (J.guarded body name handler frame) := by
  cases handler with
  | none => exact hbody.attempt (fun _ => keeps_pure) fun _ => keeps_raising
  | some b =>
    refine hbody.attempt (fun _ => keeps_pure) fun e => isPlain_caught.keeps.bind fun error => ?_
    split
    · exact (meets_handle (hhandler b rfl)).raising
    · exact keeps_raising

theorem exits_replacedBy {e e' : Exit} {m : Machine} (he : C.exits e m) (he' : C.exits e' m) :
    C.exits (e.replacedBy e') m := by
  cases e with
  | exhausted => exact he
  | _ => exact he'

/-- A try with a cleanup is a step from where it is entered to where it is left. -/
theorem Meets.cleaned {c : Block} {x' y' : Eval Value} (hx : C.Meets x y) (hcleanup : C.Meets x' y') :
    C.Meets (Interp.cleaned c x x') (Interp.cleaned c y y') := by
  intro m hm
  obtain ⟨he, ha⟩ := hx _ (C.holds_noting hm)
  rw [MeetsAt, Interp.cleaned_run, Interp.cleaned_run, he]
  cases hy : y (m.noting .entered c) with
  | ok a m₁ =>
    rw [hy] at ha
    obtain ⟨he', ha'⟩ := hcleanup _ (C.holds_noting ha.1)
    dsimp only
    rw [he']
    cases hc : y' (m₁.noting .cleaning c) with
    | ok v m₂ =>
      rw [hc] at ha'
      exact ⟨rfl, C.holds_noting ha'.1, C.step_try ha.2 ha'.2⟩
    | error e m₂ =>
      rw [hc] at ha'
      exact ⟨rfl, C.holds_noting ha'.1, C.step_try ha.2 ha'.2.1, C.exits_noting ha'.2.2⟩
  | error e m₁ =>
    rw [hy] at ha
    obtain ⟨he', ha'⟩ := hcleanup _ (C.holds_noting ha.1)
    have hexit {m₂ : Machine} (hs : C.step (m₁.noting .cleaning c) m₂) : C.exits e m₂ :=
      C.exits_of_step (C.exits_noting ha.2.2) hs
    dsimp only
    rw [he']
    cases hc : y' (m₁.noting .cleaning c) with
    | ok v m₂ =>
      rw [hc] at ha'
      exact ⟨rfl, C.holds_noting ha'.1, C.step_try ha.2.1 ha'.2, C.exits_noting (hexit ha'.2)⟩
    | error e' m₂ =>
      rw [hc] at ha'
      have hexits := exits_replacedBy (hexit ha'.2.1) ha'.2.2
      exact ⟨rfl, C.holds_noting ha'.1, C.step_try ha.2.1 ha'.2.1, C.exits_noting hexits⟩

theorem Calls.armMatches {arm : MatchArm} (hcall : C.Calls I J)
    (htest : ∀ e, .expr e ∈ (Node.arm arm).parts → C.Evals I J frame e) :
    C.Meets (I.armMatches arm v frame) (J.armMatches arm v frame) := by
  obtain ⟨s, test, body⟩ := arm
  cases test with
  | otherwise => exact keeps_pure
  | equals e => exact (htest e (.tail _ (.head _))).bind fun _ => isPlain_equal.keeps
  | isVariant e => exact (htest e (.tail _ (.head _))).bind fun _ => hcall.isTest
  | compares op e => exact (htest e (.tail _ (.head _))).bind fun _ => keeps_readHeap

theorem Calls.arms {arms : List MatchArm} (hcall : C.Calls I J)
    (htest : ∀ arm ∈ arms, ∀ e, .expr e ∈ (Node.arm arm).parts → C.Evals I J frame e)
    (hbody : ∀ arm ∈ arms, C.Meets (I.block arm.body frame) (J.block arm.body frame)) :
    C.Meets (I.arms v span frame arms) (J.arms v span frame arms) := by
  induction arms with
  | nil => exact isPlain_quotedForm.keeps.bind fun _ => keeps_failWith
  | cons arm rest ih =>
    refine (hcall.armMatches (htest arm (.head _))).bind fun _ => .ite (fun _ => hbody arm (.head _)) ?_
    exact fun _ => ih (fun a ha => htest a (.tail _ ha)) fun a ha => hbody a (.tail _ ha)

/-! ## Functions and calls -/

theorem keeps_function {f : FunctionDef} (hf : C.admits (.function f)) :
    C.Keeps (Interp.function f frame) := by
  refine keeps_readHeap.bind fun _ => (keeps_newClosure hf).bind fun v => ?_
  extract_lets k
  have hk : ∀ u, C.Keeps (k u) := fun _ => keeps_pure
  split
  · exact keeps_define.bind hk
  · exact hk ()

/-- The callee of a method call is not evaluated itself, but its object is. -/
theorem Calls.callExpr {callee : Expr} {args : List Expr} (hcall : C.Calls I J)
    (hself : C.Evals I J frame callee) (hparts : C.EvalsParts I J frame callee)
    (hargs : ∀ e ∈ args, C.Evals I J frame e) :
    C.Meets (I.callExpr callee args span frame) (J.callExpr callee args span frame) := by
  cases callee with
  | member s object name =>
    exact (hparts object (.head _)).bind fun _ => keeps_readHeap.bind fun _ =>
      (meets_evalList hargs).bind fun _ => hcall _ _ _
  | _ => exact hself.bind fun _ => (meets_evalList hargs).bind fun _ => hcall _ _ _

theorem meets_indexExpr {object index : Expr} (hobject : C.Evals I J frame object)
    (hself : C.Evals I J frame index) (hparts : C.EvalsParts I J frame index) :
    C.Meets (I.indexExpr object index span frame) (J.indexExpr object index span frame) := by
  refine hobject.bind fun v => ?_
  cases index with
  | range s start stop withStart withStop step => exact meets_sliceBy hparts
  | _ => exact hself.bind fun _ => isPlain_index.keeps

/-! ## Expressions -/

theorem admits_part (C : Contract) {n c : Node} (hn : C.admits n) (hc : c ∈ n.parts) : C.admits c :=
  C.admits_child hn (n.parts_subset_children hc)

/-- Two interpreters do the same for the expressions that are admitted and for calls, and no jump leaves a
call or an expression that does not expose it. -/
structure GovernsExprs (C : Contract) (I J : Interp) : Prop where
  evalAdmitted : ∀ {e}, C.admits (.expr e) → ∀ frame, (C.within [.expr e]).Evals I J frame e
  call : C.Calls I J

/-- Evaluations of modules may be a part of those that respect the contract. -/
structure Loads (C : Contract) : Prop where
  parsed : ∀ {source : Text} {file : Option Text} {p : Program},
    Program.parse source file = .ok p → C.admits (.program p)
  reuse : ∀ {m : Machine} {p : Path} {f : Nat}, C.holds m →
    C.holds (m.withModules (m.modules.noted ⟨p, f, false⟩)) ∧
    C.step m (m.withModules (m.modules.noted ⟨p, f, false⟩))
  enter : ∀ {m : Machine} {path : Text} {importer : Option Text} {p : Path}, C.holds m →
    m.settings.resolve path importer = .ok p → m.modules.loaded.get? p = none →
    p ∉ m.modules.loading → C.holds (m.entering p)
  leave : ∀ {m m' : Machine} {p : Path} (frame : Option Nat), p ∉ m.modules.loading → C.holds m' →
    C.step (m.entering p) m' → C.holds (m'.leaving p frame) ∧ C.step m (m'.leaving p frame)
  exits : ∀ {e : Exit} {m : Machine} {p : Path}, C.exits e m → C.exits e (m.leaving p none)

/-- Two interpreters do the same for all that they evaluate of what is admitted, and no jump leaves a call or
a node that does not expose it. -/
structure Governs (C : Contract) (I J : Interp) : Prop extends C.GovernsExprs I J where
  loads : C.Loads
  fuel : I.fuel = J.fuel
  execAdmitted : ∀ {ss}, (∀ s ∈ ss, C.admits (.stmt s)) → ∀ frame,
    (C.within (ss.map .stmt)).Meets (I.exec ss frame) (J.exec ss frame)

namespace GovernsExprs

variable {ns : List Node} {n : Node} {e : Expr}

theorem eval [C.Universal] (G : C.GovernsExprs I J) (e : Expr) (frame : Nat) :
    (C.within [.expr e]).Evals I J frame e := G.evalAdmitted (Universal.admits _) frame

theorem calls (G : C.GovernsExprs I J) : (C.within ns).Calls I J := fun f args span =>
  (G.call f args span).allowing

/-- An expression in a node that exposes its jumps. -/
theorem evals (G : C.GovernsExprs I J) (he : C.admits (.expr e))
    (h : ∀ j, (Node.expr e).Exposes j → n.Exposes j) : (C.within [n]).Evals I J frame e := by
  refine (G.evalAdmitted he frame).mono rfl rfl fun e m he => he.imp_left ?_
  rintro ⟨c, hc, j, hj, hx⟩
  rw [List.mem_singleton.mp hc] at hx
  exact ⟨n, .head _, j, hj, h j hx⟩

theorem part (G : C.GovernsExprs I J) (hn : C.admits n) (h : .expr e ∈ n.parts) :
    (C.within [n]).Evals I J frame e :=
  G.evals (C.admits_part hn h) fun _ => .part h

theorem parts (G : C.GovernsExprs I J) (hn : C.admits n) (h : .expr e ∈ n.parts) :
    (C.within [n]).EvalsParts I J frame e := fun _ hc =>
  G.evals (C.admits_part (C.admits_part hn h) hc) fun _ hx => .part h (.part hc hx)

end GovernsExprs

namespace Governs

variable {n : Node} {b : Block}

theorem left (G : C.Governs I J) : C.Governs I I :=
  ⟨⟨fun he frame => (G.evalAdmitted he frame).left, fun f args span => (G.call f args span).left⟩, G.loads,
    rfl, fun hss frame => (G.execAdmitted hss frame).left⟩

theorem exec [C.Universal] (G : C.Governs I J) (ss : List Stmt) (frame : Nat) :
    (C.within (ss.map .stmt)).Meets (I.exec ss frame) (J.exec ss frame) :=
  G.execAdmitted (fun _ _ => Universal.admits _) frame

/-- The statements of an admitted block. -/
theorem execBlock (G : C.Governs I J) (hb : C.admits (.block b)) (frame : Nat) :
    (C.within (b.statements.map .stmt)).Meets (I.exec b.statements frame)
      (J.exec b.statements frame) := by
  refine G.execAdmitted (fun s hs => C.admits_part hb ?_) frame
  rw [Node.parts_block]
  exact List.mem_map_of_mem hs

theorem exposedBy_statements {e : Exit} (h : e.ExposedBy (b.statements.map .stmt)) :
    ∃ j, e.jump? = some j ∧ (Node.block b).Exposes j := by
  obtain ⟨c, hc, j, hj, hx⟩ := h
  exact ⟨j, hj, .part (Node.parts_block b ▸ hc) hx⟩

/-- The statements of a block in a node that exposes their jumps. -/
theorem execs (G : C.Governs I J) (hb : C.admits (.block b))
    (h : ∀ j, (Node.block b).Exposes j → n.Exposes j) (frame : Nat) :
    (C.within [n]).Meets (I.exec b.statements frame) (J.exec b.statements frame) := by
  refine (G.execBlock hb frame).mono rfl rfl fun e m he => he.imp_left fun hx => ?_
  obtain ⟨j, hj, hx⟩ := exposedBy_statements hx
  exact ⟨n, .head _, j, hj, h j hx⟩

theorem block (G : C.Governs I J) (hb : C.admits (.block b))
    (h : ∀ j, (Node.block b).Exposes j → n.Exposes j) :
    (C.within [n]).Meets (I.block b frame) (J.block b frame) :=
  keeps_childFrame.bind fun inner => G.execs hb h inner

/-- A block that is a part of an admitted node. -/
theorem blockPart (G : C.Governs I J) (hn : C.admits n) (h : .block b ∈ n.parts) :
    (C.within [n]).Meets (I.block b frame) (J.block b frame) :=
  G.block (C.admits_part hn h) fun _ => .part h

/-- The body of a loop. Its returns leave the loop, its breaks and continues end a round. -/
theorem loopBody (G : C.Governs I J) (hn : C.admits n) (h : n.loopBody? = some b) (frame : Nat) :
    ((C.within [n]).allowing Exit.EndsRound).Meets (I.exec b.statements frame)
      (J.exec b.statements frame) := by
  have hb := C.admits_child hn (Node.loopBody?_mem_children h)
  refine (G.execBlock hb frame).mono rfl rfl fun e m he => ?_
  refine he.elim (fun hx => ?_) fun hx => .inr (.inr hx)
  obtain ⟨j, hj, hx⟩ := exposedBy_statements hx
  cases e with
  | returned v s =>
    cases hj
    exact .inr (.inl ⟨n, .head _, _, rfl, .body h hx⟩)
  | broke s => exact .inl ⟨s, .inl rfl⟩
  | continued s => exact .inl ⟨s, .inr rfl⟩
  | _ => cases hj

theorem tryCatch (G : C.Governs I J) {body : Block} {name : Option Text}
    {handler cleanup : Option Block}
    (hn : C.admits (.expr (.tryCatch span body name handler cleanup))) :
    (C.within [.expr (.tryCatch span body name handler cleanup)]).Meets
      (I.tryCatch body name handler cleanup frame) (J.tryCatch body name handler cleanup frame) := by
  have hguarded : (C.within [.expr (.tryCatch span body name handler cleanup)]).Meets
      (I.guarded body name handler frame) (J.guarded body name handler frame) := by
    refine meets_guarded (G.blockPart hn (.head _)) fun b hb => ?_
    cases hb
    exact G.execs (C.admits_part hn Node.mem_parts_handler) fun _ => .part Node.mem_parts_handler
  cases cleanup with
  | none => exact hguarded
  | some c =>
    exact hguarded.cleaned (G.blockPart hn Node.mem_parts_cleanup)

/-- One level of evaluation of an expression. -/
theorem expr (G : C.Governs I J) {e : Expr} (he : C.admits (.expr e)) (frame : Nat) :
    (C.within [.expr e]).Meets (I.expr e frame) (J.expr e frame) := by
  have hpart {c : Expr} (hc : .expr c ∈ (Node.expr e).parts) :
      (C.within [.expr e]).Evals I J frame c := G.part he hc
  have hparts {c : Expr} (hc : .expr c ∈ (Node.expr e).parts) :
      (C.within [.expr e]).EvalsParts I J frame c := G.parts he hc
  have hblock {b : Block} (hb : .block b ∈ (Node.expr e).parts) :
      (C.within [.expr e]).Meets (I.block b frame) (J.block b frame) := G.blockPart he hb
  cases e with
  | literal s l => exact keeps_pure
  | name s n => exact keeps_readHeap
  | binary s l op r =>
    exact (hpart (.head _)).bind fun _ => (hpart (.tail _ (.head _))).bind fun _ => G.calls.binary
  | logical s l op r => exact (hpart (.head _)).logical (hpart (.tail _ (.head _)))
  | unary s op e => exact (hpart (.head _)).bind fun _ => isPlain_unary.keeps
  | update s op e yieldsNew => exact meets_update (hparts (.head _))
  | assign s l op r => exact meets_assignment (hparts (.head _)) (hpart (.tail _ (.head _)))
  | member s object name => exact (hpart (.head _)).bind fun _ => keeps_readHeap
  | index s object i =>
    exact meets_indexExpr (hpart (.head _)) (hpart (.tail _ (.head _))) (hparts (.tail _ (.head _)))
  | call s callee args =>
    exact G.calls.callExpr (hpart (.head _)) (hparts (.head _)) fun e he =>
      hpart (Node.mem_parts_call he)
  | array s elements =>
    exact (meets_evalList fun e he => hpart (Node.mem_parts_array he)).bind fun _ => isPlain_newArray.keeps
  | object s entries =>
    refine (meets_entries fun entry hentry => ?_).bind fun _ => isPlain_newObject.keeps
    have hmem := Node.mem_parts_object (s := s) hentry
    exact G.evals (C.admits_part (C.admits_part he hmem) (.head _)) fun _ hx =>
      .part hmem (.part (.head _) hx)
  | range s start stop withStart withStop step => exact meets_rangeArray fun _ => hpart
  | block b => exact G.block he fun _ => id
  | ifElse s test thenBranch elseBranch =>
    refine (hpart (.head _)).condition.bind fun _ => .ite (fun _ => ?_) fun _ => ?_
    · exact hblock (.tail _ (.head _))
    · cases elseBranch with
      | none => exact keeps_pure
      | some e => exact hpart (.tail _ (.tail _ (.head _)))
  | ternary s test thenExpr elseExpr =>
    exact (hpart (.head _)).condition.bind fun _ => .ite (fun _ => hpart (.tail _ (.head _)))
      fun _ => hpart (.tail _ (.tail _ (.head _)))
  | whileLoop s test body negate =>
    have htest : (C.within [.expr (.whileLoop s test body negate)]).Evals I J frame test :=
      hpart (.head _)
    show Meets _ (Interp.rounds _ _ I.fuel) (Interp.rounds _ _ J.fuel)
    rw [G.fuel]
    exact meets_rounds (htest.condition.bind fun _ => keeps_pure)
      (keeps_childFrame.bind fun inner => G.loopBody he rfl inner) _
  | loop s body =>
    show Meets _ (Interp.rounds _ _ I.fuel) (Interp.rounds _ _ J.fuel)
    rw [G.fuel]
    exact meets_rounds keeps_pure (keeps_childFrame.bind fun inner => G.loopBody he rfl inner) _
  | forIn s indexName valueName iterable body =>
    exact meets_forIn (hpart (.head _)) (hparts (.head _)) (G.loopBody he rfl)
  | tryCatch s body name handler cleanup => exact G.tryCatch he
  | matchOn s subject arms =>
    refine (hpart (.head _)).bind fun _ => G.calls.arms (fun a ha e hc => ?_) fun a ha => ?_
    · have hmem := Node.mem_parts_match (s := s) (e := subject) ha
      exact G.evals (C.admits_part (C.admits_part he hmem) hc) fun _ hx => .part hmem (.part hc hx)
    · have hmem := Node.mem_parts_match (s := s) (e := subject) ha
      exact G.block (C.admits_part (C.admits_part he hmem) Node.body_mem_parts_arm) fun _ hx =>
        .part hmem (.part Node.body_mem_parts_arm hx)
  | function f => exact keeps_function he

end Governs

end Contract

end ScriptEngine

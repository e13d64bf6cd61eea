import ScriptEngine.Proofs.Program.Constructs
import ScriptEngine.Proofs.Program.FreeNames
import ScriptEngine.Proofs.Program.Taking

/-!
# Initial values of patterns

A declaration with a pattern that has names must have an initial value.

* **Results of parsers** (`Parse.Yields p Q`): whatever the parser `p` gives satisfies `Q`. There is a rule for each
  way to build a parser, and one lemma for each construct.
* **Rejected declarations** (`Grammar.varDecl_rejects`): where the initial value is missing, the tokens are no
  program.
* **Parsed programs** (`Program.initialized_of_parse`): no declaration anywhere in a program is without the value.
-/

namespace ScriptEngine

/-! ## Results of parsers -/

namespace Parse

variable {α β : Type} {p : Parse α} {f : α → Parse β} {P : α → Prop} {Q : β → Prop} {bound : Nat}

/-- Whatever a parser gives satisfies a property. -/
def Yields (p : Parse α) (P : α → Prop) : Prop := ∀ ts i a j, p ts i = .ok (a, j) → P a

theorem yields_pure {a : α} (ha : P a) : (pure a : Parse α).Yields P := by
  rintro ts i _ _ ⟨⟩
  exact ha

theorem Yields.bind (hp : p.Yields P) (hf : ∀ a, P a → (f a).Yields Q) : (p >>= f).Yields Q := by
  intro ts i b k hrun
  cases hfirst : p ts i with
  | ok r =>
    obtain ⟨a, j⟩ := r
    rw [bind_ok hfirst] at hrun
    exact hf a (hp ts i a j hfirst) ts j b k hrun
  | error stop =>
    rw [bind_error hfirst] at hrun
    cases hrun

/-- A parser that goes on whatever has been read. -/
theorem Yields.then (hf : ∀ a, (f a).Yields Q) : (p >>= f).Yields Q :=
  .bind (P := fun _ => True) (fun _ _ _ _ _ => trivial) fun a _ => hf a

/-- A part that is left out. -/
theorem yields_none : (pure none : Parse (Option α)).Yields fun r => ∀ a ∈ r, P a := yields_pure (by simp)

/-- A part that is there. -/
theorem yields_some {a : α} (ha : P a) : (pure (some a) : Parse (Option α)).Yields fun r => ∀ a ∈ r, P a :=
  yields_pure (by simpa using ha)

theorem yields_failAt {cause : ParseCause} {s : Span} : (failAt cause s : Parse α).Yields P := by
  rintro _ _ _ _ ⟨⟩

theorem yields_failExpected {expected : Text} : (failExpected expected : Parse α).Yields P := by
  refine .then fun token => ?_
  split <;> exact yields_failAt

/-- Nothing comes after a failure. -/
theorem Yields.failAt {cause : ParseCause} {s : Span} : (failAt cause s >>= f).Yields Q :=
  .bind (P := fun _ => False) yields_failAt fun _ h => h.elim

theorem Yields.failExpected {expected : Text} : (failExpected expected >>= f).Yields Q :=
  .bind (P := fun _ => False) yields_failExpected fun _ h => h.elim

theorem yields_exhausted : (exhausted : Parse α).Yields P := by
  rintro _ _ _ _ ⟨⟩

theorem yields_iterate {step : α → Parse (Option α)} (hstep : ∀ s, P s → (step s).Yields fun r => ∀ s' ∈ r, P s')
    {s : α} (hs : P s) : (iterate step bound s).Yields P := by
  induction bound generalizing s with
  | zero => exact yields_exhausted
  | succ bound ih =>
    refine .bind (hstep s hs) fun r hr => ?_
    cases r with
    | none => exact yields_pure hs
    | some s' => exact ih (hr s' rfl)

theorem yields_many {item : Parse (Option α)} (hitem : item.Yields fun r => ∀ a ∈ r, P a) :
    (many item bound).Yields fun as => ∀ a ∈ as, P a := by
  induction bound with
  | zero => exact yields_exhausted
  | succ bound ih =>
    refine .bind hitem fun r hr => ?_
    cases r with
    | none => exact yields_pure (List.forall_mem_nil _)
    | some a => exact .bind ih fun as has => yields_pure (List.forall_mem_cons.2 ⟨hr a rfl, has⟩)

variable {item : Parse α} (hitem : item.Yields P)

include hitem

theorem yields_separated {close : Symbol} : (separated close item bound).Yields fun as => ∀ a ∈ as, P a := by
  induction bound with
  | zero => exact yields_exhausted
  | succ bound ih =>
    refine .then fun atClose => ?_
    split
    · exact yields_pure (List.forall_mem_nil _)
    · refine .bind hitem fun a ha => .then fun more => ?_
      split
      · exact .bind ih fun as has => yields_pure (List.forall_mem_cons.2 ⟨ha, has⟩)
      · exact yields_pure (List.forall_mem_singleton.2 ha)

theorem yields_commaList : (commaList item bound).Yields fun as => ∀ a ∈ as, P a := by
  induction bound with
  | zero => exact yields_exhausted
  | succ bound ih =>
    refine .bind hitem fun a ha => .then fun more => ?_
    split
    · exact .bind ih fun as has => yields_pure (List.forall_mem_cons.2 ⟨ha, has⟩)
    · exact yields_pure (List.forall_mem_singleton.2 ha)

end Parse

/-! ## Declarations with their initial values -/

namespace Node

/-- What a node declares has an initial value if it has a pattern with names. -/
def HasInitial (n : Node) : Prop := ∀ d, n.Declares d → d.targets ≠ [] → d.initializer.isSome

/-- Every declaration with a pattern in a node has an initial value. -/
abbrev Initialized (n : Node) : Prop := n.Everywhere HasInitial

/-- An expression declares nothing itself. -/
theorem initialized_expr {e : Expr} (h : ∀ c ∈ (expr e).children, c.Initialized) : (expr e).Initialized :=
  .mk (by rintro _ ⟨⟩) h

/-- A property of a node and of all nodes below it holds of what the node contains. -/
theorem Everywhere.of_contains {P : Node → Prop} {n m : Node} (h : n.Everywhere P) (hm : n.Contains m) : P m := by
  induction hm with
  | refl => exact h.here
  | child hc _ ih => exact ih (h.child hc)

end Node

/-- A parser gives nodes in which every declaration with a pattern has an initial value. -/
abbrev Parse.Builds {α : Type} (node : α → Node) (p : Parse α) : Prop := p.Yields fun a => (node a).Initialized

/-- Every parser of a grammar gives such nodes. -/
structure Grammar.Initializes (g : Grammar) : Prop where
  expression : g.expression.Builds .expr
  ternary : g.ternary.Builds .expr
  binary : ∀ least, (g.binary least).Builds .expr
  unary : g.unary.Builds .expr
  operand : g.operand.Builds .expr
  ifElse : g.ifElse.Builds .expr
  statement : g.statement.Builds .stmt

namespace Grammar

open Node (initialized_expr)
open Parse

attribute [local simp] Node.children Node.fields Node.exprFields Node.stmtFields Node.armFields Node.functionFields
  Node.varDeclFields NodeField.children NodeField.ofExpr NodeField.ofExpr? NodeField.ofBlock NodeField.ofBlock?
  NodeField.ofText? NodeField.ofDeclaration

variable {g : Grammar}

section

variable (hg : g.Initializes)

include hg

/-! ## Constructs that start with a token of their own -/

theorem builds_block : g.block.Builds .block := by
  have hstatements : g.blockStatements.Yields fun ss => ∀ s ∈ ss, (Node.stmt s).Initialized := by
    refine yields_many (.then fun atBrace => ?_)
    split
    · exact yields_none
    · refine .then fun atEnd => ?_
      split
      · exact .failExpected
      · exact .bind hg.statement fun s hs => .then fun _ => yields_some hs
  refine .then fun _ => .then fun _ => .bind hstatements fun ss hss => .then fun _ => .then fun s => yields_pure ?_
  exact initialized_expr (by simpa [Node.block] using hss)

theorem builds_arrayLiteral : g.arrayLiteral.Builds .expr := by
  refine .then fun _ => .bind (yields_separated hg.expression) fun es hes => .then fun _ => .then fun s => ?_
  exact yields_pure (initialized_expr (by simpa using hes))

theorem builds_objectEntry : g.objectEntry.Builds .entry := by
  have hentry {s : Span} {key : Text} {e : Expr} (he : (Node.expr e).Initialized) :
      (Node.entry ⟨s, key, e⟩).Initialized := .mk (by rintro _ ⟨⟩) (by simpa using he)
  refine .then fun token => ?_
  split
  · exact .then fun _ => .then fun _ => .bind hg.expression fun e he => .then fun s => yields_pure (hentry he)
  · refine .then fun _ => .then fun hasValue => ?_
    split
    · exact .bind hg.expression fun e he => .then fun s => yields_pure (hentry he)
    · exact .then fun s => yields_pure (hentry (initialized_expr (by simp)))
  · exact yields_failExpected

theorem builds_objectLiteral : g.objectLiteral.Builds .expr := by
  refine .then fun _ => .then fun _ => .bind (yields_separated (builds_objectEntry hg)) fun es hes => ?_
  exact .then fun _ => .then fun s => yields_pure (initialized_expr (by simpa using hes))

theorem builds_conditional : g.conditional.Builds .expr := by
  have helse : g.elseBranch.Yields fun r => ∀ e ∈ r, (Node.expr e).Initialized := by
    refine .then fun hasElse => ?_
    split
    · refine .then fun isConditional => ?_
      split
      · exact .bind hg.ifElse fun e he => yields_some he
      · exact .bind (builds_block hg) fun b hb => yields_some hb
    · exact yields_none
  refine .then fun _ => .bind hg.expression fun c hc => .bind (builds_block hg) fun b hb => ?_
  refine .bind helse fun e he => .then fun s => yields_pure (initialized_expr ?_)
  cases e <;> simp_all [Node.block]

theorem builds_matchArm : g.matchArm.Builds .arm := by
  have harm {test : ArmTest} {s : Span} {b : Block} (hb : (Node.block b).Initialized)
      (ht : ∀ e ∈ test.pattern?, (Node.expr e).Initialized) : (Node.arm ⟨s, test, b⟩).Initialized := by
    refine .mk (by rintro _ ⟨⟩) ?_
    cases test <;> simp_all [Node.block, ArmTest.pattern?]
  have htest : g.armTest.Yields fun test => ∀ e ∈ test.pattern?, (Node.expr e).Initialized := by
    have hone {e : Expr} (he : (Node.expr e).Initialized) : ∀ e' ∈ some e, (Node.expr e').Initialized :=
      fun _ h => Option.mem_some_iff.1 h ▸ he
    refine .then fun isElse => ?_
    split
    · exact yields_pure (by simp [ArmTest.pattern?])
    · refine .then fun isVariant => ?_
      split
      · exact .bind (hg.binary _) fun e he => yields_pure (hone he)
      · refine .then fun token => ?_
        split
        · exact .then fun _ => .bind (hg.binary _) fun e he => yields_pure (hone he)
        · exact .bind (hg.binary _) fun e he => yields_pure (hone he)
  refine .then fun _ => .bind htest fun test ht => .bind (builds_block hg) fun b hb => .then fun s => ?_
  exact yields_pure (harm hb ht)

theorem builds_matchExpr : g.matchExpr.Builds .expr := by
  have harms : g.matchArms.Yields fun arms => ∀ a ∈ arms, (Node.arm a).Initialized := by
    refine yields_iterate (fun arms harms => .then fun atBrace => ?_) (List.forall_mem_nil _)
    split
    · exact yields_none
    · dsimp only
      split
      · exact .then fun _ => .failAt
      · exact .bind (builds_matchArm hg) fun a ha => .then fun _ =>
          yields_some (List.forall_mem_cons.2 ⟨ha, harms⟩)
  refine .then fun _ => .bind hg.expression fun e he => .then fun _ => .bind harms fun arms ha => .then fun _ => ?_
  exact .then fun s => yields_pure (initialized_expr (by simpa using ⟨he, ha⟩))

theorem builds_tryExpr : g.tryExpr.Builds .expr := by
  have hcatch : g.catchPart.Yields fun r => ∀ b ∈ r.2, (Node.block b).Initialized := by
    refine .then fun hasCatch => ?_
    split
    · exact .then fun name => .bind (builds_block hg) fun b hb => yields_pure (by simpa using hb)
    · exact yields_pure (by simp)
  have hfinally : g.finallyPart.Yields fun r => ∀ b ∈ r, (Node.block b).Initialized := by
    refine .then fun hasFinally => ?_
    split
    · exact .bind (builds_block hg) fun b hb => yields_some hb
    · exact yields_none
  refine .then fun _ => .bind (builds_block hg) fun b hb => .bind hcatch fun r hr => .bind hfinally fun c hc => ?_
  obtain ⟨name, handler⟩ := r
  dsimp only
  split
  · exact .failExpected
  · refine .then fun s => yields_pure (initialized_expr ?_)
    cases name <;> cases handler <;> cases c <;> simp_all [Node.block]

theorem builds_whileExpr {negate : Bool} : (g.whileExpr negate).Builds .expr := by
  refine .then fun _ => .bind hg.expression fun c hc => .bind (builds_block hg) fun b hb => .then fun s => ?_
  exact yields_pure (initialized_expr (by simpa using ⟨hc, hb⟩))

theorem builds_loopExpr : g.loopExpr.Builds .expr :=
  .then fun _ => .bind (builds_block hg) fun b hb => .then fun s => yields_pure (initialized_expr (by simpa using hb))

theorem builds_forExpr : g.forExpr.Builds .expr := by
  refine .then fun _ => .then fun names => .then fun _ => .bind hg.expression fun e he => ?_
  refine .bind (builds_block hg) fun b hb => .then fun s => yields_pure (initialized_expr ?_)
  cases names.1 <;> simpa using ⟨he, hb⟩

theorem yields_arguments : g.arguments.Yields fun es => ∀ e ∈ es, (Node.expr e).Initialized :=
  .then fun _ => .bind (yields_separated hg.expression) fun _ hes => .then fun _ => yields_pure hes

theorem builds_parameter : g.parameter.Builds .parameter := by
  refine .then fun name => .then fun annotated => ?_
  split
  · refine .bind hg.operand fun e he => .then fun s => yields_pure (.mk (by rintro _ ⟨⟩) ?_)
    -- the parts of a call are the predicate and its arguments
    have hcall : ∀ {s callee args}, e = .call s callee args → ∀ c ∈ (Node.expr e).children, c.Initialized :=
      fun _ _ hc => he.child hc
    cases e with
    | call s callee args => simpa using hcall rfl
    | _ => simpa using he
  · exact .then fun s => yields_pure (.mk (by rintro _ ⟨⟩) (by simp))

theorem builds_functionDef : g.functionDef.Builds .function := by
  have hwhere : g.whereClauses.Yields fun es => ∀ e ∈ es, (Node.expr e).Initialized := by
    refine .then fun hasWhere => ?_
    split
    · exact yields_commaList hg.expression
    · exact yields_pure (List.forall_mem_nil _)
  refine .then fun _ => .then fun _ => .then fun name => .then fun _ => ?_
  refine .bind (yields_separated (builds_parameter hg)) fun ps hps => .then fun _ => ?_
  split
  · exact .failAt
  · refine .bind hwhere fun es hes => .bind (builds_block hg) fun b hb => .then fun s => ?_
    refine yields_pure (initialized_expr ?_)
    cases name <;> simp_all [Node.block, or_imp, forall_and]

/-! ## Expressions -/

theorem builds_primary : g.primary.Builds .expr := by
  have hfunction : (do return .function (← g.functionDef) : Parse Expr).Builds .expr :=
    .bind (builds_functionDef hg) fun _ hf => yields_pure hf
  refine .then fun token => ?_
  split
  · next value _ => exact .then fun _ => yields_pure (initialized_expr (by cases value <;> simp [Node.literalFields]))
  · split
    · exact .then fun _ => yields_pure (initialized_expr (by simp))
    · exact .then fun _ => .bind hg.expression fun _ he => .then fun _ => yields_pure he
    · exact builds_arrayLiteral hg
    · refine .then fun second => ?_
      split
      · exact builds_objectLiteral hg
      · exact yields_failExpected
    · exact .bind (builds_block hg) fun _ hb => yields_pure hb
    · exact builds_conditional hg
    · exact builds_matchExpr hg
    · exact builds_tryExpr hg
    · exact builds_whileExpr hg
    · exact builds_whileExpr hg
    · exact builds_loopExpr hg
    · exact builds_forExpr hg
    · exact hfunction
    · exact hfunction
    · exact yields_failExpected

theorem yields_operandTail {e : Expr} (he : (Node.expr e).Initialized) :
    (g.operandTail e).Yields fun r => ∀ e' ∈ r, (Node.expr e').Initialized := by
  refine .then fun token => ?_
  split
  · refine .bind (yields_arguments hg) fun es hes => .then fun _ => yields_some (initialized_expr ?_)
    simpa using ⟨he, hes⟩
  · refine .then fun second => ?_
    split
    · exact yields_none
    · exact .then fun _ => .then fun member => yields_some (initialized_expr (by simpa using he))
  · refine .then fun _ => .bind hg.expression fun i hi => .then fun close => yields_some (initialized_expr ?_)
    simpa using ⟨he, hi⟩
  · split
    · split
      · exact .then fun _ => yields_some (initialized_expr (by simpa using he))
      · exact yields_none
    · exact yields_none

theorem builds_operandExpr : g.operandExpr.Builds .expr :=
  .bind (builds_primary hg) fun _ he => yields_iterate (fun _ he => yields_operandTail hg he) he

theorem builds_unaryExpr : g.unaryExpr.Builds .expr := by
  refine .then fun token => ?_
  split
  · exact .then fun _ => .bind hg.unary fun e he => yields_pure (initialized_expr (by simpa using he))
  · split
    · refine .then fun _ => .bind hg.unary fun e he => .then fun _ => ?_
      exact yields_pure (initialized_expr (by simpa using he))
    · exact builds_operandExpr hg

theorem builds_applyInfix {l r : Expr} {op : InfixOp} (hl : (Node.expr l).Initialized)
    (hr : (Node.expr r).Initialized) : (g.applyInfix l op r).Builds .expr := by
  have hstep : g.rangeStep.Yields fun step => ∀ e ∈ step, (Node.expr e).Initialized := by
    refine .then fun hasStep => ?_
    split
    · exact .then fun _ => .bind (hg.binary _) fun e he => yields_some he
    · exact yields_none
  cases op with
  | binary op => exact yields_pure (initialized_expr (by simpa using ⟨hl, hr⟩))
  | logical op => exact yields_pure (initialized_expr (by simpa using ⟨hl, hr⟩))
  | range withStart withStop =>
    refine .bind hstep fun step hs => yields_pure (initialized_expr ?_)
    cases step <;> simp_all

theorem yields_infixTail {least : Nat} {l : Expr} (hl : (Node.expr l).Initialized) :
    (g.infixTail least l).Yields fun r => ∀ e ∈ r, (Node.expr e).Initialized := by
  refine .then fun token => ?_
  split
  · exact yields_none
  · split
    · exact yields_none
    · refine .then fun _ => .bind (hg.binary _) fun r hr => .bind (builds_applyInfix hg hl hr) fun e he => ?_
      exact yields_some he

theorem builds_binaryExpr {least : Nat} : (g.binaryExpr least).Builds .expr :=
  .bind (builds_unaryExpr hg) fun _ he => yields_iterate (fun _ hl => yields_infixTail hg hl) he

theorem builds_ternaryExpr : g.ternaryExpr.Builds .expr := by
  refine .bind (builds_binaryExpr hg) fun c hc => .then fun isTernary => ?_
  split
  · refine .bind hg.ternary fun t ht => .then fun _ => .bind hg.ternary fun e he => yields_pure (initialized_expr ?_)
    simpa using ⟨hc, ht, he⟩
  · exact yields_pure hc

theorem builds_expressionExpr : g.expressionExpr.Builds .expr := by
  refine .bind (builds_ternaryExpr hg) fun target ht => .then fun token => ?_
  split
  · exact yields_pure ht
  · refine .then fun _ => .then fun _ => .bind hg.expression fun v hv => yields_pure (initialized_expr ?_)
    simpa using ⟨ht, hv⟩

/-! ## Statements -/

/-- An initial value that is needed is there. -/
theorem yields_initializer {needed : Bool} :
    (g.initializer needed).Yields fun r => (needed → r.isSome) ∧ ∀ e ∈ r, (Node.expr e).Initialized := by
  refine .then fun hasValue => ?_
  split
  · exact .bind (builds_expressionExpr hg) fun e he => yields_pure ⟨fun _ => rfl, by simpa using he⟩
  · split
    · exact yields_failExpected
    · next hneeded => exact yields_pure ⟨fun h => absurd h hneeded, by simp⟩

theorem builds_varDecl : g.varDecl.Builds .varDecl := by
  refine .then fun start => .then fun declared => .bind (yields_initializer hg) fun r hr => .then fun s => ?_
  obtain ⟨name, targets⟩ := declared
  refine yields_pure (.mk ?_ ?_)
  · rintro _ ⟨⟩ htargets
    exact hr.1 (by cases targets <;> simp_all)
  · cases r <;> cases name <;> simp_all

omit hg in
theorem initialized_exchanged (n : ExchangedName) : (Node.exchanged n).Initialized := by
  obtain ⟨s, name, altName⟩ := n
  exact .mk (by rintro _ ⟨⟩) (by cases altName <;> simp)

omit hg in
theorem initialized_enumDecl (d : EnumDecl) : (Node.enumDecl d).Initialized :=
  .mk (by rintro _ ⟨⟩) (by simp [Node.enumDeclFields])

theorem builds_exportStmt : g.exportStmt.Builds .stmt := by
  have hexport {d : Declaration} {s : Span} (hd : ∀ c ∈ (NodeField.ofDeclaration d).children, c.Initialized) :
      (Node.stmt (.exportDeclared s d)).Initialized := .mk (by rintro _ ⟨⟩) (by simpa using hd)
  have hfunction : g.exportedFunction.Builds .function := by
    refine .bind (builds_functionDef hg) fun f hf => ?_
    dsimp only
    split
    · exact .failAt
    · exact yields_pure hf
  refine .then fun start => .then fun token => ?_
  split
  · exact .bind (builds_varDecl hg) fun d hd => .then fun s => yields_pure (hexport (by simpa using hd))
  · exact .bind (builds_varDecl hg) fun d hd => .then fun s => yields_pure (hexport (by simpa using hd))
  · exact .then fun d => .then fun s => yields_pure (hexport (by simpa using initialized_enumDecl d))
  · exact .bind hfunction fun f hf => .then fun s => yields_pure (hexport (by simpa using hf))
  · exact .bind hfunction fun f hf => .then fun s => yields_pure (hexport (by simpa using hf))
  · exact .then fun names => .then fun s => yields_pure (.mk (by rintro _ ⟨⟩) (by simp [initialized_exchanged]))

theorem builds_stmt : g.stmt.Builds .stmt := by
  have hbindings : (do return .bindings (← g.varDecl) : Parse Stmt).Builds .stmt := by
    refine .bind (builds_varDecl hg) fun d hd => yields_pure (.mk ?_ ?_)
    · rintro _ ⟨⟩
      exact hd.here d (.exported d)
    · exact fun c hc => hd.child hc
  have himport : (do return .importNames (← g.importStmt) : Parse Stmt).Builds .stmt :=
    .then fun i => yields_pure (.mk (by rintro _ ⟨⟩) (by simp [initialized_exchanged]))
  have hreturned : g.returnedValue.Yields fun r => ∀ e ∈ r, (Node.expr e).Initialized := by
    refine .then fun atEnd => ?_
    split
    · exact yields_none
    · exact .bind (builds_expressionExpr hg) fun e he => yields_some he
  refine .then fun token => ?_
  split
  · exact hbindings
  · exact hbindings
  · refine .then fun _ => .bind hreturned fun r hr => .then fun s => yields_pure (.mk (by rintro _ ⟨⟩) ?_)
    cases r <;> simp_all
  · exact .then fun _ => yields_pure (.mk (by rintro _ ⟨⟩) (by simp))
  · exact .then fun _ => yields_pure (.mk (by rintro _ ⟨⟩) (by simp))
  · refine .then fun _ => .bind (builds_expressionExpr hg) fun e he => .then fun s => ?_
    exact yields_pure (.mk (by rintro _ ⟨⟩) (by simpa using he))
  · exact .then fun d => yields_pure (.mk (by rintro _ ⟨⟩) (by simp [Node.enumDeclFields]))
  · exact himport
  · exact himport
  · exact builds_exportStmt hg
  · exact .bind (builds_expressionExpr hg) fun e he => yields_pure (.mk (by rintro _ ⟨⟩) (by simpa using he))

end

/-! ## Levels and programs -/

theorem initializes_above (hg : g.Initializes) : g.above.Initializes where
  expression := builds_expressionExpr hg
  ternary := builds_ternaryExpr hg
  binary _ := builds_binaryExpr hg
  unary := builds_unaryExpr hg
  operand := builds_operandExpr hg
  ifElse := builds_conditional hg
  statement := builds_stmt hg

theorem initializes_ofLevel (n : Nat) : (ofLevel n).Initializes := by
  induction n with
  | zero =>
    exact ⟨yields_exhausted, yields_exhausted, fun _ => yields_exhausted, yields_exhausted, yields_exhausted,
      yields_exhausted, yields_exhausted⟩
  | succ n ih => exact initializes_above ih

theorem builds_program (hg : g.Initializes) (file : Option Text) : (g.program file).Builds .program := by
  have hstatements : g.programStatements.Yields fun ss => ∀ s ∈ ss, (Node.stmt s).Initialized := by
    refine yields_many (.then fun atEnd => ?_)
    split
    · exact yields_none
    · exact .bind hg.statement fun s hs => .then fun _ => yields_some hs
  refine .then fun _ => .then fun _ => .bind hstatements fun ss hss => .then fun s => ?_
  refine yields_pure (.mk (by rintro _ ⟨⟩) ?_)
  cases file <;> simpa using hss

end Grammar

/-! ## Rejected declarations -/

/-- The error of a token that stands in the place of something else. -/
def ParseError.misplaced (expected : Text) (token : Token) : ParseError where
  cause := if token.kind = .endOfFile then .unexpectedEnd expected
    else .unexpectedToken expected ("'" ++ token.lexeme ++ "'")
  span := token.span

theorem Parse.failExpected_run {α : Type} {expected : Text} {ts : Array Token} {i : Nat} (hi : i < ts.size) :
    (failExpected expected : Parse α) ts i = .error (.rejected (.misplaced expected (tokenIn ts i))) := by
  rw [failExpected, bind_ok (peek_run hi)]
  obtain ⟨kind, lexeme, span⟩ := tokenIn ts i
  cases kind <;> rfl

namespace Grammar

open Parse

variable {g : Grammar} {names : List Text} {k : TokenKind} {rest : List TokenKind}

/-- The kinds of the tokens of a pattern. -/
def patternKinds (names : List Text) : List TokenKind :=
  .symbol .lbracket :: ([.symbol .comma].intercalate (names.map fun t => [.identifier t]) ++ [.symbol .rbracket])

theorem takes_declared (hb : names.length < g.bound) :
    Takes g.declared (patternKinds names ++ rest) rest (· = (none, names)) := by
  have hname {expected t : Text} {after : List TokenKind} :
      Takes (expectName expected) (.identifier t :: after) after (·.2 = t) := by
    refine takes_peek.bind fun token ht => ?_
    rw [ht]
    exact takes_next.bind fun _ _ => takes_pure rfl
  have hitems : Takes (separated .rbracket (return (← expectName "identifier").2) g.bound)
      ([.symbol .comma].intercalate (names.map fun t => [.identifier t]) ++ .symbol .rbracket :: rest)
      (.symbol .rbracket :: rest) (List.Forall₂ Eq names) :=
    takes_separated (by decide) (by decide) (fun t _ after _ => hname.bind fun _ hr => takes_pure hr.symm)
      (fun t _ => ⟨_, _, rfl, by simp⟩) hb
  rw [patternKinds, List.cons_append, List.append_assoc]
  refine takes_accept.bind ?_
  rintro _ rfl
  refine hitems.bind fun targets htargets => takes_expect.bind fun _ _ => takes_pure ?_
  rw [List.forall₂_eq_eq_eq] at htargets
  rw [htargets]

/-- A declaration with a pattern that no initial value follows is rejected at the token that stands in its place. -/
theorem varDecl_rejects {ts : Array Token} {i : Nat} (hnames : names ≠ []) (hb : names.length < g.bound)
    (hrest : rest.headD .endOfFile ≠ .symbol .assign) (hs : Sees ts i (k :: (patternKinds names ++ rest))) :
    ∃ j, Sees ts j rest ∧
      g.varDecl ts i = .error (.rejected (.misplaced "'=' and an initializer" (tokenIn ts j))) := by
  obtain ⟨start, l, hstart, hpattern, -⟩ := takes_next ts i hs
  obtain ⟨_, n, hdeclared, hafter, rfl⟩ := takes_declared hb ts l hpattern
  obtain ⟨_, j, haccept, hafter, rfl⟩ := takes_accept_of_ne hrest ts n hafter
  refine ⟨j, hafter, ?_⟩
  have hneeded : (decide (start.kind = .keyword .kwConst) || !names.isEmpty) = true := by
    simp [hnames]
  have hinitializer : g.initializer true ts n =
      .error (.rejected (.misplaced "'=' and an initializer" (tokenIn ts j))) := by
    rw [initializer, acceptSymbol, bind_ok haccept]
    exact failExpected_run hafter.lt_size
  rw [varDecl, bind_ok hstart, bind_ok hdeclared]
  dsimp only
  rw [hneeded]
  exact bind_error hinitializer

end Grammar

/-- In a parsed program, every declaration with a pattern has an initial value. -/
theorem Program.initialized_of_parse {source : Text} {file : Option Text} {p : Program}
    (hp : parse source file = .ok p) : (Node.program p).Initialized := by
  cases htokens : tokenize source file with
  | error e =>
    rw [parse, htokens] at hp
    cases hp
  | ok tokens =>
    have hparse : parse source file = (ofTokens tokens file).mapError .grammatical := by
      rw [parse, htokens]
      rfl
    rw [hparse, ofTokens] at hp
    cases hrun : ((Grammar.ofLevel (tokens.length + 2)).program file).runOn tokens with
    | error stop =>
      rw [hrun] at hp
      cases hp
    | ok r =>
      rw [hrun] at hp
      cases hp
      exact Grammar.builds_program (Grammar.initializes_ofLevel _) file _ _ _ _ hrun

end ScriptEngine

import ScriptEngine.Program.Tree

/-!
# Trees that differ in spans

Two trees are gone through side by side, and the spans that stand at the same place are paired (`FunctionDef.pairs`),
unless the trees differ in something else. Trees are equal if the spans of every pair are (`FunctionDef.eq_of_agree`).

A tree that is written down with a number in place of every span is found in this way in a tree that was read from a
source: the pairs tell which span each number stands for (`FunctionDef.exists_of_isNumbered`).
-/

namespace ScriptEngine

/-- The spans of two trees, pair by pair, if the trees differ in spans alone. -/
abbrev SpanPairs := Option (List (Span × Span))

namespace SpanPairs

variable {s s' : Span} {same : Bool} {p q : SpanPairs}

/-- The pairs of two nodes, whose own data are the same if `same` is true. -/
def node (s s' : Span) (same : Bool) (parts : SpanPairs) : SpanPairs :=
  if same then parts.map ((s, s') :: ·) else none

/-- The pairs of two parts. -/
def both (p q : SpanPairs) : SpanPairs := p.bind fun ps => q.map (ps ++ ·)

/-- The pairs are known and are pairs of equal spans. -/
def Agree (p : SpanPairs) : Prop := ∃ ps, p = some ps ∧ ∀ q ∈ ps, q.1 = q.2

@[simp] theorem not_agree_none : ¬ Agree none := nofun

@[simp] theorem agree_some_nil : Agree (some []) := ⟨[], rfl, List.forall_mem_nil _⟩

@[simp] theorem agree_both : Agree (both p q) ↔ Agree p ∧ Agree q := by
  cases p <;> cases q <;> simp [Agree, both, or_imp, forall_and]

theorem agree_some {ps : List (Span × Span)} : Agree (some ps) ↔ ∀ q ∈ ps, q.1 = q.2 := by simp [Agree]

theorem agree_ite {P : Prop} [Decidable P] : Agree (if P then p else none) ↔ P ∧ Agree p := by
  by_cases h : P <;> simp [h]

@[simp] theorem agree_node : Agree (node s s' same p) ↔ same = true ∧ s = s' ∧ Agree p := by
  cases same with
  | false => simp [node]
  | true =>
    cases p with
    | none => simp [node]
    | some ps => rw [show node s s' true (some ps) = some ((s, s') :: ps) from rfl, agree_some, agree_some,
        List.forall_mem_cons, eq_self, true_and]

instance decidableAgree : (p : SpanPairs) → Decidable (Agree p)
  | none => .isFalse not_agree_none
  | some _ => decidable_of_iff _ agree_some.symm

end SpanPairs

open SpanPairs

mutual

/-- The spans of two expressions. -/
def Expr.pairs : Expr → Expr → SpanPairs
  | .literal s v, .literal s' v' => node s s' (v = v') (some [])
  | .name s n, .name s' n' => node s s' (n = n') (some [])
  | .binary s l op r, .binary s' l' op' r' => node s s' (op = op') (both (l.pairs l') (r.pairs r'))
  | .logical s l op r, .logical s' l' op' r' => node s s' (op = op') (both (l.pairs l') (r.pairs r'))
  | .unary s op e, .unary s' op' e' => node s s' (op = op') (e.pairs e')
  | .update s op e b, .update s' op' e' b' => node s s' (op = op' ∧ b = b') (e.pairs e')
  | .assign s t op v, .assign s' t' op' v' => node s s' (op = op') (both (t.pairs t') (v.pairs v'))
  | .member s o n, .member s' o' n' => node s s' (n = n') (o.pairs o')
  | .index s o i, .index s' o' i' => node s s' true (both (o.pairs o') (i.pairs i'))
  | .call s f args, .call s' f' args' => node s s' true (both (f.pairs f') (exprPairs args args'))
  | .array s es, .array s' es' => node s s' true (exprPairs es es')
  | .object s es, .object s' es' => node s s' true (entryPairs es es')
  | .range s a b i j step, .range s' a' b' i' j' step' =>
    node s s' (i = i' ∧ j = j') (both (a.pairs a') (both (b.pairs b') (optionalPairs step step')))
  | .block b, .block b' => b.pairs b'
  | .ifElse s c t e, .ifElse s' c' t' e' => node s s' true (both (c.pairs c') (both (t.pairs t') (optionalPairs e e')))
  | .ternary s c t e, .ternary s' c' t' e' => node s s' true (both (c.pairs c') (both (t.pairs t') (e.pairs e')))
  | .whileLoop s c b n, .whileLoop s' c' b' n' => node s s' (n = n') (both (c.pairs c') (b.pairs b'))
  | .loop s b, .loop s' b' => node s s' true (b.pairs b')
  | .forIn s i v e b, .forIn s' i' v' e' b' => node s s' (i = i' ∧ v = v') (both (e.pairs e') (b.pairs b'))
  | .tryCatch s b n h c, .tryCatch s' b' n' h' c' =>
    node s s' (n = n') (both (b.pairs b') (both (optionalBlockPairs h h') (optionalBlockPairs c c')))
  | .matchOn s e arms, .matchOn s' e' arms' => node s s' true (both (e.pairs e') (armPairs arms arms'))
  | .function f, .function f' => f.pairs f'
  | _, _ => none
termination_by structural e => e

/-- The spans of two blocks. -/
def Block.pairs : Block → Block → SpanPairs
  | ⟨s, ss⟩, ⟨s', ss'⟩ => node s s' true (stmtPairs ss ss')
termination_by structural e => e

/-- The spans of two entries. -/
def ObjectEntry.pairs : ObjectEntry → ObjectEntry → SpanPairs
  | ⟨s, k, v⟩, ⟨s', k', v'⟩ => node s s' (k = k') (v.pairs v')
termination_by structural e => e

/-- The spans of two arms. -/
def MatchArm.pairs : MatchArm → MatchArm → SpanPairs
  | ⟨s, t, b⟩, ⟨s', t', b'⟩ => node s s' true (both (t.pairs t') (b.pairs b'))
termination_by structural e => e

/-- The spans of two tests. -/
def ArmTest.pairs : ArmTest → ArmTest → SpanPairs
  | .equals e, .equals e' => e.pairs e'
  | .compares op e, .compares op' e' => if op = op' then e.pairs e' else none
  | .isVariant e, .isVariant e' => e.pairs e'
  | .otherwise, .otherwise => some []
  | _, _ => none
termination_by structural e => e

/-- The spans of two parameters. -/
def Parameter.pairs : Parameter → Parameter → SpanPairs
  | ⟨s, n, p, args⟩, ⟨s', n', p', args'⟩ => node s s' (n = n') (both (optionalPairs p p') (exprPairs args args'))
termination_by structural e => e

/-- The spans of two functions. -/
def FunctionDef.pairs : FunctionDef → FunctionDef → SpanPairs
  | ⟨s, n, ps, b, ws, p⟩, ⟨s', n', ps', b', ws', p'⟩ =>
    node s s' (n = n' ∧ p = p') (both (parameterPairs ps ps') (both (b.pairs b') (exprPairs ws ws')))
termination_by structural e => e

/-- The spans of two declarations of variables. -/
def VarDecl.pairs : VarDecl → VarDecl → SpanPairs
  | ⟨s, n, e, c, ts⟩, ⟨s', n', e', c', ts'⟩ => node s s' (n = n' ∧ c = c' ∧ ts = ts') (optionalPairs e e')
termination_by structural d => d

/-- The spans of two statements, of which none exchanges names or declares an enum. -/
def Stmt.pairs : Stmt → Stmt → SpanPairs
  | .expression s e, .expression s' e' => node s s' true (e.pairs e')
  | .bindings d, .bindings d' => d.pairs d'
  | .breakLoop s, .breakLoop s' | .continueLoop s, .continueLoop s' => node s s' true (some [])
  | .returnValue s e, .returnValue s' e' => node s s' true (optionalPairs e e')
  | .throwValue s e, .throwValue s' e' => node s s' true (e.pairs e')
  | _, _ => none
termination_by structural e => e

/-- The spans of two lists of expressions. -/
def exprPairs : List Expr → List Expr → SpanPairs
  | [], [] => some []
  | e :: es, e' :: es' => both (e.pairs e') (exprPairs es es')
  | _, _ => none
termination_by structural e => e

/-- The spans of two expressions that may be left out. -/
def optionalPairs : Option Expr → Option Expr → SpanPairs
  | none, none => some []
  | some e, some e' => e.pairs e'
  | _, _ => none
termination_by structural e => e

/-- The spans of two blocks that may be left out. -/
def optionalBlockPairs : Option Block → Option Block → SpanPairs
  | none, none => some []
  | some b, some b' => b.pairs b'
  | _, _ => none
termination_by structural e => e

/-- The spans of two lists of entries. -/
def entryPairs : List ObjectEntry → List ObjectEntry → SpanPairs
  | [], [] => some []
  | e :: es, e' :: es' => both (e.pairs e') (entryPairs es es')
  | _, _ => none
termination_by structural e => e

/-- The spans of two lists of statements. -/
def stmtPairs : List Stmt → List Stmt → SpanPairs
  | [], [] => some []
  | e :: es, e' :: es' => both (e.pairs e') (stmtPairs es es')
  | _, _ => none
termination_by structural e => e

/-- The spans of two lists of arms. -/
def armPairs : List MatchArm → List MatchArm → SpanPairs
  | [], [] => some []
  | e :: es, e' :: es' => both (e.pairs e') (armPairs es es')
  | _, _ => none
termination_by structural e => e

/-- The spans of two lists of parameters. -/
def parameterPairs : List Parameter → List Parameter → SpanPairs
  | [], [] => some []
  | e :: es, e' :: es' => both (e.pairs e') (parameterPairs es es')
  | _, _ => none
termination_by structural e => e

end


mutual

theorem Expr.eq_of_agree : ∀ (e e' : Expr), Agree (e.pairs e') → e = e'
  | .literal s v, e', h => by
    cases e' with
    | literal s' v' =>
      obtain ⟨hv, rfl, -⟩ := agree_node.1 h
      obtain rfl := of_decide_eq_true hv
      rfl
    | _ => exact absurd h not_agree_none
  | .name s n, e', h => by
    cases e' with
    | name s' n' =>
      obtain ⟨hn, rfl, -⟩ := agree_node.1 h
      obtain rfl := of_decide_eq_true hn
      rfl
    | _ => exact absurd h not_agree_none
  | .binary s l op r, e', h => by
    cases e' with
    | binary s' l' op' r' =>
      obtain ⟨hop, rfl, hs⟩ := agree_node.1 h
      obtain rfl := of_decide_eq_true hop
      obtain ⟨hl, hr⟩ := agree_both.1 hs
      rw [Expr.eq_of_agree l _ hl, Expr.eq_of_agree r _ hr]
    | _ => exact absurd h not_agree_none
  | .logical s l op r, e', h => by
    cases e' with
    | logical s' l' op' r' =>
      obtain ⟨hop, rfl, hs⟩ := agree_node.1 h
      obtain rfl := of_decide_eq_true hop
      obtain ⟨hl, hr⟩ := agree_both.1 hs
      rw [Expr.eq_of_agree l _ hl, Expr.eq_of_agree r _ hr]
    | _ => exact absurd h not_agree_none
  | .unary s op e, e', h => by
    cases e' with
    | unary s' op' e' =>
      obtain ⟨hop, rfl, he⟩ := agree_node.1 h
      obtain rfl := of_decide_eq_true hop
      rw [Expr.eq_of_agree e _ he]
    | _ => exact absurd h not_agree_none
  | .update s op e b, e', h => by
    cases e' with
    | update s' op' e' b' =>
      obtain ⟨hsame, rfl, he⟩ := agree_node.1 h
      obtain ⟨rfl, rfl⟩ := of_decide_eq_true hsame
      rw [Expr.eq_of_agree e _ he]
    | _ => exact absurd h not_agree_none
  | .assign s t op v, e', h => by
    cases e' with
    | assign s' t' op' v' =>
      obtain ⟨hop, rfl, hs⟩ := agree_node.1 h
      obtain rfl := of_decide_eq_true hop
      obtain ⟨ht, hv⟩ := agree_both.1 hs
      rw [Expr.eq_of_agree t _ ht, Expr.eq_of_agree v _ hv]
    | _ => exact absurd h not_agree_none
  | .member s o n, e', h => by
    cases e' with
    | member s' o' n' =>
      obtain ⟨hn, rfl, ho⟩ := agree_node.1 h
      obtain rfl := of_decide_eq_true hn
      rw [Expr.eq_of_agree o _ ho]
    | _ => exact absurd h not_agree_none
  | .index s o i, e', h => by
    cases e' with
    | index s' o' i' =>
      obtain ⟨-, rfl, hs⟩ := agree_node.1 h
      obtain ⟨ho, hi⟩ := agree_both.1 hs
      rw [Expr.eq_of_agree o _ ho, Expr.eq_of_agree i _ hi]
    | _ => exact absurd h not_agree_none
  | .call s f args, e', h => by
    cases e' with
    | call s' f' args' =>
      obtain ⟨-, rfl, hs⟩ := agree_node.1 h
      obtain ⟨hf, hargs⟩ := agree_both.1 hs
      rw [Expr.eq_of_agree f _ hf, eq_of_agree_exprs args _ hargs]
    | _ => exact absurd h not_agree_none
  | .array s es, e', h => by
    cases e' with
    | array s' es' =>
      obtain ⟨-, rfl, hes⟩ := agree_node.1 h
      rw [eq_of_agree_exprs es _ hes]
    | _ => exact absurd h not_agree_none
  | .object s es, e', h => by
    cases e' with
    | object s' es' =>
      obtain ⟨-, rfl, hes⟩ := agree_node.1 h
      rw [eq_of_agree_entries es _ hes]
    | _ => exact absurd h not_agree_none
  | .range s a b i j step, e', h => by
    cases e' with
    | range s' a' b' i' j' step' =>
      obtain ⟨hsame, rfl, hs⟩ := agree_node.1 h
      obtain ⟨rfl, rfl⟩ := of_decide_eq_true hsame
      obtain ⟨ha, hs⟩ := agree_both.1 hs
      obtain ⟨hb, hstep⟩ := agree_both.1 hs
      rw [Expr.eq_of_agree a _ ha, Expr.eq_of_agree b _ hb, eq_of_agree_optional step _ hstep]
    | _ => exact absurd h not_agree_none
  | .block b, e', h => by
    cases e' with
    | block b' =>
      rw [Block.eq_of_agree b _ h]
    | _ => exact absurd h not_agree_none
  | .ifElse s c t e, e', h => by
    cases e' with
    | ifElse s' c' t' e' =>
      obtain ⟨-, rfl, hs⟩ := agree_node.1 h
      obtain ⟨hc, hs⟩ := agree_both.1 hs
      obtain ⟨ht, he⟩ := agree_both.1 hs
      rw [Expr.eq_of_agree c _ hc, Block.eq_of_agree t _ ht, eq_of_agree_optional e _ he]
    | _ => exact absurd h not_agree_none
  | .ternary s c t e, e', h => by
    cases e' with
    | ternary s' c' t' e' =>
      obtain ⟨-, rfl, hs⟩ := agree_node.1 h
      obtain ⟨hc, hs⟩ := agree_both.1 hs
      obtain ⟨ht, he⟩ := agree_both.1 hs
      rw [Expr.eq_of_agree c _ hc, Expr.eq_of_agree t _ ht, Expr.eq_of_agree e _ he]
    | _ => exact absurd h not_agree_none
  | .whileLoop s c b n, e', h => by
    cases e' with
    | whileLoop s' c' b' n' =>
      obtain ⟨hn, rfl, hs⟩ := agree_node.1 h
      obtain rfl := of_decide_eq_true hn
      obtain ⟨hc, hb⟩ := agree_both.1 hs
      rw [Expr.eq_of_agree c _ hc, Block.eq_of_agree b _ hb]
    | _ => exact absurd h not_agree_none
  | .loop s b, e', h => by
    cases e' with
    | loop s' b' =>
      obtain ⟨-, rfl, hb⟩ := agree_node.1 h
      rw [Block.eq_of_agree b _ hb]
    | _ => exact absurd h not_agree_none
  | .forIn s i v e b, e', h => by
    cases e' with
    | forIn s' i' v' e' b' =>
      obtain ⟨hsame, rfl, hs⟩ := agree_node.1 h
      obtain ⟨rfl, rfl⟩ := of_decide_eq_true hsame
      obtain ⟨he, hb⟩ := agree_both.1 hs
      rw [Expr.eq_of_agree e _ he, Block.eq_of_agree b _ hb]
    | _ => exact absurd h not_agree_none
  | .tryCatch s b n r c, e', h => by
    cases e' with
    | tryCatch s' b' n' r' c' =>
      obtain ⟨hn, rfl, hs⟩ := agree_node.1 h
      obtain rfl := of_decide_eq_true hn
      obtain ⟨hb, hs⟩ := agree_both.1 hs
      obtain ⟨hr, hc⟩ := agree_both.1 hs
      rw [Block.eq_of_agree b _ hb, eq_of_agree_optionalBlock r _ hr, eq_of_agree_optionalBlock c _ hc]
    | _ => exact absurd h not_agree_none
  | .matchOn s e arms, e', h => by
    cases e' with
    | matchOn s' e' arms' =>
      obtain ⟨-, rfl, hs⟩ := agree_node.1 h
      obtain ⟨he, harms⟩ := agree_both.1 hs
      rw [Expr.eq_of_agree e _ he, eq_of_agree_arms arms _ harms]
    | _ => exact absurd h not_agree_none
  | .function f, e', h => by
    cases e' with
    | function f' =>
      rw [FunctionDef.eq_of_agree f _ h]
    | _ => exact absurd h not_agree_none
termination_by structural e => e

theorem Block.eq_of_agree : ∀ (b b' : Block), Agree (b.pairs b') → b = b'
  | ⟨s, ss⟩, ⟨s', ss'⟩, h => by
    obtain ⟨-, rfl, hss⟩ := agree_node.1 h
    rw [eq_of_agree_stmts ss _ hss]
termination_by structural b => b

theorem ObjectEntry.eq_of_agree : ∀ (e e' : ObjectEntry), Agree (e.pairs e') → e = e'
  | ⟨s, k, v⟩, ⟨s', k', v'⟩, h => by
    obtain ⟨hk, rfl, hv⟩ := agree_node.1 h
    obtain rfl := of_decide_eq_true hk
    rw [Expr.eq_of_agree v _ hv]
termination_by structural e => e

theorem MatchArm.eq_of_agree : ∀ (a a' : MatchArm), Agree (a.pairs a') → a = a'
  | ⟨s, t, b⟩, ⟨s', t', b'⟩, h => by
    obtain ⟨-, rfl, hs⟩ := agree_node.1 h
    obtain ⟨ht, hb⟩ := agree_both.1 hs
    rw [ArmTest.eq_of_agree t _ ht, Block.eq_of_agree b _ hb]
termination_by structural a => a

theorem ArmTest.eq_of_agree : ∀ (t t' : ArmTest), Agree (t.pairs t') → t = t'
  | .equals e, t', h => by
    cases t' with
    | equals e' => rw [Expr.eq_of_agree e e' h]
    | _ => exact absurd h not_agree_none
  | .compares op e, t', h => by
    cases t' with
    | compares op' e' =>
      obtain ⟨hop, he⟩ := agree_ite.1 h
      rw [hop, Expr.eq_of_agree e e' he]
    | _ => exact absurd h not_agree_none
  | .isVariant e, t', h => by
    cases t' with
    | isVariant e' => rw [Expr.eq_of_agree e e' h]
    | _ => exact absurd h not_agree_none
  | .otherwise, t', h => by
    cases t' with
    | otherwise => rfl
    | _ => exact absurd h not_agree_none
termination_by structural t => t

theorem Parameter.eq_of_agree : ∀ (x x' : Parameter), Agree (x.pairs x') → x = x'
  | ⟨s, n, p, args⟩, ⟨s', n', p', args'⟩, h => by
    obtain ⟨hn, rfl, hs⟩ := agree_node.1 h
    obtain rfl := of_decide_eq_true hn
    obtain ⟨hp, hargs⟩ := agree_both.1 hs
    rw [eq_of_agree_optional p _ hp, eq_of_agree_exprs args _ hargs]
termination_by structural x => x

theorem FunctionDef.eq_of_agree : ∀ (f f' : FunctionDef), Agree (f.pairs f') → f = f'
  | ⟨s, n, ps, b, ws, p⟩, ⟨s', n', ps', b', ws', p'⟩, h => by
    obtain ⟨hsame, rfl, hs⟩ := agree_node.1 h
    obtain ⟨rfl, rfl⟩ := of_decide_eq_true hsame
    obtain ⟨hps, hs⟩ := agree_both.1 hs
    obtain ⟨hb, hws⟩ := agree_both.1 hs
    rw [eq_of_agree_parameters ps _ hps, Block.eq_of_agree b _ hb, eq_of_agree_exprs ws _ hws]
termination_by structural f => f

theorem VarDecl.eq_of_agree : ∀ (d d' : VarDecl), Agree (d.pairs d') → d = d'
  | ⟨s, n, e, c, ts⟩, ⟨s', n', e', c', ts'⟩, h => by
    obtain ⟨hsame, rfl, he⟩ := agree_node.1 h
    obtain ⟨rfl, rfl, rfl⟩ := of_decide_eq_true hsame
    rw [eq_of_agree_optional e _ he]
termination_by structural d => d

theorem Stmt.eq_of_agree : ∀ (s s' : Stmt), Agree (s.pairs s') → s = s'
  | .expression p e, s', h => by
    cases s' with
    | expression p' e' =>
      obtain ⟨-, rfl, he⟩ := agree_node.1 h
      rw [Expr.eq_of_agree e _ he]
    | _ => exact absurd h not_agree_none
  | .bindings d, s', h => by
    cases s' with
    | bindings d' =>
      rw [VarDecl.eq_of_agree d _ h]
    | _ => exact absurd h not_agree_none
  | .breakLoop p, s', h => by
    cases s' with
    | breakLoop p' =>
      obtain ⟨-, rfl, -⟩ := agree_node.1 h
      rfl
    | _ => exact absurd h not_agree_none
  | .continueLoop p, s', h => by
    cases s' with
    | continueLoop p' =>
      obtain ⟨-, rfl, -⟩ := agree_node.1 h
      rfl
    | _ => exact absurd h not_agree_none
  | .returnValue p e, s', h => by
    cases s' with
    | returnValue p' e' =>
      obtain ⟨-, rfl, he⟩ := agree_node.1 h
      rw [eq_of_agree_optional e _ he]
    | _ => exact absurd h not_agree_none
  | .throwValue p e, s', h => by
    cases s' with
    | throwValue p' e' =>
      obtain ⟨-, rfl, he⟩ := agree_node.1 h
      rw [Expr.eq_of_agree e _ he]
    | _ => exact absurd h not_agree_none
  | .enum _, _, h => absurd h not_agree_none
  | .importNames _, _, h => absurd h not_agree_none
  | .exportDeclared _ _, _, h => absurd h not_agree_none
  | .exportNames _ _, _, h => absurd h not_agree_none
termination_by structural s => s

theorem eq_of_agree_exprs : ∀ (es es' : List Expr), Agree (exprPairs es es') → es = es'
  | [], es', h => by
    cases es' with
    | nil => rfl
    | cons _ _ => exact absurd h not_agree_none
  | e :: es, es', h => by
    cases es' with
    | nil => exact absurd h not_agree_none
    | cons e' es' =>
      obtain ⟨hhead, htail⟩ := agree_both.1 h
      rw [Expr.eq_of_agree e e' hhead, eq_of_agree_exprs es es' htail]
termination_by structural es => es

theorem eq_of_agree_optional : ∀ (o o' : Option Expr), Agree (optionalPairs o o') → o = o'
  | none, o', h => by
    cases o' with
    | none => rfl
    | some _ => exact absurd h not_agree_none
  | some e, o', h => by
    cases o' with
    | none => exact absurd h not_agree_none
    | some e' => rw [Expr.eq_of_agree e e' h]
termination_by structural o => o

theorem eq_of_agree_optionalBlock : ∀ (o o' : Option Block), Agree (optionalBlockPairs o o') → o = o'
  | none, o', h => by
    cases o' with
    | none => rfl
    | some _ => exact absurd h not_agree_none
  | some b, o', h => by
    cases o' with
    | none => exact absurd h not_agree_none
    | some b' => rw [Block.eq_of_agree b b' h]
termination_by structural o => o

theorem eq_of_agree_entries : ∀ (es es' : List ObjectEntry), Agree (entryPairs es es') → es = es'
  | [], es', h => by
    cases es' with
    | nil => rfl
    | cons _ _ => exact absurd h not_agree_none
  | e :: es, es', h => by
    cases es' with
    | nil => exact absurd h not_agree_none
    | cons e' es' =>
      obtain ⟨hhead, htail⟩ := agree_both.1 h
      rw [ObjectEntry.eq_of_agree e e' hhead, eq_of_agree_entries es es' htail]
termination_by structural es => es

theorem eq_of_agree_stmts : ∀ (ss ss' : List Stmt), Agree (stmtPairs ss ss') → ss = ss'
  | [], ss', h => by
    cases ss' with
    | nil => rfl
    | cons _ _ => exact absurd h not_agree_none
  | s :: ss, ss', h => by
    cases ss' with
    | nil => exact absurd h not_agree_none
    | cons s' ss' =>
      obtain ⟨hhead, htail⟩ := agree_both.1 h
      rw [Stmt.eq_of_agree s s' hhead, eq_of_agree_stmts ss ss' htail]
termination_by structural ss => ss

theorem eq_of_agree_arms : ∀ (as as' : List MatchArm), Agree (armPairs as as') → as = as'
  | [], as', h => by
    cases as' with
    | nil => rfl
    | cons _ _ => exact absurd h not_agree_none
  | a :: as, as', h => by
    cases as' with
    | nil => exact absurd h not_agree_none
    | cons a' as' =>
      obtain ⟨hhead, htail⟩ := agree_both.1 h
      rw [MatchArm.eq_of_agree a a' hhead, eq_of_agree_arms as as' htail]
termination_by structural as => as

theorem eq_of_agree_parameters : ∀ (xs xs' : List Parameter), Agree (parameterPairs xs xs') → xs = xs'
  | [], xs', h => by
    cases xs' with
    | nil => rfl
    | cons _ _ => exact absurd h not_agree_none
  | x :: xs, xs', h => by
    cases xs' with
    | nil => exact absurd h not_agree_none
    | cons x' xs' =>
      obtain ⟨hhead, htail⟩ := agree_both.1 h
      rw [Parameter.eq_of_agree x x' hhead, eq_of_agree_parameters xs xs' htail]
termination_by structural xs => xs

end

/-! ## Numbered trees -/

/-- The span that keeps a number. -/
def Span.numbered (n : Nat) : Span := ⟨⟨n, 0, 0, none⟩, ⟨n, 0, 0, none⟩⟩

namespace FunctionDef

/-- The span that a number stands for if a numbered tree is a function: the one at the place of the number. -/
def spanOf (f : FunctionDef) (t : (Nat → Span) → FunctionDef) (n : Nat) : Span :=
  ((((t .numbered).pairs f).getD []).find? (·.1.start.line == n)).elim .unknown Prod.snd

/-- A numbered tree is a function. -/
def IsNumbered (f : FunctionDef) (t : (Nat → Span) → FunctionDef) : Prop := Agree ((t (f.spanOf t)).pairs f)

instance (f : FunctionDef) (t : (Nat → Span) → FunctionDef) : Decidable (f.IsNumbered t) := decidableAgree _

theorem exists_of_isNumbered {f : FunctionDef} {t : (Nat → Span) → FunctionDef} (h : f.IsNumbered t) : ∃ p, f = t p :=
  ⟨_, (FunctionDef.eq_of_agree _ f h).symm⟩

end FunctionDef

end ScriptEngine

import Mathlib.Data.List.Forall2
import ScriptEngine.Proofs.Program.Position
import ScriptEngine.Proofs.Token.Tiling

/-!
# What parsers take

`Parse.Takes p before after P`: where the tokens ahead are of the kinds `before`, the parser `p`
succeeds, leaves tokens of the kinds `after`, and its result satisfies `P`. Spans play no part.

There is a rule for each way to build a parser, and on top of them one for each construct that
literals need:

* **Operands** (`takes_operandExpr`, `takes_binaryExpr`, `takes_expressionExpr`): an operand by itself
  is an expression where an item of a list ends.
* **Quotients and signs** (`takes_binaryExpr_slash`, `takes_unaryExpr_minus`).
* **Lists** (`takes_separated`, `takes_arrayLiteral`, `takes_objectLiteral`).

`Program.parse_of_takes` is about whole sources: one that is read as the tokens of a literal is parsed
as a program of one expression.
-/

namespace ScriptEngine

variable {α β ι : Type} {a b c ks rest : List TokenKind} {k : TokenKind} {P : α → Prop}
  {Q : β → Prop}

/-- The tokens from a position on are of the given kinds, up to the end of file, which is the last one. -/
structure Sees (ts : Array Token) (i : Nat) (ks : List TokenKind) : Prop where
  kinds : (ts.toList.drop i).map Token.kind = ks ++ [.endOfFile]
  inner : .endOfFile ∉ ks

namespace Sees

variable {ts : Array Token} {i : Nat}

theorem lookup (hs : Sees ts i ks) (n : Nat) :
    ts[i + n]?.map Token.kind = (ks ++ [.endOfFile])[n]? := by
  rw [← hs.kinds]
  simp

theorem lt_size (hs : Sees ts i ks) : i < ts.size := by
  have hlength := congrArg List.length hs.kinds
  simp at hlength
  omega

theorem kind_eq (hs : Sees ts i ks) {n : Nat} {k : TokenKind} (hk : (ks ++ [.endOfFile])[n]? = some k) :
    i + n < ts.size ∧ (tokenIn ts (i + n)).kind = k := by
  have hlookup := hs.lookup n
  rw [hk] at hlookup
  obtain ⟨t, ht, rfl⟩ := Option.map_eq_some_iff.1 hlookup
  have hlt := (Array.getElem?_eq_some_iff.1 ht).1
  exact ⟨hlt, by simp [tokenIn, ht]⟩

theorem current (hs : Sees ts i ks) : (tokenIn ts i).kind = ks.headD .endOfFile := by
  cases ks with
  | nil => exact (hs.kind_eq (n := 0) rfl).2
  | cons k ks => exact (hs.kind_eq (n := 0) rfl).2

theorem second (hs : Sees ts i (k :: ks)) :
    i + 1 < ts.size ∧ (tokenIn ts (i + 1)).kind = ks.headD .endOfFile := by
  cases ks with
  | nil => exact hs.kind_eq (n := 1) rfl
  | cons k ks => exact hs.kind_eq (n := 1) rfl

theorem advance (hs : Sees ts i (k :: ks)) : Sees ts (i + 1) ks := by
  have hkinds := congrArg List.tail hs.kinds
  refine ⟨?_, fun h => hs.inner (.tail _ h)⟩
  simpa using hkinds

end Sees

namespace Parse

/-- From tokens of the kinds `before` a parser succeeds, leaves tokens of the kinds `after`, and gives
a result that satisfies `P`. -/
def Takes (p : Parse α) (before after : List TokenKind) (P : α → Prop) : Prop :=
  ∀ ts i, Sees ts i before → ∃ r j, p ts i = .ok (r, j) ∧ Sees ts j after ∧ P r

theorem takes_pure {r : α} (hr : P r) : Takes (pure r) ks ks P := fun _ i hs => ⟨r, i, rfl, hs, hr⟩

theorem Takes.bind {p : Parse α} {f : α → Parse β} (hp : Takes p a b P)
    (hf : ∀ r, P r → Takes (f r) b c Q) : Takes (p >>= f) a c Q := by
  intro ts i hs
  obtain ⟨r, j, hr, hs', hP⟩ := hp ts i hs
  rw [bind_ok hr]
  exact hf r hP ts j hs'

theorem Takes.mono {p : Parse α} {P' : α → Prop} (hp : Takes p a b P) (hP : ∀ r, P r → P' r) :
    Takes p a b P' := by
  intro ts i hs
  obtain ⟨r, j, hr, hs', h⟩ := hp ts i hs
  exact ⟨r, j, hr, hs', hP r h⟩

theorem takes_peek : Takes peek ks ks (·.kind = ks.headD .endOfFile) := fun _ i hs =>
  ⟨_, i, peek_run hs.lt_size, hs, hs.current⟩

theorem takes_peekSecond : Takes peekSecond (k :: ks) (k :: ks) (·.kind = ks.headD .endOfFile) := by
  intro ts i hs
  have hrun := peekSecond_run hs.lt_size
  rw [if_pos hs.second.1] at hrun
  exact ⟨_, i, hrun, hs, hs.second.2⟩

theorem takes_next : Takes next (k :: ks) ks (·.kind = k) := by
  intro ts i hs
  have hcurrent : (tokenIn ts i).kind = k := hs.current
  have hinner : k ≠ .endOfFile := fun h => hs.inner (h ▸ .head _)
  have hrun := next_run hs.lt_size
  rw [hcurrent, if_neg hinner] at hrun
  exact ⟨_, i + 1, hrun, hs.advance, hcurrent⟩

theorem takes_looksAt : Takes (looksAt k) ks ks (· = decide (ks.headD .endOfFile = k)) :=
  takes_peek.bind fun _ ht => takes_pure (by rw [ht])

theorem takes_accept : Takes (accept k) (k :: ks) ks (· = true) := by
  refine takes_looksAt.bind ?_
  rintro _ rfl
  rw [if_pos (by simp)]
  exact takes_next.bind fun _ _ => takes_pure rfl

theorem takes_accept_of_ne (hk : ks.headD .endOfFile ≠ k) : Takes (accept k) ks ks (· = false) := by
  refine takes_looksAt.bind ?_
  rintro _ rfl
  rw [if_neg (by simpa using hk)]
  exact takes_pure rfl

theorem takes_expect {expected : Text} : Takes (expect k expected) (k :: ks) ks (·.kind = k) := by
  refine takes_looksAt.bind ?_
  rintro _ rfl
  rw [if_pos (by simp)]
  exact takes_next

theorem takes_spanFrom {start : Token} : Takes (spanFrom start) ks ks fun _ => True := fun _ i hs =>
  ⟨_, i, spanFrom_run start hs.lt_size, hs, trivial⟩

/-! ## Repetition -/

theorem takes_iterate_none {σ : Type} {step : σ → Parse (Option σ)} {s : σ} {n : Nat}
    (hs : Takes (step s) ks ks (· = none)) : Takes (iterate step (n + 1) s) ks ks (· = s) := by
  refine hs.bind ?_
  rintro _ rfl
  exact takes_pure rfl

theorem takes_iterate_some {step : α → Parse (Option α)} {s : α} {n : Nat} {Q : α → Prop}
    (hs : Takes (step s) a b fun r => ∃ s', r = some s' ∧ P s')
    (hr : ∀ s', P s' → Takes (iterate step n s') b c Q) : Takes (iterate step (n + 1) s) a c Q := by
  refine hs.bind ?_
  rintro _ ⟨s', rfl, hs'⟩
  exact hr s' hs'

theorem takes_many_none {item : Parse (Option α)} {n : Nat} (hi : Takes item ks ks (· = none)) :
    Takes (many item (n + 1)) ks ks (· = []) := by
  refine hi.bind ?_
  rintro _ rfl
  exact takes_pure rfl

theorem takes_many_some {item : Parse (Option α)} {n : Nat} {rs : List α}
    (hi : Takes item a b fun r => ∃ x, r = some x ∧ P x) (hr : Takes (many item n) b c (· = rs)) :
    Takes (many item (n + 1)) a c fun r => ∃ x, r = x :: rs ∧ P x := by
  refine hi.bind ?_
  rintro _ ⟨x, rfl, hx⟩
  refine hr.bind ?_
  rintro _ rfl
  exact takes_pure ⟨x, rfl, hx⟩

end Parse

/-! ## Operands -/

/-- The tokens that end an item of a list or a program. -/
def itemEnds : List TokenKind := [.symbol .comma, .symbol .rbracket, .symbol .rbrace, .endOfFile]

/-- An item of a list ends before tokens of these kinds. -/
def Closes (ks : List TokenKind) : Prop := ks.headD .endOfFile ∈ itemEnds

namespace Grammar

open Parse

variable {g : Grammar} {P : Expr → Prop}

theorem takes_operandTail_none {e : Expr} (hb : Closes b ∨ b.headD .endOfFile = .symbol .slash) :
    Takes (g.operandTail e) b b (· = none) := by
  refine takes_peek.bind fun t ht => ?_
  simp only [Closes, itemEnds, List.mem_cons, List.not_mem_nil, or_false] at hb
  rcases hb with (hb | hb | hb | hb) | hb <;> rw [ht, hb] <;> exact takes_pure rfl

/-- A primary expression that nothing follows is an operand. -/
theorem takes_operandExpr_of_tail (hp : Takes g.primary a b P) (hg : 0 < g.bound)
    (hb : ∀ e, Takes (g.operandTail e) b b (· = none)) : Takes g.operandExpr a b P := by
  refine hp.bind fun e he => ?_
  obtain ⟨n, hn⟩ : ∃ n, g.bound = n + 1 := ⟨g.bound - 1, by omega⟩
  rw [hn]
  exact (takes_iterate_none (hb e)).mono fun r hr => hr ▸ he

theorem takes_operandExpr (hp : Takes g.primary a b P) (hg : 0 < g.bound)
    (hb : Closes b ∨ b.headD .endOfFile = .symbol .slash) : Takes g.operandExpr a b P :=
  takes_operandExpr_of_tail hp hg fun _ => takes_operandTail_none hb

theorem takes_unaryExpr_operand (ho : Takes g.operandExpr a b P)
    (hu : UnaryOp.ofToken? (a.headD .endOfFile) = none)
    (hc : UpdateOp.ofToken? (a.headD .endOfFile) = none) : Takes g.unaryExpr a b P := by
  refine takes_peek.bind fun t ht => ?_
  rw [ht, hu, hc]
  exact ho

theorem takes_unaryExpr_minus (hu : Takes g.unary a b P) :
    Takes g.unaryExpr (.symbol .minus :: a) b fun e => ∃ s e', e = .unary s .neg e' ∧ P e' := by
  refine takes_peek.bind fun t ht => ?_
  rw [ht]
  exact takes_next.bind fun _ _ => hu.bind fun e he => takes_pure ⟨_, e, rfl, he⟩

theorem takes_infixTail_none {least : Nat} {e : Expr} (hb : Closes b) :
    Takes (g.infixTail least e) b b (· = none) := by
  refine takes_peek.bind fun t ht => ?_
  simp only [Closes, itemEnds, List.mem_cons, List.not_mem_nil, or_false] at hb
  rcases hb with hb | hb | hb | hb <;> rw [ht, hb] <;> exact takes_pure rfl

/-- An operand where an item ends. -/
theorem takes_binaryExpr {least : Nat} (hu : Takes g.unaryExpr a b P) (hg : 0 < g.bound)
    (hb : Closes b) : Takes (g.binaryExpr least) a b P := by
  refine hu.bind fun e he => ?_
  obtain ⟨n, hn⟩ : ∃ n, g.bound = n + 1 := ⟨g.bound - 1, by omega⟩
  rw [hn]
  exact (takes_iterate_none (takes_infixTail_none hb)).mono fun r hr => hr ▸ he

/-- An operator that binds tightly enough is applied to its operands. -/
theorem takes_infixTail_some {least : Nat} {e : Expr} {op : InfixOp} {Q R : Expr → Prop}
    (hop : InfixOp.ofToken? k = some op) (hleast : least ≤ op.precedence)
    (hright : Takes (g.binary op.rightPrecedence) a b Q)
    (happly : ∀ r, Q r → Takes (g.applyInfix e op r) b c R) :
    Takes (g.infixTail least e) (k :: a) c fun r => ∃ e', r = some e' ∧ R e' := by
  refine takes_peek.bind fun t ht => ?_
  rw [ht, List.headD_cons, hop]
  dsimp only
  rw [if_neg (Nat.not_lt.2 hleast)]
  exact takes_next.bind fun _ _ => hright.bind fun r hr => (happly r hr).bind fun e' he' =>
    takes_pure ⟨e', rfl, he'⟩

/-- The quotient of two operands where an item ends. -/
theorem takes_binaryExpr_slash {least : Nat} {Q : Expr → Prop}
    (hl : Takes g.unaryExpr a (.symbol .slash :: b) P) (hr : Takes (g.binary 7) b c Q)
    (hg : 1 < g.bound) (hp : least ≤ 6) (hc : Closes c) :
    Takes (g.binaryExpr least) a c fun e =>
      ∃ s l r, e = .binary s l (.arith .div) r ∧ P l ∧ Q r := by
  refine hl.bind fun l hl => ?_
  obtain ⟨n, hn⟩ := Nat.exists_eq_add_of_le hg
  rw [hn, Nat.add_comm]
  refine takes_iterate_some (takes_infixTail_some rfl hp hr fun r hr => ?_) fun s hs =>
    (takes_iterate_none (takes_infixTail_none hc)).mono fun r hr => hr ▸ hs
  exact takes_pure ⟨_, l, r, rfl, hl, hr⟩

/-- What binds tighter than assignment is an expression where an item ends. -/
theorem takes_expressionExpr (hb : Takes (g.binaryExpr 1) a b P) (hc : Closes b) :
    Takes g.expressionExpr a b P := by
  have hk : b.headD .endOfFile ≠ .symbol .question ∧
      AssignOp.ofToken? (b.headD .endOfFile) = none := by
    simp only [Closes, itemEnds, List.mem_cons, List.not_mem_nil, or_false] at hc
    rcases hc with hc | hc | hc | hc <;> rw [hc] <;> exact ⟨by decide, rfl⟩
  have ht : Takes g.ternaryExpr a b P := by
    refine hb.bind fun e he => (takes_accept_of_ne hk.1).bind ?_
    rintro _ rfl
    exact takes_pure he
  refine ht.bind fun e he => takes_peek.bind fun t ht => ?_
  rw [ht, hk.2]
  exact takes_pure he

/-! ## Literals -/

/-- A primary expression that starts with no operator is an expression where an item ends. -/
theorem takes_expressionExpr_of_primary (hp : Takes g.primary a b P) (hg : 0 < g.bound)
    (hu : UnaryOp.ofToken? (a.headD .endOfFile) = none)
    (hs : UpdateOp.ofToken? (a.headD .endOfFile) = none) (hc : Closes b) :
    Takes g.expressionExpr a b P :=
  takes_expressionExpr
    (takes_binaryExpr (takes_unaryExpr_operand (takes_operandExpr hp hg (.inl hc)) hu hs) hg hc) hc

/-- A token of a literal is no operator. -/
theorem ofToken?_of_literal {l : Literal} (hl : Literal.ofToken? k = some l) :
    UnaryOp.ofToken? k = none ∧ UpdateOp.ofToken? k = none := by
  unfold Literal.ofToken? at hl
  split at hl <;> first | exact ⟨rfl, rfl⟩ | cases hl

theorem takes_primary_literal {l : Literal} (hl : Literal.ofToken? k = some l) :
    Takes g.primary (k :: ks) ks fun e => ∃ s, e = .literal s l := by
  refine takes_peek.bind fun t ht => ?_
  rw [ht, List.headD_cons, hl]
  exact takes_next.bind fun _ _ => takes_pure ⟨_, rfl⟩

/-- Items with commas between them before a closing symbol, `K x` being the kinds of the tokens of the
item of `x`. -/
theorem takes_separated {close : Symbol} {item : Parse β} {xs : List ι} {K : ι → List TokenKind}
    {R : ι → β → Prop} {bound : Nat} (hc : .symbol close ∈ itemEnds) (hcomma : close ≠ .comma)
    (hi : ∀ x ∈ xs, ∀ rest, Closes rest → Takes item (K x ++ rest) rest (R x))
    (hk : ∀ x ∈ xs, ∃ k ks, K x = k :: ks ∧ k ≠ .symbol close) (hb : xs.length < bound) :
    Takes (separated close item bound) ([.symbol .comma].intercalate (xs.map K) ++
      .symbol close :: rest) (.symbol close :: rest) (List.Forall₂ R xs) := by
  induction xs generalizing bound with
  | nil =>
    obtain ⟨n, rfl⟩ : ∃ n, bound = n + 1 := ⟨bound - 1, by omega⟩
    refine takes_looksAt.bind ?_
    rintro _ rfl
    rw [if_pos (by simp)]
    exact takes_pure .nil
  | cons x xs ih =>
    obtain ⟨n, rfl⟩ : ∃ n, bound = n + 1 := ⟨bound - 1, by omega⟩
    have ih := @ih n (fun y hy => hi y (.tail _ hy)) (fun y hy => hk y (.tail _ hy))
      (by simpa using hb)
    have hx := hi x (.head _)
    -- The first item starts, so the closing symbol is not yet there.
    have hopen (after : List TokenKind) :
        ¬ decide ((K x ++ after).headD .endOfFile = .symbol close) = true := by
      obtain ⟨k, ks, he, hne⟩ := hk x (.head _)
      simpa [he] using hne
    cases xs with
    | nil =>
      rw [List.map_cons, List.map_nil, List.intercalate_singleton]
      refine takes_looksAt.bind ?_
      rintro _ rfl
      rw [if_neg (hopen _)]
      refine (hx (.symbol close :: rest) hc).bind fun r hr => ?_
      refine (takes_accept_of_ne (by simpa using hcomma)).bind ?_
      rintro _ rfl
      exact takes_pure (.cons hr .nil)
    | cons y ys =>
      rw [List.map_cons, List.map_cons, List.intercalate_cons_cons, List.append_assoc,
        List.append_assoc]
      refine takes_looksAt.bind ?_
      rintro _ rfl
      rw [if_neg (hopen _)]
      refine (hx _ (by simp [Closes, itemEnds])).bind fun r hr => takes_accept.bind ?_
      rintro _ rfl
      exact ih.bind fun rs hrs => takes_pure (.cons hr hrs)

theorem takes_arrayLiteral (xs : List ι) (K : ι → List TokenKind) {R : ι → Expr → Prop}
    (rest : List TokenKind)
    (hi : ∀ x ∈ xs, ∀ rest, Closes rest → Takes g.expression (K x ++ rest) rest (R x))
    (hk : ∀ x ∈ xs, ∃ k ks, K x = k :: ks ∧ k ≠ .symbol .rbracket) (hb : xs.length < g.bound) :
    Takes g.primary (.symbol .lbracket :: ([.symbol .comma].intercalate (xs.map K) ++
      .symbol .rbracket :: rest)) rest fun e => ∃ s es, e = .array s es ∧ List.Forall₂ R xs es := by
  refine takes_peek.bind fun t ht => ?_
  rw [ht]
  refine takes_next.bind fun _ _ => ?_
  refine (takes_separated (by decide) (by decide) hi hk hb).bind fun es hes => ?_
  exact takes_expect.bind fun _ _ => takes_spanFrom.bind fun s _ => takes_pure ⟨s, es, rfl, hes⟩

theorem takes_objectEntry {key : Text} {P : Expr → Prop} (he : Takes g.expression a b P) :
    Takes g.objectEntry (.identifier key :: .symbol .colon :: a) b fun e =>
      e.key = key ∧ P e.value := by
  refine takes_peek.bind fun t ht => ?_
  rw [ht]
  refine takes_next.bind fun _ _ => takes_accept.bind ?_
  rintro _ rfl
  exact he.bind fun e he => takes_spanFrom.bind fun _ _ => takes_pure ⟨rfl, he⟩

/-- The kinds of the tokens of an entry of an object, `K` being those of its value. -/
def entryKinds (key : Text) (K : List TokenKind) : List TokenKind :=
  .identifier key :: .symbol .colon :: K

theorem takes_objectLiteral (xs : List (Text × ι)) (K : ι → List TokenKind) {R : ι → Expr → Prop}
    (rest : List TokenKind)
    (hi : ∀ x ∈ xs, ∀ rest, Closes rest → Takes g.expression (K x.2 ++ rest) rest (R x.2))
    (hb : xs.length < g.bound) :
    Takes g.primary (.symbol .dot :: .symbol .lbrace :: ([.symbol .comma].intercalate
      (xs.map fun x => entryKinds x.1 (K x.2)) ++ .symbol .rbrace :: rest)) rest fun e =>
        ∃ s es, e = .object s es ∧
          List.Forall₂ (fun x (entry : ObjectEntry) => entry.key = x.1 ∧ R x.2 entry.value) xs es := by
  refine takes_peek.bind fun t ht => ?_
  rw [ht]
  refine takes_peekSecond.bind fun u hu => ?_
  rw [if_pos (show u.kind = .symbol .lbrace from hu)]
  refine takes_next.bind fun _ _ => takes_next.bind fun _ _ => ?_
  refine (takes_separated (by decide) (by decide)
    (fun x hx after hafter => takes_objectEntry (hi x hx after hafter))
    (fun x _ => ⟨_, _, rfl, by simp⟩) hb).bind fun es hes => ?_
  exact takes_expect.bind fun _ _ => takes_spanFrom.bind fun s _ => takes_pure ⟨s, es, rfl, hes⟩

/-! ## Programs -/

theorem bound_ofLevel (n : Nat) : (ofLevel n).bound = n := by
  induction n with
  | zero => rfl
  | succ n ih => exact congrArg (· + 1) ih

/-- The tokens that start a literal. -/
def startsLiteral : TokenKind → Bool
  | .number _ | .string _ | .keyword .kwNull | .keyword .kwTrue | .keyword .kwFalse
  | .symbol .minus | .symbol .lbracket | .symbol .dot => true
  | _ => false

theorem takes_stmt (hk : startsLiteral k) (he : Takes g.expressionExpr (k :: a) b P) :
    Takes g.stmt (k :: a) b fun r => ∃ s e, r = .expression s e ∧ P e := by
  refine takes_peek.bind fun t ht => ?_
  have hr : Takes (do let e ← g.expressionExpr; return Stmt.expression e.span e) (k :: a) b
      fun r => ∃ s e, r = .expression s e ∧ P e := he.bind fun e he => takes_pure ⟨_, e, rfl, he⟩
  rw [ht, List.headD_cons]
  unfold startsLiteral at hk
  split at hk <;> first | exact hr | cases hk

theorem takes_skipSemicolons {n : Nat} (hk : ks.headD .endOfFile ≠ .symbol .semicolon) :
    Takes (skipSemicolons (n + 1)) ks ks fun _ => True := by
  refine (takes_many_none ?_).bind fun _ _ => takes_pure trivial
  refine (takes_accept_of_ne hk).bind ?_
  rintro _ rfl
  exact takes_pure rfl

/-- A statement by itself is a program. -/
theorem takes_program {n : Nat} (file : Option Text) {R : Stmt → Prop} (hk : startsLiteral k)
    (hs : Takes (ofLevel (n + 2)).statement (k :: a) [] R) :
    Takes ((ofLevel (n + 2)).program file) (k :: a) [] fun p =>
      ∃ s, p.statements = [s] ∧ p.file = file ∧ R s := by
  have hb := bound_ofLevel (n + 2)
  generalize ofLevel (n + 2) = g at hs hb
  have hm : Takes g.programStatements (k :: a) [] fun r => ∃ s, r = [s] ∧ R s := by
    rw [programStatements, hb]
    refine takes_many_some ?_ (takes_many_none ?_)
    · refine takes_looksAt.bind ?_
      rintro _ rfl
      rw [if_neg (by rintro he; obtain rfl := of_decide_eq_true he; cases hk)]
      refine hs.bind fun s hs => ?_
      exact (takes_skipSemicolons (by simp)).bind fun _ _ => takes_pure ⟨s, rfl, hs⟩
    · refine takes_looksAt.bind ?_
      rintro _ rfl
      rw [if_pos (by simp)]
      exact takes_pure rfl
  rw [program, hb]
  refine takes_peek.bind fun t _ => ?_
  refine (takes_skipSemicolons ?_).bind fun _ _ => ?_
  · rintro rfl; cases hk
  · refine hm.bind ?_
    rintro _ ⟨s, rfl, hs⟩
    exact takes_spanFrom.bind fun _ _ => takes_pure ⟨s, rfl, rfl, hs⟩

end Grammar

/-- A source that is read as the tokens of an expression is a program of that expression. -/
theorem Program.parse_of_takes {t : Text} (file : Option Text) {P : Expr → Prop}
    (ht : ReadsAs t (k :: a ++ [.endOfFile])) (hk : Grammar.startsLiteral k)
    (hp : ∀ n, (k :: a).length ≤ n → Parse.Takes (Grammar.ofLevel n).expressionExpr (k :: a) [] P) :
    ∃ p s e, Program.parse t file = .ok p ∧ p.statements = [.expression s e] ∧ p.file = file ∧
      P e := by
  obtain ⟨tokens, hst, hm⟩ := ht (Location.origin file)
  have hl : tokens.length = (k :: a).length + 1 := by
    simpa using congrArg List.length hm
  have hs : Sees tokens.toArray 0 (k :: a) := by
    refine ⟨by simpa using hm, ?_⟩
    obtain ⟨others, stop, rfl, -, hothers⟩ := (tiles_of_stream hst).endOfFile_last
    rw [List.map_append] at hm
    have hkinds : others.map Token.kind = k :: a := List.append_cancel_right hm
    rw [← hkinds]
    simpa using hothers
  obtain ⟨p, j, hr, -, s, hstmts, hf, span, e, rfl, he⟩ :=
    Grammar.takes_program (n := (k :: a).length + 1) file hk
      (Grammar.takes_stmt hk (hp ((k :: a).length + 2) (by omega))) _ _ hs
  have hparse : Program.ofTokens tokens file = .ok p := by
    rw [Program.ofTokens, Parse.runOn, hl, hr]
    rfl
  refine ⟨p, span, e, ?_, hstmts, hf, he⟩
  rw [Program.parse, tokenize, hst]
  simp [Except.mapError, Bind.bind, Except.bind, hparse]

end ScriptEngine

import ScriptEngine.Proofs.Program.Taking

/-!
# Operators without parentheses

Operands that are single tokens, with an operator between any two neighbours, have one grouping that respects how
tightly the operators bind, and that is how they are parsed.

* **Groupings** (`InfixTree`): a tree of operators over operands. It spells the tokens that it has from left to
  right, and it is grouped (`InfixTree.Grouped`) if every operand of an operator binds tightly enough.
* `takes_binaryExpr_grouped`: whatever grouped tree the tokens ahead spell, the parser gives it. The right operands
  are those of the grammar one level below, and the operators on the left spine are the rounds of the loop.
* `exists_grouped`: there is a grouped tree for every sequence, as an operand and an operator can be put in front.
* `binaryExpr_climbs`: the parser consumes the whole sequence and gives its only grouped tree.
-/

namespace ScriptEngine

/-- An operand that is a single token. -/
inductive Operand where
  | number (q : Rat)
  | name (t : Text)
deriving DecidableEq

/-- The operand that a token stands for. -/
def Operand.ofToken? : TokenKind → Option Operand
  | .number q => some (.number q)
  | .identifier t => some (.name t)
  | _ => none

/-- Operators over operands, without what plays no part in their grouping. -/
inductive InfixTree where
  | leaf (a : Operand)
  | node (left : InfixTree) (op : InfixOp) (right : InfixTree)
deriving DecidableEq

/-- Operands with an operator between any two neighbours. -/
inductive Alternates : List TokenKind → Prop
  | single {k : TokenKind} {a : Operand} (ha : Operand.ofToken? k = some a) : Alternates [k]
  | cons {k k' : TokenKind} {ks : List TokenKind} {a : Operand} {op : InfixOp} (ha : Operand.ofToken? k = some a)
    (hop : InfixOp.ofToken? k' = some op) (hks : Alternates ks) : Alternates (k :: k' :: ks)

namespace InfixTree

/-- The tokens of a tree from left to right are of the given kinds. -/
inductive Spells : InfixTree → List TokenKind → Prop
  | leaf {k : TokenKind} {a : Operand} (ha : Operand.ofToken? k = some a) : Spells (.leaf a) [k]
  | node {l r : InfixTree} {k : TokenKind} {ks ks' : List TokenKind} {op : InfixOp} (hl : l.Spells ks)
    (hop : InfixOp.ofToken? k = some op) (hr : r.Spells ks') : Spells (.node l op r) (ks ++ k :: ks')

/-- The operator of a tree, if it has one, binds at least as tightly as `least`. -/
def AtLeast (least : Nat) : InfixTree → Prop
  | .leaf _ => True
  | .node _ op _ => least ≤ op.precedence

/-- The operands of an operator bind tightly enough. Operators of the same precedence group to the left, except that
`**` groups to the right and has a single operand on its left. -/
def Fits (l : InfixTree) (op : InfixOp) (r : InfixTree) : Prop :=
  if op = .binary (.arith .pow) then (∃ a, l = .leaf a) ∧ r.AtLeast op.precedence
  else l.AtLeast op.precedence ∧ r.AtLeast (op.precedence + 1)

/-- Every operator of a tree has operands that bind tightly enough. -/
def Grouped : InfixTree → Prop
  | .leaf _ => True
  | .node l op r => l.Fits op r ∧ l.Grouped ∧ r.Grouped

end InfixTree

/-- The tree of an expression that is made of operators over single operands. A range counts if it has no step. -/
def Expr.infixTree? : Expr → Option InfixTree
  | .literal _ (.number q) => some (.leaf (.number q))
  | .name _ t => some (.leaf (.name t))
  | .binary _ l op r => return .node (← l.infixTree?) (.binary op) (← r.infixTree?)
  | .logical _ l op r => return .node (← l.infixTree?) (.logical op) (← r.infixTree?)
  | .range _ l r withStart withStop none => return .node (← l.infixTree?) (.range withStart withStop) (← r.infixTree?)
  | _ => none

namespace InfixOp

variable {op op' : InfixOp} {k : TokenKind}

theorem precedence_pos : 1 ≤ op.precedence := by
  unfold precedence
  split <;> decide

theorem precedence_lt : op.precedence < 8 := by
  unfold precedence
  split <;> decide

theorem precedence_lt_of_ne (hop : op ≠ .binary (.arith .pow)) : op.precedence < 7 := by
  unfold precedence
  split <;> first | decide | exact absurd rfl hop

theorem rightPrecedence_of_ne (hop : op ≠ .binary (.arith .pow)) : op.rightPrecedence = op.precedence + 1 := by
  unfold rightPrecedence
  split
  · exact absurd rfl hop
  · rfl

theorem rightPrecedence_le : op.rightPrecedence ≤ 7 := by
  by_cases hop : op = .binary (.arith .pow)
  · rw [hop]
    decide
  · rw [rightPrecedence_of_ne hop]
    exact precedence_lt_of_ne hop

theorem precedence_le_rightPrecedence : op.precedence ≤ op.rightPrecedence := by
  by_cases hop : op = .binary (.arith .pow)
  · rw [hop]
    decide
  · rw [rightPrecedence_of_ne hop]
    exact Nat.le_succ _

theorem precedence_le_of_lt (h : op.precedence < op'.rightPrecedence) : op.precedence ≤ op'.precedence := by
  by_cases hop : op' = .binary (.arith .pow)
  · rw [hop] at h ⊢
    exact Nat.le_of_lt h
  · rw [rightPrecedence_of_ne hop] at h
    exact Nat.le_of_lt_succ h

end InfixOp

namespace InfixTree

variable {l r t : InfixTree} {op op' : InfixOp} {least : Nat} {a : Operand} {k k' : TokenKind} {ks : List TokenKind}

/-! ## Grouping -/

/-- An operator that binds less tightly than this does not belong to the last operand of a tree. -/
def limit : InfixTree → Nat
  | .leaf _ => 8
  | .node _ op _ => op.rightPrecedence

/-- An operator ends its left operand and binds less tightly than its right one. -/
theorem fits_iff : l.Fits op r ↔ op.precedence < l.limit ∧ r.AtLeast op.rightPrecedence := by
  unfold Fits
  split
  · next hop =>
    subst hop
    refine and_congr_left fun _ => ?_
    cases l with
    | leaf a => exact iff_of_true ⟨a, rfl⟩ InfixOp.precedence_lt
    | node l op' r => exact iff_of_false nofun (Nat.not_lt.2 InfixOp.rightPrecedence_le)
  · next hop =>
    rw [InfixOp.rightPrecedence_of_ne hop]
    refine and_congr_left fun _ => ?_
    cases l with
    | leaf a => exact iff_of_true trivial InfixOp.precedence_lt
    | node l op' r =>
      refine ⟨fun h => ?_, InfixOp.precedence_le_of_lt⟩
      by_cases hop' : op' = .binary (.arith .pow)
      · rw [hop']
        exact InfixOp.precedence_lt_of_ne hop
      · rw [limit, InfixOp.rightPrecedence_of_ne hop']
        exact Nat.lt_succ_of_le h

instance : Decidable (t.AtLeast least) :=
  match t with
  | .leaf _ => .isTrue trivial
  | .node _ op _ => inferInstanceAs (Decidable (least ≤ op.precedence))

instance : Decidable (l.Fits op r) := decidable_of_iff _ fits_iff.symm

instance decidableGrouped : (t : InfixTree) → Decidable t.Grouped
  | .leaf _ => .isTrue trivial
  | .node l op r =>
    have := decidableGrouped l
    have := decidableGrouped r
    inferInstanceAs (Decidable (l.Fits op r ∧ l.Grouped ∧ r.Grouped))

theorem AtLeast.lt_limit (ht : t.AtLeast least) (hop : op.precedence < least) : op.precedence < t.limit := by
  cases t with
  | leaf a => exact InfixOp.precedence_lt
  | node l op' r => exact Nat.lt_of_lt_of_le hop (Nat.le_trans ht op'.precedence_le_rightPrecedence)

theorem atLeast_one (t : InfixTree) : t.AtLeast 1 := by
  cases t with
  | leaf a => trivial
  | node l op r => exact op.precedence_pos

/-- What is on the left of an operator binds at least as tightly. -/
theorem Fits.atLeast_left (h : l.Fits op r) (hop : least ≤ op.precedence) : l.AtLeast least := by
  cases l with
  | leaf a => trivial
  | node l op' r' => exact Nat.le_trans hop (InfixOp.precedence_le_of_lt (fits_iff.1 h).1)

/-- A tree with an operand and an operator put in front. The operator goes down the left side as far as it binds less
tightly than what it passes. -/
def prepend (a : Operand) (op : InfixOp) : InfixTree → InfixTree
  | .leaf b => .node (.leaf a) op (.leaf b)
  | .node l op' r =>
    if op.rightPrecedence ≤ op'.precedence then .node (.leaf a) op (.node l op' r)
    else .node (l.prepend a op) op' r

theorem limit_prepend : (t.prepend a op).limit = op.rightPrecedence ∨ (t.prepend a op).limit = t.limit := by
  cases t with
  | leaf b => exact .inl rfl
  | node l op' r =>
    unfold prepend
    split
    · exact .inl rfl
    · exact .inr rfl

theorem Grouped.prepend (ht : t.Grouped) : (t.prepend a op).Grouped := by
  induction t with
  | leaf b => exact ⟨fits_iff.2 ⟨InfixOp.precedence_lt, trivial⟩, trivial, trivial⟩
  | node l op' r ihl =>
    obtain ⟨hfits, hl, hr⟩ := ht
    unfold InfixTree.prepend
    split
    · next hle => exact ⟨fits_iff.2 ⟨InfixOp.precedence_lt, hle⟩, trivial, hfits, hl, hr⟩
    · next hlt =>
      have hends : op'.precedence < (l.prepend a op).limit := by
        have hlimit : (l.prepend a op).limit = op.rightPrecedence ∨ (l.prepend a op).limit = l.limit := limit_prepend
        obtain h | h := hlimit
        · rw [h]
          exact Nat.lt_of_not_le hlt
        · rw [h]
          exact (fits_iff.1 hfits).1
      exact ⟨fits_iff.2 ⟨hends, (fits_iff.1 hfits).2⟩, ihl hl, hr⟩

theorem Spells.cons (ha : Operand.ofToken? k = some a) (hop : InfixOp.ofToken? k' = some op) (ht : t.Spells ks) :
    (InfixTree.node (.leaf a) op t).Spells ([k] ++ k' :: ks) :=
  .node (.leaf ha) hop ht

theorem Spells.prepend (ht : t.Spells ks) (ha : Operand.ofToken? k = some a) (hop : InfixOp.ofToken? k' = some op) :
    (t.prepend a op).Spells (k :: k' :: ks) := by
  induction ht with
  | leaf hb => exact .cons ha hop (.leaf hb)
  | node hl hop' hr ihl =>
    unfold InfixTree.prepend
    split
    · exact .cons ha hop (.node hl hop' hr)
    · exact .node ihl hop' hr

/-- Every sequence can be grouped. -/
theorem exists_grouped (hks : Alternates ks) : ∃ t : InfixTree, t.Grouped ∧ t.Spells ks := by
  induction hks with
  | single ha => exact ⟨.leaf _, trivial, .leaf ha⟩
  | cons ha hop _ ih =>
    obtain ⟨t, hgrouped, hspells⟩ := ih
    exact ⟨t.prepend _ _, hgrouped.prepend, hspells.prepend ha hop⟩

/-- The number of operators on the left spine of a tree. -/
def rounds : InfixTree → Nat
  | .leaf _ => 0
  | .node l _ _ => l.rounds + 1

theorem Spells.rounds_lt (ht : t.Spells ks) : t.rounds < ks.length := by
  induction ht with
  | leaf => exact Nat.zero_lt_one
  | node _ _ _ ihl => rw [List.length_append, List.length_cons, InfixTree.rounds]; omega

end InfixTree

/-! ## Parsing -/

/-- Operands and operators are tokens before the end of file. -/
theorem Alternates.inner {ks : List TokenKind} (hks : Alternates ks) : .endOfFile ∉ ks := by
  induction hks with
  | single ha => exact List.not_mem_cons_of_ne_of_not_mem (by rintro rfl; cases ha) List.not_mem_nil
  | cons ha hop _ ih =>
    refine List.not_mem_cons_of_ne_of_not_mem (by rintro rfl; cases ha) ?_
    exact List.not_mem_cons_of_ne_of_not_mem (by rintro rfl; cases hop) ih

/-- The tokens end, or go on with an operator that binds less tightly than `limit`. -/
def Follows (limit : Nat) (ks : List TokenKind) : Prop :=
  ks = [] ∨ ∃ op, InfixOp.ofToken? (ks.headD .endOfFile) = some op ∧ op.precedence < limit

namespace Grammar

open Parse

variable {g : Grammar} {least limit n : Nat} {ks rest after : List TokenKind} {k : TokenKind} {a : Operand}
  {op : InfixOp} {e : Expr} {t : InfixTree} {P : Expr → Prop}

theorem takes_primary_operand (ha : Operand.ofToken? k = some a) :
    Takes g.primary (k :: ks) ks (·.infixTree? = some (.leaf a)) := by
  refine takes_peek.bind fun t ht => ?_
  rw [ht, List.headD_cons]
  unfold Operand.ofToken? at ha
  split at ha
  · cases ha
    exact takes_next.bind fun _ _ => takes_pure rfl
  · cases ha
    exact takes_next.bind fun _ _ => takes_pure rfl
  · cases ha

theorem takes_operandTail_follows (h : Follows limit ks) : Takes (g.operandTail e) ks ks (· = none) := by
  refine takes_peek.bind fun t ht => ?_
  rw [ht]
  obtain rfl | ⟨op, hop, -⟩ := h
  · exact takes_pure rfl
  · generalize ks.headD .endOfFile = k at hop
    cases k with
    | symbol s => cases s <;> first | exact takes_pure rfl | cases hop
    | keyword => exact takes_pure rfl
    | _ => cases hop

/-- A single operand, where the tokens end or an operator follows. -/
theorem takes_unaryExpr_single (hg : 0 < g.bound) (ha : Operand.ofToken? k = some a) (h : Follows limit ks) :
    Takes g.unaryExpr (k :: ks) ks (·.infixTree? = some (.leaf a)) := by
  have hnone : UnaryOp.ofToken? k = none ∧ UpdateOp.ofToken? k = none := by
    cases k <;> first | exact ⟨rfl, rfl⟩ | cases ha
  refine takes_unaryExpr_operand ?_ hnone.1 hnone.2
  exact takes_operandExpr_of_tail (takes_primary_operand ha) hg fun _ => takes_operandTail_follows h

theorem takes_rangeStep_none (h : Follows limit ks) : Takes g.rangeStep ks ks (· = none) := by
  refine takes_looksAt.bind ?_
  rintro _ rfl
  rw [if_neg ?_]
  · exact takes_pure rfl
  · intro hstep
    obtain rfl | ⟨op, hop, -⟩ := h
    · cases of_decide_eq_true hstep
    · rw [of_decide_eq_true hstep] at hop
      cases hop

theorem takes_applyInfix {l r : InfixTree} {left right : Expr} (hl : left.infixTree? = some l)
    (hr : right.infixTree? = some r) (h : Follows limit ks) :
    Takes (g.applyInfix left op right) ks ks (·.infixTree? = some (.node l op r)) := by
  cases op with
  | binary op => exact takes_pure (by rw [Expr.infixTree?, hl, hr]; rfl)
  | logical op => exact takes_pure (by rw [Expr.infixTree?, hl, hr]; rfl)
  | range withStart withStop =>
    refine (takes_rangeStep_none h).bind ?_
    rintro _ rfl
    exact takes_pure (by rw [Expr.infixTree?, hl, hr]; rfl)

/-- The loop over operators ends where none of them binds tightly enough. -/
theorem takes_infixTail_follows (h : Follows least ks) : Takes (g.infixTail least e) ks ks (· = none) := by
  refine takes_peek.bind fun t ht => ?_
  rw [ht]
  obtain rfl | ⟨op, hop, hlt⟩ := h
  · exact takes_pure rfl
  · rw [hop]
    dsimp only
    rw [if_pos hlt]
    exact takes_pure rfl

/-- The operators on the left spine of a tree are as many rounds of the loop, where right operands are parsed to the
trees that they spell. -/
theorem takes_rounds {size : Nat} {Q : Expr → Prop} (hg : 0 < g.bound)
    (hright : ∀ r ks rest p, r.Grouped → r.Spells ks → ks.length < size → r.AtLeast p → Follows p rest →
      Takes (g.binary p) (ks ++ rest) rest (·.infixTree? = some r))
    (hgrouped : t.Grouped) (hspells : t.Spells ks) (hsize : ks.length ≤ size) (hleast : t.AtLeast least)
    (hfollows : Follows t.limit rest)
    (hrest : ∀ e, e.infixTree? = some t → Takes (iterate (g.infixTail least) n e) rest after Q) :
    Takes (g.unaryExpr >>= iterate (g.infixTail least) (n + t.rounds)) (ks ++ rest) after Q := by
  induction hspells generalizing n rest with
  | leaf ha => exact (takes_unaryExpr_single hg ha hfollows).bind hrest
  | @node l r k ks ks' op hl hop hr ihl =>
    obtain ⟨hfits, hgl, hgr⟩ := hgrouped
    obtain ⟨hends, htight⟩ := InfixTree.fits_iff.1 hfits
    rw [List.length_append, List.length_cons] at hsize
    have hnext : Follows l.limit (k :: ks' ++ rest) := .inr ⟨op, hop, hends⟩
    have hoperand := hright r ks' rest op.rightPrecedence hgr hr (by omega) htight hfollows
    rw [List.append_assoc, InfixTree.rounds, Nat.add_comm l.rounds, ← Nat.add_assoc]
    refine ihl hgl (by omega) (hfits.atLeast_left hleast) hnext fun e he => ?_
    refine takes_iterate_some (takes_infixTail_some hop hleast hoperand fun _ hr => ?_) hrest
    exact takes_applyInfix he hr hfollows

/-- The parser of operators that bind at least as tightly as `least` gives any grouped tree that the tokens spell, if
they end there or go on with an operator that binds less tightly. -/
theorem takes_binaryExpr_grouped (hgrouped : t.Grouped) (hspells : t.Spells ks) (hn : ks.length ≤ n)
    (hleast : t.AtLeast least) (hfollows : Follows least rest) :
    Takes ((ofLevel n).binaryExpr least) (ks ++ rest) rest (·.infixTree? = some t) := by
  induction n generalizing t ks least rest with
  | zero => exact absurd hspells.rounds_lt (by omega)
  | succ n ih =>
    have hrounds := hspells.rounds_lt
    obtain ⟨spare, hspare⟩ : ∃ spare, (ofLevel (n + 1)).bound = (spare + 1) + t.rounds :=
      ⟨n - t.rounds, by rw [bound_ofLevel]; omega⟩
    have hlimit : Follows t.limit rest := hfollows.imp_right fun ⟨op, hop, hlt⟩ => ⟨op, hop, hleast.lt_limit hlt⟩
    rw [binaryExpr, hspare]
    have hright (r : InfixTree) (ks rest : List TokenKind) (p : Nat) (hr : r.Grouped) (hks : r.Spells ks)
        (hlt : ks.length < n + 1) (hp : r.AtLeast p) (hrest : Follows p rest) :
        Takes ((ofLevel (n + 1)).binary p) (ks ++ rest) rest (·.infixTree? = some r) :=
      ih hr hks (Nat.le_of_lt_succ hlt) hp hrest
    refine takes_rounds (by omega) hright hgrouped hspells hn hleast hlimit fun e he => ?_
    exact (takes_iterate_none (takes_infixTail_follows hfollows)).mono fun e' he' => he' ▸ he

/-- Single operands with operators between them are parsed as a whole, to the only tree that spells them and in which
every operator has operands that bind tightly enough. -/
theorem binaryExpr_climbs {tokens : List Token} (hks : Alternates ks)
    (hkinds : tokens.map Token.kind = ks ++ [.endOfFile]) (hn : ks.length ≤ n) :
    ∃ e t, ((ofLevel n).binaryExpr 1).runOn tokens = .ok (e, ks.length) ∧ e.infixTree? = some t ∧
      t.Spells ks ∧ t.Grouped ∧ ∀ t' : InfixTree, t'.Spells ks → t'.Grouped → t' = t := by
  obtain ⟨t, hgrouped, hspells⟩ := InfixTree.exists_grouped hks
  have hsees : Sees tokens.toArray 0 ks := ⟨hkinds, hks.inner⟩
  have hparsed {t : InfixTree} (hgrouped : t.Grouped) (hspells : t.Spells ks) :
      ∃ e j, (ofLevel n).binaryExpr 1 tokens.toArray 0 = .ok (e, j) ∧ Sees tokens.toArray j [] ∧
        e.infixTree? = some t := by
    have htakes : Takes ((ofLevel n).binaryExpr 1) (ks ++ []) [] (·.infixTree? = some t) :=
      takes_binaryExpr_grouped hgrouped hspells hn t.atLeast_one (.inl rfl)
    rw [List.append_nil] at htakes
    exact htakes _ _ hsees
  obtain ⟨e, j, hrun, hend, he⟩ := hparsed hgrouped hspells
  have hj : j = ks.length := by
    have hlength := congrArg List.length hend.kinds
    have hsize := congrArg List.length hkinds
    simp at hlength hsize
    omega
  subst hj
  refine ⟨e, t, hrun, he, hspells, hgrouped, fun t' hspells' hgrouped' => ?_⟩
  obtain ⟨e', j', hrun', -, he'⟩ := hparsed hgrouped' hspells'
  rw [hrun] at hrun'
  cases hrun'
  exact Option.some.inj (he'.symm.trans he)

/-- The kinds of the tokens of `1 - x ** 2 - y`. -/
def differenceKinds : List TokenKind :=
  [.number 1, .symbol .minus, .identifier "x", .symbol .doubleStar, .number 2, .symbol .minus, .identifier "y"]

/-- The grouping `(1 - (x ** 2)) - y`. -/
def difference : InfixTree :=
  .node (.node (.leaf (.number 1)) (.binary (.arith .sub)) (.node (.leaf (.name "x")) (.binary (.arith .pow))
    (.leaf (.number 2)))) (.binary (.arith .sub)) (.leaf (.name "y"))

theorem binaryExpr_climbs_difference :
    ∃ e, ((ofLevel 7).binaryExpr 1).runOn ((differenceKinds ++ [TokenKind.endOfFile]).map fun k => ⟨k, [], default⟩) =
      .ok (e, 7) ∧ e.infixTree? = some difference := by
  have hks : Alternates differenceKinds := .cons rfl rfl (.cons rfl rfl (.cons rfl rfl (.single rfl)))
  have hkinds : ((differenceKinds ++ [TokenKind.endOfFile]).map fun k => (⟨k, [], default⟩ : Token)).map Token.kind =
      differenceKinds ++ [.endOfFile] := rfl
  have hspells : difference.Spells differenceKinds :=
    .node (.node (.leaf (k := .number 1) rfl) (k := .symbol .minus) rfl (.node (.leaf (k := .identifier "x") rfl)
      (k := .symbol .doubleStar) rfl (.leaf (k := .number 2) rfl))) (k := .symbol .minus) rfl
      (.leaf (k := .identifier "y") rfl)
  obtain ⟨e, t, hrun, he, -, -, honly⟩ := binaryExpr_climbs hks hkinds (Nat.le_refl _)
  rw [← honly _ hspells (by decide)] at he
  exact ⟨e, hrun, he⟩

end Grammar

end ScriptEngine

import ScriptEngine.Program.Parser.Expression
import ScriptEngine.Proofs.Program.Constructs

/-!
# Outcomes of expressions

What the parsers of expressions read, from primary expressions to assignments. The span of an operator
applied to operands reaches from the first operand or the operator to the last part; parentheses are not
part of it, so that it may cover fewer tokens than were read.

* A span reaches from a token to a part (`Node.placed_prefixed`), from a part to a token
  (`Node.placed_followed`), or from one part to another (`Node.placed_joined`).
* `Grammar.reads_iterated`: operands and operators are added to an expression as long as there are any.
-/

namespace ScriptEngine

namespace Node

variable {ts : Array Token} {n first last : Node} {i j k l : Nat}

/-- A node with the span from a first part of it to a last part, which do not end before they start. -/
theorem placed_upTo {first last : Span} {a b c d : Nat} (hfirst : first.Covers ts a b)
    (hlast : last.Covers ts c d) (had : a < d) (hi : i ≤ a) (hj : d ≤ j) (hsize : d ≤ ts.size)
    (hs : n.span = first.upTo last) (hform : n.WellFormed)
    (hchildren : ∀ c ∈ n.children, c.Placed ts a d) : n.Placed ts i j :=
  .mk hi hj (hs ▸ hfirst.upTo hlast had) hsize hform hchildren

/-- A node that starts with the token of an operator and ends with a part. -/
theorem placed_prefixed (hlast : last.Placed ts (i + 1) j) (hs : n.span = (tokenIn ts i).span.upTo last.span)
    (hform : n.WellFormed) (hchildren : ∀ c ∈ n.children, c = last) : n.Placed ts i j := by
  obtain ⟨a, b, ha, hb, hsize, hcovers, hplaced⟩ := hlast.covers
  have hab := hcovers.lt
  refine placed_upTo (Span.covers_token ts i) hcovers (by omega) (Nat.le_refl i) hb hsize hs hform fun c hc => ?_
  rw [hchildren c hc]
  exact hplaced.mono (by omega) (Nat.le_refl b)

/-- A node that starts with a part and ends with a token, with further parts between them. -/
theorem placed_followed (hfirst : first.Placed ts i k) (hkl : k ≤ l) (hl : l < ts.size)
    (hs : n.span = first.span.upTo (tokenIn ts l).span) (hform : n.WellFormed)
    (hchildren : ∀ c ∈ n.children, c = first ∨ c.Placed ts k (l + 1)) : n.Placed ts i (l + 1) := by
  obtain ⟨a, b, ha, hb, -, hcovers, hplaced⟩ := hfirst.covers
  have hab := hcovers.lt
  refine placed_upTo hcovers (Span.covers_token ts l) (by omega) ha (Nat.le_refl _) hl hs hform fun c hc => ?_
  obtain rfl | hc := hchildren c hc
  · exact hplaced.mono (Nat.le_refl a) (by omega)
  · exact hc.mono (by omega) (Nat.le_refl _)

/-- A node that starts with a part and ends with another one, with further parts between them. -/
theorem placed_joined (hfirst : first.Placed ts i k) (hlast : last.Placed ts l j) (hkl : k ≤ l)
    (hs : n.span = first.span.upTo last.span) (hform : n.WellFormed)
    (hchildren : ∀ c ∈ n.children, c = first ∨ c = last ∨ c.Placed ts k l) : n.Placed ts i j := by
  obtain ⟨a, b, ha, hb, -, hcovers, hplaced⟩ := hfirst.covers
  obtain ⟨c, d, hc, hd, hsize, hcovers', hplaced'⟩ := hlast.covers
  have hab := hcovers.lt
  have hcd := hcovers'.lt
  refine placed_upTo hcovers hcovers' (by omega) ha hd hsize hs hform fun m hm => ?_
  obtain rfl | rfl | hm := hchildren m hm
  · exact hplaced.mono (Nat.le_refl a) (by omega)
  · exact hplaced'.mono (by omega) (Nat.le_refl d)
  · exact hm.mono (by omega) (by omega)

end Node

namespace Grammar

open Parse

attribute [local simp] Node.children Node.fields Node.exprFields NodeField.children NodeField.ofExpr
  NodeField.ofExpr?

variable {g : Grammar} {ts : Array Token} {i lo : Nat}

theorem ensures_checkAssignable {target : Expr} (ht : target.span.Within ts 0 ts.size) :
    (checkAssignable target).Ensures ts i fun _ j => j = i ∧ target.isAssignable := by
  unfold checkAssignable
  split
  · next h => exact ensures_pure ⟨rfl, h⟩
  · exact ensures_failAt ht

section

variable (hts : Ended ts) (hg : g.WorksFrom ts lo)

include hts hg

/-! ## Operands -/

theorem reads_parenthesized (hlo : lo ≤ i + 1) (hi : i < ts.size)
    (hk : (tokenIn ts i).kind ≠ .endOfFile) : Reads .expr ts g.parenthesized i := by
  refine .next hts hi hk fun hi₁ => ?_
  refine (hg.expression hlo hi₁).bind ?_
  rintro e j ⟨hj, hjs, he⟩
  refine .expect hts hjs (by simp) fun _ hj₁ => ensures_pure ⟨by omega, hj₁, ?_⟩
  exact he.mono (Nat.le_succ i) (Nat.le_succ j)

theorem reads_primary (hlo : lo ≤ i + 1) (hi : i < ts.size) : Reads .expr ts g.primary i := by
  refine .peek hi ?_
  split
  · next value hvalue =>
    have hk := ne_endOfFile_of_some rfl hvalue
    refine .next hts hi hk fun hi₁ => ensures_pure ⟨Nat.lt_succ_self i, hi₁, ?_⟩
    refine placed_token hi₁ rfl trivial ?_
    cases value <;> rfl
  · split
    · next name hname =>
      refine .next hts hi (by simp [hname]) fun hi₁ => ensures_pure ⟨Nat.lt_succ_self i, hi₁, ?_⟩
      exact placed_token hi₁ rfl trivial rfl
    · next h => exact reads_parenthesized hts hg hlo hi (by simp [h])
    · next h => exact reads_arrayLiteral hts hg hlo hi (by simp [h])
    · next h =>
      refine .peekSecond hts hi (by simp [h]) fun hi₁ => ?_
      by_cases hbrace : (tokenIn ts (i + 1)).kind = .symbol .lbrace
      · rw [if_pos hbrace]
        exact reads_objectLiteral hts hg hlo hi (by simp [h]) (by simp [hbrace])
      · rw [if_neg hbrace]
        exact ensures_failExpected hi
    · next h =>
      refine (reads_block hts hg hlo hi).bind ?_
      rintro b j hb
      exact ensures_pure hb
    · next h => exact reads_conditional hts hg hlo hi (by simp [h])
    · next h => exact reads_matchExpr hts hg hlo hi (by simp [h])
    · next h => exact reads_tryExpr hts hg hlo hi (by simp [h])
    · next h => exact reads_whileExpr hts hg hlo hi (by simp [h]) false
    · next h => exact reads_whileExpr hts hg hlo hi (by simp [h]) true
    · next h => exact reads_loopExpr hts hg hlo hi (by simp [h])
    · next h => exact reads_forExpr hts hg hlo hi (by simp [h])
    · next h =>
      refine (reads_functionDef hts hg hlo hi).bind ?_
      rintro f j hf
      exact ensures_pure hf
    · next h =>
      refine (reads_functionDef hts hg hlo hi).bind ?_
      rintro f j hf
      exact ensures_pure hf
    · exact ensures_failExpected hi

/-- What follows an operand that starts at the position `start`. -/
theorem ensures_operandTail {start : Nat} {e : Expr} (hlo : lo ≤ i + 1) (hi : i < ts.size)
    (he : (Node.expr e).Placed ts start i) :
    (g.operandTail e).Ensures ts i fun r j =>
      (∃ e', r = some e' ∧ i < j ∧ j < ts.size ∧ (Node.expr e').Placed ts start j) ∨ r = none ∧ j = i := by
  refine .peek hi ?_
  split
  · next h =>
    refine (ensures_arguments hts hg hlo hi).bind ?_
    rintro args j ⟨hj, hjs, hargs⟩
    refine .previous hjs (by omega) (ensures_pure (.inl ⟨_, rfl, hj, hjs, ?_⟩))
    obtain ⟨k, rfl⟩ : ∃ k, j = k + 1 := ⟨j - 1, by omega⟩
    refine Node.placed_followed he (by omega) (by omega) rfl trivial ?_
    simpa using fun e he => .inr ((hargs e he).mono (Nat.le_succ i) (Nat.le_refl _))
  · next h =>
    refine .peekSecond hts hi (by simp [h]) fun _ => ?_
    split
    · exact ensures_pure (.inr ⟨rfl, rfl⟩)
    · refine .next hts hi (by simp [h]) fun hi₁ => ?_
      refine .expectName hts hi₁ fun name _ hi₂ => ensures_pure (.inl ⟨_, rfl, by omega, hi₂, ?_⟩)
      exact Node.placed_followed he (Nat.le_succ i) hi₁ rfl trivial (by simp)
  · next h =>
    refine .next hts hi (by simp [h]) fun hi₁ => ?_
    refine (hg.expression (by omega) hi₁).bind ?_
    rintro x j ⟨hj, hjs, hx⟩
    refine .expect hts hjs (by simp) fun _ hj₁ => ensures_pure (.inl ⟨_, rfl, by omega, hj₁, ?_⟩)
    refine Node.placed_followed he (by omega) hjs rfl trivial ?_
    simpa using .inr (hx.mono (Nat.le_succ i) (Nat.le_succ j))
  · split
    · next op hop =>
      have hk := ne_endOfFile_of_some rfl hop
      split
      · next hassignable =>
        refine .next hts hi hk fun hi₁ => ensures_pure (.inl ⟨_, rfl, Nat.lt_succ_self i, hi₁, ?_⟩)
        exact Node.placed_followed he (Nat.le_refl i) hi rfl hassignable (by simp)
      · exact ensures_pure (.inr ⟨rfl, rfl⟩)
    · exact ensures_pure (.inr ⟨rfl, rfl⟩)

omit hts in
/-- An expression that goes on as long as something follows it. -/
theorem reads_iterated {first : Parse Expr} {tail : Expr → Parse (Option Expr)} (hlo : lo ≤ i + 1)
    (hfirst : Reads .expr ts first i)
    (htail : ∀ k e, i < k → k < ts.size → (Node.expr e).Placed ts i k → (tail e).Ensures ts k fun r j =>
      (∃ e', r = some e' ∧ k < j ∧ j < ts.size ∧ (Node.expr e').Placed ts i j) ∨ r = none ∧ j = k) :
    Reads .expr ts (first >>= fun e => iterate tail g.bound e) i := by
  have hbound := hg.bound
  refine hfirst.bind ?_
  rintro e j ⟨hj, hjs, he⟩
  refine (ensures_iterate (S := fun k e => (Node.expr e).Placed ts i k) (fun k e hk hks he => ?_)
    (Nat.le_refl j) hjs he (by omega)).mono ?_
  · exact htail k e (by omega) hks he
  · rintro e' k ⟨hk, hks, he'⟩
    exact ⟨by omega, hks, he'⟩

theorem reads_operandExpr (hlo : lo ≤ i + 1) (hi : i < ts.size) : Reads .expr ts g.operandExpr i :=
  reads_iterated hg hlo (reads_primary hts hg hlo hi) fun _ _ _ hks he =>
    ensures_operandTail hts hg (by omega) hks he

/-! ## Operators -/

theorem reads_unaryExpr (hlo : lo ≤ i + 1) (hi : i < ts.size) : Reads .expr ts g.unaryExpr i := by
  refine .peek hi ?_
  split
  · next op hk =>
    refine .next hts hi (ne_endOfFile_of_some rfl hk) fun hi₁ => ?_
    refine (hg.unary hlo hi₁).bind ?_
    rintro e j ⟨hj, hjs, he⟩
    refine ensures_pure ⟨by omega, hjs, ?_⟩
    exact Node.placed_prefixed he rfl trivial (by simp)
  · split
    · next op hk =>
      refine .next hts hi (ne_endOfFile_of_some rfl hk) fun hi₁ => ?_
      refine (hg.unary hlo hi₁).bind ?_
      rintro e j ⟨hj, hjs, he⟩
      refine (ensures_checkAssignable (he.within.mono (Nat.zero_le _) (by omega))).bind ?_
      rintro _ k ⟨rfl, hassignable⟩
      refine ensures_pure ⟨by omega, hjs, ?_⟩
      exact Node.placed_prefixed he rfl hassignable (by simp)
    · exact reads_operandExpr hts hg hlo hi

theorem ensures_rangeStep (hlo : lo ≤ i) (hi : i < ts.size) :
    g.rangeStep.Ensures ts i fun e j => i ≤ j ∧ j < ts.size ∧ ∀ x ∈ e, (Node.expr x).Placed ts i j := by
  refine .looksAt hi (fun hk => ?_) fun _ => ?_
  · refine .next hts hi (by simp [hk]) fun hi₁ => ?_
    refine (hg.binary _ (by omega) hi₁).bind ?_
    rintro e j ⟨hj, hjs, he⟩
    refine ensures_pure ⟨by omega, hjs, ?_⟩
    rintro _ ⟨rfl⟩
    exact he.mono (Nat.le_succ i) (Nat.le_refl j)
  · exact ensures_pure ⟨Nat.le_refl i, hi, by simp⟩

/-- Two operands, the second of which is read after the first. -/
theorem ensures_applyInfix {start mid : Nat} {l r : Expr} {op : InfixOp} (hlo : lo ≤ i)
    (hi : i < ts.size) (hl : (Node.expr l).Placed ts start mid) (hr : (Node.expr r).Placed ts mid i) :
    (g.applyInfix l op r).Ensures ts i fun e j =>
      i ≤ j ∧ j < ts.size ∧ (Node.expr e).Placed ts start j := by
  cases op with
  | binary op | logical op =>
    refine ensures_pure ⟨Nat.le_refl i, hi, ?_⟩
    exact Node.placed_joined hl hr (Nat.le_refl mid) rfl trivial (by simp)
  | range withStart withStop =>
    refine (ensures_rangeStep hts hg hlo hi).bind ?_
    rintro step j ⟨hj, hjs, hstep⟩
    refine ensures_pure ⟨hj, hjs, ?_⟩
    cases step with
    | none =>
      have hr' := hr.mono (Nat.le_refl mid) hj
      exact Node.placed_joined hl hr' (Nat.le_refl mid) rfl trivial (by simp)
    | some x =>
      refine Node.placed_joined hl (hstep x rfl) (Nat.le_of_lt hr.lt) rfl trivial ?_
      simpa using .inr (.inr hr)

theorem ensures_infixTail {start least : Nat} {e : Expr} (hlo : lo ≤ i + 1) (hi : i < ts.size)
    (he : (Node.expr e).Placed ts start i) :
    (g.infixTail least e).Ensures ts i fun r j =>
      (∃ e', r = some e' ∧ i < j ∧ j < ts.size ∧ (Node.expr e').Placed ts start j) ∨ r = none ∧ j = i := by
  refine .peek hi ?_
  split
  · exact ensures_pure (.inr ⟨rfl, rfl⟩)
  · next op hop =>
    split
    · exact ensures_pure (.inr ⟨rfl, rfl⟩)
    · refine .next hts hi (ne_endOfFile_of_some rfl hop) fun hi₁ => ?_
      refine (hg.binary _ hlo hi₁).bind ?_
      rintro r j ⟨hj, hjs, hr⟩
      refine (ensures_applyInfix hts hg (by omega) hjs he (hr.mono (Nat.le_succ i) (Nat.le_refl j))).bind ?_
      rintro e' k ⟨hk, hks, he'⟩
      exact ensures_pure (.inl ⟨e', rfl, by omega, hks, he'⟩)

theorem reads_binaryExpr (least : Nat) (hlo : lo ≤ i + 1) (hi : i < ts.size) :
    Reads .expr ts (g.binaryExpr least) i :=
  reads_iterated hg hlo (reads_unaryExpr hts hg hlo hi) fun _ _ _ hks he =>
    ensures_infixTail hts hg (by omega) hks he

theorem reads_ternaryExpr (hlo : lo ≤ i + 1) (hi : i < ts.size) : Reads .expr ts g.ternaryExpr i := by
  refine (reads_binaryExpr hts hg 1 hlo hi).bind ?_
  rintro e j ⟨hj, hjs, he⟩
  refine .accept hts hjs (by simp) (fun _ hj₁ => ?_) ?_
  · refine (hg.ternary (by omega) hj₁).bind ?_
    rintro t k ⟨hk, hks, ht⟩
    refine .expect hts hks (by simp) fun _ hk₁ => ?_
    refine (hg.ternary (by omega) hk₁).bind ?_
    rintro f l ⟨hl, hls, hf⟩
    refine ensures_pure ⟨by omega, hls, ?_⟩
    refine Node.placed_joined he hf (by omega) rfl trivial ?_
    simpa using .inr (.inr (ht.mono (Nat.le_succ j) (Nat.le_succ k)))
  · exact ensures_pure ⟨hj, hjs, he⟩

theorem reads_expressionExpr (hlo : lo ≤ i + 1) (hi : i < ts.size) : Reads .expr ts g.expressionExpr i := by
  refine (reads_ternaryExpr hts hg hlo hi).bind ?_
  rintro target j ⟨hj, hjs, ht⟩
  refine .peek hjs ?_
  split
  · exact ensures_pure ⟨hj, hjs, ht⟩
  · next op hop =>
    refine .next hts hjs (ne_endOfFile_of_some rfl hop) fun hj₁ => ?_
    refine (ensures_checkAssignable (ht.within.mono (Nat.zero_le i) (by omega))).bind ?_
    rintro _ k ⟨rfl, hassignable⟩
    refine (hg.expression (by omega) hj₁).bind ?_
    rintro value k ⟨hk, hks, hv⟩
    refine ensures_pure ⟨by omega, hks, ?_⟩
    exact Node.placed_joined ht hv (Nat.le_succ j) rfl hassignable (by simp)

end

end Grammar

end ScriptEngine

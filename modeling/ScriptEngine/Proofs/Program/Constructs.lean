import ScriptEngine.Proofs.Program.Outcome

/-!
# Outcomes of constructs

Each construct that a parser reads is placed on the tokens that it was read from, given that the grammar for
its parts does its work from the token after its first one on (`Grammar.WorksFrom`). There is one lemma for
each construct, by the rules for the parsers it is made of.
-/

namespace ScriptEngine

open Parse

/-- A parser of a node moves on and places the node on the tokens it has read. -/
abbrev Parse.Reads {α : Type} (node : α → Node) (ts : Array Token) (p : Parse α) (i : Nat) : Prop :=
  ReadsItem (fun i j a => (node a).Placed ts i j) ts p i

theorem widens_placed {α : Type} (node : α → Node) (ts : Array Token) :
    Widens fun i j a => (node a).Placed ts i j :=
  fun _ _ _ _ _ h hi hj => h.mono hi hj

/-- A grammar does its work from a position on: each of its parsers reads a node there, and its bound is
enough for the tokens ahead. -/
structure Grammar.WorksFrom (g : Grammar) (ts : Array Token) (lo : Nat) : Prop where
  bound : ts.size ≤ lo + g.bound
  expression : ∀ {i}, lo ≤ i → i < ts.size → Reads .expr ts g.expression i
  ternary : ∀ {i}, lo ≤ i → i < ts.size → Reads .expr ts g.ternary i
  binary : ∀ {i} least, lo ≤ i → i < ts.size → Reads .expr ts (g.binary least) i
  unary : ∀ {i}, lo ≤ i → i < ts.size → Reads .expr ts g.unary i
  operand : ∀ {i}, lo ≤ i → i < ts.size → Reads .expr ts g.operand i
  ifElse : ∀ {i}, lo ≤ i → i < ts.size → (tokenIn ts i).kind = .keyword .kwIf → Reads .expr ts g.ifElse i
  statement : ∀ {i}, lo ≤ i → i < ts.size → Reads .stmt ts g.statement i

namespace Node

variable {ts : Array Token} {n : Node} {i j : Nat}

/-- A node with the span of all tokens from a position up to another. -/
theorem placed_of_tokens (hij : i < j) (hj : j < ts.size)
    (hs : n.span = ⟨(tokenIn ts i).span.start, (tokenIn ts (j - 1)).span.stop⟩) (hform : n.WellFormed)
    (hchildren : ∀ c ∈ n.children, c.Placed ts i j) : n.Placed ts i j :=
  .mk (Nat.le_refl i) (Nat.le_refl j) ⟨hij, by rw [hs], by rw [hs]⟩ (Nat.le_of_lt hj) hform hchildren

end Node

/-- The expression that an arm compares its subject with. -/
def ArmTest.pattern? : ArmTest → Option Expr
  | .equals e | .compares _ e | .isVariant e => some e
  | .otherwise => none

namespace Grammar

attribute [local simp] Node.children Node.fields Node.exprFields Node.literalFields Node.armFields
  Node.functionFields NodeField.children NodeField.ofExpr NodeField.ofExpr? NodeField.ofBlock
  NodeField.ofBlock? NodeField.ofText?

variable {g : Grammar} {ts : Array Token} {i lo : Nat}

/-! ## Single tokens -/

/-- A node that is a single token. -/
theorem placed_token {n : Node} (hi : i + 1 < ts.size) (hs : n.span = (tokenIn ts i).span)
    (hform : n.WellFormed) (hchildren : n.children = []) : n.Placed ts i (i + 1) := by
  refine Node.placed_of_tokens (Nat.lt_succ_self i) hi hs hform ?_
  rw [hchildren]
  exact List.forall_mem_nil _

section

variable (hts : Ended ts) (hg : g.WorksFrom ts lo)

include hts hg

/-! ## Blocks and literals -/

theorem ensures_blockStatements (hlo : lo ≤ i) (hi : i < ts.size) :
    g.blockStatements.Ensures ts i fun ss j =>
      i ≤ j ∧ j < ts.size ∧ ∀ s ∈ ss, (Node.stmt s).Placed ts i j := by
  have hbound := hg.bound
  refine (ensures_many (N := fun _ => True) (widens_placed .stmt ts) (fun k hk hks => ?_) hlo hi
    (by omega)).mono fun ss j h => ⟨h.1, h.2.1, h.2.2.2⟩
  refine .looksAt hks (fun _ => ensures_pure (.inr ⟨rfl, rfl, trivial⟩)) fun _ => ?_
  refine .looksAt hks (fun _ => ?_) fun _ => ?_
  · exact .failExpected hks
  · refine (hg.statement hk hks).bind ?_
    rintro s j ⟨hkj, hj, hs⟩
    refine (ensures_skipSemicolons hts hj (by omega)).bind ?_
    rintro _ l ⟨hjl, hl⟩
    exact ensures_pure (.inl ⟨s, rfl, by omega, hl, hs.mono (Nat.le_refl k) hjl⟩)

theorem reads_block (hlo : lo ≤ i + 1) (hi : i < ts.size) : Reads .block ts g.block i := by
  have hbound := hg.bound
  refine .expect hts hi (by simp) fun _ hi₁ => ?_
  refine (ensures_skipSemicolons hts hi₁ (by omega)).bind ?_
  rintro _ j ⟨hj, hjs⟩
  refine (ensures_blockStatements hts hg (by omega) hjs).bind ?_
  rintro ss k ⟨hjk, hk, hss⟩
  refine .expect hts hk (by simp) fun _ hk₁ => ?_
  refine .spanFrom hk₁ (ensures_pure ⟨by omega, hk₁, ?_⟩)
  refine Node.placed_of_tokens (by omega) hk₁ rfl trivial ?_
  simpa [Node.block] using fun s hs => (hss s hs).mono (by omega) (by omega)

theorem reads_arrayLiteral (hlo : lo ≤ i + 1) (hi : i < ts.size)
    (hk : (tokenIn ts i).kind ≠ .endOfFile) : Reads .expr ts g.arrayLiteral i := by
  have hbound := hg.bound
  refine .next hts hi hk fun hi₁ => ?_
  refine (ensures_separated hts (widens_placed .expr ts) (fun _ => hg.expression) hlo hi₁
    (by omega)).bind ?_
  rintro es j ⟨hj, hjs, hes⟩
  refine .expect hts hjs (by simp) fun _ hj₁ => ?_
  refine .spanFrom hj₁ (ensures_pure ⟨by omega, hj₁, ?_⟩)
  refine Node.placed_of_tokens (by omega) hj₁ rfl trivial ?_
  simpa using fun e he => (hes e he).mono (by omega) (by omega)

omit hts in
/-- The value of an entry whose key is the token at `i`. -/
theorem reads_entryValue {k : Nat} (key : Text) (hik : i < k) (hlo : lo ≤ k) (hk : k < ts.size) :
    (do let value ← g.expression
        return (⟨← spanFrom (tokenIn ts i), key, value⟩ : ObjectEntry) : Parse ObjectEntry).Ensures ts k
      fun e j => i < j ∧ j < ts.size ∧ (Node.entry e).Placed ts i j := by
  refine (hg.expression hlo hk).bind ?_
  rintro value j ⟨hkj, hj, hvalue⟩
  refine .spanFrom hj (ensures_pure ⟨by omega, hj, ?_⟩)
  refine Node.placed_of_tokens (by omega) hj rfl trivial ?_
  simpa using hvalue.mono (by omega) (by omega)

theorem reads_objectEntry (hlo : lo ≤ i + 1) (hi : i < ts.size) : Reads .entry ts g.objectEntry i := by
  refine .peek hi ?_
  split
  · next key hkey =>
    refine .next hts hi (by simp [hkey]) fun hi₁ => ?_
    refine .expect hts hi₁ (by simp) fun _ hi₂ => ?_
    exact reads_entryValue hg key (by omega) (by omega) hi₂
  · next key hkey =>
    refine .next hts hi (by simp [hkey]) fun hi₁ => ?_
    refine .accept hts hi₁ (by simp) (fun _ hi₂ => ?_) ?_
    · exact reads_entryValue hg key (by omega) (by omega) hi₂
    · refine .spanFrom hi₁ (ensures_pure ⟨by omega, hi₁, ?_⟩)
      refine Node.placed_of_tokens (by omega) hi₁ rfl trivial ?_
      have hname : (Node.expr (.name (tokenIn ts i).span key)).Placed ts i (i + 1) :=
        placed_token hi₁ rfl trivial rfl
      simpa using hname
  · exact ensures_failExpected hi

theorem reads_objectLiteral (hlo : lo ≤ i + 1) (hi : i < ts.size)
    (hk : (tokenIn ts i).kind ≠ .endOfFile) (hk₁ : (tokenIn ts (i + 1)).kind ≠ .endOfFile) :
    Reads .expr ts g.objectLiteral i := by
  have hbound := hg.bound
  refine .next hts hi hk fun hi₁ => .next hts hi₁ hk₁ fun hi₂ => ?_
  refine (ensures_separated hts (widens_placed .entry ts)
    (fun k hk hks => reads_objectEntry hts hg (by omega) hks) (Nat.le_refl (i + 1 + 1)) hi₂ (by omega)).bind ?_
  rintro es j ⟨hj, hjs, hes⟩
  refine .expect hts hjs (by simp) fun _ hj₁ => ?_
  refine .spanFrom hj₁ (ensures_pure ⟨by omega, hj₁, ?_⟩)
  refine Node.placed_of_tokens (by omega) hj₁ rfl trivial ?_
  simpa using fun e he => (hes e he).mono (by omega) (by omega)

/-! ## Conditionals, matches and tries -/

theorem ensures_elseBranch (hlo : lo ≤ i) (hi : i < ts.size) :
    g.elseBranch.Ensures ts i fun e j => i ≤ j ∧ j < ts.size ∧ ∀ x ∈ e, (Node.expr x).Placed ts i j := by
  refine .accept hts hi (by simp) (fun _ hi₁ => ?_) ?_
  · refine .looksAt hi₁ (fun hif => ?_) fun _ => ?_
    · refine (hg.ifElse (by omega) hi₁ hif).bind ?_
      rintro e j ⟨hij, hj, he⟩
      refine ensures_pure ⟨by omega, hj, ?_⟩
      rintro _ ⟨rfl⟩
      exact he.mono (by omega) (Nat.le_refl j)
    · refine (reads_block hts hg (by omega) hi₁).bind ?_
      rintro b j ⟨hij, hj, hb⟩
      refine ensures_pure ⟨by omega, hj, ?_⟩
      rintro _ ⟨rfl⟩
      exact hb.mono (by omega) (Nat.le_refl j)
  · exact ensures_pure ⟨Nat.le_refl i, hi, by simp⟩

theorem reads_conditional (hlo : lo ≤ i + 1) (hi : i < ts.size)
    (hk : (tokenIn ts i).kind ≠ .endOfFile) : Reads .expr ts g.conditional i := by
  refine .next hts hi hk fun hi₁ => ?_
  refine (hg.expression hlo hi₁).bind ?_
  rintro c j ⟨hj, hjs, hc⟩
  refine (reads_block hts hg (by omega) hjs).bind ?_
  rintro b k ⟨hk, hks, hb⟩
  refine (ensures_elseBranch hts hg (by omega) hks).bind ?_
  rintro e l ⟨hl, hls, he⟩
  refine .spanFrom hls (ensures_pure ⟨by omega, hls, ?_⟩)
  refine Node.placed_of_tokens (by omega) hls rfl trivial ?_
  have hc' := hc.mono (k := i) (l := l) (by omega) (by omega)
  have hb' := hb.mono (k := i) (l := l) (by omega) hl
  cases e with
  | none => simpa using ⟨hc', hb'⟩
  | some e => simpa using ⟨hc', hb', (he e rfl).mono (by omega) (Nat.le_refl l)⟩

theorem ensures_armTest (hlo : lo ≤ i) (hi : i < ts.size) :
    g.armTest.Ensures ts i fun t j =>
      i < j ∧ j < ts.size ∧ ∀ e ∈ t.pattern?, (Node.expr e).Placed ts i j := by
  have hpattern {k : Nat} (hik : i ≤ k) (hk : k < ts.size) (least : Nat) {f : Expr → ArmTest}
      (hf : ∀ e, (f e).pattern? = some e) :
      (do return f (← g.binary least) : Parse ArmTest).Ensures ts k fun t j =>
        i < j ∧ j < ts.size ∧ ∀ e ∈ t.pattern?, (Node.expr e).Placed ts i j := by
    refine (hg.binary least (by omega) hk).bind ?_
    rintro e j ⟨hkj, hj, he⟩
    refine ensures_pure ⟨by omega, hj, ?_⟩
    rw [hf]
    rintro _ ⟨rfl⟩
    exact he.mono hik (Nat.le_refl j)
  refine .accept hts hi (by simp) (fun _ hi₁ => ?_) ?_
  · exact ensures_pure ⟨Nat.lt_succ_self i, hi₁, by simp [ArmTest.pattern?]⟩
  refine .accept hts hi (by simp) (fun _ hi₁ => ?_) ?_
  · exact hpattern (Nat.le_succ i) hi₁ _ fun _ => rfl
  refine .peek hi ?_
  split
  · next op hop =>
    have hk := ne_endOfFile_of_some rfl hop
    exact .next hts hi hk fun hi₁ => hpattern (Nat.le_succ i) hi₁ _ fun _ => rfl
  · exact hpattern (Nat.le_refl i) hi _ fun _ => rfl

theorem reads_matchArm (hlo : lo ≤ i) (hi : i < ts.size) : Reads .arm ts g.matchArm i := by
  refine .peek hi ((ensures_armTest hts hg hlo hi).bind ?_)
  rintro t j ⟨hj, hjs, ht⟩
  refine (reads_block hts hg (by omega) hjs).bind ?_
  rintro b k ⟨hk, hks, hb⟩
  refine .spanFrom hks (ensures_pure ⟨by omega, hks, ?_⟩)
  refine Node.placed_of_tokens (by omega) hks rfl trivial ?_
  have hb' := hb.mono (k := i) (l := k) (by omega) (Nat.le_refl k)
  have ht' : ∀ e ∈ t.pattern?, (Node.expr e).Placed ts i k := fun e he =>
    (ht e he).mono (Nat.le_refl i) (by omega)
  cases t with
  | otherwise => simpa using hb'
  | equals e | compares op e | isVariant e => simpa using ⟨hb', ht' e rfl⟩

/-- The arms that are read so far, in reverse, are placed, and only the first of them may take every
subject. -/
def ArmsRead (ts : Array Token) (i j : Nat) (arms : List MatchArm) : Prop :=
  (∀ a ∈ arms, (Node.arm a).Placed ts i j) ∧ ∀ a ∈ arms.tail, isCatchAll a = false

theorem ensures_matchArms (hlo : lo ≤ i) (hi : i < ts.size) :
    g.matchArms.Ensures ts i fun arms j => i ≤ j ∧ j < ts.size ∧ ArmsRead ts i j arms := by
  have hbound := hg.bound
  have hnone : ArmsRead ts i i [] := ⟨List.forall_mem_nil _, List.forall_mem_nil _⟩
  refine ensures_iterate (fun k arms hk hks hS => ?_) (Nat.le_refl i) hi hnone (by omega)
  obtain ⟨harms, htail⟩ := hS
  refine .looksAt hks (fun _ => ensures_pure (.inr ⟨rfl, rfl⟩)) fun _ => ?_
  rw [if_neg Bool.false_ne_true]
  extract_lets goOn
  by_cases hlast : arms.head?.any isCatchAll
  · rw [if_pos hlast]
    exact .peek hks (.failAt ((Span.covers_token ts k).within (Nat.zero_le k) hks))
  · rw [if_neg hlast]
    refine (reads_matchArm hts hg (by omega) hks).bind ?_
    rintro arm j ⟨hkj, hj, harm⟩
    -- no arm before this one takes every subject, the last one included
    have hothers : ∀ a ∈ arms, isCatchAll a = false := by
      cases arms with
      | nil => exact List.forall_mem_nil _
      | cons a rest => exact List.forall_mem_cons.2 ⟨by simpa using hlast, htail⟩
    have hread {l : Nat} (hl : j ≤ l) : ArmsRead ts i l (arm :: arms) := by
      refine ⟨List.forall_mem_cons.2 ⟨harm.mono hk hl, fun a ha => ?_⟩, hothers⟩
      exact (harms a ha).mono (Nat.le_refl i) (by omega)
    refine .accept hts hj (by simp) (fun _ hj₁ => ?_) ?_
    · exact ensures_pure (.inl ⟨_, rfl, by omega, hj₁, hread (Nat.le_succ j)⟩)
    · exact ensures_pure (.inl ⟨_, rfl, hkj, hj, hread (Nat.le_refl j)⟩)

theorem reads_matchExpr (hlo : lo ≤ i + 1) (hi : i < ts.size)
    (hk : (tokenIn ts i).kind ≠ .endOfFile) : Reads .expr ts g.matchExpr i := by
  refine .next hts hi hk fun hi₁ => ?_
  refine (hg.expression hlo hi₁).bind ?_
  rintro e j ⟨hj, hjs, he⟩
  refine .expect hts hjs (by simp) fun _ hj₁ => ?_
  refine (ensures_matchArms hts hg (by omega) hj₁).bind ?_
  rintro arms k ⟨hk, hks, harms, htail⟩
  refine .expect hts hks (by simp) fun _ hk₁ => ?_
  refine .spanFrom hk₁ (ensures_pure ⟨by omega, hk₁, ?_⟩)
  refine Node.placed_of_tokens (by omega) hk₁ rfl ?_ ?_
  · show ∀ a ∈ arms.reverse.dropLast, isCatchAll a = false
    simpa using htail
  · have he' := he.mono (k := i) (l := k + 1) (by omega) (by omega)
    simpa using ⟨he', fun a ha => (harms a ha).mono (by omega) (Nat.le_succ k)⟩

theorem ensures_catchPart (hlo : lo ≤ i) (hi : i < ts.size) :
    g.catchPart.Ensures ts i fun r j =>
      i ≤ j ∧ j < ts.size ∧ ∀ b ∈ r.2, (Node.block b).Placed ts i j := by
  refine .accept hts hi (by simp) (fun _ hi₁ => ?_) ?_
  · refine .acceptName hts hi₁ fun name j hij hj => ?_
    refine (reads_block hts hg (by omega) hj).bind ?_
    rintro b k ⟨hjk, hk, hb⟩
    refine ensures_pure ⟨by omega, hk, ?_⟩
    rintro _ ⟨rfl⟩
    exact hb.mono (by omega) (Nat.le_refl k)
  · exact ensures_pure ⟨Nat.le_refl i, hi, nofun⟩

theorem ensures_finallyPart (hlo : lo ≤ i) (hi : i < ts.size) :
    g.finallyPart.Ensures ts i fun r j =>
      i ≤ j ∧ j < ts.size ∧ ∀ b ∈ r, (Node.block b).Placed ts i j := by
  refine .accept hts hi (by simp) (fun _ hi₁ => ?_) ?_
  · refine (reads_block hts hg (by omega) hi₁).bind ?_
    rintro b k ⟨hjk, hk, hb⟩
    refine ensures_pure ⟨by omega, hk, ?_⟩
    rintro _ ⟨rfl⟩
    exact hb.mono (by omega) (Nat.le_refl k)
  · exact ensures_pure ⟨Nat.le_refl i, hi, nofun⟩

theorem reads_tryExpr (hlo : lo ≤ i + 1) (hi : i < ts.size)
    (hk : (tokenIn ts i).kind ≠ .endOfFile) : Reads .expr ts g.tryExpr i := by
  refine .next hts hi hk fun hi₁ => ?_
  refine (reads_block hts hg (by omega) hi₁).bind ?_
  rintro b j ⟨hj, hjs, hb⟩
  refine (ensures_catchPart hts hg (by omega) hjs).bind ?_
  rintro ⟨name, handler⟩ k ⟨hk, hks, hhandler⟩
  refine (ensures_finallyPart hts hg (by omega) hks).bind ?_
  rintro cleanup l ⟨hl, hls, hcleanup⟩
  extract_lets finish
  by_cases hnone : (handler.isNone && cleanup.isNone) = true
  · rw [if_pos hnone]
    exact .failExpected hls
  · rw [if_neg hnone]
    refine .spanFrom hls (ensures_pure ⟨by omega, hls, ?_⟩)
    have hb' := hb.mono (k := i) (l := l) (by omega) (by omega)
    have hhandler' : ∀ h ∈ handler, (Node.block h).Placed ts i l := fun h hh =>
      (hhandler h hh).mono (by omega) hl
    have hcleanup' : ∀ c ∈ cleanup, (Node.block c).Placed ts i l := fun c hc =>
      (hcleanup c hc).mono (by omega) (Nat.le_refl l)
    refine Node.placed_of_tokens (by omega) hls rfl ?_ ?_
    · show handler.isSome ∨ cleanup.isSome
      cases handler <;> cases cleanup <;> simp_all
    · cases handler <;> cases cleanup <;> cases name <;> simp_all

/-! ## Loops -/

theorem reads_whileExpr (hlo : lo ≤ i + 1) (hi : i < ts.size)
    (hk : (tokenIn ts i).kind ≠ .endOfFile) (negate : Bool) : Reads .expr ts (g.whileExpr negate) i := by
  refine .next hts hi hk fun hi₁ => ?_
  refine (hg.expression hlo hi₁).bind ?_
  rintro c j ⟨hj, hjs, hc⟩
  refine (reads_block hts hg (by omega) hjs).bind ?_
  rintro b k ⟨hk, hks, hb⟩
  refine .spanFrom hks (ensures_pure ⟨by omega, hks, ?_⟩)
  refine Node.placed_of_tokens (by omega) hks rfl trivial ?_
  simpa using ⟨hc.mono (by omega) (by omega), hb.mono (by omega) (Nat.le_refl k)⟩

theorem reads_loopExpr (hlo : lo ≤ i + 1) (hi : i < ts.size)
    (hk : (tokenIn ts i).kind ≠ .endOfFile) : Reads .expr ts g.loopExpr i := by
  refine .next hts hi hk fun hi₁ => ?_
  refine (reads_block hts hg (by omega) hi₁).bind ?_
  rintro b j ⟨hj, hjs, hb⟩
  refine .spanFrom hjs (ensures_pure ⟨by omega, hjs, ?_⟩)
  refine Node.placed_of_tokens (by omega) hjs rfl trivial ?_
  simpa using hb.mono (by omega) (Nat.le_refl j)

omit hg in
theorem ensures_loopNames (hi : i < ts.size) :
    loopNames.Ensures ts i fun _ j => i < j ∧ j < ts.size := by
  refine .expectName hts hi fun first _ hi₁ => ?_
  refine .accept hts hi₁ (by simp) (fun _ hi₂ => ?_) ?_
  · exact .expectName hts hi₂ fun second _ hi₃ => ensures_pure ⟨by omega, hi₃⟩
  · exact ensures_pure ⟨Nat.lt_succ_self i, hi₁⟩

theorem reads_forExpr (hlo : lo ≤ i + 1) (hi : i < ts.size)
    (hk : (tokenIn ts i).kind ≠ .endOfFile) : Reads .expr ts g.forExpr i := by
  refine .next hts hi hk fun hi₁ => ?_
  refine (ensures_loopNames hts hi₁).bind ?_
  rintro ⟨indexName, valueName⟩ j ⟨hj, hjs⟩
  refine .expect hts hjs (by simp) fun _ hj₁ => ?_
  refine (hg.expression (by omega) hj₁).bind ?_
  rintro e k ⟨hk, hks, he⟩
  refine (reads_block hts hg (by omega) hks).bind ?_
  rintro b l ⟨hl, hls, hb⟩
  refine .spanFrom hls (ensures_pure ⟨by omega, hls, ?_⟩)
  refine Node.placed_of_tokens (by omega) hls rfl trivial ?_
  have he' := he.mono (k := i) (l := l) (by omega) (by omega)
  have hb' := hb.mono (k := i) (l := l) (by omega) (Nat.le_refl l)
  cases indexName <;> simpa using ⟨he', hb'⟩

/-! ## Functions -/

theorem ensures_arguments (hlo : lo ≤ i + 1) (hi : i < ts.size) :
    g.arguments.Ensures ts i fun es j =>
      i < j ∧ j < ts.size ∧ ∀ e ∈ es, (Node.expr e).Placed ts (i + 1) j := by
  have hbound := hg.bound
  refine .expect hts hi (by simp) fun _ hi₁ => ?_
  refine (ensures_separated hts (widens_placed .expr ts) (fun _ => hg.expression) hlo hi₁
    (by omega)).bind ?_
  rintro es j ⟨hj, hjs, hes⟩
  refine .expect hts hjs (by simp) fun _ hj₁ => ensures_pure ⟨by omega, hj₁, fun e he => ?_⟩
  exact (hes e he).mono (Nat.le_refl _) (Nat.le_succ j)

theorem reads_parameter (hlo : lo ≤ i + 1) (hi : i < ts.size) : Reads .parameter ts g.parameter i := by
  refine .expectName hts hi fun name _ hi₁ => ?_
  refine .accept hts hi₁ (by simp) (fun _ hi₂ => ?_) ?_
  · refine (hg.operand (by omega) hi₂).bind ?_
    rintro e j ⟨hj, hjs, he⟩
    have he' := he.mono (k := i) (l := j) (by omega) (Nat.le_refl j)
    refine .spanFrom hjs (ensures_pure ⟨by omega, hjs, ?_⟩)
    refine Node.placed_of_tokens (by omega) hjs rfl trivial ?_
    -- the children of a call are the predicate and its arguments
    have hcall : ∀ {s callee args}, e = .call s callee args →
        ∀ c ∈ (Node.expr e).children, c.Placed ts i j := fun _ _ hc => he'.child hc
    cases e with
    | call s callee args => simpa using hcall rfl
    | _ => simpa using he'
  · refine .spanFrom hi₁ (ensures_pure ⟨by omega, hi₁, ?_⟩)
    exact Node.placed_of_tokens (by omega) hi₁ rfl trivial (by simp)

omit hg in
theorem ensures_functionHead (hi : i < ts.size) :
    functionHead.Ensures ts i fun _ j => i < j ∧ j < ts.size := by
  refine .accept hts hi (by simp) (fun _ hi₁ => ?_) ?_
  · exact .expect hts hi₁ (by simp) fun _ hi₂ => ensures_pure ⟨by omega, hi₂⟩
  · refine .expect hts hi (by simp) fun _ hi₁ => (ensures_accept hts hi₁ (by simp)).mono ?_
    rintro isPure j ⟨hj, hjs⟩
    exact ⟨by omega, hjs⟩

theorem ensures_whereClauses (hlo : lo ≤ i) (hi : i < ts.size) :
    g.whereClauses.Ensures ts i fun es j =>
      i ≤ j ∧ j < ts.size ∧ ∀ e ∈ es, (Node.expr e).Placed ts i j := by
  have hbound := hg.bound
  refine .accept hts hi (by simp) (fun _ hi₁ => ?_) ?_
  · refine (ensures_commaList hts (widens_placed .expr ts) (fun _ => hg.expression) (by omega) hi₁
      (by omega)).mono ?_
    rintro es j ⟨hj, hjs, hes⟩
    exact ⟨by omega, hjs, fun e he => (hes e he).mono (Nat.le_succ i) (Nat.le_refl j)⟩
  · exact ensures_pure ⟨Nat.le_refl i, hi, List.forall_mem_nil _⟩

theorem reads_functionDef (hlo : lo ≤ i + 1) (hi : i < ts.size) :
    Reads .function ts g.functionDef i := by
  have hbound := hg.bound
  refine .peek hi ((ensures_functionHead hts hi).bind ?_)
  rintro isPure j ⟨hj, hjs⟩
  refine .acceptName hts hjs fun name k hk hks => ?_
  refine .expect hts hks (by simp) fun _ hk₁ => ?_
  refine (ensures_separated hts (widens_placed .parameter ts)
    (fun l hl hls => reads_parameter hts hg (by omega) hls) (Nat.le_refl (k + 1)) hk₁ (by omega)).bind ?_
  rintro ps l ⟨hl, hls, hps⟩
  refine .expect hts hls (by simp) fun _ hl₁ => ?_
  split
  · next p hp =>
    have hp' : p ∈ ps := (List.mem_filter.1 (List.mem_of_getElem? hp)).1
    exact .failAt ((hps p hp').within.mono (Nat.zero_le _) (by omega))
  · next hp =>
    refine (ensures_whereClauses hts hg (by omega) hl₁).bind ?_
    rintro ws m ⟨hm, hms, hws⟩
    refine (reads_block hts hg (by omega) hms).bind ?_
    rintro b n ⟨hn, hns, hb⟩
    refine .spanFrom hns (ensures_pure ⟨by omega, hns, ?_⟩)
    refine Node.placed_of_tokens (by omega) hns rfl (List.getElem?_eq_none_iff.1 hp) ?_
    have hps' : ∀ p ∈ ps, (Node.parameter p).Placed ts i n := fun p hp =>
      (hps p hp).mono (by omega) (by omega)
    have hb' := hb.mono (k := i) (l := n) (by omega) (Nat.le_refl n)
    have hws' : ∀ e ∈ ws, (Node.expr e).Placed ts i n := fun e he =>
      (hws e he).mono (by omega) (by omega)
    cases name <;> simp_all [Node.function, or_imp, forall_and]

end

end Grammar

end ScriptEngine

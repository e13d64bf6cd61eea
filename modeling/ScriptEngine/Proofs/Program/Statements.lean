import ScriptEngine.Program.Parser.Statement
import ScriptEngine.Proofs.Program.Expressions

/-!
# Outcomes of statements and programs

* Statements are read by the constructs that start with their keywords, or as expressions.
* **Levels** (`Grammar.worksFrom_ofLevel`): each construct consumes a token before it uses the grammar for
  its parts, so the grammar of a level does its work from every position with no more tokens ahead than the
  level says.
* **Programs** (`Grammar.ensures_program`): with a level no less than the number of tokens, a program is
  read up to the end of file.
-/

namespace ScriptEngine.Grammar

open Parse

attribute [local simp] Node.children Node.fields Node.stmtFields Node.varDeclFields Node.enumDeclFields
  NodeField.children NodeField.ofExpr NodeField.ofExpr? NodeField.ofText? NodeField.ofDeclaration

variable {g : Grammar} {ts : Array Token} {i lo : Nat}

section

variable (hts : Ended ts) (hg : g.WorksFrom ts lo)

include hts

/-! ## Declarations -/

/-- A name that is followed by something else or nothing. -/
theorem ensures_nameText (expected : Text) (hi : i < ts.size) :
    (do return (← expectName expected).2 : Parse Text).Ensures ts i fun _ j => i < j ∧ j < ts.size ∧ True :=
  .expectName hts hi fun _ _ hi₁ => ensures_pure ⟨Nat.lt_succ_self i, hi₁, trivial⟩

include hg

theorem ensures_declared (hlo : lo ≤ i) (hi : i < ts.size) :
    g.declared.Ensures ts i fun _ j => i < j ∧ j < ts.size := by
  have hbound := hg.bound
  refine .accept hts hi (by simp) (fun _ hi₁ => ?_) ?_
  · refine (ensures_separated (A := fun _ _ _ => True) hts (fun _ _ _ _ _ _ _ _ => trivial)
      (fun k hk hks => ensures_nameText hts _ hks) (Nat.le_refl (i + 1)) hi₁ (by omega)).bind ?_
    rintro targets j ⟨hj, hjs, -⟩
    exact .expect hts hjs (by simp) fun _ hj₁ => ensures_pure ⟨by omega, hj₁⟩
  · exact .expectName hts hi fun _ _ hi₁ => ensures_pure ⟨Nat.lt_succ_self i, hi₁⟩

theorem ensures_initializer {needed : Bool} (hlo : lo ≤ i) (hi : i < ts.size) :
    (g.initializer needed).Ensures ts i fun e j =>
      i ≤ j ∧ j < ts.size ∧ ∀ x ∈ e, (Node.expr x).Placed ts i j := by
  refine .accept hts hi (by simp) (fun _ hi₁ => ?_) ?_
  · refine (reads_expressionExpr hts hg (by omega) hi₁).bind ?_
    rintro e j ⟨hj, hjs, he⟩
    refine ensures_pure ⟨by omega, hjs, ?_⟩
    rintro _ ⟨rfl⟩
    exact he.mono (Nat.le_succ i) (Nat.le_refl j)
  · rw [if_neg Bool.false_ne_true]
    split
    · exact ensures_failExpected hi
    · exact ensures_pure ⟨Nat.le_refl i, hi, by simp⟩

theorem reads_varDecl (hlo : lo ≤ i + 1) (hi : i < ts.size)
    (hk : (tokenIn ts i).kind ≠ .endOfFile) : Reads .varDecl ts g.varDecl i := by
  refine .next hts hi hk fun hi₁ => ?_
  refine (ensures_declared hts hg hlo hi₁).bind ?_
  rintro ⟨name, targets⟩ j ⟨hj, hjs⟩
  refine (ensures_initializer hts hg (by omega) hjs).bind ?_
  rintro e k ⟨hk, hks, he⟩
  refine .spanFrom hks (ensures_pure ⟨by omega, hks, ?_⟩)
  refine Node.placed_of_tokens (by omega) hks rfl trivial ?_
  have he' : ∀ x ∈ e, (Node.expr x).Placed ts i k := fun x hx => (he x hx).mono (by omega) (Nat.le_refl k)
  cases e <;> cases name <;> simp_all

theorem reads_enumDecl (hlo : lo ≤ i + 1) (hi : i < ts.size)
    (hk : (tokenIn ts i).kind ≠ .endOfFile) : Reads .enumDecl ts g.enumDecl i := by
  have hbound := hg.bound
  refine .next hts hi hk fun hi₁ => ?_
  refine .expectName hts hi₁ fun name _ hi₂ => ?_
  refine .expect hts hi₂ (by simp) fun _ hi₃ => ?_
  refine (ensures_separated (A := fun _ _ _ => True) hts (fun _ _ _ _ _ _ _ _ => trivial)
    (fun k hk hks => ensures_nameText hts _ hks) (Nat.le_refl (i + 1 + 1 + 1)) hi₃ (by omega)).bind ?_
  rintro variants j ⟨hj, hjs, -⟩
  refine .expect hts hjs (by simp) fun _ hj₁ => .spanFrom hj₁ (ensures_pure ⟨by omega, hj₁, ?_⟩)
  exact Node.placed_of_tokens (by omega) hj₁ rfl trivial (by simp)

theorem ensures_returnedValue (hlo : lo ≤ i) (hi : i < ts.size) :
    g.returnedValue.Ensures ts i fun e j =>
      i ≤ j ∧ j < ts.size ∧ ∀ x ∈ e, (Node.expr x).Placed ts i j := by
  have hlook {kind : TokenKind} {f : Bool → Parse Bool} (hf : ∀ b, (f b).Ensures ts i fun _ j => j = i) :
      (looksAt kind >>= f).Ensures ts i fun _ j => j = i := .looksAt hi (fun _ => hf true) fun _ => hf false
  have hend : atStatementEnd.Ensures ts i fun _ j => j = i :=
    hlook fun _ => hlook fun _ => hlook fun _ => ensures_pure rfl
  refine hend.bind ?_
  rintro atEnd j rfl
  cases atEnd with
  | true => exact ensures_pure ⟨Nat.le_refl j, hi, by simp⟩
  | false =>
    refine (reads_expressionExpr hts hg (by omega) hi).bind ?_
    rintro e k ⟨hk, hks, he⟩
    refine ensures_pure ⟨by omega, hks, ?_⟩
    rintro _ ⟨rfl⟩
    exact he

theorem reads_returnStmt (hlo : lo ≤ i + 1) (hi : i < ts.size)
    (hk : (tokenIn ts i).kind ≠ .endOfFile) : Reads .stmt ts g.returnStmt i := by
  refine .next hts hi hk fun hi₁ => ?_
  refine (ensures_returnedValue hts hg hlo hi₁).bind ?_
  rintro e j ⟨hj, hjs, he⟩
  refine .spanFrom hjs (ensures_pure ⟨by omega, hjs, ?_⟩)
  refine Node.placed_of_tokens (by omega) hjs rfl trivial ?_
  have he' : ∀ x ∈ e, (Node.expr x).Placed ts i j := fun x hx => (he x hx).mono (by omega) (Nat.le_refl j)
  cases e <;> simp_all

/-! ## Imports and exports -/

omit hg in
theorem reads_exchangedName (hi : i < ts.size) : Reads .exchanged ts exchangedName i := by
  have halias {k : Nat} (hk : k < ts.size) : altName.Ensures ts k fun _ j => k ≤ j ∧ j < ts.size := by
    refine .accept hts hk (by simp) (fun _ hk₁ => ?_) ?_
    · exact .expectName hts hk₁ fun _ _ hk₂ => ensures_pure ⟨by omega, hk₂⟩
    · exact ensures_pure ⟨Nat.le_refl k, hk⟩
  refine .expectName hts hi fun name _ hi₁ => ?_
  refine (halias hi₁).bind ?_
  rintro altName j ⟨hj, hjs⟩
  refine .spanFrom hjs (ensures_pure ⟨by omega, hjs, ?_⟩)
  refine Node.placed_of_tokens (by omega) hjs rfl trivial ?_
  cases altName <;> simp

theorem ensures_importedNames (hlo : lo ≤ i) (hi : i < ts.size) :
    g.importedNames.Ensures ts i fun r j =>
      i < j ∧ j < ts.size ∧ ∀ n ∈ r.1, (Node.exchanged n).Placed ts i j := by
  have hbound := hg.bound
  refine .accept hts hi (by simp) (fun _ hi₁ => ?_) ?_
  · exact ensures_pure ⟨Nat.lt_succ_self i, hi₁, List.forall_mem_nil _⟩
  · refine (ensures_commaList hts (widens_placed .exchanged ts)
      (fun k _ hk => reads_exchangedName hts hk) hlo hi (by omega)).bind ?_
    rintro names j ⟨hj, hjs, hnames⟩
    exact ensures_pure ⟨hj, hjs, hnames⟩

omit hg in
theorem ensures_modulePath (hi : i < ts.size) :
    modulePath.Ensures ts i fun _ j => i < j ∧ j < ts.size := by
  refine .peek hi ?_
  split
  · next path hpath =>
    exact .next hts hi (by simp [hpath]) fun hi₁ => ensures_pure ⟨Nat.lt_succ_self i, hi₁⟩
  · exact ensures_failExpected hi

theorem reads_importStmt (hlo : lo ≤ i + 1) (hi : i < ts.size)
    (hk : (tokenIn ts i).kind ≠ .endOfFile) :
    Reads (fun m => .stmt (.importNames m)) ts g.importStmt i := by
  have hnamed {k j : Nat} {names : List ExchangedName} (everything : Bool) (path : Text) (style : ImportStyle)
      (hik : i < k) (hj : k ≤ j) (hjs : j < ts.size)
      (hnames : ∀ n ∈ names, (Node.exchanged n).Placed ts k j) :
      (do return (⟨← spanFrom (tokenIn ts i), path, names, everything, style⟩ : Import) : Parse Import).Ensures
        ts j fun m j => i < j ∧ j < ts.size ∧ (Node.stmt (.importNames m)).Placed ts i j := by
    refine .spanFrom hjs (ensures_pure ⟨by omega, hjs, ?_⟩)
    refine Node.placed_of_tokens (by omega) hjs rfl trivial ?_
    simpa using fun n hn => (hnames n hn).mono (by omega) (Nat.le_refl j)
  refine .next hts hi hk fun hi₁ => ?_
  refine (ensures_modulePath hts hi₁).bind ?_
  rintro path j ⟨hj, hjs⟩
  split
  · refine .expect hts hjs (by simp) fun _ hj₁ => ?_
    refine (ensures_importedNames hts hg (by omega) hj₁).bind ?_
    rintro ⟨names, everything⟩ l ⟨hl, hls, hnames⟩
    exact hnamed everything path .fromPath (by omega) (by omega) hls hnames
  · refine .looksAt hjs (fun hword => ?_) fun _ => ?_
    · refine .next hts hjs (by simp [hword]) fun hj₁ => ?_
      refine (ensures_importedNames hts hg (by omega) hj₁).bind ?_
      rintro ⟨names, everything⟩ l ⟨hl, hls, hnames⟩
      exact hnamed everything path .expose (by omega) (by omega) hls hnames
    · refine .spanFrom hjs (ensures_pure ⟨by omega, hjs, ?_⟩)
      exact Node.placed_of_tokens (by omega) hjs rfl trivial (by simp)

theorem ensures_exportedFunction (hlo : lo ≤ i + 1) (hi : i < ts.size) :
    g.exportedFunction.Ensures ts i fun f j =>
      i < j ∧ j < ts.size ∧ (Node.function f).Placed ts i j ∧ f.name.isSome := by
  refine (reads_functionDef hts hg hlo hi).bind ?_
  rintro f j ⟨hj, hjs, hf⟩
  extract_lets finish
  by_cases hname : f.name.isNone
  · rw [if_pos hname]
    exact .failAt (hf.within.mono (Nat.zero_le i) (Nat.le_of_lt hjs))
  · rw [if_neg hname]
    exact ensures_pure ⟨hj, hjs, hf, by simpa [Option.isSome_iff_ne_none] using hname⟩

theorem reads_exportStmt (hlo : lo ≤ i + 1) (hi : i < ts.size)
    (hk : (tokenIn ts i).kind ≠ .endOfFile) : Reads .stmt ts g.exportStmt i := by
  have hbound := hg.bound
  have hdeclared {j : Nat} {d : Declaration} (hj : i + 1 < j) (hjs : j < ts.size)
      (hd : ∀ c ∈ (NodeField.ofDeclaration d).children, c.Placed ts (i + 1) j)
      (hform : ∀ s, (Node.stmt (.exportDeclared s d)).WellFormed) :
      (do return .exportDeclared (← spanFrom (tokenIn ts i)) d : Parse Stmt).Ensures ts j
        fun s j => i < j ∧ j < ts.size ∧ (Node.stmt s).Placed ts i j := by
    refine .spanFrom hjs (ensures_pure ⟨by omega, hjs, ?_⟩)
    refine Node.placed_of_tokens (by omega) hjs rfl (hform _) fun c hc => ?_
    have hc' : c ∈ (NodeField.ofDeclaration d).children := by simpa using hc
    exact (hd c hc').mono (Nat.le_succ i) (Nat.le_refl j)
  have hbindings (hk : (tokenIn ts (i + 1)).kind ≠ .endOfFile) (hi₁ : i + 1 < ts.size) :
      (do let d ← g.varDecl
          return .exportDeclared (← spanFrom (tokenIn ts i)) (.bindings d) : Parse Stmt).Ensures ts (i + 1)
        fun s j => i < j ∧ j < ts.size ∧ (Node.stmt s).Placed ts i j := by
    refine (reads_varDecl hts hg (by omega) hi₁ hk).bind ?_
    rintro d j ⟨hj, hjs, hd⟩
    exact hdeclared hj hjs (by simpa using hd) fun _ => trivial
  have hfunction (hi₁ : i + 1 < ts.size) :
      (do let f ← g.exportedFunction
          return .exportDeclared (← spanFrom (tokenIn ts i)) (.function f) : Parse Stmt).Ensures ts (i + 1)
        fun s j => i < j ∧ j < ts.size ∧ (Node.stmt s).Placed ts i j := by
    refine (ensures_exportedFunction hts hg (by omega) hi₁).bind ?_
    rintro f j ⟨hj, hjs, hf, hname⟩
    exact hdeclared hj hjs (by simpa using hf) fun _ => hname
  refine .next hts hi hk fun hi₁ => .peek hi₁ ?_
  split
  · next h => exact hbindings (by simp [h]) hi₁
  · next h => exact hbindings (by simp [h]) hi₁
  · next h =>
    refine (reads_enumDecl hts hg (by omega) hi₁ (by simp [h])).bind ?_
    rintro d j ⟨hj, hjs, hd⟩
    exact hdeclared hj hjs (by simpa using hd) fun _ => trivial
  · exact hfunction hi₁
  · exact hfunction hi₁
  · refine (ensures_commaList hts (widens_placed .exchanged ts) (fun k _ hk => reads_exchangedName hts hk)
      hlo hi₁ (by omega)).bind ?_
    rintro names j ⟨hj, hjs, hnames⟩
    refine .spanFrom hjs (ensures_pure ⟨by omega, hjs, ?_⟩)
    refine Node.placed_of_tokens (by omega) hjs rfl trivial ?_
    simpa using fun n hn => (hnames n hn).mono (Nat.le_succ i) (Nat.le_refl j)

omit hts hg in
/-- A declaration by itself is a statement. -/
theorem placed_declaration {d : VarDecl} {j : Nat} (hd : (Node.varDecl d).Placed ts i j) :
    (Node.stmt (.bindings d)).Placed ts i j := by
  cases hd with
  | mk ha hb hs hsize _ hchildren => exact .mk ha hb hs hsize trivial hchildren

omit hts hg in
theorem placed_enumeration {d : EnumDecl} {j : Nat} (hd : (Node.enumDecl d).Placed ts i j) :
    (Node.stmt (.enum d)).Placed ts i j := by
  cases hd with
  | mk ha hb hs hsize _ hchildren => exact .mk ha hb hs hsize trivial hchildren

omit hts hg in
theorem placed_expression {e : Expr} {j : Nat} (he : (Node.expr e).Placed ts i j) :
    (Node.stmt (.expression e.span e)).Placed ts i j := by
  obtain ⟨a, b, ha, hb, hsize, hs, hplaced⟩ := he.covers
  exact .mk ha hb hs hsize trivial (by simpa using hplaced)

theorem reads_stmt (hlo : lo ≤ i + 1) (hi : i < ts.size) : Reads .stmt ts g.stmt i := by
  have hbindings (hk : (tokenIn ts i).kind ≠ .endOfFile) :
      Reads .stmt ts (do return .bindings (← g.varDecl)) i := by
    refine (reads_varDecl hts hg hlo hi hk).bind ?_
    rintro d j ⟨hj, hjs, hd⟩
    exact ensures_pure ⟨hj, hjs, placed_declaration hd⟩
  have himport (hk : (tokenIn ts i).kind ≠ .endOfFile) :
      Reads .stmt ts (do return .importNames (← g.importStmt)) i := by
    refine (reads_importStmt hts hg hlo hi hk).bind ?_
    rintro m j hm
    exact ensures_pure hm
  refine .peek hi ?_
  split
  · next h => exact hbindings (by simp [h])
  · next h => exact hbindings (by simp [h])
  · next h => exact reads_returnStmt hts hg hlo hi (by simp [h])
  · next h =>
    refine .next hts hi (by simp [h]) fun hi₁ => ensures_pure ⟨Nat.lt_succ_self i, hi₁, ?_⟩
    exact placed_token hi₁ rfl trivial rfl
  · next h =>
    refine .next hts hi (by simp [h]) fun hi₁ => ensures_pure ⟨Nat.lt_succ_self i, hi₁, ?_⟩
    exact placed_token hi₁ rfl trivial rfl
  · next h =>
    refine .next hts hi (by simp [h]) fun hi₁ => ?_
    refine (reads_expressionExpr hts hg (by omega) hi₁).bind ?_
    rintro e j ⟨hj, hjs, he⟩
    refine .spanFrom hjs (ensures_pure ⟨by omega, hjs, ?_⟩)
    refine Node.placed_of_tokens (by omega) hjs rfl trivial ?_
    simpa using he.mono (Nat.le_succ i) (Nat.le_refl j)
  · next h =>
    refine (reads_enumDecl hts hg hlo hi (by simp [h])).bind ?_
    rintro d j ⟨hj, hjs, hd⟩
    exact ensures_pure ⟨hj, hjs, placed_enumeration hd⟩
  · next h => exact himport (by simp [h])
  · next h => exact himport (by simp [h])
  · next h => exact reads_exportStmt hts hg hlo hi (by simp [h])
  · refine (reads_expressionExpr hts hg hlo hi).bind ?_
    rintro e j ⟨hj, hjs, he⟩
    exact ensures_pure ⟨hj, hjs, placed_expression he⟩

end

/-! ## Levels -/

theorem worksFrom_above (hts : Ended ts) (hg : g.WorksFrom ts (lo + 1)) : g.above.WorksFrom ts lo where
  bound := by
    have hbound := hg.bound
    show ts.size ≤ lo + (g.bound + 1)
    omega
  expression hlo hi := reads_expressionExpr hts hg (by omega) hi
  ternary hlo hi := reads_ternaryExpr hts hg (by omega) hi
  binary least hlo hi := reads_binaryExpr hts hg least (by omega) hi
  unary hlo hi := reads_unaryExpr hts hg (by omega) hi
  operand hlo hi := reads_operandExpr hts hg (by omega) hi
  ifElse hlo hi hk := reads_conditional hts hg (by omega) hi (by simp [hk])
  statement hlo hi := reads_stmt hts hg (by omega) hi

/-- The grammar of a level does its work from each position with no more tokens ahead. -/
theorem worksFrom_ofLevel (hts : Ended ts) (n : Nat) (hn : ts.size ≤ lo + n) :
    (ofLevel n).WorksFrom ts lo := by
  induction n generalizing lo with
  | zero =>
    -- no position that is left has a token
    have hnone {i : Nat} {P : Prop} (hlo : lo ≤ i) (hi : i < ts.size) : P := by omega
    exact ⟨hn, hnone, hnone, fun _ => hnone, hnone, hnone, fun hlo hi _ => hnone hlo hi, hnone⟩
  | succ n ih => exact worksFrom_above hts (ih (by omega))

/-! ## Programs -/

theorem ensures_programStatements (hts : Ended ts) (hg : g.WorksFrom ts 0) (hi : i < ts.size) :
    g.programStatements.Ensures ts i fun ss j =>
      i ≤ j ∧ j + 1 = ts.size ∧ ∀ s ∈ ss, (Node.stmt s).Placed ts i j := by
  have hbound := hg.bound
  refine (ensures_many (N := fun j => (tokenIn ts j).kind = .endOfFile) (widens_placed .stmt ts)
    (fun k _ hk => ?_) (Nat.zero_le i) hi (by omega)).mono ?_
  · refine .looksAt hk (fun hend => ensures_pure (.inr ⟨rfl, rfl, hend⟩)) fun _ => ?_
    refine (hg.statement (Nat.zero_le k) hk).bind ?_
    rintro s j ⟨hkj, hj, hs⟩
    refine (ensures_skipSemicolons hts hj (by omega)).bind ?_
    rintro _ l ⟨hjl, hl⟩
    exact ensures_pure (.inl ⟨s, rfl, by omega, hl, hs.mono (Nat.le_refl k) hjl⟩)
  · rintro ss j ⟨hij, hj, hend, hss⟩
    exact ⟨hij, (hts.last hj).1 hend, hss⟩

/-- A program is made of all tokens up to the end of file. -/
theorem ensures_program (hts : Ended ts) {n : Nat} (hn : ts.size ≤ n) (file : Option Text) :
    ((ofLevel n).program file).Ensures ts 0 fun p j =>
      j + 1 = ts.size ∧ (Node.program p).Placed ts 0 ts.size := by
  have hg : (ofLevel n).WorksFrom ts 0 := worksFrom_ofLevel hts n (by omega)
  have hbound := hg.bound
  refine .peek hts.pos ((ensures_skipSemicolons hts hts.pos hbound).bind ?_)
  rintro _ j ⟨-, hj⟩
  refine (ensures_programStatements hts hg hj).bind ?_
  rintro ss k ⟨hjk, hk, hss⟩
  refine .spanFrom (by omega) (ensures_pure ⟨hk, ?_⟩)
  -- a program without tokens has the span of the end of file
  have hcovers : (⟨(tokenIn ts 0).span.start, (tokenIn ts (k - 1)).span.stop⟩ : Span).Covers ts 0 (max k 1) :=
    ⟨by omega, rfl, by rw [show max k 1 - 1 = k - 1 by omega]⟩
  refine .mk (Nat.le_refl 0) (by omega) hcovers (by omega) trivial ?_
  have hss' : ∀ s ∈ ss, (Node.stmt s).Placed ts 0 (max k 1) := fun s hs =>
    (hss s hs).mono (Nat.zero_le j) (by omega)
  cases file <;> simpa using hss'

end ScriptEngine.Grammar

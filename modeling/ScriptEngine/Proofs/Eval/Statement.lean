import ScriptEngine.Proofs.Eval.Construct

/-!
# Contracts of statements, modules and calls

* A **program** that is run ends its own jumps, so that no jump leaves the evaluation of a module
  (`Contract.meets_runProgram`).
* A **statement** exposes the jump that it is, and what its parts expose.
* A **call** checks the constraints of the function at the depth of the caller and runs the body one
  deeper (`Contract.meetsAt_callClosure`). The jumps of the body end there, those of the constraints do
  not.
-/

namespace ScriptEngine

namespace Contract

open Eval

variable {C D : Contract} {I J : Interp} {frame : Nat} {v : Value} {m : Machine} {d : VarDecl}

/-! ## Modules -/

theorem keeps_recordFile {file : Option Text} : C.Keeps (Interp.recordFile frame file) := by
  refine keeps_get.bind fun m => ?_
  split
  · exact .ite (fun _ => keeps_modifyHeap fun _ => rfl) fun _ => keeps_pure
  · exact keeps_pure

/-- A program ends by no jump, whatever its statements expose. -/
theorem Governs.runAdmitted (G : C.Governs I J) {p : Program} (hp : C.admits (.program p)) :
    C.Meets (I.runProgram p frame) (J.runProgram p frame) := by
  have hstmts (s : Stmt) (hs : s ∈ p.statements) : C.admits (.stmt s) :=
    C.admits_child hp (Node.mem_children (.head _) (List.mem_map_of_mem hs))
  refine keeps_recordFile.bind fun _ => ?_
  refine meets_attempt (G.execAdmitted hstmts frame) (fun _ => keeps_pure) (fun e he => ?_) fun e _ => ?_
  · cases e with
    | returned v s => exact keeps_pure
    | broke s => exact isPlain_outsideLoop.keeps
    | continued s => exact isPlain_outsideLoop.keeps
    | _ => exact absurd rfl he.jump
  · cases e with
    | returned v s => exact keeps_pure
    | broke s => exact isPlain_outsideLoop.keeps
    | continued s => exact isPlain_outsideLoop.keeps
    | thrown v s => exact isPlain_quotedForm.keeps.bind fun _ => keeps_exit rfl
    | _ => exact keeps_raising

theorem Governs.runProgram [C.Universal] (G : C.Governs I J) {p : Program} :
    C.Meets (I.runProgram p frame) (J.runProgram p frame) := G.runAdmitted (Universal.admits _)

/-- An evaluation that goes on with a program that was parsed. -/
theorem meets_parse_bind {α : Type} {source : Text} {file : Option Text} {f g : Program → Eval α}
    (hf : ∀ p, Program.parse source file = .ok p → C.Meets (f p) (g p)) :
    C.Meets (Eval.parse source file >>= f) (Eval.parse source file >>= g) := by
  cases hp : Program.parse source file with
  | ok p =>
    have hparse : Eval.parse source file = pure p := by rw [Eval.parse, hp]
    rw [hparse, pure_bind, pure_bind]
    exact hf p hp
  | error e =>
    have hparse : Eval.parse source file = Eval.exit (e.exit source) := by rw [Eval.parse, hp]
    rw [hparse]
    exact keeps_exit (α := α) (jump?_exit source e)

theorem Governs.runModule (G : C.Governs I J) {p : Path} :
    C.Meets (I.runModule p) (J.runModule p) := by
  refine keeps_get.bind fun m => ?_
  split
  · exact keeps_crash
  · exact meets_parse_bind fun _ hp => .bind (keeps_onHeap fun _ => rfl) fun _ =>
      (G.runAdmitted (G.loads.parsed hp)).bind fun _ => keeps_pure

/-- A load, given what is done for the file of the module. -/
theorem Governs.loadModule (G : C.Governs I J) {path : Text} {importer : Option Text}
    {span : Option Span} : C.Meets (I.loadModule path importer span) (J.loadModule path importer span) := by
  intro m hm
  cases hp : m.settings.resolve path importer with
  | error e =>
    obtain ⟨e, he⟩ := Interp.resolveModule_of_error span hp
    have hexit : C.exits e m := C.exits_plain (isPlain_resolveModule.jump he)
    rw [MeetsAt, Interp.loadModule, Interp.loadModule, bind_error he, bind_error he]
    exact ⟨rfl, hm, step_refl, hexit⟩
  | ok p =>
    rw [MeetsAt, Interp.loadModule_run I span hp, Interp.loadModule_run J span hp]
    split
    · exact ⟨rfl, G.loads.reuse hm⟩
    · next hfirst =>
      split
      · exact keeps_fail m hm
      · next hidle =>
        obtain ⟨he, ha⟩ := G.runModule _ (G.loads.enter hm hp hfirst hidle)
        rw [he]
        refine ⟨rfl, ?_⟩
        cases hj : J.runModule p (m.entering p) with
        | ok f m' =>
          rw [hj] at ha
          exact G.loads.leave (some f) hidle ha.1 ha.2
        | error e m' =>
          rw [hj] at ha
          obtain ⟨hholds, hstep⟩ := G.loads.leave none hidle ha.1 ha.2.1
          exact ⟨hholds, hstep, G.loads.exits ha.2.2⟩

/-! ## Statements -/

theorem keeps_destructure {items : List Value} : C.Keeps (Interp.destructure d items frame) :=
  meets_forM fun _ _ => keeps_define

theorem meets_declareVariables (h : ∀ e ∈ d.initializer, C.Evals I J frame e) :
    C.Meets (I.declareVariables d frame) (J.declareVariables d frame) := by
  unfold Interp.declareVariables
  extract_lets k
  have hk : ∀ v, C.Keeps (k v) := by
    intro v
    unfold k
    split
    · exact keeps_define.bind fun _ => keeps_pure
    · exact isPlain_arrayItems.keeps.bind fun _ => keeps_destructure.bind fun _ => keeps_pure
    · exact keeps_failWith.bind fun _ => keeps_pure
  split
  · next e he => exact (h e he).bind hk
  · exact keeps_pure.bind hk

theorem keeps_declareEnum {d : EnumDecl} : C.Keeps (Interp.declareEnum d frame) :=
  isPlain_freshTag.keeps.bind fun _ => isPlain_freshVariants.keeps.bind fun _ =>
    .bind (keeps_modify fun _ => .of_heap_eq rfl rfl rfl rfl rfl) fun _ =>
      isPlain_newObject.keeps.bind fun _ => keeps_define.bind fun _ => keeps_pure

theorem keeps_importName {path : Text} {moduleFrame : Nat} {n : ExchangedName} :
    C.Keeps (Interp.importName path moduleFrame frame n) := by
  refine keeps_heap.bind fun h => ?_
  split
  · exact keeps_define
  · exact isPlain_notExported.keeps

theorem Governs.importNames (G : C.Governs I J) {i : Import} :
    C.Meets (I.importNames i frame) (J.importNames i frame) := by
  refine keeps_heap.bind fun h => G.loadModule.bind fun moduleFrame => ?_
  extract_lets k
  have hk : ∀ u, C.Keeps (k u) := fun _ => keeps_pure
  refine .ite (fun _ => keeps_heap.bind fun _ => ?_) fun _ => ?_
  · exact (meets_forM fun _ _ => keeps_define).bind hk
  · exact (meets_forM fun _ _ => keeps_importName).bind hk

/-- A declaration, given what is done for the expression that it may hold. -/
theorem meets_declare {d : Declaration}
    (h : ∀ b e, d = .bindings b → e ∈ b.initializer → C.Evals I J frame e)
    (hf : ∀ f, d = .function f → C.admits (.function f)) :
    C.Meets (I.declare d frame) (J.declare d frame) := by
  cases d with
  | bindings b => exact meets_declareVariables fun e he => h b e rfl he
  | enum d => exact keeps_declareEnum
  | function f => exact keeps_function (hf f rfl)

/-- One statement. A jump exposes itself. -/
theorem Governs.stmt (G : C.Governs I J) {s : Stmt} (hs : C.admits (.stmt s)) (frame : Nat) :
    (C.within [.stmt s]).Meets (I.stmt s frame) (J.stmt s frame) := by
  have hpart {e : Expr} (he : .expr e ∈ (Node.stmt s).parts) :
      (C.within [.stmt s]).Evals I J frame e := G.part hs he
  have hexposed {e : Exit} {j : Jump × Span} (hj : e.jump? = some j) (hx : (Node.stmt s).Exposes j) :
      (C.within [.stmt s]).Keeps (Eval.exit e : Eval Value) :=
    keeps_exit_of_exits fun _ => .inl ⟨_, .head _, j, hj, hx⟩
  cases s with
  | expression s e => exact hpart (.head _)
  | bindings d => exact meets_declareVariables fun e he => hpart (Node.mem_parts_bindings he)
  | returnValue s e =>
    cases e with
    | none => exact keeps_pure.bind fun _ => hexposed rfl .returnValue
    | some e => exact (hpart (.head _)).bind fun _ => hexposed rfl .returnValue
  | breakLoop s => exact hexposed rfl .breakLoop
  | continueLoop s => exact hexposed rfl .continueLoop
  | throwValue s e => exact (hpart (.head _)).bind fun _ => keeps_exit rfl
  | enum d => exact keeps_declareEnum
  | importNames i => exact G.importNames.allowing
  | exportDeclared s d =>
    refine (meets_declare (fun b e hb he => ?_) fun f hf => ?_).bind fun v =>
      (meets_forM fun _ _ => keeps_declareExport).bind fun _ => keeps_pure
    · subst hb
      have hmem := Node.mem_parts_varDecl he
      exact G.evals (C.admits_part (C.admits_part hs (.head _)) hmem) fun _ hx =>
        .part (.head _) (.part hmem hx)
    · subst hf
      exact C.admits_part hs (.head _)
  | exportNames s names => exact (meets_forM fun _ _ => keeps_declareExport).bind fun _ => keeps_pure

/-- Statements in order. -/
theorem Governs.stmts (G : C.Governs I J) {ss : List Stmt} (hss : ∀ s ∈ ss, C.admits (.stmt s))
    (frame : Nat) : (C.within (ss.map .stmt)).Meets (I.stmts frame ss) (J.stmts frame ss) := by
  have hstmt {s : Stmt} (hs : s ∈ ss) :
      (C.within (ss.map .stmt)).Meets (I.stmt s frame) (J.stmt s frame) :=
    (G.stmt (hss s hs) frame).within_of_mem (List.mem_map_of_mem hs)
  -- the contract is that of all the statements, so the induction is on those still to come
  suffices h : ∀ rest, rest ⊆ ss →
      (C.within (ss.map .stmt)).Meets (I.stmts frame rest) (J.stmts frame rest) from
    h ss fun _ => id
  intro rest hrest
  induction rest with
  | nil => exact keeps_pure
  | cons s rest ih =>
    have hs := hstmt (hrest (.head _))
    cases rest with
    | nil => exact hs
    | cons t rest => exact hs.bind fun _ => ih fun _ h => hrest (.tail _ h)

/-! ## Calls -/

variable {c : Closure} {args : List Value} {span : Option Span}

theorem keeps_bindParameters : C.Keeps (Interp.bindParameters c frame args span) := by
  unfold Interp.bindParameters
  split
  · exact keeps_failWith
  · refine meets_forM fun ⟨name, argument⟩ _ => ?_
    cases argument with
    | one v => exact keeps_pure.bind fun _ => keeps_define
    | rest vs => exact isPlain_newArray.keeps.bind fun _ => keeps_define

theorem GovernsExprs.checkParameter (G : C.GovernsExprs I J) {p : Parameter}
    (hp : C.admits (.parameter p)) : (C.within [.parameter p]).Meets
      (I.checkParameter c frame span p) (J.checkParameter c frame span p) := by
  unfold Interp.checkParameter
  split
  · exact keeps_pure
  · next e he =>
    refine (G.part hp (Node.mem_parts_predicate he)).bind fun test => ?_
    refine (meets_evalList fun e he => G.part hp (Node.mem_parts_predicateArgs he)).bind fun extra => ?_
    refine keeps_readHeap.bind fun argument => (G.calls _ _ _).bind fun result => ?_
    split
    · exact keeps_pure
    · exact isPlain_quotedForm.keeps.bind fun _ => keeps_fail

theorem GovernsExprs.checkClause (G : C.GovernsExprs I J) {clause : Expr}
    (hclause : C.admits (.expr clause)) : (C.within [.expr clause]).Meets
      (I.checkClause c frame span clause) (J.checkClause c frame span clause) := by
  refine (G.evalAdmitted hclause frame).bind fun result => ?_
  split <;> simp

/-- The constraints of a function are checked within them. -/
theorem GovernsExprs.checkConstraints (G : C.GovernsExprs I J)
    (hc : C.admits (.function c.definition)) (frame : Nat) (span : Option Span) :
    (C.within c.definition.constraints).Meets (I.checkConstraints c frame span)
      (J.checkConstraints c frame span) := by
  have hconstraint {n : Node} (hn : n ∈ c.definition.constraints) : C.admits n :=
    C.admits_child hc (Node.constraints_subset_children _ hn)
  refine (meets_forM fun p hp => ?_).bind fun _ => meets_forM fun e he => ?_
  · have hmem : .parameter p ∈ c.definition.constraints :=
      List.mem_append_left _ (List.mem_map_of_mem hp)
    exact (G.checkParameter (hconstraint hmem)).within_of_mem hmem
  · have hmem : .expr e ∈ c.definition.constraints :=
      List.mem_append_right _ (List.mem_map_of_mem he)
    exact (G.checkClause (hconstraint hmem)).within_of_mem hmem

/-- A body ends by no jump, whatever jumps its statements end by. -/
theorem meets_body {d : Nat} {E : Exit → Prop} (B : C.Encloses D (d + 1)) (hm : C.holds m)
    (hd : m.depth = d) (hE : ∀ e, E e → e.jump? ≠ none) {x y : Eval Value}
    (hx : (D.allowing E).Meets x y) :
    C.Meets (do let outcome ← Eval.deeper d x; Interp.bodyResult c span outcome)
      (do let outcome ← Eval.deeper d y; Interp.bodyResult c span outcome) := by
  simp only [Eval.deeper, bind_assoc, pure_bind]
  refine meets_enclosed B _ _ hm (fun _ => ⟨.of_heap_eq rfl rfl rfl rfl, rfl⟩)
    (fun _ => ⟨.of_heap_eq rfl rfl rfl rfl, hd.symm⟩) hx (fun _ => keeps_pure) (fun e he => ?_) fun e _ => ?_
  · cases e with
    | returned v s => exact keeps_pure
    | broke s => exact isPlain_outsideLoop.keeps
    | continued s => exact isPlain_outsideLoop.keeps
    | _ => exact absurd rfl (hE _ he)
  · cases e with
    | returned v s => exact keeps_pure
    | broke s => exact isPlain_outsideLoop.keeps
    | continued s => exact isPlain_outsideLoop.keeps
    | crashed failure =>
      obtain ⟨kind, message⟩ := failure
      cases kind with
      | recursion => exact isPlain_failWith.keeps
      | _ => exact keeps_raising
    | _ => exact keeps_raising

/-- A call of a function by two interpreters that do the same for its constraints and, one call deeper,
for its body. -/
theorem meets_callClosure
    (hcheck : ∀ frame, (C.within c.definition.constraints).Meets (I.checkConstraints c frame span)
      (J.checkConstraints c frame span))
    (hbody : ∀ m, C.holds m → m.depth < m.settings.callLimit.count →
      ∃ D, C.Encloses D (m.depth + 1) ∧ ∀ frame,
        (D.within (c.definition.body.statements.map .stmt)).Meets
          (I.exec c.definition.body.statements frame) (J.exec c.definition.body.statements frame)) :
    (C.within c.definition.constraints).Meets (I.callClosure c args span)
      (J.callClosure c args span) := by
  refine meets_get_bind fun m hm => .ite (fun _ => keeps_failWith) fun hd => ?_
  obtain ⟨D, B, hexec⟩ := hbody m hm (Nat.lt_of_not_le hd)
  refine keeps_childFrame.bind fun frame => keeps_bindParameters.bind fun _ =>
    (hcheck frame).bind fun _ => ?_
  rw [← bind_assoc, ← bind_assoc]
  exact (meets_body B.allowing hm rfl (fun _ => Exit.ExposedBy.jump) (hexec frame)).bind fun _ =>
    isPlain_checkPredicate.keeps

/-- A call of any value. The functions that are called are those of the heap. -/
theorem meets_apply {f : Value}
    (hclosure : ∀ m id c, f.payload = .function id → C.holds m → c ∈ m.heap.closures →
      C.MeetsAt m (I.callClosure c args span) (J.callClosure c args span))
    (hnative : ∀ n, f.payload = .native n → C.Meets (n.call I args span) (n.call J args span)) :
    C.Meets (I.apply f args span) (J.apply f args span) := by
  unfold Interp.apply
  split
  · next id hf =>
    refine meets_heap_bind fun m hm => ?_
    split
    · next c hc => exact hclosure m id c hf hm (Array.mem_of_getElem? hc)
    · exact keeps_pure m hm
  · next n hn => exact hnative n hn
  · unfold Interp.construct
    split <;> simp
  · exact keeps_failWith

theorem governs_exhausted (hloads : C.Loads) : C.Governs .exhausted .exhausted :=
  ⟨⟨fun _ _ => keeps_exhausted, fun _ _ _ => keeps_exhausted⟩, hloads, rfl, fun _ _ => keeps_exhausted⟩

end Contract

end ScriptEngine

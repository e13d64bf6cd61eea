import ScriptEngine.Proofs.Eval.Calling
import ScriptEngine.Proofs.Eval.OwnFrame
import ScriptEngine.Proofs.Program.Initialized
import ScriptEngine.Proofs.Session.Constants

/-!
# Declarations with a pattern

A pattern between brackets takes an array apart: each of its names stands for the element at its place. A pattern
without names is not told from a declaration of a single name (`empty_pattern_takes_any_value`), so that all of this is
about patterns with names.

* **Frames** (`Frame.Destructures`, `Frame.Offers`): what the declaration and its export do to their frame.
* **Steps**: several names are declared (`Eval.forM_define`) or exported (`Eval.forM_declareExport`) one after the
  other, each leaving the others as they are.
* **Patterns bind their names** (`Interp.patterns_bind_names`): the declaration, exported or not, does this and nothing
  else.
-/

namespace ScriptEngine

/-! ## Frames -/

namespace Frame

/-- Names have been declared in a frame, and nothing else has changed. -/
structure Declares (f f' : Frame) (values : List (Text × Value)) (constant : Bool) : Prop where
  bound : ∀ x ∈ values, f'.bindings.get? (some x.1) = some x.2
  others : ∀ n, (∀ x ∈ values, n ≠ some x.1) → f'.bindings.get? n = f.bindings.get? n
  constants : f'.constants = f.constants ++ if constant then values.map fun x => some x.1 else []
  rest : { f' with bindings := f.bindings, constants := f.constants } = f

/-- The names of a pattern have been declared in a frame, each for the element at its place, or for null if there is
none, and nothing else has changed. -/
structure Destructures (f f' : Frame) (d : VarDecl) (items : List Value) : Prop where
  bound : ∀ i (hi : i < d.targets.length), f'.bindings.get? (some d.targets[i]) = some (items.getD i .null)
  others : ∀ n, (∀ t ∈ d.targets, n ≠ some t) → f'.bindings.get? n = f.bindings.get? n
  constants : f'.constants = f.constants ++ if d.isConst then d.targets.map some else []
  rest : { f' with bindings := f.bindings, constants := f.constants } = f

/-- A frame offers names under which it binds them, besides what it offered, and nothing else has changed. -/
structure Offers (f f' : Frame) (names : List Text) : Prop where
  offered : ∀ t ∈ names, f'.exports.get? (some t) = some (some t)
  others : ∀ n, (∀ t ∈ names, n ≠ some t) → f'.exports.get? n = f.exports.get? n
  rest : { f' with exports := f.exports } = f

variable {f f' f'' : Frame} {x : Text × Value} {values : List (Text × Value)} {constant : Bool} {name : Text}
  {names : List Text}

/-- A frame with a further name declared. -/
def declare (f : Frame) (x : Text × Value) (constant : Bool) : Frame :=
  { f with bindings := f.bindings.insert (some x.1) x.2,
           constants := if constant then f.constants ++ [some x.1] else f.constants }

/-- A frame with a further name offered. -/
def offer (f : Frame) (name : Text) : Frame := { f with exports := f.exports.insert (some name) (some name) }

theorem Declares.refl (f : Frame) (constant : Bool) : f.Declares f [] constant :=
  ⟨by simp, fun _ _ => rfl, by simp, rfl⟩

theorem Declares.cons (h : (f.declare x constant).Declares f' values constant) (hx : x.1 ∉ values.map Prod.fst) :
    f.Declares f' (x :: values) constant where
  bound := by
    refine List.forall_mem_cons.2 ⟨?_, h.bound⟩
    have hlater : ∀ y ∈ values, (some x.1 : BindingName) ≠ some y.1 := fun y hy he =>
      hx (Option.some.inj he ▸ List.mem_map_of_mem hy)
    rw [h.others _ hlater, declare, OrderedMap.get?_insert, if_pos rfl]
  others n hn := by
    obtain ⟨hne, hrest⟩ := List.forall_mem_cons.1 hn
    rw [h.others n hrest, declare, OrderedMap.get?_insert, if_neg hne]
  constants := by
    rw [h.constants, declare]
    cases constant <;> simp
  rest := by
    have hrest := congrArg (fun g : Frame => { g with bindings := f.bindings, constants := f.constants }) h.rest
    exact hrest

theorem Offers.refl (f : Frame) : f.Offers f [] := ⟨by simp, fun _ _ => rfl, rfl⟩

theorem Offers.cons (h : (f.offer name).Offers f' names) (hbefore : name ∉ names) :
    f.Offers f' (name :: names) where
  offered := by
    refine List.forall_mem_cons.2 ⟨?_, h.offered⟩
    have hlater : ∀ t ∈ names, (some name : BindingName) ≠ some t := fun t ht he => hbefore (Option.some.inj he ▸ ht)
    rw [h.others _ hlater, offer, OrderedMap.get?_insert, if_pos rfl]
  others n hn := by
    obtain ⟨hne, hrest⟩ := List.forall_mem_cons.1 hn
    rw [h.others n hrest, offer, OrderedMap.get?_insert, if_neg hne]
  rest := congrArg (fun g : Frame => { g with exports := f.exports }) h.rest

end Frame

namespace Heap

variable {h : Heap} {F : Nat} {f : Frame}

/-- A heap with another frame in a place. -/
def setFrame (h : Heap) (F : Nat) (f : Frame) : Heap := h.modifyFrame F fun _ => f

theorem setFrame_frame (h : Heap) (F : Nat) : h.setFrame F (h.frame F) = h := by
  have hframes : h.frames.modify F (fun _ => h.frame F) = h.frames := by
    refine Array.ext (Array.size_modify ..) fun i hi hi' => ?_
    rw [Array.getElem_modify]
    split
    · next hF =>
      subst hF
      rw [frame, Array.getD_eq_getD_getElem?, Array.getElem?_eq_getElem hi', Option.getD_some]
    · rfl
  exact congrArg (fun frames => { h with frames := frames }) hframes

theorem frame_setFrame (hF : F < h.frames.size) : (h.setFrame F f).frame F = f := by
  rw [setFrame, frame_modifyFrame, if_pos ⟨rfl, hF⟩]

theorem modifyFrame_setFrame (g : Frame → Frame) : (h.setFrame F f).modifyFrame F g = h.setFrame F (g f) := by
  have hframes : (h.frames.modify F fun _ => f).modify F g = h.frames.modify F fun _ => g f := by
    refine Array.ext (by simp) fun i hi hi' => ?_
    simp only [Array.getElem_modify]
    split <;> rfl
  exact congrArg (fun frames => { h with frames := frames }) hframes

end Heap

/-! ## Declarations and exports of several names -/

namespace Eval

variable {F : Nat} {m : Machine} {f : Frame} {constant : Bool} {span : Option Span} {values : List (Text × Value)}
  {names : List Text}

theorem define_setFrame {x : Text × Value} (hF : F < m.heap.frames.size) (hx : some x.1 ∉ f.constants) :
    define F (some x.1) x.2 constant span (m.withHeap (m.heap.setFrame F f)) =
      .ok () (m.withHeap (m.heap.setFrame F (f.declare x constant))) := by
  have hfree : (m.heap.setFrame F f).isConstant F (some x.1) = false := by
    rw [Heap.isConstant, Heap.frame_setFrame hF]
    simpa using hx
  show (if (m.heap.setFrame F f).isConstant F (some x.1) then _ else _ : Eval Unit) _ = _
  rw [hfree]
  show EStateM.Result.ok () (m.withHeap ((m.heap.setFrame F f).bind F (some x.1) x.2 constant)) = _
  rw [Heap.bind, Heap.modifyFrame_setFrame]
  rfl

/-- Names that do not repeat and are no constants are declared one after the other. -/
theorem forM_define (hF : F < m.heap.frames.size) (hnames : (values.map Prod.fst).Nodup)
    (hfree : ∀ x ∈ values, some x.1 ∉ f.constants) :
    ∃ f', f.Declares f' values constant ∧
      values.forM (fun x => define F (some x.1) x.2 constant span) (m.withHeap (m.heap.setFrame F f)) =
        .ok () (m.withHeap (m.heap.setFrame F f')) := by
  induction values generalizing f with
  | nil => exact ⟨f, .refl f constant, rfl⟩
  | cons x values ih =>
    rw [List.map_cons, List.nodup_cons] at hnames
    obtain ⟨hx, hrest⟩ := List.forall_mem_cons.1 hfree
    -- the later names are other ones, so that they have not become constants
    have hlater : ∀ y ∈ values, some y.1 ∉ (f.declare x constant).constants := by
      intro y hy hmem
      have hne : y.1 ≠ x.1 := fun he => hnames.1 (he ▸ List.mem_map_of_mem hy)
      rw [Frame.declare] at hmem
      cases constant with
      | false => exact hrest y hy hmem
      | true =>
        obtain hmem | hmem := List.mem_append.1 hmem
        · exact hrest y hy hmem
        · exact hne (Option.some.inj (List.mem_singleton.1 hmem))
    obtain ⟨f', hdeclares, hrun⟩ := ih hnames.2 hlater
    refine ⟨f', hdeclares.cons hnames.1, (forM_cons_ok ?_).trans hrun⟩
    exact define_setFrame hF hx

theorem declareExport_setFrame {name : Text} (hF : F < m.heap.frames.size)
    (hbound : f.bindings.contains (some name) = true) :
    declareExport F (some name) none span (m.withHeap (m.heap.setFrame F f)) =
      .ok () (m.withHeap (m.heap.setFrame F (f.offer name))) := by
  have hoffer : (m.heap.setFrame F f).declareExport F (some name) none span =
      .ok (m.heap.setFrame F (f.offer name)) := by
    rw [Heap.declareExport, Heap.frame_setFrame hF, if_pos hbound]
    exact congrArg Except.ok (Heap.modifyFrame_setFrame _)
  have hread : readHeap (·.declareExport F (some name) none span) (m.withHeap (m.heap.setFrame F f)) =
      .ok (m.heap.setFrame F (f.offer name)) (m.withHeap (m.heap.setFrame F f)) := readHeap_ok hoffer
  rw [declareExport, bind_ok hread]
  rfl

/-- Names that are bound are offered one after the other. -/
theorem forM_declareExport (hF : F < m.heap.frames.size) (hnames : names.Nodup)
    (hbound : ∀ t ∈ names, f.bindings.contains (some t) = true) :
    ∃ f', f.Offers f' names ∧
      names.forM (fun t => declareExport F (some t) none span) (m.withHeap (m.heap.setFrame F f)) =
        .ok () (m.withHeap (m.heap.setFrame F f')) := by
  induction names generalizing f with
  | nil => exact ⟨f, .refl f, rfl⟩
  | cons t names ih =>
    rw [List.nodup_cons] at hnames
    obtain ⟨ht, hrest⟩ := List.forall_mem_cons.1 hbound
    obtain ⟨f', hoffers, hrun⟩ := ih (f := f.offer t) hnames.2 hrest
    refine ⟨f', hoffers.cons hnames.1, (forM_cons_ok ?_).trans hrun⟩
    exact declareExport_setFrame hF ht

end Eval

/-! ## Declarations with a pattern -/

namespace Interp

open Eval

variable {I : Interp} {d : VarDecl} {e : Expr} {F id : Nat} {m m' : Machine} {v : Value} {span : Span}

/-- The names of a pattern with the elements at their places. -/
def patternValues (d : VarDecl) (items : List Value) : List (Text × Value) :=
  d.targets.zipIdx.map fun (t, i) => (t, items.getD i .null)

theorem map_patternValues (d : VarDecl) (items : List Value) : (patternValues d items).map Prod.fst = d.targets := by
  rw [patternValues, List.map_map]
  exact List.zipIdx_map_fst 0 d.targets

theorem destructures_of_declares {f f' : Frame} {items : List Value}
    (h : f.Declares f' (patternValues d items) d.isConst) : f.Destructures f' d items where
  bound i hi := by
    refine h.bound (d.targets[i], items.getD i .null) (List.mem_map.2 ⟨(d.targets[i], i), ?_, rfl⟩)
    exact List.mk_mem_zipIdx_iff_getElem?.2 (List.getElem?_eq_getElem hi)
  others n hn := h.others n fun x hx => hn x.1 (map_patternValues d items ▸ List.mem_map_of_mem hx)
  constants := by
    rw [h.constants, ← map_patternValues d items, List.map_map]
    rfl
  rest := h.rest

/-- The elements of an array are bound to the names of a pattern. -/
theorem destructure_ok (items : List Value) (hF : F < m.heap.frames.size) (hnames : d.targets.Nodup)
    (hfree : ∀ t ∈ d.targets, some t ∉ (m.heap.frame F).constants) :
    ∃ f', (m.heap.frame F).Destructures f' d items ∧
      destructure d items F m = .ok () (m.withHeap (m.heap.setFrame F f')) := by
  have hfree' : ∀ x ∈ patternValues d items, some x.1 ∉ (m.heap.frame F).constants := fun x hx =>
    hfree x.1 (map_patternValues d items ▸ List.mem_map_of_mem hx)
  rw [← map_patternValues d items] at hnames
  obtain ⟨f', hdeclares, hrun⟩ : ∃ f', (m.heap.frame F).Declares f' (patternValues d items) d.isConst ∧
      (patternValues d items).forM (fun x => Eval.define F (some x.1) x.2 d.isConst d.span)
        (m.withHeap (m.heap.setFrame F (m.heap.frame F))) = .ok () (m.withHeap (m.heap.setFrame F f')) :=
    forM_define hF hnames hfree'
  have hsteps : destructure d items F =
      forM (patternValues d items) fun x => Eval.define F (some x.1) x.2 d.isConst d.span := by
    rw [patternValues, List.forM_map]
    rfl
  rw [Heap.setFrame_frame] at hrun
  exact ⟨f', destructures_of_declares hdeclares, (congrFun hsteps m).trans hrun⟩

/-- A declaration with a pattern goes on with its initial value: it takes an array apart, and fails for anything
else. -/
theorem declareVariables_eq (hpattern : d.targets ≠ []) (hinit : d.initializer = some e) :
    ∃ k : Value → Eval Value, I.declareVariables d F = (I.eval e F >>= k) ∧
      (∀ v id, v.payload = .array id → k v = (do
        destructure d (← Eval.arrayItems id) F
        return v)) ∧
      ∀ v, v.kind ≠ .array → k v = (do
        Eval.failWith .type ("cannot destructure a " ++ v.typeName) d.span
        return v) := by
  unfold declareVariables
  extract_lets k
  refine ⟨k, by rw [hinit], fun v id hv => ?_, fun v hv => ?_⟩
  all_goals
    unfold k
    split
  · next h => exact absurd h hpattern
  · next h _ =>
    cases hv.symm.trans h
    rfl
  · next h => exact (h _ hv).elim
  · next h => exact absurd h hpattern
  · next h _ => exact absurd (congrArg Payload.kind h) hv
  · rfl

/-- The fault of a pattern for a value that is no array. -/
def mismatch (d : VarDecl) (v : Value) : Fault :=
  { kind := .type, message := "cannot destructure a " ++ v.typeName, span := d.span }

/-- For a value that is no array, a declaration with a pattern fails, and has done nothing after its initial value. -/
theorem declareVariables_fails (hpattern : d.targets ≠ []) (hinit : d.initializer = some e)
    (he : I.eval e F m = .ok v m') (hv : v.kind ≠ .array) :
    I.declareVariables d F m = .error (.failed (.fault (mismatch d v))) m' := by
  obtain ⟨k, hrun, -, hk⟩ := declareVariables_eq (I := I) (F := F) hpattern hinit
  rw [hrun, bind_ok he, hk v hv]
  rfl

/-- For an array, a declaration with a pattern binds the names of the pattern. -/
theorem declareVariables_binds (hpattern : d.targets ≠ []) (hinit : d.initializer = some e)
    (he : I.eval e F m = .ok v m') (hv : v.payload = .array id) (hF : F < m'.heap.frames.size)
    (hnames : d.targets.Nodup) (hfree : ∀ t ∈ d.targets, some t ∉ (m'.heap.frame F).constants) :
    ∃ f', (m'.heap.frame F).Destructures f' d (m'.heap.array id).toList ∧
      I.declareVariables d F m = .ok v (m'.withHeap (m'.heap.setFrame F f')) := by
  obtain ⟨k, hrun, hk, -⟩ := declareVariables_eq (I := I) (F := F) hpattern hinit
  obtain ⟨f', hf', hdestructure⟩ := destructure_ok (m'.heap.array id).toList hF hnames hfree
  refine ⟨f', hf', ?_⟩
  have hitems : Eval.arrayItems id m' = .ok (m'.heap.array id).toList m' := rfl
  rw [hrun, bind_ok he, hk v id hv, bind_ok hitems, bind_ok hdestructure]
  rfl

/-- The names of a pattern can be exported once they are bound, and nothing else is. -/
theorem exportDeclared_binds {f f' : Frame} {items : List Value} (hpattern : d.targets ≠ [])
    (hF : F < m'.heap.frames.size) (hnames : d.targets.Nodup) (hf' : f.Destructures f' d items)
    (hrun : I.declareVariables d F m = .ok v (m'.withHeap (m'.heap.setFrame F f'))) :
    ∃ f'', f'.Offers f'' d.targets ∧
      I.stmt (.exportDeclared span (.bindings d)) F m = .ok v (m'.withHeap (m'.heap.setFrame F f'')) := by
  have hbound : ∀ t ∈ d.targets, f'.bindings.contains (some t) = true := by
    intro t ht
    obtain ⟨i, hi, rfl⟩ := List.getElem_of_mem ht
    exact OrderedMap.contains_iff.2 (OrderedMap.mem_keys_iff.2 ⟨_, hf'.bound i hi⟩)
  obtain ⟨f'', hf'', hoffer⟩ : ∃ f'', f'.Offers f'' d.targets ∧
      d.targets.forM (fun t => Eval.declareExport F (some t) none span) (m'.withHeap (m'.heap.setFrame F f')) =
        .ok () (m'.withHeap (m'.heap.setFrame F f'')) := Eval.forM_declareExport hF hnames hbound
  refine ⟨f'', hf'', ?_⟩
  have hoffers : ((declaredNames (.bindings d)).forM fun name => Eval.declareExport F name none span)
      (m'.withHeap (m'.heap.setFrame F f')) = .ok () (m'.withHeap (m'.heap.setFrame F f'')) := by
    rw [declaredNames, if_neg hpattern, ← hoffer]
    exact congrFun (List.forM_map (m := Eval)) _
  rw [stmt]
  exact (bind_ok hrun).trans ((bind_ok hoffers).trans rfl)

/-- A declaration with a pattern that has names, all different. In a program it has an initial value: at the tokens of
the pattern without one, the parser stops. Where its names are no constants of the frame, the declaration, exported or
not, fails for an initial value that is no array, with nothing done after it. For an array it binds each name of the
pattern to the element at its place, or to null, and no other name, and an export offers these names and no others. -/
theorem patterns_bind_names {d : VarDecl} (hpattern : d.targets ≠ []) (hnames : d.targets.Nodup) :
    (∀ (source : Text) (file : Option Text) (p : Program) (node : Node), Program.parse source file = .ok p →
      (Node.program p).Contains node → node.Declares d → ∃ e, d.initializer = some e) ∧
    (∀ (g : Grammar) (ts : Array Token) (i : Nat) (k : TokenKind) (rest : List TokenKind),
      d.targets.length < g.bound → rest.headD .endOfFile ≠ .symbol .assign →
      Sees ts i (k :: (Grammar.patternKinds d.targets ++ rest)) →
      ∃ j, Sees ts j rest ∧
        g.varDecl ts i = .error (.rejected (.misplaced "'=' and an initializer" (tokenIn ts j)))) ∧
    ∀ (n F : Nat) (e : Expr) (m m' : Machine) (v : Value) (span : Span), d.initializer = some e →
      F < m.heap.frames.size → (∀ t ∈ d.targets, some t ∉ (m.heap.frame F).constants) →
      (ofLevel n).eval e F m = .ok v m' →
      (v.kind ≠ .array →
        (ofLevel n).stmt (.bindings d) F m = .error (.failed (.fault (mismatch d v))) m' ∧
        (ofLevel n).stmt (.exportDeclared span (.bindings d)) F m = .error (.failed (.fault (mismatch d v))) m') ∧
      ∀ id, v.payload = .array id →
        ∃ f', (m'.heap.frame F).Destructures f' d (m'.heap.array id).toList ∧
          (ofLevel n).stmt (.bindings d) F m = .ok v (m'.withHeap (m'.heap.setFrame F f')) ∧
          ∃ f'', f'.Offers f'' d.targets ∧
            (ofLevel n).stmt (.exportDeclared span (.bindings d)) F m =
              .ok v (m'.withHeap (m'.heap.setFrame F f'')) := by
  refine ⟨fun source file p node hp hnode hd => ?_, fun g ts i k rest hbound hrest hs => ?_,
    fun n F e m m' v span hinit hF hfree he => ⟨fun hv => ?_, fun id hv => ?_⟩⟩
  · exact Option.isSome_iff_exists.1 ((Program.initialized_of_parse hp).of_contains hnode d hd hpattern)
  · exact Grammar.varDecl_rejects hpattern hbound hrest hs
  · have hfails := declareVariables_fails hpattern hinit he hv
    exact ⟨hfails, bind_error hfails⟩
  · -- the initial value may have bound names in the frame, but has made none of them a constant
    obtain ⟨hF', hconstants⟩ := addsNoConstant_eval n e F m hF
    rw [after_of_ok he] at hF' hconstants
    obtain ⟨f', hf', hrun⟩ := declareVariables_binds hpattern hinit he hv hF' hnames (hconstants ▸ hfree)
    exact ⟨f', hf', hrun, exportDeclared_binds hpattern hF' hnames hf' hrun⟩

/-- A pattern of two names for an array of one element. -/
def shortPattern : VarDecl :=
  { span := .unknown, name := none, initializer := some (.array .unknown [.literal .unknown (.bool true)]),
    isConst := false, targets := ["a", "b"] }

/-- The second name of the pattern stands for null. -/
theorem patterns_bind_names_short :
    shortPattern.targets ≠ [] ∧ shortPattern.targets.Nodup ∧
    ∃ v m', (ofLevel 2).stmt (.bindings shortPattern) Session.mainFrame (Session.blank {} []) = .ok v m' ∧
      (m'.heap.frame Session.mainFrame).bindings.get? (some "a") = some (.plain (.bool true)) ∧
      (m'.heap.frame Session.mainFrame).bindings.get? (some "b") = some .null := by
  have hpattern : shortPattern.targets ≠ [] := by decide
  have hnames : shortPattern.targets.Nodup := by decide
  have he : (ofLevel 2).eval (.array .unknown [.literal .unknown (.bool true)]) Session.mainFrame
      (Session.blank {} []) = .ok (.plain (.array 0)) ((Session.blank {} []).withHeap
        ((Session.blank {} []).heap.newArray #[.plain (.bool true)]).2) := rfl
  obtain ⟨-, -, hruns⟩ := patterns_bind_names hpattern hnames
  obtain ⟨-, harray⟩ := hruns 2 Session.mainFrame _ _ _ _ .unknown rfl (by decide) (by decide) he
  obtain ⟨f', hf', hrun, -⟩ := harray 0 rfl
  refine ⟨hpattern, hnames, _, _, hrun, ?_⟩
  rw [Machine.withHeap, Heap.frame_setFrame (by decide)]
  exact ⟨hf'.bound 0 (by decide), hf'.bound 1 (by decide)⟩

end Interp

namespace Session

/-- A pattern without names needs no initial value. For a number the declaration does not fail, since what comes after
it is run: it binds the nameless name. -/
theorem empty_pattern_takes_any_value :
    let m := afterSource "let [] = 5\nlet after = 6" (blank {} [])
    (Program.parse "let []" none).toOption.isSome ∧
    (m.heap.frame mainFrame).bindings.keys = [none, some ("after" : Text)] := by
  rw [Text.ofString_ofList]
  decide +kernel

end Session

end ScriptEngine

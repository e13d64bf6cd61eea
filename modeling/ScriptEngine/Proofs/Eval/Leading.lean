import ScriptEngine.Proofs.Eval.Calling
import ScriptEngine.Proofs.Eval.Native

/-!
# Where evaluations lead

Partial correctness of evaluations from a machine.

* **Leading** (`Eval.Leads x m Q R`): if `x` gives a value from `m`, then one as `Q` says, and if it ends by a
  return, then by one as `R` says; it ends by no other jump. There is a rule for each way to build an evaluation.
* **Expressions that only read** (`Interp.OnlyReads`) add cells at most (`leads_eval`).
* **Functions without effects** (`Heap.Effectless`): their calls add cells and frames at most. A function whose
  body is an expression that only reads is one (`effectless_function`).
-/

namespace ScriptEngine

/-- What a heap has is there as it was. -/
abbrev Heap.Kept (h : Heap) {α : Type} (_ : α) (m : Machine) : Prop := h.Extends m.heap

namespace Eval

variable {α β ι : Type} {x : Eval α} {f : α → Eval β} {m m' : Machine} {a : α} {e : Exit} {Q Q' : α → Machine → Prop}
  {P : β → Machine → Prop} {R R' : Value → Machine → Prop}

/-- A value that an evaluation gives, and one that it ends with by a return, are as asked with the machines that
they come with. No other jump ends it. -/
structure Leads (x : Eval α) (m : Machine) (Q : α → Machine → Prop) (R : Value → Machine → Prop) : Prop where
  gives : ∀ {a m'}, x m = .ok a m' → Q a m'
  leaves : ∀ {e m'}, x m = .error e m' → e.jump? = none ∨ ∃ v s, e = .returned v s ∧ R v m'

/-! ## Rules -/

theorem leads_of_ok (hx : x m = .ok a m') (ha : Q a m') : x.Leads m Q R where
  gives h := by
    rw [hx] at h
    cases h
    exact ha
  leaves h := by
    rw [hx] at h
    cases h

theorem leads_of_error (hx : x m = .error e m') (he : e.jump? = none) : x.Leads m Q R where
  gives h := by
    rw [hx] at h
    cases h
  leaves h := by
    rw [hx] at h
    cases h
    exact .inl he

theorem leads_pure (ha : Q a m) : (pure a : Eval α).Leads m Q R := leads_of_ok rfl ha

theorem leads_exit (he : e.jump? = none) : (exit e : Eval α).Leads m Q R := leads_of_error rfl he

theorem leads_fail {fault : Fault} : (fail fault : Eval α).Leads m Q R := leads_exit rfl

theorem leads_failWith {kind : FaultKind} {message : Text} {span : Option Span} :
    (failWith kind message span : Eval α).Leads m Q R := leads_exit rfl

theorem Leads.bind (hx : x.Leads m Q R) (hf : ∀ a m', Q a m' → (f a).Leads m' P R) : (x >>= f).Leads m P R := by
  cases h : x m with
  | ok a m' =>
    have hfa := hf a m' (hx.gives h)
    exact ⟨fun h' => hfa.gives (by rwa [bind_ok h] at h'), fun h' => hfa.leaves (by rwa [bind_ok h] at h')⟩
  | error e m' =>
    refine ⟨fun h' => ?_, fun h' => ?_⟩
    · rw [bind_error h] at h'
      cases h'
    · rw [bind_error h] at h'
      cases h'
      exact hx.leaves h

/-- What an evaluation leads to depends on its result alone. -/
theorem Leads.congr {y : Eval α} (h : x m = y m') (hy : y.Leads m' Q R) : x.Leads m Q R :=
  ⟨fun hx => hy.gives (h ▸ hx), fun hx => hy.leaves (h ▸ hx)⟩

/-- An evaluation whose first step is known. -/
theorem leads_bind_ok (hx : x m = .ok a m') (hf : (f a).Leads m' P R) : (x >>= f).Leads m P R where
  gives h := hf.gives (by rwa [bind_ok hx] at h)
  leaves h := hf.leaves (by rwa [bind_ok hx] at h)

theorem Leads.mono (hx : x.Leads m Q R) (hQ : ∀ a m', Q a m' → Q' a m') (hR : ∀ v m', R v m' → R' v m') :
    x.Leads m Q' R' where
  gives h := hQ _ _ (hx.gives h)
  leaves h := (hx.leaves h).imp_right fun ⟨v, s, he, hv⟩ => ⟨v, s, he, hR _ _ hv⟩

theorem leads_ite {p : Prop} [Decidable p] {y : Eval α} (ht : p → x.Leads m Q R) (hf : ¬p → y.Leads m Q R) :
    (if p then x else y).Leads m Q R := by
  split
  · next h => exact ht h
  · next h => exact hf h

/-- An evaluation that looks at the machine. -/
theorem leads_get {k : Machine → Eval β} (hk : (k m).Leads m P R) : (get >>= k).Leads m P R :=
  ⟨hk.gives, hk.leaves⟩

theorem leads_heap {k : Heap → Eval β} (hk : (k m.heap).Leads m P R) : (heap >>= k).Leads m P R :=
  ⟨hk.gives, hk.leaves⟩

theorem leads_readHeap {r : Heap → Except Fault α} :
    (readHeap r).Leads m (fun a m' => m' = m ∧ r m.heap = .ok a) R := by
  cases h : r m.heap with
  | ok a => exact leads_of_ok (readHeap_ok h) ⟨rfl, rfl⟩
  | error fault => exact leads_of_error (readHeap_error h) rfl

theorem leads_readEndless {r : Heap → Option α} : (readEndless r).Leads m (fun _ m' => m' = m) R := by
  refine leads_heap ?_
  cases r m.heap with
  | some a => exact leads_pure rfl
  | none => exact leads_exit rfl

theorem leads_forM {f : ι → Eval Unit} {xs : List ι} {J : Machine → Prop} (hm : J m)
    (hf : ∀ i ∈ xs, ∀ m, J m → (f i).Leads m (fun _ m' => J m') R) : (xs.forM f).Leads m (fun _ m' => J m') R := by
  induction xs generalizing m with
  | nil => exact leads_pure hm
  | cons i xs ih =>
    exact (hf i (.head _) m hm).bind fun _ m' hm' => ih hm' fun j hj => hf j (.tail _ hj)

theorem leads_mapM {f : ι → Eval α} {xs : List ι} {J : Machine → Prop} (hm : J m)
    (hf : ∀ i m, J m → (f i).Leads m (fun _ m' => J m') R) : (xs.mapM f).Leads m (fun _ m' => J m') R := by
  induction xs generalizing m with
  | nil => exact leads_pure hm
  | cons i xs ih =>
    rw [List.mapM_cons]
    exact (hf i m hm).bind fun _ m' hm' => (ih hm').bind fun _ m'' hm'' => leads_pure hm''

end Eval

namespace Interp

open Eval

variable {I : Interp} {m : Machine} {R : Value → Machine → Prop} {J : Machine → Prop} {x : Eval Value}

/-! ## Loops -/

/-- A round that ends by no jump but a return goes on. -/
theorem leads_round (hx : x.Leads m (fun _ m' => J m') R) : (Interp.round x).Leads m (fun _ m' => J m') R := by
  cases h : x m with
  | ok v m' =>
    have hround : Interp.round x m = .ok true m' := by
      rw [Interp.round, bind_ok (attempt_ok h)]
      rfl
    exact leads_of_ok hround (hx.gives h)
  | error e m' =>
    -- what is no break and no next round goes through
    have hround : Interp.round x m = .error e m' := by
      rw [Interp.round, bind_ok (attempt_error h)]
      obtain he | ⟨v, s, rfl, -⟩ := hx.leaves h
      · cases e <;> first | rfl | cases he
      · rfl
    refine ⟨fun h' => ?_, fun h' => ?_⟩
    · rw [hround] at h'
      cases h'
    · rw [hround] at h'
      cases h'
      exact hx.leaves h

theorem leads_rounds {test : Eval Bool} (hm : J m) (htest : ∀ m, J m → test.Leads m (fun _ m' => J m') R)
    (hx : ∀ m, J m → x.Leads m (fun _ m' => J m') R) (fuel : Nat) :
    (rounds test x fuel).Leads m (fun _ m' => J m') R := by
  induction fuel generalizing m with
  | zero => exact leads_exit rfl
  | succ n ih =>
    refine (htest m hm).bind fun goes m₁ hm₁ => leads_ite (fun _ => ?_) fun _ => leads_pure hm₁
    exact (leads_round (hx m₁ hm₁)).bind fun goes m₂ hm₂ => leads_ite (fun _ => ih hm₂) fun _ => leads_pure hm₂

section

variable {turn : Value → Value → Eval Bool}

theorem leads_forEach (hm : J m) (hturn : ∀ i item m, J m → (turn i item).Leads m (fun _ m' => J m') R)
    (items : List (Value × Value)) : (forEach turn items).Leads m (fun _ m' => J m') R := by
  induction items generalizing m with
  | nil => exact leads_pure hm
  | cons x rest ih =>
    exact (hturn _ _ m hm).bind fun goes m' hm' => leads_ite (fun _ => ih hm') fun _ => leads_pure hm'

theorem leads_forNumbers (hm : J m) (hturn : ∀ i item m, J m → (turn i item).Leads m (fun _ m' => J m') R)
    {p : Progression} {i left : Nat} : (forNumbers turn p i left).Leads m (fun _ m' => J m') R := by
  induction left generalizing m i with
  | zero => exact leads_pure hm
  | succ n ih => exact (hturn _ _ m hm).bind fun goes m' hm' => leads_ite (fun _ => ih hm') fun _ => leads_pure hm'

end

theorem leads_condition {e : Expr} {F : Nat} {construct : Text} (he : (I.eval e F).Leads m (fun _ m' => J m') R) :
    (I.condition e F construct).Leads m (fun _ m' => J m') R := by
  refine he.bind fun v m' hm' => ?_
  cases v.payload <;> first | exact leads_pure hm' | exact leads_failWith

/-! ## Expressions that only read -/

/-- An expression that is made of literals, names, operators and elements. -/
inductive OnlyReads : Expr → Prop
  | literal (s : Span) (l : Literal) : OnlyReads (.literal s l)
  | name (s : Span) (n : Text) : OnlyReads (.name s n)
  | arith {s : Span} {l r : Expr} {op : ArithOp} (hl : OnlyReads l) (hr : OnlyReads r) :
      OnlyReads (.binary s l (.arith op) r)
  | compare {s : Span} {l r : Expr} {op : CompareOp} (hl : OnlyReads l) (hr : OnlyReads r) :
      OnlyReads (.binary s l (.compare op) r)
  | unary {s : Span} {op : UnaryOp} {e : Expr} (he : OnlyReads e) : OnlyReads (.unary s op e)
  | index {s : Span} {object index : Expr} (ho : OnlyReads object) (hi : OnlyReads index) :
      OnlyReads (.index s object index)

section

variable {span : Span} {v w index : Value} {h : Heap} (hm : h.Extends m.heap)

include hm

theorem leads_newArray {items : Array Value} : (Eval.newArray items).Leads m h.Kept R :=
  leads_of_ok rfl (hm.trans (Heap.extends_newArray _ _))

theorem leads_reading {α : Type} {r : Heap → Except Fault α} : (readHeap r).Leads m h.Kept R :=
  leads_readHeap.mono (fun _ _ hr => by rw [Heap.Kept, hr.1]; exact hm) fun _ _ h => h

theorem leads_arithmetic {op : ArithOp} {v w : Value} {s : Span} : (arithmetic op v w s).Leads m h.Kept R := by
  unfold arithmetic
  split
  · exact leads_exit rfl
  · exact leads_reading hm

theorem leads_gathered {source : Value} {picked : List Value} : (gathered source picked).Leads m h.Kept R := by
  unfold gathered
  split
  · exact leads_pure hm
  · exact leads_newArray hm

theorem leads_indexIn {depth : Nat} : (indexIn span depth v index).Leads m h.Kept R := by
  induction depth generalizing m index with
  | zero => exact leads_exit rfl
  | succ n ih =>
    have hgathered {id : Nat} : (do
        gathered v (← (← arrayItems id).mapM fun i => indexIn span n v i) : Eval Value).Leads m h.Kept R :=
      Leads.bind (leads_of_ok rfl hm : (arrayItems id).Leads m h.Kept R) fun _ m₁ h₁ =>
        (leads_mapM h₁ fun i m₂ h₂ => ih h₂).bind fun _ m₂ h₂ => leads_gathered h₂
    unfold indexIn
    split
    · exact hgathered
    · exact hgathered
    · exact leads_reading hm

theorem leads_index : (Eval.index v index span).Leads m h.Kept R :=
  leads_heap (leads_indexIn hm)

theorem leads_unary {op : UnaryOp} : (unary op v span).Leads m h.Kept R := by
  unfold unary
  split
  all_goals first
    | exact leads_pure hm
    | exact leads_failWith
    | skip
  refine leads_heap ?_
  cases m.heap.length? v with
  | some n => exact leads_pure hm
  | none => exact leads_fail

/-- What only reads adds arrays at most. -/
theorem leads_eval {e : Expr} (he : OnlyReads e) (n F : Nat) : ((ofLevel n).eval e F).Leads m h.Kept R := by
  induction he generalizing m n with
  | literal s l =>
    cases n with
    | zero => exact leads_exit rfl
    | succ n => exact leads_pure hm
  | name s name =>
    cases n with
    | zero => exact leads_exit rfl
    | succ n => exact leads_reading hm
  | arith hl hr ihl ihr =>
    cases n with
    | zero => exact leads_exit rfl
    | succ n => exact (ihl hm n).bind fun _ m₁ h₁ => (ihr h₁ n).bind fun _ m₂ h₂ => leads_arithmetic h₂
  | compare hl hr ihl ihr =>
    cases n with
    | zero => exact leads_exit rfl
    | succ n =>
      exact (ihl hm n).bind fun _ m₁ h₁ => (ihr h₁ n).bind fun _ m₂ h₂ =>
        (leads_reading h₂).bind fun _ m₃ h₃ => leads_pure h₃
  | unary he ih =>
    cases n with
    | zero => exact leads_exit rfl
    | succ n => exact (ih hm n).bind fun _ m₁ h₁ => leads_unary h₁
  | index ho hi iho ihi =>
    cases n with
    | zero => exact leads_exit rfl
    | succ n =>
      refine (iho hm n).bind fun v m₁ h₁ => ?_
      cases hi <;> exact (ihi h₁ n).bind fun _ m₂ h₂ => leads_index h₂

theorem leads_evalList {es : List Expr} (hes : ∀ e ∈ es, OnlyReads e) (n F : Nat) :
    ((ofLevel n).evalList F es).Leads m h.Kept R := by
  induction es generalizing m with
  | nil => exact leads_pure hm
  | cons e es ih =>
    exact (leads_eval hm (hes e (.head _)) n F).bind fun _ m₁ h₁ =>
      (ih h₁ fun e' he' => hes e' (.tail _ he')).bind fun _ m₂ h₂ => leads_pure h₂

end

/-! ## Functions without effects -/

end Interp

/-- A value without effects: its calls leave everything as it is that is there when they begin, and end by no
jump. -/
def Heap.Effectless (h : Heap) (f : Value) : Prop :=
  ∀ n args span m, h.Adds m.heap →
    ((Interp.ofLevel n).call f args span).Leads m m.heap.Kept fun _ _ => False

theorem Heap.Effectless.adds {h h' : Heap} {f : Value} (hf : h.Effectless f) (hh : h.Adds h') : h'.Effectless f :=
  fun n args span m hm => hf n args span m (hh.trans hm)

namespace Interp

open Eval

variable {h : Heap} {f v : Value} {m : Machine} {R : Value → Machine → Prop} {c : Closure} {args : List Value}
  {span : Option Span} {i n : Nat}

theorem leads_call (hf : m.heap.Effectless f) (hm : h.Extends m.heap) :
    ((ofLevel n).call f args span).Leads m h.Kept R :=
  (hf n args span m (.refl m.heap)).mono (fun _ _ hv => hm.trans hv) fun _ _ => False.elim

/-- A function whose parameters ask for nothing and whose body is an expression that only reads. -/
structure OnlyComputes (d : FunctionDef) : Prop where
  name : d.name = none
  parameters : ∀ p ∈ d.parameters, p.predicate = none
  whereClauses : d.whereClauses = []
  body : ∃ s e, d.body.statements = [.expression s e] ∧ OnlyReads e

/-- A body that ends by an exit that is no jump makes the call end by one. -/
theorem bodyResult_error {e : Exit} (he : e.jump? = none) :
    ∃ e', bodyResult c span (.error e) m = .error e' m ∧ e'.jump? = none := by
  cases e with
  | returned | broke | continued => cases he
  | crashed failure =>
    obtain ⟨kind, message⟩ := failure
    cases kind <;> exact ⟨_, rfl, rfl⟩
  | thrown | failed | exhausted => exact ⟨_, rfl, rfl⟩

/-- The result of a body that ends by no jump. -/
theorem leads_bodyResult {x : Eval Value} {d : Nat}
    (hx : x.Leads (m.withDepth (d + 1)) h.Kept fun _ _ => False) :
    (Eval.deeper d x >>= bodyResult c span).Leads m h.Kept R := by
  obtain ⟨r, m', hr⟩ := endsBy_total x (m.withDepth (d + 1))
  have hdeeper := deeper_ends hr
  cases r with
  | ok v =>
    have hresult : (Eval.deeper d x >>= bodyResult c span) m = .ok v (m'.withDepth d) := by
      rw [bind_ok hdeeper]
      rfl
    have hkept : h.Extends m'.heap := hx.gives hr.ok
    exact leads_of_ok hresult hkept
  | error e =>
    have he := (hx.leaves hr.error).resolve_right (by simp)
    obtain ⟨e', hbody, he'⟩ : ∃ e', bodyResult c span (.error e) (m'.withDepth d) = .error e' (m'.withDepth d) ∧
        e'.jump? = none := bodyResult_error he
    have hresult : (Eval.deeper d x >>= bodyResult c span) m = .error e' (m'.withDepth d) := by
      rw [bind_ok hdeeper, hbody]
    exact leads_of_error hresult he'

section

variable (hm : h.Extends m.heap)

include hm

theorem leads_define {F : Nat} {name : BindingName} (hF : h.frames.size ≤ F) :
    (Eval.define F name v false span).Leads m h.Kept R :=
  leads_heap (leads_ite (fun _ => leads_fail) fun _ => leads_of_ok rfl (hm.bind hF))

theorem leads_bindParameters {F : Nat} (hF : h.frames.size ≤ F) :
    (bindParameters c F args span).Leads m h.Kept R := by
  unfold bindParameters
  split
  · exact leads_failWith
  · refine leads_forM hm fun x _ m₁ h₁ => ?_
    obtain ⟨name, argument⟩ := x
    cases argument with
    | one v => exact leads_define h₁ hF
    | rest vs => exact (leads_newArray h₁).bind fun _ m₂ h₂ => leads_define h₂ hF

theorem leads_checkConstraints {F : Nat} {I : Interp} (hc : OnlyComputes c.definition) :
    (I.checkConstraints c F span).Leads m h.Kept R := by
  rw [checkConstraints, hc.whereClauses]
  refine (leads_forM hm fun p hp m₁ h₁ => ?_).bind fun _ m₁ h₁ => leads_pure h₁
  rw [checkParameter, hc.parameters p hp]
  exact leads_pure h₁

theorem leads_callClosure (hc : OnlyComputes c.definition) :
    ((ofLevel n).callClosure c args span).Leads m h.Kept R := by
  obtain ⟨s, e, hbody, he⟩ := hc.body
  refine leads_get (leads_ite (fun _ => leads_failWith) fun _ => ?_)
  refine leads_bind_ok (childFrame_adding _ _ _) ?_
  have h₁ (fs : List Frame) : h.Extends (m.heap.adding fs) := hm.trans (Heap.extends_adding _ _)
  refine (leads_bindParameters (h₁ _) hm.frames_le).bind fun _ m₂ h₂ =>
    (leads_checkConstraints h₂ hc).bind fun _ m₃ h₃ => ?_
  have hexec : ((ofLevel n).exec c.definition.body.statements m.heap.frames.size).Leads
      (m₃.withDepth (m.depth + 1)) h.Kept fun _ _ => False := by
    cases n with
    | zero => exact leads_exit rfl
    | succ n =>
      rw [hbody]
      exact leads_eval (m := m₃.withDepth (m.depth + 1)) h₃ he n _
  rw [← bind_assoc]
  refine (leads_bodyResult hexec).bind fun v m₄ h₄ => ?_
  rw [checkPredicate, hc.name]
  exact leads_pure h₄

end

/-- A function that only computes has no effects. -/
theorem effectless_function (hi : h.closures[i]? = some c) (hc : OnlyComputes c.definition) :
    h.Effectless (.plain (.function i)) := by
  intro n args span m hm
  cases n with
  | zero => exact leads_exit rfl
  | succ n =>
    exact .congr (call_function (hm.closure hi)) (leads_callClosure (.refl m.heap) hc)

theorem effectless_null : h.Effectless .null := by
  intro n args span m hm
  cases n with
  | zero => exact leads_exit rfl
  | succ n => exact leads_failWith

end Interp

end ScriptEngine

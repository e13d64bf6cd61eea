import ScriptEngine.Proofs.Eval.Leading

/-!
# Where evaluations settle

Total correctness of evaluations: from some amount of fuel on they end in one and the same way.

* `Eval.Settles x m r`: the evaluation `x`, which is given fuel, ends from `m` as `r` says if it has enough. Each
  part of an evaluation may ask for its own amount.
* `Interp.WhileSettles`: a loop that comes to its end. `WhileSettles.next` and `WhileSettles.stop` are its rounds.
* `Machine.Unaffected`: what an evaluation without side effects may do to a machine.
-/

namespace ScriptEngine

namespace Eval

variable {α β : Type} {x : Nat → Eval α} {f : Nat → α → Eval β} {m m' : Machine} {a : α} {e : Exit}
  {r : EStateM.Result Exit Machine α} {s : EStateM.Result Exit Machine β}

/-- From some amount of fuel on an evaluation ends in a given way. -/
def Settles (x : Nat → Eval α) (m : Machine) (r : EStateM.Result Exit Machine α) : Prop :=
  ∃ N, ∀ n, N ≤ n → x n m = r

theorem settles_of_eq (h : ∀ n, x n m = r) : Settles x m r := ⟨0, fun n _ => h n⟩

/-- An evaluation that uses one level of fuel for itself. -/
theorem Settles.succ (h : Settles (fun n => x (n + 1)) m r) : Settles x m r := by
  obtain ⟨N, hN⟩ := h
  refine ⟨N + 1, fun n hn => ?_⟩
  obtain ⟨k, rfl⟩ : ∃ k, n = k + 1 := ⟨n - 1, by omega⟩
  exact hN k (Nat.le_of_succ_le_succ hn)

theorem Settles.bind (hx : Settles x m (.ok a m')) (hf : Settles (fun n => f n a) m' s) :
    Settles (fun n => x n >>= f n) m s := by
  obtain ⟨N, hN⟩ := hx
  obtain ⟨K, hK⟩ := hf
  refine ⟨max N K, fun n hn => ?_⟩
  dsimp only
  rw [bind_ok (hN n (Nat.le_trans (Nat.le_max_left N K) hn))]
  exact hK n (Nat.le_trans (Nat.le_max_right N K) hn)

theorem Settles.bindError (hx : Settles x m (.error e m')) : Settles (fun n => x n >>= f n) m (.error e m') := by
  obtain ⟨N, hN⟩ := hx
  exact ⟨N, fun n hn => bind_error (hN n hn)⟩

theorem Settles.attempt_ok (hx : Settles x m (.ok a m')) :
    Settles (fun n => Eval.attempt (x n)) m (.ok (.ok a) m') := by
  obtain ⟨N, hN⟩ := hx
  exact ⟨N, fun n hn => Eval.attempt_ok (hN n hn)⟩

theorem Settles.attempt_error (hx : Settles x m (.error e m')) :
    Settles (fun n => Eval.attempt (x n)) m (.ok (.error e) m') := by
  obtain ⟨N, hN⟩ := hx
  exact ⟨N, fun n hn => Eval.attempt_error (hN n hn)⟩

/-- There is one way in which an evaluation settles. -/
theorem Settles.unique {r' : EStateM.Result Exit Machine α} (h : Settles x m r) (h' : Settles x m r') : r = r' := by
  obtain ⟨N, hN⟩ := h
  obtain ⟨K, hK⟩ := h'
  exact (hN _ (Nat.le_max_left N K)).symm.trans (hK _ (Nat.le_max_right N K))

end Eval

namespace Interp

open Eval

variable {m m' m'' : Machine} {v w u : Value} {e l i test object : Expr} {F : Nat} {s s' : Span} {b : Block}
  {r : EStateM.Result Exit Machine Value}

/-! ## Expressions -/

section

variable {truth : Bool} {construct : Text}

theorem settles_condition (he : Settles (fun n => (ofLevel n).eval e F) m (.ok v m')) (hv : v.payload = .bool truth) :
    Settles (fun n => (ofLevel n).condition e F construct) m (.ok truth m') := by
  refine he.bind (settles_of_eq fun n => ?_)
  rw [hv]
  rfl

theorem settles_block
    (hbody : Settles (fun n => (ofLevel n).exec b.statements m.heap.frames.size)
      (m.withHeap (m.heap.adding [{ parent := some F, name := "block" }])) r) :
    Settles (fun n => (ofLevel n).block b F) m r :=
  Settles.bind (settles_of_eq fun _ => childFrame_adding F "block" false) hbody

variable {otherwise : Option Expr}

theorem settles_then (htest : Settles (fun n => (ofLevel n).eval test F) m (.ok v m')) (hv : v.payload = .bool true)
    (hb : Settles (fun n => (ofLevel n).block b F) m' r) :
    Settles (fun n => (ofLevel n).eval (.ifElse s test b otherwise) F) m r :=
  Settles.succ ((settles_condition htest hv).bind hb)

theorem settles_else (htest : Settles (fun n => (ofLevel n).eval test F) m (.ok v m')) (hv : v.payload = .bool false)
    (he : Settles (fun n => (ofLevel n).eval e F) m' r) :
    Settles (fun n => (ofLevel n).eval (.ifElse s test b (some e)) F) m r :=
  Settles.succ ((settles_condition htest hv).bind he)

theorem settles_noElse (htest : Settles (fun n => (ofLevel n).eval test F) m (.ok v m'))
    (hv : v.payload = .bool false) : Settles (fun n => (ofLevel n).eval (.ifElse s test b none) F) m (.ok .null m') :=
  Settles.succ ((settles_condition htest hv).bind (settles_of_eq fun _ => rfl))

end

section

variable {op : BinaryOp} {right : Expr}

theorem settles_binary (hl : Settles (fun n => (ofLevel n).eval l F) m (.ok v m'))
    (hr : Settles (fun n => (ofLevel n).eval right F) m' (.ok w m''))
    (hop : ∀ n, (ofLevel n).binary op v w s m'' = r) :
    Settles (fun n => (ofLevel n).eval (.binary s l op right) F) m r :=
  Settles.succ (hl.bind (hr.bind (settles_of_eq hop)))

/-- A left operand that decides. -/
theorem settles_and_false (hl : Settles (fun n => (ofLevel n).eval l F) m (.ok v m')) (hv : v.payload = .bool false) :
    Settles (fun n => (ofLevel n).eval (.logical s l .and right) F) m (.ok v m') := by
  have hoperand : Settles (fun n => (ofLevel n).logicalOperand .and "left" l F) m (.ok (v, false) m') := by
    refine hl.bind (settles_of_eq fun n => ?_)
    rw [hv]
    rfl
  exact Settles.succ (hoperand.bind (settles_of_eq fun _ => rfl))

/-- A left operand that leaves the decision to the right one. -/
theorem settles_and_true {truth : Bool} (hl : Settles (fun n => (ofLevel n).eval l F) m (.ok v m'))
    (hv : v.payload = .bool true) (hr : Settles (fun n => (ofLevel n).eval right F) m' (.ok w m''))
    (hw : w.payload = .bool truth) :
    Settles (fun n => (ofLevel n).eval (.logical s l .and right) F) m (.ok w m'') := by
  have hoperand {side : Text} {e : Expr} {m m' : Machine} {v : Value} {truth : Bool}
      (he : Settles (fun n => (ofLevel n).eval e F) m (.ok v m')) (hv : v.payload = .bool truth) :
      Settles (fun n => (ofLevel n).logicalOperand .and side e F) m (.ok (v, truth) m') := by
    refine he.bind (settles_of_eq fun n => ?_)
    rw [hv]
    rfl
  exact Settles.succ ((hoperand hl hv).bind ((hoperand hr hw).bind (settles_of_eq fun _ => rfl)))

end

theorem settles_index (hi : OnlyReads i) (ho : Settles (fun n => (ofLevel n).eval object F) m (.ok v m'))
    (he : Settles (fun n => (ofLevel n).eval i F) m' (.ok w m'')) (hread : Eval.index v w s m'' = r) :
    Settles (fun n => (ofLevel n).eval (.index s object i) F) m r := by
  refine Settles.succ (ho.bind ?_)
  -- what only reads is no range
  cases hi <;> exact he.bind (settles_of_eq fun _ => hread)

/-- An element gets a value. -/
theorem settles_assignElement {m₃ m₄ : Machine} (ho : Settles (fun n => (ofLevel n).eval object F) m (.ok v m'))
    (hi : Settles (fun n => (ofLevel n).eval i F) m' (.ok w m''))
    (he : Settles (fun n => (ofLevel n).eval e F) m'' (.ok u m₃)) (hwrite : Eval.setAt v w u s m₃ = .ok () m₄) :
    Settles (fun n => (ofLevel n).eval (.assign s' (.index s object i) .set e) F) m (.ok u m₄) := by
  have htarget : Settles (fun n => (ofLevel n).target (.index s object i) F) m (.ok (.index v w s) m'') :=
    ho.bind (hi.bind (settles_of_eq fun _ => rfl))
  refine Settles.succ (htarget.bind (he.bind (Settles.bind (settles_of_eq fun _ => hwrite) ?_)))
  exact settles_of_eq fun _ => rfl

theorem settles_evalList_nil : Settles (fun n => (ofLevel n).evalList F []) m (.ok [] m) := settles_of_eq fun _ => rfl

theorem settles_evalList_cons {es : List Expr} {vs : List Value}
    (he : Settles (fun n => (ofLevel n).eval e F) m (.ok v m'))
    (hes : Settles (fun n => (ofLevel n).evalList F es) m' (.ok vs m'')) :
    Settles (fun n => (ofLevel n).evalList F (e :: es)) m (.ok (v :: vs) m'') :=
  he.bind (hes.bind (settles_of_eq fun _ => rfl))

/-! ## Statements -/

section

variable {st t : Stmt} {rest : List Stmt}

theorem settles_exec_single (hs : Settles (fun n => (ofLevel n).stmt st F) m r) :
    Settles (fun n => (ofLevel n).exec [st] F) m r :=
  Settles.succ hs

theorem settles_exec_cons (hs : Settles (fun n => (ofLevel n).stmt st F) m (.ok v m'))
    (hrest : Settles (fun n => (ofLevel n).exec (t :: rest) F) m' r) :
    Settles (fun n => (ofLevel n).exec (st :: t :: rest) F) m r := by
  obtain ⟨N, hN⟩ := hrest
  refine Settles.succ (Settles.bind hs ⟨N, fun n hn => ?_⟩)
  exact hN (n + 1) (Nat.le_succ_of_le hn)

theorem settles_exec_exit {e : Exit} (hs : Settles (fun n => (ofLevel n).stmt st F) m (.error e m')) :
    Settles (fun n => (ofLevel n).exec (st :: t :: rest) F) m (.error e m') :=
  Settles.succ (Settles.bindError hs)

theorem settles_return (he : Settles (fun n => (ofLevel n).eval e F) m (.ok v m')) :
    Settles (fun n => (ofLevel n).stmt (.returnValue s (some e)) F) m (.error (.returned v s) m') :=
  Settles.bind he (settles_of_eq fun _ => rfl)

end

/-! ## Loops -/

theorem whileTest_ok {I : Interp} {truth : Bool} {construct : Text} (h : I.condition e F construct m = .ok truth m') :
    (return (← I.condition e F construct) != false : Eval Bool) m = .ok truth m' := by
  rw [bind_ok h]
  cases truth <;> rfl

/-- The rounds of a loop come to an end if there is enough fuel. -/
def WhileSettles (test : Expr) (b : Block) (F : Nat) (m m' : Machine) : Prop :=
  ∃ N, ∀ n k, N ≤ n → N ≤ k →
    rounds (return (← (ofLevel n).condition test F "while") != false) ((ofLevel n).block b F) k m = .ok .null m'

namespace WhileSettles

theorem stop (htest : Settles (fun n => (ofLevel n).eval test F) m (.ok v m')) (hv : v.payload = .bool false) :
    WhileSettles test b F m m' := by
  have hcondition : Settles (fun n => (ofLevel n).condition test F "while") m (.ok false m') :=
    settles_condition htest hv
  obtain ⟨N, hN⟩ := hcondition
  refine ⟨N + 1, fun n k hn hk => ?_⟩
  obtain ⟨k, rfl⟩ : ∃ k', k = k' + 1 := ⟨k - 1, by omega⟩
  rw [rounds, bind_ok (whileTest_ok (hN n (Nat.le_of_succ_le hn)))]
  rfl

theorem next {m₁ m₂ : Machine} (htest : Settles (fun n => (ofLevel n).eval test F) m (.ok v m₁))
    (hv : v.payload = .bool true) (hb : Settles (fun n => (ofLevel n).block b F) m₁ (.ok w m₂))
    (hrest : WhileSettles test b F m₂ m') : WhileSettles test b F m m' := by
  have hcondition : Settles (fun n => (ofLevel n).condition test F "while") m (.ok true m₁) :=
    settles_condition htest hv
  obtain ⟨N, hN⟩ := hcondition
  obtain ⟨K, hK⟩ := hb
  obtain ⟨R, hR⟩ := hrest
  refine ⟨max N (max K R) + 1, fun n k hn hk => ?_⟩
  obtain ⟨k, rfl⟩ : ∃ k', k = k' + 1 := ⟨k - 1, by omega⟩
  have hround : round ((ofLevel n).block b F) m₁ = .ok true m₂ := by
    rw [Interp.round, bind_ok (attempt_ok (hK n (by omega)))]
    rfl
  rw [rounds, bind_ok (whileTest_ok (hN n (by omega)))]
  exact (bind_ok hround).trans (hR n k (by omega) (by omega))

theorem eval (h : WhileSettles test b F m m') :
    Settles (fun n => (ofLevel n).eval (.whileLoop s test b false) F) m (.ok .null m') := by
  obtain ⟨N, hN⟩ := h
  have hfuel (n : Nat) : (ofLevel n).fuel = n := by cases n <;> rfl
  refine Settles.succ ⟨N, fun n hn => hN n _ hn ?_⟩
  rw [hfuel]
  exact hn

end WhileSettles

section

variable {turn : Nat → Value → Value → Eval Bool} {p : Progression} {place left : Nat}

theorem settles_forNumbers_zero : Settles (fun n => forNumbers (turn n) p place 0) m (.ok .null m) :=
  settles_of_eq fun _ => rfl

theorem settles_forNumbers_succ
    (hturn : Settles (fun n => turn n (.number place) (.number (p.get place))) m (.ok true m'))
    (hrest : Settles (fun n => forNumbers (turn n) p (place + 1) left) m' r) :
    Settles (fun n => forNumbers (turn n) p place (left + 1)) m r :=
  hturn.bind hrest

end

end Interp

/-! ## Evaluations without side effects -/

/-- Cells and frames have been added, tags have been taken and notes have been made about tries and enums; what there
was is as it was. -/
structure Machine.Unaffected (m m' : Machine) : Prop where
  rest : m' = { m with heap := m'.heap, nextTag := m'.nextTag, declared := m'.declared, tries := m'.tries }
  kept : m.heap.Extends m'.heap
  references_le : m.heap.references.size ≤ m'.heap.references.size
  reference : ∀ {i}, i < m.heap.references.size → m'.heap.reference i = m.heap.reference i

namespace Machine.Unaffected

variable {m m' m'' : Machine} {h : Heap} {i : Nat}

theorem refl (m : Machine) : m.Unaffected m := ⟨rfl, .refl m.heap, Nat.le_refl _, fun _ => rfl⟩

theorem trans (hm : m.Unaffected m') (hm' : m'.Unaffected m'') : m.Unaffected m'' where
  rest := by
    conv_lhs => rw [hm'.rest, hm.rest]
  kept := hm.kept.trans hm'.kept
  references_le := Nat.le_trans hm.references_le hm'.references_le
  reference hi := (hm'.reference (Nat.lt_of_lt_of_le hi hm.references_le)).trans (hm.reference hi)

theorem depth (hm : m.Unaffected m') : m'.depth = m.depth := by rw [hm.rest]

theorem settings (hm : m.Unaffected m') : m'.settings = m.settings := by rw [hm.rest]

/-- The heap may be changed as long as what there was is kept. -/
theorem heap (hm : m.Unaffected m') (hh : m.heap.Extends h) (hr : h.references = m'.heap.references) :
    m.Unaffected (m'.withHeap h) where
  rest := by
    conv_lhs => rw [hm.rest]
  kept := hh
  references_le := by
    rw [hr]
    exact hm.references_le
  reference hi := by
    rw [Heap.reference, hr]
    exact hm.reference hi

theorem bind {n : BindingName} {v : Value} {c : Bool} (hm : m.Unaffected m') (hi : m.heap.frames.size ≤ i) :
    m.Unaffected (m'.withHeap (m'.heap.bind i n v c)) :=
  hm.heap (hm.kept.bind hi) rfl

theorem modifyArray (hm : m.Unaffected m') (hi : m.heap.arrays.size ≤ i) (g : Array Value → Array Value) :
    m.Unaffected (m'.withHeap (m'.heap.modifyArray i g)) :=
  hm.heap (hm.kept.modifyArray hi g) rfl

/-- The depth of calls makes no difference. -/
theorem withDepth (hm : m.Unaffected m') (d : Nat) : (m.withDepth d).Unaffected (m'.withDepth d) where
  rest := by
    conv_lhs => rw [hm.rest]
  kept := hm.kept
  references_le := hm.references_le
  reference := hm.reference

end Machine.Unaffected

theorem Machine.Grown.unaffected {m m' : Machine} (hm : m.Grown m') (hkept : m.heap.Extends m'.heap) :
    m.Unaffected m' := by
  obtain ⟨h, rfl⟩ : ∃ h, m' = m.withHeap h := ⟨_, hm.rest⟩
  exact (Machine.Unaffected.refl m).heap hkept hm.references

theorem Machine.unaffected_adding (m : Machine) (fs : List Frame) : m.Unaffected (m.withHeap (m.heap.adding fs)) :=
  (Machine.Unaffected.refl m).heap (Heap.extends_adding _ _) rfl

end ScriptEngine

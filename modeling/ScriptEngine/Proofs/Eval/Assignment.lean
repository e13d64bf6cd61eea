import ScriptEngine.Proofs.Eval.Levels

/-!
# Assignments combined with an operator

What `t += e` and its like do, and `++t`, `t++` and their like, by what plain assignments do.

* **Agreement** (`Eval.Agree`): two evaluations make the same changes and end in the same way, up to the places of
  faults. A read or a write of the same target at another place agrees with it (`agree_read`, `agree_write`).
* **Targets of names** (`NameTarget`): those whose container and index are names. Evaluating the parts of one changes
  nothing, so it can be done again before the value of an assignment is evaluated.
* **Outcomes** (`Interp.Outcome`): how an evaluation ends if there is enough fuel, the place of a fault aside.
* `compound_assignment`: an assignment with an operator does what the plain assignment of the result does, and the
  counting operators do what assignments of a number one higher or lower do, though those after the target yield
  the old number.
-/

namespace ScriptEngine

/-- A fault, its place aside. -/
def Fault.unplaced (f : Fault) : Fault := { f with span := none }

/-- An exit, the place of a fault aside. -/
def Exit.unplaced : Exit → Exit
  | .failed (.fault f) => .failed (.fault f.unplaced)
  | e => e

theorem Exit.unplaced_exhausted {e : Exit} : e.unplaced = .exhausted ↔ e = .exhausted := by
  cases e with
  | failed e => cases e <;> exact iff_of_false nofun nofun
  | _ => exact .rfl

/-- A target of an assignment whose container and index are names. -/
inductive NameTarget where
  | name (x : Text)
  | member (object : Text) (x : Text)
  | index (container : Text) (i : Text)

/-- An expression is a target, wherever in the source it stands. -/
inductive Expr.IsTarget : Expr → NameTarget → Prop
  | name {s : Span} {x : Text} : IsTarget (.name s x) (.name x)
  | member {s s' : Span} {o x : Text} : IsTarget (.member s (.name s' o) x) (.member o x)
  | index {s s' s'' : Span} {c i : Text} : IsTarget (.index s (.name s' c) (.name s'' i)) (.index c i)

namespace Eval

variable {α β γ δ : Type} {R : α → β → Prop} {S : γ → δ → Prop} {m : Machine}

/-- The way in which an evaluation ends, the place of a fault aside. -/
def unplaced (r : EStateM.Result Exit Machine α) : EStateM.Result Exit Machine α :=
  match r with
  | .ok a m => .ok a m
  | .error e m => .error e.unplaced m

/-- The same way to end, with another result. -/
def mapped (f : α → β) : EStateM.Result Exit Machine α → EStateM.Result Exit Machine β
  | .ok a m => .ok (f a) m
  | .error e m => .error e m

/-- Two evaluations end with the same machine, and by results that are related or by the same exit at places that may
differ. -/
inductive Agreeing (R : α → β → Prop) : EStateM.Result Exit Machine α → EStateM.Result Exit Machine β → Prop
  | ok {a : α} {b : β} {m : Machine} (h : R a b) : Agreeing R (.ok a m) (.ok b m)
  | error {e e' : Exit} {m : Machine} (h : e.unplaced = e'.unplaced) : Agreeing R (.error e m) (.error e' m)

/-- Two evaluations agree from every machine. -/
def Agree (R : α → β → Prop) (x : Eval α) (y : Eval β) : Prop := ∀ m, Agreeing R (x m) (y m)

/-- Evaluations that go on from agreeing results. -/
theorem Agreeing.bind {x : Eval α} {y : Eval β} {f : α → Eval γ} {g : β → Eval δ}
    (hx : Agreeing R (x m) (y m))
    (hf : ∀ a b m', x m = .ok a m' → R a b → Agreeing S (f a m') (g b m')) :
    Agreeing S ((x >>= f) m) ((y >>= g) m) := by
  generalize hr : x m = r at hx
  generalize hr' : y m = r' at hx
  cases hx with
  | ok hab =>
    rw [bind_ok hr, bind_ok hr']
    exact hf _ _ _ hr hab
  | error he =>
    rw [bind_error hr, bind_error hr']
    exact .error he

theorem Agreeing.of_ok {a : α} {r : EStateM.Result Exit Machine β} (h : Agreeing R (.ok a m) r) :
    ∃ b, r = .ok b m ∧ R a b := by
  cases h with
  | ok hab => exact ⟨_, rfl, hab⟩

theorem Agree.bind {x : Eval α} {y : Eval β} {f : α → Eval γ} {g : β → Eval δ} (hx : Agree R x y)
    (hf : ∀ a b, R a b → Agree S (f a) (g b)) : Agree S (x >>= f) (y >>= g) := fun m =>
  (hx m).bind fun a b m' _ hab => hf a b hab m'

theorem Agree.refl (x : Eval α) : Agree Eq x x := fun m => by
  cases x m with
  | ok a m' => exact .ok rfl
  | error e m' => exact .error rfl

/-- Evaluations that go on with the same result. -/
theorem Agree.bindEq {x y : Eval α} {f : α → Eval γ} {g : α → Eval δ} (hx : Agree Eq x y)
    (hf : ∀ a, Agree S (f a) (g a)) : Agree S (x >>= f) (y >>= g) :=
  hx.bind fun a _ hab => hab ▸ hf a

theorem Agree.andThen {x : Eval α} {f : α → Eval γ} {g : α → Eval δ} (hf : ∀ a, Agree S (f a) (g a)) :
    Agree S (x >>= f) (x >>= g) :=
  (Agree.refl x).bindEq hf

theorem agree_pure {a : α} {b : β} (h : R a b) : Agree R (pure a) (pure b) := fun _ => .ok h

theorem agree_failWith {kind : FaultKind} {message : Text} {s s' : Option Span} :
    Agree R (failWith kind message s) (failWith kind message s') := fun _ => .error rfl

theorem agree_mapM {ι : Type} {f g : ι → Eval α} (hf : ∀ i, Agree Eq (f i) (g i)) (xs : List ι) :
    Agree Eq (xs.mapM f) (xs.mapM g) := by
  induction xs with
  | nil => exact .refl _
  | cons i xs ih =>
    rw [List.mapM_cons, List.mapM_cons]
    exact (hf i).bindEq fun _ => ih.bindEq fun _ => .refl _

/-- What is related by a function is the same after the function has been applied. -/
theorem Agreeing.unplaced_eq {f : β → α} {r : EStateM.Result Exit Machine α} {r' : EStateM.Result Exit Machine β}
    (h : Agreeing (fun a b => a = f b) r r') : unplaced r = mapped f (unplaced r') := by
  cases h with
  | ok h => rw [h, unplaced, unplaced, mapped]
  | error h => rw [unplaced, unplaced, mapped, h]

/-- An evaluation ends with enough fuel if one that it agrees with does. -/
theorem Agreeing.ends_iff {r : EStateM.Result Exit Machine α} {r' : EStateM.Result Exit Machine β}
    (h : Agreeing R r r') : (∀ m, r ≠ .error .exhausted m) ↔ ∀ m, r' ≠ .error .exhausted m := by
  cases h with
  | ok => exact iff_of_true nofun nofun
  | @error e e' m he =>
    have hout : e = .exhausted ↔ e' = .exhausted := by
      rw [← Exit.unplaced_exhausted, he, Exit.unplaced_exhausted]
    simp only [ne_eq, EStateM.Result.error.injEq, hout]

end Eval

/-! ## Reads and writes at another place -/

/-- Two results of a heap are the same, the place of a fault aside. -/
inductive Alike {α : Type} : Except Fault α → Except Fault α → Prop
  | ok (a : α) : Alike (.ok a) (.ok a)
  | error {f f' : Fault} (h : f.unplaced = f'.unplaced) : Alike (.error f) (.error f')

section

variable {α β : Type} {h : Heap} {id : Nat} {name : Text} {v w : Value} {s s' : Span} {o o' : Option Span}

theorem Alike.refl (x : Except Fault α) : Alike x x := by
  cases x with
  | ok a => exact .ok a
  | error f => exact .error rfl

theorem Alike.bind {x y : Except Fault α} {f g : α → Except Fault β} (hx : Alike x y) (hf : ∀ a, Alike (f a) (g a)) :
    Alike (x >>= f) (y >>= g) := by
  cases hx with
  | ok a => exact hf a
  | error he => exact .error he

namespace Heap

theorem resolveFrom_alike {crossed : Bool} :
    Alike (h.resolveFrom name o crossed id) (h.resolveFrom name o' crossed id) := by
  induction id using Nat.strongRecOn generalizing crossed with
  | ind id ih =>
    rw [resolveFrom, resolveFrom]
    split
    · split
      · exact .error rfl
      · exact .ok _
    · split
      · split
        · next p _ hlt => exact ih p hlt
        · exact .error rfl
      · exact .error rfl

theorem lookup_alike : Alike (h.lookup id name o) (h.lookup id name o') := resolveFrom_alike.bind fun _ => .refl _

theorem assignable_alike : Alike (h.assignable id name o) (h.assignable id name o') := by
  refine resolveFrom_alike.bind fun owner => ?_
  dsimp only
  split
  · exact .error rfl
  · exact .ok _

theorem member_alike : Alike (h.member v name s) (h.member v name s') := by
  unfold member
  split
  · exact .ok _
  · exact .ok _
  · split
    · exact .ok _
    · exact .error rfl

theorem position_alike {size : Nat} : Alike (position v w size s) (position v w size s') := by
  unfold position
  extract_lets index
  cases index with
  | none => exact .error rfl
  | some i =>
    dsimp only
    generalize (if i < 0 then i + (size : Int) else i) = place
    split
    · exact .ok _
    · exact .error rfl

theorem objectKey_alike : Alike (objectKey v s) (objectKey v s') := by
  unfold objectKey
  split
  · exact .ok _
  · exact .error rfl

theorem element_alike : Alike (h.element v w s) (h.element v w s') := by
  unfold element
  split
  · exact position_alike.bind fun _ => .refl _
  · exact position_alike.bind fun _ => .refl _
  · exact objectKey_alike.bind fun _ => .refl _
  · exact .error rfl

theorem arithmetic_alike {op : ArithOp} : Alike (h.arithmetic op v w s) (h.arithmetic op v w s') := by
  unfold arithmetic
  split
  · split
    · exact .ok _
    · exact .error rfl
  · split
    · exact .ok _
    · exact .error rfl
  · exact .error rfl

end Heap

namespace Eval

theorem agree_readHeap {f g : Heap → Except Fault α} (hfg : ∀ h, Alike (f h) (g h)) :
    Agree Eq (readHeap f) (readHeap g) := by
  intro m
  have hm := hfg m.heap
  generalize hf : f m.heap = x at hm
  generalize hg : g m.heap = y at hm
  cases hm with
  | ok a =>
    rw [readHeap_ok hf, readHeap_ok hg]
    exact .ok rfl
  | error he =>
    rw [readHeap_error hf, readHeap_error hg]
    exact .error (congrArg (fun f => Exit.failed (.fault f)) he)

theorem agree_arithmetic {op : ArithOp} : Agree Eq (arithmetic op v w s) (arithmetic op v w s') := by
  unfold arithmetic
  split
  · exact .refl _
  · exact agree_readHeap fun _ => Heap.arithmetic_alike

theorem agree_indexIn {depth : Nat} : Agree Eq (indexIn s depth v w) (indexIn s' depth v w) := by
  induction depth generalizing w with
  | zero => exact .refl _
  | succ n ih =>
    unfold indexIn
    split
    · exact .andThen fun _ => (agree_mapM (fun _ => ih) _).bindEq fun _ => .refl _
    · exact .andThen fun _ => (agree_mapM (fun _ => ih) _).bindEq fun _ => .refl _
    · exact agree_readHeap fun _ => Heap.element_alike

theorem agree_setAt {u : Value} : Agree Eq (setAt v w u s) (setAt v w u s') := by
  unfold setAt
  split
  · exact (agree_readHeap fun _ => Heap.position_alike).bindEq fun _ => .refl _
  · exact (agree_readHeap fun _ => Heap.objectKey_alike).bindEq fun _ => .refl _
  · exact agree_failWith

end Eval

end

namespace Interp

open Eval

/-- Two targets are the same, their places aside. -/
inductive Target.Same : Target → Target → Prop
  | name {frame : Nat} {n : Text} {s s' : Span} : Same (.name frame n s) (.name frame n s')
  | member {object : Value} {n : Text} {s s' : Span} : Same (.member object n s) (.member object n s')
  | index {object i : Value} {s s' : Span} : Same (.index object i s) (.index object i s')

variable {place place' : Target} {v : Value}

theorem agree_read (h : place.Same place') : Agree Eq place.read place'.read := by
  cases h with
  | name => exact agree_readHeap fun _ => Heap.lookup_alike
  | member => exact agree_readHeap fun _ => Heap.member_alike
  | index => exact .andThen fun _ => agree_indexIn

theorem agree_write (h : place.Same place') : Agree Eq (place.write v) (place'.write v) := by
  cases h with
  | name => exact (agree_readHeap fun _ => Heap.assignable_alike).bindEq fun _ => .refl _
  | member => exact agree_setAt
  | index => exact agree_setAt

variable {t t' : Expr} {target : NameTarget} {frame j k : Nat} {m m' : Machine}

theorem agree_name {s s' : Span} {x : Text} :
    Agree Eq ((ofLevel (j + 1)).eval (.name s x) frame) ((ofLevel (k + 1)).eval (.name s' x) frame) :=
  agree_readHeap fun _ => Heap.lookup_alike

theorem agree_target (ht : t.IsTarget target) (ht' : t'.IsTarget target) :
    Agree Target.Same ((ofLevel (j + 1)).target t frame) ((ofLevel (k + 1)).target t' frame) := by
  cases ht with
  | name =>
    cases ht'
    exact agree_pure .name
  | member =>
    cases ht'
    exact agree_name.bindEq fun _ => agree_pure .member
  | index =>
    cases ht'
    exact agree_name.bindEq fun _ => agree_name.bindEq fun _ => agree_pure .index

theorem eval_name_keeps {s : Span} {x : Text} (h : (ofLevel (j + 1)).eval (.name s x) frame m = .ok v m') :
    m' = m := by
  have hlookup : (ofLevel (j + 1)).eval (.name s x) frame m = readHeap (·.lookup frame x s) m := rfl
  rw [hlookup] at h
  cases hx : m.heap.lookup frame x s with
  | ok w =>
    rw [readHeap_ok hx] at h
    cases h
    rfl
  | error f =>
    rw [readHeap_error hx] at h
    cases h

/-- The parts of a target are evaluated without a change of the machine. -/
theorem target_keeps (ht : t.IsTarget target) (h : (ofLevel (j + 1)).target t frame m = .ok place m') : m' = m := by
  cases ht with
  | name =>
    cases h
    rfl
  | member =>
    obtain ⟨object, m₁, hobject, hrest⟩ := of_bind_ok h
    cases hrest
    exact eval_name_keeps hobject
  | index =>
    obtain ⟨object, m₁, hobject, hrest⟩ := of_bind_ok h
    obtain ⟨i, m₂, hi, hrest⟩ := of_bind_ok hrest
    cases hrest
    exact (eval_name_keeps hi).trans (eval_name_keeps hobject)

/-- The value of a target is what is read from it after its parts have been evaluated. -/
theorem eval_target (ht : t.IsTarget target) :
    (ofLevel (k + 1)).eval t frame = (ofLevel k).target t frame >>= Target.read := by
  cases ht with
  | name => rfl
  | member =>
    unfold Interp.target
    rw [bind_assoc]
    rfl
  | index =>
    unfold Interp.target
    simp only [bind_assoc, pure_bind]
    rfl

/-! ## Assignments -/

variable {t₁ t₂ e : Expr} {op : AssignOp} {a : ArithOp} {s s₁ s₂ : Span}

/-- An assignment with an operator reads its target before it evaluates its value. -/
theorem eval_assign_compound (ha : op.arith? = some a) :
    (ofLevel (k + 1)).eval (.assign s t op e) frame = (do
      let place ← (ofLevel k).target t frame
      let current ← place.read
      let operand ← (ofLevel k).eval e frame
      let v ← arithmetic a current operand s
      place.write v
      pure v) := by
  have hassign : (ofLevel (k + 1)).eval (.assign s t op e) frame = (ofLevel k).assignment t op e s frame := rfl
  rw [hassign, assignment, ha]

theorem eval_assign_binary :
    (ofLevel (k + 2)).eval (.assign s t .set (.binary s₂ t₂ (.arith a) e)) frame = (do
      let place ← (ofLevel (k + 1)).target t frame
      let current ← (ofLevel k).eval t₂ frame
      let operand ← (ofLevel k).eval e frame
      let v ← arithmetic a current operand s₂
      place.write v
      pure v) := by
  have hassign : (ofLevel (k + 2)).eval (.assign s t .set (.binary s₂ t₂ (.arith a) e)) frame = (do
      let place ← (ofLevel (k + 1)).target t frame
      let v ← (do
        let current ← (ofLevel k).eval t₂ frame
        let operand ← (ofLevel k).eval e frame
        arithmetic a current operand s₂)
      place.write v
      pure v : Eval Value) := rfl
  rw [hassign]
  simp only [bind_assoc]

/-- The plain assignment takes one level more for the operator. It evaluates the parts of the target twice, and
nothing changes in between. -/
theorem agreeing_assign (ht : t.IsTarget target) (h₁ : t₁.IsTarget target) (h₂ : t₂.IsTarget target)
    (ha : op.arith? = some a) :
    Agreeing Eq ((ofLevel (k + 3)).eval (.assign s t op e) frame m)
      ((ofLevel (k + 4)).eval (.assign s₁ t₁ .set (.binary s₂ t₂ (.arith a) e)) frame m) := by
  rw [eval_assign_compound ha, eval_assign_binary, eval_target h₂]
  refine (agree_target ht h₁ m).bind fun place place₁ m' hplace hsame₁ => ?_
  obtain rfl := target_keeps ht hplace
  have hagree : Agreeing Target.Same ((ofLevel (k + 2)).target t frame m') ((ofLevel (k + 1)).target t₂ frame m') :=
    agree_target ht h₂ m'
  rw [hplace] at hagree
  obtain ⟨place₂, hplace₂, hsame₂⟩ := hagree.of_ok
  rw [bind_assoc, bind_ok hplace₂]
  refine (agree_read hsame₂).bindEq (fun current => ?_) m'
  refine .andThen fun operand => agree_arithmetic.bindEq fun v => ?_
  exact (agree_write hsame₁).bindEq fun _ => .refl _

/-! ## Counting -/

/-- The assignment of a number one higher or lower. -/
def counting : UpdateOp → AssignOp
  | .increment => .add
  | .decrement => .sub

variable {count : UpdateOp} {x : Number} {yieldsNew : Bool}

/-- A counting operator on a target that holds a number. -/
theorem eval_update (hplace : (ofLevel k).target t frame m = .ok place m) (hread : place.read m = .ok v m')
    (hv : v.payload = .number x) :
    (ofLevel (k + 1)).eval (.update s count t yieldsNew) frame m = (do
      place.write (.number (x.value + updateDelta count))
      pure (if yieldsNew then .number (x.value + updateDelta count) else v) : Eval Value) m' := by
  have hupdate : (ofLevel (k + 1)).eval (.update s count t yieldsNew) frame =
      (ofLevel k).update count t yieldsNew s frame := rfl
  rw [hupdate, update, bind_ok hplace, bind_ok hread, hv]

theorem arithmetic_counting (hv : v.payload = .number x) :
    ∃ a, (counting count).arith? = some a ∧
      ∀ h : Heap, h.arithmetic a v (.number 1) s = .ok (.number (x.value + updateDelta count)) := by
  cases count with
  | increment =>
    refine ⟨.add, rfl, fun h => ?_⟩
    simp only [Heap.arithmetic, hv, Value.number, Value.plain, Number.calculate, Number.value_ofRat, updateDelta]
  | decrement =>
    refine ⟨.sub, rfl, fun h => ?_⟩
    simp only [Heap.arithmetic, hv, Value.number, Value.plain, Number.calculate, Number.value_ofRat, updateDelta,
      Rat.sub_eq_add_neg]

theorem eval_assign_counting (hplace : (ofLevel (k + 1)).target t frame m = .ok place m)
    (hread : place.read m = .ok v m') (hv : v.payload = .number x) :
    (ofLevel (k + 2)).eval (.assign s t (counting count) (.literal s₂ (.number 1))) frame m = (do
      place.write (.number (x.value + updateDelta count))
      pure (.number (x.value + updateDelta count)) : Eval Value) m' := by
  obtain ⟨a, ha, hsum⟩ : ∃ a, (counting count).arith? = some a ∧
      ∀ h : Heap, h.arithmetic a v (.number 1) s = .ok (.number (x.value + updateDelta count)) :=
    arithmetic_counting hv
  have hone : (ofLevel (k + 1)).eval (.literal s₂ (.number 1)) frame m' = .ok (.number 1) m' := rfl
  rw [eval_assign_compound ha, bind_ok hplace, bind_ok hread, bind_ok hone, bind_ok (arithmetic_ok (hsum _))]

/-- What a target holds, it also holds where it stands at another place. -/
theorem target_holds (ht : t.IsTarget target) (h₁ : t₁.IsTarget target)
    (hv : (ofLevel (k + 2)).eval t frame m = .ok v m') :
    ∃ place place₁, (ofLevel (k + 1)).target t frame m = .ok place m ∧ place.read m = .ok v m' ∧
      (ofLevel (k + 1)).target t₁ frame m = .ok place₁ m ∧ place₁.read m = .ok v m' ∧ place.Same place₁ := by
  rw [eval_target ht] at hv
  obtain ⟨place, m₁, hplace, hread⟩ := of_bind_ok hv
  obtain rfl := target_keeps ht hplace
  have htarget : Agreeing Target.Same ((ofLevel (k + 1)).target t frame m₁) ((ofLevel (k + 1)).target t₁ frame m₁) :=
    agree_target ht h₁ m₁
  rw [hplace] at htarget
  obtain ⟨place₁, hplace₁, hsame⟩ := htarget.of_ok
  have hagree := agree_read hsame m₁
  rw [hread] at hagree
  obtain ⟨_, hread₁, rfl⟩ := hagree.of_ok
  exact ⟨place, place₁, hplace, hread, hplace₁, hread₁, hsame⟩

/-- A counting operator before its target is an assignment. -/
theorem agreeing_update_assign (ht : t.IsTarget target) (h₁ : t₁.IsTarget target)
    (hv : (ofLevel (k + 2)).eval t frame m = .ok v m') (hx : v.payload = .number x) :
    Agreeing Eq ((ofLevel (k + 2)).eval (.update s count t true) frame m)
      ((ofLevel (k + 2)).eval (.assign s₁ t₁ (counting count) (.literal s₂ (.number 1))) frame m) := by
  obtain ⟨place, place₁, hplace, hread, hplace₁, hread₁, hsame⟩ := target_holds ht h₁ hv
  rw [eval_update hplace hread hx, eval_assign_counting hplace₁ hread₁ hx]
  exact (agree_write hsame).bindEq (fun _ => .refl _) m'

/-- A counting operator after its target yields what the target held. -/
theorem agreeing_update_update (ht : t.IsTarget target) (h₁ : t₁.IsTarget target)
    (hv : (ofLevel (k + 2)).eval t frame m = .ok v m') (hx : v.payload = .number x) :
    Agreeing (fun w _ => w = v) ((ofLevel (k + 2)).eval (.update s count t false) frame m)
      ((ofLevel (k + 2)).eval (.update s₁ count t₁ true) frame m) := by
  obtain ⟨place, place₁, hplace, hread, hplace₁, hread₁, hsame⟩ := target_holds ht h₁ hv
  rw [eval_update hplace hread hx, eval_update hplace₁ hread₁ hx]
  refine (agree_write hsame).bindEq (fun _ => ?_) m'
  exact agree_pure rfl

/-! ## Outcomes -/

/-- The evaluation of an expression ends in a given way, the place of a fault aside. -/
def Outcome (e : Expr) (frame : Nat) (m : Machine) (r : EStateM.Result Exit Machine Value) : Prop :=
  ∃ r', Evaluates e frame m r' ∧ unplaced r' = r

variable {e' : Expr} {r : EStateM.Result Exit Machine Value} {n i : Nat}

theorem Outcome.of_ok (h : (ofLevel n).eval e frame m = .ok v m') : Outcome e frame m (.ok v m') :=
  ⟨.ok v m', ⟨fun _ hout => (by cases hout), n, h⟩, rfl⟩

/-- Evaluations that agree at all high levels, up to a function of the result, have the same outcomes up to it. -/
theorem outcome_iff_mapped {f : Value → Value}
    (h : ∀ l ≥ n,
      Agreeing (fun a b => a = f b) ((ofLevel (l + i)).eval e frame m) ((ofLevel (l + j)).eval e' frame m)) :
    Outcome e frame m r ↔ ∃ r', Outcome e' frame m r' ∧ r = mapped f r' := by
  constructor
  · rintro ⟨r₀, hr₀, rfl⟩
    obtain ⟨l, hl⟩ := hr₀.from_level
    have hagree := h (max l n) (Nat.le_max_right l n)
    rw [hl _ (Nat.le_add_right_of_le (Nat.le_max_left l n))] at hagree
    exact ⟨_, ⟨_, ⟨hagree.ends_iff.1 hr₀.1, _, rfl⟩, rfl⟩, hagree.unplaced_eq⟩
  · rintro ⟨_, ⟨r₀, hr₀, rfl⟩, rfl⟩
    obtain ⟨l, hl⟩ := hr₀.from_level
    have hagree := h (max l n) (Nat.le_max_right l n)
    rw [hl _ (Nat.le_add_right_of_le (Nat.le_max_left l n))] at hagree
    exact ⟨_, ⟨hagree.ends_iff.2 hr₀.1, _, rfl⟩, hagree.unplaced_eq⟩

theorem outcome_iff
    (h : ∀ l ≥ n, Agreeing Eq ((ofLevel (l + i)).eval e frame m) ((ofLevel (l + j)).eval e' frame m)) :
    Outcome e frame m r ↔ Outcome e' frame m r := by
  have hid (r : EStateM.Result Exit Machine Value) : mapped id r = r := by cases r <;> rfl
  rw [outcome_iff_mapped (f := id) h]
  simp only [hid, exists_eq_right']

/-- An assignment with an operator has the outcome of the assignment of the result, whatever the value is: the same
changes of the machine, and the same value or the same exit, the place of a fault aside. If the target holds a
number, then a counting operator before it has the outcome of adding or subtracting one, and a counting operator
after it the same but for yielding what the target held. -/
theorem compound_assignment (ht : t.IsTarget target) (h₁ : t₁.IsTarget target) (h₂ : t₂.IsTarget target)
    (frame : Nat) (m : Machine) (s s₁ s₂ : Span) :
    (∀ (op : AssignOp) (a : ArithOp), op.arith? = some a → ∀ e r,
      Outcome (.assign s t op e) frame m r ↔ Outcome (.assign s₁ t₁ .set (.binary s₂ t₂ (.arith a) e)) frame m r) ∧
    (∀ v m', Outcome t frame m (.ok v m') → v.kind = .number → ∀ (count : UpdateOp) r,
      (Outcome (.update s count t true) frame m r ↔
        Outcome (.assign s₁ t₁ (counting count) (.literal s₂ (.number 1))) frame m r) ∧
      (Outcome (.update s count t false) frame m r ↔
        ∃ r', Outcome (.update s₁ count t₁ true) frame m r' ∧ r = mapped (fun _ => v) r')) := by
  refine ⟨fun op a ha e r => ?_, ?_⟩
  · exact outcome_iff (n := 0) (i := 3) (j := 4) fun l _ => agreeing_assign ht h₁ h₂ ha
  · rintro v m' ⟨r₀, hr₀, hv⟩ hkind count r
    obtain rfl : r₀ = .ok v m' := by
      cases r₀ <;> cases hv
      rfl
    obtain ⟨x, hx⟩ : ∃ x, v.payload = .number x := by
      obtain ⟨payload, tags⟩ := v
      cases payload with
      | number x => exact ⟨x, rfl⟩
      | _ => cases hkind
    obtain ⟨n, hn⟩ := hr₀.from_level
    have hheld : ∀ l ≥ n, (ofLevel (l + 2)).eval t frame m = .ok v m' := fun l hl => hn _ (Nat.le_add_right_of_le hl)
    exact ⟨outcome_iff fun l hl => agreeing_update_assign ht h₁ (hheld l hl) hx,
      outcome_iff_mapped fun l hl => agreeing_update_update ht h₁ (hheld l hl) hx⟩

/-- A machine with `x` bound to 5 in its only frame. -/
def withFive : Machine :=
  { heap := { frames := #[{ name := "main", bindings := .ofList [(some "x", .number 5)] }] } }

/-- The variable `x`. -/
def varX : Expr := .name default "x"

/-- Where `x` is 5, `x += 1` and `x = x + 1` are 6 and `x++` is 5, with the same changes. -/
theorem compound_assignment_five : ∃ m',
    Outcome (.assign default varX .add (.literal default (.number 1))) 0 withFive (.ok (.number 6) m') ∧
    Outcome (.assign default varX .set (.binary default varX (.arith .add) (.literal default (.number 1)))) 0 withFive
      (.ok (.number 6) m') ∧
    Outcome (.update default .increment varX false) 0 withFive (.ok (.number 5) m') := by
  have hresolve (s : Option Span) : withFive.heap.resolve 0 "x" s = .ok 0 := by
    rw [Heap.resolve, Heap.resolveFrom]
    rfl
  have hread : (Target.name 0 "x" default).read withFive = .ok (.number 5) withFive :=
    readHeap_ok (by rw [Heap.lookup, hresolve]; rfl)
  have howner : readHeap (·.assignable 0 "x" (default : Span)) withFive = .ok 0 withFive :=
    readHeap_ok (by rw [Heap.assignable, hresolve]; rfl)
  have hwrite : (Target.name 0 "x" default).write (.number 6) withFive =
      .ok () { withFive with heap := withFive.heap.bind 0 (some ("x" : Text)) (.number 6) false } := bind_ok howner
  have hupdate : (ofLevel 2).eval (.update default .increment varX true) 0 withFive =
      ((Target.name 0 "x" default).write (.number 6) >>= fun _ => pure (.number 6) : Eval Value) withFive := by
    have hsum : (Number.ofRat 5).value + updateDelta .increment = 6 := by decide +kernel
    rw [← hsum]
    exact eval_update rfl hread rfl
  have hbefore : Outcome (.update default .increment varX true) 0 withFive (.ok (.number 6) _) :=
    .of_ok (hupdate.trans (bind_ok hwrite))
  have hx : Outcome varX 0 withFive (.ok (.number 5) withFive) := .of_ok (n := 1) hread
  have hvar : varX.IsTarget (.name "x") := .name
  obtain ⟨hcompound, hcount⟩ := compound_assignment hvar hvar hvar 0 withFive default default default
  have hadd := (hcount _ _ hx rfl .increment _).1.1 hbefore
  exact ⟨_, hadd, (hcompound .add .add rfl _ _).1 hadd, (hcount _ _ hx rfl .increment _).2.2 ⟨_, hbefore, rfl⟩⟩

end Interp

end ScriptEngine

import Mathlib.Data.List.Infix
import ScriptEngine.Proofs.Eval.Run
import ScriptEngine.Proofs.Program.Exposure

/-!
# Contracts of evaluations

A way to prove something of every run of the evaluator from what each construct does once.

* **Local steps** (`Machine.Local`): what an evaluation that runs no script code may do to the machine.
  It leaves the settings, the functions, the modules, the journal of tries and the call depth as they are.
* **Contracts** (`Contract`): an invariant of machines, a relation between the machine before and the
  machine after, and the exits that may end an evaluation. Local steps respect every contract, and an
  exit that is no jump is always allowed. A try is a step if its parts are.
* **Admitted nodes** (`Contract.admits`): the contract is about the evaluation of these. What is below an
  admitted node is admitted, and so are the functions of the heap where the invariant holds. Most contracts
  are about all nodes (`Contract.Universal`).
* **Meeting a contract** (`Contract.Meets x y`): where the invariant holds, the evaluations `x` and `y`
  do the same and what they do respects the contract. `Contract.Keeps x` is this for a single
  evaluation.

There is a rule for each way to build an evaluation. What `Eval.attempt` runs may end by more exits than
the contract allows (`Contract.allowing`), if what follows takes care of them.
-/

namespace ScriptEngine

/-- The statement and the place that an exit comes from, if it is a jump. -/
def Exit.jump? : Exit → Option (Jump × Span)
  | returned _ s => some (.ret, s)
  | broke s => some (.brk, s)
  | continued s => some (.cont, s)
  | _ => none

/-- What evaluations do to a heap: functions are added and none is changed. -/
structure Heap.Grows (h h' : Heap) : Prop where
  closures : h.closures.toList <+: h'.closures.toList

theorem Heap.Grows.of_eq {h h' : Heap} (he : h'.closures = h.closures) : h.Grows h' :=
  ⟨he ▸ List.prefix_rfl⟩

theorem Heap.Grows.trans {h h' h'' : Heap} (hg : h.Grows h') (hg' : h'.Grows h'') : h.Grows h'' :=
  ⟨hg.closures.trans hg'.closures⟩

theorem Heap.grows_newClosure (h : Heap) (c : Closure) : h.Grows (h.newClosure c).2 :=
  ⟨by simp [Heap.newClosure]⟩

/-- A machine comes after another in a run that loads no module and makes no try. -/
structure Machine.Follows (m m' : Machine) : Prop where
  settings : m'.settings = m.settings
  heap : m.heap.Grows m'.heap
  modules : m'.modules = m.modules
  tries : m'.tries = m.tries

/-- The settings, the functions, the modules and the journal of tries of two machines are the same. -/
structure Machine.SameCode (m m' : Machine) : Prop where
  settings : m'.settings = m.settings
  closures : m'.heap.closures = m.heap.closures
  modules : m'.modules = m.modules
  tries : m'.tries = m.tries

/-- What an evaluation that makes no call and defines no function may do to the machine. -/
structure Machine.Local (m m' : Machine) : Prop extends m.SameCode m' where
  depth : m'.depth = m.depth

theorem Machine.SameCode.follows {m m' : Machine} (h : m.SameCode m') : m.Follows m' :=
  ⟨h.settings, .of_eq h.closures, h.modules, h.tries⟩

theorem Machine.SameCode.of_heap_eq {m m' : Machine} (hs : m'.settings = m.settings)
    (hh : m'.heap = m.heap) (hm : m'.modules = m.modules) (ht : m'.tries = m.tries) : m.SameCode m' :=
  ⟨hs, by rw [hh], hm, ht⟩

theorem Machine.follows_newClosure (m : Machine) (c : Closure) :
    m.Follows { m with heap := (m.heap.newClosure c).2 } :=
  ⟨rfl, m.heap.grows_newClosure c, rfl, rfl⟩

theorem Machine.Local.of_heap_eq {m m' : Machine} (hs : m'.settings = m.settings)
    (hh : m'.heap = m.heap) (hd : m'.depth = m.depth) (hm : m'.modules = m.modules)
    (ht : m'.tries = m.tries) : m.Local m' :=
  ⟨.of_heap_eq hs hh hm ht, hd⟩

theorem Machine.Local.refl (m : Machine) : m.Local m := .of_heap_eq rfl rfl rfl rfl rfl

/-- An invariant of machines, what evaluations may do to them, the exits by which they may end, and the
nodes that are evaluated. -/
structure Contract where
  holds : Machine → Prop
  step : Machine → Machine → Prop
  exits : Exit → Machine → Prop
  admits : Node → Prop := fun _ => True
  holds_of_local : ∀ {m m' : Machine}, m.Local m' → holds m → holds m'
  holds_newClosure : ∀ {m : Machine} {c : Closure}, admits (.function c.definition) → holds m →
    holds { m with heap := (m.heap.newClosure c).2 }
  step_of_follows : ∀ {m m' : Machine}, m.Follows m' → step m m'
  step_trans : ∀ {m m' m'' : Machine}, step m m' → step m' m'' → step m m''
  exits_of_step : ∀ {e : Exit} {m m' : Machine}, exits e m → step m m' → exits e m'
  exits_plain : ∀ {e : Exit} {m : Machine}, e.jump? = none → exits e m
  holds_noting : ∀ {m : Machine} {stage : TryStage} {c : Block}, holds m → holds (m.noting stage c)
  exits_noting : ∀ {e : Exit} {m : Machine} {stage : TryStage} {c : Block},
    exits e m → exits e (m.noting stage c)
  step_try : ∀ {m m' m'' : Machine} {c : Block}, step (m.noting .entered c) m' →
    step (m'.noting .cleaning c) m'' → step m (m''.noting .left c)
  admits_child : ∀ {n c : Node}, admits n → c ∈ n.children → admits c := by intros; trivial
  admits_closure : ∀ {m : Machine} {c : Closure}, holds m → c ∈ m.heap.closures →
    admits (.function c.definition) := by intros; trivial

namespace Contract

/-- A contract about the evaluation of all nodes. -/
class Universal (C : Contract) : Prop where
  admits : ∀ n, C.admits n

variable {α β : Type} {C D : Contract} {x y : Eval α} {f g : α → Eval β} {m m' : Machine} {e : Exit}

/-- What the outcome of an evaluation must satisfy. -/
def Accepts (C : Contract) (m : Machine) : EStateM.Result Exit Machine α → Prop
  | .ok _ m' => C.holds m' ∧ C.step m m'
  | .error e m' => C.holds m' ∧ C.step m m' ∧ C.exits e m'

/-- Two evaluations do the same from a machine, and respect the contract there. -/
def MeetsAt (C : Contract) (m : Machine) (x y : Eval α) : Prop := x m = y m ∧ C.Accepts m (y m)

/-- Two evaluations do the same where the invariant holds, and respect the contract. -/
def Meets (C : Contract) (x y : Eval α) : Prop := ∀ m, C.holds m → C.MeetsAt m x y

/-- An evaluation respects the contract. -/
abbrev Keeps (C : Contract) (x : Eval α) : Prop := C.Meets x x

theorem step_refl : C.step m m := C.step_of_follows (Machine.Local.refl m).follows

theorem Accepts.trans {r : EStateM.Result Exit Machine α} (hr : C.Accepts m' r) (hs : C.step m m') :
    C.Accepts m r := by
  cases r with
  | ok a m'' => exact ⟨hr.1, C.step_trans hs hr.2⟩
  | error e m'' => exact ⟨hr.1, C.step_trans hs hr.2.1, hr.2.2⟩

/-- What one of two evaluations that do the same does respects the contract. -/
theorem Meets.left (h : C.Meets x y) : C.Keeps x := by
  intro m hm
  obtain ⟨he, ha⟩ := h m hm
  exact ⟨rfl, he ▸ ha⟩

theorem Keeps.after (h : C.Keeps x)
    (hm : C.holds m) : C.holds (x.after m) ∧ C.step m (x.after m) := by
  have ha := (h m hm).2
  rw [Eval.after]
  cases hx : x m with
  | ok a m' =>
    rw [hx] at ha
    exact ha
  | error e m' =>
    rw [hx] at ha
    exact ⟨ha.1, ha.2.1⟩

theorem keeps_of_accepts (hx : ∀ m, C.holds m → C.Accepts m (x m)) : C.Keeps x := fun m hm =>
  ⟨rfl, hx m hm⟩

/-! ## Sequences -/

@[simp] theorem keeps_pure {a : α} : C.Keeps (pure a) :=
  keeps_of_accepts fun _ hm => ⟨hm, step_refl⟩

@[simp] theorem Meets.bind (hx : C.Meets x y) (hf : ∀ a, C.Meets (f a) (g a)) :
    C.Meets (x >>= f) (y >>= g) := by
  intro m hm
  obtain ⟨he, ha⟩ := hx m hm
  simp only [MeetsAt, Bind.bind, EStateM.bind]
  rw [he]
  cases hy : y m with
  | ok a m' =>
    rw [hy] at ha
    obtain ⟨he', ha'⟩ := hf a m' ha.1
    exact ⟨he', ha'.trans ha.2⟩
  | error e m' =>
    rw [hy] at ha
    exact ⟨rfl, ha⟩

@[simp] theorem Meets.map {k : α → β} (hx : C.Meets x y) : C.Meets (k <$> x) (k <$> y) := by
  rw [map_eq_pure_bind, map_eq_pure_bind]
  exact hx.bind fun _ => keeps_pure

@[simp] theorem Meets.ite {p : Prop} [Decidable p] {x' y' : Eval α} (ht : p → C.Meets x y)
    (hf : ¬ p → C.Meets x' y') : C.Meets (if p then x else x') (if p then y else y') := by
  split
  · next h => exact ht h
  · next h => exact hf h

/-- An evaluation that looks at the machine first. -/
theorem meets_get_bind {f g : Machine → Eval α} (hf : ∀ m, C.holds m → C.Meets (f m) (g m)) :
    C.Meets (get >>= f) (get >>= g) :=
  fun m hm => hf m hm m hm

/-- An evaluation that looks at the heap first. -/
theorem meets_heap_bind {f g : Heap → Eval α}
    (hf : ∀ m, C.holds m → C.MeetsAt m (f m.heap) (g m.heap)) :
    C.Meets (Eval.heap >>= f) (Eval.heap >>= g) := hf

theorem keeps_exit_of_exits (he : ∀ m, C.exits e m) : C.Keeps (Eval.exit e : Eval α) :=
  keeps_of_accepts fun m hm => ⟨hm, step_refl, he m⟩

theorem keeps_exit (he : e.jump? = none) : C.Keeps (Eval.exit e : Eval α) :=
  keeps_exit_of_exits fun _ => C.exits_plain he

@[simp] theorem keeps_exhausted : C.Keeps (Eval.exit .exhausted : Eval α) := keeps_exit rfl

variable {kind : FaultKind} {message : Text} {span : Option Span}

@[simp] theorem keeps_fail {fault : Fault} : C.Keeps (Eval.fail fault : Eval α) := keeps_exit rfl

@[simp] theorem keeps_failWith : C.Keeps (Eval.failWith kind message span : Eval α) := keeps_fail

@[simp] theorem keeps_crash {kind : HostFailureKind} : C.Keeps (Eval.crash kind message : Eval α) :=
  keeps_exit rfl

theorem keeps_modifyGet {f : Machine → α × Machine} (hf : ∀ m : Machine, m.Local (f m).2) :
    C.Keeps (modifyGet f) :=
  keeps_of_accepts fun m hm => ⟨C.holds_of_local (hf m) hm, C.step_of_follows (hf m).follows⟩

theorem keeps_modify {f : Machine → Machine} (hf : ∀ m : Machine, m.Local (f m)) : C.Keeps (modify f) :=
  keeps_modifyGet (f := fun m => ((), f m)) hf

@[simp] theorem keeps_get : C.Keeps get :=
  keeps_of_accepts fun _ hm => ⟨hm, step_refl⟩

/-! ## Exits that are taken care of -/

/-- The contract that allows further exits. -/
def allowing (C : Contract) (E : Exit → Prop) : Contract :=
  { C with
    exits := fun e m => E e ∨ C.exits e m
    exits_of_step := fun he hs => he.imp_right (C.exits_of_step · hs)
    exits_plain := fun he => .inr (C.exits_plain he)
    exits_noting := fun he => he.imp_right C.exits_noting }

/-- The contract where an exit is known to be allowed. -/
def raising (C : Contract) (e : Exit) : Contract :=
  { C with
    holds := fun m => C.holds m ∧ C.exits e m
    holds_of_local := fun hl hm =>
      ⟨C.holds_of_local hl hm.1, C.exits_of_step hm.2 (C.step_of_follows hl.follows)⟩
    holds_newClosure := fun hf hm =>
      ⟨C.holds_newClosure hf hm.1, C.exits_of_step hm.2 (C.step_of_follows (Machine.follows_newClosure _ _))⟩
    holds_noting := fun hm => ⟨C.holds_noting hm.1, C.exits_noting hm.2⟩
    admits_closure := fun hm => C.admits_closure hm.1 }

theorem Accepts.mono {E : Exit → Prop} {r : EStateM.Result Exit Machine α}
    (hr : (C.allowing E).Accepts m r) (hE : ∀ e m', C.step m m' → E e → C.exits e m') :
    C.Accepts m r := by
  cases r with
  | ok a m' => exact hr
  | error e m' => exact ⟨hr.1, hr.2.1, hr.2.2.elim (hE e m' hr.2.1) id⟩

/-- A contract may be replaced by one that allows more exits. -/
theorem Meets.mono (hx : C.Meets x y) (hholds : D.holds = C.holds) (hstep : D.step = C.step)
    (hexits : ∀ e m, C.exits e m → D.exits e m) : D.Meets x y := by
  intro m hm
  obtain ⟨he, ha⟩ := hx m (hholds ▸ hm)
  refine ⟨he, ?_⟩
  cases hy : y m with
  | ok a m' =>
    rw [hy] at ha
    exact ⟨hholds ▸ ha.1, hstep ▸ ha.2⟩
  | error e m' =>
    rw [hy] at ha
    exact ⟨hholds ▸ ha.1, hstep ▸ ha.2.1, hexits e m' ha.2.2⟩

theorem Meets.allowing {E : Exit → Prop} (hx : C.Meets x y) : (C.allowing E).Meets x y :=
  hx.mono rfl rfl fun _ _ => .inr

theorem Meets.raising (hx : C.Meets x y) : (C.raising e).Meets x y := by
  intro m hm
  obtain ⟨he, ha⟩ := hx m hm.1
  refine ⟨he, ?_⟩
  cases hy : y m with
  | ok a m' => rw [hy] at ha; exact ⟨⟨ha.1, C.exits_of_step hm.2 ha.2⟩, ha.2⟩
  | error e' m' => rw [hy] at ha; exact ⟨⟨ha.1, C.exits_of_step hm.2 ha.2.1⟩, ha.2⟩

theorem keeps_raising : (C.raising e).Keeps (Eval.exit e : Eval α) :=
  keeps_of_accepts fun _ hm => ⟨hm, step_refl, hm.2⟩

theorem Accepts.of_raising {r : EStateM.Result Exit Machine α} (hr : (C.raising e).Accepts m r) :
    C.Accepts m r := by
  cases r with
  | ok a m' => exact ⟨hr.1.1, hr.2⟩
  | error e' m' => exact ⟨hr.1.1, hr.2⟩

/-- An evaluation whose exits are taken care of. An exit that is allowed here may be raised again. -/
theorem meets_attempt {E : Exit → Prop} {f g : Except Exit α → Eval β}
    (hx : (C.allowing E).Meets x y) (hok : ∀ a, C.Meets (f (.ok a)) (g (.ok a)))
    (hcaught : ∀ e, E e → C.Meets (f (.error e)) (g (.error e)))
    (hother : ∀ e, ¬ E e → (C.raising e).Meets (f (.error e)) (g (.error e))) :
    C.Meets (Eval.attempt x >>= f) (Eval.attempt y >>= g) := by
  intro m hm
  obtain ⟨he, ha⟩ := hx m hm
  simp only [MeetsAt, Bind.bind, EStateM.bind, Eval.attempt]
  rw [he]
  cases hy : y m with
  | ok a m' =>
    rw [hy] at ha
    obtain ⟨he', ha'⟩ := hok a m' ha.1
    exact ⟨he', ha'.trans ha.2⟩
  | error e m' =>
    rw [hy] at ha
    by_cases hE : E e
    · obtain ⟨he', ha'⟩ := hcaught e hE m' ha.1
      exact ⟨he', ha'.trans ha.2.1⟩
    · obtain ⟨he', ha'⟩ := hother e hE m' ⟨ha.1, ha.2.2.resolve_left hE⟩
      exact ⟨he', ha'.of_raising.trans ha.2.1⟩

/-- An evaluation of which every exit may be raised again. -/
theorem Meets.attempt {f g : Except Exit α → Eval β} (hx : C.Meets x y)
    (hok : ∀ a, C.Meets (f (.ok a)) (g (.ok a)))
    (herror : ∀ e, (C.raising e).Meets (f (.error e)) (g (.error e))) :
    C.Meets (Eval.attempt x >>= f) (Eval.attempt y >>= g) :=
  meets_attempt (E := fun _ => False) hx.allowing hok (fun _ h => h.elim) fun e _ => herror e

/-! ## Evaluations at another depth -/

/-- Evaluations at a depth `d` that respect the contract `D` may be a part of those that respect `C`. -/
structure Encloses (C D : Contract) (d : Nat) : Prop where
  enter : ∀ {m m' : Machine}, C.holds m → m.SameCode m' → m'.depth = d → D.holds m'
  leave : ∀ {m m' m'' : Machine},
    C.holds m → D.holds m' → m'.SameCode m'' → m''.depth = m.depth → C.holds m''
  step : ∀ {m m' : Machine}, D.step m m' → C.step m m'
  exits : ∀ {e : Exit} {m : Machine}, D.exits e m → C.exits e m

theorem Encloses.allowing {d : Nat} {E : Exit → Prop} (B : C.Encloses D d) :
    (C.allowing E).Encloses D d :=
  ⟨B.enter, B.leave, B.step, fun he => .inr (B.exits he)⟩

/-- An evaluation at another depth, between a step of the machine that changes the depth and one that
restores it. -/
theorem meets_enclosed {d : Nat} (B : C.Encloses D d) (enter leave : Machine → Machine)
    {f g : Except Exit α → Eval β} {E : Exit → Prop} (hm : C.holds m)
    (henter : ∀ m' : Machine, m'.SameCode (enter m') ∧ (enter m').depth = d)
    (hleave : ∀ m' : Machine, m'.SameCode (leave m') ∧ (leave m').depth = m.depth)
    (hx : (D.allowing E).Meets x y) (hok : ∀ a, C.Meets (f (.ok a)) (g (.ok a)))
    (hcaught : ∀ e, E e → C.Meets (f (.error e)) (g (.error e)))
    (hother : ∀ e, ¬ E e → (C.raising e).Meets (f (.error e)) (g (.error e))) :
    C.Meets (do modify enter; let r ← Eval.attempt x; modify leave; f r)
      (do modify enter; let r ← Eval.attempt y; modify leave; g r) := by
  intro m₁ hm₁
  obtain ⟨hf, hd⟩ := henter m₁
  obtain ⟨he, ha⟩ := hx _ (B.enter hm₁ hf hd)
  have hleft {m₂ : Machine} (hm₂ : D.holds m₂) (hs : D.step (enter m₁) m₂) :
      C.holds (leave m₂) ∧ C.step m₁ (leave m₂) ∧ C.step m₂ (leave m₂) := by
    have hl := C.step_of_follows (hleave m₂).1.follows
    exact ⟨B.leave hm hm₂ (hleave m₂).1 (hleave m₂).2,
      C.step_trans (C.step_of_follows hf.follows) (C.step_trans (B.step hs) hl), hl⟩
  rw [MeetsAt, Eval.run_between, Eval.run_between, he]
  cases hy : y (enter m₁) with
  | ok a m₂ =>
    rw [hy] at ha
    obtain ⟨hh, hs, -⟩ := hleft ha.1 ha.2
    obtain ⟨he', ha'⟩ := hok a _ hh
    exact ⟨he', ha'.trans hs⟩
  | error e m₂ =>
    rw [hy] at ha
    obtain ⟨hh, hs, hl⟩ := hleft ha.1 ha.2.1
    by_cases hE : E e
    · obtain ⟨he', ha'⟩ := hcaught e hE _ hh
      exact ⟨he', ha'.trans hs⟩
    · have hexit := C.exits_of_step (B.exits (ha.2.2.resolve_left hE)) hl
      obtain ⟨he', ha'⟩ := hother e hE _ ⟨hh, hexit⟩
      exact ⟨he', ha'.of_raising.trans hs⟩

/-! ## Lists -/

variable {ι : Type} {xs : List ι}

@[simp] theorem meets_forM {f g : ι → Eval Unit} (hf : ∀ i ∈ xs, C.Meets (f i) (g i)) :
    C.Meets (xs.forM f) (xs.forM g) := by
  induction xs with
  | nil => exact keeps_pure
  | cons i xs ih =>
    exact (hf i (.head _)).bind fun _ => ih fun j hj => hf j (.tail _ hj)

/-! ## The operations of the machine -/

@[simp] theorem keeps_heap : C.Keeps Eval.heap := keeps_get.bind fun _ => keeps_pure

/-- A change of the heap that leaves its functions as they are. -/
@[simp] theorem keeps_onHeap {f : Heap → α × Heap} (hf : ∀ h, (f h).2.closures = h.closures) :
    C.Keeps (Eval.onHeap f) :=
  keeps_modifyGet fun m => ⟨⟨rfl, hf m.heap, rfl, rfl⟩, rfl⟩

@[simp] theorem keeps_modifyHeap {f : Heap → Heap} (hf : ∀ h, (f h).closures = h.closures) :
    C.Keeps (Eval.modifyHeap f) :=
  keeps_onHeap hf

/-- The only way to add a function to the heap. -/
theorem keeps_newClosure {c : Closure} (hc : C.admits (.function c.definition)) :
    C.Keeps (Eval.onHeap (·.newClosure c)) :=
  keeps_of_accepts fun m hm =>
    ⟨C.holds_newClosure hc hm, C.step_of_follows (m.follows_newClosure c)⟩

variable {v : Value} {frame : Nat} {name : Text} {binding : BindingName}

@[simp] theorem keeps_readHeap {f : Heap → Except Fault α} : C.Keeps (Eval.readHeap f) := by
  refine keeps_heap.bind fun h => ?_
  split <;> simp

@[simp] theorem keeps_childFrame {isPure : Bool} : C.Keeps (Eval.childFrame frame name isPure) :=
  keeps_onHeap fun _ => rfl

@[simp] theorem keeps_define {constant : Bool} :
    C.Keeps (Eval.define frame binding v constant span) := by
  refine keeps_heap.bind fun h => ?_
  exact .ite (fun _ => keeps_fail) fun _ => keeps_modifyHeap fun _ => rfl

@[simp] theorem keeps_assign : C.Keeps (Eval.assign frame name v span) :=
  keeps_readHeap.bind fun _ => keeps_modifyHeap fun _ => rfl

theorem closures_declareExport {h h' : Heap} {altName : Option Text}
    (he : h.declareExport frame binding altName span = .ok h') : h'.closures = h.closures := by
  unfold Heap.declareExport at he
  split at he
  · cases he
    rfl
  · cases he

/-- The only change of the heap that is made from a copy of it. -/
@[simp] theorem keeps_declareExport {altName : Option Text} :
    C.Keeps (Eval.declareExport frame binding altName span) := by
  rw [Eval.declareExport, Eval.readHeap, bind_assoc]
  refine meets_heap_bind fun m hm => ?_
  cases he : m.heap.declareExport frame binding altName span with
  | error fault => exact keeps_fail m hm
  | ok h =>
    have hl : m.Local { m with heap := h } := ⟨⟨rfl, closures_declareExport he, rfl, rfl⟩, rfl⟩
    exact ⟨rfl, C.holds_of_local hl hm, C.step_of_follows hl.follows⟩

end Contract

end ScriptEngine

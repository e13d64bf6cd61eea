import ScriptEngine.Proofs.Eval.Plain
import ScriptEngine.Proofs.Module.Load
import ScriptEngine.Proofs.Value.Frames

/-!
# What evaluations do to frames and modules

A record of the changes that an evaluation makes, from which invariants of whole runs are derived
without looking at the evaluator again.

* **Runs** (`Machine.Runs s m m'`): from the machine `m` an evaluation in the frame `s` may lead to `m'`.
  There is one constructor for each way to change frames or modules: names are declared and offered in
  `s` alone, a name is given a new value where it is bound and no constant, what is entered has a new
  frame, and a module is evaluated if it has not been and is not being evaluated. What is done outside of
  the script lasts (`Machine.Runs.lasts`).
* **Evaluations in a frame** (`Eval.Within s x`): `x` does no more than this, however it ends. There is
  a rule for each way to build an evaluation and for each operation on bindings.
-/

namespace ScriptEngine

/-- A frame as it is made: nothing is bound or offered in it. -/
structure Frame.IsNew (f : Frame) : Prop where
  bindings : f.bindings = .empty
  constants : f.constants = []
  exports : f.exports = .empty

namespace Machine

/-- Where an evaluation in a frame may lead. -/
inductive Runs : Nat → Machine → Machine → Prop
  | still {s : Nat} {m m' : Machine} (hfollows : m.Follows m')
      (hframes : m'.heap.frames = m.heap.frames) (hlasts : m.Lasts m') : Runs s m m'
  | trans {s : Nat} {m m' m'' : Machine} (h : Runs s m m') (h' : Runs s m' m'') : Runs s m m''
  | define {s : Nat} {m : Machine} {name : BindingName} {v : Value} {constant : Bool}
      (hfree : m.heap.isConstant s name = false) :
      Runs s m (m.withHeap (m.heap.bind s name v constant))
  | assign {s f : Nat} {m : Machine} {name : BindingName} {v : Value}
      (hbound : (m.heap.frame f).bindings.contains name = true)
      (hfree : m.heap.isConstant f name = false) :
      Runs s m (m.withHeap (m.heap.bind f name v false))
  | offer {s : Nat} {m : Machine} {name offered : BindingName}
      (hbound : (m.heap.frame s).bindings.contains name = true) (hname : name = none ↔ offered = none) :
      Runs s m (m.withHeap (m.heap.modifyFrame s fun f =>
        { f with exports := f.exports.insert offered name }))
  | record {s : Nat} {m : Machine} {file : Option Text} :
      Runs s m (m.withHeap (m.heap.modifyFrame s fun f => { f with file := file }))
  | enter {s : Nat} {m m' : Machine} {f : Frame} (hnew : f.IsNew)
      (h : Runs m.heap.frames.size (m.withHeap (m.heap.newFrame f).2) m') : Runs s m m'
  | note {s : Nat} {m : Machine} {stage : TryStage} {c : Block} : Runs s m (m.noting stage c)
  | reuse {s : Nat} {m : Machine} {p : Path} {f : Nat} (h : m.modules.loaded.get? p = some f) :
      Runs s m (m.withModules (m.modules.noted ⟨p, f, false⟩))
  | abandon {s : Nat} {m m' : Machine} {p : Path} (hfirst : m.modules.loaded.get? p = none)
      (hidle : p ∉ m.modules.loading) (h : Runs s (m.entering p) m') :
      Runs s m (m'.leaving p none)
  | load {s : Nat} {m m' : Machine} {p : Path} {f : Nat} (hfirst : m.modules.loaded.get? p = none)
      (hidle : p ∉ m.modules.loading) (h : Runs s (m.entering p) m') :
      Runs s m (m'.leaving p (some f))

theorem Plain.runs {s : Nat} {m m' : Machine} (h : m.Plain m') (hlasts : m.Lasts m') : Runs s m m' :=
  .still h.follows h.frames hlasts

theorem Runs.refl {s : Nat} {m : Machine} : Runs s m m := (Plain.refl m).runs (.refl m)

theorem lasts_withHeap (m : Machine) (h : Heap) : m.Lasts (m.withHeap h) := .of_eq rfl rfl rfl

theorem lasts_withModules (m : Machine) (ms : Modules) : m.Lasts (m.withModules ms) := .of_eq rfl rfl rfl

/-- Listeners stay with their events and a stream stays listened to, whatever is run. -/
theorem Runs.lasts {s : Nat} {m m' : Machine} (h : Runs s m m') : m.Lasts m' := by
  induction h with
  | still _ _ hlasts => exact hlasts
  | trans _ _ ih ih' => exact ih.trans ih'
  | define | assign | offer | record | note | reuse => exact .of_eq rfl rfl rfl
  | enter _ _ ih => exact (lasts_withHeap _ _).trans ih
  | abandon _ _ _ ih | load _ _ _ ih =>
    exact (lasts_withModules _ _).trans (ih.trans (lasts_withModules _ _))

end Machine

namespace Eval

open Machine

variable {α β ι : Type} {s : Nat} {x y : Eval α} {f : α → Eval β} {m m' : Machine} {e : Exit}
  {xs : List ι} {v : Value} {span : Option Span}

/-- An evaluation in a frame, however it ends. -/
def Within (s : Nat) (x : Eval α) : Prop := ∀ m, Runs s m (x.after m)

theorem IsPlain.within (hx : x.IsPlain) : Within s x := fun m =>
  (hx.after m).runs (hx.lasts m)

/-! ## Rules -/

@[simp] theorem within_pure {a : α} : Within s (pure a) := fun _ => .refl

@[simp] theorem within_get : Within s get := fun _ => .refl

@[simp] theorem within_heap : Within s heap := fun _ => .refl

@[simp] theorem within_exit : Within s (exit e : Eval α) := fun _ => .refl

@[simp] theorem within_resume {r : Except Exit α} : Within s (resume r) := by
  cases r <;> exact fun _ => .refl

@[simp] theorem Within.bind (hx : Within s x) (hf : ∀ a, Within s (f a)) : Within s (x >>= f) := by
  intro m
  have hm := hx m
  cases h : x m with
  | ok a m' =>
    rw [after_of_ok h] at hm
    rw [after_bind_of_ok h]
    exact hm.trans (hf a m')
  | error e m' =>
    rw [after_of_error h] at hm
    rw [after_bind_of_error h]
    exact hm

/-- An evaluation that goes on from the machine that it has looked at. -/
theorem within_get_bind {k : Machine → Eval α} (hk : ∀ m, Runs s m ((k m).after m)) : Within s (get >>= k) := hk

@[simp] theorem Within.map {k : α → β} (hx : Within s x) : Within s (k <$> x) := by
  rw [map_eq_pure_bind]
  exact hx.bind fun _ => within_pure

@[simp] theorem Within.ite {p : Prop} [Decidable p] (ht : p → Within s x) (hf : ¬ p → Within s y) :
    Within s (if p then x else y) := by
  split
  · next h => exact ht h
  · next h => exact hf h

/-- What an evaluation does stays done when its exit is taken care of. -/
@[simp] theorem Within.attempt (hx : Within s x) : Within s (Eval.attempt x) := by
  intro m
  rw [after_attempt]
  exact hx m

@[simp] theorem within_forM {f : ι → Eval Unit} (hf : ∀ i ∈ xs, Within s (f i)) :
    Within s (xs.forM f) := by
  induction xs with
  | nil => exact within_pure
  | cons i xs ih => exact (hf i (.head _)).bind fun _ => ih fun j hj => hf j (.tail _ hj)

/-- A change of the machine apart from its heap, its modules and its journal of tries. -/
theorem within_modify {f : Machine → Machine} (hsettings : ∀ m, (f m).settings = m.settings)
    (hheap : ∀ m, (f m).heap = m.heap) (hmodules : ∀ m, (f m).modules = m.modules)
    (htries : ∀ m, (f m).tries = m.tries) (hlasts : ∀ m : Machine, m.Lasts (f m)) : Within s (modify f) := fun m =>
  have hsame : m.SameCode (f m) := .of_heap_eq (hsettings m) (hheap m) (hmodules m) (htries m)
  .still hsame.follows (congrArg Heap.frames (hheap m)) (hlasts m)

theorem within_note {stage : TryStage} {c : Block} : Within s (note stage c) := fun _ => .note

@[simp] theorem within_fail {fault : Fault} : Within s (fail fault : Eval α) := within_exit

@[simp] theorem within_failWith {kind : FaultKind} {message : Text} :
    Within s (failWith kind message span : Eval α) := within_exit

@[simp] theorem within_crash {kind : HostFailureKind} {message : Text} :
    Within s (crash kind message : Eval α) := within_exit

@[simp] theorem within_outsideLoop {keyword : Text} {s' : Span} :
    Within s (outsideLoop keyword s' : Eval α) := within_failWith

@[simp] theorem within_readHeap {f : Heap → Except Fault α} : Within s (readHeap f) := by
  refine within_heap.bind fun h => ?_
  split <;> simp

@[simp] theorem within_quotedForm : Within s (quotedForm v) := isPlain_quotedForm.within

theorem within_newClosure {c : Closure} : Within s (onHeap (·.newClosure c)) := fun m =>
  .still (m.follows_newClosure c) rfl (.of_eq rfl rfl rfl)

@[simp] theorem within_newArray {items : Array Value} : Within s (newArray items) :=
  isPlain_newArray.within

/-! ## Bindings -/

variable {name : BindingName}

@[simp] theorem within_define {constant : Bool} : Within s (define s name v constant span) := by
  intro m
  show Runs s m ((if m.heap.isConstant s name then fail (Heap.redeclared name span)
    else modifyHeap (·.bind s name v constant) : Eval Unit).after m)
  split
  · exact within_fail m
  · next h => exact .define (by simpa using h)

/-- An evaluation that goes on with what it has read, from the machine that it was read from. -/
theorem within_readHeap_bind {r : Heap → Except Fault α}
    (hf : ∀ m a, r m.heap = .ok a → Runs s m ((f a).after m)) : Within s (readHeap r >>= f) := by
  intro m
  cases hr : r m.heap with
  | error fault =>
    rw [after_bind_of_error (readHeap_error hr)]
    exact .refl
  | ok a =>
    rw [after_bind_of_ok (readHeap_ok hr)]
    exact hf m a hr

@[simp] theorem within_assign {frame : Nat} {name : Text} : Within s (assign frame name v span) := by
  refine within_readHeap_bind fun m owner ho => ?_
  obtain ⟨hbound, hfree⟩ := Heap.assignable_eq_ok ho
  exact .assign hbound hfree

/-- A name is offered by the frame that binds it; under another name, if it is not the nameless one. -/
theorem within_declareExport {altName : Option Text} (hname : name = none → altName = none) :
    Within s (declareExport s name altName span) := by
  refine within_readHeap_bind fun m h he => ?_
  obtain ⟨hbound, offered, hown, hnamed, rfl⟩ := Heap.declareExport_eq_ok he
  refine .offer hbound ⟨?_, hnamed⟩
  rintro rfl
  exact hown (hname rfl)

/-- What is done in a new frame is done in no other, and so in any. -/
theorem within_newFrame {fr : Frame} (hnew : fr.IsNew) {k : Nat → Eval α} (hk : ∀ f, Within f (k f)) :
    Within s (onHeap (·.newFrame fr) >>= k) := fun m =>
  .enter hnew (hk m.heap.frames.size _)

/-- After what is done in a new frame an evaluation goes on in its own. -/
theorem within_newFrame_bind {fr : Frame} (hnew : fr.IsNew) {x : Nat → Eval α} {k : Nat → α → Eval β}
    (hx : ∀ f, Within f (x f)) (hk : ∀ f a, Within s (k f a)) :
    Within s (onHeap (·.newFrame fr) >>= fun f => x f >>= k f) := by
  intro m
  have hinner := hx m.heap.frames.size (m.withHeap (m.heap.newFrame fr).2)
  show Runs s m ((x m.heap.frames.size >>= k m.heap.frames.size).after
    (m.withHeap (m.heap.newFrame fr).2))
  cases h : x m.heap.frames.size (m.withHeap (m.heap.newFrame fr).2) with
  | ok a m' =>
    rw [after_of_ok h] at hinner
    rw [after_bind_of_ok h]
    exact (Runs.enter hnew hinner).trans (hk _ a m')
  | error e m' =>
    rw [after_of_error h] at hinner
    rw [after_bind_of_error h]
    exact .enter hnew hinner

theorem within_childFrame {parent : Nat} {name : Text} {isPure : Bool} {k : Nat → Eval α}
    (hk : ∀ f, Within f (k f)) : Within s (childFrame parent name isPure >>= k) :=
  within_newFrame ⟨rfl, rfl, rfl⟩ hk

@[simp] theorem within_recordFile {file : Option Text} : Within s (Interp.recordFile s file) := by
  refine within_get.bind fun m => ?_
  split
  · exact .ite (fun _ _ => .record) fun _ => within_pure
  · exact within_pure

end Eval

end ScriptEngine

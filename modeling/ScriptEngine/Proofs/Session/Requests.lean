import Mathlib.Logic.Relation
import ScriptEngine.Proofs.Eval.Confined
import ScriptEngine.Session

/-!
# Requests to a session

* **Requests** (`Session.Request`): what a host may ask of a session. A request has an effect on the
  machine however it ends (`Session.Request.serve`).
* **Steps** (`Session.Step`): what may happen next, between requests and in the midst of one. The
  machines that a session passes through are reached by steps.
* `Request.runs`, `Step.effect`: what requests and steps do to frames and modules.
* `lasts_of_steps`: what lasts whatever the steps are.
-/

namespace ScriptEngine.Session

open Eval Interp Machine

/-- What a host may ask of a session. -/
inductive Request where
  | source (text : Text) (origin : Option Text)
  | file (path : Text)
  | call (name : Text) (args : List Datum)
  | emit (emitter : Nat) (event : Text) (args : List Datum)
  | load (path : Text) (importer : Option Text)
  | forget

/-- The machine after a request. -/
def Request.serve (m : Machine) : Request → Machine
  | .source text origin => (runSource text origin).after m
  | .file path => (runFile path).after m
  | .call name args => (callNamed name args).after m
  | .emit emitter event args => (emitNamed emitter event args).after m
  | .load path importer => (loadExports path importer).after m
  | .forget => forgetModules.after m

variable {s : Nat} {m m' : Machine}

theorem within_runSource {source : Text} {file : Option Text} :
    Within mainFrame (runSource source file) := by
  unfold runSource
  split
  · split
    · exact within_pure
    · exact within_exit
  · refine confined_session.runProgram.attempt.bind fun outcome => ?_
    split
    · exact within_pure
    · exact within_exit
    · exact within_exit
    · exact isPlain_caught.within.bind fun _ => within_pure
    · exact within_exit

theorem within_runFile {path : Text} : Within mainFrame (runFile path) := by
  refine within_get.bind fun m => ?_
  extract_lets files p
  split
  · exact within_runSource
  · exact within_crash

theorem isPlain_ofData {args : List Datum} : (onHeap (·.ofData args)).IsPlain :=
  isPlain_onHeap (fun h => h.cellsOnly_ofData args) fun _ h => h.ofData_shifted args

theorem within_callNamed {name : Text} {args : List Datum} : Within s (callNamed name args) :=
  within_readHeap.bind fun _ => isPlain_ofData.within.bind fun _ => confined_session.call

theorem within_emitNamed {emitter : Nat} {event : Text} {args : List Datum} :
    Within s (emitNamed emitter event args) :=
  isPlain_ofData.within.bind fun _ => confined_session.emit

theorem within_loadExports {path : Text} {importer : Option Text} :
    Within s (loadExports path importer) :=
  confined_session.loadModule.bind fun _ => within_heap.bind fun _ => within_pure

/-- A request runs in the main frame, unless it is to forget the modules. -/
theorem Request.runs {r : Request} (hr : r ≠ .forget) : Runs mainFrame m (r.serve m) := by
  cases r with
  | source text origin => exact within_runSource m
  | file path => exact within_runFile m
  | call name args => exact within_callNamed m
  | emit emitter event args => exact within_emitNamed m
  | load path importer => exact within_loadExports m
  | forget => exact absurd rfl hr

/-! ## Preparing a session -/

/-- A new emitter leaves the others as they are. It may be the one of a new stream. -/
theorem lasts_newEmitter (m : Machine) (e : Emitter) {s : Stream} (hs : s = m.stream ∨ s.emitter = m.emitters.size) :
    m.Lasts { m with emitters := m.emitters.push e, stream := s } where
  emitters_le := by simp
  listeners id event := by
    show Emitter.listenersOf (m.emitters.getD id default) event <+:
      Emitter.listenersOf ((m.emitters.push e).getD id default) event
    by_cases hid : id < m.emitters.size
    · rw [Array.getD_eq_getD_getElem?, Array.getD_eq_getD_getElem?, Array.getElem?_push_lt hid,
        Array.getElem?_eq_getElem hid]
    · rw [Array.getD_eq_getD_getElem?, Array.getElem?_eq_none (Nat.le_of_not_lt hid)]
      exact List.nil_prefix
  stream := by
    obtain rfl | hs := hs
    · exact .inl ⟨rfl, fun h => h⟩
    · exact .inr (Nat.le_of_eq hs.symm)

theorem isPlain_newEmitter {events : List Text} : (newEmitter events).IsPlain :=
  isPlain_get_bind (fun _ => .bind (isPlain_modify (fun _ => .of_heap_eq rfl rfl rfl rfl rfl)
    (fun m => lasts_newEmitter m _ (.inl rfl)) fun _ _ => rfl) fun _ =>
      isPlain_newTexts.bind fun _ => isPlain_newObject.bind fun _ => isPlain_pure) fun _ _ => rfl

/-- The library has a frame of its own; what it offers is bound in the global frame. -/
theorem within_loadLibrary {file : Text} {p : Program} : Within globalFrame (loadLibrary file p) := by
  refine within_newFrame_bind ⟨rfl, rfl, rfl⟩ (fun frame => ?_) fun frame _ => ?_
  · exact confined_session.runProgram
  · exact within_heap.bind fun _ => within_forM fun _ _ => within_define

/-- The stream is replaced while its emitter is made, so the two are one change of the machine. -/
theorem within_defineStream {chunks : List (List Nat)} : Within globalFrame (defineStream chunks) := by
  intro m
  let entry (n : Native) : Text × Value := (n.name, .plain (.native n))
  have hrest : Within globalFrame (newTexts ["receive", "close"] >>= fun list =>
      newObject (.ofList [("events", list)]) >>= fun v => newObject (.ofList [
        entry .streamRead, entry .streamWrite, entry .streamClose, entry .streamListen,
        ("events", v.setTag TagName.emitter (.emitter m.emitters.size))]) >>= fun stream =>
          define globalFrame (some "stream") stream false none) :=
    isPlain_newTexts.within.bind fun _ => isPlain_newObject.within.bind fun _ =>
      isPlain_newObject.within.bind fun _ => within_define
  have hsame : m.SameCode { m with emitters := m.emitters.push (.ofEvents ["receive", "close"]),
                                   stream := { incoming := chunks, emitter := m.emitters.size } } :=
    .of_heap_eq rfl rfl rfl rfl
  exact .trans (.still hsame.follows rfl (lasts_newEmitter m _ (.inr rfl))) (hrest _)

theorem within_prepare {p : Provisions} : Within globalFrame (prepare p) := by
  have hnatives : Within globalFrame defineNatives :=
    within_get.bind fun _ => isPlain_newObject.within.bind fun _ => within_define
  have hemitter (name : Text) (events : List Text) : Within globalFrame (defineEmitter name events) :=
    isPlain_newEmitter.within.bind fun _ => within_define
  refine hnatives.bind fun _ => ?_
  extract_lets k
  have hk : ∀ u, Within globalFrame (k u) := by
    intro u
    refine .bind (within_forM fun _ _ => hemitter _ _) fun _ => ?_
    split
    · exact within_defineStream
    · exact within_pure
  exact .ite (fun _ => (within_forM fun _ _ => within_loadLibrary).bind hk) fun _ => hk ()

/-! ## Steps -/

/-- What may happen next in a session: it is prepared, it serves a request, and in the midst of that an
expression, statements or a call are evaluated, a frame is opened, a name is bound, or the evaluation of a
module begins. -/
inductive Step : Machine → Machine → Prop
  | prepare {m : Machine} (p : Provisions) : Step m ((prepare p).after m)
  | request {m : Machine} (r : Request) : Step m (r.serve m)
  | eval {m : Machine} (n : Nat) (e : Expr) (s : Nat) : Step m (((ofLevel n).eval e s).after m)
  | exec {m : Machine} (n : Nat) (ss : List Stmt) (s : Nat) : Step m (((ofLevel n).exec ss s).after m)
  | call {m : Machine} (n : Nat) (f : Value) (args : List Value) (span : Option Span) :
      Step m (((ofLevel n).call f args span).after m)
  | enter {m : Machine} {f : Frame} (hnew : f.IsNew) : Step m (m.withHeap (m.heap.newFrame f).2)
  | define {m : Machine} (s : Nat) (name : BindingName) (v : Value) (constant : Bool)
      (span : Option Span) : Step m ((Eval.define s name v constant span).after m)
  | load {m : Machine} (p : Path) : Step m (m.entering p)

/-- A step is a run, opens a frame, or changes nothing but the modules. -/
theorem Step.effect (h : Step m m') :
    (∃ s, Runs s m m') ∨ (∃ f : Frame, f.IsNew ∧ m' = m.withHeap (m.heap.newFrame f).2) ∨
    ∃ ms, m' = m.withModules ms := by
  cases h with
  | prepare p => exact .inl ⟨_, within_prepare m⟩
  | request r =>
    by_cases hr : r = .forget
    · subst hr
      exact .inr (.inr ⟨_, rfl⟩)
    · exact .inl ⟨_, Request.runs hr⟩
  | eval n e s => exact .inl ⟨s, (confined_ofLevel n).eval e s m⟩
  | exec n ss s => exact .inl ⟨s, (confined_ofLevel n).exec ss s m⟩
  | call n f args span => exact .inl ⟨0, (confined_ofLevel n).call m⟩
  | enter hnew => exact .inr (.inl ⟨_, hnew, rfl⟩)
  | define s name v constant span => exact .inl ⟨s, within_define m⟩
  | load p => exact .inr (.inr ⟨_, rfl⟩)

theorem Step.lasts (h : Step m m') : m.Lasts m' := by
  obtain ⟨s, hrun⟩ | ⟨f, -, rfl⟩ | ⟨ms, rfl⟩ := h.effect
  · exact hrun.lasts
  · exact m.lasts_withHeap _
  · exact m.lasts_withModules _

/-- Listeners stay with their events and a stream stays listened to, whatever happens in a session. -/
theorem lasts_of_steps (h : Relation.ReflTransGen Step m m') : m.Lasts m' := by
  induction h with
  | refl => exact .refl m
  | tail _ hstep ih => exact ih.trans hstep.lasts

end ScriptEngine.Session

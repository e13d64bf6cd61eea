import ScriptEngine.Proofs.Enum.Carriage
import ScriptEngine.Proofs.Session.Constants

/-!
# What is reached in sessions

* **Genuine machines** (`Machine.Genuine`): all variants that values bear have been declared, and those that
  have been declared are distinct. What carries variants leads from genuine machines to genuine ones, and
  hands out no other variants (`Eval.Carries.faithful`).
* **Reached machines** (`Session.Reached`): sessions are prepared and serve requests, and runs may be stopped
  at any point. What a host hands in bears variants that it has got from the session. All machines that are
  reached in this way are genuine (`Session.Reached.genuine`).
-/

namespace ScriptEngine

variable {P Q : VariantTag → Prop} {m m' : Machine}

/-- All variants that values of the machine bear have been declared, and are distinct. -/
structure Machine.Genuine (m : Machine) : Prop extends m.Distinct where
  only : m.Only (· ∈ m.variants)

/-- The new machine is genuine and has all declarations of the old one. -/
structure Machine.Upholds (m m' : Machine) : Prop where
  genuine : m'.Genuine
  declared : m.declared <:+ m'.declared

/-- Variants that come up from a genuine machine have been declared. -/
theorem Machine.Leads.mem_of_genuine (h : m.Leads (· ∈ m.variants) Q m') (t : VariantTag) (ht : Q t) :
    t ∈ m'.variants :=
  (h.new t ht).elim h.mem id

theorem Machine.Leads.upholds (h : m.Leads (· ∈ m.variants) Q m') (hm : m.Genuine) : m.Upholds m' :=
  ⟨⟨h.distinct hm.toDistinct, h.only.mono h.mem_of_genuine⟩, h.declared⟩

namespace Eval

variable {α : Type} {R : (VariantTag → Prop) → α → Prop} {x : Eval α}

/-- The machine stays genuine, and what is handed out bears variants that have been declared. -/
def Faithful (m : Machine) (R : (VariantTag → Prop) → α → Prop) : EStateM.Result Exit Machine α → Prop
  | .ok a m' => m.Upholds m' ∧ R (· ∈ m'.variants) a
  | .error e m' => m.Upholds m' ∧ e.Only (· ∈ m'.variants)

theorem Carries.upholds (hx : Carries (· ∈ m.variants) R x) (hm : m.Genuine) : m.Upholds (x.after m) := by
  obtain ⟨Q, ho⟩ := hx m hm.only
  exact ho.leads.upholds hm

/-- What an evaluation hands out bears variants that have been declared by its end. -/
theorem Carries.faithful (hx : Carries (· ∈ m.variants) R x) (hm : m.Genuine)
    (hR : ∀ {Q Q' : VariantTag → Prop} {a}, R Q a → (∀ t, Q t → Q' t) → R Q' a) : Faithful m R (x m) := by
  obtain ⟨Q, ho⟩ := hx m hm.only
  cases hr : x m with
  | ok a m' =>
    rw [hr] at ho
    exact ⟨ho.1.upholds hm, hR ho.2 ho.1.mem_of_genuine⟩
  | error e m' =>
    rw [hr] at ho
    exact ⟨ho.1.upholds hm, ho.2.mono ho.1.mem_of_genuine⟩

end Eval

namespace Session

open Eval Interp

/-! ## Requests -/

/-- What a host hands in with a request bears variants of `P`. -/
def Request.Only (P : VariantTag → Prop) : Request → Prop
  | .call _ args => ∀ d ∈ args, d.Only P
  | .emit _ _ args => ∀ d ∈ args, d.Only P
  | _ => True

theorem carries_runSource {source : Text} {file : Option Text} :
    Carries P (fun _ _ => True) (runSource source file) := by
  unfold runSource
  split
  · next e _ =>
    split
    · exact carries_pure trivial
    · next he =>
      refine carries_exit ?_
      unfold SourceError.exit
      split <;> trivial
  · refine carrying_session.runProgram.attempt.bind fun outcome Q _ ho => ?_
    split
    · exact carries_pure trivial
    · exact carries_exit trivial
    · exact carries_exit trivial
    · exact (relays_caught (e := .failed _) ho).andThen fun _ _ => carries_pure trivial
    · exact carries_exit ho

theorem carries_runFile {path : Text} : Carries P (fun _ _ => True) (runFile path) := by
  refine relays_get.andThen fun m _ => ?_
  extract_lets files p
  split
  · exact carries_runSource
  · exact relays_crash.carries

theorem relays_ofData {args : List Datum} (hargs : ∀ d ∈ args, d.Only P) :
    Relays P (AllOnly P) (onHeap (·.ofData args)) :=
  relays_onHeap fun _ hh => Heap.only_ofData hh hargs

theorem carries_callNamed {name : Text} {args : List Datum} (hargs : ∀ d ∈ args, d.Only P) :
    Carries P Value.Only (callNamed name args) :=
  relays_lookup.andThen fun _ hf => (relays_ofData hargs).andThen fun _ hvs => carrying_session.call hf hvs

theorem carries_emitNamed {emitter : Nat} {event : Text} {args : List Datum} (hargs : ∀ d ∈ args, d.Only P) :
    Carries P (fun _ _ => True) (emitNamed emitter event args) :=
  (relays_ofData hargs).andThen fun _ hvs => carrying_session.emit hvs

theorem carries_loadExports {path : Text} {importer : Option Text} :
    Carries P (fun _ _ => True) (loadExports path importer) :=
  carrying_session.loadModule.bind fun _ _ _ _ => relays_heap.andThen fun _ _ => carries_pure trivial

theorem Request.upholds {r : Request} (hm : m.Genuine) (hr : r.Only (· ∈ m.variants)) :
    m.Upholds (r.serve m) := by
  cases r with
  | source text origin => exact carries_runSource.upholds hm
  | file path => exact carries_runFile.upholds hm
  | call name args => exact (carries_callNamed hr).upholds hm
  | emit emitter event args => exact (carries_emitNamed hr).upholds hm
  | load path importer => exact carries_loadExports.upholds hm
  | forget =>
    have hforget : Relays (· ∈ m.variants) (fun _ => True) forgetModules :=
      relays_modify fun _ => ⟨rfl, rfl, rfl, rfl⟩
    exact (hforget.carries (R := fun _ _ => True)).upholds hm

/-! ## Preparing a session -/

theorem only_listenersOf_ofEvents {events : List Text} (event : Text) :
    AllOnly P ((Emitter.ofEvents events).listenersOf event) := by
  refine OrderedMap.forall_getD (OrderedMap.forall_ofList fun e he => ?_) .nil
  obtain ⟨name, -, rfl⟩ := List.mem_map.1 he
  exact .nil

theorem relays_newEmitter {events : List Text} : Relays P (fun r => r.2.Only P) (newEmitter events) := by
  refine relays_get.bind fun m _ => .bind (R := fun _ => True) (relays_modifyGet fun m hm => ⟨?_, trivial⟩)
    fun _ _ => relays_newTexts.bind fun list hlist => (relays_newObject ?_).bind fun v hv =>
      relays_pure (hv.setTag trivial)
  · exact .of_eq ⟨hm.heap, forall_getD_push (S := fun e : Emitter => ∀ event, AllOnly P (e.listenersOf event))
      hm.listeners only_listenersOf_ofEvents⟩ rfl rfl
  · exact OrderedMap.forall_ofList (List.forall_mem_singleton.2 hlist)

theorem relays_defineNatives : Relays P (fun _ => True) defineNatives := by
  refine relays_get.bind fun m _ => (relays_newObject (OrderedMap.forall_ofList fun e he => ?_)).bind
    fun _ hv => relays_define hv
  obtain ⟨n, -, rfl⟩ := List.mem_map.1 he
  exact Value.only_plain trivial

theorem relays_defineStream {chunks : List (List Nat)} : Relays P (fun _ => True) (defineStream chunks) := by
  refine relays_newEmitter.bind fun r hr => .bind (relays_modify fun _ => ⟨rfl, rfl, rfl, rfl⟩) fun _ _ =>
    (relays_newObject (OrderedMap.forall_ofList fun e he => ?_)).bind fun _ hv => relays_define hv
  simp only [List.mem_cons, List.not_mem_nil, or_false] at he
  obtain rfl | rfl | rfl | rfl | rfl := he
  · exact Value.only_plain trivial
  · exact Value.only_plain trivial
  · exact Value.only_plain trivial
  · exact Value.only_plain trivial
  · exact hr

/-- What a library offers becomes global. -/
theorem carries_loadLibrary {file : Text} {p : Program} :
    Carries P (fun _ _ => True) (loadLibrary file p) := by
  refine (relays_newFrame rfl).andThen
    fun frame _ => carrying_session.runProgram.bind fun _ _ _ _ => relays_heap.andThen fun h hh =>
      (relays_forM fun name _ => relays_define ?_).carries
  cases he : h.export? frame name with
  | none => exact Value.only_null
  | some v => exact hh.exported he

theorem carries_prepare {p : Provisions} : Carries P (fun _ _ => True) (prepare p) := by
  have hemitter {Q : VariantTag → Prop} (name : Text) (events : List Text) :
      Relays Q (fun _ => True) (defineEmitter name events) :=
    relays_newEmitter.bind fun _ hr => relays_define hr
  refine relays_defineNatives.andThen fun _ _ => ?_
  extract_lets k
  have hk : ∀ u Q, Carries Q (fun _ _ => True) (k u) := by
    intro u Q
    refine (relays_forM fun _ _ => hemitter _ _).andThen fun _ _ => ?_
    split
    · exact relays_defineStream.carries
    · exact carries_pure trivial
  exact .ite (fun _ => (carries_forM fun _ _ _ _ => carries_loadLibrary).bind fun u Q _ _ => hk u Q) fun _ =>
    hk () P

/-- A machine without variants is genuine. -/
theorem genuine_blank (settings : Settings) (input : Text) : (blank settings input).Genuine where
  nodup := .nil
  issued := nofun
  only := by
    refine ⟨⟨fun id => ?_, fun id => ?_, fun id => ?_, fun id => ?_⟩, fun id event => ?_⟩
    · simp [blank, Heap.withPrototypes, Heap.array, AllOnly]
    · have hempty : (blank settings input).heap.object id = .empty := by
        show (Array.replicate Prototype.names.length _).getD id _ = _
        rw [Array.getD_eq_getD_getElem?, Array.getElem?_replicate]
        split <;> rfl
      rw [hempty]
      exact .nil
    · simp [blank, Heap.withPrototypes, Heap.reference]
    · rw [(isNew_blank settings input id).bindings]
      exact .nil
    · have hnone : (blank settings input).emitters.getD id default = default := rfl
      rw [hnone]
      exact .nil

/-! ## Reached machines -/

/-- A part of a program that is run. -/
inductive Task where
  | eval (e : Expr) (frame : Nat)
  | exec (ss : List Stmt) (frame : Nat)
  | call (f : Value) (args : List Value) (span : Option Span)
  | program (p : Program) (frame : Nat)
  | load (path : Text) (importer : Option Text) (span : Option Span)

/-- A run of a task by an interpreter. A load has no value. -/
def Task.run (I : Interp) : Task → Eval Value
  | .eval e frame => I.eval e frame
  | .exec ss frame => I.exec ss frame
  | .call f args span => I.call f args span
  | .program p frame => I.runProgram p frame
  | .load path importer span => do
    let _ ← I.loadModule path importer span
    return .null

/-- What is handed in for a task bears variants of `P`. -/
def Task.Only (P : VariantTag → Prop) : Task → Prop
  | .call f args _ => f.Only P ∧ AllOnly P args
  | _ => True

theorem carries_task {I : Interp} (hI : I.Carrying) {t : Task} (ht : t.Only P) :
    Carries P Value.Only (t.run I) := by
  cases t with
  | eval e frame => exact hI.eval
  | exec ss frame => exact hI.exec
  | call f args span => exact hI.call ht.1 ht.2
  | program p frame => exact hI.runProgram
  | load path importer span => exact hI.loadModule.bind fun _ _ _ _ => carries_pure Value.only_null

/-- The machines that are reached in sessions: a session is prepared and serves requests, and in the midst of
that data are put into the heap, a frame is opened, a name is bound, or a task is run up to some point. -/
inductive Reached : Machine → Prop
  | blank (settings : Settings) (input : Text) : Reached (blank settings input)
  | prepare {m : Machine} (hm : Reached m) (p : Provisions) : Reached ((prepare p).after m)
  | request {m : Machine} (hm : Reached m) {r : Request} (hr : r.Only (· ∈ m.variants)) : Reached (r.serve m)
  | data {m : Machine} (hm : Reached m) {args : List Datum} (hargs : ∀ d ∈ args, d.Only (· ∈ m.variants)) :
      Reached ((onHeap (·.ofData args)).after m)
  | enter {m : Machine} (hm : Reached m) {f : Frame} (hnew : f.IsNew) :
      Reached ((onHeap (·.newFrame f)).after m)
  | define {m : Machine} (hm : Reached m) (s : Nat) (name : BindingName) {v : Value}
      (hv : v.Only (· ∈ m.variants)) (constant : Bool) (span : Option Span) :
      Reached ((Eval.define s name v constant span).after m)
  | run {m : Machine} (hm : Reached m) (allows : Activity → Machine → Bool) (n : Nat) {t : Task}
      (ht : t.Only (· ∈ m.variants)) : Reached ((t.run (watched allows (exit .exhausted) n {})).after m)

/-- In a session every variant that a value bears has been declared, and variants are distinct. -/
theorem Reached.genuine (hm : Reached m) : m.Genuine := by
  induction hm with
  | blank settings input => exact genuine_blank settings input
  | prepare _ p ih => exact (carries_prepare.upholds ih).genuine
  | request _ hr ih => exact (Request.upholds ih hr).genuine
  | data _ hargs ih => exact ((relays_ofData hargs).carries (R := fun Q => AllOnly Q) |>.upholds ih).genuine
  | enter _ hnew ih =>
    exact ((relays_newFrame hnew.bindings).carries (R := fun _ _ => True) |>.upholds ih).genuine
  | define _ s name hv constant span ih =>
    exact ((relays_define hv).carries (R := fun _ _ => True) |>.upholds ih).genuine
  | run _ allows n ht ih => exact ((carries_task (carrying_watched n {}) ht).upholds ih).genuine

end Session

end ScriptEngine

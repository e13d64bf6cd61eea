import ScriptEngine.Proofs.Eval.Settling
import ScriptEngine.Proofs.Native.Calls
import ScriptEngine.Proofs.Session.Requests

/-!
# Emitting events

What an emission does, by the calls of the listeners that the event has when it begins.

* `Listener.Reacts`: how the call of one listener ends, and what the log is told of it.
* `Listener.Calls`: the listeners of a list are called one after the other, each from the machine that those before it
  have left. What a listener does to the emitter in the meantime makes no difference to the list.
* `Listener.Calls.emit`: an emission is the calls of the listeners that there are when it begins.
* `Listener.emit_snapshot`: it comes to its end if each of these calls does, and what has been added meanwhile comes
  after those listeners from then on.
-/

namespace ScriptEngine

open Eval Interp

/-- The machine after something has been written to the log, unless there is nothing to write or the log is quiet. -/
def Machine.complaining (m : Machine) : Option Text → Machine
  | none => m
  | some complaint => if m.settings.logsErrors then { m with log := complaint :: m.log } else m

namespace Machine

variable (m : Machine) (c : Option Text)

/-- Nothing but the log is different. -/
theorem complaining_eq : ∃ log, m.complaining c = { m with log := log } := by
  cases c with
  | none => exact ⟨_, rfl⟩
  | some t =>
    rw [complaining]
    split <;> exact ⟨_, rfl⟩

theorem lasts_complaining : m.Lasts (m.complaining c) := by
  obtain ⟨log, h⟩ := m.complaining_eq c
  exact h ▸ .of_eq rfl rfl rfl

theorem stream_complaining : (m.complaining c).stream = m.stream := by
  obtain ⟨log, h⟩ := m.complaining_eq c
  rw [h]

theorem emitters_complaining : (m.complaining c).emitters = m.emitters := by
  obtain ⟨log, h⟩ := m.complaining_eq c
  rw [h]

end Machine

namespace Listener

/-- What the log is told of a listener that fails. -/
def complaint (event sort what : Text) : Text := "uncaught " ++ sort ++ " in '" ++ event ++ "' listener" ++ ": " ++ what

variable {id : Nat} {event : Text} {args listeners : List Value} {listener : Value}
  {m m' m₁ : Machine} {c : Option Text} {cs : List (Option Text)}

/-- A listener is called with the arguments of an event and ends by a value or by a failure, of which the log is
told. -/
inductive Reacts (event : Text) (args : List Value) (listener : Value) (m : Machine) : Option Text → Machine → Prop
  | value {v : Value} {m' : Machine}
      (hcall : Settles (fun n => (ofLevel n).call listener args none) m (.ok v m')) :
      Reacts event args listener m none m'
  | thrown {v : Value} {span : Option Span} {t : Text} {m' : Machine}
      (hcall : Settles (fun n => (ofLevel n).call listener args none) m (.error (.thrown v span) m'))
      (ht : m'.heap.display? v = some t) : Reacts event args listener m (some (complaint event "throw" t)) m'
  | failed {e : EngineError} {m' : Machine}
      (hcall : Settles (fun n => (ofLevel n).call listener args none) m (.error (.failed e) m')) :
      Reacts event args listener m (some (complaint event "fault" e.message)) m'

/-- Listeners are called one after the other with the arguments of an event, and the log is told of each that
fails. -/
inductive Calls (event : Text) (args : List Value) :
    List Value → Machine → List (Option Text) → Machine → Prop
  | nil {m : Machine} : Calls event args [] m [] m
  | cons {listener : Value} {rest : List Value} {m m₁ m' : Machine} {c : Option Text} {cs : List (Option Text)}
      (hfirst : Reacts event args listener m c m₁) (hrest : Calls event args rest (m₁.complaining c) cs m') :
      Calls event args (listener :: rest) m (c :: cs) m'

/-! ## One listener -/

theorem Reacts.lasts (h : Reacts event args listener m c m') : m.Lasts m' := by
  have hruns (n : Nat) : Machine.Runs 0 m (((ofLevel n).call listener args none).after m) :=
    (confined_ofLevel n).call m
  cases h with
  | value hcall =>
    obtain ⟨n, hn⟩ := hcall
    exact after_of_ok (hn n (Nat.le_refl n)) ▸ (hruns n).lasts
  | thrown hcall | failed hcall =>
    obtain ⟨n, hn⟩ := hcall
    exact after_of_error (hn n (Nat.le_refl n)) ▸ (hruns n).lasts

/-- A failure of a listener goes no further than to the log. -/
theorem Reacts.logged (h : Reacts event args listener m c m') :
    Settles (fun n => Native.logged (fun sort : Text => "uncaught " ++ sort ++ " in '" ++ event ++ "' listener")
      ((ofLevel n).call listener args none)) m (.ok () (m'.complaining c)) := by
  cases h with
  | value hcall => exact hcall.attempt_ok.bind (settles_of_eq fun _ => rfl)
  | thrown hcall ht =>
    refine hcall.attempt_error.bind (settles_of_eq fun _ => ?_)
    exact bind_ok (readText_ok (Heap.display?_eq_some_iff.1 ht))
  | failed hcall => exact hcall.attempt_error.bind (settles_of_eq fun _ => rfl)

/-! ## The listeners of a list -/

namespace Calls

theorem lasts (h : Calls event args listeners m cs m') : m.Lasts m' := by
  induction h with
  | nil => exact .refl _
  | cons hfirst _ ih => exact hfirst.lasts.trans ((Machine.lasts_complaining _ _).trans ih)

/-- One more listener is called after those of a list. -/
theorem concat (h : Calls event args listeners m cs m₁) (hlast : Reacts event args listener m₁ c m') :
    Calls event args (listeners ++ [listener]) m (cs ++ [c]) (m'.complaining c) := by
  induction h with
  | nil => exact .cons hlast .nil
  | cons hfirst _ ih => exact .cons hfirst (ih hlast)

/-- If each listener ends where it is called, all of them are called. What each of them keeps is kept by all. -/
theorem exists_of_reacts {Q : Machine → Prop} (hm : Q m)
    (hends : ∀ done listener rest cs m₁, listeners = done ++ listener :: rest → Calls event args done m cs m₁ →
      Q m₁ → ∃ c m₂, Reacts event args listener m₁ c m₂ ∧ Q (m₂.complaining c)) :
    ∃ cs m', Calls event args listeners m cs m' ∧ Q m' := by
  -- by the listeners that are still to be called, the others having been called
  suffices h : ∀ rest done cs m₁, listeners = done ++ rest → Calls event args done m cs m₁ → Q m₁ →
      ∃ cs m', Calls event args listeners m cs m' ∧ Q m' from h listeners [] [] m rfl .nil hm
  intro rest
  induction rest with
  | nil =>
    intro done cs m₁ hsplit hdone hq
    rw [List.append_nil] at hsplit
    exact ⟨cs, m₁, hsplit ▸ hdone, hq⟩
  | cons listener rest ih =>
    intro done cs m₁ hsplit hdone hq
    obtain ⟨c, m₂, hreacts, hq₂⟩ := hends done listener rest cs m₁ hsplit hdone hq
    exact ih (done ++ [listener]) _ _ (by simpa using hsplit) (hdone.concat hreacts) hq₂

theorem forM (h : Calls event args listeners m cs m') :
    Settles (fun n => listeners.forM fun listener =>
      Native.logged (fun sort : Text => "uncaught " ++ sort ++ " in '" ++ event ++ "' listener")
        ((ofLevel n).call listener args none)) m (.ok () m') := by
  induction h with
  | nil => exact settles_of_eq fun _ => rfl
  | cons hfirst _ ih => exact hfirst.logged.bind ih

/-- An emission calls the listeners that the event has when it begins, and tells how many these are. -/
theorem emit (h : Calls event args (m.listeners id event) m cs m') :
    Settles (fun n => Native.emit (ofLevel n) id event args) m (.ok (m.listeners id event).length m') := by
  have hrest := h.forM.bind (f := fun _ _ => return (m.listeners id event).length) (settles_of_eq fun _ => rfl)
  obtain ⟨N, hN⟩ := hrest
  exact ⟨N, fun n hn => hN n hn⟩

end Calls

/-! ## Registration -/

/-- A listener that is registered comes after those that the event has. -/
theorem listeners_of_listenTo {emitter v : Value} {span : Option Span} (hemitter : emitter.emitter? = some id)
    (h : Native.listenTo span emitter (.string event) listener m = .ok v m') :
    m'.listeners id event = m.listeners id event ++ [listener] := by
  rw [Native.listenTo, hemitter] at h
  dsimp only at h
  rw [bind_ok (text_run rfl)] at h
  cases hlistener : listener.isCallable with
  | false =>
    rw [hlistener] at h
    cases h
  | true =>
    rw [hlistener, if_neg (by decide), get_bind] at h
    cases hevent : (m.emitters.getD id default).listeners.get? event with
    | none =>
      rw [hevent] at h
      cases h
    | some present =>
      rw [hevent] at h
      cases h
      rw [Machine.listeners_insert hevent, if_pos ⟨rfl, rfl⟩, Machine.listeners_eq hevent]

/-! ## Emissions -/

/-- An emission calls the listeners that the event has when it begins, each once, in the order in which they were
registered, whatever they do, and tells how many there were; each failure of one goes to the log and no further. What
has been registered meanwhile comes after them, and stays there whatever happens later in the session. -/
theorem emit_snapshot
    (hends : ∀ done listener rest cs m₁, m.listeners id event = done ++ listener :: rest →
      Calls event args done m cs m₁ → ∃ c m₂, Reacts event args listener m₁ c m₂) :
    (∃ cs m', Calls event args (m.listeners id event) m cs m' ∧
      Settles (fun n => Native.emit (ofLevel n) id event args) m (.ok (m.listeners id event).length m') ∧
      ∃ added, m'.listeners id event = m.listeners id event ++ added ∧
        ∀ m'', Relation.ReflTransGen Session.Step m' m'' →
          ∃ later, m''.listeners id event = m.listeners id event ++ added ++ later) ∧
    ∀ {m₁ m₂ : Machine} {span : Option Span} {emitter listener v : Value}, emitter.emitter? = some id →
      Native.listenTo span emitter (.string event) listener m₁ = .ok v m₂ →
        m₂.listeners id event = m₁.listeners id event ++ [listener] := by
  obtain ⟨cs, m', hcalls, -⟩ := Calls.exists_of_reacts (Q := fun _ => True) trivial
    fun done listener rest cs m₁ hsplit hdone _ => by
      obtain ⟨c, m₂, hreacts⟩ := hends done listener rest cs m₁ hsplit hdone
      exact ⟨c, m₂, hreacts, trivial⟩
  obtain ⟨added, hadded⟩ := hcalls.lasts.listeners id event
  refine ⟨⟨cs, m', hcalls, hcalls.emit, added, hadded.symm, fun m'' hsteps => ?_⟩, listeners_of_listenTo⟩
  obtain ⟨later, hlater⟩ := (Session.lasts_of_steps hsteps).listeners id event
  exact ⟨later, by rw [hadded, hlater]⟩

/-- An emitter whose first listener registers a function, and whose second one takes other arguments. -/
def chime : Machine :=
  { emitters := #[⟨["ring"], .ofList [("ring", [.plain (.native .addEventListener), .plain (.native .floor)])]⟩] }

/-- The emitter as a value, its event and a function. -/
def chimeArgs : List Value :=
  [Value.null.setTag TagName.emitter (.emitter 0), .string "ring", .plain (.native .print)]

theorem reacts_registering : ∃ c m', Reacts "ring" chimeArgs (.plain (.native .addEventListener)) chime c m' :=
  ⟨none, _, .value (.succ (settles_of_eq fun _ => rfl))⟩

theorem reacts_floor : ∃ c m', Reacts "ring" chimeArgs (.plain (.native .floor)) m c m' :=
  ⟨_, _, .failed (.succ (settles_of_eq fun _ => rfl))⟩

theorem emit_snapshot_chime :
    ∃ cs m', Calls "ring" chimeArgs (chime.listeners 0 "ring") chime cs m' ∧
      Settles (fun n => Native.emit (ofLevel n) 0 "ring" chimeArgs) chime (.ok 2 m') ∧
      ∃ added, m'.listeners 0 "ring" = chime.listeners 0 "ring" ++ added ∧
        ∀ m'', Relation.ReflTransGen Session.Step m' m'' →
          ∃ later, m''.listeners 0 "ring" = chime.listeners 0 "ring" ++ added ++ later := by
  refine (emit_snapshot fun done listener rest cs m₁ hsplit hdone => ?_).1
  have hpresent : [Value.plain (.native .addEventListener), .plain (.native .floor)] = done ++ listener :: rest :=
    hsplit
  match done with
  | [] =>
    cases hpresent
    cases hdone
    exact reacts_registering
  | [_] =>
    cases hpresent
    exact reacts_floor
  | _ :: _ :: _ =>
    have hlength := congrArg List.length hpresent
    simp at hlength

end Listener

end ScriptEngine

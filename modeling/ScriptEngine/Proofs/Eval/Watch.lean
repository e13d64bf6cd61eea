import ScriptEngine.Proofs.Eval.Statement

/-!
# Watched runs

A run that is stopped before the first expression, statement or call where a condition fails. A run that is
the same as the watched one never comes to such a point, so that the condition holds all along the run.

* **Activity** (`Activity`) is how many calls of a thread are active, by phase: a call checks its constraints,
  or it runs its body. Watched runs (`Interp.watched`) keep count of them beside the machine.
* **Contracts by activity** (`Contract.ByActivity`): a contract for each activity, of which those of bodies
  and threads fit into those of their callers and starters. If such contracts imply the condition, watched
  runs are the same as those that are not watched (`Contract.ByActivity.governs_watched`).
-/

namespace ScriptEngine

/-- How many calls of a thread are active: those that run their body and those that check their
constraints. -/
structure Activity where
  bodies : Nat := 0
  checks : Nat := 0

namespace Activity

/-- One more call runs its body. -/
def running (a : Activity) : Activity := { a with bodies := a.bodies + 1 }

/-- One more call checks its constraints. -/
def checking (a : Activity) : Activity := { a with checks := a.checks + 1 }

/-- The number of active calls. -/
def calls (a : Activity) : Nat := a.bodies + a.checks

end Activity

namespace Interp

section

variable (allows : Activity → Machine → Bool) (refuse : Eval Value)

/-- An evaluation that is replaced if the activity is not allowed on the machine where it starts. -/
def watch (a : Activity) (x : Eval Value) : Eval Value := do
  if allows a (← get) then x else refuse

/-- The interpreter of a call of a value: the constraints of a function are checked by one activity and
its body is run by another, and threads start without active calls. -/
def duringCall (perActivity : Activity → Interp) (a : Activity) (f : Value) : Interp :=
  match f.payload with
  | .function _ => { perActivity a.checking with exec := (perActivity a.running).exec }
  | .native n => perActivity (if n.startsThread then {} else a)
  | _ => perActivity a

theorem duringCall_function {perActivity : Activity → Interp} {a : Activity} {f : Value} {id : Nat}
    (hf : f.payload = .function id) : duringCall perActivity a f =
      { perActivity a.checking with exec := (perActivity a.running).exec } := by
  rw [duringCall, hf]

theorem duringCall_native {perActivity : Activity → Interp} {a : Activity} {f : Value} {n : Native}
    (hf : f.payload = .native n) :
    duringCall perActivity a f = perActivity (if n.startsThread then {} else a) := by
  rw [duringCall, hf]

/-- The interpreter of a level that keeps count of the active calls and watches every evaluation. -/
def watched : Nat → Activity → Interp
  | 0, _ => exhausted
  | n + 1, a =>
    { fuel := n + 1
      eval := fun e frame => watch allows refuse a ((watched n a).expr e frame)
      exec := fun s frame => watch allows refuse a ((watched n a).stmts frame s)
      call := fun f args span =>
        watch allows refuse a ((duringCall (watched n) a f).apply f args span) }

end

end Interp

namespace Contract

variable {allows : Activity → Machine → Bool} {refuse : Eval Value}

theorem Meets.watch {C : Contract} {a : Activity} {x y : Eval Value} (hx : C.Meets x y)
    (hallows : ∀ m, C.holds m → allows a m = true) : C.Meets x (Interp.watch allows refuse a y) := by
  intro m hm
  have hw : Interp.watch allows refuse a y m = y m := by
    show (if allows a m then y else refuse) m = y m
    rw [if_pos (hallows m hm)]
  rw [MeetsAt, hw]
  exact hx m hm

/-- Contracts that fit into each other as the activities of a run do. Every exit is allowed. -/
structure ByActivity (C : Activity → Contract) : Prop where
  universal : ∀ a, (C a).Universal
  loads : ∀ a, (C a).Loads
  exits : ∀ {a e m}, (C a).exits e m
  checking : ∀ a, C a.checking = C a
  running : ∀ {a m}, (C a).holds m → m.depth < m.settings.callLimit.count →
    (C a).Encloses (C a.running) (m.depth + 1)
  thread : ∀ a, (C a).Encloses (C {}) 0

namespace ByActivity

variable {C : Activity → Contract} (hC : ByActivity C)

include hC

/-- A call of a function, given the runs of its constraints and, one call deeper, of its body. -/
theorem callClosure {a : Activity} {I J : Interp} {m : Machine} {c : Closure} {args : List Value}
    {span : Option Span} (hm : (C a).holds m)
    (hcheck : ∀ frame, ((C a).within c.definition.constraints).Meets
      (I.checkConstraints c frame span) (J.checkConstraints c frame span))
    (hbody : ∀ ss frame, ((C a.running).within (ss.map .stmt)).Meets (I.exec ss frame)
      (J.exec ss frame)) :
    (C a).MeetsAt m (I.callClosure c args span) (J.callClosure c args span) := by
  have hcall : ((C a).within c.definition.constraints).Meets
      (I.callClosure c args span) (J.callClosure c args span) :=
    meets_callClosure hcheck fun m hm hlt => ⟨C a.running, hC.running hm hlt, hbody _⟩
  obtain ⟨he, ha⟩ := hcall m hm
  exact ⟨he, ha.mono fun _ _ _ _ => hC.exits⟩

/-- Runs that are watched for what the contracts imply are the same as those that are not watched. -/
theorem governs_watched (hallows : ∀ a m, (C a).holds m → allows a m = true) (refuse : Eval Value)
    (n : Nat) (a : Activity) : (C a).Governs (.ofLevel n) (.watched allows refuse n a) := by
  induction n generalizing a with
  | zero => exact governs_exhausted (hC.loads a)
  | succ n ih =>
    have G := ih a
    have hadmits (a : Activity) := (hC.universal a).admits
    refine ⟨⟨fun he frame => (G.expr he frame).watch (hallows a), fun f args span => ?_⟩, hC.loads a, rfl,
      fun hss frame => (G.stmts hss frame).watch (hallows a)⟩
    refine (meets_apply (fun m id c hf hm hc => ?_) fun native hf => ?_).watch (hallows a)
    · rw [Interp.duringCall_function hf]
      have hcheck := ih a.checking
      rw [hC.checking] at hcheck
      have G' : (C a).GovernsExprs (.ofLevel n)
          { Interp.watched allows refuse n a.checking with
            exec := (Interp.watched allows refuse n a.running).exec } :=
        ⟨hcheck.evalAdmitted, hcheck.call⟩
      exact hC.callClosure hm (fun frame => G'.checkConstraints (hadmits a _) frame span)
        fun ss => (ih a.running).execAdmitted fun _ _ => hadmits _ _
    · rw [Interp.duringCall_native hf]
      refine meets_nativeCall (fun h => ?_) fun h => ⟨C {}, hC.thread a, ?_⟩
      · rw [h]
        exact G.call
      · rw [h]
        exact (ih {}).call

end ByActivity

end Contract

end ScriptEngine

import ScriptEngine.Proofs.Eval.CallBoundary
import ScriptEngine.Proofs.Eval.Levels
import ScriptEngine.Proofs.Eval.Watch
import ScriptEngine.Proofs.OrderedMap

/-!
# The depth of calls

An active call is in one of two phases: it checks its constraints, or it runs its body. The depth of the
machine counts the calls that run their body, and a call is refused if that many calls are allowed.

* The depth is the number of active calls that run their body, and never above the limit: runs that are
  watched for this (`Interp.counted`) are the same as those that are not.
* Calls that check their constraints are not counted, so that the number of active calls is not bounded
  (`Interp.active_calls_exceed_limit`).
* **Depth to spare** (`Interp.sparing`): a run that leaves calls to spare is the same where as many more calls are
  active, also behind further frames (`Machine.Closed.call_deeper`). A run of a low level leaves calls to spare
  (`Interp.sparing_call_eq`).
-/

namespace ScriptEngine

/-- The depth is the number of the calls that run their body, and not above the limit. -/
def Interp.counted (a : Activity) (m : Machine) : Bool :=
  m.depth = a.bodies ∧ a.bodies ≤ m.settings.callLimit.count

namespace Contract

/-- The contract of evaluations during an activity, under a limit. -/
def counting (limit : Nat) (a : Activity) : Contract where
  holds m := m.depth = a.bodies ∧ m.settings.callLimit.count = limit ∧ a.bodies ≤ limit
  step _ _ := True
  exits _ _ := True
  holds_of_local hl hm := ⟨hl.depth.trans hm.1, hl.settings ▸ hm.2⟩
  holds_newClosure _ hm := hm
  step_of_follows _ := trivial
  step_trans _ _ := trivial
  exits_of_step _ _ := trivial
  exits_plain _ := trivial
  holds_noting hm := hm
  exits_noting _ := trivial
  step_try _ _ := trivial

instance {limit : Nat} {a : Activity} : (counting limit a).Universal := ⟨fun _ => trivial⟩

theorem encloses_counting {limit d : Nat} {a b : Activity} (hd : d = b.bodies) (hb : b.bodies ≤ limit) :
    (counting limit a).Encloses (counting limit b) d where
  enter hm hf h := ⟨h.trans hd, hf.settings ▸ hm.2.1, hb⟩
  leave hm hm' hf h := ⟨h.trans hm.1, hf.settings ▸ hm'.2.1, hm.2.2⟩
  step _ := trivial
  exits _ := trivial

theorem byActivity_counting (limit : Nat) : ByActivity (counting limit) where
  universal _ := inferInstance
  loads _ := ⟨fun _ => trivial, fun hm => ⟨hm, trivial⟩, fun hm _ _ _ => hm, fun _ _ hm _ => ⟨hm, trivial⟩, id⟩
  exits := trivial
  checking _ := rfl
  running {a m} hm hlt := by
    rw [hm.1, hm.2.1] at *
    exact encloses_counting rfl hlt
  thread _ := encloses_counting rfl (Nat.zero_le _)

end Contract

namespace Heap

theorem object_newObject (h : Heap) (entries : OrderedMap Text Value) :
    (h.newObject entries).2.object h.objects.size = entries := by
  simp [newObject, object]

/-- The type of a new error object is its kind. -/
theorem newError_type (h : Heap) (message kind : Text) (data : Option Value) (span : Option Span) :
    ∃ id, (h.newError message kind data span).1.payload = .object id ∧
      ((h.newError message kind data span).2.object id).get? "type" = some (.string kind) := by
  refine ⟨h.objects.size, rfl, ?_⟩
  unfold newError
  extract_lets place entries
  have hkeys : (entries.map Prod.fst).Nodup := by
    have hplace : place = [] ∨
        ∃ l c : Value, place = [(("line" : Text), l), (("column" : Text), c)] := by
      unfold place
      split
      · split
        · exact .inr ⟨_, _, rfl⟩
        · exact .inl rfl
      · exact .inl rfl
    unfold entries
    obtain h | ⟨l, c, h⟩ := hplace <;> rw [h] <;> simp only [List.map_cons, List.map_nil] <;> decide
  show ((h.newObject (.ofList entries)).2.object h.objects.size).get? "type" = _
  rw [object_newObject, OrderedMap.get?_eq_some_iff, OrderedMap.entries_ofList hkeys]
  exact .tail _ (.head _)

end Heap

theorem Fault.code_diagnostic (f : Fault) : f.diagnostic.code = f.kind.code := rfl

namespace Interp

/-- A call at the limit is refused by a fault that a handler receives as an error object. -/
theorem callClosure_at_limit (I : Interp) {c : Closure} {args : List Value} {span : Option Span}
    {m : Machine} (h : m.settings.callLimit.count ≤ m.depth) :
    ∃ fault, I.callClosure c args span m = .error (.failed (.fault fault)) m ∧
      fault.diagnostic.code = "E413" ∧
      ∃ v id m', caught? (.failed (.fault fault)) m = .ok (some v) m' ∧ v.payload = .object id ∧
        (m'.heap.object id).get? "type" = some (.string "RecursionError") := by
  refine ⟨{ kind := .recursion, span := span, message := "maximum call depth (" ++
    m.settings.callLimit.shown ++ ") exceeded in " ++ c.name ++ "()" }, ?_, ?_, ?_⟩
  · show (if m.settings.callLimit.count ≤ m.depth then _ else _ : Eval Value) m = _
    rw [if_pos h]
    rfl
  · rw [Fault.code_diagnostic]
    rfl
  · obtain ⟨id, hid, htype⟩ := m.heap.newError_type ("maximum call depth (" ++
      m.settings.callLimit.shown ++ ") exceeded in " ++ c.name ++ "()") "RecursionError" none
      (span.getD Span.unknown)
    exact ⟨_, id, _, rfl, hid, htype⟩

/-- Calls that check their constraints are within the limit as far as the depth leaves room for them. -/
theorem calls_le_limit_iff {a : Activity} {m : Machine} (h : counted a m = true) :
    a.calls ≤ m.settings.callLimit.count ↔ a.checks ≤ m.settings.callLimit.count - m.depth := by
  obtain ⟨hd, hle⟩ : m.depth = a.bodies ∧ a.bodies ≤ m.settings.callLimit.count := by
    simpa [counted] using h
  unfold Activity.calls
  omega

/-- At every point of every run the depth is the number of active calls that run their body, which is
not above the limit, so that all active calls are within the limit exactly where those that check their
constraints fit in what the depth leaves of it. A call at the limit is refused by a fault that scripts
can catch. -/
theorem depth_counts_bodies (refuse : Eval Value) (n : Nat) {a : Activity} {m : Machine}
    (hd : m.depth = a.bodies) (ha : a.bodies ≤ m.settings.callLimit.count) :
    ((∀ e frame, (watched counted refuse n a).eval e frame m = (ofLevel n).eval e frame m) ∧
      (∀ ss frame, (watched counted refuse n a).exec ss frame m = (ofLevel n).exec ss frame m) ∧
      (∀ f args span,
        (watched counted refuse n a).call f args span m = (ofLevel n).call f args span m) ∧
      ∀ p frame,
        (watched counted refuse n a).runProgram p frame m = (ofLevel n).runProgram p frame m) ∧
    (∀ a m, counted a m = true →
      (a.calls ≤ m.settings.callLimit.count ↔ a.checks ≤ m.settings.callLimit.count - m.depth)) ∧
    ∀ (I : Interp) (c : Closure) (args : List Value) (span : Option Span) (m : Machine),
      m.settings.callLimit.count ≤ m.depth →
      ∃ fault, I.callClosure c args span m = .error (.failed (.fault fault)) m ∧
        fault.diagnostic.code = "E413" ∧
        ∃ v id m', caught? (.failed (.fault fault)) m = .ok (some v) m' ∧ v.payload = .object id ∧
          (m'.heap.object id).get? "type" = some (.string "RecursionError") := by
  have hcounted (a : Activity) (m' : Machine)
      (hm : (Contract.counting m.settings.callLimit.count a).holds m') : counted a m' = true := by
    simp [counted, hm.1, hm.2.1, hm.2.2]
  have G := (Contract.byActivity_counting _).governs_watched hcounted refuse n a
  have hm : (Contract.counting m.settings.callLimit.count a).holds m := ⟨hd, rfl, ha⟩
  refine ⟨⟨fun e frame => ?_, fun ss frame => ?_, fun f args span => ?_, fun p frame => ?_⟩,
    fun a m h => calls_le_limit_iff h, fun I c args span m h => I.callClosure_at_limit h⟩
  · exact (G.eval e frame m hm).1.symm
  · exact (G.exec ss frame m hm).1.symm
  · exact (G.call f args span m hm).1.symm
  · exact (G.runProgram m hm).1.symm

theorem depth_counts_bodies_breaker :
    (watched counted (Eval.exit .exhausted) 9 {}).call (.plain (.function 0)) [] none
      (machineWith breaker) = (ofLevel 9).call (.plain (.function 0)) [] none (machineWith breaker) ∧
    ∃ fault, (ofLevel 9).callClosure ⟨breaker, 1⟩ [] none { machineWith breaker with depth := 400 } =
        .error (.failed (.fault fault)) { machineWith breaker with depth := 400 } ∧
      fault.diagnostic.code = "E413" := by
  have h := depth_counts_bodies (Eval.exit .exhausted) 9 (a := {}) (m := machineWith breaker) rfl
    (Nat.zero_le _)
  obtain ⟨fault, hf, hc, -⟩ := h.2.2 (ofLevel 9) ⟨breaker, 1⟩ [] none
    { machineWith breaker with depth := 400 } (Nat.le_refl 400)
  exact ⟨h.1.2.2.1 _ _ _, fault, hf, hc⟩

/-- The settings with a limit of one call. -/
def singleCall : Settings := { callLimit := ⟨1, "1"⟩ }

/-- A function that calls another in its where clause. -/
def callInClause : Text := "(func() where (func() { true })() { true })()"

/-- Two calls are active at a time under a limit of one: a run that is refused where more calls are
active than the limit allows is another one than the run itself, which ends without a fault. -/
theorem active_calls_exceed_limit :
    isOk ((ofLevel 16).runText singleCall callInClause) = true ∧
    isOk ((watched (fun a m => a.calls ≤ m.settings.callLimit.count) (Eval.exit .exhausted) 16 {}).runText
      singleCall callInClause) = false := by
  rw [callInClause, Text.ofString_ofList]
  constructor <;> decide +kernel

/-! ## Depth to spare -/

open Eval

/-- The interpreter of a level that runs out of fuel at a call that would not be allowed if `k` more calls were
active. -/
def sparing (k : Nat) : Nat → Interp
  | 0 => exhausted
  | n + 1 =>
    { above (n + 1) fun _ => sparing k n with
      call := fun f args span => do
        if (← get).Spares k f then (sparing k n).apply f args span else Eval.exit .exhausted }

section

variable {s : Shift} {k n n' d : Nat} {m m' : Machine} {f v : Value} {args : List Value} {span : Option Span}

/-- What leaves calls to spare is done in the same way with as many more active calls. A thread leaves as many of
its own. -/
theorem relocates_sparing (hn : n ≤ n') (hs : s.depth ≤ k) : (sparing k n).Relocates (ofLevel n') s := by
  induction n generalizing n' s with
  | zero => exact ⟨Nat.zero_le _, fun _ _ => runsOut_exit.shifts, fun _ _ => runsOut_exit.shifts, runsOut_exit.shifts⟩
  | succ n ih =>
    obtain ⟨n', rfl⟩ : ∃ i, n' = i + 1 := ⟨n' - 1, by omega⟩
    have hle := Nat.le_of_succ_le_succ hn
    have hbelow := ih hle hs
    refine ⟨hn, hbelow.expr, fun ss i => hbelow.stmts ss i, fun {f args span} m hm => ?_⟩
    show ShiftsAt s id (if m.Spares k f then (sparing k n).apply f args span else Eval.exit .exhausted)
      ((ofLevel n').apply f args span) m
    split
    · next h =>
      have hd : m.Spares s.depth f := fun hf => Nat.lt_of_le_of_lt (Nat.add_le_add_left hs m.depth) (h hf)
      exact hbelow.apply (ih hle (Nat.zero_le k)) (.inr hd) hm
    · exact .inl ⟨m, rfl⟩

theorem call_of_sparing (hn : n ≤ n') (h : (sparing k n).call f args span m = .ok v m') :
    (ofLevel n').call f args span m = .ok v m' := by
  have hcall : Shifts .still id ((sparing k n).call f args span) ((ofLevel n').call f args span) :=
    (relocates_sparing (s := .still) hn (Nat.zero_le k)).call
  obtain ⟨_, hout⟩ | hsame := hcall.approximates m
  · cases h.symm.trans hout
  · exact hsame.symm.trans h

end

end Interp

/-- A call that leaves calls to spare gives the same with as many more active calls, behind further frames. -/
theorem Machine.Closed.call_deeper {m m' : Machine} (hm : m.Closed) {k n n' d : Nat} (hd : d ≤ k) (hn : n ≤ n')
    {f v : Value} {args : List Value} {span : Option Span} (h : (Interp.sparing k n).call f args span m = .ok v m')
    (fs : List Frame) :
    ∃ m'', (Interp.ofLevel n').call f args span ((m.withHeap (m.heap.adding fs)).withDepth (m.depth + d)) = .ok v m'' ∧
      m''.heap.arrays = m'.heap.arrays := by
  have hcall : Eval.Shifts (.behind m fs d) id ((Interp.sparing k n).call f args span)
      ((Interp.ofLevel n').call f args span) := (Interp.relocates_sparing hn hd).call
  obtain ⟨_, hout⟩ | ⟨hrun, -⟩ := hcall m (Nat.le_refl _)
  · cases h.symm.trans hout
  · rw [hm.shifted, h] at hrun
    exact ⟨_, hrun, rfl⟩

namespace Contract

/-- A level that is too low to use up the depth leaves calls to spare. -/
theorem governs_sparing {limit k n : Nat} {a : Activity} (h : a.bodies + n + k ≤ limit) :
    (counting limit a).Governs (.ofLevel n) (.sparing k n) := by
  have hC := byActivity_counting limit
  have hadmits (a : Activity) := (hC.universal a).admits
  induction n generalizing a with
  | zero => exact governs_exhausted (hC.loads a)
  | succ n ih =>
    have G := ih (a := a) (by omega)
    have hbody := ih (a := a.running) (by show a.bodies + 1 + n + k ≤ limit; omega)
    have hthread := ih (a := {}) (by show 0 + n + k ≤ limit; omega)
    have happly (f : Value) (args : List Value) (span : Option Span) :
        (counting limit a).Meets ((Interp.ofLevel n).apply f args span) ((Interp.sparing k n).apply f args span) :=
      meets_apply (fun m id c _ hm _ => hC.callClosure hm
        (fun frame => G.toGovernsExprs.checkConstraints (hadmits a _) frame span)
        fun ss => hbody.execAdmitted fun _ _ => hadmits _ _)
        fun _ _ => meets_nativeCall (fun _ => G.call) fun _ => ⟨counting limit {}, hC.thread a, hthread.call⟩
    refine ⟨⟨fun he frame => G.expr he frame, fun f args span m hm => ?_⟩, hC.loads a, rfl,
      fun hss frame => G.stmts hss frame⟩
    have hspares : m.Spares k f := fun _ => by
      obtain ⟨hd, hlimit, -⟩ := hm
      omega
    have hrun : (Interp.sparing k (n + 1)).call f args span m = (Interp.sparing k n).apply f args span m := by
      show (if m.Spares k f then _ else _ : Eval Value) m = _
      rw [if_pos hspares]
    rw [MeetsAt, hrun]
    exact happly f args span m hm

end Contract

/-- A call of a level that is too low to use up the depth leaves calls to spare. -/
theorem Interp.sparing_call_eq {m : Machine} {n k : Nat} (h : m.depth + n + k ≤ m.settings.callLimit.count) (f : Value)
    (args : List Value) (span : Option Span) :
    (sparing k n).call f args span m = (ofLevel n).call f args span m :=
  ((Contract.governs_sparing (a := ⟨m.depth, 0⟩) h).call f args span m ⟨rfl, rfl, by show m.depth ≤ _; omega⟩).1.symm

end ScriptEngine

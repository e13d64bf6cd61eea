import ScriptEngine.Proofs.Eval.Calling
import ScriptEngine.Session

/-!
# Members and methods

A member is looked for in the value itself and then in its prototypes. Reading a member and calling a method find the
same function, but only the call hands the receiver to a function that is found in a prototype: what is read is not
bound to the value that it is read from.

* `Heap.Resolves`: at which of the four levels a name is found.
* `Heap.method_eq_ok_iff`, `Heap.member_eq_ok_iff`: reading and calling find the same.
* `method_call_inserts_receiver`: what a method call does, and what reading the method and calling it does.
-/

namespace ScriptEngine

namespace Heap

/-- A name is found in a value or one of its prototypes: in the value itself, in the prototype that it carries, in
that of its kind, or in that of all kinds, the first of these that has it. The truth value tells whether it is a
prototype. -/
inductive Resolves (h : Heap) (v : Value) (name : Text) : Bool → Value → Prop
  | own {f : Value} (hf : h.ownMember? v name = some f) : Resolves h v name false f
  | carried {p f : Value} (hv : h.ownMember? v name = none) (hp : h.ownPrototype? v = some p)
      (hf : h.ownMember? p name = some f) : Resolves h v name true f
  | ofKind {f : Value} (hv : h.ownMember? v name = none)
      (hp : ∀ p ∈ h.ownPrototype? v, h.ownMember? p name = none)
      (hf : h.ownMember? (.plain (.object (Prototype.ofKind v.kind))) name = some f) : Resolves h v name true f
  | ofAny {f : Value} (hv : h.ownMember? v name = none)
      (hp : ∀ p ∈ h.ownPrototype? v, h.ownMember? p name = none)
      (hk : h.ownMember? (.plain (.object (Prototype.ofKind v.kind))) name = none)
      (hf : h.ownMember? (.plain (.object Prototype.any)) name = some f) : Resolves h v name true f

variable {h : Heap} {v f : Value} {name : Text} {inherited : Bool} {span : Span}

/-- The prototypes in order: the one that the value carries, if any, that of its kind and that of all kinds. -/
theorem inherited?_eq_some_iff : h.inherited? v name = some f ↔
    (∃ p, h.ownPrototype? v = some p ∧ h.ownMember? p name = some f) ∨
    (∀ p ∈ h.ownPrototype? v, h.ownMember? p name = none) ∧
      (h.ownMember? (.plain (.object (Prototype.ofKind v.kind))) name = some f ∨
        h.ownMember? (.plain (.object (Prototype.ofKind v.kind))) name = none ∧
          h.ownMember? (.plain (.object Prototype.any)) name = some f) := by
  unfold inherited? prototypeChain
  rcases h.ownPrototype? v with _ | p
  · cases hk : h.ownMember? (.plain (.object (Prototype.ofKind v.kind))) name <;> simp [hk]
  · cases hp : h.ownMember? p name <;>
      cases hk : h.ownMember? (.plain (.object (Prototype.ofKind v.kind))) name <;> simp [hp, hk]

theorem resolves_own_iff : h.Resolves v name false f ↔ h.ownMember? v name = some f := by
  refine ⟨fun hf => ?_, .own⟩
  cases hf with
  | own hf => exact hf

theorem resolves_inherited_iff :
    h.Resolves v name true f ↔ h.ownMember? v name = none ∧ h.inherited? v name = some f := by
  rw [inherited?_eq_some_iff]
  constructor
  · intro hf
    cases hf with
    | carried hv hp hf => exact ⟨hv, .inl ⟨_, hp, hf⟩⟩
    | ofKind hv hp hf => exact ⟨hv, .inr ⟨hp, .inl hf⟩⟩
    | ofAny hv hp hk hf => exact ⟨hv, .inr ⟨hp, .inr ⟨hk, hf⟩⟩⟩
  · rintro ⟨hv, ⟨p, hp, hf⟩ | ⟨hp, hf | ⟨hk, hf⟩⟩⟩
    · exact .carried hv hp hf
    · exact .ofKind hv hp hf
    · exact .ofAny hv hp hk hf

/-- A method call finds what the four levels have. -/
theorem method_eq_ok_iff : h.method v name span = .ok (f, inherited) ↔ h.Resolves v name inherited f := by
  unfold method
  cases inherited
  · rw [resolves_own_iff]
    cases h.ownMember? v name <;> cases h.inherited? v name <;> simp
  · rw [resolves_inherited_iff]
    cases h.ownMember? v name <;> cases h.inherited? v name <;> simp

/-- Reading a member finds what the four levels have. An object without the member has null in its place. -/
theorem member_eq_ok_iff : h.member v name span = .ok f ↔
    (∃ inherited, h.Resolves v name inherited f) ∨
      v.kind = .object ∧ f = .null ∧ ∀ inherited g, ¬ h.Resolves v name inherited g := by
  simp only [Bool.exists_bool, Bool.forall_bool, resolves_own_iff, resolves_inherited_iff]
  unfold member
  rcases h.ownMember? v name with _ | own <;> rcases h.inherited? v name with _ | method
  · by_cases hkind : v.kind = .object <;> simp [hkind, eq_comm]
  all_goals simp

end Heap

namespace Interp

open Eval

/-- Reads a member of a value and calls what was read. -/
def readThenCall (I : Interp) (object : Expr) (name : Text) (args : List Expr) (memberSpan span : Span)
    (frame : Nat) : Eval Value := do
  let f ← I.expr (.member memberSpan object name) frame
  I.call f (← I.evalList frame args) span

/-- Evaluates arguments and calls a function with them, and with some values in front of them. -/
def callWith (I : Interp) (f : Value) (front : List Value) (args : List Expr) (span : Span) (frame : Nat) :
    Eval Value := do
  let values ← I.evalList frame args
  I.call f (front ++ values) span

variable {I : Interp} {object : Expr} {name : Text} {frame : Nat} {m m₁ : Machine} {receiver f : Value}
  {inherited : Bool}

/-- For a member that a value has, at whichever level: reading it gives the function that a method call finds. A method
call calls it with the receiver in front of the arguments if it comes from a prototype, and calling what was read calls
it with the arguments alone. So these end in the same way if the receiver has the member itself, and else if the
function does the same with and without the receiver in front. -/
theorem method_call_inserts_receiver (hreceiver : I.eval object frame m = .ok receiver m₁)
    (hf : m₁.heap.Resolves receiver name inherited f) (args : List Expr) (memberSpan span : Span) :
    I.expr (.member memberSpan object name) frame m = .ok f m₁ ∧
    I.expr (.call span (.member memberSpan object name) args) frame m =
      I.callWith f (if inherited then [receiver] else []) args span frame m₁ ∧
    I.readThenCall object name args memberSpan span frame m = I.callWith f [] args span frame m₁ ∧
    (I.readThenCall object name args memberSpan span frame m =
        I.expr (.call span (.member memberSpan object name) args) frame m ↔
      inherited = false ∨
        I.callWith f [] args span frame m₁ = I.callWith f [receiver] args span frame m₁) := by
  have hread : I.expr (.member memberSpan object name) frame m = .ok f m₁ := by
    have hmember : readHeap (·.member receiver name memberSpan) m₁ = .ok f m₁ :=
      readHeap_ok (Heap.member_eq_ok_iff.2 (.inl ⟨inherited, hf⟩))
    have hexpr : I.expr (.member memberSpan object name) frame = (do
        let receiver ← I.eval object frame
        readHeap (·.member receiver name memberSpan) : Eval Value) := rfl
    rw [hexpr, bind_ok hreceiver, hmember]
  have hcall : I.expr (.call span (.member memberSpan object name) args) frame m =
      I.callWith f (if inherited then [receiver] else []) args span frame m₁ := by
    have hmethod : readHeap (·.method receiver name memberSpan) m₁ = .ok (f, inherited) m₁ :=
      readHeap_ok (Heap.method_eq_ok_iff.2 hf)
    have hexpr : I.expr (.call span (.member memberSpan object name) args) frame =
        I.callExpr (.member memberSpan object name) args span frame := rfl
    rw [hexpr, callExpr, bind_ok hreceiver, bind_ok hmethod]
    cases inherited <;> rfl
  have hthen : I.readThenCall object name args memberSpan span frame m = I.callWith f [] args span frame m₁ :=
    bind_ok hread
  refine ⟨hread, hcall, hthen, ?_⟩
  rw [hthen, hcall]
  cases inherited <;> simp

/-- A machine in which numbers have `kind` for a method, which tells the kind of its argument. -/
def machineWithMethod : Machine :=
  (Session.blank {} []).withHeap ((Session.blank {} []).heap.modifyObject (Prototype.ofKind .number)
    (·.insert "kind" (.plain (.native .typeOf))))

/-- Called as a method, `kind` tells the kind of its receiver. Called after it was read, it lacks an argument. -/
theorem method_call_inserts_receiver_kind :
    let two : Expr := .literal .unknown (.number 2)
    let f := Value.plain (.native .typeOf)
    let m := machineWithMethod
    (ofLevel 1).eval two Session.mainFrame m = .ok (.number 2) m ∧
    m.heap.Resolves (.number 2) "kind" true f ∧
    (ofLevel 1).expr (.member .unknown two "kind") Session.mainFrame m = .ok f m ∧
    (ofLevel 1).expr (.call .unknown (.member .unknown two "kind") []) Session.mainFrame m =
      .ok (.string "number") m ∧
    ∃ e, (ofLevel 1).readThenCall two "kind" [] .unknown .unknown Session.mainFrame m = .error e m := by
  intro two f m
  have htwo : (ofLevel 1).eval two Session.mainFrame m = .ok (.number 2) m := rfl
  have hf : m.heap.Resolves (.number 2) "kind" true f := .ofKind rfl nofun rfl
  obtain ⟨hread, hcall, hthen, -⟩ := method_call_inserts_receiver htwo hf [] .unknown .unknown
  exact ⟨htwo, hf, hread, hcall.trans rfl, _, hthen.trans rfl⟩

end Interp

namespace Session

open Interp

/-- The value of a source that is run in a machine. -/
def valueIn? (m : Machine) (source : Text) : Option Value :=
  match runSource source none m with
  | .ok (.ok v) _ => some v
  | _ => none

/-- A method of numbers gets the number when it is called, but not when it is called after it was read. -/
theorem read_method_lacks_receiver :
    (valueIn? machineWithMethod "(2).kind()").map Value.payload = some (.string "number") ∧
    (valueIn? machineWithMethod "let f = (2).kind
try \x7b f() \x7d catch e \x7b e.type \x7d").map Value.payload = some (.string "ArityError") := by
  repeat rw [Text.ofString_ofList]
  constructor <;> decide +kernel

end Session

end ScriptEngine

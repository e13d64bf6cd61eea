import ScriptEngine.Eval.Expression
import ScriptEngine.Proofs.Enum.Bearing

/-!
# Variants in what is read

What is read from a heap where all variants are among `P` is among `P` again (`Reads P R`), and so are the
values in faults and exits, and what parameters are bound to.
-/

namespace ScriptEngine

variable {P Q : VariantTag → Prop}

/-! ## Faults and exits -/

/-- The variants of the data of a fault are among those of `P`. -/
def Fault.Only (P : VariantTag → Prop) (f : Fault) : Prop := ∀ v ∈ f.data, v.Only P

/-- The variants of the values in an error are among those of `P`. -/
def EngineError.Only (P : VariantTag → Prop) : EngineError → Prop
  | .fault f => f.Only P
  | .uncaught v _ _ => v.Only P
  | _ => True

/-- The variants of the values that an exit has are among those of `P`. -/
def Exit.Only (P : VariantTag → Prop) : Exit → Prop
  | .returned v _ => v.Only P
  | .thrown v _ => v.Only P
  | .failed e => e.Only P
  | _ => True

@[simp] theorem Fault.only_of_data {f : Fault} (h : f.data = none) : f.Only P := by
  rw [Fault.Only, h]
  exact nofun

theorem Exit.Only.mono {e : Exit} (h : e.Only P) (hPQ : ∀ t, P t → Q t) : e.Only Q := by
  cases e with
  | returned v s => exact Value.Only.mono h hPQ
  | thrown v s => exact Value.Only.mono h hPQ
  | failed error =>
    cases error with
    | fault f => exact fun v hv => (h v hv).mono hPQ
    | uncaught v s message => exact Value.Only.mono h hPQ
    | _ => trivial
  | _ => trivial

theorem Fault.Only.locatedAt {f : Fault} {span : Option Span} (h : f.Only P) : (f.locatedAt span).Only P := by
  unfold Fault.locatedAt
  split <;> exact h

/-! ## Readings -/

/-- What is read satisfies `R`; the fault of reading it is among `P`. -/
def Reads {α : Type} (P : VariantTag → Prop) (R : α → Prop) : Except Fault α → Prop
  | .ok a => R a
  | .error f => f.Only P

section

variable {α β : Type} {R : α → Prop} {S : β → Prop}

@[simp] theorem reads_ok {a : α} : Reads P R (.ok a) ↔ R a := .rfl

@[simp] theorem reads_error {f : Fault} : Reads P R (.error f) ↔ f.Only P := .rfl

theorem Reads.bind {r : Except Fault α} {f : α → Except Fault β} (hr : Reads P R r)
    (hf : ∀ a, R a → Reads P S (f a)) : Reads P S (r >>= f) := by
  cases r with
  | ok a => exact hf a hr
  | error fault => exact hr

theorem Reads.ite {p : Prop} [Decidable p] {r r' : Except Fault α} (ht : p → Reads P R r)
    (hf : ¬ p → Reads P R r') : Reads P R (if p then r else r') := by
  split
  · next h => exact ht h
  · next h => exact hf h

end

namespace Heap

variable {h : Heap} {v w : Value} {id : Nat} {name : Text} {span : Option Span} {place : Span}

theorem reads_resolveFrom {crossed : Bool} :
    Reads P (fun _ => True) (h.resolveFrom name span crossed id) := by
  fun_induction resolveFrom h name span crossed id <;> simp_all [capturedFault]

theorem reads_assignable : Reads P (fun _ => True) (h.assignable id name span) := by
  refine reads_resolveFrom.bind fun f _ => ?_
  split
  · exact Fault.only_of_data rfl
  · trivial

theorem reads_position {size : Nat} : Reads P (fun _ => True) (position v w size place) := by
  unfold position
  dsimp only
  split
  · exact Fault.only_of_data rfl
  · exact .ite (fun _ => trivial) fun _ => Fault.only_of_data rfl

theorem reads_objectKey : Reads P (fun _ => True) (objectKey v place) := by
  unfold objectKey
  split <;> simp

theorem reads_arithmetic {op : ArithOp} : Reads P (Value.Only P) (h.arithmetic op v w place) := by
  unfold arithmetic
  split
  · split <;> simp
  · split <;> simp [operandMismatch]
  · simp [operandMismatch]

theorem reads_comparison {op : CompareOp} : Reads P (fun _ => True) (h.comparison op v w place) := by
  unfold comparison
  split
  · trivial
  · trivial
  · split <;> simp [operandMismatch]

theorem reads_membership : Reads P (fun _ => True) (h.membership v w place) := by
  unfold membership
  split <;> simp

theorem reads_checkPure {f : FunctionDef} : Reads P (fun _ => True) (h.checkPure id f) := by
  unfold checkPure
  split <;> simp

namespace Only

variable (hh : h.Only P)

include hh

theorem lookup : Reads P (Value.Only P) (h.lookup id name span) :=
  reads_resolveFrom.bind fun f _ => OrderedMap.forall_getD (hh.frame f) Value.only_null

theorem declareExport {binding : BindingName} {altName : Option Text} :
    Reads P (Heap.Only P) (h.declareExport id binding altName span) := by
  unfold Heap.declareExport
  split
  · exact hh.modifyFrame fun _ hfr => hfr
  · exact Fault.only_of_data rfl

theorem ownMember (hm : h.ownMember? v name = some w) : w.Only P := by
  unfold ownMember? at hm
  split at hm
  · exact hh.object _ w (OrderedMap.mem_values_of_get? hm)
  · cases hm

theorem inherited (hm : h.inherited? v name = some w) : w.Only P := by
  obtain ⟨p, -, hp⟩ := List.exists_of_findSome?_eq_some hm
  exact hh.ownMember hp

theorem member : Reads P (Value.Only P) (h.member v name place) := by
  unfold Heap.member
  split
  · next own hm => exact hh.ownMember hm
  · next hm => exact hh.inherited hm
  · split <;> simp

theorem method : Reads P (fun r => r.1.Only P) (h.method v name place) := by
  unfold Heap.method
  split
  · next own hm => exact hh.ownMember hm
  · next hm => exact hh.inherited hm
  · simp

theorem element : Reads P (Value.Only P) (h.element v w place) := by
  unfold Heap.element
  split
  · next id _ =>
    refine reads_position.bind fun i _ => ?_
    rw [Array.getD_eq_getD_getElem?, ← Array.getElem?_toList, ← List.getD_eq_getElem?_getD]
    exact (hh.array id).getD
  · exact reads_position.bind fun _ _ => Value.only_string
  · exact reads_objectKey.bind fun _ _ => OrderedMap.forall_getD (hh.object _) Value.only_null
  · exact Fault.only_of_data rfl

theorem prototypeOf (hv : v.Only P) : (h.prototypeOf v).Only P := by
  unfold Heap.prototypeOf
  cases ho : h.ownPrototype? v with
  | none => exact Value.only_plain trivial
  | some p =>
    obtain ⟨q, hq, rfl⟩ := Option.map_eq_some_iff.1 (Option.eq_some_of_filter_eq_some ho)
    have hp := hv.prototype hq
    rw [Option.getD_some]
    split
    · exact hh.reference _
    · exact hp

theorem follow (hv : v.Only P) (hw : h.follow? v = some w) : w.Only P := by
  unfold Heap.follow? at hw
  generalize h.references.size + 1 = steps at hw
  induction steps generalizing v with
  | zero => cases hw
  | succ n ih =>
    unfold Heap.followIn? at hw
    split at hw
    · exact ih (hh.reference _) hw
    · cases hw
      exact hv

omit hh in
theorem enumerated {items : List Value} (hitems : AllOnly P items) :
    ∀ p ∈ Heap.enumerated items, p.1.Only P ∧ p.2.Only P := by
  intro p hp
  obtain ⟨⟨item, i⟩, hi, rfl⟩ := List.mem_map.1 hp
  exact ⟨Value.only_number, hitems item (List.fst_mem_of_mem_zipIdx hi)⟩

theorem pairs {ps : List (Value × Value)} (hp : h.pairs? v = some ps) :
    ∀ p ∈ ps, p.1.Only P ∧ p.2.Only P := by
  unfold Heap.pairs? at hp
  split at hp <;> cases hp <;> intro p hmem
  · exact enumerated (hh.array _) p hmem
  · exact enumerated (fun v hv => by obtain ⟨c, -, rfl⟩ := List.mem_map.1 hv; exact Value.only_string) p hmem
  · obtain ⟨e, he, rfl⟩ := List.mem_map.1 hmem
    exact ⟨Value.only_string, hh.object _ e.2 (List.mem_map_of_mem he)⟩

theorem exported {binding : BindingName} (he : h.export? id binding = some v) : v.Only P := by
  obtain ⟨n, -, he⟩ := Option.bind_eq_some_iff.1 he
  obtain ⟨inner, -, he⟩ := Option.bind_eq_some_iff.1 he
  exact hh.frame id v (OrderedMap.mem_values_of_get? he)

end Only

end Heap

theorem reads_rangeNumber {v : Value} {what : Text} {span : Span} :
    Reads P (fun _ => True) (rangeNumber v what span) := by
  unfold rangeNumber
  split
  · split <;> simp
  · simp

/-- The variants of what a parameter is bound to are among `P`. -/
def Argument.Only (P : VariantTag → Prop) : Argument → Prop
  | .one v => v.Only P
  | .rest vs => AllOnly P vs

theorem only_positional {ps : List Parameter} {args : List Value} (hargs : AllOnly P args) :
    ∀ b ∈ positional ps args, b.2.Only P := by
  intro b hb
  obtain ⟨p, -, rfl⟩ := List.mem_map.1 hb
  exact hargs.getD

/-- Parameters are bound to arguments. -/
theorem only_bindings {f : FunctionDef} {args : List Value} {bound : List (Text × Argument)}
    (hargs : AllOnly P args) (hb : bindings f args = some bound) : ∀ b ∈ bound, b.2.Only P := by
  unfold bindings at hb
  split at hb
  · split at hb
    · cases hb
    · cases hb
      exact only_positional hargs
  · cases hb
    intro b hb
    simp only [List.mem_append, List.mem_singleton] at hb
    obtain (hb | hb) | rfl := hb
    · exact only_positional hargs b hb
    · exact only_positional (fun v hv => hargs v (List.mem_of_mem_drop (List.mem_of_mem_drop hv))) b hb
    · exact fun v hv => hargs v (List.mem_of_mem_drop (List.mem_of_mem_take hv))

end ScriptEngine

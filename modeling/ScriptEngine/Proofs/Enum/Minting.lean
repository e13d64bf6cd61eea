import ScriptEngine.Proofs.Enum.Relay

/-!
# Declarations of enums

An enum declaration numbers the enum and its variants from the next number that has not been given out
(`Interp.declareEnum_run`), lists them, and offers them as an object. Variants that were distinct before are
distinct afterwards, the new ones among them.
-/

namespace ScriptEngine

open Machine

/-- The identity of an enum that is declared under a number. -/
def EnumDecl.tag (d : EnumDecl) (id : Nat) : EnumTag := ⟨d.name, id⟩

/-- Variants of an enum that are numbered from `first` on. -/
def EnumTag.numbered (enum : EnumTag) (first : Nat) (names : List Text) : List VariantTag :=
  (names.zipIdx first).map fun (name, id) => ⟨enum, name, id⟩

/-- The variants of an enum that is declared under a number. -/
def EnumDecl.variantsFrom (d : EnumDecl) (id : Nat) : List VariantTag :=
  (d.tag id).numbered (id + 1) d.variants

theorem EnumTag.names_numbered {enum : EnumTag} {first : Nat} {names : List Text} :
    (enum.numbered first names).map (·.name) = names := by
  rw [numbered, List.map_map]
  exact List.zipIdx_map_fst first names

theorem EnumTag.ids_numbered {enum : EnumTag} {first : Nat} {names : List Text} :
    (enum.numbered first names).map (·.id) = List.range' first names.length := by
  rw [numbered, List.map_map]
  exact List.zipIdx_map_snd first names

theorem EnumDecl.id_of_mem {d : EnumDecl} {id : Nat} {t : VariantTag} (ht : t ∈ d.variantsFrom id) :
    id < t.id ∧ t.id < id + 1 + d.variants.length := by
  have hid := List.mem_map_of_mem (f := (·.id)) ht
  rw [variantsFrom, EnumTag.ids_numbered, List.mem_range'_1] at hid
  omega

namespace Machine

/-- The machine after the variants of an enum have been numbered and listed. -/
def minting (m : Machine) (d : EnumDecl) : Machine :=
  { m with
    nextTag := m.nextTag + 1 + d.variants.length
    declared := d.variantsFrom m.nextTag :: m.declared }

variable {P : VariantTag → Prop} {m : Machine} {d : EnumDecl}

theorem variants_minting : (m.minting d).variants = d.variantsFrom m.nextTag ++ m.variants := rfl

theorem Distinct.minting (h : m.Distinct) : (m.minting d).Distinct := by
  constructor
  · rw [variants_minting, List.map_append, List.nodup_append]
    refine ⟨?_, h.nodup, ?_⟩
    · rw [EnumDecl.variantsFrom, EnumTag.ids_numbered]
      exact List.nodup_range'
    · -- the numbers of the new variants had not been given out
      intro i hi j hj
      obtain ⟨t, ht, rfl⟩ := List.mem_map.1 hi
      obtain ⟨u, hu, rfl⟩ := List.mem_map.1 hj
      have := EnumDecl.id_of_mem ht
      have := h.issued u hu
      omega
  · intro t ht
    show t.id < m.nextTag + 1 + d.variants.length
    rw [variants_minting, List.mem_append] at ht
    obtain ht | ht := ht
    · exact (EnumDecl.id_of_mem ht).2
    · have := h.issued t ht
      omega

/-- Among the variants are those that are declared, which is all that changes for values. -/
theorem Only.leads_minting (hm : m.Only P) :
    m.Leads P (fun t => P t ∨ t ∈ d.variantsFrom m.nextTag) (m.minting d) where
  declared := List.suffix_cons _ _
  distinct := .minting
  only := ⟨hm.heap.mono fun _ => Or.inl, fun id event => (hm.listeners id event).mono fun _ => Or.inl⟩
  known _ := .inl
  new _ ht := ht.imp_right fun h => List.mem_append_left _ h

end Machine

namespace Interp

open Eval

variable {P : VariantTag → Prop} {m : Machine} {d : EnumDecl} {frame : Nat}

theorem freshVariants_run {enum : EnumTag} {names : List Text} :
    freshVariants enum names m =
      .ok (enum.numbered m.nextTag names) { m with nextTag := m.nextTag + names.length } := by
  induction names generalizing m with
  | nil => rfl
  | cons name rest ih =>
    have hfresh : freshTag m = .ok m.nextTag { m with nextTag := m.nextTag + 1 } := rfl
    rw [freshVariants, bind_ok hfresh, bind_ok ih, List.length_cons, Nat.add_comm rest.length,
      ← Nat.add_assoc]
    rfl

/-- An enum as an object of its variants, bound as a constant. -/
def offerEnum (d : EnumDecl) (enum : EnumTag) (variants : List VariantTag) (frame : Nat) : Eval Value := do
  let holder ← Eval.newObject (.ofList (variants.map fun t => (t.name, .ofVariant t)))
  let v := holder.setTag TagName.enumBase (.enumBase enum)
  Eval.define frame (some d.name) v true d.span
  return v

/-- A declaration numbers and lists the variants before it offers them. -/
theorem declareEnum_run : declareEnum d frame m =
    offerEnum d (d.tag m.nextTag) (d.variantsFrom m.nextTag) frame (m.minting d) := by
  have hfresh : freshTag m = .ok m.nextTag { m with nextTag := m.nextTag + 1 } := rfl
  rw [declareEnum, bind_ok hfresh, bind_ok freshVariants_run]
  rfl

theorem relays_offerEnum {enum : EnumTag} {variants : List VariantTag} (h : ∀ t ∈ variants, P t) :
    Relays P (Value.Only P) (offerEnum d enum variants frame) := by
  refine (relays_newObject (OrderedMap.forall_ofList fun e he => ?_)).bind fun holder hholder => ?_
  · obtain ⟨t, ht, rfl⟩ := List.mem_map.1 he
    exact Value.only_ofVariant (h t ht)
  · have hv : (holder.setTag TagName.enumBase (.enumBase enum)).Only P := hholder.setTag trivial
    exact (relays_define hv).bind fun _ _ => relays_pure hv

theorem carries_declareEnum : Carries P Value.Only (declareEnum d frame) := by
  intro m hm
  have hminting := hm.leads_minting (d := d)
  refine ⟨fun t => P t ∨ t ∈ d.variantsFrom m.nextTag, ?_⟩
  rw [declareEnum_run]
  exact (relays_offerEnum (fun _ => Or.inr) _ hminting.only).trans hminting

theorem declared_after_define {name : BindingName} {v : Value} {constant : Bool} {span : Option Span} :
    ((define frame name v constant span).after m).declared = m.declared := by
  show ((if m.heap.isConstant frame name then fail (Heap.redeclared name span)
    else modifyHeap (·.bind frame name v constant) : Eval Unit).after m).declared = _
  split <;> rfl

theorem declared_after_offerEnum {enum : EnumTag} {variants : List VariantTag} :
    ((offerEnum d enum variants frame).after m).declared = m.declared := by
  let object := m.heap.newObject (.ofList (variants.map fun t => (t.name, .ofVariant t)))
  let v := object.1.setTag TagName.enumBase (.enumBase enum)
  show ((define frame (some d.name) v true d.span >>= fun _ => pure v).after
    { m with heap := object.2 }).declared = m.declared
  rw [after_bind_pure, declared_after_define]

/-- A declaration is listed once, however it ends. -/
theorem declared_after_declareEnum :
    ((declareEnum d frame).after m).declared = d.variantsFrom m.nextTag :: m.declared := by
  rw [Eval.after, declareEnum_run]
  exact declared_after_offerEnum

end Interp

end ScriptEngine

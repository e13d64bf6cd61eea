import ScriptEngine.Proofs.Value.Copying
import ScriptEngine.Proofs.Value.Frames
import ScriptEngine.Session

/-!
# The variants and numbers that values bear

A value bears the variants of its tags and those that its prototype bears. It has the number that it is, and
its prototype may have one.

* `Value.Only P`: all variants that a value bears are among `P`, and the numbers that it has are in normal
  form. It is a matter of the payload and the tags (`Value.only_iff`).
* `Heap.Only P`, `Machine.Only P`: this of every value in a cell, in a binding or among listeners. Every
  operation of the heap keeps to `P` if the values do that it is given, and what it reads from the heap is
  among `P`.
-/

namespace ScriptEngine

/-- If a payload is a number, it is in normal form. -/
def Payload.IsNormal : Payload → Prop
  | number x => x.IsNormal
  | _ => True

variable {P Q : VariantTag → Prop}

/-! ## Values -/

namespace Value

/-- A value bears a variant: it is in a tag, or the prototype in a tag bears it. -/
inductive Bears : Value → VariantTag → Prop
  | own {v : Value} {t : VariantTag} {name : Text} (h : (name, .variant t) ∈ v.tags) : Bears v t
  | inherited {v p : Value} {t : VariantTag} {name : Text} (h : (name, .prototype p) ∈ v.tags)
      (hp : Bears p t) : Bears v t

/-- A value has a number: it is that number, or the prototype in a tag has it. -/
inductive HasNumber : Value → Number → Prop
  | own {v : Value} {x : Number} (h : v.payload = .number x) : HasNumber v x
  | inherited {v p : Value} {x : Number} {name : Text} (h : (name, .prototype p) ∈ v.tags)
      (hp : HasNumber p x) : HasNumber v x

/-- All variants that a value bears are among those of `P`, and its numbers are in normal form. -/
structure Only (P : VariantTag → Prop) (v : Value) : Prop where
  bears : ∀ t, v.Bears t → P t
  numbers : ∀ x, v.HasNumber x → x.IsNormal

end Value

/-- All variants in a tag are among those of `P`. -/
def Tag.Only (P : VariantTag → Prop) : Tag → Prop
  | .variant t => P t
  | .prototype p => p.Only P
  | _ => True

namespace Value

variable {v w : Value} {t : VariantTag} {name : Text} {tag : Tag}

theorem only_iff : v.Only P ↔ v.payload.IsNormal ∧ ∀ e ∈ v.tags, e.2.Only P := by
  constructor
  · intro h
    constructor
    · cases hp : v.payload with
      | number x => exact h.numbers x (.own hp)
      | _ => trivial
    · rintro ⟨name, tag⟩ he
      cases tag with
      | variant t => exact h.bears t (.own he)
      | prototype p => exact ⟨fun t ht => h.bears t (.inherited he ht), fun x hx => h.numbers x (.inherited he hx)⟩
      | _ => trivial
  · rintro ⟨hp, htags⟩
    constructor
    · rintro t (he | ⟨he, ht⟩)
      · exact htags _ he
      · exact (htags _ he).bears t ht
    · rintro x (hx | ⟨he, hx⟩)
      · rw [hx] at hp
        exact hp
      · exact (htags _ he).numbers x hx

theorem Only.mono (h : v.Only P) (hPQ : ∀ t, P t → Q t) : v.Only Q :=
  ⟨fun t ht => hPQ t (h.bears t ht), h.numbers⟩

/-- Besides the tags only a number in the payload matters. -/
theorem Only.of_tags_subset (h : v.Only P) (hp : w.payload.IsNormal) (htags : w.tags ⊆ v.tags) :
    w.Only P :=
  only_iff.2 ⟨hp, fun e he => (only_iff.1 h).2 e (htags he)⟩

theorem only_plain {p : Payload} (hp : p.IsNormal) : (plain p).Only P := only_iff.2 ⟨hp, nofun⟩

@[simp] theorem only_null : null.Only P := only_plain trivial

@[simp] theorem only_bool {b : Bool} : (bool b).Only P := only_plain trivial

@[simp] theorem only_number {q : Rat} : (number q).Only P := only_plain (Number.isNormal_ofRat q)

@[simp] theorem only_string {s : Text} : (string s).Only P := only_plain trivial

theorem mem_putTag {tags : List (Text × Tag)} {e : Text × Tag} (h : e ∈ putTag name tag tags) :
    e = (name, tag) ∨ e ∈ tags := by
  induction tags with
  | nil => exact .inl (List.mem_singleton.1 h)
  | cons e' rest ih =>
    rw [putTag] at h
    split at h
    · obtain rfl | h := List.mem_cons.1 h
      · exact .inl rfl
      · exact .inr (.tail _ h)
    · obtain rfl | h := List.mem_cons.1 h
      · exact .inr (.head _)
      · exact (ih h).imp_right (.tail _)

theorem Only.setTag (h : v.Only P) (htag : tag.Only P) : (v.setTag name tag).Only P := by
  obtain ⟨hp, htags⟩ := only_iff.1 h
  refine only_iff.2 ⟨hp, fun e he => ?_⟩
  obtain rfl | he := mem_putTag he
  · exact htag
  · exact htags e he

theorem Only.eraseTag (h : v.Only P) : (v.eraseTag name).Only P :=
  h.of_tags_subset (only_iff.1 h).1 fun _ he => List.mem_of_mem_filter he

theorem Only.stamped (h : v.Only P) (ht : P t) : (v.stamped t).Only P := h.setTag ht

theorem only_ofVariant (ht : P t) : (ofVariant t).Only P := only_null.stamped ht

theorem mem_tags_of_tag? (h : v.tag? name = some tag) : ∃ name, (name, tag) ∈ v.tags := by
  obtain ⟨e, he, rfl⟩ := Option.map_eq_some_iff.1 h
  exact ⟨e.1, List.mem_of_find?_eq_some he⟩

/-- The variant that a value carries is one that it bears. -/
theorem bears_variant (h : v.variant? = some t) : v.Bears t := by
  unfold variant? at h
  split at h
  · next htag =>
    cases h
    obtain ⟨name, hmem⟩ := mem_tags_of_tag? htag
    exact .own hmem
  · cases h

theorem Only.prototype (h : v.Only P) {p : Value} (hp : v.prototype? = some p) : p.Only P := by
  unfold prototype? at hp
  split at hp
  · next htag =>
    cases hp
    obtain ⟨name, hmem⟩ := mem_tags_of_tag? htag
    exact (only_iff.1 h).2 _ hmem
  · cases hp

end Value

/-! ## Maps and lists of cells -/

namespace OrderedMap

variable {κ α : Type} {S : α → Prop} {m : OrderedMap κ α} {k : κ} {a : α}

theorem forall_mapValues {f : α → α} (h : ∀ b ∈ m.values, S b) (hf : ∀ b, S b → S (f b)) :
    ∀ b ∈ (m.mapValues f).values, S b := by
  intro b hb
  obtain ⟨e, he, rfl⟩ := List.mem_map.1 hb
  obtain ⟨e', he', rfl⟩ := List.mem_map.1 he
  exact hf _ (h _ (List.mem_map_of_mem he'))

variable [DecidableEq κ]

theorem mem_values_of_get? (h : m.get? k = some a) : a ∈ m.values :=
  List.mem_map_of_mem (f := Prod.snd) (get?_eq_some_iff.1 h)

theorem forall_getD (h : ∀ b ∈ m.values, S b) {d : α} (hd : S d) : S ((m.get? k).getD d) := by
  cases hk : m.get? k with
  | none => exact hd
  | some b => exact h b (mem_values_of_get? hk)

theorem forall_insert (h : ∀ b ∈ m.values, S b) (ha : S a) : ∀ b ∈ (m.insert k a).values, S b := by
  intro b hb
  obtain ⟨⟨k', b'⟩, he, rfl⟩ := List.mem_map.1 hb
  have hget : (m.insert k a).get? k' = some b' := get?_eq_some_iff.2 he
  rw [get?_insert] at hget
  split at hget
  · cases hget
    exact ha
  · exact h _ (mem_values_of_get? hget)

theorem forall_ofList {entries : List (κ × α)} (h : ∀ e ∈ entries, S e.2) :
    ∀ b ∈ (ofList entries).values, S b := by
  have hall (m : OrderedMap κ α) (hm : ∀ b ∈ m.values, S b) :
      ∀ b ∈ (entries.foldl (fun m e => m.insert e.1 e.2) m).values, S b := by
    induction entries generalizing m with
    | nil => exact hm
    | cons e rest ih =>
      exact ih (fun e' he' => h e' (.tail _ he')) _ (forall_insert hm (h e (.head _)))
  exact hall empty nofun

end OrderedMap

section

variable {α : Type} {S : α → Prop} {xs : Array α} {d : α}

theorem forall_getD_push (h : ∀ i, S (xs.getD i d)) {x : α} (hx : S x) (i : Nat) :
    S ((xs.push x).getD i d) := by
  have hi := h i
  rw [Array.getD_eq_getD_getElem?] at hi ⊢
  rw [Array.getElem?_push]
  split
  · exact hx
  · exact hi

theorem forall_getD_modify (h : ∀ i, S (xs.getD i d)) {f : α → α} (hf : ∀ x, S x → S (f x)) {j : Nat}
    (i : Nat) : S ((xs.modify j f).getD i d) := by
  have hi := h i
  rw [Array.getD_eq_getD_getElem?] at hi ⊢
  rw [Array.getElem?_modify]
  split
  · cases hx : xs[i]? with
    | none =>
      rw [hx] at hi
      exact hi
    | some x =>
      rw [hx] at hi
      exact hf x hi
  · exact hi

theorem forall_getD_set (h : ∀ i, S (xs.getD i d)) {x : α} (hx : S x) {j : Nat} (i : Nat) :
    S ((xs.setIfInBounds j x).getD i d) := by
  have hi := h i
  rw [Array.getD_eq_getD_getElem?] at hi ⊢
  rw [Array.getElem?_setIfInBounds]
  split
  · split
    · exact hx
    · next hj hlt =>
      rw [← hj, Array.getElem?_eq_none (Nat.le_of_not_lt hlt)] at hi
      exact hi
  · exact hi

theorem forall_getD_append (h : ∀ i, S (xs.getD i d)) (hd : S d) {ys : List α} (hys : ∀ y ∈ ys, S y)
    (i : Nat) : S ((xs ++ ys.toArray).getD i d) := by
  have hi := h i
  rw [Array.getD_eq_getD_getElem?] at hi ⊢
  by_cases hlt : i < xs.size
  · rwa [Array.getElem?_append_left hlt]
  · rw [Array.getElem?_append_right (Nat.le_of_not_lt hlt), List.getElem?_toArray]
    cases hy : ys[i - xs.size]? with
    | none => exact hd
    | some y => exact hys y (List.mem_of_getElem? hy)

end

/-! ## Heaps -/

/-- All variants that the values of a list bear are among those of `P`. -/
def AllOnly (P : VariantTag → Prop) (vs : List Value) : Prop := ∀ v ∈ vs, v.Only P

theorem AllOnly.mono {vs : List Value} (h : AllOnly P vs) (hPQ : ∀ t, P t → Q t) : AllOnly Q vs :=
  fun v hv => (h v hv).mono hPQ

theorem AllOnly.nil : AllOnly P [] := nofun

theorem AllOnly.cons {v : Value} {vs : List Value} (hv : v.Only P) (hvs : AllOnly P vs) :
    AllOnly P (v :: vs) :=
  List.forall_mem_cons.2 ⟨hv, hvs⟩

theorem AllOnly.getD {vs : List Value} (h : AllOnly P vs) {i : Nat} : (vs.getD i .null).Only P := by
  rw [List.getD_eq_getElem?_getD]
  cases hi : vs[i]? with
  | none => exact Value.only_null
  | some v => exact h v (List.mem_of_getElem? hi)

/-- All variants that values in the heap bear are among those of `P`. -/
structure Heap.Only (P : VariantTag → Prop) (h : Heap) : Prop where
  array : ∀ id, AllOnly P (h.array id).toList
  object : ∀ id, AllOnly P (h.object id).values
  reference : ∀ id, (h.reference id).Only P
  frame : ∀ id, AllOnly P (h.frame id).bindings.values

/-- The variants that a host has for data are among those of `P`. -/
inductive Datum.Only (P : VariantTag → Prop) : Datum → Prop
  | null : Only P .null
  | bool {b : Bool} : Only P (.bool b)
  | number {q : Rat} : Only P (.number q)
  | text {t : Text} : Only P (.text t)
  | list {items : List Datum} (h : ∀ d ∈ items, Only P d) : Only P (.list items)
  | object {members : List (Text × Datum)} (h : ∀ m ∈ members, Only P m.2) : Only P (.object members)
  | handle {v : Value} (h : v.Only P) : Only P (.handle v)

namespace Heap

variable {h : Heap} {v : Value} {id : Nat}

theorem Only.mono (hh : h.Only P) (hPQ : ∀ t, P t → Q t) : h.Only Q where
  array id v hv := (hh.array id v hv).mono hPQ
  object id v hv := (hh.object id v hv).mono hPQ
  reference id := (hh.reference id).mono hPQ
  frame id v hv := (hh.frame id v hv).mono hPQ

namespace Only

variable (hh : h.Only P)

include hh

theorem newArray {items : Array Value} (hitems : AllOnly P items.toList) : (h.newArray items).2.Only P :=
  ⟨forall_getD_push (S := fun a : Array Value => AllOnly P a.toList) hh.array hitems, hh.object,
    hh.reference, hh.frame⟩

theorem newObject {entries : OrderedMap Text Value} (hentries : AllOnly P entries.values) :
    (h.newObject entries).2.Only P :=
  ⟨hh.array, forall_getD_push (S := fun m : OrderedMap Text Value => AllOnly P m.values) hh.object hentries,
    hh.reference, hh.frame⟩

theorem newReference (hv : v.Only P) : (h.newReference v).2.Only P :=
  ⟨hh.array, hh.object, forall_getD_push hh.reference hv, hh.frame⟩

theorem newClosure {c : Closure} : (h.newClosure c).2.Only P :=
  ⟨hh.array, hh.object, hh.reference, hh.frame⟩

theorem newFrame {f : Frame} (hf : f.bindings = .empty) : (h.newFrame f).2.Only P := by
  have hnew : AllOnly P f.bindings.values := by
    rw [hf]
    exact nofun
  exact ⟨hh.array, hh.object, hh.reference,
    forall_getD_push (S := fun f : Frame => AllOnly P f.bindings.values) hh.frame hnew⟩

theorem modifyArray {f : Array Value → Array Value}
    (hf : ∀ items : Array Value, AllOnly P items.toList → AllOnly P (f items).toList) :
    (h.modifyArray id f).Only P :=
  ⟨forall_getD_modify (S := fun a : Array Value => AllOnly P a.toList) hh.array hf, hh.object,
    hh.reference, hh.frame⟩

theorem insertObject {key : Text} (hv : v.Only P) : (h.modifyObject id (·.insert key v)).Only P :=
  ⟨hh.array, forall_getD_modify (S := fun m : OrderedMap Text Value => AllOnly P m.values) hh.object
    fun _ hm => OrderedMap.forall_insert hm hv, hh.reference, hh.frame⟩

theorem setReference (hv : v.Only P) : (h.setReference id v).Only P :=
  ⟨hh.array, hh.object, forall_getD_set hh.reference hv, hh.frame⟩

theorem modifyFrame {f : Frame → Frame}
    (hf : ∀ fr : Frame, AllOnly P fr.bindings.values → AllOnly P (f fr).bindings.values) :
    (h.modifyFrame id f).Only P :=
  ⟨hh.array, hh.object, hh.reference,
    forall_getD_modify (S := fun f : Frame => AllOnly P f.bindings.values) hh.frame hf⟩

theorem bind {name : BindingName} {constant : Bool} (hv : v.Only P) :
    (h.bind id name v constant).Only P :=
  hh.modifyFrame fun _ hfr => OrderedMap.forall_insert hfr hv

theorem newError {message kind : Text} {data : Option Value} {span : Option Span}
    (hdata : ∀ v ∈ data, v.Only P) :
    (h.newError message kind data span).1.Only P ∧ (h.newError message kind data span).2.Only P := by
  have hvalue : (data.getD .null).Only P := by
    cases data with
    | none => exact Value.only_null
    | some v => exact hdata v rfl
  refine ⟨Value.Only.setTag (Value.only_plain trivial) trivial,
    hh.newObject (OrderedMap.forall_ofList fun e he => ?_)⟩
  simp only [List.mem_cons] at he
  obtain rfl | rfl | rfl | he := he
  · exact Value.only_string
  · exact Value.only_string
  · exact hvalue
  · split at he
    · split at he
      · simp only [List.mem_cons, List.not_mem_nil, or_false] at he
        obtain rfl | rfl := he <;> exact Value.only_number
      · cases he
    · cases he

omit hh in
theorem moved {cells : List Cell} (hv : v.Only P) : (h.moved cells v).Only P := by
  unfold Heap.moved
  split
  · next c _ =>
    split
    · exact hv.of_tags_subset (by cases c <;> trivial) fun _ he => he
    · exact hv
  · exact hv

theorem deepCopy (hv : v.Only P) : (h.deepCopy v).1.Only P ∧ (h.deepCopy v).2.Only P := by
  rw [Heap.deepCopy_eq]
  refine ⟨moved hv, ?_, ?_, hh.reference, hh.frame⟩
  · refine forall_getD_append (S := fun a : Array Value => AllOnly P a.toList) hh.array nofun fun a ha => ?_
    obtain ⟨id, -, rfl⟩ := List.mem_map.1 ha
    intro w hw
    rw [Array.toList_map] at hw
    obtain ⟨u, hu, rfl⟩ := List.mem_map.1 hw
    exact moved (hh.array id u hu)
  · refine forall_getD_append (S := fun m : OrderedMap Text Value => AllOnly P m.values) hh.object nofun
      fun m hm => ?_
    obtain ⟨id, -, rfl⟩ := List.mem_map.1 hm
    exact OrderedMap.forall_mapValues (hh.object id) fun _ => moved

theorem shallowCopy (hv : v.Only P) : (h.shallowCopy v).1.Only P ∧ (h.shallowCopy v).2.Only P := by
  unfold Heap.shallowCopy
  split
  · exact ⟨hv.of_tags_subset trivial fun _ he => he, hh.newArray (hh.array _)⟩
  · exact ⟨hv.of_tags_subset trivial fun _ he => he, hh.newObject (hh.object _)⟩
  · exact ⟨hv, hh⟩

end Only

mutual

theorem only_ofDatum {h : Heap} (hh : h.Only P) :
    ∀ {d : Datum}, d.Only P → (h.ofDatum d).1.Only P ∧ (h.ofDatum d).2.Only P
  | .null, _ => ⟨Value.only_null, hh⟩
  | .bool _, _ => ⟨Value.only_bool, hh⟩
  | .number _, _ => ⟨Value.only_number, hh⟩
  | .text _, _ => ⟨Value.only_string, hh⟩
  | .list _, .list hd =>
    have hdata := only_ofData hh hd
    ⟨Value.only_plain trivial, hdata.2.newArray hdata.1⟩
  | .object _, .object hd =>
    have hdata := only_ofMembers hh hd
    ⟨Value.only_plain trivial, hdata.2.newObject (OrderedMap.forall_ofList hdata.1)⟩
  | .handle _, .handle hv => ⟨hv, hh⟩

theorem only_ofData {h : Heap} (hh : h.Only P) : ∀ {ds : List Datum}, (∀ d ∈ ds, d.Only P) →
    AllOnly P (h.ofData ds).1 ∧ (h.ofData ds).2.Only P
  | [], _ => ⟨nofun, hh⟩
  | d :: _, hd =>
    have hfirst := only_ofDatum hh (hd d (.head _))
    have hrest := only_ofData hfirst.2 fun d' hd' => hd d' (.tail _ hd')
    ⟨List.forall_mem_cons.2 ⟨hfirst.1, hrest.1⟩, hrest.2⟩

theorem only_ofMembers {h : Heap} (hh : h.Only P) : ∀ {ms : List (Text × Datum)},
    (∀ m ∈ ms, m.2.Only P) → (∀ e ∈ (h.ofMembers ms).1, e.2.Only P) ∧ (h.ofMembers ms).2.Only P
  | [], _ => ⟨nofun, hh⟩
  | (key, d) :: _, hd =>
    have hfirst := only_ofDatum hh (hd (key, d) (.head _))
    have hrest := only_ofMembers hfirst.2 fun m hm => hd m (.tail _ hm)
    ⟨List.forall_mem_cons.2 ⟨hfirst.1, hrest.1⟩, hrest.2⟩

end

end Heap

end ScriptEngine

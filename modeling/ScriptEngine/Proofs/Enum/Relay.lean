import ScriptEngine.Eval.Statement
import ScriptEngine.Proofs.Enum.Reading
import ScriptEngine.Proofs.Eval.Run

/-!
# What becomes of variants

Two judgements on evaluations from machines where all variants are among `P`.

* **Relaying** (`Eval.Relays P R x`): `x` hands on variants of `P` and leaves no other behind, however it
  ends, and its result satisfies `R`. This is what evaluations do that run no script code.
* **Carrying** (`Eval.Carries P R x`): `x` may leave others behind, but these have been declared by then. The
  result satisfies `R Q`, where `Q` are the variants of `P` and those declared.

By either the list of declarations grows only, and variants that are distinct stay so (`Machine.Mints`). There
is a rule for each way to build an evaluation, and a lemma for each operation of the machine and for each
construct that evaluates no part.
-/

namespace ScriptEngine

variable {P Q Q' : VariantTag → Prop}

/-! ## Machines -/

namespace Machine

/-- All variants that values of the machine bear are among those of `P`. -/
structure Only (P : VariantTag → Prop) (m : Machine) : Prop where
  heap : m.heap.Only P
  listeners : ∀ id event, AllOnly P ((m.emitters.getD id default).listenersOf event)

/-- The variants that have been declared. -/
def variants (m : Machine) : List VariantTag := m.declared.flatten

/-- The variants that have been declared have numbers of their own, and these have been given out. -/
structure Distinct (m : Machine) : Prop where
  nodup : (m.variants.map (·.id)).Nodup
  issued : ∀ t ∈ m.variants, t.id < m.nextTag

/-- The list of declarations grows, and variants stay distinct. -/
structure Mints (m m' : Machine) : Prop where
  declared : m.declared <:+ m'.declared
  distinct : m.Distinct → m'.Distinct

/-- From variants of `P` to variants of `Q`, of which those that are not of `P` have been declared. -/
structure Leads (P Q : VariantTag → Prop) (m m' : Machine) : Prop extends m.Mints m' where
  only : m'.Only Q
  known : ∀ t, P t → Q t
  new : ∀ t, Q t → P t ∨ t ∈ m'.variants

variable {m m' m'' : Machine}

theorem Only.mono (h : m.Only P) (hPQ : ∀ t, P t → Q t) : m.Only Q where
  heap := h.heap.mono hPQ
  listeners id event v hv := (h.listeners id event v hv).mono hPQ

theorem Mints.mem (h : m.Mints m') {t : VariantTag} (ht : t ∈ m.variants) : t ∈ m'.variants := by
  obtain ⟨vs, hvs, ht⟩ := List.mem_flatten.1 ht
  exact List.mem_flatten.2 ⟨vs, h.declared.subset hvs, ht⟩

theorem Mints.trans (h : m.Mints m') (h' : m'.Mints m'') : m.Mints m'' :=
  ⟨h.declared.trans h'.declared, h'.distinct ∘ h.distinct⟩

theorem Mints.of_eq (hdeclared : m'.declared = m.declared) (htag : m.nextTag ≤ m'.nextTag) : m.Mints m' where
  declared := hdeclared ▸ List.suffix_rfl
  distinct h := by
    have hvariants : m'.variants = m.variants := congrArg List.flatten hdeclared
    refine ⟨hvariants ▸ h.nodup, fun t ht => ?_⟩
    exact Nat.lt_of_lt_of_le (h.issued t (hvariants ▸ ht)) htag

/-- Nothing is declared, and variants are among `P` as before. -/
theorem Leads.of_eq (honly : m'.Only P) (hdeclared : m'.declared = m.declared)
    (htag : m'.nextTag = m.nextTag) : m.Leads P P m' where
  toMints := .of_eq hdeclared (Nat.le_of_eq htag.symm)
  only := honly
  known _ := id
  new _ := .inl

theorem Leads.refl (h : m.Only P) : m.Leads P P m := .of_eq h rfl rfl

theorem Leads.trans (h : m.Leads P Q m') (h' : m'.Leads Q Q' m'') : m.Leads P Q' m'' where
  toMints := h.toMints.trans h'.toMints
  only := h'.only
  known t ht := h'.known t (h.known t ht)
  new t ht := (h'.new t ht).elim (fun hq => (h.new t hq).imp_right h'.mem) .inr

end Machine

/-! ## Judgements -/

namespace Eval

open Machine

variable {α β ι : Type} {x y : Eval α} {f : α → Eval β} {m m' : Machine} {e : Exit} {xs : List ι}

/-- What the outcome of an evaluation must satisfy. -/
def Hands (P Q : VariantTag → Prop) (R : α → Prop) (m : Machine) : EStateM.Result Exit Machine α → Prop
  | .ok a m' => m.Leads P Q m' ∧ R a
  | .error e m' => m.Leads P Q m' ∧ e.Only Q

/-- An evaluation that hands on variants of `P` and leaves no other behind. -/
def Relays (P : VariantTag → Prop) (R : α → Prop) (x : Eval α) : Prop :=
  ∀ m, m.Only P → Hands P P R m (x m)

/-- An evaluation that leaves variants of `P` behind and such as have been declared. -/
def Carries (P : VariantTag → Prop) (R : (VariantTag → Prop) → α → Prop) (x : Eval α) : Prop :=
  ∀ m, m.Only P → ∃ Q, Hands P Q (R Q) m (x m)

theorem Hands.trans {R : α → Prop} {r : EStateM.Result Exit Machine α} (hr : Hands Q Q' R m' r)
    (h : m.Leads P Q m') : Hands P Q' R m r := by
  cases r with
  | ok a m'' => exact ⟨h.trans hr.1, hr.2⟩
  | error e m'' => exact ⟨h.trans hr.1, hr.2⟩

theorem Hands.leads {R : α → Prop} (h : Hands P Q R m (x m)) : m.Leads P Q (x.after m) := by
  rw [Eval.after]
  cases hx : x m with
  | ok a m' =>
    rw [hx] at h
    exact h.1
  | error e m' =>
    rw [hx] at h
    exact h.1

/-! ## Rules of relaying -/

section

variable {R : α → Prop} {S : β → Prop}

@[simp] theorem relays_pure {a : α} (ha : R a) : Relays P R (pure a) := fun _ hm => ⟨.refl hm, ha⟩

theorem relays_exit (he : e.Only P) : Relays P R (exit e : Eval α) := fun _ hm => ⟨.refl hm, he⟩

theorem relays_get : Relays P (Machine.Only P) get := fun _ hm => ⟨.refl hm, hm⟩

theorem Relays.bind (hx : Relays P R x) (hf : ∀ a, R a → Relays P S (f a)) : Relays P S (x >>= f) := by
  intro m hm
  have ho := hx m hm
  cases h : x m with
  | ok a m' =>
    rw [h] at ho
    rw [bind_ok h]
    exact (hf a ho.2 m' ho.1.only).trans ho.1
  | error e m' =>
    rw [h] at ho
    rw [bind_error h]
    exact ho

@[simp] theorem Relays.ite {p : Prop} [Decidable p] (ht : p → Relays P R x) (hf : ¬ p → Relays P R y) :
    Relays P R (if p then x else y) := by
  split
  · next h => exact ht h
  · next h => exact hf h

theorem Relays.mono {R' : α → Prop} (hx : Relays P R x) (h : ∀ a, R a → R' a) : Relays P R' x := by
  intro m hm
  have ho := hx m hm
  cases hr : x m with
  | ok a m' =>
    rw [hr] at ho
    exact ⟨ho.1, h a ho.2⟩
  | error e m' =>
    rw [hr] at ho
    exact ho

theorem relays_fail {fault : Fault} (h : fault.Only P) : Relays P R (fail fault : Eval α) := relays_exit h

@[simp] theorem relays_unprintable {e : Unprintable} : Relays P R (unprintable e : Eval α) := relays_exit trivial

@[simp] theorem relays_failWith {kind : FaultKind} {message : Text} {span : Option Span} :
    Relays P R (failWith kind message span : Eval α) := relays_fail (Fault.only_of_data rfl)

@[simp] theorem relays_crash {kind : HostFailureKind} {message : Text} :
    Relays P R (crash kind message : Eval α) := relays_exit trivial

theorem relays_forM {f : ι → Eval Unit} (hf : ∀ i ∈ xs, Relays P (fun _ => True) (f i)) :
    Relays P (fun _ => True) (xs.forM f) := by
  induction xs with
  | nil => exact relays_pure trivial
  | cons i xs ih => exact (hf i (.head _)).bind fun _ _ => ih fun j hj => hf j (.tail _ hj)

theorem relays_mapM {f : ι → Eval α} (hf : ∀ i ∈ xs, Relays P R (f i)) :
    Relays P (fun as => ∀ a ∈ as, R a) (xs.mapM f) := by
  induction xs with
  | nil => exact relays_pure nofun
  | cons i xs ih =>
    rw [List.mapM_cons]
    refine (hf i (.head _)).bind fun a ha => (ih fun j hj => hf j (.tail _ hj)).bind fun as has => ?_
    exact relays_pure (List.forall_mem_cons.2 ⟨ha, has⟩)

theorem relays_modifyGet {f : Machine → α × Machine}
    (hf : ∀ m, m.Only P → m.Leads P P (f m).2 ∧ R (f m).1) : Relays P R (modifyGet f : Eval α) := hf

/-- A change of the machine that touches neither values nor tags. -/
theorem relays_modify {f : Machine → Machine} (hf : ∀ m, (f m).heap = m.heap ∧ (f m).emitters = m.emitters ∧
    (f m).declared = m.declared ∧ (f m).nextTag = m.nextTag) :
    Relays P (fun _ => True) (modify f : Eval Unit) := by
  refine relays_modifyGet fun m hm => ?_
  obtain ⟨hheap, hemitters, hdeclared, htag⟩ := hf m
  exact ⟨.of_eq ⟨hheap.symm ▸ hm.heap, hemitters.symm ▸ hm.listeners⟩ hdeclared htag, trivial⟩

/-! ## Rules of carrying -/

end

section

variable {R : (VariantTag → Prop) → α → Prop} {S : (VariantTag → Prop) → β → Prop}

theorem Relays.carries (hx : Relays P (R P) x) : Carries P R x := fun m hm => ⟨P, hx m hm⟩

@[simp] theorem carries_pure {a : α} (ha : R P a) : Carries P R (pure a) := (relays_pure ha).carries

theorem carries_exit (he : e.Only P) : Carries P R (exit e : Eval α) := (relays_exit he).carries

/-- What follows an evaluation is from variants of `P` and those that have been declared by then. -/
theorem Carries.bind (hx : Carries P R x) (hf : ∀ a Q, (∀ t, P t → Q t) → R Q a → Carries Q S (f a)) :
    Carries P S (x >>= f) := by
  intro m hm
  obtain ⟨Q, ho⟩ := hx m hm
  cases h : x m with
  | ok a m' =>
    rw [h] at ho
    rw [bind_ok h]
    obtain ⟨Q', ho'⟩ := hf a Q ho.1.known ho.2 m' ho.1.only
    exact ⟨Q', ho'.trans ho.1⟩
  | error e m' =>
    rw [h] at ho
    rw [bind_error h]
    exact ⟨Q, ho⟩

/-- What follows an evaluation that declares nothing is from variants of `P` still. -/
theorem Relays.andThen {R : α → Prop} (hx : Relays P R x) (hf : ∀ a, R a → Carries P S (f a)) :
    Carries P S (x >>= f) := by
  intro m hm
  have ho := hx m hm
  cases h : x m with
  | ok a m' =>
    rw [h] at ho
    rw [bind_ok h]
    obtain ⟨Q, ho'⟩ := hf a ho.2 m' ho.1.only
    exact ⟨Q, ho'.trans ho.1⟩
  | error e m' =>
    rw [h] at ho
    rw [bind_error h]
    exact ⟨P, ho⟩

theorem Carries.ite {p : Prop} [Decidable p] (ht : p → Carries P R x) (hf : ¬ p → Carries P R y) :
    Carries P R (if p then x else y) := by
  split
  · next h => exact ht h
  · next h => exact hf h

/-- How an evaluation ends: the result satisfies `R`, or the exit is among `P`. -/
def Ends (P : VariantTag → Prop) (R : α → Prop) : Except Exit α → Prop
  | .ok a => R a
  | .error e => e.Only P

theorem Ends.mono {o : Except Exit Value} (h : Ends P (Value.Only P) o) (hPQ : ∀ t, P t → Q t) :
    Ends Q (Value.Only Q) o := by
  cases o with
  | ok v => exact Value.Only.mono h hPQ
  | error e => exact Exit.Only.mono h hPQ

theorem Carries.attempt (hx : Carries P R x) : Carries P (fun Q => Ends Q (R Q)) (attempt x) := by
  intro m hm
  obtain ⟨Q, ho⟩ := hx m hm
  refine ⟨Q, ?_⟩
  rw [Eval.attempt]
  cases h : x m with
  | ok a m' =>
    rw [h] at ho
    exact ho
  | error e m' =>
    rw [h] at ho
    exact ho

theorem relays_resume {R : α → Prop} {outcome : Except Exit α} (h : Ends P R outcome) :
    Relays P R (resume outcome) := by
  cases outcome with
  | ok a => exact relays_pure h
  | error e => exact relays_exit h

theorem carries_whileLoading {p : Path} (hx : Carries P R x) : Carries P R (whileLoading p x) := by
  refine Relays.andThen (relays_modify fun _ => ⟨rfl, rfl, rfl, rfl⟩) fun _ _ =>
    hx.attempt.bind fun outcome Q _ ho => ?_
  exact Relays.andThen (relays_modify fun _ => ⟨rfl, rfl, rfl, rfl⟩) fun _ _ =>
    (relays_resume ho).carries

theorem carries_forM {f : ι → Eval Unit}
    (hf : ∀ Q, (∀ t, P t → Q t) → ∀ i ∈ xs, Carries Q (fun _ _ => True) (f i)) :
    Carries P (fun _ _ => True) (xs.forM f) := by
  induction xs generalizing P with
  | nil => exact carries_pure trivial
  | cons i xs ih =>
    refine (hf P (fun _ => id) i (.head _)).bind fun _ Q hQ _ => ih fun Q' hQ' j hj => ?_
    exact hf Q' (fun t ht => hQ' t (hQ t ht)) j (.tail _ hj)

end

section

variable {R : α → Prop} {S : β → Prop}

/-! ## The operations of the machine -/

theorem relays_heap : Relays P (Heap.Only P) heap := relays_get.bind fun _ hm => relays_pure hm.heap

theorem relays_onHeap {f : Heap → α × Heap} (hf : ∀ h, h.Only P → R (f h).1 ∧ (f h).2.Only P) :
    Relays P R (onHeap f) :=
  relays_modifyGet fun m hm =>
    ⟨.of_eq ⟨(hf m.heap hm.heap).2, hm.listeners⟩ rfl rfl, (hf m.heap hm.heap).1⟩

theorem relays_modifyHeap {f : Heap → Heap} (hf : ∀ h, h.Only P → (f h).Only P) :
    Relays P (fun _ => True) (modifyHeap f) :=
  relays_onHeap fun h hh => ⟨trivial, hf h hh⟩

theorem relays_readHeap {f : Heap → Except Fault α} (hf : ∀ h, h.Only P → Reads P R (f h)) :
    Relays P R (readHeap f) := by
  refine relays_heap.bind fun h hh => ?_
  have hr := hf h hh
  split
  · next a ha =>
    rw [ha] at hr
    exact relays_pure hr
  · next fault ha =>
    rw [ha] at hr
    exact relays_fail hr

theorem relays_readEndless {f : Heap → Option α} (hf : ∀ h a, h.Only P → f h = some a → R a) :
    Relays P R (readEndless f) := by
  refine relays_heap.bind fun h hh => ?_
  split
  · next a ha => exact relays_pure (hf h a hh ha)
  · exact relays_unprintable

theorem relays_readText {f : Heap → Except Unprintable Text} : Relays P (fun _ => True) (readText f) := by
  refine relays_heap.bind fun h _ => ?_
  split
  · exact relays_pure trivial
  · exact relays_unprintable

end

section

variable {v w : Value} {frame : Nat} {name : Text} {binding : BindingName} {span : Option Span}

theorem relays_newArray {items : Array Value} (h : AllOnly P items.toList) :
    Relays P (Value.Only P) (newArray items) :=
  relays_onHeap fun _ hh => ⟨Value.only_plain trivial, hh.newArray h⟩

theorem relays_newObject {entries : OrderedMap Text Value} (h : AllOnly P entries.values) :
    Relays P (Value.Only P) (newObject entries) :=
  relays_onHeap fun _ hh => ⟨Value.only_plain trivial, hh.newObject h⟩

@[simp] theorem relays_newTexts {ts : List Text} : Relays P (Value.Only P) (newTexts ts) :=
  relays_newArray fun v hv => by
    obtain ⟨t, -, rfl⟩ := List.mem_map.1 hv
    exact Value.only_string

@[simp] theorem relays_display : Relays P (fun _ => True) (display v) :=
  relays_readText

@[simp] theorem relays_quotedForm : Relays P (fun _ => True) (quotedForm v) := relays_readText

theorem relays_arithmetic {op : ArithOp} {place : Span} : Relays P (Value.Only P) (arithmetic op v w place) :=
  .ite (fun _ => relays_unprintable) fun _ => relays_readHeap fun _ _ => Heap.reads_arithmetic

@[simp] theorem relays_equal : Relays P (fun _ => True) (equal v w) :=
  relays_heap.bind fun _ _ => relays_pure trivial

theorem relays_newFrame {f : Frame} (hf : f.bindings = .empty) :
    Relays P (fun _ => True) (onHeap (·.newFrame f)) :=
  relays_onHeap fun _ hh => ⟨trivial, hh.newFrame hf⟩

theorem relays_childFrame {isPure : Bool} : Relays P (fun _ => True) (childFrame frame name isPure) :=
  relays_newFrame rfl

theorem relays_define {constant : Bool} (hv : v.Only P) :
    Relays P (fun _ => True) (define frame binding v constant span) := by
  refine relays_heap.bind fun h _ => .ite (fun _ => ?_) fun _ => ?_
  · exact relays_fail (Fault.only_of_data rfl)
  · exact relays_modifyHeap fun _ hh => hh.bind hv

theorem relays_lookup : Relays P (Value.Only P) (lookup frame name span) :=
  relays_readHeap fun _ hh => hh.lookup

theorem relays_assign (hv : v.Only P) : Relays P (fun _ => True) (assign frame name v span) :=
  (relays_readHeap fun _ _ => Heap.reads_assignable).bind fun _ _ =>
    relays_modifyHeap fun _ hh => hh.bind hv

theorem relays_declareExport {altName : Option Text} :
    Relays P (fun _ => True) (declareExport frame binding altName span) := by
  refine (relays_readHeap fun _ hh => hh.declareExport).bind fun h hh => ?_
  exact relays_modifyGet fun m hm => ⟨.of_eq ⟨hh, hm.listeners⟩ rfl rfl, trivial⟩

@[simp] theorem relays_freshTag : Relays P (fun _ => True) freshTag :=
  relays_modifyGet fun _ hm =>
    ⟨⟨.of_eq rfl (Nat.le_succ _), ⟨hm.heap, hm.listeners⟩, fun _ => id, fun _ => .inl⟩, trivial⟩

@[simp] theorem relays_note {stage : TryStage} {c : Block} : Relays P (fun _ => True) (note stage c) :=
  relays_modify fun _ => ⟨rfl, rfl, rfl, rfl⟩

@[simp] theorem relays_write {t : Text} : Relays P (fun _ => True) (write t) :=
  relays_modify fun _ => ⟨rfl, rfl, rfl, rfl⟩

@[simp] theorem relays_logError {t : Text} : Relays P (fun _ => True) (logError t) :=
  relays_modify fun _ => by split <;> exact ⟨rfl, rfl, rfl, rfl⟩

theorem relays_arrayItems {id : Nat} : Relays P (AllOnly P) (arrayItems id) :=
  relays_heap.bind fun _ hh => relays_pure (hh.array id)

end

/-! ## Constructs that evaluate no part -/

section

variable {v w : Value} {frame : Nat} {name : Text} {span : Span} {place : Option Span}

theorem relays_gathered {vs : List Value} (hvs : AllOnly P vs) : Relays P (Value.Only P) (gathered v vs) := by
  unfold gathered
  split
  · exact relays_pure Value.only_string
  · exact relays_newArray hvs

theorem relays_indexIn {depth : Nat} : Relays P (Value.Only P) (indexIn span depth v w) := by
  induction depth generalizing w with
  | zero => exact relays_unprintable
  | succ n ih =>
    unfold indexIn
    split
    · exact relays_arrayItems.bind fun _ _ => (relays_mapM fun _ _ => ih).bind fun _ => relays_gathered
    · exact relays_arrayItems.bind fun _ _ => (relays_mapM fun _ _ => ih).bind fun _ => relays_gathered
    · exact relays_readHeap fun _ hh => hh.element

theorem relays_index : Relays P (Value.Only P) (index v w span) :=
  relays_heap.bind fun _ _ => relays_indexIn

theorem relays_setAt {i : Value} (hw : w.Only P) : Relays P (fun _ => True) (setAt v i w span) := by
  unfold setAt
  split
  · refine (relays_readHeap fun _ _ => Heap.reads_position).bind fun place _ =>
      relays_modifyHeap fun _ hh => hh.modifyArray fun items hitems u hu => ?_
    rw [Array.toList_setIfInBounds] at hu
    exact (List.mem_or_eq_of_mem_set hu).elim (hitems u) fun h => h ▸ hw
  · exact (relays_readHeap fun _ _ => Heap.reads_objectKey).bind fun _ _ =>
      relays_modifyHeap fun _ hh => hh.insertObject hw
  · exact relays_failWith

theorem relays_unary {op : UnaryOp} : Relays P (Value.Only P) (Interp.unary op v span) := by
  unfold Interp.unary
  split <;> try simp
  refine relays_heap.bind fun h _ => ?_
  split
  · exact relays_pure Value.only_number
  · exact relays_fail (Fault.only_of_data rfl)

theorem relays_readTarget {t : Interp.Target} : Relays P (Value.Only P) t.read := by
  cases t with
  | name frame n span => exact relays_lookup
  | member object n span => exact relays_readHeap fun _ hh => hh.member
  | index object i span => exact relays_index

theorem relays_writeTarget {t : Interp.Target} (hv : v.Only P) : Relays P (fun _ => True) (t.write v) := by
  cases t with
  | name frame n span => exact relays_assign hv
  | member object n span => exact relays_setAt hv
  | index object i span => exact relays_setAt hv

theorem relays_picked {p : Progression} {i left : Nat} :
    Relays P (AllOnly P) (Interp.picked v p span i left) := by
  induction left generalizing i with
  | zero => exact relays_pure nofun
  | succ n ih =>
    refine relays_index.bind fun item hitem => ih.bind fun rest hrest => ?_
    exact relays_pure (.cons hitem hrest)

theorem relays_elements (hv : v.Only P) :
    Relays P (fun ps => ∀ p ∈ ps, p.1.Only P ∧ p.2.Only P) (Interp.elements v span) := by
  refine (relays_readEndless fun _ _ hh => hh.follow hv).bind fun target _ =>
    relays_heap.bind fun h hh => ?_
  split
  · next hp => exact relays_pure (hh.pairs hp)
  · exact relays_fail (Fault.only_of_data rfl)

/-- A handler receives the values that an exit has. -/
theorem relays_caught (he : e.Only P) : Relays P (fun v => ∀ u ∈ v, u.Only P) (Interp.caught? e) := by
  have hsome {u : Value} (hu : u.Only P) : ∀ u' ∈ some u, u'.Only P := fun _ h => Option.some.inj h ▸ hu
  unfold Interp.caught?
  split
  · exact relays_pure (hsome he)
  · exact relays_pure (hsome he)
  · next error _ =>
    refine .bind (R := Value.Only P) (relays_onHeap fun h hh => hh.newError ?_) fun _ hu =>
      relays_pure (hsome hu)
    cases error with
    | fault f => exact he
    | _ => exact nofun
  · exact relays_pure nofun

theorem relays_outsideLoop {R : α → Prop} {keyword : Text} : Relays P R (outsideLoop keyword span : Eval α) :=
  relays_failWith

theorem relays_checkPredicate {c : Closure} (hv : v.Only P) :
    Relays P (Value.Only P) (Interp.checkPredicate c v place) := by
  unfold Interp.checkPredicate
  split
  · exact .ite (fun _ => relays_failWith) fun _ => relays_pure hv
  · exact relays_pure hv

/-- A constructor stamps its argument with a variant that the constructor bears itself. -/
theorem relays_construct {t : VariantTag} {args : List Value} (hv : v.Only P) (ht : v.variant? = some t)
    (hargs : AllOnly P args) : Relays P (Value.Only P) (Interp.construct v t args place) := by
  unfold Interp.construct
  split
  · exact relays_pure hv
  · exact relays_pure ((hargs _ (.head _)).stamped (hv.bears t (Value.bears_variant ht)))
  · exact relays_failWith

theorem relays_parse {source : Text} {file : Option Text} :
    Relays P (fun _ => True) (parse source file) := by
  unfold parse
  split
  · exact relays_pure trivial
  · refine relays_exit ?_
    unfold SourceError.exit
    split <;> trivial

theorem relays_resolveModule {path : Text} {importer : Option Text} :
    Relays P (fun _ => True) (resolveModule path importer place) := by
  refine relays_get.bind fun m _ => ?_
  split
  · exact relays_pure trivial
  · exact relays_crash
  · exact relays_fail (Fault.only_of_data rfl)

theorem relays_notExported {path : Text} {n : ExchangedName} {offered : List BindingName} :
    Relays P (fun _ => True) (Interp.notExported path n offered) := by
  unfold Interp.notExported
  split
  · exact relays_fail (Fault.only_of_data rfl)
  · exact relays_crash

theorem relays_importName {path : Text} {moduleFrame : Nat} {n : ExchangedName} :
    Relays P (fun _ => True) (Interp.importName path moduleFrame frame n) := by
  refine relays_heap.bind fun h hh => ?_
  split
  · next he => exact relays_define (hh.exported he)
  · exact relays_notExported

theorem relays_destructure {d : VarDecl} {items : List Value} (hitems : AllOnly P items) :
    Relays P (fun _ => True) (Interp.destructure d items frame) :=
  relays_forM fun _ _ => relays_define hitems.getD

theorem relays_function {f : FunctionDef} : Relays P (Value.Only P) (Interp.function f frame) := by
  refine (relays_readHeap fun _ _ => Heap.reads_checkPure).bind fun _ _ =>
    .bind (R := Value.Only P) (relays_onHeap fun _ hh => ⟨Value.only_plain trivial, hh.newClosure⟩) fun v hv => ?_
  split
  · exact (relays_define hv).bind fun _ _ => relays_pure hv
  · exact relays_pure hv

theorem relays_recordFile {file : Option Text} : Relays P (fun _ => True) (Interp.recordFile frame file) := by
  refine relays_get.bind fun m _ => ?_
  split
  · exact .ite (fun _ => relays_modifyHeap fun _ hh => hh.modifyFrame fun _ hfr => hfr) fun _ =>
      relays_pure trivial
  · exact relays_pure trivial

theorem relays_bindParameters {c : Closure} {args : List Value} (hargs : AllOnly P args) :
    Relays P (fun _ => True) (Interp.bindParameters c frame args place) := by
  unfold Interp.bindParameters
  split
  · exact relays_failWith
  · next bound hb =>
    refine relays_forM fun ⟨name, argument⟩ hmem => ?_
    have hargument := only_bindings hargs hb _ hmem
    cases argument with
    | one v => exact (relays_pure (R := Value.Only P) hargument).bind fun _ hv => relays_define hv
    | rest vs => exact (relays_newArray hargument).bind fun _ hv => relays_define hv

theorem relays_bodyResult {c : Closure} {outcome : Except Exit Value} (h : Ends P (Value.Only P) outcome) :
    Relays P (Value.Only P) (Interp.bodyResult c place outcome) := by
  unfold Interp.bodyResult
  split
  · exact relays_pure h
  · exact relays_outsideLoop
  · exact relays_outsideLoop
  · exact relays_failWith
  · exact relays_resume h

theorem relays_programResult {outcome : Except Exit Value} (h : Ends P (Value.Only P) outcome) :
    Relays P (Value.Only P) (Interp.programResult outcome) := by
  unfold Interp.programResult
  split
  · exact relays_pure h
  · exact relays_quotedForm.bind fun _ _ => relays_exit h
  · exact relays_outsideLoop
  · exact relays_outsideLoop
  · exact relays_resume h

end

end Eval

end ScriptEngine

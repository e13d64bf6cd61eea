import Mathlib.Data.List.Forall2
import ScriptEngine.Eval.Arithmetic
import ScriptEngine.Proofs.OrderedMap

/-!
# Equality is bisimilarity

* **Matching** (`Heap.Matches R`): what two values must have in common when `R` relates what they
  hold: the variant, the kind, the data of scalars, the identity of functions, natives and
  references, and related contents of arrays and objects.
* **Bisimulations** (`Heap.IsBisimulation R`): relations that demand no less than matching of the
  values they relate. They are closed under converses and composition.
* **Soundness** (`agree_sound`): the pairs of cells that a successful comparison has assumed by its
  end justify each other, so that they make up a bisimulation (`isBisimulation_assumed`).
* **Completeness** (`agree_of_isBisimulation`): a comparison of values that a bisimulation relates
  finds no difference.

`equal_greatest_bisimulation` puts these together: equality is the largest bisimulation, and an
equivalence.
-/

namespace ScriptEngine

variable {h : Heap} {R S : Value → Value → Prop} {a b : Value}

namespace Heap

/-- What two payloads must have in common when `R` relates what they hold. Arrays have the same
length; of objects, each key has a value in both or in neither. -/
inductive PayloadsMatch (h : Heap) (R : Value → Value → Prop) : Payload → Payload → Prop
  | null : PayloadsMatch h R .null .null
  | bool (b : Bool) : PayloadsMatch h R (.bool b) (.bool b)
  | number {x y : Number} (value : x.value = y.value) : PayloadsMatch h R (.number x) (.number y)
  | string (t : Text) : PayloadsMatch h R (.string t) (.string t)
  | function (id : Nat) : PayloadsMatch h R (.function id) (.function id)
  | native (n : Native) : PayloadsMatch h R (.native n) (.native n)
  | reference (id : Nat) : PayloadsMatch h R (.reference id) (.reference id)
  | array {i j : Nat} (items : List.Forall₂ R (h.array i).toList (h.array j).toList) :
      PayloadsMatch h R (.array i) (.array j)
  | object {i j : Nat} (entries : ∀ k, Option.Rel R ((h.object i).get? k) ((h.object j).get? k)) :
      PayloadsMatch h R (.object i) (.object j)

/-- What two values must have in common when `R` relates what they hold. -/
def Matches (h : Heap) (R : Value → Value → Prop) (a b : Value) : Prop :=
  a.variant? = b.variant? ∧ h.PayloadsMatch R a.payload b.payload

/-- A relation that demands no less than matching of the values it relates. -/
def IsBisimulation (h : Heap) (R : Value → Value → Prop) : Prop :=
  ∀ a b, R a b → h.Matches R a b

/-! ## Bisimulations -/

theorem rel_refl (hR : ∀ x, R x x) (x : Option Value) : Option.Rel R x x := by
  cases x with
  | none => exact .none
  | some v => exact .some (hR v)

theorem rel_flip {x y : Option Value} (hxy : Option.Rel R x y) : Option.Rel (flip R) y x := by
  cases hxy with
  | none => exact .none
  | some hv => exact .some hv

theorem rel_comp {x y z : Option Value} (hxy : Option.Rel R x y) (hyz : Option.Rel S y z) :
    Option.Rel (Relation.Comp R S) x z := by
  cases hxy with
  | none => cases hyz; exact .none
  | some hx => cases hyz with | some hz => exact .some ⟨_, hx, hz⟩

theorem rel_mono (hRS : ∀ x y, R x y → S x y) {x y : Option Value} (hxy : Option.Rel R x y) :
    Option.Rel S x y := by
  cases hxy with
  | none => exact .none
  | some hv => exact .some (hRS _ _ hv)

theorem exists_of_rel_some {v : Value} {y : Option Value} (hy : Option.Rel R (some v) y) :
    ∃ w, y = some w ∧ R v w := by
  cases hy with | some hvw => exact ⟨_, rfl, hvw⟩

theorem forall₂_comp {xs ys zs : List Value} (hxy : List.Forall₂ R xs ys)
    (hyz : List.Forall₂ S ys zs) : List.Forall₂ (Relation.Comp R S) xs zs := by
  induction hxy generalizing zs with
  | nil => cases hyz; exact .nil
  | cons hx _ ih =>
    cases hyz with
    | cons hz hyz => exact .cons ⟨_, hx, hz⟩ (ih hyz)

theorem PayloadsMatch.refl (hR : ∀ x, R x x) (p : Payload) : h.PayloadsMatch R p p := by
  cases p with
  | array i => exact .array (List.forall₂_same.2 fun x _ => hR x)
  | object i => exact .object fun k => rel_refl hR _
  | number x => exact .number rfl
  | _ => constructor

theorem PayloadsMatch.flip {p q : Payload} (hpq : h.PayloadsMatch R p q) :
    h.PayloadsMatch (flip R) q p := by
  cases hpq with
  | array items => exact .array items.flip
  | object entries => exact .object fun k => rel_flip (entries k)
  | number value => exact .number value.symm
  | _ => constructor

theorem PayloadsMatch.comp {p q r : Payload} (hpq : h.PayloadsMatch R p q)
    (hqr : h.PayloadsMatch S q r) : h.PayloadsMatch (Relation.Comp R S) p r := by
  cases hpq with
  | array items => cases hqr with | array items' => exact .array (forall₂_comp items items')
  | object entries =>
    cases hqr with | object entries' => exact .object fun k => rel_comp (entries k) (entries' k)
  | number value => cases hqr with | number value' => exact .number (value.trans value')
  | _ => cases hqr; constructor

theorem PayloadsMatch.mono (hRS : ∀ x y, R x y → S x y) {p q : Payload}
    (hpq : h.PayloadsMatch R p q) : h.PayloadsMatch S p q := by
  cases hpq with
  | array items => exact .array (items.imp hRS)
  | object entries => exact .object fun k => rel_mono hRS (entries k)
  | number value => exact .number value
  | _ => constructor

theorem isBisimulation_eq (h : Heap) : h.IsBisimulation Eq := by
  rintro a _ rfl
  exact ⟨rfl, .refl (fun _ => rfl) _⟩

theorem IsBisimulation.flip (hR : h.IsBisimulation R) : h.IsBisimulation (flip R) := fun a b hab =>
  ⟨(hR b a hab).1.symm, (hR b a hab).2.flip⟩

theorem IsBisimulation.comp (hR : h.IsBisimulation R) (hS : h.IsBisimulation S) :
    h.IsBisimulation (Relation.Comp R S) := by
  rintro a c ⟨b, hab, hbc⟩
  obtain ⟨hv, hp⟩ := hR a b hab
  obtain ⟨hv', hp'⟩ := hS b c hbc
  exact ⟨hv.trans hv', hp.comp hp'⟩

/-! ## One look at two values -/

/-- A list of pairs that `R` relates. -/
abbrev AllRelated (R : Value → Value → Prop) (pairs : List (Value × Value)) : Prop :=
  ∀ p ∈ pairs, R p.1 p.2

theorem forall₂_iff_arrayPairs? {i j : Nat} :
    List.Forall₂ R (h.array i).toList (h.array j).toList ↔
      ∃ pairs, h.arrayPairs? i j = some pairs ∧ AllRelated R pairs := by
  rw [List.forall₂_iff_zip]
  unfold arrayPairs?
  constructor
  · rintro ⟨hl, hz⟩
    exact ⟨_, if_pos hl, fun p hp => hz hp⟩
  · rintro ⟨pairs, hp, hR⟩
    obtain ⟨hl, hz⟩ := Option.ite_none_right_eq_some.1 hp
    cases hz
    exact ⟨hl, fun {a b} hab => hR (a, b) hab⟩

/-- The pairs of the values of some entries with those of a map exist if the map has all the keys. -/
theorem exists_mapM_get?_iff {entries : List (Text × Value)} {m : OrderedMap Text Value} :
    (∃ pairs, entries.mapM (fun (k, v) => (m.get? k).map (v, ·)) = some pairs ∧
      AllRelated R pairs) ↔ ∀ e ∈ entries, ∃ w, m.get? e.1 = some w ∧ R e.2 w := by
  induction entries with
  | nil => simp [AllRelated]
  | cons e rest ih =>
    obtain ⟨k, v⟩ := e
    rw [List.forall_mem_cons, ← ih]
    cases hk : m.get? k with
    | none => simp [hk]
    | some w =>
      simp only [List.mapM_cons, hk, Option.map_some, Option.some.injEq, exists_eq_left',
        Option.bind_eq_bind, Option.bind_some, Option.pure_def, Option.bind_eq_some_iff]
      constructor
      · rintro ⟨_, ⟨ps, hps, rfl⟩, hR⟩
        obtain ⟨hvw, hrest⟩ := List.forall_mem_cons.1 hR
        exact ⟨hvw, ps, hps, hrest⟩
      · rintro ⟨hvw, ps, hps, hrest⟩
        exact ⟨_, ⟨ps, hps, rfl⟩, List.forall_mem_cons.2 ⟨hvw, hrest⟩⟩

/-- Two objects match exactly if they are equally large and each entry of the first has a related
value in the second: the keys of the second are then no others. -/
theorem rel_iff_objectPairs? {i j : Nat} :
    (∀ k, Option.Rel R ((h.object i).get? k) ((h.object j).get? k)) ↔
      ∃ pairs, h.objectPairs? i j = some pairs ∧ AllRelated R pairs := by
  unfold objectPairs?
  simp only [Option.ite_none_right_eq_some, and_assoc, exists_and_left, exists_mapM_get?_iff]
  generalize h.object i = left, h.object j = right
  constructor
  · intro hk
    refine ⟨OrderedMap.size_eq_of_keys fun k => ?_, fun e he => ?_⟩
    · rw [OrderedMap.mem_keys_iff, OrderedMap.mem_keys_iff]
      constructor
      · rintro ⟨v, hv⟩
        obtain ⟨w, hw, -⟩ := exists_of_rel_some (hv ▸ hk k)
        exact ⟨w, hw⟩
      · rintro ⟨w, hw⟩
        obtain ⟨v, hv, -⟩ := exists_of_rel_some (hw ▸ rel_flip (hk k))
        exact ⟨v, hv⟩
    · exact exists_of_rel_some (OrderedMap.get?_eq_some_iff.2 he ▸ hk e.1)
  · rintro ⟨hs, he⟩ k
    cases hl : left.get? k with
    | some v =>
      obtain ⟨w, hw, hvw⟩ := he (k, v) (OrderedMap.get?_eq_some_iff.1 hl)
      rw [hw]
      exact .some hvw
    | none =>
      have hsub : left.keys ⊆ right.keys := by
        intro k' hk'
        obtain ⟨v, hv⟩ := OrderedMap.mem_keys_iff.1 hk'
        obtain ⟨w, hw, -⟩ := he (k', v) (OrderedMap.get?_eq_some_iff.1 hv)
        exact OrderedMap.mem_keys_iff.2 ⟨w, hw⟩
      have hn : k ∉ right.keys := fun hm =>
        OrderedMap.get?_eq_none_iff.1 hl (OrderedMap.keys_subset_of_size_eq hs hsub hm)
      rw [OrderedMap.get?_eq_none_iff.2 hn]
      exact .none

end Heap

namespace Comparison

/-- `R` relates all that a look at two values leaves to be compared. -/
def RestsOn (R : Value → Value → Prop) : Comparison → Prop
  | .differ => False
  | .same => True
  | .cells _ contents => Heap.AllRelated R contents

/-- The pair of cells that a look at two values asks for is among those assumed. -/
def Within (assumed : List CellPair) : Comparison → Prop
  | .differ => False
  | .same => True
  | .cells pair _ => pair ∈ assumed

end Comparison

namespace Heap

theorem compareCells_restsOn_iff {pair : CellPair} {o : Option (List (Value × Value))} :
    (compareCells pair o).RestsOn R ↔ ∃ pairs, o = some pairs ∧ AllRelated R pairs := by
  unfold compareCells
  split <;> simp [Comparison.RestsOn, AllRelated]

theorem compare_restsOn_of_matches (hm : h.Matches R a b) : (h.compare a b).RestsOn R := by
  obtain ⟨hv, hp⟩ := hm
  obtain ⟨p, s⟩ := a
  obtain ⟨q, t⟩ := b
  unfold compare
  rw [if_neg (not_not.2 hv)]
  cases hp with
  | array items =>
    dsimp only
    split
    · trivial
    · exact compareCells_restsOn_iff.2 (forall₂_iff_arrayPairs?.1 items)
  | object entries =>
    dsimp only
    split
    · trivial
    · exact compareCells_restsOn_iff.2 (rel_iff_objectPairs?.1 entries)
  | number value => simp [Comparison.RestsOn, value]
  | _ => simp [Comparison.RestsOn]

theorem matches_of_compare_restsOn (hR : ∀ x, R x x) (hc : (h.compare a b).RestsOn R) :
    h.Matches R a b := by
  obtain ⟨p, s⟩ := a
  obtain ⟨q, t⟩ := b
  unfold compare at hc
  split at hc
  · exact hc.elim
  · next hv =>
    refine ⟨not_not.1 hv, ?_⟩
    dsimp only at hc ⊢
    split at hc
    · split at hc
      · next hij => exact hij ▸ .refl hR _
      · exact .array (forall₂_iff_arrayPairs?.2 (compareCells_restsOn_iff.1 hc))
    · split at hc
      · next hij => exact hij ▸ .refl hR _
      · exact .object (rel_iff_objectPairs?.2 (compareCells_restsOn_iff.1 hc))
    · split at hc
      · next value => exact .number value
      · exact hc.elim
    · split at hc
      · next hpq => exact hpq ▸ .refl hR _
      · exact hc.elim

/-- The contents of two cells in pairs. -/
def contentPairs? (h : Heap) : CellPair → Option (List (Value × Value))
  | .arrays i j => h.arrayPairs? i j
  | .objects i j => h.objectPairs? i j

theorem contentPairs?_of_compare {p : CellPair} {contents : List (Value × Value)}
    (hc : h.compare a b = .cells p contents) : h.contentPairs? p = some contents := by
  unfold compare at hc
  split at hc
  · cases hc
  · split at hc
    · split at hc
      · cases hc
      · obtain ⟨rfl, ho, -⟩ := compareCells_eq_cells hc
        exact ho
    · split at hc
      · cases hc
      · obtain ⟨rfl, ho, -⟩ := compareCells_eq_cells hc
        exact ho
    · split at hc <;> cases hc
    · split at hc <;> cases hc

/-! ## The comparison -/

/-- The relation that pairs of cells taken to be equal stand for. -/
def Assumed (h : Heap) (assumed : List CellPair) (a b : Value) : Prop :=
  a = b ∨ (h.compare a b).Within assumed

/-- A successful comparison ends with a list of assumptions: all that was pending follows from them,
and so do the contents of every pair that was added on the way. -/
theorem agree_sound {assumed : List CellPair} {pending : List (Value × Value)}
    (ht : h.agree assumed pending = true) :
    ∃ final, assumed ⊆ final ∧ AllRelated (h.Assumed final) pending ∧
      ∀ p ∈ final, p ∉ assumed → ∀ contents, h.contentPairs? p = some contents →
        AllRelated (h.Assumed final) contents := by
  fun_induction agree h assumed pending with
  | case1 assumed => exact ⟨assumed, List.Subset.refl _, by simp, fun p hp hn => absurd hp hn⟩
  | case2 => cases ht
  | case3 assumed a b rest hc ih =>
    obtain ⟨final, hsub, hrest, hadded⟩ := ih ht
    refine ⟨final, hsub, List.forall_mem_cons.2 ⟨.inr ?_, hrest⟩, hadded⟩
    rw [hc]
    trivial
  | case4 assumed a b rest pair contents hc hm ih =>
    obtain ⟨final, hsub, hrest, hadded⟩ := ih ht
    refine ⟨final, hsub, List.forall_mem_cons.2 ⟨.inr ?_, hrest⟩, hadded⟩
    rw [hc]
    exact hsub hm
  | case5 assumed a b rest pair contents hc hm ih =>
    obtain ⟨final, hsub, hpending, hadded⟩ := ih ht
    obtain ⟨hcontents, hrest⟩ := List.forall_mem_append.1 hpending
    have hpair : pair ∈ final := hsub (List.mem_cons_self ..)
    refine ⟨final, fun p hp => hsub (List.mem_cons_of_mem _ hp),
      List.forall_mem_cons.2 ⟨.inr ?_, hrest⟩, fun p hp hn cs hcs => ?_⟩
    · rw [hc]
      exact hpair
    · by_cases hpp : p = pair
      · -- the pair assumed here: its contents were put on the list
        subst hpp
        cases (contentPairs?_of_compare hc).symm.trans hcs
        exact hcontents
      · exact hadded p hp (by simp [hpp, hn]) cs hcs

/-- Assumptions whose contents follow from them make up a bisimulation. -/
theorem isBisimulation_assumed {assumed : List CellPair}
    (hj : ∀ p ∈ assumed, ∀ contents, h.contentPairs? p = some contents →
      AllRelated (h.Assumed assumed) contents) : h.IsBisimulation (h.Assumed assumed) := by
  have hrefl : ∀ x, h.Assumed assumed x x := fun x => .inl rfl
  rintro a b (rfl | hw)
  · exact ⟨rfl, .refl hrefl _⟩
  · apply matches_of_compare_restsOn hrefl
    cases hc : h.compare a b with
    | differ => exact (hc ▸ hw : Comparison.Within assumed .differ).elim
    | same => trivial
    | cells p contents =>
      rw [hc] at hw
      exact hj p hw contents (contentPairs?_of_compare hc)

/-- A comparison of values that a bisimulation relates finds no difference, whatever it assumes. -/
theorem agree_of_isBisimulation (hR : h.IsBisimulation R) {assumed : List CellPair}
    {pending : List (Value × Value)} (hp : AllRelated R pending) :
    h.agree assumed pending = true := by
  fun_induction agree h assumed pending with
  | case1 => rfl
  | case2 assumed a b rest hc =>
    have hab := compare_restsOn_of_matches (hR a b (hp _ (List.mem_cons_self ..)))
    rw [hc] at hab
    exact hab.elim
  | case3 assumed a b rest hc ih => exact ih (List.forall_mem_cons.1 hp).2
  | case4 assumed a b rest pair contents hc hm ih => exact ih (List.forall_mem_cons.1 hp).2
  | case5 assumed a b rest pair contents hc hm ih =>
    have hab := compare_restsOn_of_matches (hR a b (hp _ (List.mem_cons_self ..)))
    rw [hc] at hab
    exact ih (List.forall_mem_append.2 ⟨hab, (List.forall_mem_cons.1 hp).2⟩)

theorem equal_of_isBisimulation (hR : h.IsBisimulation R) (hab : R a b) : h.equal a b = true :=
  agree_of_isBisimulation hR (by simpa using hab)

theorem exists_isBisimulation_of_equal (he : h.equal a b = true) :
    ∃ R, h.IsBisimulation R ∧ R a b := by
  obtain ⟨final, -, hab, hadded⟩ := agree_sound he
  exact ⟨h.Assumed final, isBisimulation_assumed fun p hp => hadded p hp (by simp),
    by simpa using hab⟩

theorem isBisimulation_equal (h : Heap) : h.IsBisimulation fun a b => h.equal a b = true := by
  intro a b he
  obtain ⟨R, hR, hab⟩ := exists_isBisimulation_of_equal he
  obtain ⟨hv, hp⟩ := hR a b hab
  exact ⟨hv, hp.mono fun _ _ => equal_of_isBisimulation hR⟩

theorem equivalence_equal (h : Heap) : Equivalence fun a b => h.equal a b = true where
  refl _ := equal_of_isBisimulation h.isBisimulation_eq rfl
  symm hab := equal_of_isBisimulation h.isBisimulation_equal.flip hab
  trans hab hbc :=
    equal_of_isBisimulation (h.isBisimulation_equal.comp h.isBisimulation_equal) ⟨_, hab, hbc⟩

/-- Equality of values is the largest bisimulation on every heap, with whatever sharing and cycles,
and an equivalence; it is what the operator `==` gives. -/
theorem equal_greatest_bisimulation (h : Heap) :
    (h.IsBisimulation fun a b => h.equal a b = true) ∧
    (∀ R, h.IsBisimulation R → ∀ a b, R a b → h.equal a b = true) ∧
    (Equivalence fun a b => h.equal a b = true) ∧
    ∀ a b span, h.comparison .eq a b span = .ok (h.equal a b) :=
  ⟨h.isBisimulation_equal, fun _ hR _ _ => equal_of_isBisimulation hR, h.equivalence_equal,
    fun _ _ _ => rfl⟩

end Heap

end ScriptEngine

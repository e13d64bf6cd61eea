import Mathlib.Data.List.Induction
import ScriptEngine.Program.Walk

/-!
# Pre-order

A walk with a stack takes the node on top, and pushes the children of that node so that the first one comes next.
Where a node stands is told by an address, the list of positions among the children on the way to it.

* `drains_iff`: the loop over a stack ends, and takes what the worklist comes to.
* `visit_eq_flatMap`: a worklist is visited node by node, each with everything below it.
* `walk_preorder`: a walk is the node before the walks of its children, and it comes to every address exactly once, to
  none before one that it leads through.
-/

namespace ScriptEngine.Node

variable {n c : Node} {ms ns stack : List Node} {p q : List Nat} {ps : List (List Nat)}

/-- What a loop takes from a stack, the top of which stands last, until the stack is empty. The children of what is
taken are pushed in reverse. -/
inductive Drains : List Node → List Node → Prop
  | done : Drains [] []
  | pop {stack : List Node} {n : Node} {ns : List Node} (h : Drains (stack ++ n.children.reverse) ns) :
    Drains (stack ++ [n]) (n :: ns)

/-- The node at an address below a node. -/
def at? (n : Node) : List Nat → Option Node
  | [] => some n
  | i :: p => n.children[i]?.bind (·.at? p)

/-- The node at an address that starts with a position in a list of nodes. -/
def among? (ns : List Node) : List Nat → Option Node
  | [] => none
  | i :: p => ns[i]?.bind (·.at? p)

/-! ## The loop -/

/-- The loop ends on every stack. The stack read from its top is the worklist. -/
theorem drains_visit (ns : List Node) : Drains ns.reverse (visit ns) := by
  fun_induction visit ns with
  | case1 => exact .done
  | case2 n rest ih =>
    rw [List.reverse_append] at ih
    rw [List.reverse_cons]
    exact .pop ih

/-- What the loop takes is what the worklist comes to. -/
theorem Drains.eq_visit (h : Drains stack ns) : ns = visit stack.reverse := by
  induction h with
  | done => rw [List.reverse_nil, visit]
  | pop _ ih => rw [List.reverse_concat, visit, ih, List.reverse_append, List.reverse_reverse]

theorem drains_iff : Drains stack ns ↔ ns = visit stack.reverse := by
  refine ⟨Drains.eq_visit, fun h => ?_⟩
  rw [h]
  simpa using drains_visit stack.reverse

/-! ## The recursion -/

theorem visit_append (ms ns : List Node) : visit (ms ++ ns) = visit ms ++ visit ns := by
  fun_induction visit ms with
  | case1 => rfl
  | case2 m rest ih => rw [List.cons_append, visit, ← List.append_assoc, ih, List.cons_append]

/-- A worklist is visited node by node, each with everything below it. -/
theorem visit_eq_flatMap (ns : List Node) : visit ns = ns.flatMap walk := by
  induction ns with
  | nil => rw [visit, List.flatMap_nil]
  | cons n rest ih => rw [← List.singleton_append, visit_append, ih, List.flatMap_append, List.flatMap_singleton, walk]

/-- A walk is the node before the walks of its children. -/
theorem walk_eq (n : Node) : n.walk = n :: n.children.flatMap walk := by
  rw [walk, visit, List.append_nil, visit_eq_flatMap]

/-! ## Addresses -/

/-- Addresses list what they reach: all that lead to a node are there, in lexicographic order. -/
structure Addresses (reach : List Nat → Option Node) (found : List Node) (ps : List (List Nat)) : Prop where
  found : ps.map reach = found.map some
  complete (p : List Nat) : p ∈ ps ↔ (reach p).isSome
  sorted : ps.Pairwise (· < ·)

theorem among?_append_left {i : Nat} (hi : i < ns.length) : among? (ns ++ ms) (i :: p) = among? ns (i :: p) := by
  rw [among?, among?, List.getElem?_append_left hi]

theorem among?_concat : among? (ns ++ [n]) (ns.length :: p) = n.at? p := by
  rw [among?, List.getElem?_concat_length, Option.bind_some]

/-- An address that leads to a node of a list starts with a position in the list. -/
theorem exists_of_among? (h : (among? ns p).isSome) : ∃ i q, p = i :: q ∧ i < ns.length := by
  cases p with
  | nil => cases h
  | cons i q =>
    obtain ⟨m, hm⟩ := Option.isSome_iff_exists.1 h
    obtain ⟨c, hc, -⟩ := Option.bind_eq_some_iff.1 hm
    exact ⟨i, q, rfl, (List.getElem?_eq_some_iff.1 hc).1⟩

/-- The addresses of the last node of a list come behind those of the nodes before it. -/
theorem Addresses.concat {before found : List Node} {qs : List (List Nat)} (hps : Addresses (among? ns) before ps)
    (hqs : Addresses n.at? found qs) :
    Addresses (among? (ns ++ [n])) (before ++ found) (ps ++ qs.map (ns.length :: ·)) where
  found := by
    have hbefore : ps.map (among? (ns ++ [n])) = ps.map (among? ns) := by
      refine List.map_congr_left fun p hp => ?_
      obtain ⟨i, q, rfl, hi⟩ := exists_of_among? ((hps.complete p).1 hp)
      exact among?_append_left hi
    have hlast : (qs.map (ns.length :: ·)).map (among? (ns ++ [n])) = qs.map n.at? := by
      rw [List.map_map]
      exact List.map_congr_left fun q _ => among?_concat
    rw [List.map_append, List.map_append, hbefore, hlast, hps.found, hqs.found]
  complete p := by
    rw [List.mem_append, hps.complete, List.mem_map]
    constructor
    · rintro (hp | ⟨q, hq, rfl⟩)
      · obtain ⟨i, q, rfl, hi⟩ := exists_of_among? hp
        rwa [among?_append_left hi]
      · rw [among?_concat]
        exact (hqs.complete q).1 hq
    · intro hp
      obtain ⟨i, q, rfl, hi⟩ := exists_of_among? hp
      rw [List.length_append, List.length_singleton, Nat.lt_succ_iff_lt_or_eq] at hi
      obtain hi | rfl := hi
      · exact .inl (by rwa [among?_append_left hi] at hp)
      · exact .inr ⟨q, (hqs.complete q).2 (by rwa [among?_concat] at hp), rfl⟩
  sorted := by
    refine List.pairwise_append.2 ⟨hps.sorted, List.pairwise_map.2 (hqs.sorted.imp ?_), ?_⟩
    · exact fun h => List.cons_lt_cons_iff.2 (.inr ⟨rfl, h⟩)
    · intro p hp q hq
      obtain ⟨i, r, rfl, hi⟩ := exists_of_among? ((hps.complete p).1 hp)
      obtain ⟨q, -, rfl⟩ := List.mem_map.1 hq
      exact List.cons_lt_cons_iff.2 (.inl hi)

/-- The addresses below a node are those of its children, behind the empty one of the node itself. -/
theorem Addresses.below {found : List Node} (hps : Addresses (among? n.children) found ps) :
    Addresses n.at? (n :: found) ([] :: ps) where
  found := by
    have : ps.map n.at? = ps.map (among? n.children) := by
      refine List.map_congr_left fun p hp => ?_
      obtain ⟨i, q, rfl, -⟩ := exists_of_among? ((hps.complete p).1 hp)
      rfl
    rw [List.map_cons, List.map_cons, this, hps.found, at?]
  complete p := by
    cases p with
    | nil => simp [at?]
    | cons i q => simp [hps.complete, at?, among?]
  sorted := by
    refine List.pairwise_cons.2 ⟨fun p hp => ?_, hps.sorted⟩
    obtain ⟨i, q, rfl, -⟩ := exists_of_among? ((hps.complete p).1 hp)
    exact List.nil_lt_cons i q

/-- A list of nodes that each have their addresses has the addresses of all. -/
theorem addresses_flatMap (ns : List Node) (hns : ∀ n ∈ ns, ∃ ps, Addresses n.at? n.walk ps) :
    ∃ ps, Addresses (among? ns) (ns.flatMap walk) ps := by
  induction ns using List.reverseRecOn with
  | nil =>
    refine ⟨[], rfl, fun p => ?_, .nil⟩
    cases p <;> simp [among?]
  | append_singleton rest n ih =>
    obtain ⟨ps, hps⟩ := ih fun c hc => hns c (List.mem_append_left _ hc)
    obtain ⟨qs, hqs⟩ := hns n (List.mem_append_right _ (.head _))
    rw [List.flatMap_append, List.flatMap_singleton]
    exact ⟨_, hps.concat hqs⟩

/-- A walk comes to the addresses below its node, in lexicographic order. -/
theorem addresses_walk (n : Node) : ∃ ps, Addresses n.at? n.walk ps := by
  induction n using (measure weight).wf.induction with
  | h n ih =>
    obtain ⟨ps, hps⟩ := addresses_flatMap n.children fun c hc => ih c (weight_lt_of_mem_children hc)
    rw [walk_eq]
    exact ⟨_, hps.below⟩

/-- An address does not come before one that it goes on from. -/
theorem not_prefix_of_lt (h : p < q) : ¬ q <+: p := by
  induction q generalizing p with
  | nil => cases h
  | cons i q ih =>
    rintro ⟨r, rfl⟩
    obtain h | ⟨-, h⟩ := List.cons_lt_cons_iff.1 h
    · exact absurd h (Nat.lt_irrefl i)
    · exact ih h ⟨r, rfl⟩

/-- A walk is the pre-order of what is below its node. The loop over a stack that starts with the node ends after it
has taken the walk; the walk is the node before the walks of its children, which are in the order of the fields; and it
comes to every address below the node exactly once, to none after one that goes on from it. -/
theorem walk_preorder (n : Node) :
    (∀ ns, Drains [n] ns ↔ ns = n.walk) ∧ n.walk = n :: n.children.flatMap walk ∧
      ∃ ps : List (List Nat), ps.map n.at? = n.walk.map some ∧ ps.Nodup ∧ (∀ p, p ∈ ps ↔ (n.at? p).isSome) ∧
        ps.Pairwise fun p q => ¬ q <+: p := by
  refine ⟨fun ns => drains_iff, walk_eq n, ?_⟩
  obtain ⟨ps, hps⟩ := addresses_walk n
  have horder : ps.Pairwise fun p q => ¬ q <+: p := hps.sorted.imp not_prefix_of_lt
  refine ⟨ps, hps.found, horder.imp fun h => ?_, hps.complete, horder⟩
  rintro rfl
  exact h List.prefix_rfl

end ScriptEngine.Node

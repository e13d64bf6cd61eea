import ScriptEngine.Eval.Purity
import ScriptEngine.Proofs.Value.Frames

/-!
# Free names

A name is free in a function if it is used somewhere in the function and bound nowhere inside. Uses and bindings
are said of the tree here, by what its nodes contain.

* `mem_visit_iff`, `mem_walk_iff`: a walk comes to the nodes that a node contains.
* `mem_boundNames_iff`: the names that a function collects as bound are those that something in it introduces.
* `isFree_iff_mem_free`: the names that it lists as free are those that are.
-/

namespace ScriptEngine

namespace Node

/-- A node is another one or stands below it. -/
inductive Contains : Node → Node → Prop
  | refl (n : Node) : Contains n n
  | child {n c m : Node} (hc : c ∈ n.children) (h : Contains c m) : Contains n m

/-- A node declares variables, in a statement of its own or in an export. -/
inductive Declares : Node → VarDecl → Prop
  | stmt (d : VarDecl) : Declares (.stmt (.bindings d)) d
  | exported (d : VarDecl) : Declares (.varDecl d) d

/-- A node declares an enum, in a statement of its own or in an export. -/
inductive DeclaresEnum : Node → EnumDecl → Prop
  | stmt (d : EnumDecl) : DeclaresEnum (.stmt (.enum d)) d
  | exported (d : EnumDecl) : DeclaresEnum (.enumDecl d) d

/-- A node binds a name for the code around it or below it. What an import of everything binds cannot be told from
the tree. -/
inductive Introduces : Node → Text → Prop
  | function {f : FunctionDef} {x : Text} (hx : f.name = some x) : Introduces (.function f) x
  | parameter {f : FunctionDef} {p : Parameter} (hp : p ∈ f.parameters) : Introduces (.function f) p.name
  | single {n : Node} {d : VarDecl} {x : Text} (hd : n.Declares d) (hp : d.targets = []) (hx : d.name = some x) :
    Introduces n x
  | target {n : Node} {d : VarDecl} {x : Text} (hd : n.Declares d) (hx : x ∈ d.targets) : Introduces n x
  | enum {n : Node} {d : EnumDecl} (hd : n.DeclaresEnum d) : Introduces n d.name
  | element {s : Span} {i : Option Text} {x : Text} {e : Expr} {b : Block} : Introduces (.expr (.forIn s i x e b)) x
  | index {s : Span} {i x : Text} {e : Expr} {b : Block} : Introduces (.expr (.forIn s (some i) x e b)) i
  | caught {s : Span} {b : Block} {x : Text} {h c : Option Block} : Introduces (.expr (.tryCatch s b (some x) h c)) x
  | imported {i : Import} {n : ExchangedName} (hn : n ∈ i.names) : Introduces (.stmt (.importNames i)) n.localName

end Node

namespace FunctionDef

/-- A function uses a name: it contains the name as an expression. -/
def Uses (f : FunctionDef) (x : Text) : Prop := ∃ s, (Node.function f).Contains (.expr (.name s x))

/-- A function binds a name inside: a parameter has the name, or something below the function introduces it. The name
of the function itself is bound outside. -/
def Binds (f : FunctionDef) (x : Text) : Prop :=
  (∃ p ∈ f.parameters, p.name = x) ∨ ∃ c ∈ (Node.function f).children, ∃ n, c.Contains n ∧ n.Introduces x

/-- A name is free in a function. -/
def IsFree (f : FunctionDef) (x : Text) : Prop := f.Uses x ∧ ¬ f.Binds x

end FunctionDef

/-! ## Walks -/

namespace Node

variable {n c m : Node} {ns : List Node} {x : Text}

/-- A worklist comes to the nodes that those in it contain. -/
theorem mem_visit_iff : m ∈ visit ns ↔ ∃ n ∈ ns, n.Contains m := by
  fun_induction visit ns with
  | case1 => simp
  | case2 n rest ih =>
    rw [List.mem_cons, ih]
    constructor
    · rintro (rfl | ⟨c, hc, hm⟩)
      · exact ⟨m, .head _, .refl m⟩
      · obtain hc | hc := List.mem_append.1 hc
        · exact ⟨n, .head _, .child hc hm⟩
        · exact ⟨c, .tail _ hc, hm⟩
    · rintro ⟨c, hc, hm⟩
      obtain rfl | hc := List.mem_cons.1 hc
      · cases hm with
        | refl => exact .inl rfl
        | child hd hm => exact .inr ⟨_, List.mem_append_left _ hd, hm⟩
      · exact .inr ⟨c, List.mem_append_right _ hc, hm⟩

/-- A walk comes to the nodes that a node contains. -/
theorem mem_walk_iff : m ∈ n.walk ↔ n.Contains m := by simp [walk, mem_visit_iff]

/-- A walk goes on below the node that it starts with. -/
theorem drop_walk (n : Node) : n.walk.drop 1 = visit n.children := by
  rw [walk, visit, List.drop_one, List.tail_cons, List.append_nil]

/-- A declaration binds its targets, or its single name if it has none. -/
theorem introduces_of_declares {d : VarDecl} (hd : n.Declares d)
    (hx : x ∈ if d.targets = [] then d.name.toList else d.targets) : n.Introduces x := by
  split at hx
  · next hp => exact .single hd hp (Option.mem_toList.1 hx)
  · exact .target hd hx

/-- The names that a node binds are those that it introduces. -/
theorem mem_bound_iff : x ∈ n.bound ↔ n.Introduces x := by
  constructor
  · intro hx
    unfold bound at hx
    split at hx
    · next d => exact introduces_of_declares (.stmt d) hx
    · next d => exact introduces_of_declares (.exported d) hx
    · next d => exact List.mem_singleton.1 hx ▸ .enum (.stmt d)
    · next d => exact List.mem_singleton.1 hx ▸ .enum (.exported d)
    · next i =>
      obtain ⟨n, hn, rfl⟩ := List.mem_map.1 hx
      exact .imported hn
    · next f =>
      obtain hx | hx := List.mem_append.1 hx
      · exact .function (Option.mem_toList.1 hx)
      · obtain ⟨p, hp, rfl⟩ := List.mem_map.1 hx
        exact .parameter hp
    · next s index value e b =>
      obtain rfl | hx := List.mem_cons.1 hx
      · exact .element
      · obtain rfl := Option.mem_toList.1 hx
        exact .index
    · next s b name h c =>
      obtain rfl := Option.mem_toList.1 hx
      exact .caught
    · cases hx
  · intro h
    cases h with
    | function hx => exact List.mem_append_left _ (Option.mem_toList.2 hx)
    | parameter hp => exact List.mem_append_right _ (List.mem_map_of_mem hp)
    | single hd hp hx => cases hd <;> simp [bound, hp, hx]
    | target hd hx => cases hd <;> simpa [bound, List.ne_nil_of_mem hx] using hx
    | enum hd => cases hd <;> simp [bound]
    | element => simp [bound]
    | index => simp [bound]
    | caught => simp [bound]
    | imported hn => exact List.mem_map_of_mem hn

end Node

namespace FunctionDef

variable {f : FunctionDef} {x : Text} {s : Span}

/-- The names that a function collects as bound are those that it binds inside. -/
theorem mem_boundNames_iff : x ∈ f.boundNames ↔ f.Binds x := by
  have hwalk : (Node.walk (.function f)).drop 1 = Node.visit (Node.function f).children := Node.drop_walk _
  simp only [boundNames, hwalk, List.mem_append, List.mem_map, List.mem_flatMap, Node.mem_visit_iff,
    Node.mem_bound_iff, Binds]
  refine or_congr_right ⟨?_, ?_⟩
  · rintro ⟨n, ⟨c, hc, hn⟩, hx⟩
    exact ⟨c, hc, n, hn, hx⟩
  · rintro ⟨c, hc, n, hn, hx⟩
    exact ⟨n, ⟨c, hc, hn⟩, hx⟩

/-- The uses that a walk comes to. -/
theorem mem_used_iff : (x, s) ∈ (Node.walk (.function f)).filterMap Node.used? ↔
    (Node.function f).Contains (.expr (.name s x)) := by
  have hused (n : Node) : n.used? = some (x, s) ↔ n = .expr (.name s x) := by
    unfold Node.used?
    split
    · simp [and_comm]
    · next h => exact iff_of_false nofun fun hn => h _ _ hn
  simp only [List.mem_filterMap, hused, exists_eq_right]
  exact Node.mem_walk_iff

/-- Collecting first uses keeps the names collected and adds those used. -/
theorem mem_keys_collect (uses : List (Text × Span)) {m : OrderedMap Text Span} :
    x ∈ (uses.foldl (fun (m : OrderedMap Text Span) use =>
      if m.contains use.1 then m else m.insert use.1 use.2) m).keys ↔ x ∈ m.keys ∨ ∃ s, (x, s) ∈ uses := by
  induction uses generalizing m with
  | nil => simp
  | cons use uses ih =>
    rw [List.foldl_cons, ih]
    have hone : x ∈ (if m.contains use.1 then m else m.insert use.1 use.2).keys ↔ x ∈ m.keys ∨ x = use.1 := by
      split
      · next hm =>
        refine ⟨.inl, ?_⟩
        rintro (hx | rfl)
        · exact hx
        · exact OrderedMap.contains_iff.1 hm
      · rw [OrderedMap.keys_insert]
        split
        · next hk => exact ⟨.inl, fun hx => hx.elim id (· ▸ hk)⟩
        · rw [List.mem_append, List.mem_singleton]
    rw [hone, or_assoc]
    refine or_congr_right ?_
    constructor
    · rintro (rfl | ⟨s, hs⟩)
      · exact ⟨use.2, .head _⟩
      · exact ⟨s, .tail _ hs⟩
    · rintro ⟨s, hs⟩
      obtain rfl | hs := List.mem_cons.1 hs
      · exact .inl rfl
      · exact .inr ⟨s, hs⟩

/-- The names that a function lists as free are those that it uses and binds nowhere inside. -/
theorem isFree_iff_mem_free : f.IsFree x ↔ x ∈ f.free.map Prod.fst := by
  have hbound : (f.boundNames.contains x = false) ↔ ¬ f.Binds x := by
    rw [← mem_boundNames_iff, ← Bool.not_eq_true, List.contains_iff_mem]
  have hkeys := mem_keys_collect (x := x) ((Node.walk (.function f)).filterMap Node.used?) (m := .empty)
  simp only [mem_used_iff, OrderedMap.keys, OrderedMap.empty, List.map_nil, List.not_mem_nil, false_or] at hkeys
  rw [IsFree, Uses, ← hkeys, ← hbound]
  simp [free, OrderedMap.empty]

end FunctionDef

end ScriptEngine

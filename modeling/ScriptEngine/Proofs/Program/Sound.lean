import ScriptEngine.Program.Parser.Construct
import ScriptEngine.Program.Walk
import ScriptEngine.Proofs.Program.Position

/-!
# Sound trees

What is true of the tree that tokens are parsed into, node by node.

* **Everywhere** (`Node.Everywhere P`): a property of a node and of all nodes below it.
* **Tokens of a node** (`Span.Covers`): the span of a node is that of a range of tokens, and the ranges of
  its children are inside its own (`Node.Nested`). Spans are compared by the positions of their tokens, so
  this makes sense for any token list.
* **Form** (`Node.WellFormed`): what the evaluator takes for granted of a node and the types of the tree
  leave open.
* **Placed nodes** (`Node.Placed ts i j n`): a node made of tokens from `i` up to `j`, and so are all below
  it. A placed node is nested and well formed all the way down (`Node.Placed.everywhere`).
-/

namespace ScriptEngine

namespace Node

/-- A property of a node and of all nodes below it. -/
inductive Everywhere (P : Node → Prop) : Node → Prop
  | mk {n : Node} (here : P n) (below : ∀ c ∈ n.children, Everywhere P c) : Everywhere P n

namespace Everywhere

variable {P Q : Node → Prop} {n c : Node}

theorem here (h : n.Everywhere P) : P n := by
  cases h with
  | mk here _ => exact here

theorem child (h : n.Everywhere P) (hc : c ∈ n.children) : c.Everywhere P := by
  cases h with
  | mk _ below => exact below c hc

theorem mono (h : n.Everywhere P) (hPQ : ∀ m, P m → Q m) : n.Everywhere Q := by
  induction h with
  | mk here _ ih => exact .mk (hPQ _ here) ih

theorem of_visit {pending : List Node} (h : ∀ m ∈ pending, m.Everywhere P) :
    ∀ m ∈ visit pending, P m := by
  fun_induction visit pending with
  | case1 => exact fun _ hm => absurd hm List.not_mem_nil
  | case2 n rest ih =>
    have hn := h n (.head _)
    have hrest : ∀ m ∈ n.children ++ rest, m.Everywhere P := by
      intro m hm
      rcases List.mem_append.1 hm with hm | hm
      · exact hn.child hm
      · exact h m (.tail _ hm)
    exact List.forall_mem_cons.2 ⟨hn.here, ih hrest⟩

/-- The property holds of every node that a walk comes to. -/
theorem of_walk (h : n.Everywhere P) : ∀ m ∈ n.walk, P m := by
  refine of_visit fun m hm => ?_
  rw [List.mem_singleton.1 hm]
  exact h

end Everywhere

end Node

/-! ## The tokens of a span -/

/-- A span reaches from the start of the token at `a` to the end of the token before `b`. -/
structure Span.Covers (s : Span) (ts : Array Token) (a b : Nat) : Prop where
  lt : a < b
  start : s.start = (tokenIn ts a).span.start
  stop : s.stop = (tokenIn ts (b - 1)).span.stop

/-- A span covers tokens from the position `i` up to the position `j`. -/
def Span.Within (s : Span) (ts : Array Token) (i j : Nat) : Prop :=
  ∃ a b, i ≤ a ∧ b ≤ j ∧ s.Covers ts a b

namespace Span

variable {s first last : Span} {ts : Array Token} {a b c d i j k l : Nat}

theorem covers_token (ts : Array Token) (i : Nat) : (tokenIn ts i).span.Covers ts i (i + 1) :=
  ⟨Nat.lt_succ_self i, rfl, rfl⟩

theorem Covers.within (h : s.Covers ts a b) (hi : i ≤ a) (hj : b ≤ j) : s.Within ts i j :=
  ⟨a, b, hi, hj, h⟩

theorem Covers.upTo (hfirst : first.Covers ts a b) (hlast : last.Covers ts c d) (h : a < d) :
    (first.upTo last).Covers ts a d :=
  ⟨h, hfirst.start, hlast.stop⟩

theorem Within.mono (h : s.Within ts i j) (hi : k ≤ i) (hj : j ≤ l) : s.Within ts k l := by
  obtain ⟨a, b, ha, hb, hs⟩ := h
  exact hs.within (Nat.le_trans hi ha) (Nat.le_trans hb hj)

end Span

namespace Node

/-- The tokens of a node, among which are those of its children. -/
def Nested (ts : Array Token) (n : Node) : Prop :=
  ∃ a b, b ≤ ts.size ∧ n.span.Covers ts a b ∧ ∀ c ∈ n.children, c.span.Within ts a b

/-! ## Form -/

/-- What the evaluator takes for granted: targets can be assigned to, an arm that takes every subject is
the last one, a try does something with a failure, at most one parameter takes all other arguments, and an
exported function has a name. -/
def WellFormed : Node → Prop
  | expr (.assign _ target _ _) => target.isAssignable
  | expr (.update _ _ target _) => target.isAssignable
  | expr (.matchOn _ _ arms) => ∀ a ∈ arms.dropLast, Grammar.isCatchAll a = false
  | expr (.tryCatch _ _ _ handler cleanup) => handler.isSome ∨ cleanup.isSome
  | expr (.function f) => (f.parameters.filter (·.name = variadicName)).length ≤ 1
  | stmt (.exportDeclared _ (.function f)) => f.name.isSome
  | _ => True

instance : DecidablePred WellFormed := fun n => by
  unfold WellFormed
  split <;> infer_instance

/-! ## Placed nodes -/

/-- A node that is made of tokens from the position `i` up to the position `j`: it covers some of them, its
children are placed on those that it covers, and it is well formed. -/
inductive Placed (ts : Array Token) : Nat → Nat → Node → Prop
  | mk {i j a b : Nat} {n : Node} (hi : i ≤ a) (hj : b ≤ j) (hs : n.span.Covers ts a b)
      (hsize : b ≤ ts.size) (hform : n.WellFormed) (hchildren : ∀ c ∈ n.children, Placed ts a b c) :
      Placed ts i j n

namespace Placed

variable {ts : Array Token} {n c : Node} {i j k l : Nat}

theorem mono (h : n.Placed ts i j) (hk : k ≤ i) (hl : j ≤ l) : n.Placed ts k l := by
  cases h with
  | mk hi hj hs hsize hform hchildren =>
    exact .mk (Nat.le_trans hk hi) (Nat.le_trans hj hl) hs hsize hform hchildren

/-- The tokens that a placed node covers. -/
theorem covers (h : n.Placed ts i j) :
    ∃ a b, i ≤ a ∧ b ≤ j ∧ b ≤ ts.size ∧ n.span.Covers ts a b ∧ n.Placed ts a b := by
  cases h with
  | @mk _ _ a b _ hi hj hs hsize hform hchildren =>
    exact ⟨a, b, hi, hj, hsize, hs, .mk (Nat.le_refl a) (Nat.le_refl b) hs hsize hform hchildren⟩

theorem lt (h : n.Placed ts i j) : i < j := by
  obtain ⟨a, b, hi, hj, -, hs, -⟩ := h.covers
  have hab := hs.lt
  omega

theorem within (h : n.Placed ts i j) : n.span.Within ts i j := by
  obtain ⟨a, b, hi, hj, -, hs, -⟩ := h.covers
  exact hs.within hi hj

theorem child (h : n.Placed ts i j) (hc : c ∈ n.children) : c.Placed ts i j := by
  cases h with
  | mk hi hj hs hsize hform hchildren => exact (hchildren c hc).mono hi hj

/-- A placed node is nested and well formed all the way down. -/
theorem everywhere (h : n.Placed ts i j) :
    n.Everywhere fun m => m.Nested ts ∧ m.WellFormed := by
  induction h with
  | @mk _ _ a b _ hi hj hs hsize hform hchildren ih =>
    exact .mk ⟨⟨a, b, hsize, hs, fun c hc => (hchildren c hc).within⟩, hform⟩ ih

end Placed

end Node

end ScriptEngine

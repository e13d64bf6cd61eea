import ScriptEngine.Program.Walk

/-!
# Outlines

An outline shows a tree line by line: the label of a node, then its fields indented by two blanks.
A field that holds nodes is followed by their outlines, indented by two more; other fields show
their content on the same line.
-/

namespace ScriptEngine

namespace NodeField

/-- The content of a field that holds no nodes. -/
def shown : NodeField → Text
  | absent => "None"
  | operator label => label
  | flag b => if b then "True" else "False"
  | text t => t.quoted
  | texts ts => "[" ++ Text.joinWith ", " (ts.map Text.quoted) ++ "]"
  | number q => Number.constructionText q
  | nodes _ => "[]"
  | node _ => []

theorem mem_children_of_mem_nodes {f : NodeField} {c : Node} {cs : List Node}
    (hf : f = nodes cs) (h : c ∈ cs) : c ∈ f.children := by
  subst hf; exact h

end NodeField

namespace Node

theorem mem_children_of_mem_fields {n c : Node} {f : String × NodeField} (hf : f ∈ n.fields)
    (hc : c ∈ f.2.children) : c ∈ n.children :=
  List.mem_flatMap.2 ⟨f, hf, hc⟩

/-- The lines of the outline of a node. -/
def outlineLines (indent : Nat) (n : Node) : List Text :=
  let pad := Text.replicate indent ' '
  (pad ++ n.label) :: n.fields.attach.flatMap fun ⟨f, _hf⟩ =>
    let head : Text := pad ++ "  " ++ f.1 ++ ":"
    match hc : f.2 with
    | .node c => head :: outlineLines (indent + 4) c
    | .nodes (c :: cs) =>
      head :: (c :: cs).attach.flatMap fun ⟨c, h⟩ => outlineLines (indent + 4) c
    | content => [head ++ " " ++ content.shown]
termination_by n.weight
decreasing_by
  · exact weight_lt_of_mem_children
      (mem_children_of_mem_fields _hf (by rw [hc]; simp [NodeField.children]))
  · exact weight_lt_of_mem_children
      (mem_children_of_mem_fields _hf (NodeField.mem_children_of_mem_nodes hc h))

/-- The outline of a node. -/
def outline (n : Node) : Text := Text.joinWith "\n" (outlineLines 0 n)

end Node

end ScriptEngine

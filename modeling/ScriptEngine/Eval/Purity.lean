import ScriptEngine.Program.Walk
import ScriptEngine.Value.Scope

/-!
# Purity

A pure function may use its parameters, what it binds itself, and globals. `FunctionDef.free` are the
names that it uses and binds nowhere; a definition is refused if one of them is bound in a frame
around it that is not global.
-/

namespace ScriptEngine

/-- The names that a node binds. -/
def Node.bound : Node → List Text
  | .stmt (.bindings d) | .varDecl d => if d.targets = [] then d.name.toList else d.targets
  | .stmt (.enum d) | .enumDecl d => [d.name]
  | .stmt (.importNames i) => i.names.map ExchangedName.localName
  | .expr (.function f) => f.name.toList ++ f.parameters.map (·.name)
  | .expr (.forIn _ index value _ _) => value :: index.toList
  | .expr (.tryCatch _ _ name _ _) => name.toList
  | _ => []

/-- The name that a node uses, with its span. -/
def Node.used? : Node → Option (Text × Span)
  | .expr (.name span n) => some (n, span)
  | _ => none

namespace FunctionDef

/-- The names that a function binds, at any depth. Its own name is not among them. -/
def boundNames (f : FunctionDef) : List Text :=
  f.parameters.map (·.name) ++ (((Node.walk (.function f)).drop 1).flatMap Node.bound)

/-- The first uses of the names that a function uses and does not bind, in order. -/
def free (f : FunctionDef) : List (Text × Span) :=
  let bound := f.boundNames
  let uses : OrderedMap Text Span := ((Node.walk (.function f)).filterMap Node.used?).foldl
    (fun (m : OrderedMap Text Span) (use : Text × Span) =>
      if m.contains use.1 then m else m.insert use.1 use.2) .empty
  uses.entries.filter fun (n, _) => !bound.contains n

end FunctionDef

namespace Heap

/-- The first free name of a function that a frame around it binds and that is not global. -/
def captured? (h : Heap) (frame : Nat) (f : FunctionDef) : Option (Text × Span) :=
  f.free.find? fun (n, _) => (h.owner? frame n).any fun owner => !(h.frame owner).isGlobal

/-- Whether a function may be defined in a frame. -/
def checkPure (h : Heap) (frame : Nat) (f : FunctionDef) : Except Fault Unit :=
  match if f.isPure then h.captured? frame f else none with
  | none => .ok ()
  | some (n, span) => .error
    { kind := .scopeViolation, span := span,
      message := "pure function " ++ f.name.getD "<anonymous>" ++ "() cannot capture '" ++ n ++
        "'",
      hints := ["pure functions may only use their parameters and globals"] }

end Heap

end ScriptEngine

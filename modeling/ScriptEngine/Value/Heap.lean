import ScriptEngine.OrderedMap
import ScriptEngine.Program.Tree
import ScriptEngine.Value.Fault

/-!
# The heap

What values point to: cells of arrays, objects and references, functions with the frame they were
defined in, and frames of bindings. Cells and frames are added at the end and never removed, so a
place in the heap stays valid.

Places that were never handed out read as empty cells; no operation of the engine makes one.
-/

namespace ScriptEngine

/-- The name of a binding. A pattern without names binds the nameless name. -/
abbrev BindingName := Option Text

/-- A function: its definition and the frame it was defined in. -/
structure Closure where
  definition : FunctionDef
  frame : Nat

/-- The name of a function in messages. -/
def Closure.name (c : Closure) : Text := c.definition.name.getD "<anonymous>"

/-- A frame of bindings. Exports give the name of a binding for each exported name. -/
structure Frame where
  bindings : OrderedMap BindingName Value := .empty
  parent : Option Nat := none
  name : Text := "anonymous"
  isGlobal : Bool := false
  isPure : Bool := false
  file : Option Text := none
  constants : List BindingName := []
  exports : OrderedMap BindingName BindingName := .empty
deriving Inhabited

/-- The cells that values point to. -/
structure Heap where
  arrays : Array (Array Value) := #[]
  objects : Array (OrderedMap Text Value) := #[]
  references : Array Value := #[]
  closures : Array Closure := #[]
  frames : Array Frame := #[]
deriving Inhabited

namespace Heap

/-- The elements of an array cell. -/
def array (h : Heap) (id : Nat) : Array Value := h.arrays.getD id #[]

/-- The entries of an object cell. -/
def object (h : Heap) (id : Nat) : OrderedMap Text Value := h.objects.getD id .empty

/-- The content of a reference cell. -/
def reference (h : Heap) (id : Nat) : Value := h.references.getD id .null

/-- A frame. -/
def frame (h : Heap) (id : Nat) : Frame := h.frames.getD id {}

/-- A new array cell, as a value. -/
def newArray (h : Heap) (items : Array Value) : Value × Heap :=
  (.plain (.array h.arrays.size), { h with arrays := h.arrays.push items })

/-- A new object cell, as a value. -/
def newObject (h : Heap) (entries : OrderedMap Text Value) : Value × Heap :=
  (.plain (.object h.objects.size), { h with objects := h.objects.push entries })

/-- A new reference cell, as a value. -/
def newReference (h : Heap) (target : Value) : Value × Heap :=
  (.plain (.reference h.references.size), { h with references := h.references.push target })

/-- A new function, as a value. -/
def newClosure (h : Heap) (c : Closure) : Value × Heap :=
  (.plain (.function h.closures.size), { h with closures := h.closures.push c })

/-- A new frame. -/
def newFrame (h : Heap) (f : Frame) : Nat × Heap :=
  (h.frames.size, { h with frames := h.frames.push f })

/-- Changes an array cell. -/
def modifyArray (h : Heap) (id : Nat) (f : Array Value → Array Value) : Heap :=
  { h with arrays := h.arrays.modify id f }

/-- Changes an object cell. -/
def modifyObject (h : Heap) (id : Nat) (f : OrderedMap Text Value → OrderedMap Text Value) : Heap :=
  { h with objects := h.objects.modify id f }

/-- Changes a reference cell. -/
def setReference (h : Heap) (id : Nat) (target : Value) : Heap :=
  { h with references := h.references.setIfInBounds id target }

/-- Changes a frame. -/
def modifyFrame (h : Heap) (id : Nat) (f : Frame → Frame) : Heap :=
  { h with frames := h.frames.modify id f }

/-- The number of cells of all sorts. -/
def size (h : Heap) : Nat :=
  h.arrays.size + h.objects.size + h.references.size

end Heap

/-- An error object: message, type and data, and the place in the source if it is known. -/
def Heap.newError (h : Heap) (message kind : Text) (data : Option Value) (span : Option Span) :
    Value × Heap :=
  let place : List (Text × Value) := match span with
    | some s =>
      if 0 < s.start.line then
        [("line", .number s.start.line), ("column", .number s.start.column)]
      else []
    | none => []
  let entries : List (Text × Value) :=
    ("message", .string message) :: ("type", .string kind) :: ("data", data.getD .null) :: place
  let (v, h) := h.newObject (.ofList entries)
  (v.setTag TagName.error .error, h)

/-! ## Searches

A search of the heap that never expands a cell twice ends because the cells it has not seen become fewer. -/

section

variable {α : Type} [DecidableEq α]

/-- The number of elements of a list that have not been seen. -/
def unseen (whole seen : List α) : Nat := whole.countP (· ∉ seen)

/-- Seeing a new element of the list leaves fewer unseen. -/
theorem unseen_cons_lt {whole seen : List α} {a : α} (ha : a ∈ whole) (hs : a ∉ seen) :
    unseen whole (a :: seen) < unseen whole seen := by
  unfold unseen
  induction whole with
  | nil => simp at ha
  | cons b rest ih =>
    have hle : rest.countP (· ∉ a :: seen) ≤ rest.countP (· ∉ seen) := by
      refine List.countP_mono_left fun x _ hx => ?_
      simp only [List.mem_cons, not_or, decide_eq_true_eq] at hx ⊢
      exact hx.2
    by_cases hb : b = a
    · subst hb
      simp only [List.countP_cons, List.mem_cons, true_or, not_true_eq_false, hs,
        not_false_eq_true, decide_false, decide_true, Bool.false_eq_true, if_false, if_true] at *
      omega
    · have := ih (by simpa [Ne.symm hb] using ha)
      simp only [List.countP_cons, List.mem_cons, hb, false_or] at *
      omega

end

end ScriptEngine

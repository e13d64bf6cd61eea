import ScriptEngine.Module.Loader
import ScriptEngine.Proofs.Eval.Run

/-!
# How a load goes

What a load of a module does to the machine, by what the run of its program does.

* **Entering and leaving** (`Machine.entering`, `Machine.leaving`): a module is on the stack of those that
  are being evaluated while its statements run, and is taken off however they end.
* `Interp.loadModule_run` is the outcome of a load as an equation, `Interp.LoadsTo` the ways in which it may
  go.
-/

namespace ScriptEngine

/-- The modules after the program of a module was run, which is noted and kept if it gave a frame. The module
that was entered last is left. -/
def Modules.left (ms : Modules) (p : Path) (frame : Option Nat) : Modules :=
  { (frame.elim ms fun f => (ms.noted ⟨p, f, true⟩).keeping p f) with loading := ms.loading.dropLast }

namespace Machine

/-- The machine with other frames and cells. -/
abbrev withHeap (m : Machine) (h : Heap) : Machine := { m with heap := h }

/-- The machine with other modules. -/
abbrev withModules (m : Machine) (ms : Modules) : Machine := { m with modules := ms }

/-- The machine while a module is being evaluated. -/
abbrev entering (m : Machine) (p : Path) : Machine :=
  m.withModules { m.modules with loading := m.modules.loading ++ [p] }

/-- The machine after the program of a module was run. -/
abbrev leaving (m : Machine) (p : Path) (frame : Option Nat) : Machine :=
  m.withModules (m.modules.left p frame)

end Machine

namespace Interp

open Eval

variable {m : Machine} {p : Path} {path : Text} {importer : Option Text} {place : Option Span} {f : Nat}

theorem resolveModule_of_ok (hp : m.settings.resolve path importer = .ok p) :
    Eval.resolveModule path importer place m = .ok p m := by
  rw [Eval.resolveModule, get_bind, hp]
  rfl

theorem resolveModule_of_error {e : ResolveError} (place : Option Span)
    (hp : m.settings.resolve path importer = .error e) :
    ∃ e, Eval.resolveModule path importer place m = .error e m := by
  rw [Eval.resolveModule, get_bind, hp]
  cases e <;> exact ⟨_, rfl⟩

/-- The fault of importing a module that is being evaluated. -/
def cyclicImport (loading : List Path) (p : Path) (span : Option Span) : Fault :=
  { kind := .resolution, span := span,
    message := "cyclic import: " ++ Text.joinWith " -> " ((loading ++ [p]).map Path.name) }

/-- The outcome of a load: the module is known, or it is being evaluated, or its program is run. -/
theorem loadModule_run (I : Interp) (place : Option Span)
    (hp : m.settings.resolve path importer = .ok p) :
    I.loadModule path importer place m =
      match m.modules.loaded.get? p with
      | some f => .ok f (m.withModules (m.modules.noted ⟨p, f, false⟩))
      | none =>
        if p ∈ m.modules.loading then
          .error (.failed (.fault (cyclicImport m.modules.loading p place))) m
        else match I.runModule p (m.entering p) with
          | .ok f m' => .ok f (m'.leaving p (some f))
          | .error e m' => .error e (m'.leaving p none) := by
  rw [Interp.loadModule, bind_ok (resolveModule_of_ok hp), get_bind]
  cases m.modules.loaded.get? p with
  | some f => rfl
  | none =>
    by_cases hloading : p ∈ m.modules.loading
    · simp only [if_pos hloading]
      rfl
    · simp only [if_neg hloading]
      rw [Eval.whileLoading, run_between]
      cases h : I.runModule p (m.entering p) with
      | ok f m' =>
        rw [evaluateModule, bind_assoc, bind_ok h]
        rfl
      | error e m' =>
        rw [evaluateModule, bind_assoc, bind_error h]
        rfl

/-- How a load of a module may go: the module is known; it is being evaluated, which is an error; or it is
evaluated, and known afterwards if that succeeds. -/
inductive LoadsTo (I : Interp) (p : Path) (m : Machine) : EStateM.Result Exit Machine Nat → Prop
  | known {f : Nat} (h : m.modules.loaded.get? p = some f) :
      LoadsTo I p m (.ok f (m.withModules (m.modules.noted ⟨p, f, false⟩)))
  | cyclic {e : Exit} (hfirst : m.modules.loaded.get? p = none) (hloading : p ∈ m.modules.loading) :
      LoadsTo I p m (.error e m)
  | evaluated {f : Nat} {m' : Machine} (hfirst : m.modules.loaded.get? p = none)
      (hidle : p ∉ m.modules.loading) (h : I.runModule p (m.entering p) = .ok f m') :
      LoadsTo I p m (.ok f (m'.leaving p (some f)))
  | abandoned {e : Exit} {m' : Machine} (hfirst : m.modules.loaded.get? p = none)
      (hidle : p ∉ m.modules.loading) (h : I.runModule p (m.entering p) = .error e m') :
      LoadsTo I p m (.error e (m'.leaving p none))

theorem loadModule_loadsTo (I : Interp) (place : Option Span)
    (hp : m.settings.resolve path importer = .ok p) :
    I.LoadsTo p m (I.loadModule path importer place m) := by
  rw [loadModule_run I place hp]
  split
  · next h => exact .known h
  · next hfirst =>
    split
    · next hloading => exact .cyclic hfirst hloading
    · next hidle =>
      split
      · next h => exact .evaluated hfirst hidle h
      · next h => exact .abandoned hfirst hidle h

end Interp

end ScriptEngine

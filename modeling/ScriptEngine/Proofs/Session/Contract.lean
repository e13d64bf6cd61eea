import ScriptEngine.Proofs.Eval.Statement
import ScriptEngine.Proofs.Module.Loading

/-!
# Contracts of sessions

A contract that the interpreter of sessions respects is respected by everything that a host may ask of a
session: by its preparation (`Session.keeps_prepare`) and by each request (`Session.keeps_serve`). Only what
it says of forgetting the modules is left to the contract. So the invariant holds in every session that has
been started (`Session.holds_start`), after any requests (`Session.holds_serveAll`).
-/

namespace ScriptEngine.Session

open Contract Eval

variable {C : Contract} {m : Machine}

section

variable (G : C.Governs .session .session)

include G

theorem keeps_runSource {source : Text} {file : Option Text} : C.Keeps (runSource source file) := by
  unfold runSource
  split
  · next e _ =>
    split
    · exact keeps_pure
    · exact keeps_exit (jump?_exit source e)
  · next program hparse =>
    refine (G.runAdmitted (G.loads.parsed hparse)).attempt (fun _ => keeps_pure) fun e => ?_
    cases e with
    | failed error =>
      cases error with
      | lexical d => exact keeps_raising
      | grammatical d expectation => exact keeps_raising
      | _ => exact isPlain_caught.keeps.bind fun _ => keeps_pure
    | _ => exact keeps_raising

theorem keeps_runFile {path : Text} : C.Keeps (runFile path) := by
  refine keeps_get.bind fun m => ?_
  extract_lets files p
  split
  · exact keeps_runSource G
  · exact keeps_crash

/-- A request respects the contract, given that forgetting the modules does. -/
theorem keeps_serve (hforget : ∀ {m}, C.holds m →
      C.holds (forgetModules.after m) ∧ C.step m (forgetModules.after m))
    (hm : C.holds m) (r : Request) : C.holds (r.serve m) ∧ C.step m (r.serve m) := by
  cases r with
  | source text origin => exact (keeps_runSource G).after hm
  | file path => exact (keeps_runFile G).after hm
  | call name args =>
    have hcall : C.Keeps (callNamed name args) :=
      keeps_readHeap.bind fun _ => isPlain_ofData.keeps.bind fun _ => G.call _ _ _
    exact hcall.after hm
  | emit emitter event args =>
    have hemit : C.Keeps (emitNamed emitter event args) :=
      isPlain_ofData.keeps.bind fun _ => G.call.emit
    exact hemit.after hm
  | load path importer =>
    have hload : C.Keeps (loadExports path importer) :=
      G.loadModule.bind fun _ => keeps_heap.bind fun _ => keeps_pure
    exact hload.after hm
  | forget => exact hforget hm

theorem holds_serveAll (hforget : ∀ {m}, C.holds m →
      C.holds (forgetModules.after m) ∧ C.step m (forgetModules.after m))
    (hm : C.holds m) (rs : List Request) : C.holds (serveAll m rs) ∧ C.step m (serveAll m rs) := by
  induction rs generalizing m with
  | nil => exact ⟨hm, step_refl⟩
  | cons r rs ih =>
    obtain ⟨hserved, hstep⟩ := keeps_serve G hforget hm r
    obtain ⟨hall, hsteps⟩ := ih hserved
    exact ⟨hall, C.step_trans hstep hsteps⟩

/-! ## Preparing a session -/

theorem keeps_loadLibrary {file : Text} {p : Program} (hp : C.admits (.program p)) :
    C.Keeps (loadLibrary file p) :=
  .bind (keeps_onHeap fun _ => rfl) fun _ => (G.runAdmitted hp).bind fun _ =>
    keeps_heap.bind fun _ => meets_forM fun _ _ => keeps_define

/-- The libraries of the prelude are parsed like any source. -/
theorem admits_library {l : Text × Program} (hl : l ∈ Prelude.programs) : C.admits (.program l.2) := by
  obtain ⟨library, -, hprogram⟩ := List.mem_filterMap.1 hl
  obtain ⟨p, hp, rfl⟩ := Option.map_eq_some_iff.1 hprogram
  unfold Prelude.Library.program? at hp
  cases hparse : Program.parse library.source (some ("<prelude:" ++ library.file ++ ">")) with
  | error e =>
    rw [hparse] at hp
    cases hp
  | ok q =>
    rw [hparse] at hp
    cases hp
    exact G.loads.parsed hparse

theorem keeps_prepare {p : Provisions} : C.Keeps (prepare p) := by
  have hnatives : C.Keeps defineNatives :=
    keeps_get.bind fun _ => isPlain_newObject.keeps.bind fun _ => keeps_define
  have hemitter (name : Text) (events : List Text) : C.Keeps (defineEmitter name events) :=
    isPlain_newEmitter.keeps.bind fun _ => keeps_define
  have hstream (chunks : List (List Nat)) : C.Keeps (defineStream chunks) :=
    isPlain_newEmitter.keeps.bind fun _ => .bind (keeps_modify fun _ => .of_heap_eq rfl rfl rfl rfl rfl)
      fun _ => isPlain_newObject.keeps.bind fun _ => keeps_define
  refine hnatives.bind fun _ => ?_
  extract_lets k
  have hk : ∀ u, C.Keeps (k u) := by
    intro u
    refine .bind (meets_forM fun _ _ => hemitter _ _) fun _ => ?_
    split
    · exact hstream _
    · exact keeps_pure
  refine .ite (fun _ => .bind (meets_forM fun l hl => ?_) hk) fun _ => hk ()
  exact keeps_loadLibrary G (admits_library G hl)

/-- What holds of the machine before anything is defined holds of a session that is ready to run. -/
theorem holds_start {s : Settings} {p : Provisions} (hblank : C.holds (blank s p.input))
    (hstart : start s p = .ok m) : C.holds m ∧ C.step (blank s p.input) m := by
  have hprepared := (keeps_prepare G (p := p)).after hblank
  unfold start at hstart
  split at hstart
  · next hrun =>
    cases hstart
    have hrun : prepare p (blank s p.input) = .ok _ m := hrun
    rw [after_of_ok hrun] at hprepared
    exact hprepared
  · cases hstart

end

end ScriptEngine.Session

import Mathlib.Data.List.Dedup
import ScriptEngine.Proofs.Eval.Watch
import ScriptEngine.Proofs.Session.Contract

/-!
# Nested loads

A module that is being evaluated may load others. Import cycles are cut where they close, and what is noted
about the loads that are under way is undone however they end.

* **Files** (`FileTree.paths`): a path that an import resolves to is the only path of an existing file, so
  that there are no more of them than files.
* **Order** (`Modules.Orderly`): no module is being evaluated twice, and none that is being evaluated is known
  yet. `Contract.orderly` is the contract of evaluations that keep this order, the modules under way and the
  call depth.
* **Sessions** start in order, and between requests nothing is under way (`Session.idle_serveAll`).
-/

namespace ScriptEngine

/-! ## Files -/

namespace FileTree

/-- The canonical paths of the files. -/
def paths (t : FileTree) : List Path := t.files.map fun f => ⟨"/", f.1⟩

/-- Going down name by name leads to the names with the double dots taken out. -/
theorem eq_of_descend {t : FileTree} {dir names found : List Text} (h : t.descend dir names = some found) :
    found = (names.foldl (fun (above : List Text) (n : Text) =>
      if n = ".." then above.drop 1 else n :: above) dir.reverse).reverse := by
  induction names generalizing dir with
  | nil =>
    cases h
    simp
  | cons n rest ih =>
    rw [descend] at h
    split at h
    · rw [ih h, List.foldl_cons]
      by_cases hn : n = ".."
      · simp [hn, List.tail_reverse]
      · simp [hn]
    · cases h

theorem canonical_mem_paths {t : FileTree} {p : Path} (h : t.isFile p = true) :
    t.workDir.canonical p ∈ t.paths := by
  obtain ⟨content, hread⟩ := Option.isSome_iff_exists.1 h
  obtain ⟨names, hnames, hcontent⟩ := Option.bind_eq_some_iff.1 hread
  have hcollapsed : Path.collapse (t.workDir.join p).names = names := (eq_of_descend hnames).symm
  obtain ⟨before, behind, hfiles, -⟩ := List.lookup_eq_some_iff.1 hcontent
  rw [Path.canonical, hcollapsed, paths, hfiles]
  simp

end FileTree

theorem Settings.resolve_mem_paths {s : Settings} {path : Text} {importer : Option Text} {p : Path}
    (h : s.resolve path importer = .ok p) : p ∈ s.files.paths := by
  unfold resolve at h
  cases hrequested : withExtension s.extension (Path.ofText path) with
  | error e =>
    rw [hrequested] at h
    cases h
  | ok requested =>
    rw [hrequested] at h
    simp only [bind, Except.bind] at h
    split at h
    · next found hfound =>
      cases h
      exact FileTree.canonical_mem_paths (List.find?_some hfound)
    · cases h

/-! ## Order -/

/-- The modules that are being evaluated are different files, and none of them is known yet. -/
structure Modules.Orderly (ms : Modules) (files : FileTree) : Prop where
  nodup : ms.loading.Nodup
  filed : ms.loading ⊆ files.paths
  unknown : ∀ p ∈ ms.loading, ms.loaded.get? p = none

namespace Modules

variable {ms ms' : Modules} {files : FileTree} {p : Path}

instance : Decidable (ms.Orderly files) :=
  decidable_of_iff (ms.loading.Nodup ∧ ms.loading ⊆ files.paths ∧ ∀ p ∈ ms.loading, ms.loaded.get? p = none)
    ⟨fun h => ⟨h.1, h.2.1, h.2.2⟩, fun h => ⟨h.nodup, h.filed, h.unknown⟩⟩

namespace Orderly

theorem of_loading_eq_nil (h : ms.loading = []) : ms.Orderly files := by
  constructor <;> simp [h]

/-- Loads are nested at most as deep as there are files. -/
theorem length_le (h : ms.Orderly files) : ms.loading.length ≤ files.paths.dedup.length := by
  have hfiled : ms.loading ⊆ files.paths.dedup := fun p hp => List.mem_dedup.2 (h.filed hp)
  exact (List.subperm_of_subset h.nodup hfiled).length_le

theorem enter (h : ms.Orderly files) (hfile : p ∈ files.paths) (hfirst : ms.loaded.get? p = none)
    (hidle : p ∉ ms.loading) : Orderly { ms with loading := ms.loading ++ [p] } files where
  nodup := by
    refine List.nodup_append.2 ⟨h.nodup, List.nodup_singleton p, ?_⟩
    rintro q hq _ hp rfl
    cases List.mem_singleton.1 hp
    exact hidle hq
  filed q hq := by
    obtain hq | hq := List.mem_append.1 hq
    · exact h.filed hq
    · exact List.mem_singleton.1 hq ▸ hfile
  unknown q hq := by
    obtain hq | hq := List.mem_append.1 hq
    · exact h.unknown q hq
    · exact List.mem_singleton.1 hq ▸ hfirst

/-- The module that is left is none of those that are still being evaluated, so that it may be kept. -/
theorem leave (frame : Option Nat) (h : ms'.Orderly files) (hloading : ms'.loading = ms.loading ++ [p])
    (hidle : p ∉ ms.loading) : (ms'.left p frame).Orderly files := by
  have hstill : ms'.loading.dropLast ⊆ ms'.loading := List.dropLast_subset _
  refine ⟨h.nodup.sublist (List.dropLast_sublist _), fun q hq => h.filed (hstill hq), fun q hq => ?_⟩
  cases frame with
  | none => exact h.unknown q (hstill hq)
  | some f =>
    have hne : q ≠ p := by
      rintro rfl
      have hq : q ∈ ms'.loading.dropLast := hq
      rw [hloading, List.dropLast_concat] at hq
      exact hidle hq
    show (ms'.loaded.insert p f).get? q = none
    rw [OrderedMap.get?_insert, if_neg hne]
    exact h.unknown q (hstill hq)

end Orderly

end Modules

namespace Interp

/-- The modules are in order. -/
def orderly (_ : Activity) (m : Machine) : Bool := m.modules.Orderly m.settings.files

/-- The interpreter of a level that is stopped where the modules are not in order. -/
def watchingLoads (refuse : Eval Value) (n depth : Nat) : Interp := watched orderly refuse n ⟨depth, 0⟩

end Interp

/-- The same modules are under way, at the same call depth. -/
structure Machine.SameNesting (m m' : Machine) : Prop where
  loading : m'.modules.loading = m.modules.loading
  depth : m'.depth = m.depth

namespace Contract

/-- The contract of evaluations that keep the modules in order during an activity. The modules that are being
evaluated are the same before and after. -/
def orderly (a : Activity) : Contract where
  holds m := m.modules.Orderly m.settings.files ∧ m.depth = a.bodies
  step m m' := m'.modules.loading = m.modules.loading
  exits _ _ := True
  holds_of_local hl hm := ⟨hl.modules ▸ hl.settings ▸ hm.1, hl.depth.trans hm.2⟩
  holds_newClosure _ hm := hm
  step_of_follows hf := congrArg Modules.loading hf.modules
  step_trans hs hs' := hs'.trans hs
  exits_of_step _ _ := trivial
  exits_plain _ := trivial
  holds_noting hm := hm
  exits_noting _ := trivial
  step_try hs hs' := hs'.trans hs

instance {a : Activity} : (orderly a).Universal := ⟨fun _ => trivial⟩

theorem encloses_orderly {d : Nat} {a b : Activity} (hd : d = b.bodies) :
    (orderly a).Encloses (orderly b) d where
  enter hm hf h := ⟨hf.modules ▸ hf.settings ▸ hm.1, h.trans hd⟩
  leave hm hm' hf h := ⟨hf.modules ▸ hf.settings ▸ hm'.1, h.trans hm.2⟩
  step hs := hs
  exits _ := trivial

theorem loads_orderly (a : Activity) : (orderly a).Loads where
  parsed _ := trivial
  reuse hm := ⟨⟨⟨hm.1.nodup, hm.1.filed, hm.1.unknown⟩, hm.2⟩, rfl⟩
  enter hm hp hfirst hidle := ⟨hm.1.enter (Settings.resolve_mem_paths hp) hfirst hidle, hm.2⟩
  leave frame hidle hm' hs := by
    refine ⟨⟨hm'.1.leave frame hs hidle, hm'.2⟩, ?_⟩
    exact (congrArg List.dropLast hs).trans List.dropLast_concat
  exits _ := trivial

theorem byActivity_orderly : ByActivity orderly where
  universal _ := inferInstance
  loads := loads_orderly
  exits := trivial
  checking _ := rfl
  running hm _ := encloses_orderly (congrArg (· + 1) hm.2)
  thread _ := encloses_orderly rfl

/-- Every level of evaluation keeps the modules in order, all along its runs. -/
theorem governs_orderly (refuse : Eval Value) (n : Nat) (a : Activity) :
    (orderly a).Governs (.ofLevel n) (.watched Interp.orderly refuse n a) := by
  have hallows (a : Activity) (m : Machine) (hm : (orderly a).holds m) : Interp.orderly a m = true :=
    decide_eq_true hm.1
  exact byActivity_orderly.governs_watched hallows refuse n a

end Contract

/-! ## Sessions -/

namespace Session

open Contract Eval

variable {m : Machine}

/-- The contract of requests: the modules are in order, and no call is active. -/
abbrev idle : Contract := orderly {}

theorem governs_session : idle.Governs .session .session :=
  (governs_orderly (Eval.exit .exhausted) Interp.sessionLevel {}).left

theorem idle_forget (hm : idle.holds m) :
    idle.holds (forgetModules.after m) ∧ idle.step m (forgetModules.after m) :=
  ⟨⟨⟨hm.1.nodup, hm.1.filed, fun _ _ => rfl⟩, hm.2⟩, rfl⟩

/-- Between requests no module is being evaluated and no call is active. -/
theorem idle_serveAll {s : Settings} {p : Provisions} (hstart : start s p = .ok m) (rs : List Request) :
    (serveAll m rs).modules.loading = [] ∧ (serveAll m rs).depth = 0 := by
  have hblank : idle.holds (blank s p.input) := ⟨.of_loading_eq_nil rfl, rfl⟩
  obtain ⟨hready, hstarted⟩ := holds_start governs_session hblank hstart
  obtain ⟨hholds, hserved⟩ := holds_serveAll governs_session idle_forget hready rs
  exact ⟨hserved.trans hstarted, hholds.2⟩

end Session

namespace Interp

/-- An import of a module that is being evaluated is an error, whatever else is known. -/
theorem loadModule_cyclic (I : Interp) {m : Machine} {path : Text} {importer : Option Text} {p : Path}
    (span : Option Span) (hm : m.modules.Orderly m.settings.files)
    (hp : m.settings.resolve path importer = .ok p) (hloading : p ∈ m.modules.loading) :
    I.loadModule path importer span m =
      .error (.failed (.fault (cyclicImport m.modules.loading p span))) m := by
  rw [loadModule_run I span hp, hm.unknown p hloading]
  simp only [if_pos hloading]

/-- Evaluations and loads leave the modules under way and the call depth as they were, however they end. On
the way no module is being evaluated twice, so that loads are nested at most as deep as there are files: a
run that is watched for this is the same as one that is not. An import of a module that is being evaluated is
an error. Sessions start in order, and come back to no module under way and no active call. -/
theorem import_cycles_cut (refuse : Eval Value) (n : Nat) {m : Machine}
    (hm : m.modules.Orderly m.settings.files) :
    ((∀ e frame, (watchingLoads refuse n m.depth).eval e frame m = (ofLevel n).eval e frame m) ∧
      (∀ ss frame, (watchingLoads refuse n m.depth).exec ss frame m = (ofLevel n).exec ss frame m) ∧
      (∀ f args span,
        (watchingLoads refuse n m.depth).call f args span m = (ofLevel n).call f args span m) ∧
      (∀ p frame,
        (watchingLoads refuse n m.depth).runProgram p frame m = (ofLevel n).runProgram p frame m) ∧
      ∀ path importer span, (watchingLoads refuse n m.depth).loadModule path importer span m =
        (ofLevel n).loadModule path importer span m) ∧
    (∀ a m, orderly a m = true →
      m.modules.loading.Nodup ∧ m.modules.loading.length ≤ m.settings.files.paths.dedup.length) ∧
    (∀ path importer span p, m.settings.resolve path importer = .ok p → p ∈ m.modules.loading →
      (ofLevel n).loadModule path importer span m =
        .error (.failed (.fault (cyclicImport m.modules.loading p span))) m) ∧
    ((∀ e frame, m.SameNesting (((ofLevel n).eval e frame).after m)) ∧
      (∀ ss frame, m.SameNesting (((ofLevel n).exec ss frame).after m)) ∧
      (∀ f args span, m.SameNesting (((ofLevel n).call f args span).after m)) ∧
      (∀ p frame, m.SameNesting (((ofLevel n).runProgram p frame).after m)) ∧
      ∀ path importer span, m.SameNesting (((ofLevel n).loadModule path importer span).after m)) ∧
    ∀ s p m, Session.start s p = .ok m → ∀ rs,
      (Session.serveAll m rs).modules.loading = [] ∧ (Session.serveAll m rs).depth = 0 := by
  have G := Contract.governs_orderly refuse n ⟨m.depth, 0⟩
  have hholds : (Contract.orderly ⟨m.depth, 0⟩).holds m := ⟨hm, rfl⟩
  have hsame {α : Type} {x y : Eval α} (h : (Contract.orderly ⟨m.depth, 0⟩).Meets x y) : y m = x m :=
    (h m hholds).1.symm
  have hrestored {α : Type} {x y : Eval α} {E : Exit → Prop}
      (h : ((Contract.orderly ⟨m.depth, 0⟩).allowing E).Meets x y) : m.SameNesting (x.after m) := by
    obtain ⟨hafter, hstep⟩ := h.left.after hholds
    exact ⟨hstep, hafter.2⟩
  refine ⟨⟨?_, ?_, ?_, ?_, ?_⟩, ?_, ?_, ⟨?_, ?_, ?_, ?_, ?_⟩, ?_⟩
  · exact fun e frame => (G.eval e frame m hholds).1.symm
  · exact fun ss frame => (G.exec ss frame m hholds).1.symm
  · exact fun f args span => hsame (G.call f args span)
  · exact fun p frame => hsame G.runProgram
  · exact fun path importer span => hsame G.loadModule
  · intro a m h
    have hm := of_decide_eq_true h
    exact ⟨hm.nodup, hm.length_le⟩
  · exact fun path importer span p hp hloading => loadModule_cyclic _ span hm hp hloading
  · exact fun e frame => hrestored (G.eval e frame)
  · exact fun ss frame => hrestored (G.exec ss frame)
  · exact fun f args span => hrestored (E := fun _ => False) (G.call f args span).allowing
  · exact fun p frame => hrestored (E := fun _ => False) G.runProgram.allowing
  · exact fun path importer span => hrestored (E := fun _ => False) G.loadModule.allowing
  · exact fun s p m hstart rs => Session.idle_serveAll hstart rs

/-- Two modules that import each other, and the settings to find them. -/
def mutualImports : Settings :=
  { files := (({} : FileTree).add (Path.ofText "a.zr") "from \"b\" import y; export const x = 1").add
      (Path.ofText "b.zr") "from \"a\" import x; export const y = 2" }

/-- A load of one of the modules fails and is undone. While the module is being evaluated, an import of it is
an error. -/
theorem import_cycles_cut_mutual :
    let m := Session.blank mutualImports []
    let p := Path.ofText "/R/a.zr"
    m.SameNesting (((ofLevel 40).loadModule "a" none none).after m) ∧
    (ofLevel 40).loadModule "a" none none (m.entering p) =
      .error (.failed (.fault (cyclicImport [p] p none))) (m.entering p) ∧
    Session.loads 40 "a" m = false := by
  intro m p
  have hm : m.modules.Orderly m.settings.files := .of_loading_eq_nil rfl
  have hentered : (m.entering p).modules.Orderly (m.entering p).settings.files := by decide +kernel
  obtain ⟨-, -, -, hrestored, -⟩ := import_cycles_cut (Eval.exit .exhausted) 40 hm
  obtain ⟨-, -, hcyclic, -, -⟩ := import_cycles_cut (Eval.exit .exhausted) 40 hentered
  refine ⟨hrestored.2.2.2.2 _ _ _, ?_, by decide +kernel⟩
  exact hcyclic "a" none none p (by rfl) (by simp [m])

end Interp

end ScriptEngine

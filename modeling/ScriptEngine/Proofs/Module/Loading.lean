import ScriptEngine.Proofs.Session.Requests

/-!
# Loading modules

A module is evaluated at most once, until the modules are forgotten.

* **Extending** (`Modules.Extends new ms ms'`): the loads `new` lead from `ms` to `ms'`. What was known
  stays known, a module is evaluated by one load at most and only if it was not known, and all loads of a
  module give the frame that is kept for it. A module that is being evaluated becomes known by no load
  inside of its evaluation.
* `Machine.Runs.extends`: every run extends the modules.
* `loadModule_of_known`, `loadModule_ok`, `Confined.loadModule_error`: a module that is known is not
  evaluated again, a load that succeeds gives the frame that is kept, and one that fails keeps none.
-/

namespace ScriptEngine

/-- The modules that loads have evaluated. -/
def evaluatedPaths (ls : List Load) : List Path := (ls.filter (·.evaluated)).map Load.path

theorem evaluatedPaths_append (ls ls' : List Load) :
    evaluatedPaths (ls ++ ls') = evaluatedPaths ls ++ evaluatedPaths ls' := by
  simp [evaluatedPaths]

namespace Modules

/-- What loads make of the modules. -/
structure Extends (new : List Load) (ms ms' : Modules) : Prop where
  loading : ms'.loading = ms.loading
  journal : ms'.journal = new ++ ms.journal
  /-- No entry is replaced or removed. -/
  kept : ∀ {p f}, ms.loaded.get? p = some f → ms'.loaded.get? p = some f
  /-- A module does not become known inside of its own evaluation. -/
  barred : ∀ {p}, p ∈ ms.loading → ms'.loaded.get? p = ms.loaded.get? p
  /-- No two loads evaluate the same module, and none evaluates a module that was known. -/
  once : (evaluatedPaths new).Nodup
  first : ∀ {p}, p ∈ evaluatedPaths new → ms.loaded.get? p = none
  /-- All loads of a module give the frame that is kept for it. -/
  given : ∀ {l}, l ∈ new → ms'.loaded.get? l.path = some l.frame

namespace Extends

variable {new new' : List Load} {ms ms' ms'' : Modules} {p : Path} {f : Nat}

theorem refl (ms : Modules) : Extends [] ms ms where
  loading := rfl
  journal := rfl
  kept := id
  barred _ := rfl
  once := List.nodup_nil
  first := nofun
  given := nofun

/-- A module that has been evaluated is known. -/
theorem known (h : Extends new ms ms') (hp : p ∈ evaluatedPaths new) : ∃ f, ms'.loaded.get? p = some f := by
  obtain ⟨l, hl, rfl⟩ := List.mem_map.1 hp
  exact ⟨_, h.given (List.mem_of_mem_filter hl)⟩

/-- A module that is not known was not known before. -/
theorem unknown (h : Extends new ms ms') (hp : ms'.loaded.get? p = none) : ms.loaded.get? p = none := by
  cases hf : ms.loaded.get? p with
  | none => rfl
  | some f =>
    rw [h.kept hf] at hp
    cases hp

theorem trans (h : Extends new ms ms') (h' : Extends new' ms' ms'') :
    Extends (new' ++ new) ms ms'' where
  loading := h'.loading.trans h.loading
  journal := by rw [h'.journal, h.journal, List.append_assoc]
  kept hf := h'.kept (h.kept hf)
  barred hp := (h'.barred (h.loading ▸ hp)).trans (h.barred hp)
  once := by
    rw [evaluatedPaths_append]
    refine h'.once.append h.once fun p hp' hp => ?_
    -- evaluated by an earlier load it is known, so that no later one evaluates it
    obtain ⟨f, hf⟩ := h.known hp
    rw [h'.first hp'] at hf
    cases hf
  first {p} hp := by
    rw [evaluatedPaths_append, List.mem_append] at hp
    exact hp.elim (fun hp => h.unknown (h'.first hp)) h.first
  given hl := (List.mem_append.1 hl).elim h'.given fun hl => h'.kept (h.given hl)

/-- A load of a module that is known. -/
theorem reuse (hp : ms.loaded.get? p = some f) :
    Extends [⟨p, f, false⟩] ms (ms.noted ⟨p, f, false⟩) where
  loading := rfl
  journal := rfl
  kept := id
  barred _ := rfl
  once := List.nodup_nil
  first := nofun
  given hl := by
    cases List.mem_singleton.1 hl
    exact hp

/-- The module that was entered last is left. -/
theorem dropLast_loading (h : Extends new { ms with loading := ms.loading ++ [p] } ms') :
    ms'.loading.dropLast = ms.loading := by
  rw [h.loading, List.dropLast_concat]

/-- An evaluation of a module that fails: the loads inside of it stay. -/
theorem abandon (h : Extends new { ms with loading := ms.loading ++ [p] } ms') :
    Extends new ms (ms'.left p none) where
  loading := h.dropLast_loading
  journal := h.journal
  kept := h.kept
  barred hq := h.barred (List.mem_append_left _ hq)
  once := h.once
  first := h.first
  given := h.given

/-- An evaluation of a module that succeeds. The module was not known and did not become known by a load
inside of its evaluation, so that no entry is replaced. -/
theorem load (hfirst : ms.loaded.get? p = none) (hidle : p ∉ ms.loading)
    (h : Extends new { ms with loading := ms.loading ++ [p] } ms') :
    Extends (⟨p, f, true⟩ :: new) ms (ms'.left p (some f)) := by
  have hunknown : ms'.loaded.get? p = none := (h.barred (by simp)).trans hfirst
  have hget (q : Path) : (ms'.left p (some f)).loaded.get? q =
      if q = p then some f else ms'.loaded.get? q := OrderedMap.get?_insert ..
  have hother {q : Path} {g : Nat} (hq : ms'.loaded.get? q = some g) :
      (ms'.left p (some f)).loaded.get? q = some g := by
    rw [hget, if_neg, hq]
    rintro rfl
    rw [hunknown] at hq
    cases hq
  refine ⟨h.dropLast_loading, ?_, fun hq => hother (h.kept hq), fun {q} hq => ?_, ?_, fun {q} hq => ?_,
    fun hl => ?_⟩
  · exact congrArg (_ :: ·) h.journal
  · have hne : q ≠ p := fun he => hidle (he ▸ hq)
    rw [hget, if_neg hne]
    exact h.barred (List.mem_append_left _ hq)
  · refine List.nodup_cons.2 ⟨fun hp => ?_, h.once⟩
    obtain ⟨g, hg⟩ := h.known hp
    rw [hunknown] at hg
    cases hg
  · obtain rfl | hq := List.mem_cons.1 hq
    · exact hfirst
    · exact h.first hq
  · obtain rfl | hl := List.mem_cons.1 hl
    · rw [hget, if_pos rfl]
    · exact hother (h.given hl)

end Extends

end Modules

namespace Machine

variable {s : Nat} {m m' : Machine}

/-- Every run extends the modules by the loads that are made in it. -/
theorem Runs.extends (h : Runs s m m') : ∃ new, Modules.Extends new m.modules m'.modules := by
  induction h with
  | still hfollows _ _ => exact ⟨[], hfollows.modules ▸ .refl _⟩
  | trans _ _ ih ih' =>
    obtain ⟨new, h⟩ := ih
    obtain ⟨new', h'⟩ := ih'
    exact ⟨_, h.trans h'⟩
  | define | assign | offer | record | note => exact ⟨[], .refl _⟩
  | enter _ _ ih => exact ih
  | reuse hp => exact ⟨_, .reuse hp⟩
  | abandon _ _ _ ih =>
    obtain ⟨new, h⟩ := ih
    exact ⟨new, h.abandon⟩
  | load hfirst hidle _ ih =>
    obtain ⟨new, h⟩ := ih
    exact ⟨_, h.load hfirst hidle⟩

end Machine

namespace Interp

variable {I : Interp} {m m' : Machine} {path : Text} {importer : Option Text} {span : Option Span}
  {p : Path}

/-- A load of a module that is known does not evaluate it again. -/
theorem loadModule_of_known {f : Nat} (hp : m.settings.resolve path importer = .ok p)
    (hf : m.modules.loaded.get? p = some f) :
    I.loadModule path importer span m = .ok f (m.withModules (m.modules.noted ⟨p, f, false⟩)) := by
  have hload := loadModule_loadsTo I span hp
  generalize I.loadModule path importer span m = r at hload
  cases hload with
  | known h =>
    cases hf.symm.trans h
    rfl
  | cyclic hfirst | evaluated hfirst | abandoned hfirst => cases hf.symm.trans hfirst

/-- A load that succeeds gives the frame that is kept for the module, and is noted as one that has evaluated
the module exactly if the module was not known before. -/
theorem loadModule_ok {f : Nat} (hp : m.settings.resolve path importer = .ok p)
    (hrun : I.loadModule path importer span m = .ok f m') :
    m'.modules.loaded.get? p = some f ∧
    m'.modules.journal.head? = some ⟨p, f, (m.modules.loaded.get? p).isNone⟩ := by
  have hload := loadModule_loadsTo I span hp
  rw [hrun] at hload
  cases hload with
  | known h => exact ⟨h, by rw [h]; rfl⟩
  | evaluated hfirst hidle h =>
    refine ⟨?_, by rw [hfirst]; rfl⟩
    exact (OrderedMap.get?_insert ..).trans (if_pos rfl)

/-- A load that fails leaves no entry for its module. -/
theorem Confined.loadModule_error (hI : I.Confined) {e : Exit}
    (hp : m.settings.resolve path importer = .ok p)
    (hrun : I.loadModule path importer span m = .error e m') : m'.modules.loaded.get? p = none := by
  have hload := loadModule_loadsTo I span hp
  rw [hrun] at hload
  cases hload with
  | cyclic hfirst hloading => exact hfirst
  | abandoned hfirst hidle h =>
    have hevaluated := hI.runModule (s := 0) (p := p) (m.entering p)
    rw [Eval.after_of_error h] at hevaluated
    obtain ⟨new, hnew⟩ := hevaluated.extends
    exact (hnew.barred (by simp)).trans hfirst

end Interp

namespace Session

open Interp

variable {m : Machine}

/-- The machine after some requests. -/
def serveAll (m : Machine) (rs : List Request) : Machine := rs.foldl Request.serve m

/-- Requests extend the modules, as long as none is to forget them. -/
theorem extends_serveAll {rs : List Request} (hrs : .forget ∉ rs) :
    ∃ new, Modules.Extends new m.modules (serveAll m rs).modules := by
  induction rs generalizing m with
  | nil => exact ⟨[], .refl _⟩
  | cons r rs ih =>
    obtain ⟨hr, hrs⟩ := List.ne_and_not_mem_of_not_mem_cons hrs
    obtain ⟨new, h⟩ := (Request.runs (m := m) hr.symm).extends
    obtain ⟨new', h'⟩ := ih (m := r.serve m) hrs
    exact ⟨_, h.trans h'⟩

/-- Requests and statements extend the modules, as long as no request is to forget them. A load of a module
that is known gives its frame and evaluates nothing. Any load that succeeds gives the frame that is kept for
the module, and a load that fails keeps none. -/
theorem module_evaluated_once (m : Machine) (n : Nat) :
    (∀ rs, .forget ∉ rs → ∃ new, Modules.Extends new m.modules (serveAll m rs).modules) ∧
    (∀ ss s, ∃ new, Modules.Extends new m.modules (((ofLevel n).exec ss s).after m).modules) ∧
    ∀ path importer span p, m.settings.resolve path importer = .ok p →
      (∀ f, m.modules.loaded.get? p = some f → (ofLevel n).loadModule path importer span m =
        .ok f (m.withModules (m.modules.noted ⟨p, f, false⟩))) ∧
      (∀ f m', (ofLevel n).loadModule path importer span m = .ok f m' →
        m'.modules.loaded.get? p = some f ∧
        m'.modules.journal.head? = some ⟨p, f, (m.modules.loaded.get? p).isNone⟩) ∧
      ∀ e m', (ofLevel n).loadModule path importer span m = .error e m' →
        m'.modules.loaded.get? p = none := by
  have hI := confined_ofLevel n
  refine ⟨fun _ => extends_serveAll, fun ss s => (hI.exec ss s m).extends, fun _ _ _ _ hp => ?_⟩
  exact ⟨fun _ => loadModule_of_known hp, fun _ _ => loadModule_ok hp, fun _ _ => hI.loadModule_error hp⟩

/-- A machine with a module and a file that is not one. -/
def machineWithModules : Machine :=
  let files := (({} : FileTree).add (Path.ofText "good.zr") "export let x = 1").add
    (Path.ofText "bad.zr") "let"
  blank { files := files } []

/-- Whether a load succeeds. -/
def loads (n : Nat) (path : Text) (m : Machine) : Bool :=
  match (ofLevel n).loadModule path none none m with
  | .ok _ _ => true
  | .error _ _ => false

/-- Two spellings of a file evaluate it once, and a file that is no module is not kept. -/
theorem module_evaluated_once_spellings :
    let m := machineWithModules
    let m' := serveAll m [.load "good" none, .load "./good.zr" none, .load "bad" none]
    m'.modules.journal.map (·.evaluated) = [false, true] ∧
    (∃ new, Modules.Extends new m.modules m'.modules) ∧
    (∃ p, m.settings.resolve "bad" none = .ok p ∧ ∃ e m'',
      (ofLevel 9).loadModule "bad" none none m = .error e m'' ∧ m''.modules.loaded.get? p = none) := by
  intro m m'
  refine ⟨by decide +kernel, (module_evaluated_once m 9).1 _ (by simp), ?_⟩
  have hp : m.settings.resolve "bad" none = .ok (Path.ofText "/R/bad.zr") := by rfl
  have hfails : loads 9 "bad" m = false := by decide +kernel
  cases hrun : (ofLevel 9).loadModule "bad" none none m with
  | ok f m'' =>
    rw [loads, hrun] at hfails
    cases hfails
  | error e m'' =>
    exact ⟨_, hp, e, m'', rfl, ((module_evaluated_once m 9).2.2 _ _ _ _ hp).2.2 e m'' hrun⟩

end Session

end ScriptEngine

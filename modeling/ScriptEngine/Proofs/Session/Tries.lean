import ScriptEngine.Proofs.Enum.Reached
import ScriptEngine.Proofs.Eval.Watch
import ScriptEngine.Proofs.Session.Contract

/-!
# Tries are cleaned up

The journal of a machine tells when tries with a cleanup are entered, cleaned up and left, the latest first. In
order of time the events of any run nest (`TryEvent.Nested`): a try that is entered is cleaned up once and left
once, with whole tries in its guarded part and in its cleanup. This is a contract that every level of evaluation
respects (`Contract.tidy`), however what is evaluated ends.

* **Cleanups run exactly once** (`Session.cleanups_run_once`): for every part of a program and for sessions as a
  whole, and for each try in terms of its guarded part and its cleanup.
-/

namespace ScriptEngine

/-! ## Events -/

namespace TryEvent

/-- Events of whole tries, in the order in which they happen. -/
inductive Nested : List TryEvent → Prop
  | nil : Nested []
  | append {es fs : List TryEvent} (first : Nested es) (rest : Nested fs) : Nested (es ++ fs)
  | tried {c : Block} {es fs : List TryEvent} (guarded : Nested es) (cleanup : Nested fs) :
      Nested (⟨.entered, c⟩ :: (es ++ ⟨.cleaning, c⟩ :: (fs ++ [⟨.left, c⟩])))

variable {es fs : List TryEvent} {c : Block}

/-- The cleanups of the tries that come to a stage. -/
def cleanupsAt (stage : TryStage) (es : List TryEvent) : List Block :=
  (es.filter (·.stage = stage)).map (·.cleanup)

theorem cleanupsAt_append {stage : TryStage} :
    cleanupsAt stage (es ++ fs) = cleanupsAt stage es ++ cleanupsAt stage fs := by
  simp [cleanupsAt]

/-- Every try that is entered comes to each of the other stages once. -/
theorem Nested.perm (h : Nested es) (stage : TryStage) :
    (cleanupsAt .entered es).Perm (cleanupsAt stage es) := by
  induction h with
  | nil => exact .refl _
  | append _ _ ih ih' =>
    rw [cleanupsAt_append, cleanupsAt_append]
    exact ih.append ih'
  | @tried c es fs _ _ ih ih' =>
    have hentered : cleanupsAt .entered (⟨.entered, c⟩ :: (es ++ ⟨.cleaning, c⟩ :: (fs ++ [⟨.left, c⟩]))) =
        c :: (cleanupsAt .entered es ++ cleanupsAt .entered fs) := by
      simp [cleanupsAt]
    have hboth := ih.append ih'
    rw [hentered]
    cases stage with
    | entered => rw [hentered]
    | cleaning =>
      have hcleaning : cleanupsAt .cleaning (⟨.entered, c⟩ :: (es ++ ⟨.cleaning, c⟩ :: (fs ++ [⟨.left, c⟩]))) =
          cleanupsAt .cleaning es ++ c :: cleanupsAt .cleaning fs := by
        simp [cleanupsAt]
      rw [hcleaning]
      exact (hboth.cons c).trans List.perm_middle.symm
    | left =>
      have hleft : cleanupsAt .left (⟨.entered, c⟩ :: (es ++ ⟨.cleaning, c⟩ :: (fs ++ [⟨.left, c⟩]))) =
          (cleanupsAt .left es ++ cleanupsAt .left fs) ++ [c] := by
        simp [cleanupsAt]
      rw [hleft]
      exact (hboth.cons c).trans (List.perm_append_singleton c _).symm

end TryEvent

namespace Machine

variable {m m' m'' : Machine} {c : Block}

/-- Between two machines the events of whole tries are noted. -/
def CleansUp (m m' : Machine) : Prop := ∃ es, TryEvent.Nested es ∧ m'.tries = es.reverse ++ m.tries

theorem CleansUp.of_tries_eq (h : m'.tries = m.tries) : m.CleansUp m' := ⟨[], .nil, h⟩

theorem CleansUp.trans (h : m.CleansUp m') (h' : m'.CleansUp m'') : m.CleansUp m'' := by
  obtain ⟨es, hes, htries⟩ := h
  obtain ⟨fs, hfs, htries'⟩ := h'
  refine ⟨es ++ fs, hes.append hfs, ?_⟩
  rw [htries', htries, List.reverse_append, List.append_assoc]

/-- A try, by its guarded part and its cleanup. -/
theorem CleansUp.tried (h : (m.noting .entered c).CleansUp m') (h' : (m'.noting .cleaning c).CleansUp m'') :
    m.CleansUp (m''.noting .left c) := by
  obtain ⟨es, hes, htries⟩ := h
  obtain ⟨fs, hfs, htries'⟩ := h'
  refine ⟨_, .tried (c := c) hes hfs, ?_⟩
  show ⟨.left, c⟩ :: m''.tries = _
  rw [htries']
  show _ :: (fs.reverse ++ ⟨.cleaning, c⟩ :: m'.tries) = _
  rw [htries]
  simp

end Machine

namespace Contract

/-- The contract of evaluations that clean up after every try. -/
def tidy : Contract where
  holds _ := True
  step m m' := m.CleansUp m'
  exits _ _ := True
  holds_of_local _ _ := trivial
  holds_newClosure _ _ := trivial
  step_of_follows hf := .of_tries_eq hf.tries
  step_trans hs hs' := hs.trans hs'
  exits_of_step _ _ := trivial
  exits_plain _ := trivial
  holds_noting _ := trivial
  exits_noting _ := trivial
  step_try hs hs' := hs.tried hs'

instance : tidy.Universal := ⟨fun _ => trivial⟩

theorem encloses_tidy {d : Nat} : tidy.Encloses tidy d :=
  ⟨fun _ _ _ => trivial, fun _ _ _ _ => trivial, id, id⟩

theorem byActivity_tidy : ByActivity fun _ => tidy where
  universal _ := inferInstance
  loads _ :=
    { parsed := fun _ => trivial
      reuse := fun _ => ⟨trivial, .of_tries_eq rfl⟩
      enter := fun _ _ _ _ => trivial
      leave := fun _ _ _ hs => ⟨trivial, hs⟩
      exits := id }
  exits := trivial
  checking _ := rfl
  running _ _ := encloses_tidy
  thread _ := encloses_tidy

theorem governs_tidy (n : Nat) : tidy.Governs (.ofLevel n) (.ofLevel n) :=
  (byActivity_tidy.governs_watched (fun _ _ _ => rfl) (Eval.exit .exhausted) n {}).left

end Contract

namespace Session

open Contract Eval

/-- Every part of a program cleans up after its tries. -/
theorem cleansUp_task {t : Task} {n : Nat} (m : Machine) : m.CleansUp ((t.run (.ofLevel n)).after m) := by
  have G := governs_tidy n
  cases t with
  | eval e frame => exact (Keeps.after (G.eval e frame) trivial).2
  | exec ss frame => exact (Keeps.after (G.exec ss frame) trivial).2
  | call f args span => exact (Keeps.after (G.call f args span) trivial).2
  | program p frame => exact (Keeps.after G.runProgram trivial).2
  | load path importer span => exact (Keeps.after (G.loadModule.bind fun _ => keeps_pure) trivial).2

theorem cleansUp_serveAll {s : Settings} {p : Provisions} {m : Machine} (hstart : start s p = .ok m)
    (rs : List Request) : (blank s p.input).CleansUp (serveAll m rs) := by
  have G : tidy.Governs .session .session := governs_tidy _
  have hstarted := (holds_start G trivial hstart).2
  exact hstarted.trans (holds_serveAll G (fun _ => ⟨trivial, .of_tries_eq rfl⟩) trivial rs).2

/-- Every run notes the events of whole tries, of which each is cleaned up exactly once, and so does a session as
a whole. A try with a cleanup runs its guarded part, then the cleanup, and ends like the guarded part unless the
cleanup ends by an exit; in the guarded part the handler is run for throws and errors of the engine only, with
what they deliver in a new frame. -/
theorem cleanups_run_once (n : Nat) :
    (∀ (t : Task) (m : Machine), m.CleansUp ((t.run (.ofLevel n)).after m)) ∧
    (∀ s p m, start s p = .ok m → ∀ rs, TryEvent.Nested (serveAll m rs).tries.reverse) ∧
    (∀ es, TryEvent.Nested es → ∀ stage,
      (TryEvent.cleanupsAt .entered es).Perm (TryEvent.cleanupsAt stage es)) ∧
    (∀ span body name handler c frame (m : Machine), ∃ r m₁ r' m₂,
      (Interp.ofLevel n).Guards body name handler frame (m.noting .entered c) r m₁ ∧
      (m.noting .entered c).CleansUp m₁ ∧
      ((Interp.ofLevel n).block c frame).EndsBy (m₁.noting .cleaning c) r' m₂ ∧
      (m₁.noting .cleaning c).CleansUp m₂ ∧
      ((Interp.ofLevel (n + 1)).eval (.tryCatch span body name handler (some c)) frame).EndsBy m
        (Exit.joined r r') (m₂.noting .left c)) ∧
    ∀ span body name handler frame m, ∃ r m', (Interp.ofLevel n).Guards body name handler frame m r m' ∧
      ((Interp.ofLevel (n + 1)).eval (.tryCatch span body name handler none) frame).EndsBy m r m' := by
  refine ⟨fun t m => cleansUp_task m, fun s p m hstart rs => ?_, fun _ h => h.perm, ?_, ?_⟩
  · obtain ⟨es, hes, htries⟩ := cleansUp_serveAll hstart rs
    have hblank : (blank s p.input).tries = [] := rfl
    rw [htries, hblank, List.append_nil, List.reverse_reverse]
    exact hes
  · intro span body name handler c frame m
    obtain ⟨r, m₁, hends, hguards⟩ :=
      (Interp.ofLevel n).guards body name handler frame (m.noting .entered c)
    obtain ⟨r', m₂, hcleanup⟩ := ((Interp.ofLevel n).block c frame).endsBy_total (m₁.noting .cleaning c)
    refine ⟨r, m₁, r', m₂, hguards, ?_, hcleanup, ?_, Interp.endsBy_cleaned hends hcleanup⟩
    -- both parts are expressions by themselves
    · have htidy := cleansUp_task (t := .eval (.tryCatch span body name handler none) frame) (n := n + 1)
        (m.noting .entered c)
      exact hends.after ▸ htidy
    · have htidy := cleansUp_task (t := .eval (.block c) frame) (n := n + 1) (m₁.noting .cleaning c)
      exact hcleanup.after ▸ htidy
  · intro span body name handler frame m
    obtain ⟨r, m', hends, hguards⟩ := (Interp.ofLevel n).guards body name handler frame m
    exact ⟨r, m', hguards, hends⟩

/-- A loop of two rounds of which each leaves a try by a continue: both tries are cleaned up. -/
theorem cleanups_run_once_continued :
    let source : Text := "let n = 0\nfor x in [1, 2] { try { continue } finally { n += x } }\nn"
    let program := (Program.parse source none).toOption.get!
    let m := blank {} []
    let m' := ((Task.program program mainFrame).run (.ofLevel 9)).after m
    m'.tries.map (·.stage) = [.left, .cleaning, .entered, .left, .cleaning, .entered] ∧ m.CleansUp m' ∧
    (TryEvent.cleanupsAt .entered m'.tries.reverse).Perm (TryEvent.cleanupsAt .cleaning m'.tries.reverse) := by
  intro source program m m'
  obtain ⟨htidy, -, hperm, -, -⟩ := cleanups_run_once 9
  have hm' : m.CleansUp m' := htidy (.program program mainFrame) m
  obtain ⟨es, hes, htries⟩ := hm'
  refine ⟨?_, ⟨es, hes, htries⟩, ?_⟩
  · unfold m' program source
    rw [Text.ofString_ofList]
    decide +kernel
  have hblank : m.tries = [] := rfl
  rw [htries, hblank, List.append_nil, List.reverse_reverse]
  exact hperm es hes .cleaning

end Session

end ScriptEngine

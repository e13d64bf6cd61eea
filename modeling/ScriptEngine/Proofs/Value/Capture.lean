import Mathlib.Data.List.Find
import ScriptEngine.Proofs.Program.FreeNames
import ScriptEngine.Proofs.Value.Visibility

/-!
# The two checks of purity

The names of a pure function are checked twice: those that are free in it when it is defined (`Heap.checkPure`),
and those that it comes to when it is called (`Heap.resolve`). The first check reads the tree and the frame of the
definition, the second one walks from the frame of the name through that of the call.

* `Heap.checkPure_eq`: a definition is refused for a free name that the frame around it captures.
* `Heap.resolveFrom_beyond`: what a name stands for beyond the boundary of a call, by the frame that owns it.
* **The checks agree** (`purity_checks_agree`): what the definition is refused for is out of reach of the calls,
  and the free names of a function that passed are global there, or unknown.
-/

namespace ScriptEngine

namespace FunctionDef

/-- The fault of a pure function with a free name that stands for a variable of a frame around it. -/
def captureFault (f : FunctionDef) (x : Text) (span : Span) : Fault :=
  { kind := .scopeViolation, span := span,
    message := "pure function " ++ f.name.getD "<anonymous>" ++ "() cannot capture '" ++ x ++ "'",
    hints := ["pure functions may only use their parameters and globals"] }

end FunctionDef

namespace Heap

variable {h h' : Heap} {S id : Nat} {f : FunctionDef} {x : Text} {span : Option Span} {crossed : Bool} {fault : Fault}

/-- A name stands for a binding that is not global, boundaries of pure functions aside. -/
def Captures (h : Heap) (S : Nat) (x : Text) : Prop := ∃ o, h.owner? S x = some o ∧ (h.frame o).isGlobal = false

/-- A frame is that of a call of a pure function defined in the frame `S`, or nested in it. No frame up to that of
the call binds the name. -/
inductive InPureCall (h : Heap) (S : Nat) (x : Text) : Nat → Prop
  | call {id : Nat} (hp : (h.frame id).parent = some S) (hlt : S < id) (hpure : (h.frame id).isPure = true)
    (hx : (h.frame id).bindings.contains (some x) = false) : InPureCall h S x id
  | inner {p id : Nat} (hp : (h.frame id).parent = some p) (hlt : p < id)
    (hx : (h.frame id).bindings.contains (some x) = false) (houter : InPureCall h S x p) : InPureCall h S x id

/-- The frames from `S` outwards are the same ones, with the same flags, and bind the same names. -/
structure SameAround (h h' : Heap) (S : Nat) : Prop where
  chain : h'.chain S = h.chain S
  shape : ∀ p ∈ h.chain S, (h.frame p).SameShape (h'.frame p)

/-! ## At the definition -/

theorem captures_iff : h.Captures S x ↔ (h.owner? S x).any (fun o => !(h.frame o).isGlobal) = true := by
  rw [Captures]
  cases h.owner? S x <;> simp

theorem captured?_eq_none_iff : h.captured? S f = none ↔ ∀ x, f.IsFree x → ¬ h.Captures S x := by
  simp only [captured?, List.find?_eq_none, ← captures_iff, FunctionDef.isFree_iff_mem_free, List.mem_map]
  constructor
  · rintro hn x ⟨⟨y, s⟩, hy, rfl⟩
    exact hn (y, s) hy
  · rintro hn ⟨x, s⟩ hx
    exact hn x ⟨(x, s), hx, rfl⟩

theorem of_captured?_eq_some {s : Span} (hc : h.captured? S f = some (x, s)) : f.IsFree x ∧ h.Captures S x :=
  ⟨FunctionDef.isFree_iff_mem_free.2 (List.mem_map_of_mem (List.mem_of_find?_eq_some hc)),
    captures_iff.2 (by simpa using List.find?_some hc)⟩

/-- The definition of a pure function is refused for its first free name that is captured. -/
theorem checkPure_eq (hpure : f.isPure = true) :
    h.checkPure S f = match h.captured? S f with
      | none => .ok ()
      | some (x, s) => .error (f.captureFault x s) := by
  rw [checkPure, if_pos hpure]
  rfl

theorem checkPure_eq_ok_iff (hpure : f.isPure = true) :
    h.checkPure S f = .ok () ↔ ∀ x, f.IsFree x → ¬ h.Captures S x := by
  rw [checkPure_eq hpure, ← captured?_eq_none_iff]
  cases h.captured? S f <;> simp

theorem of_checkPure_eq_error (hpure : f.isPure = true) (he : h.checkPure S f = .error fault) :
    ∃ x s, f.IsFree x ∧ h.Captures S x ∧ fault = f.captureFault x s := by
  rw [checkPure_eq hpure] at he
  cases hc : h.captured? S f with
  | none =>
    rw [hc] at he
    cases he
  | some use =>
    rw [hc] at he
    cases he
    obtain ⟨hfree, hcap⟩ := of_captured?_eq_some hc
    exact ⟨use.1, use.2, hfree, hcap, rfl⟩

/-! ## At the call -/

/-- From a frame nested in a call of a pure function, a name that is not bound up to there is looked for beyond the
boundary, from the frame of the definition. -/
theorem resolveFrom_inPureCall (hc : h.InPureCall S x id) :
    h.resolveFrom x span crossed id = h.resolveFrom x span true S := by
  induction hc generalizing crossed with
  | call hp hlt hpure hx =>
    rw [resolveFrom]
    simp only [hx, Bool.false_eq_true, if_false, hp, hlt, if_true, hpure, Bool.or_true]
  | inner hp hlt hx _ ih =>
    rw [resolveFrom]
    simp only [hx, Bool.false_eq_true, if_false, hp, hlt, if_true, ih]

/-- Beyond the boundary a name stands for the binding of the frame that owns it if that frame is global. If it is
not, the name is out of reach, and without an owner it is unknown. -/
theorem resolveFrom_beyond : h.resolveFrom x span true id = match h.owner? id x with
    | some o => if (h.frame o).isGlobal then .ok o else .error (capturedFault x span)
    | none => .error { kind := .name, message := "'" ++ x ++ "' is not defined", span := span } := by
  induction id using Nat.strongRecOn with
  | ind id ih =>
    by_cases hx : (h.frame id).bindings.contains (some x) = true
    · obtain ⟨rest, hrest⟩ := h.chain_eq_cons id
      have howner : h.owner? id x = some id := by
        rw [owner?, hrest]
        exact List.find?_cons_of_pos hx
      rw [resolveFrom, howner]
      cases hg : (h.frame id).isGlobal <;> simp [hx, hg]
    · rw [resolveFrom, owner?, chain]
      cases hp : (h.frame id).parent with
      | none => simp [hx]
      | some p =>
        by_cases hlt : p < id
        · simpa [hx, hlt, owner?] using ih p hlt
        · simp [hx, hlt]

/-- The frame that owns a name stays the same as long as nothing changes around it, and so do its flags. -/
theorem SameAround.owner? (hs : h.SameAround h' S) : h'.owner? S x = h.owner? S x := by
  have hnames : ∀ p ∈ h.chain S, (h'.frame p).bindings.contains (some x) = (h.frame p).bindings.contains (some x) :=
    fun p hp => ((hs.shape p hp).names (some x)).symm
  rw [Heap.owner?, Heap.owner?, hs.chain]
  exact List.find?_congr hnames

theorem SameAround.captures_iff (hs : h.SameAround h' S) : h'.Captures S x ↔ h.Captures S x := by
  rw [Captures, Captures, hs.owner?]
  refine exists_congr fun o => and_congr_right fun ho => ?_
  rw [(hs.shape o (List.mem_of_find?_eq_some ho)).isGlobal]

/-- A captured name is out of reach in a call. -/
theorem lookup_of_captures (hcap : h.Captures S x) (hc : h.InPureCall S x id) :
    h.lookup id x span = .error (capturedFault x span) := by
  obtain ⟨o, ho, hg⟩ := hcap
  rw [lookup, resolve, resolveFrom_inPureCall hc, resolveFrom_beyond, ho]
  simp [hg]

/-- A name that is not captured is global in a call, or unknown. -/
theorem resolve_of_not_captures (hcap : ¬ h.Captures S x) (hc : h.InPureCall S x id) :
    (∃ o, h.resolve id x span = .ok o ∧ (h.frame o).isGlobal = true) ∨
      ∃ fault, h.resolve id x span = .error fault ∧ fault.kind = .name := by
  rw [resolve, resolveFrom_inPureCall hc, resolveFrom_beyond]
  cases ho : h.owner? S x with
  | none => exact .inr ⟨_, rfl, rfl⟩
  | some o =>
    have hg : (h.frame o).isGlobal = true := by
      by_contra hg
      exact hcap ⟨o, ho, by simpa using hg⟩
    exact .inl ⟨o, if_pos hg, hg⟩

end Heap

/-! ## Both -/

/-- The definition of a pure function in the frame `S` is refused exactly if a free name of it is captured there, and
for such a name. As long as nothing changes around `S`, a captured name is refused in every frame of a call of the
function that does not bind it, and if the definition passed, a free name is global in such a frame, or unknown. -/
theorem purity_checks_agree {h : Heap} {S : Nat} {f : FunctionDef} (hpure : f.isPure = true) :
    ((∃ fault, h.checkPure S f = .error fault) ↔ ∃ x, f.IsFree x ∧ h.Captures S x) ∧
    (∀ fault, h.checkPure S f = .error fault →
      ∃ x s, f.IsFree x ∧ h.Captures S x ∧ fault = f.captureFault x s ∧ fault.kind = .scopeViolation) ∧
    ∀ x, f.IsFree x → ∀ h', h.SameAround h' S → ∀ id, h'.InPureCall S x id → ∀ span,
      (h.Captures S x → h'.lookup id x span = .error (Heap.capturedFault x span)) ∧
      (h.checkPure S f = .ok () →
        (∃ o, h'.resolve id x span = .ok o ∧ (h'.frame o).isGlobal = true) ∨
          ∃ fault, h'.resolve id x span = .error fault ∧ fault.kind = .name) := by
  have hok := Heap.checkPure_eq_ok_iff (h := h) (S := S) hpure
  refine ⟨?_, fun fault he => ?_, fun x hfree h' hs id hc span => ⟨fun hcap => ?_, fun hpass => ?_⟩⟩
  · constructor
    · rintro ⟨fault, he⟩
      obtain ⟨x, _, hfree, hcap, _⟩ := Heap.of_checkPure_eq_error hpure he
      exact ⟨x, hfree, hcap⟩
    · rintro ⟨x, hfree, hcap⟩
      cases he : h.checkPure S f with
      | error fault => exact ⟨fault, rfl⟩
      | ok => exact absurd hcap (hok.1 he x hfree)
  · obtain ⟨x, s, hfree, hcap, rfl⟩ := Heap.of_checkPure_eq_error hpure he
    exact ⟨x, s, hfree, hcap, rfl, rfl⟩
  · exact Heap.lookup_of_captures (hs.captures_iff.2 hcap) hc
  · exact Heap.resolve_of_not_captures (mt hs.captures_iff.1 (hok.1 hpass x hfree)) hc

/-- A pure function that reads the secret. -/
def secretReader : FunctionDef where
  span := .unknown
  name := some "leak"
  parameters := []
  body := ⟨.unknown, [.expression .unknown (.name .unknown "secret")]⟩
  whereClauses := []
  isPure := true

/-- It cannot be defined next to the secret, and a call there that got hold of the name would be refused it. -/
theorem purity_checks_agree_secret :
    (∃ fault, (hidingHeap .null).checkPure 1 secretReader = .error fault) ∧
    (hidingHeap .null).lookup 3 "secret" none = .error (Heap.capturedFault "secret" none) := by
  have hpure : secretReader.isPure = true := rfl
  have h1 : (hidingHeap .null).chain 1 = 1 :: (hidingHeap .null).chain 0 := Heap.chain_of_parent rfl (by decide)
  have hcap : (hidingHeap .null).Captures 1 "secret" := by
    refine ⟨1, ?_, rfl⟩
    rw [Heap.owner?, h1]
    rfl
  have hfree : secretReader.IsFree "secret" := by
    rw [FunctionDef.isFree_iff_mem_free]
    decide +kernel
  have hcall : (hidingHeap .null).InPureCall 1 "secret" 3 :=
    .inner (p := 2) rfl (by decide) rfl (.call rfl (by decide) rfl rfl)
  have hsame : (hidingHeap .null).SameAround (hidingHeap .null) 1 := ⟨rfl, fun _ _ => ⟨rfl, rfl, fun _ => rfl⟩⟩
  obtain ⟨hrefused, -, hcalls⟩ := purity_checks_agree (h := hidingHeap .null) (S := 1) hpure
  exact ⟨hrefused.2 ⟨_, hfree, hcap⟩, (hcalls _ hfree _ hsame _ hcall _).1 hcap⟩

end ScriptEngine

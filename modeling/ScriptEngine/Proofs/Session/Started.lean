import ScriptEngine.Proofs.Eval.CallDepth
import ScriptEngine.Proofs.Program.Alike
import ScriptEngine.Proofs.Program.Suffix
import ScriptEngine.Proofs.Results.Library
import ScriptEngine.Proofs.Session.Contract
import ScriptEngine.Proofs.Strings.Library
import ScriptEngine.Proofs.Token.Dispatch
import ScriptEngine.Proofs.Value.Visibility
import ScriptEngine.Session

/-!
# The prelude in a session

A session starts by evaluating the libraries of the prelude. Here the texts of the libraries are evaluated, for all
settings and inputs at once (`Session.checks_prelude`), and what this leaves in the heap is compared with the trees of
the functions.

* **Machines with the prelude** (`Machine.HasPrelude`): a machine in which everything that the start of a session has
  made is as it was, but for the variables of the main frame.
* `HasPrelude.arrayLibrary`, `HasPrelude.stringLibrary`, `HasPrelude.resultLibrary`: where the libraries are in such a
  machine, and under which names scripts find their functions.
* **Sessions that have just started** (`Machine.Ready`): there are such machines (`Session.exists_ready`), and arrays
  and functions may be made in them.
-/

namespace ScriptEngine

/-! ## Machines with the prelude -/

namespace Heap

/-- What scripts find under a name that they do not define themselves. -/
def global (h : Heap) (name : Text) : Except Fault Value := h.lookup Session.globalFrame name none

/-- A member of what scripts find under a name. -/
def globalMember (h : Heap) (holder name : Text) : Except Fault Value := do
  let v ← h.global holder
  h.member v name .unknown

/-- The objects and functions of a heap are as they were, and names stand for what they stood for in all frames but the
main one. -/
structure Retains (h h' : Heap) : Prop where
  objects_le : h.objects.size ≤ h'.objects.size
  object : ∀ {i}, i < h.objects.size → h'.object i = h.object i
  closure : ∀ {i : Nat} {c}, h.closures[i]? = some c → h'.closures[i]? = some c
  frames_le : h.frames.size ≤ h'.frames.size
  lookup : ∀ {F name v span}, F < h.frames.size → F ≠ Session.mainFrame → h.lookup F name span = .ok v →
    h'.lookup F name span = .ok v

variable {h h' h'' : Heap}

theorem Retains.refl (h : Heap) : h.Retains h :=
  ⟨Nat.le_refl _, fun _ => rfl, id, Nat.le_refl _, fun _ _ => id⟩

theorem Retains.adds (hh : h.Retains h') (ha : h'.Adds h'') : h.Retains h'' where
  objects_le := Nat.le_trans hh.objects_le ha.objects_le
  object hi := (ha.object (Nat.lt_of_lt_of_le hi hh.objects_le)).trans (hh.object hi)
  closure hc := ha.closure (hh.closure hc)
  frames_le := Nat.le_trans hh.frames_le ha.frames_le
  lookup {F name v span} hF hmain hv := by
    rw [lookup_congr fun j hj => ?_]
    · exact hh.lookup hF hmain hv
    · rw [ha.frame (Nat.lt_of_le_of_lt hj (Nat.lt_of_lt_of_le hF hh.frames_le))]
      exact .refl _ _

end Heap

/-- The prelude is in a machine as the start of a session leaves it. -/
def Machine.HasPrelude (m : Machine) : Prop :=
  ∃ s input m₀, Session.start s { input := input } = .ok m₀ ∧ m₀.heap.Retains m.heap

theorem Machine.HasPrelude.adds {m m' : Machine} (hm : m.HasPrelude) (ha : m.heap.Adds m'.heap) : m'.HasPrelude := by
  obtain ⟨s, input, m₀, hstart, hh⟩ := hm
  exact ⟨s, input, m₀, hstart, hh.adds ha⟩

/-! ## What is found in a heap -/

theorem Value.eq_plain {v : Value} {p : Payload} (hp : v.payload = p) (ht : v.tags.isEmpty = true) : v = .plain p := by
  obtain ⟨q, tags⟩ := v
  obtain rfl := hp
  obtain rfl := List.isEmpty_iff.1 ht
  rfl

namespace Heap

variable {h h' : Heap} {F c : Nat} {name holder : Text} {v : Value} {p : Payload}

/-- The frame of a library of the prelude. -/
def libraryFrame (h : Heap) (file : Text) : Nat := h.frames.toList.findIdx fun f => f.name = "prelude:" ++ file

/-- The value that a name stands for. -/
def named (h : Heap) (F : Nat) (name : Text) : Value := (h.lookup F name none).toOption.getD .null

/-- The cell of the object or of the function that a name stands for. -/
def namedCell (h : Heap) (F : Nat) (name : Text) : Nat :=
  match (h.named F name).payload with
  | .object c | .function c => c
  | _ => 0

/-- A value without tags is found. -/
def IsPlainOf (v : Option Value) (p : Payload) : Prop := v.map (fun v => (v.payload, v.tags.isEmpty)) = some (p, true)

instance (v : Option Value) (p : Payload) : Decidable (IsPlainOf v p) := inferInstanceAs (Decidable (_ = _))

theorem IsPlainOf.eq {v : Option Value} (h : IsPlainOf v p) : v = some (.plain p) := by
  obtain ⟨w, rfl, hp⟩ := Option.map_eq_some_iff.1 h
  obtain ⟨hp, ht⟩ := Prod.mk.inj hp
  rw [Value.eq_plain hp ht]

/-- That a name is found does not depend on the place where it is used. -/
theorem lookup_of_toOption (hv : (h.lookup F name none).toOption = some v) (span : Option Span) :
    h.lookup F name span = .ok v := by
  rw [lookup_eq_seenValue] at hv ⊢
  generalize h.scope F = fs, false = crossed at hv ⊢
  induction fs generalizing crossed with
  | nil => cases hv
  | cons f fs ih =>
    cases hf : f.bindings.get? (some name) with
    | some w =>
      rw [Frame.seenValue_bound hf] at hv ⊢
      split at hv
      · cases hv
      · next hseen =>
        rw [if_neg hseen]
        cases hv
        rfl
    | none =>
      rw [Frame.seenValue_unbound hf] at hv ⊢
      exact ih _ hv

/-- A frame that is kept. -/
def IsLibraryFrame (h : Heap) (F : Nat) : Prop := F < h.frames.size ∧ F ≠ Session.mainFrame

instance (F : Nat) : Decidable (h.IsLibraryFrame F) := inferInstanceAs (Decidable (_ ∧ _))

/-- A name stands for a value without tags. -/
def Gives (h : Heap) (F : Nat) (name : Text) (p : Payload) : Prop := IsPlainOf (h.lookup F name none).toOption p

instance (F : Nat) (name : Text) (p : Payload) : Decidable (h.Gives F name p) :=
  inferInstanceAs (Decidable (IsPlainOf _ _))

theorem Gives.lookup (hg : h.Gives F name p) (hF : h.IsLibraryFrame F) (hh : h.Retains h') (span : Option Span) :
    h'.lookup F name span = .ok (.plain p) :=
  hh.lookup hF.1 hF.2 (lookup_of_toOption hg.eq span)

/-- An object that a name stands for has a member. -/
def memberOf? (h : Heap) (holder name : Text) : Option Value :=
  match (h.named Session.globalFrame holder).payload with
  | .object c => if c < h.objects.size then (h.object c).get? name else none
  | _ => none

theorem globalMember_of_memberOf? (hg : h.IsLibraryFrame Session.globalFrame) (hh : h.Retains h')
    (hv : h.memberOf? holder name = some v) : h'.globalMember holder name = .ok v := by
  unfold memberOf? at hv
  split at hv
  · next c hc =>
    split at hv
    · next hlt =>
      unfold named at hc
      cases hw : (h.lookup Session.globalFrame holder none).toOption with
      | none =>
        rw [hw] at hc
        cases hc
      | some w =>
        rw [hw] at hc
        have hlookup : h'.global holder = .ok w := hh.lookup hg.1 hg.2 (lookup_of_toOption hw none)
        have hobject : h'.ownMember? w name = some v := by
          rw [ownMember?, show w.payload = .object c from hc]
          exact (congrArg (·.get? name) (hh.object hlt)).trans hv
        rw [globalMember, hlookup]
        show h'.member w name .unknown = _
        rw [member, hobject]
    · cases hv
  · cases hv

/-- The native functions are the first entries of an object. -/
def ListsNatives (h : Heap) (c : Nat) : Prop :=
  c < h.objects.size ∧ ((h.object c).entries.take Native.standard.length).map
    (fun e => (e.1, e.2.payload, e.2.tags.isEmpty)) = Native.standard.map fun f => (f.name, .native f, true)

instance : Decidable (h.ListsNatives c) := inferInstanceAs (Decidable (_ ∧ _))

theorem ListsNatives.get? (hn : h.ListsNatives c) {f : Native} (hf : f ∈ Native.standard) :
    (h.object c).get? f.name = some (.plain (.native f)) := by
  have hmem := List.mem_map_of_mem (f := fun f : Native => (f.name, Payload.native f, true)) hf
  rw [← hn.2] at hmem
  obtain ⟨⟨n, v⟩, he, heq⟩ := List.mem_map.1 hmem
  obtain ⟨rfl, hrest⟩ := Prod.mk.inj heq
  obtain ⟨hp, ht⟩ := Prod.mk.inj hrest
  rw [OrderedMap.get?_eq_some_iff, ← Value.eq_plain hp ht]
  exact List.mem_of_mem_take he

/-- A function with a numbered tree is in a cell. -/
def Defines (h : Heap) (c F : Nat) (t : (Nat → Span) → FunctionDef) : Prop :=
  ∃ f ∈ h.closures[c]?, f.frame = F ∧ f.definition.IsNumbered t

instance (F : Nat) (t : (Nat → Span) → FunctionDef) : Decidable (h.Defines c F t) :=
  inferInstanceAs (Decidable (∃ f ∈ h.closures[c]?, _))

theorem Defines.closure {t : (Nat → Span) → FunctionDef} (hd : h.Defines c F t) (hh : h.Retains h') :
    ∃ p, h'.closures[c]? = some ⟨t p, F⟩ := by
  obtain ⟨⟨f, F'⟩, hf, rfl, hn⟩ := hd
  obtain ⟨p, rfl⟩ := FunctionDef.exists_of_isNumbered hn
  exact ⟨p, hh.closure hf⟩

end Heap

/-! ## The libraries in a heap -/

namespace ArrayLibrary

/-- Where the library is in a heap by the names of its frames and of its functions. -/
def Layout.found (h : Heap) : Layout where
  frame := h.libraryFrame "array.zr"
  predicateFrame := h.libraryFrame "predicates.zr"
  natives := h.namedCell Session.globalFrame nativesName
  function f := h.namedCell (h.libraryFrame "array.zr") f.name
  predicate q := h.namedCell (h.libraryFrame "predicates.zr") q.name
  search f := h.namedCell (h.libraryFrame "array.zr") f.name

variable {L : Layout} {h h' : Heap}

/-- What can be checked of a library in a heap. -/
def Layout.Checks (L : Layout) (h : Heap) : Prop :=
  (h.IsLibraryFrame Session.globalFrame ∧ h.IsLibraryFrame L.frame ∧ h.IsLibraryFrame L.predicateFrame) ∧
  h.ListsNatives L.natives ∧
  (h.Gives L.frame "native" (.object L.natives) ∧ h.Gives L.predicateFrame nativesName (.object L.natives) ∧
    h.Gives L.predicateFrame Predicate.isNumber.name (.function (L.predicate .isNumber))) ∧
  (∀ f ∈ Function.all, h.Defines (L.function f) L.frame (f.definition ·) ∧
    h.Gives L.frame f.name (.function (L.function f)) ∧
    Heap.IsPlainOf (h.memberOf? "Array" f.name) (.function (L.function f))) ∧
  (∀ q ∈ Predicate.all, h.Defines (L.predicate q) L.predicateFrame (q.definition ·) ∧
    h.Gives L.frame q.name (.function (L.predicate q))) ∧
  ∀ f ∈ Search.all, h.Defines (L.search f) L.frame (f.definition ·) ∧
    Heap.IsPlainOf (h.memberOf? "Array" f.name) (.function (L.search f))

instance : Decidable (L.Checks h) := inferInstanceAs (Decidable (_ ∧ _))

theorem Layout.Checks.loadedIn (hc : L.Checks h) (hh : h.Retains h') : L.LoadedIn h' := by
  obtain ⟨⟨-, hF, hP⟩, hnatives, ⟨hnative, hnativesName, hisNumber⟩, hfunctions, hpredicates, hsearches⟩ := hc
  refine { frame_lt := Nat.lt_of_lt_of_le hF.1 hh.frames_le
           predicateFrame_lt := Nat.lt_of_lt_of_le hP.1 hh.frames_le
           natives_lt := Nat.lt_of_lt_of_le hnatives.1 hh.objects_le
           natives := fun f hf => by rw [hh.object hnatives.1, hnatives.get? hf]
           definition := fun f => (hfunctions f f.mem_all).1.closure hh
           predicateDefinition := fun q => (hpredicates q q.mem_all).1.closure hh
           searchDefinition := fun f => (hsearches f f.mem_all).1.closure hh
           knows := ?_, predicateKnows := ?_ }
  · rintro _ _ (_ | f | q) span
    · exact hnative.lookup hF hh span
    · exact (hfunctions f f.mem_all).2.1.lookup hF hh span
    · exact (hpredicates q q.mem_all).2.lookup hF hh span
  · rintro _ _ (_ | _) span
    · exact hnativesName.lookup hP hh span
    · exact hisNumber.lookup hP hh span

end ArrayLibrary

namespace StringLibrary

open ArrayLibrary (nativesName)

/-- The name under which scripts find the library of a kind. -/
def libraryName : Kind → Text
  | .array => "Array"
  | _ => "String"

/-- Where the library is in a heap by the names of its frames and of its functions. -/
def Layout.found (h : Heap) : Layout where
  frame k := h.libraryFrame (k.name ++ ".zr")
  predicateFrame := h.libraryFrame "predicates.zr"
  natives := h.namedCell Session.globalFrame nativesName
  function f := h.namedCell (h.libraryFrame (f.receiver.name ++ ".zr")) f.name
  test k := h.namedCell (h.libraryFrame "predicates.zr") (testName k)

variable {L : Layout} {h h' : Heap}

/-- What can be checked of a library in a heap. -/
def Layout.Checks (L : Layout) (h : Heap) : Prop :=
  (h.IsLibraryFrame Session.globalFrame ∧ h.IsLibraryFrame L.predicateFrame) ∧
  (h.ListsNatives L.natives ∧ h.Gives L.predicateFrame nativesName (.object L.natives)) ∧
  (∀ f ∈ Function.all, h.Defines (L.function f) (L.frame f.receiver) (f.definition ·) ∧
    Heap.IsPlainOf (h.memberOf? (libraryName f.receiver) f.name) (.function (L.function f))) ∧
  ∀ k ∈ kinds, h.IsLibraryFrame (L.frame k) ∧ h.Defines (L.test k) L.predicateFrame (kindTest · k) ∧
    h.Gives (L.frame k) "native" (.object L.natives) ∧ h.Gives (L.frame k) (testName k) (.function (L.test k))

instance : Decidable (L.Checks h) := inferInstanceAs (Decidable (_ ∧ _))

theorem Layout.Checks.loadedIn (hc : L.Checks h) (hh : h.Retains h') : L.LoadedIn h' := by
  obtain ⟨⟨-, hP⟩, ⟨hnatives, hnativesName⟩, hfunctions, hkinds⟩ := hc
  refine { frame_lt := fun k hk => Nat.lt_of_lt_of_le (hkinds k hk).1.1 hh.frames_le
           predicateFrame_lt := Nat.lt_of_lt_of_le hP.1 hh.frames_le
           natives_lt := Nat.lt_of_lt_of_le hnatives.1 hh.objects_le
           natives := fun f hf => by rw [hh.object hnatives.1, hnatives.get? hf]
           definition := fun f => (hfunctions f f.mem_all).1.closure hh
           testDefinition := fun k hk => (hkinds k hk).2.1.closure hh
           knows := ?_, testKnows := ?_ }
  · rintro k hk _ _ (_ | _) span
    · exact (hkinds k hk).2.2.1.lookup (hkinds k hk).1 hh span
    · exact (hkinds k hk).2.2.2.lookup (hkinds k hk).1 hh span
  · rintro _ _ ⟨⟩ span
    exact hnativesName.lookup hP hh span

end StringLibrary

namespace ResultLibrary

/-- The bare value of a variant is found. -/
def IsBareOf (v : Option Value) (t : VariantTag) : Prop :=
  v.map (fun v => (v.payload, v.tags.length, v.variant?)) = some (.null, 1, some t)

instance (v : Option Value) (t : VariantTag) : Decidable (IsBareOf v t) := inferInstanceAs (Decidable (_ = _))

theorem IsBareOf.eq {v : Option Value} {t : VariantTag} (h : IsBareOf v t) : v = some (.ofVariant t) := by
  obtain ⟨⟨p, tags⟩, rfl, hv⟩ := Option.map_eq_some_iff.1 h
  obtain ⟨rfl, hv⟩ := Prod.mk.inj hv
  obtain ⟨hlength, hvariant⟩ := Prod.mk.inj hv
  obtain ⟨⟨name, tag⟩, rfl⟩ := List.length_eq_one_iff.1 hlength
  by_cases hname : name = TagName.variant
  · subst hname
    cases tag <;> cases hvariant
    rfl
  · have hnone : Value.variant? ⟨.null, [(name, tag)]⟩ = none := by
      simp [Value.variant?, Value.tag?, hname]
    cases hnone.symm.trans hvariant

/-- The variant of a member of what a name stands for. -/
def foundVariant (h : Heap) (name : Text) : VariantTag :=
  ((h.memberOf? "Result" name).bind Value.variant?).getD default

/-- Where the library is in a heap by the names of its frame, of its enum and of its functions. -/
def Layout.found (h : Heap) : Layout where
  frame := h.libraryFrame "result.zr"
  result := h.named (h.libraryFrame "result.zr") "Result"
  cell := h.namedCell (h.libraryFrame "result.zr") "Result"
  ok := foundVariant h "Ok"
  err := foundVariant h "Err"
  unwrap := h.namedCell (h.libraryFrame "result.zr") "unwrap"
  unwrapOr := h.namedCell (h.libraryFrame "result.zr") "unwrap_or"

variable {L : Layout} {h h' : Heap}

/-- What can be checked of a library in a heap. -/
def Layout.Checks (L : Layout) (h : Heap) : Prop :=
  (h.IsLibraryFrame Session.globalFrame ∧ h.IsLibraryFrame L.frame) ∧
  (L.ok ≠ L.err ∧ L.cell < h.objects.size ∧ L.result.payload = .object L.cell ∧
    (h.lookup L.frame "Result" none).toOption.isSome) ∧
  (IsBareOf ((h.object L.cell).get? "Ok") L.ok ∧ IsBareOf ((h.object L.cell).get? "Err") L.err) ∧
  (IsBareOf (h.memberOf? "Result" "Ok") L.ok ∧ IsBareOf (h.memberOf? "Result" "Err") L.err) ∧
  (h.Defines L.unwrap L.frame ResultLibrary.unwrap ∧ h.Defines L.unwrapOr L.frame ResultLibrary.unwrapOr) ∧
  h.Gives Session.globalFrame "unwrap" (.function L.unwrap) ∧
  h.Gives Session.globalFrame "unwrap_or" (.function L.unwrapOr)

instance : Decidable (L.Checks h) := inferInstanceAs (Decidable (_ ∧ _))

theorem Layout.Checks.loadedIn (hc : (Layout.found h).Checks h) (hh : h.Retains h') : (Layout.found h).LoadedIn h' := by
  obtain ⟨⟨-, hF⟩, ⟨hdistinct, hcell, hpayload, hresult⟩, ⟨hok, herr⟩, -, ⟨hunwrap, hunwrapOr⟩, -⟩ := hc
  obtain ⟨v, hv⟩ := Option.isSome_iff_exists.1 hresult
  refine { frame_lt := Nat.lt_of_lt_of_le hF.1 hh.frames_le
           distinct := hdistinct
           payload := hpayload
           ok := by rw [hh.object hcell, hok.eq]; rfl
           err := by rw [hh.object hcell, herr.eq]; rfl
           unwrap := hunwrap.closure hh
           unwrapOr := hunwrapOr.closure hh
           knows := ?_ }
  rintro _ _ ⟨⟩ span
  have hnamed : (Layout.found h).result = v := by
    show (h.lookup _ _ _).toOption.getD .null = v
    rw [show (h.lookup (h.libraryFrame "result.zr") "Result" none).toOption = some v from hv]
    rfl
  rw [hnamed]
  exact hh.lookup hF.1 hF.2 (Heap.lookup_of_toOption hv span)

end ResultLibrary

/-! ## Reading the libraries -/

namespace Prelude.Library

theorem source_nil {file : Text} : source ⟨file, []⟩ = [] := rfl

/-- The text of a library is read off the characters of its lines. -/
theorem source_cons {file t : Text} {l : List Char} {ls : List String} (h : source ⟨file, ls⟩ = t) :
    source ⟨file, String.ofList l :: ls⟩ = l.map .scalar ++ .scalar '\n' :: t := by
  show (Text.ofString (String.ofList l) ++ Text.ofString "\n") ++ source ⟨file, ls⟩ = _
  rw [h, Text.ofString_ofList, List.append_assoc]
  rfl

end Prelude.Library

namespace Program

/-- The program of a text with fewer tokens than a bound, of which the statements are read one by one. -/
def stepwise? (bound : Nat) (t : Text) (file : Option Text) : Option Program :=
  (tokensBelow bound (.origin file) t).bind fun ts =>
    (statementsFrom ts).toOption.map fun ss => ⟨.unknown, ss, file⟩

theorem parse_of_stepwise? {bound : Nat} {t : Text} {file : Option Text} {p : Program}
    (h : stepwise? bound t file = some p) : ∃ span, parse t file = .ok { p with span := span } := by
  obtain ⟨ts, hts, h⟩ := Option.bind_eq_some_iff.1 h
  obtain ⟨ss, hss, rfl⟩ := Option.map_eq_some_iff.1 h
  refine parse_of_statementsFrom (tokenize_of_tokensBelow hts) ?_
  cases hs : statementsFrom ts with
  | error stop =>
    rw [hs] at hss
    cases hss
  | ok ss' =>
    rw [hs] at hss
    cases hss
    rfl

end Program

namespace Session

/-- The programs of libraries of which the files and the texts are given. -/
def programsOf : List (Text × Text) → Option (List (Text × Program))
  | [] => some []
  | (file, t) :: rest =>
    (Program.stepwise? 10000 t (some ("<prelude:" ++ file ++ ">"))).bind fun p =>
      (programsOf rest).map ((file, p) :: ·)

/-- Evaluates libraries. -/
def loadAll (ps : List (Text × Program)) : Eval Unit := ps.forM fun (file, p) => loadLibrary file p

/-- The programs of libraries are evaluated as those of which the statements are read one by one. -/
theorem loadAll_programs {ls : List Prelude.Library} {ps : List (Text × Program)}
    (h : programsOf (ls.map fun l => (l.file, l.source)) = some ps) :
    loadAll (ls.filterMap fun l => l.program?.map (l.file, ·)) = loadAll ps := by
  induction ls generalizing ps with
  | nil =>
    cases h
    rfl
  | cons l ls ih =>
    obtain ⟨p, hp, h⟩ := Option.bind_eq_some_iff.1 h
    obtain ⟨ps, hps, rfl⟩ := Option.map_eq_some_iff.1 h
    obtain ⟨span, hparse⟩ := Program.parse_of_stepwise? hp
    have hprogram : l.program? = some { p with span := span } := by
      rw [Prelude.Library.program?, hparse]
      rfl
    rw [List.filterMap_cons_some (by rw [hprogram]; rfl)]
    exact congrArg (fun x => loadLibrary l.file p >>= fun _ => x) (ih hps)

/-! ## The start of a session -/

/-- The entries of native functions. -/
def entriesOf (ns : List Native) : List (Text × Value) := ns.map fun f => (f.name, .plain (.native f))

theorem entriesOf_append {ns ns' : List Native} : entriesOf (ns ++ ns') = entriesOf ns ++ entriesOf ns' :=
  List.map_append

theorem nodup_names : ((Native.standard ++ Native.probes).map Native.name).Nodup := by decide +kernel

theorem nodup_entriesOf {ns : List Native} (hns : ns.Sublist Native.probes) :
    ((entriesOf Native.standard ++ entriesOf ns).map Prod.fst).Nodup := by
  have hkeys : (entriesOf Native.standard ++ entriesOf ns).map Prod.fst = (Native.standard ++ ns).map Native.name := by
    simp [entriesOf, Function.comp_def]
  rw [hkeys]
  exact nodup_names.sublist ((hns.append_left _).map _)

/-- What the machine in which the libraries are evaluated depends on: the settings, the input, and the entries of
further native functions. -/
structure Origin where
  settings : Settings
  input : Text
  further : List (Text × Value)
  nodup : ((entriesOf Native.standard ++ further).map Prod.fst).Nodup

instance : Nonempty Origin := ⟨⟨{}, [], entriesOf [], nodup_entriesOf (List.nil_sublist _)⟩⟩

/-- The machine in which the libraries are evaluated. -/
def Origin.machine (o : Origin) : Machine :=
  let m := blank o.settings o.input
  let (v, h) := m.heap.newObject ⟨entriesOf Native.standard ++ o.further, o.nodup⟩
  { m with heap := h.bind globalFrame (some nativeNamespace) v true }

/-- The machine after libraries have been evaluated. -/
def Origin.loaded? (o : Origin) (ls : List (Text × Text)) : Option Machine :=
  (programsOf ls).bind fun ps =>
    match loadAll ps o.machine with
    | .ok _ m => some m
    | .error _ _ => none

theorem defineNatives_run (s : Settings) (input : Text) :
    ∃ o : Origin, defineNatives (blank s input) = .ok () o.machine := by
  have hfurther : (if s.probes then Native.probes else []).Sublist Native.probes := by
    split
    · exact .refl _
    · exact List.nil_sublist _
  refine ⟨⟨s, input, _, nodup_entriesOf hfurther⟩, ?_⟩
  rw [Origin.machine, ← OrderedMap.ofList_eq (nodup_entriesOf hfurther), ← entriesOf_append]
  rfl

/-- What holds of the element that is least likely to have a property holds of all. -/
theorem forall_of_epsilon {α : Type} [Nonempty α] {p : α → Prop} (h : p (Classical.epsilon fun a => ¬ p a)) (a : α) :
    p a := by
  by_contra ha
  exact Classical.epsilon_spec (p := fun a => ¬ p a) ⟨a, ha⟩ h

/-- What is checked of a machine in which the libraries have been evaluated. -/
def Checked (m : Machine) : Prop :=
  m.Closed ∧ (ArrayLibrary.Layout.found m.heap).Checks m.heap ∧
    (StringLibrary.Layout.found m.heap).Checks m.heap ∧ (ResultLibrary.Layout.found m.heap).Checks m.heap

instance (m : Machine) : Decidable (Checked m) := inferInstanceAs (Decidable (_ ∧ _))

theorem of_sources {P : List (Text × Text) → Prop} {ls : List Prelude.Library} {ts : List Text}
    (h : List.Forall₂ (fun l t => l.source = t) ls ts) (hP : P (List.zip (ls.map (·.file)) ts)) :
    P (ls.map fun l => (l.file, l.source)) := by
  have hzip : List.zip (ls.map (·.file)) ts = ls.map fun l => (l.file, l.source) := by
    clear hP
    induction h with
    | nil => rfl
    | cons hl _ ih => rw [List.map_cons, List.zip_cons_cons, ih, List.map_cons, hl]
  rwa [← hzip]

theorem checked_loaded (o : Origin) :
    (o.loaded? (Prelude.libraries.map fun l => (l.file, l.source))).any (fun m => Checked m) = true := by
  revert o
  apply of_sources (P := fun ls => ∀ o : Origin, (o.loaded? ls).any (fun m => Checked m) = true)
  · unfold Prelude.libraries
    repeat' apply List.Forall₂.cons
    on_goal 8 => exact .nil
    all_goals
      repeat apply Prelude.Library.source_cons
      exact Prelude.Library.source_nil
  · apply forall_of_epsilon
    decide +kernel

/-- Without emitters and a stream there is nothing to prepare but the natives and the prelude. -/
theorem prepare_eq (input : Text) :
    prepare { input := input } = defineNatives >>= fun _ => loadAll Prelude.programs := by
  unfold prepare loadAll
  -- what the programs are does not matter here
  generalize Prelude.programs = ps
  simp

/-- A session starts, whatever its settings and its input are, and the libraries are in it. -/
theorem start_checked (s : Settings) (input : Text) :
    ∃ m₀, start s { input := input } = .ok m₀ ∧ Checked m₀ := by
  obtain ⟨o, ho⟩ := defineNatives_run s input
  obtain ⟨m₀, hloaded, hchecked⟩ := (Option.any_eq_true _ _).1 (checked_loaded o)
  obtain ⟨ps, hps, hload⟩ := Option.bind_eq_some_iff.1 hloaded
  have hprograms : loadAll Prelude.programs = loadAll ps := loadAll_programs hps
  cases hrun : loadAll ps o.machine with
  | error e m =>
    rw [hrun] at hload
    cases hload
  | ok u m =>
    rw [hrun] at hload
    cases hload
    refine ⟨m₀, ?_, of_decide_eq_true hchecked⟩
    rw [start, prepare_eq, hprograms, EStateM.run, Eval.bind_ok ho, hrun]

end Session

/-! ## The libraries of a session -/

namespace Machine.HasPrelude

variable {m : Machine}

theorem of_start {s : Settings} {input : Text} (h : Session.start s { input := input } = .ok m) : m.HasPrelude :=
  ⟨s, input, m, h, .refl _⟩

/-- What a machine with the prelude has kept. -/
theorem exists_checked (hm : m.HasPrelude) : ∃ m₀, Session.Checked m₀ ∧ m₀.heap.Retains m.heap := by
  obtain ⟨s, input, m₀, hstart, hh⟩ := hm
  obtain ⟨m₁, hstart₁, hchecked⟩ := Session.start_checked s input
  cases hstart.symm.trans hstart₁
  exact ⟨_, hchecked, hh⟩

/-- Scripts find the functions of the array library as members of `Array`. -/
theorem arrayLibrary (hm : m.HasPrelude) : ∃ L : ArrayLibrary.Layout, L.LoadedIn m.heap ∧
    (∀ f : ArrayLibrary.Function, m.heap.globalMember "Array" f.name = .ok (L.value f)) ∧
    ∀ f : ArrayLibrary.Search, m.heap.globalMember "Array" f.name = .ok (L.searchValue f) := by
  obtain ⟨m₀, ⟨-, hc, -, -⟩, hh⟩ := hm.exists_checked
  obtain ⟨⟨hglobal, -, -⟩, -, -, hfunctions, -, hsearches⟩ := id hc
  exact ⟨_, hc.loadedIn hh,
    fun f => Heap.globalMember_of_memberOf? hglobal hh (hfunctions f f.mem_all).2.2.eq,
    fun f => Heap.globalMember_of_memberOf? hglobal hh (hsearches f f.mem_all).2.eq⟩

/-- Scripts find the functions that look for texts, cut them and join them as members of `String` and of `Array`. -/
theorem stringLibrary (hm : m.HasPrelude) : ∃ L : StringLibrary.Layout, L.LoadedIn m.heap ∧
    ∀ f, m.heap.globalMember (StringLibrary.libraryName f.receiver) f.name = .ok (L.value f) := by
  obtain ⟨m₀, ⟨-, -, hc, -⟩, hh⟩ := hm.exists_checked
  obtain ⟨⟨hglobal, -⟩, -, hfunctions, -⟩ := id hc
  exact ⟨_, hc.loadedIn hh, fun f => Heap.globalMember_of_memberOf? hglobal hh (hfunctions f f.mem_all).2.eq⟩

/-- Scripts find the functions that unwrap results by their names, and the variants as members of `Result`. -/
theorem resultLibrary (hm : m.HasPrelude) : ∃ L : ResultLibrary.Layout, L.LoadedIn m.heap ∧
    m.heap.global "unwrap" = .ok L.unwrapValue ∧ m.heap.global "unwrap_or" = .ok L.unwrapOrValue ∧
    m.heap.globalMember "Result" "Ok" = .ok L.okValue ∧ m.heap.globalMember "Result" "Err" = .ok L.errValue := by
  obtain ⟨m₀, ⟨-, -, -, hc⟩, hh⟩ := hm.exists_checked
  obtain ⟨⟨hglobal, -⟩, -, -, ⟨hok, herr⟩, -, hunwrap, hunwrapOr⟩ := id hc
  exact ⟨_, hc.loadedIn hh, hunwrap.lookup hglobal hh none, hunwrapOr.lookup hglobal hh none,
    Heap.globalMember_of_memberOf? hglobal hh hok.eq, Heap.globalMember_of_memberOf? hglobal hh herr.eq⟩

end Machine.HasPrelude

/-! ## Sessions that have just started -/

/-- A machine as the start of a session leaves it, but for arrays and functions that have been made since. The usual
number of calls may nest in it. -/
structure Machine.Ready (m : Machine) : Prop where
  prelude : m.HasPrelude
  closed : m.Closed
  depth : m.depth = 0
  limit : m.settings.callLimit.count = 400

/-- The start of a session makes it ready. -/
theorem Session.exists_ready : ∃ m : Machine, m.Ready := by
  obtain ⟨m, hstart, hclosed, -⟩ := start_checked {} []
  have G : (Contract.counting 400 {}).Governs .session .session :=
    ((Contract.byActivity_counting 400).governs_watched (fun _ _ _ => rfl) (Eval.exit .exhausted) _ {}).left
  obtain ⟨⟨hdepth, hlimit, -⟩, -⟩ := holds_start G ⟨rfl, rfl, Nat.zero_le _⟩ hstart
  exact ⟨m, .of_start hstart, hclosed, hdepth, hlimit⟩

namespace Machine.Ready

variable {m : Machine} {c : Closure} {d : Nat}

theorem newArray (hm : m.Ready) (items : Array Value) : (m.withHeap (m.heap.newArray items).2).Ready where
  prelude := hm.prelude.adds (m.heap.extends_newArray items).toAdds
  closed := ⟨hm.closed.closure, hm.closed.parent, hm.closed.loaded, hm.closed.journal, hm.closed.main, hm.closed.global⟩
  depth := hm.depth
  limit := hm.limit

theorem newClosure (hm : m.Ready) (hc : c.frame < m.heap.frames.size) :
    (m.withHeap (m.heap.newClosure c).2).Ready where
  prelude := hm.prelude.adds (m.heap.extends_newClosure c).toAdds
  closed :=
    { closure := fun {i f} hf => by
        have hf : (m.heap.closures.push c)[i]? = some f := hf
        rw [Array.getElem?_push] at hf
        split at hf
        · cases hf
          exact hc
        · exact hm.closed.closure hf
      parent := hm.closed.parent
      loaded := hm.closed.loaded
      journal := hm.closed.journal
      main := hm.closed.main
      global := hm.closed.global }
  depth := hm.depth
  limit := hm.limit

/-- The usual number of calls may nest. -/
theorem lt_limit (hm : m.Ready) (hd : d < 400) : m.depth + d < m.settings.callLimit.count := by
  rw [hm.depth, hm.limit]
  omega

end Machine.Ready

/-- A machine as the start of a session leaves it, with an array that has been made since. -/
structure Machine.ReadyWith (m : Machine) (id : Nat) (items : Array Value) : Prop extends m.Ready where
  lt : id < m.heap.arrays.size
  items : m.heap.array id = items

theorem Session.exists_readyWith (items : Array Value) : ∃ (m : Machine) (id : Nat), m.ReadyWith id items := by
  obtain ⟨m, hm⟩ := exists_ready
  exact ⟨_, m.heap.arrays.size, hm.newArray items, by simp [Heap.newArray], by simp [Heap.array_newArray]⟩

end ScriptEngine

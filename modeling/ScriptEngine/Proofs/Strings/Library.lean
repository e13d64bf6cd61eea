import ScriptEngine.Proofs.Arrays.Insertion
import ScriptEngine.Proofs.Arrays.Library
import ScriptEngine.Proofs.Eval.Places

/-!
# The string library

What the evaluation of the prelude leaves in a heap of the functions that look for a text in another, and of those that
cut a text to pieces and put pieces together: the functions as program trees (`Function.definition`), the predicates
that they check their parameters by (`kindTest`), and where they are found (`Layout.LoadedIn`). `join` is a function of
the array library, the others are of the string library.

The trees are given for any spans: the span of a node is the one under its number.

A call of a function binds its parameters, asks the predicates of the parameters and runs its body.

* `settles_test`: a predicate answers whether its argument is of its kind.
* `settles_function`: a call with arguments of the kinds that are asked for gives what the body finishes with.
-/

namespace ScriptEngine

namespace StringLibrary

open ArrayLibrary (ref callMember callNative run declare loopOver when nativesName)

/-! ## Functions -/

/-- The functions that look for texts, cut them and join them. -/
inductive Function where
  | indexOf | contains | startsWith | endsWith | split | join
deriving DecidableEq

namespace Function

/-- The name of a function. -/
def name : Function → Text
  | indexOf => "index_of"
  | contains => "contains?"
  | startsWith => "starts_with?"
  | endsWith => "ends_with?"
  | split => "split"
  | join => "join"

/-- The kind of the first argument of a function. The library of that kind has the function. -/
def receiver : Function → Kind
  | join => .array
  | _ => .string

/-- The kind that a function asks of its second argument. -/
def asked? : Function → Option Kind
  | join => none
  | _ => some .string

/-- The name of the first parameter. -/
def first : Function → Text
  | join => "arr"
  | _ => "s"

/-- The name of the second parameter. -/
def second : Function → Text
  | indexOf | contains => "sub"
  | startsWith => "prefix"
  | endsWith => "suffix"
  | split | join => "sep"

end Function

/-- The functions in the order of their declaration. -/
def Function.all : List Function := [.indexOf, .contains, .startsWith, .endsWith, .split, .join]

theorem Function.mem_all (f : Function) : f ∈ Function.all := by cases f <;> decide

/-! ## Program trees -/

/-- The name of the predicate that asks for a kind: `is_string?` or `is_array?`. -/
def testName (k : Kind) : Text := "is_" ++ k.name ++ "?"

section

variable (p : Nat → Span) (i : Nat)

/-- The length of what a name stands for. -/
def lengthOf (n : Text) : Expr := .unary (p i) .length (ref p (i + 1) n)

/-- Whether a part of a string is what a name stands for. -/
def isPart (n : Text) (bounds : List Expr) : Expr :=
  .binary (p i) (callNative p (i + 1) .slice (ref p (i + 4) "s" :: bounds)) (.compare .eq) (ref p (i + 5) n)

/-- The test whether what a name stands for is not longer than a string, and another test if it is not. -/
def fitsAnd (n : Text) (e : Expr) : Stmt :=
  run p i (.logical (p (i + 1)) (.binary (p (i + 2)) (lengthOf p (i + 3) n) (.compare .le) (lengthOf p (i + 5) "s"))
    .and e)

/-- Lengthens the text that a variable stands for. -/
def extend (n : Text) (e : Expr) : Stmt := run p i (.assign (p (i + 1)) (ref p (i + 2) n) .add e)

/-- A parameter that asks for a kind, or for none. -/
def parameterOf (n : Text) (k : Option Kind) : Parameter := ⟨p i, n, k.map fun k => ref p (i + 1) (testName k), []⟩

end

namespace Function

/-- The parameters of a function. -/
def parameters (p : Nat → Span) (f : Function) : List Parameter :=
  [parameterOf p 2 f.first f.receiver, parameterOf p 4 f.second f.asked?]

/-- The body of a function. -/
def body (p : Nat → Span) : Function → List Stmt
  | indexOf =>
    [declare p 20 "n" (lengthOf p 21 "sub"),
     when p 30 (.binary (p 33) (ref p 34 "n") (.compare .gt) (lengthOf p 35 "s"))
       [.returnValue (p 37) (some (.literal (p 38) .null))],
     loopOver p 40 "i"
       (.range (p 43) (.literal (p 44) (.number 0)) (.binary (p 45) (lengthOf p 46 "s") (.arith .sub) (ref p 48 "n"))
         true true none)
       [when p 50 (isPart p 53 "sub" [ref p 60 "i", .binary (p 61) (ref p 62 "i") (.arith .add) (ref p 63 "n")])
         [.returnValue (p 64) (some (ref p 65 "i"))]],
     run p 70 (.literal (p 71) .null)]
  | contains => [run p 20 (.binary (p 21) (ref p 22 "sub") .within (ref p 23 "s"))]
  | startsWith =>
    [fitsAnd p 20 "prefix" (isPart p 30 "prefix" [.literal (p 36) (.number 0), lengthOf p 37 "prefix"])]
  | endsWith =>
    [fitsAnd p 20 "suffix" (isPart p 30 "suffix"
      [.binary (p 36) (lengthOf p 37 "s") (.arith .sub) (lengthOf p 39 "suffix")])]
  | split => [run p 20 (callNative p 21 .strSplit [ref p 24 "s", ref p 25 "sep"])]
  | join =>
    [declare p 20 "glue" (.ifElse (p 21)
       (.binary (p 22) (ref p 23 "sep") (.compare .eq) (.literal (p 24) .null))
       ⟨p 25, [run p 26 (.literal (p 27) (.string []))]⟩
       (some (.block ⟨p 28, [run p 29 (ref p 30 "sep")]⟩))),
     declare p 31 "out" (.literal (p 32) (.string [])),
     run p 40 (.forIn (p 41) (some "i") "v" (ref p 43 "arr") ⟨p 42,
       [when p 50 (.binary (p 53) (ref p 54 "i") (.compare .gt) (.literal (p 55) (.number 0)))
          [extend p 56 "out" (ref p 59 "glue")],
        extend p 60 "out" (callNative p 63 .toText [ref p 66 "v"])]⟩),
     run p 70 (ref p 71 "out")]

/-- A function of the library. -/
def definition (p : Nat → Span) (f : Function) : FunctionDef :=
  { span := p 0, name := some f.name, parameters := f.parameters p, body := ⟨p 1, f.body p⟩, whereClauses := [],
    isPure := false }

end Function

/-- The predicate of the prelude that asks for a kind. -/
def kindTest (p : Nat → Span) (k : Kind) : FunctionDef :=
  { span := p 0, name := some (testName k), parameters := [⟨p 1, "v", none, []⟩],
    body := ⟨p 2, [run p 10 (.binary (p 11) (callMember p 13 nativesName .typeOf [ref p 16 "v"]) (.compare .eq)
      (.literal (p 12) (.string k.name)))]⟩,
    whereClauses := [], isPure := false }

/-! ## The library in a heap -/

/-- Where the library is: the frames of the libraries of strings and of arrays and that of the predicates, the cell of
the native functions, the functions and the predicates. -/
structure Layout where
  frame : Kind → Nat
  predicateFrame : Nat
  natives : Nat
  function : Function → Nat
  test : Kind → Nat

namespace Layout

/-- The native functions as a value. -/
def nativesValue (L : Layout) : Value := .plain (.object L.natives)

/-- A function of the library as a value. -/
def value (L : Layout) (f : Function) : Value := .plain (.function (L.function f))

/-- A predicate as a value. -/
def testValue (L : Layout) (k : Kind) : Value := .plain (.function (L.test k))

/-- The kinds that the libraries are for. -/
def kinds : List Kind := [.string, .array]

/-- The names that the functions of the library of a kind use. -/
inductive Names (L : Layout) (k : Kind) : Text → Value → Prop
  | native : L.Names k "native" L.nativesValue
  | test : L.Names k (testName k) (L.testValue k)

/-- The name that the predicates use. -/
inductive TestNames (L : Layout) : Text → Value → Prop
  | natives : L.TestNames nativesName L.nativesValue

/-- The library is in a heap as its evaluation leaves it: the names that its functions use stand for the native
functions and the predicates. -/
structure LoadedIn (L : Layout) (h : Heap) : Prop where
  frame_lt : ∀ k ∈ kinds, L.frame k < h.frames.size
  predicateFrame_lt : L.predicateFrame < h.frames.size
  natives_lt : L.natives < h.objects.size
  natives : ∀ f ∈ Native.standard, (h.object L.natives).get? f.name = some (.plain (.native f))
  definition : ∀ f, ∃ p, h.closures[L.function f]? = some ⟨f.definition p, L.frame f.receiver⟩
  testDefinition : ∀ k ∈ kinds, ∃ p, h.closures[L.test k]? = some ⟨kindTest p k, L.predicateFrame⟩
  knows : ∀ k ∈ kinds, h.Knows (L.frame k) (L.Names k)
  testKnows : h.Knows L.predicateFrame L.TestNames

/-- What has been loaded stays so as the heap grows. -/
theorem LoadedIn.adds {L : Layout} {h h' : Heap} (hl : L.LoadedIn h) (ha : h.Adds h') : L.LoadedIn h' where
  frame_lt k hk := Nat.lt_of_lt_of_le (hl.frame_lt k hk) ha.frames_le
  predicateFrame_lt := Nat.lt_of_lt_of_le hl.predicateFrame_lt ha.frames_le
  natives_lt := Nat.lt_of_lt_of_le hl.natives_lt ha.objects_le
  natives f hf := by rw [ha.object hl.natives_lt, hl.natives f hf]
  definition f := (hl.definition f).imp fun _ hc => ha.closure hc
  testDefinition k hk := (hl.testDefinition k hk).imp fun _ hc => ha.closure hc
  knows k hk := (hl.knows k hk).adds ha (hl.frame_lt k hk)
  testKnows := hl.testKnows.adds ha hl.predicateFrame_lt

end Layout

end StringLibrary

/-! ## Calls -/

/-- A text without tags equals texts of the same characters that carry no variant. -/
theorem Heap.equal_text {h : Heap} {v : Value} {t u : Text} (hv : v.payload = .string u) :
    h.equal (.string t) v = decide (v.variant? = none ∧ t = u) := by
  have hc : h.compare (.string t) v =
      if none ≠ v.variant? then .differ else if Payload.string t = .string u then .same else .differ := by
    rw [compare, hv]
    rfl
  by_cases hvariant : v.variant? = none
  · by_cases ht : t = u
    · rw [equal_of_same (by rw [hc, hvariant, if_neg (by simp), if_pos (by rw [ht])]), decide_eq_true ⟨hvariant, ht⟩]
    · rw [equal_of_differ (by rw [hc, hvariant, if_neg (by simp), if_neg (by simpa using ht)]),
        decide_eq_false fun h => ht h.2]
  · rw [equal_of_differ (by rw [hc, if_pos (Ne.symm hvariant)]), decide_eq_false fun h => hvariant h.1]

namespace StringLibrary

open Eval Interp

variable {L : Layout} {m m' : Machine} {F : Nat} {known : Text → Value → Prop} {k : Kind} {a b v : Value}
  {p : Nat → Span} {c : Closure}

theorem Layout.LoadedIn.later (hl : L.LoadedIn m.heap) (hm : m.Unaffected m') : L.LoadedIn m'.heap :=
  hl.adds hm.kept.toAdds

theorem kind_of_string {t : Text} (ha : a.payload = .string t) : a.kind = .string := by
  rw [Value.kind, ha, Payload.kind]

/-- A predicate answers whether its argument is of its kind. -/
theorem settles_test (hl : L.LoadedIn m.heap) (hd : m.depth < m.settings.callLimit.count) (hk : k ∈ Layout.kinds) :
    ∃ m', (∀ span, Settles (fun n => (ofLevel n).call (L.testValue k) [v] span) m
      (.ok (.bool (v.kind = k)) m')) ∧ m.Unaffected m' := by
  obtain ⟨p, hc⟩ := hl.testDefinition k hk
  have hplace := (Machine.Within.of_call ⟨kindTest p k, L.predicateFrame⟩ [("v", v)] hl.testKnows
    hl.predicateFrame_lt).withDepth (m.depth + 1)
  have hbound : bindings (kindTest p k) [v] = some (boundTo [("v", v)] none) := rfl
  have hequal (h : Heap) : h.equal (.string v.typeName) (.string k.name) = decide (v.kind = k) := by
    simp only [Heap.equal_string, Value.typeName, ArrayLibrary.Kind.name_inj]
  refine ⟨_, fun span => settles_call hc hd rfl hbound (settles_of_eq fun _ => rfl) (.value ?_) fun _ _ _ => rfl,
    hplace.unaffected.withDepth m.depth⟩
  refine settles_exec_single (settles_binary (settles_callMember hplace.knows (.inr ⟨rfl, .natives⟩)
    (hl.natives _ (by decide)) (settles_evalList_cons (settles_name hplace.knows (.inl rfl)) settles_evalList_nil)
    fun I => ArrayLibrary.call_typeOf) settles_literal fun n => ?_)
  rw [← hequal]
  rfl

/-! ## Functions -/

/-- The names that are known in a call of a function. -/
abbrev callKnown (L : Layout) (f : Function) (p : Nat → Span) (a b : Value) : Text → Value → Prop :=
  (Closure.callFrame ⟨f.definition p, L.frame f.receiver⟩ [(f.first, a), (f.second, b)]).Knowing (L.Names f.receiver)

variable {f : Function}

theorem receiver_mem_kinds (f : Function) : f.receiver ∈ Layout.kinds := by cases f <;> decide

theorem callKnown_first : callKnown L f p a b f.first a := .inl (by cases f <;> rfl)

theorem callKnown_second : callKnown L f p a b f.second b := .inl (by cases f <;> rfl)

theorem callKnown_native : callKnown L f p a b "native" L.nativesValue := .inr ⟨by cases f <;> rfl, .native⟩

theorem callKnown_test : callKnown L f p a b (testName f.receiver) (L.testValue f.receiver) :=
  .inr ⟨by cases f <;> rfl, .test⟩

/-- A parameter passes for an argument of the kind that it asks for. -/
theorem settles_parameterOf {i : Nat} {name : Text} (k? : Option Kind) (hl : L.LoadedIn m.heap)
    (hd : m.depth < m.settings.callLimit.count) (hknows : m.heap.Knows F known) (hv : known name v)
    (hk : ∀ k ∈ k?, k ∈ Layout.kinds ∧ v.kind = k ∧ known (testName k) (L.testValue k)) :
    ∃ m', (∀ c span, Settles (fun n => (ofLevel n).checkParameter c F span (parameterOf p i name k?)) m (.ok () m')) ∧
      m.Unaffected m' := by
  cases k? with
  | none => exact ⟨m, fun c span => settles_of_eq fun _ => rfl, .refl m⟩
  | some k =>
    obtain ⟨hmem, hkind, htest⟩ := hk k rfl
    obtain ⟨m', hcall, hm'⟩ := settles_test (v := v) hl hd hmem
    rw [decide_eq_true hkind] at hcall
    exact ⟨m', fun c span => settles_checkParameter rfl rfl (settles_name hknows htest) hknows hv (hcall span), hm'⟩

/-- The parameters of a function pass for arguments of the kinds that it asks for. -/
theorem settles_parameters {m₀ : Machine} (hl : L.LoadedIn m.heap) (hd : m.depth < m.settings.callLimit.count)
    (ha : a.kind = f.receiver) (hb : ∀ k ∈ f.asked?, b.kind = k) (hm : m₀.Within F (callKnown L f p a b) m) :
    ∃ m', (∀ i span, Settles (fun n => (ofLevel n).checkConstraints ⟨f.definition p, i⟩ F span) m (.ok () m')) ∧
      m.Unaffected m' := by
  obtain ⟨m₁, hfirst, hm₁⟩ := settles_parameterOf (p := p) (i := 2) (some f.receiver) hl hd hm.knows callKnown_first
    (by
      rintro _ ⟨⟩
      exact ⟨receiver_mem_kinds f, ha, callKnown_test⟩)
  obtain ⟨m₂, hsecond, hm₂⟩ := settles_parameterOf (p := p) (i := 4) f.asked? (hl.later hm₁)
    (by rw [hm₁.depth, hm₁.settings]; exact hd) (hm.later hm₁).knows callKnown_second
    (by
      intro k hk
      -- a function that asks for a kind here asks for the same of its first argument
      have hsame : f.receiver = k := by cases f <;> cases hk <;> rfl
      rw [← hsame]
      exact ⟨receiver_mem_kinds f, (hb k hk).trans hsame.symm, callKnown_test⟩)
  refine ⟨m₂, fun i span => ?_, hm₁.trans hm₂⟩
  have hboth : Settles (fun n => (f.parameters p).forM ((ofLevel n).checkParameter ⟨f.definition p, i⟩ F span)) m
      (.ok () m₂) := (hfirst _ span).bind ((hsecond _ span).bind (settles_of_eq fun _ => rfl))
  exact hboth.bind (settles_of_eq fun _ => rfl)

/-- A call of a function with arguments of the kinds that it asks for gives what its body finishes with. -/
theorem settles_function (f : Function) (hl : L.LoadedIn m.heap) (hd : m.depth < m.settings.callLimit.count)
    (ha : a.kind = f.receiver) (hb : ∀ k ∈ f.asked?, b.kind = k) :
    ∃ p m₁, (m.withDepth (m.depth + 1)).Within m.heap.frames.size (callKnown L f p a b) m₁ ∧
      ∀ v m₂, Finishes (fun n => (ofLevel n).exec (f.body p) m.heap.frames.size) m₁ v m₂ →
        (isPredicateName f.name → v.kind = .boolean) →
        ∀ span, Settles (fun n => (ofLevel n).call (L.value f) [a, b] span) m (.ok v (m₂.withDepth m.depth)) := by
  obtain ⟨p, hc⟩ := hl.definition f
  have hk := receiver_mem_kinds f
  have hplace : m.Within m.heap.frames.size (callKnown L f p a b) _ :=
    .of_call ⟨f.definition p, L.frame f.receiver⟩ _ (hl.knows _ hk) (hl.frame_lt _ hk)
  have hbound : bindings (f.definition p) [a, b] = some (boundTo [(f.first, a), (f.second, b)] none) := by
    cases f <;> rfl
  obtain ⟨m₁, hchecks, hm₁⟩ := settles_parameters (hl.later hplace.unaffected) hd ha hb hplace
  refine ⟨p, m₁.withDepth (m.depth + 1), (hplace.later hm₁).withDepth _, fun v m₂ hbody hv span => ?_⟩
  refine settles_call hc hd rfl hbound (hchecks _ span) hbody fun name hname => ?_
  cases hname
  exact hv

end StringLibrary

end ScriptEngine

import ScriptEngine.Proofs.OrderedMap
import ScriptEngine.Proofs.Value.Growth

/-!
# The array library

What the evaluation of the array library leaves in a heap: its functions as program trees
(`Function.definition`), the predicates that they check their parameters by (`Predicate.definition`), and where
they are found (`Layout.LoadedIn`).

Every operation has a plain form, which gives a new array, and a form in place, whose name ends with an
exclamation mark. Of seven operations the form in place gives the array the elements of what the plain form
returns; `push!`, `concat!` and `reverse!` have bodies of their own.

The trees are given for any spans: the span of a node is the one under its number.
-/

namespace ScriptEngine.ArrayLibrary

/-! ## Functions -/

/-- The predicates of parameters, and the predicate that one of them calls. -/
inductive Predicate where
  | isArray | isInt | isFunction | isNumber
deriving DecidableEq

/-- The name of a predicate. -/
def Predicate.name : Predicate → Text
  | isArray => "is_array?"
  | isInt => "is_int?"
  | isFunction => "is_function?"
  | isNumber => "is_number?"

/-- The operations that have a form in place. -/
inductive Operation where
  | push | skip | slice | take | concat | map | filter | reverse | remove | sort
deriving DecidableEq

namespace Operation

/-- The name of an operation. -/
def name : Operation → Text
  | push => "push"
  | skip => "skip"
  | slice => "slice"
  | take => "take"
  | concat => "concat"
  | map => "map"
  | filter => "filter"
  | reverse => "reverse"
  | remove => "remove"
  | sort => "sort"

/-- The parameters of an operation behind the array. -/
def furtherParameters : Operation → List (Text × Option Predicate)
  | push => [(variadicName, none)]
  | skip => [("n", some .isInt)]
  | slice => [("start", some .isInt), ("end", none)]
  | take => [("n", some .isInt)]
  | concat => [(variadicName, none)]
  | map => [("f", some .isFunction)]
  | filter => [("keep", some .isFunction)]
  | reverse => []
  | remove => [("x", none)]
  | sort => [("less", none)]

/-- The parameters of an operation. -/
def parameters (op : Operation) : List (Text × Option Predicate) :=
  ("arr", some .isArray) :: op.furtherParameters

/-- Whether an operation calls its argument. -/
def takesCallback : Operation → Bool
  | map | filter | sort => true
  | _ => false

end Operation

/-- The two forms of the operations. -/
inductive Function where
  | plain (op : Operation)
  | inPlace (op : Operation)
deriving DecidableEq

namespace Function

/-- The operation of a function. -/
def operation : Function → Operation
  | plain op => op
  | inPlace op => op

/-- The name of a function. -/
def name : Function → Text
  | plain op => op.name
  | inPlace op => op.name ++ "!"

end Function

/-- The operations in the order of their declaration. -/
def Operation.all : List Operation := [.push, .skip, .slice, .take, .concat, .map, .filter, .reverse, .remove, .sort]

/-- The functions, the plain forms first. -/
def Function.all : List Function := Operation.all.map .plain ++ Operation.all.map .inPlace

theorem Function.mem_all (f : Function) : f ∈ Function.all := by
  obtain ⟨op⟩ | ⟨op⟩ := f <;> cases op <;> decide

/-- The predicates in the order of their declaration. -/
def Predicate.all : List Predicate := [.isArray, .isInt, .isFunction, .isNumber]

theorem Predicate.mem_all (q : Predicate) : q ∈ Predicate.all := by cases q <;> decide

/-! ## Program trees -/

section

variable (p : Nat → Span) (i : Nat)

/-- A name. -/
def ref (n : Text) : Expr := .name (p i) n

/-- A call of a function by its name. -/
def callNamed (f : Text) (args : List Expr) : Expr := .call (p i) (ref p (i + 1) f) args

/-- A call of a native function that is a member of what a name stands for. -/
def callMember (holder : Text) (f : Native) (args : List Expr) : Expr :=
  .call (p i) (.member (p (i + 1)) (ref p (i + 2) holder) f.name) args

/-- A call of a native function as the library calls it. -/
def callNative (f : Native) (args : List Expr) : Expr := callMember p i "native" f args

/-- An expression as a statement. -/
def run (e : Expr) : Stmt := .expression (p i) e

/-- A declaration of a variable. -/
def declare (n : Text) (e : Expr) : Stmt :=
  .bindings { span := p i, name := some n, initializer := some e, isConst := false, targets := [] }

/-- A loop over elements. -/
def loopOver (n : Text) (iterable : Expr) (body : List Stmt) : Stmt :=
  run p i (.forIn (p (i + 1)) none n iterable ⟨p (i + 2), body⟩)

/-- A conditional without an alternative. -/
def when (test : Expr) (body : List Stmt) : Stmt :=
  run p i (.ifElse (p (i + 1)) test ⟨p (i + 2), body⟩ none)

/-- An element of an array. -/
def element (array index : Expr) : Expr := .index (p i) array index

/-- Adds an element to the end of an array. -/
def pushOne (target : Text) (e : Expr) : Stmt :=
  run p i (callNative p (i + 1) .pushArray [ref p (i + 4) target, e])

/-- Adds the elements of one thing to the end of an array. -/
def pushEach (source target : Text) : Stmt :=
  loopOver p i "v" (ref p (i + 3) source) [pushOne p (i + 4) target (ref p (i + 9) "v")]

/-- Adds the elements of every argument to the end of an array. -/
def pushElements (target : Text) : Stmt :=
  loopOver p i "other" (ref p (i + 3) variadicName) [pushEach p (i + 4) "other" target]

/-- The declaration of the result as a copy of the array. -/
def declareCopy : Stmt := declare p i "out" (callNative p (i + 1) .shallowCopy [ref p (i + 4) "arr"])

/-- The declaration of the result as an empty array. -/
def declareEmpty : Stmt := declare p i "out" (.array (p (i + 1)) [])

/-- The order that a sort takes if it is given none. -/
def ascending : FunctionDef :=
  { span := p i, name := none,
    parameters := [⟨p (i + 1), "a", none, []⟩, ⟨p (i + 2), "b", none, []⟩],
    body := ⟨p (i + 3), [run p (i + 4) (.binary (p (i + 5)) (ref p (i + 6) "a") (.compare .lt) (ref p (i + 7) "b"))]⟩,
    whereClauses := [], isPure := false }

/-- The test of what a removal keeps. -/
def different : FunctionDef :=
  { span := p i, name := none, parameters := [⟨p (i + 1), "v", none, []⟩],
    body := ⟨p (i + 2), [run p (i + 3) (.binary (p (i + 4)) (ref p (i + 5) "v") (.compare .ne) (ref p (i + 6) "x"))]⟩,
    whereClauses := [], isPure := false }

/-- The position before the one that is sorted in. -/
def previous : Expr :=
  .binary (p i) (ref p (i + 1) "j") (.arith .sub) (.literal (p (i + 2)) (.number 1))

/-- Swaps an element with the one before it. -/
def swap : List Stmt :=
  [declare p i "held" (element p (i + 1) (ref p (i + 2) "out") (ref p (i + 3) "j")),
   run p (i + 4) (.assign (p (i + 5)) (element p (i + 6) (ref p (i + 7) "out") (ref p (i + 8) "j")) .set
     (element p (i + 9) (ref p (i + 10) "out") (previous p (i + 11)))),
   run p (i + 14) (.assign (p (i + 15)) (element p (i + 16) (ref p (i + 17) "out") (previous p (i + 18))) .set
     (ref p (i + 21) "held")),
   run p (i + 22) (.update (p (i + 23)) .decrement (ref p (i + 24) "j") false)]

/-- Swaps an element with those before it that are not in order with it. -/
def sink : Stmt :=
  run p i (.whileLoop (p (i + 1))
    (.logical (p (i + 2))
      (.binary (p (i + 3)) (ref p (i + 4) "j") (.compare .gt) (.literal (p (i + 5)) (.number 0))) .and
      (callNamed p (i + 6) "before"
        [element p (i + 8) (ref p (i + 9) "out") (ref p (i + 10) "j"),
         element p (i + 11) (ref p (i + 12) "out") (previous p (i + 13))]))
    ⟨p (i + 16), swap p (i + 17)⟩ false)

end

/-- The body of the plain form of an operation. -/
def Operation.plainBody (p : Nat → Span) : Operation → List Stmt
  | push => [declareCopy p 20, pushEach p 30 variadicName "out", run p 40 (ref p 41 "out")]
  | skip => [run p 20 (callNative p 21 .slice [ref p 24 "arr", ref p 25 "n"])]
  | slice => [run p 20 (callNative p 21 .slice [ref p 24 "arr", ref p 25 "start", ref p 26 "end"])]
  | take => [run p 20 (callNative p 21 .slice [ref p 24 "arr", .literal (p 25) (.number 0), ref p 26 "n"])]
  | concat => [declareCopy p 20, pushElements p 30 "out", run p 50 (ref p 51 "out")]
  | map =>
    [declareEmpty p 20,
     loopOver p 30 "v" (ref p 33 "arr") [pushOne p 34 "out" (callNamed p 39 "f" [ref p 41 "v"])],
     run p 50 (ref p 51 "out")]
  | filter =>
    [declareEmpty p 20,
     loopOver p 30 "v" (ref p 33 "arr")
       [when p 34 (callNamed p 37 "keep" [ref p 39 "v"]) [pushOne p 40 "out" (ref p 45 "v")]],
     run p 50 (ref p 51 "out")]
  | reverse => [run p 20 (callNative p 21 .reverse [ref p 24 "arr"])]
  | remove => [run p 20 (callNamed p 21 "filter" [ref p 23 "arr", .function (different p 24)])]
  | sort =>
    [declareCopy p 20,
     when p 30 (.binary (p 33) (.unary (p 34) .length (ref p 35 "out")) (.compare .lt)
         (.literal (p 36) (.number 2)))
       [.returnValue (p 37) (some (ref p 38 "out"))],
     declare p 40 "before" (.ifElse (p 41)
       (.binary (p 42) (ref p 43 "less") (.compare .eq) (.literal (p 44) .null))
       ⟨p 45, [run p 46 (.function (ascending p 47))]⟩
       (some (.block ⟨p 55, [run p 56 (ref p 57 "less")]⟩))),
     loopOver p 60 "i"
       (.range (p 63) (.literal (p 64) (.number 1)) (.unary (p 65) .length (ref p 66 "out")) true false none)
       [declare p 67 "j" (ref p 68 "i"), sink p 70],
     run p 120 (ref p 121 "out")]

/-- The body of the form in place of an operation. -/
def Operation.inPlaceBody (p : Nat → Span) : Operation → List Stmt
  | push => [pushEach p 20 variadicName "arr", run p 40 (ref p 41 "arr")]
  | concat => [pushElements p 20 "arr", run p 40 (ref p 41 "arr")]
  | reverse =>
    [run p 20 (callNative p 21 .replaceArray [ref p 24 "arr", callNative p 25 .reverse [ref p 28 "arr"]])]
  | op =>
    [run p 20 (callNative p 21 .replaceArray [ref p 24 "arr",
      callNamed p 25 op.name (op.parameters.zipIdx.map fun (x, i) => ref p (27 + i) x.1)])]

namespace Function

/-- The body of a function. -/
def body (p : Nat → Span) : Function → List Stmt
  | plain op => op.plainBody p
  | inPlace op => op.inPlaceBody p

/-- A function of the library. -/
def definition (p : Nat → Span) (f : Function) : FunctionDef :=
  { span := p 0, name := some f.name,
    parameters := f.operation.parameters.zipIdx.map fun (x, i) =>
      ⟨p (2 * i + 2), x.1, x.2.map fun q => ref p (2 * i + 3) q.name, []⟩,
    body := ⟨p 1, f.body p⟩, whereClauses := [], isPure := false }

end Function

/-- The name of the native functions. -/
def nativesName : Text := "__zephyr_native"

namespace Predicate

/-- The test whether what an expression stands for is a text. -/
def isText (p : Nat → Span) (i : Nat) (e : Expr) (t : Text) : Expr :=
  .binary (p i) e (.compare .eq) (.literal (p (i + 1)) (.string t))

/-- The kind of the argument of a predicate. -/
def typeOfArgument (p : Nat → Span) (i : Nat) : Expr :=
  callMember p i nativesName .typeOf [ref p (i + 3) "v"]

/-- The body of a predicate. -/
def body (p : Nat → Span) : Predicate → List Stmt
  | isArray => [run p 10 (isText p 11 (typeOfArgument p 13) "array")]
  | isNumber => [run p 10 (isText p 11 (typeOfArgument p 13) "number")]
  | isFunction =>
    [declare p 10 "t" (typeOfArgument p 11),
     run p 20 (.logical (p 21) (isText p 22 (ref p 24 "t") "function") .or
       (isText p 25 (ref p 27 "t") "native_function"))]
  | isInt =>
    [run p 10 (.logical (p 11) (callNamed p 12 "is_number?" [ref p 14 "v"]) .and
      (.binary (p 15) (callMember p 16 nativesName .floor [ref p 19 "v"]) (.compare .eq) (ref p 20 "v")))]

/-- A predicate of the prelude. -/
def definition (p : Nat → Span) (q : Predicate) : FunctionDef :=
  { span := p 0, name := some q.name, parameters := [⟨p 1, "v", none, []⟩], body := ⟨p 2, q.body p⟩,
    whereClauses := [], isPure := false }

end Predicate

/-! ## Functions that look for an element -/

/-- The functions that look for an element. -/
inductive Search where
  | includes | indexOf
deriving DecidableEq

namespace Search

/-- The name of a function. -/
def name : Search → Text
  | includes => "includes?"
  | indexOf => "index_of"

/-- The statement of the loop of `index_of`, which is left by it. -/
def returnEqual (p : Nat → Span) : Stmt :=
  when p 30 (.binary (p 33) (ref p 34 "v") (.compare .eq) (ref p 35 "x"))
    [.returnValue (p 36) (some (ref p 37 "i"))]

/-- The body of a function. -/
def body (p : Nat → Span) : Search → List Stmt
  | includes => [run p 20 (.binary (p 21) (ref p 22 "x") .within (ref p 23 "arr"))]
  | indexOf =>
    [run p 20 (.forIn (p 21) (some "i") "v" (ref p 23 "arr") ⟨p 22, [returnEqual p]⟩),
     run p 40 (.literal (p 41) .null)]

/-- A function that looks for an element. -/
def definition (p : Nat → Span) (f : Search) : FunctionDef :=
  { span := p 0, name := some f.name,
    parameters := [⟨p 2, "arr", some (ref p 3 Predicate.isArray.name), []⟩, ⟨p 4, "x", none, []⟩],
    body := ⟨p 1, f.body p⟩, whereClauses := [], isPure := false }

/-- The functions in the order of their declaration. -/
def all : List Search := [.includes, .indexOf]

theorem mem_all (f : Search) : f ∈ all := by cases f <;> decide

end Search

/-! ## The library in a heap -/

/-- Where the library is: its frame and that of the predicates, the cell of the native functions, and the
functions. -/
structure Layout where
  frame : Nat
  predicateFrame : Nat
  natives : Nat
  function : Function → Nat
  predicate : Predicate → Nat
  search : Search → Nat

namespace Layout

/-- The native functions as a value. -/
def nativesValue (L : Layout) : Value := .plain (.object L.natives)

/-- A function of the library as a value. -/
def value (L : Layout) (f : Function) : Value := .plain (.function (L.function f))

/-- A predicate as a value. -/
def predicateValue (L : Layout) (q : Predicate) : Value := .plain (.function (L.predicate q))

/-- A function that looks for an element as a value. -/
def searchValue (L : Layout) (f : Search) : Value := .plain (.function (L.search f))

/-- The names that the functions of the library use. -/
inductive Names (L : Layout) : Text → Value → Prop
  | native : L.Names "native" L.nativesValue
  | function (f : Function) : L.Names f.name (L.value f)
  | predicate (q : Predicate) : L.Names q.name (L.predicateValue q)

/-- The names that the predicates use. -/
inductive PredicateNames (L : Layout) : Text → Value → Prop
  | natives : L.PredicateNames nativesName L.nativesValue
  | isNumber : L.PredicateNames "is_number?" (L.predicateValue .isNumber)

/-- The library is in a heap as its evaluation leaves it: the names that its functions use stand for the native
functions, the functions and the predicates. -/
structure LoadedIn (L : Layout) (h : Heap) : Prop where
  frame_lt : L.frame < h.frames.size
  predicateFrame_lt : L.predicateFrame < h.frames.size
  natives_lt : L.natives < h.objects.size
  natives : ∀ f ∈ Native.standard, (h.object L.natives).get? f.name = some (.plain (.native f))
  definition : ∀ f, ∃ p, h.closures[L.function f]? = some ⟨f.definition p, L.frame⟩
  predicateDefinition : ∀ q, ∃ p, h.closures[L.predicate q]? = some ⟨q.definition p, L.predicateFrame⟩
  searchDefinition : ∀ f, ∃ p, h.closures[L.search f]? = some ⟨f.definition p, L.frame⟩
  knows : h.Knows L.frame L.Names
  predicateKnows : h.Knows L.predicateFrame L.PredicateNames

/-- What has been loaded stays so as the heap grows. -/
theorem LoadedIn.adds {L : Layout} {h h' : Heap} (hl : L.LoadedIn h) (ha : h.Adds h') : L.LoadedIn h' where
  frame_lt := Nat.lt_of_lt_of_le hl.frame_lt ha.frames_le
  predicateFrame_lt := Nat.lt_of_lt_of_le hl.predicateFrame_lt ha.frames_le
  natives_lt := Nat.lt_of_lt_of_le hl.natives_lt ha.objects_le
  natives f hf := by rw [ha.object hl.natives_lt, hl.natives f hf]
  definition f := (hl.definition f).imp fun _ hc => ha.closure hc
  predicateDefinition q := (hl.predicateDefinition q).imp fun _ hc => ha.closure hc
  searchDefinition f := (hl.searchDefinition f).imp fun _ hc => ha.closure hc
  knows := hl.knows.adds ha hl.frame_lt
  predicateKnows := hl.predicateKnows.adds ha hl.predicateFrame_lt

end Layout

end ScriptEngine.ArrayLibrary

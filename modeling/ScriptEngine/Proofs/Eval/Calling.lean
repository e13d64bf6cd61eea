import ScriptEngine.Eval.Statement
import ScriptEngine.Proofs.Eval.Run
import ScriptEngine.Proofs.Module.Load
import ScriptEngine.Proofs.Value.Growth

/-!
# Runs of calls

What a call does from a machine, by what its checks and its body do: the parameters are bound in a new frame
(`Machine.bound`), the checks run there, and the body one call deeper.

* `callClosure_ends`: the result of a call by the way its body ended.
* `callClosure_ok`: a call that gives a value was below the limit, its parameters could be bound, and its checks
  passed.
* **Growth of machines** (`Machine.Grown`): frames may be added and arrays changed, and nothing else.
-/

namespace ScriptEngine

/-- The machine at another depth. -/
abbrev Machine.withDepth (m : Machine) (d : Nat) : Machine := { m with depth := d }

/-- Frames may have been added and arrays changed; everything else is as it was. -/
structure Machine.Grown (m m' : Machine) : Prop where
  rest : m' = m.withHeap m'.heap
  objects : m'.heap.objects = m.heap.objects
  references : m'.heap.references = m.heap.references
  closures : m'.heap.closures = m.heap.closures
  frames_le : m.heap.frames.size ≤ m'.heap.frames.size
  frame : ∀ {i}, i < m.heap.frames.size → m'.heap.frame i = m.heap.frame i

namespace Machine.Grown

variable {m m' m'' : Machine}

theorem refl (m : Machine) : m.Grown m := ⟨rfl, rfl, rfl, rfl, Nat.le_refl _, fun _ => rfl⟩

theorem trans (h : m.Grown m') (h' : m'.Grown m'') : m.Grown m'' where
  rest := by
    conv_lhs => rw [h'.rest, h.rest]
  objects := h'.objects.trans h.objects
  references := h'.references.trans h.references
  closures := h'.closures.trans h.closures
  frames_le := Nat.le_trans h.frames_le h'.frames_le
  frame hi := (h'.frame (Nat.lt_of_lt_of_le hi h.frames_le)).trans (h.frame hi)

theorem adds (h : m.Grown m') : m.heap.Adds m'.heap where
  objects_le := Nat.le_of_eq (by rw [h.objects])
  object _ := by rw [Heap.object, Heap.object, h.objects]
  closure hc := by rw [h.closures, hc]
  frames_le := h.frames_le
  frame hi := h.frame hi

theorem settings (h : m.Grown m') : m'.settings = m.settings := by rw [h.rest]

theorem depth (h : m.Grown m') : m'.depth = m.depth := by rw [h.rest]

/-- The depth of a call makes no difference. -/
theorem leaving {d : Nat} (h : (m.withDepth d).Grown m') : m.Grown (m'.withDepth m.depth) where
  rest := by
    conv_lhs => rw [h.rest]
  objects := h.objects
  references := h.references
  closures := h.closures
  frames_le := h.frames_le
  frame := h.frame

end Machine.Grown

theorem Machine.grown_adding (m : Machine) (fs : List Frame) : m.Grown (m.withHeap (m.heap.adding fs)) where
  rest := rfl
  objects := rfl
  references := rfl
  closures := rfl
  frames_le := by simp
  frame hi := Heap.frame_adding hi

theorem Machine.grown_newArray (m : Machine) (items : Array Value) :
    m.Grown (m.withHeap (m.heap.newArray items).2) :=
  ⟨rfl, rfl, rfl, rfl, Nat.le_refl _, fun _ => rfl⟩

theorem Machine.grown_modifyArray (m : Machine) (id : Nat) (f : Array Value → Array Value) :
    m.Grown (m.withHeap (m.heap.modifyArray id f)) :=
  ⟨rfl, rfl, rfl, rfl, Nat.le_refl _, fun _ => rfl⟩

/-- A name may be bound in a frame that was added. -/
theorem Machine.Grown.bind {m m' : Machine} (h : m.Grown m') {id : Nat} (hid : m.heap.frames.size ≤ id)
    {name : BindingName} {v : Value} {c : Bool} : m.Grown (m'.withHeap (m'.heap.bind id name v c)) where
  rest := by
    conv_lhs => rw [h.rest]
  objects := h.objects
  references := h.references
  closures := h.closures
  frames_le := by rw [Heap.size_bind]; exact h.frames_le
  frame hi := by
    rw [Heap.bind, Heap.frame_modifyFrame_of_ne (Nat.ne_of_lt (Nat.lt_of_lt_of_le hi hid))]
    exact h.frame hi

/-- A frame with further names bound. -/
def Frame.binding (f : Frame) (values : List (Text × Value)) : Frame :=
  { f with bindings := values.foldl (fun b x => b.insert (some x.1) x.2) f.bindings }

/-- The frame of a call with the values of its parameters. -/
def Closure.callFrame (c : Closure) (values : List (Text × Value)) : Frame :=
  Frame.binding { parent := some c.frame, name := "call:" ++ c.name } values

/-- What the parameters of a function are bound to: one argument each, and the variadic one, if it is the last, to
the rest. -/
def boundTo (values : List (Text × Value)) : Option (List Value) → List (Text × Argument)
  | none => values.map fun x => (x.1, .one x.2)
  | some rest => (values.map fun x => (x.1, .one x.2)) ++ [(variadicName, .rest rest)]

/-- The machine where the parameters of a call are bound. -/
def Machine.bound (m : Machine) (c : Closure) (values : List (Text × Value)) : Option (List Value) → Machine
  | none => m.withHeap (m.heap.adding [c.callFrame values])
  | some rest =>
    m.withHeap ((m.heap.newArray rest.toArray).2.adding
      [c.callFrame (values ++ [(variadicName, (m.heap.newArray rest.toArray).1)])])

/-- The machine where parameters are bound in a further frame. -/
def Machine.boundIn (m : Machine) (f : Frame) (values : List (Text × Value)) : Option (List Value) → Machine
  | none => m.withHeap (m.heap.adding [f.binding values])
  | some rest =>
    m.withHeap ((m.heap.newArray rest.toArray).2.adding
      [f.binding (values ++ [(variadicName, (m.heap.newArray rest.toArray).1)])])

namespace Eval

variable {ι : Type} {g : ι → Eval Unit} {x : ι} {xs ys : List ι} {m m' : Machine}

theorem forM_cons_ok (hx : g x m = .ok () m') : (x :: xs).forM g m = xs.forM g m' := by
  show (g x >>= fun _ => xs.forM g) m = _
  rw [bind_ok hx]

theorem forM_append_ok (hx : xs.forM g m = .ok () m') : (xs ++ ys).forM g m = ys.forM g m' := by
  have happend : (xs ++ ys).forM g = (xs.forM g >>= fun _ => ys.forM g) := List.forM_append
  rw [happend, bind_ok hx]

/-- An action one call deeper, however it ends. -/
theorem deeper_ends {y : Eval Value} {d : Nat} {r : Except Exit Value} (hy : y.EndsBy (m.withDepth (d + 1)) r m') :
    deeper d y m = .ok r (m'.withDepth d) := by
  have hattempt : attempt y (m.withDepth (d + 1)) = .ok r m' := hy
  show (attempt y >>= fun outcome => modify (fun m : Machine => { m with depth := d }) >>= fun _ => pure outcome)
    (m.withDepth (d + 1)) = _
  rw [bind_ok hattempt]
  rfl

/-- A frame inside another is added behind the others. -/
theorem childFrame_adding (F : Nat) (name : Text) (isPure : Bool) :
    childFrame F name isPure m =
      .ok m.heap.frames.size (m.withHeap (m.heap.adding [{ parent := some F, name := name, isPure := isPure }])) := by
  have hnew : m.heap.newFrame { parent := some F, name := name, isPure := isPure } = (m.heap.frames.size, _) :=
    m.heap.newFrame_eq_adding _
  show EStateM.Result.ok (m.heap.newFrame { parent := some F, name := name, isPure := isPure }).1
    (m.withHeap (m.heap.newFrame { parent := some F, name := name, isPure := isPure }).2) = _
  rw [hnew]

/-- A name is bound in a frame that was added. -/
theorem define_adding {h : Heap} {f : Frame} {fs : List Frame} {name : Text} {v : Value} {span : Option Span}
    (hc : f.constants = []) :
    define h.frames.size (some name) v false span (m.withHeap (h.adding (f :: fs))) =
      .ok () (m.withHeap (h.adding (f.binding [(name, v)] :: fs))) := by
  have hfree : (h.adding (f :: fs)).isConstant h.frames.size (some name) = false := by
    rw [Heap.isConstant, Heap.frame_adding_size, hc]
    rfl
  show (if (h.adding (f :: fs)).isConstant h.frames.size (some name) then _ else _ : Eval Unit) _ = _
  rw [hfree]
  show EStateM.Result.ok () (m.withHeap ((h.adding (f :: fs)).bind h.frames.size (some name) v false)) = _
  rw [Heap.bind, Heap.modifyFrame_adding]
  rfl

end Eval

namespace Interp

open Eval

variable {I : Interp} {m m₁ m₂ : Machine} {c : Closure} {args : List Value} {span : Option Span}
  {values : List (Text × Value)} {rest : Option (List Value)} {bound : List (Text × Argument)} {v : Value}

/-- Binds a parameter in the frame of a call. -/
def bindArgument (frame : Nat) (x : Text × Argument) : Eval Unit := do
  let v ← match x.2 with
    | .one v => pure v
    | .rest vs => Eval.newArray vs.toArray
  Eval.define frame (some x.1) v false none

theorem bindParameters_eq {frame : Nat} (hb : bindings c.definition args = some bound) :
    bindParameters c frame args span = bound.forM (bindArgument frame) := by
  rw [bindParameters, hb]
  rfl

theorem bindArgument_ones {h : Heap} {f : Frame} {fs : List Frame} (hc : f.constants = []) :
    (values.map fun x => (x.1, Argument.one x.2)).forM (bindArgument h.frames.size)
      (m.withHeap (h.adding (f :: fs))) = .ok () (m.withHeap (h.adding (f.binding values :: fs))) := by
  induction values generalizing f with
  | nil => rfl
  | cons x values ih =>
    have hx : bindArgument h.frames.size (x.1, .one x.2) (m.withHeap (h.adding (f :: fs))) =
        .ok () (m.withHeap (h.adding (f.binding [x] :: fs))) := define_adding hc
    rw [List.map_cons, forM_cons_ok hx]
    exact ih hc

theorem bindArgument_boundIn {f : Frame} (hc : f.constants = []) (values : List (Text × Value))
    (rest : Option (List Value)) :
    (boundTo values rest).forM (bindArgument m.heap.frames.size) (m.withHeap (m.heap.adding [f])) =
      .ok () (m.boundIn f values rest) := by
  cases rest with
  | none => exact bindArgument_ones hc
  | some rest =>
    -- the array of the rest is made before the name is bound to it
    have hlast : bindArgument m.heap.frames.size (variadicName, .rest rest)
        (m.withHeap (m.heap.adding [f.binding values])) = .ok () (m.boundIn f values (some rest)) := by
      have hframe : (f.binding values).binding [(variadicName, (m.heap.newArray rest.toArray).1)] =
          f.binding (values ++ [(variadicName, (m.heap.newArray rest.toArray).1)]) := by
        simp [Frame.binding]
      rw [Machine.boundIn, ← hframe]
      exact define_adding (h := (m.heap.newArray rest.toArray).2) hc
    rw [boundTo, forM_append_ok (bindArgument_ones hc)]
    exact (forM_cons_ok hlast).trans rfl

theorem bindArgument_boundTo (values : List (Text × Value)) (rest : Option (List Value)) :
    (boundTo values rest).forM (bindArgument m.heap.frames.size) (m.withHeap (m.heap.adding [c.callFrame []])) =
      .ok () (m.bound c values rest) := by
  have hbound : m.bound c values rest = m.boundIn (c.callFrame []) values rest := by
    cases rest <;> rfl
  rw [hbound]
  exact bindArgument_boundIn rfl values rest

/-- A call binds the parameters, checks the constraints and runs the body one call deeper. -/
theorem callClosure_eq (hd : m.depth < m.settings.callLimit.count) (hpure : c.definition.isPure = false)
    (hb : bindings c.definition args = some (boundTo values rest)) :
    I.callClosure c args span m = (do
      I.checkConstraints c m.heap.frames.size span
      let outcome ← Eval.deeper m.depth (I.exec c.definition.body.statements m.heap.frames.size)
      checkPredicate c (← bodyResult c span outcome) span : Eval Value) (m.bound c values rest) := by
  have hchild : Eval.childFrame c.frame ("call:" ++ c.name) c.definition.isPure m =
      .ok m.heap.frames.size (m.withHeap (m.heap.adding [c.callFrame []])) := by
    rw [hpure]
    exact childFrame_adding _ _ _
  have hbind : bindParameters c m.heap.frames.size args span (m.withHeap (m.heap.adding [c.callFrame []])) =
      .ok () (m.bound c values rest) := by
    rw [bindParameters_eq hb]
    exact bindArgument_boundTo values rest
  show (if m.settings.callLimit.count ≤ m.depth then _ else _ : Eval Value) m = _
  rw [if_neg (Nat.not_le.2 hd), bind_ok hchild, bind_ok hbind]

/-- The result of a call by the way its body ended. -/
theorem callClosure_ends {r : Except Exit Value} (hd : m.depth < m.settings.callLimit.count)
    (hpure : c.definition.isPure = false) (hb : bindings c.definition args = some (boundTo values rest))
    (hchecks : I.checkConstraints c m.heap.frames.size span (m.bound c values rest) = .ok () m₁)
    (hbody : (I.exec c.definition.body.statements m.heap.frames.size).EndsBy (m₁.withDepth (m.depth + 1)) r m₂) :
    I.callClosure c args span m =
      (bodyResult c span r >>= fun v => checkPredicate c v span) (m₂.withDepth m.depth) := by
  rw [callClosure_eq hd hpure hb, bind_ok hchecks, bind_ok (deeper_ends hbody)]

/-- A call that gives a value was below the limit, and its parameters could be bound. -/
theorem callClosure_ok (h : I.callClosure c args span m = .ok v m₂) :
    m.depth < m.settings.callLimit.count ∧ ∃ bound, bindings c.definition args = some bound := by
  have hd : m.depth < m.settings.callLimit.count := by
    refine Nat.lt_of_not_le fun hle => ?_
    have hlimit : I.callClosure c args span m = (Eval.failWith .recursion ("maximum call depth (" ++
        m.settings.callLimit.shown ++ ") exceeded in " ++ c.name ++ "()") span : Eval Value) m := by
      show (if m.settings.callLimit.count ≤ m.depth then _ else _ : Eval Value) m = _
      rw [if_pos hle]
    rw [hlimit] at h
    cases h
  refine ⟨hd, ?_⟩
  cases hb : bindings c.definition args with
  | some bound => exact ⟨bound, rfl⟩
  | none =>
    obtain ⟨frame, m', hchild⟩ : ∃ frame m', Eval.childFrame c.frame ("call:" ++ c.name) c.definition.isPure m =
        .ok frame m' := ⟨_, _, rfl⟩
    obtain ⟨e, hbind⟩ : ∃ e, bindParameters c frame args span m' = .error e m' := by
      rw [bindParameters, hb]
      exact ⟨_, rfl⟩
    have hfail : I.callClosure c args span m = .error e m' := by
      show (if m.settings.callLimit.count ≤ m.depth then _ else _ : Eval Value) m = _
      rw [if_neg (Nat.not_le.2 hd), bind_ok hchild, bind_error hbind]
    rw [hfail] at h
    cases h

theorem apply_closure {f : Value} {i : Nat} (hf : f.payload = .function i) (hc : m.heap.closures[i]? = some c) :
    I.apply f args span m = I.callClosure c args span m := by
  have hheap : Eval.heap m = .ok m.heap m := rfl
  rw [apply, hf]
  dsimp only
  rw [bind_ok hheap, hc]

/-- A function that is not there gives null. -/
theorem apply_missing {f : Value} {i : Nat} (hf : f.payload = .function i) (hc : m.heap.closures[i]? = none) :
    I.apply f args span m = (pure .null : Eval Value) m := by
  have hheap : Eval.heap m = .ok m.heap m := rfl
  rw [apply, hf]
  dsimp only
  rw [bind_ok hheap, hc]

theorem call_function {n i : Nat} (hc : m.heap.closures[i]? = some c) :
    (ofLevel (n + 1)).call (.plain (.function i)) args span m = (ofLevel n).callClosure c args span m := by
  show (ofLevel n).apply (.plain (.function i)) args span m = _
  exact apply_closure rfl hc

end Interp

end ScriptEngine

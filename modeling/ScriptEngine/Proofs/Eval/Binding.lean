import ScriptEngine.Proofs.Eval.Calling

/-!
# Arguments and parameters

What a call binds its parameters to, in a frame that binds nothing else.

* **Lists of arguments** (`padded`): there are as many as there are parameters, with nulls for those that are
  missing.
* `bindings_eq`: what each parameter is bound to, in the order in which the parameters are bound.
* `call_binds_arguments`: without a variadic parameter the arguments are bound one by one, and there may not be too
  many; with one, the arguments are what the parameters are bound to, in the order of their declaration.
-/

namespace ScriptEngine

/-- As many arguments as are asked for at least, with nulls behind the others. -/
def padded (n : Nat) (args : List Value) : List Value := args ++ List.replicate (n - args.length) .null

/-- A frame binds each of some names to its value, and nothing else. -/
def Frame.BindsExactly (f : Frame) (values : List (Text × Value)) : Prop :=
  ∀ n v, f.bindings.get? n = some v ↔ ∃ x ∈ values, n = some x.1 ∧ v = x.2

/-- The names of the parameters in the order of their declaration. -/
def FunctionDef.parameterNames (f : FunctionDef) : List Text := f.parameters.map (·.name)

variable {values values' : List (Text × Value)} {f : Frame} {args : List Value} {names : List Text} {k n : Nat}

/-! ## Frames -/

/-- Names that do not repeat are bound in a frame that binds nothing yet. -/
theorem Frame.bindsExactly_binding (hf : f.bindings = .empty) (hnames : (values.map Prod.fst).Nodup) :
    (f.binding values).BindsExactly values := by
  have hentries : (f.binding values).bindings = .ofList (values.map fun x => (some x.1, x.2)) := by
    rw [OrderedMap.ofList, List.foldl_map, ← hf]
    rfl
  have hnodup : ((values.map fun x => ((some x.1 : BindingName), x.2)).map Prod.fst).Nodup := by
    have hmap := hnames.map (f := fun n : Text => (some n : BindingName)) fun _ _ => Option.some.inj
    rwa [List.map_map] at hmap ⊢
  intro n v
  rw [hentries, OrderedMap.get?_eq_some_iff, OrderedMap.entries_ofList hnodup, List.mem_map]
  simp only [Prod.mk.injEq, eq_comm]

/-- The order in which names are bound makes no difference. -/
theorem Frame.BindsExactly.perm (h : f.BindsExactly values) (hp : values.Perm values') : f.BindsExactly values' :=
  fun n v => (h n v).trans (by simp only [hp.mem_iff])

/-! ## Lists of arguments -/

theorem length_padded (h : args.length ≤ n) : (padded n args).length = n := by
  simp [padded, h]

theorem padded_of_length_le (h : n ≤ args.length) : padded n args = args := by
  simp [padded, Nat.sub_eq_zero_of_le h]

theorem getD_padded (n i : Nat) (args : List Value) : (padded n args).getD i .null = args.getD i .null := by
  simp only [padded, List.getD_eq_getElem?_getD, List.getElem?_append, List.getElem?_replicate]
  split
  · rfl
  · next h =>
    rw [List.getElem?_eq_none (Nat.not_lt.1 h)]
    split <;> rfl

/-- Parameters that take the arguments in order get nulls when there are too few. -/
theorem positional_eq (ps : List Parameter) (args : List Value) :
    positional ps args = ((ps.map (·.name)).zip (padded ps.length args)).map fun x => (x.1, .one x.2) := by
  refine List.ext_getElem (by simp [positional, padded]; omega) fun i hi hi' => ?_
  have hlt : i < (padded ps.length args).length := by
    simp only [List.length_map, List.length_zip] at hi'
    omega
  have hget : (padded ps.length args)[i] = args.getD i .null := by
    rw [← getD_padded ps.length, List.getD_eq_getElem?_getD, List.getElem?_eq_getElem hlt, Option.getD_some]
  simp [positional, hget]

/-! ## What parameters are bound to -/

section

variable {f : FunctionDef} {leading trailing : List Text}

/-- The arguments that the variadic parameter takes between others. -/
def spread (before after : Nat) (args : List Value) : List Value :=
  (args.drop before).take (args.length - before - after)

/-- What the parameters before the variadic one are bound to. -/
def frontOf (before : Nat) (args : List Value) : List Value := (padded before args).take before

/-- What the parameters behind the variadic one are bound to. -/
def backOf (before after : Nat) (args : List Value) : List Value :=
  padded after ((args.drop before).drop (args.length - before - after))

theorem length_frontOf : (frontOf k args).length = k := by
  simp [frontOf, padded]
  omega

theorem length_backOf : (backOf k n args).length = n :=
  length_padded (by simp; omega)

/-- Where there are arguments for all parameters, they are what the parameters are bound to. -/
theorem front_spread_back (h : k + n ≤ args.length) : frontOf k args ++ spread k n args ++ backOf k n args = args := by
  have hfront : frontOf k args = args.take k := by rw [frontOf, padded_of_length_le (by omega)]
  have hback : backOf k n args = (args.drop k).drop (args.length - k - n) :=
    padded_of_length_le (by simp; omega)
  rw [hfront, hback, spread, List.append_assoc, List.take_append_drop, List.take_append_drop]

/-- Where there are too few, none are left for the variadic parameter, and the others get nulls behind them. -/
theorem front_back_of_lt (h : args.length < k + n) :
    spread k n args = [] ∧ frontOf k args ++ backOf k n args = padded (k + n) args := by
  have hrest : args.length - k - n = 0 := by omega
  refine ⟨by rw [spread, hrest, List.take_zero], ?_⟩
  rw [backOf, hrest, List.drop_zero, padded, frontOf, List.length_drop]
  by_cases hk : k ≤ args.length
  · rw [padded_of_length_le hk, ← List.append_assoc, List.take_append_drop, padded]
    congr 2
    omega
  · have hfront : (padded k args).take k = args ++ List.replicate (k - args.length) .null := by
      rw [List.take_of_length_le (Nat.le_of_eq (length_padded (by omega))), padded]
    rw [hfront, List.drop_of_length_le (by omega), List.nil_append, List.append_assoc, ← List.replicate_add, padded]
    congr 2
    omega

theorem variadicIndex?_eq_none (h : variadicName ∉ f.parameterNames) : f.variadicIndex? = none := by
  rw [FunctionDef.variadicIndex?, List.findIdx?_eq_none_iff]
  intro p hp
  have hne : p.name ≠ variadicName := fun he => h (he ▸ List.mem_map_of_mem hp)
  simpa using hne

/-- The parameters around the variadic one. -/
theorem parameters_split (h : f.parameterNames = leading ++ variadicName :: trailing) (hl : variadicName ∉ leading) :
    f.variadicIndex? = some leading.length ∧ (f.parameters.take leading.length).map (·.name) = leading ∧
      (f.parameters.drop (leading.length + 1)).map (·.name) = trailing := by
  obtain ⟨ps, rest, hps, rfl, hrest⟩ := List.map_eq_append_iff.1 h
  obtain ⟨p, ps', rfl, hp, rfl⟩ := List.map_eq_cons_iff.1 hrest
  have hlen : (ps.map (·.name)).length = ps.length := List.length_map ..
  have hnot : ∀ q ∈ ps, ¬ decide (q.name = variadicName) = true := fun q hq he =>
    hl (of_decide_eq_true he ▸ List.mem_map_of_mem hq)
  rw [hlen]
  refine ⟨?_, by rw [hps, List.take_left], by rw [hps]; simp⟩
  rw [FunctionDef.variadicIndex?, hps, List.findIdx?_append, List.findIdx?_eq_none_iff.2 (by simpa using hnot)]
  simp [List.findIdx?_cons, hp]

theorem bindings_of_none (h : variadicName ∉ f.parameterNames) (args : List Value) :
    bindings f args = if f.parameterNames.length < args.length then none else
      some (boundTo (f.parameterNames.zip (padded f.parameterNames.length args)) none) := by
  unfold bindings
  rw [variadicIndex?_eq_none h]
  simp only [FunctionDef.parameterNames, List.length_map, positional_eq, boundTo]

/-- Around the variadic parameter the others are bound first. -/
theorem bindings_of_variadic (h : f.parameterNames = leading ++ variadicName :: trailing) (hl : variadicName ∉ leading)
    (args : List Value) :
    bindings f args = some (boundTo
      (leading.zip (frontOf leading.length args) ++ trailing.zip (backOf leading.length trailing.length args))
      (some (spread leading.length trailing.length args))) := by
  obtain ⟨hi, hleading, htrailing⟩ := parameters_split h hl
  have hlen : (f.parameters.take leading.length).length = leading.length := by
    rw [← List.length_map (f := (·.name)), hleading]
  have hlen' : (f.parameters.drop (leading.length + 1)).length = trailing.length := by
    rw [← List.length_map (f := (·.name)), htrailing]
  have hzip : leading.zip (padded leading.length args) = leading.zip (frontOf leading.length args) := by
    refine List.ext_getElem (by simp [frontOf]) fun i _ _ => ?_
    simp [frontOf]
  unfold bindings
  rw [hi]
  simp only [positional_eq, hlen, hlen', hleading, htrailing, hzip, boundTo, List.map_append, List.length_drop]
  rfl

end

/-! ## The frame of a call -/

/-- The frame of a call, in which nothing is bound yet. -/
def Closure.newFrame (c : Closure) : Frame :=
  { parent := some c.frame, name := "call:" ++ c.name, isPure := c.definition.isPure }

namespace Machine

variable {m : Machine} {leading trailing : List Text} {front back rest : List Value}

theorem grown_boundIn (m : Machine) (f : Frame) (values : List (Text × Value)) (rest : Option (List Value)) :
    m.Grown (m.boundIn f values rest) := by
  cases rest with
  | none => exact m.grown_adding _
  | some rest => exact (m.grown_newArray rest.toArray).trans (Machine.grown_adding _ _)

/-- Parameters without a variadic one are bound in a further frame. -/
theorem bindsExactly_ones (hf : f.bindings = .empty) (hnames : (values.map Prod.fst).Nodup) :
    ((m.boundIn f values none).heap.frame m.heap.frames.size).BindsExactly values := by
  have hframe : (m.boundIn f values none).heap.frame m.heap.frames.size = f.binding values := Heap.frame_adding_size
  rw [hframe]
  exact Frame.bindsExactly_binding hf hnames

/-- Parameters around the variadic one are bound in a further frame. That it is bound last makes no difference. -/
theorem bindsExactly_around (hf : f.bindings = .empty) (hnames : (leading ++ variadicName :: trailing).Nodup)
    (hfront : front.length = leading.length) (hback : back.length = trailing.length) :
    ((m.boundIn f (leading.zip front ++ trailing.zip back) (some rest)).heap.frame m.heap.frames.size).BindsExactly
      (leading.zip front ++ (variadicName, .plain (.array m.heap.arrays.size)) :: trailing.zip back) := by
  have hperm (x : Text × Value) : (leading.zip front ++ trailing.zip back ++ [x]).Perm
      (leading.zip front ++ x :: trailing.zip back) := by
    rw [List.append_assoc]
    exact (List.perm_append_singleton x _).append_left _
  have hframe : (m.boundIn f (leading.zip front ++ trailing.zip back) (some rest)).heap.frame m.heap.frames.size =
      f.binding (leading.zip front ++ trailing.zip back ++ [(variadicName, .plain (.array m.heap.arrays.size))]) :=
    Heap.frame_adding_size (h := (m.heap.newArray rest.toArray).2)
  rw [hframe]
  refine (Frame.bindsExactly_binding hf ?_).perm (hperm _)
  refine ((hperm _).map Prod.fst).nodup_iff.2 ?_
  rw [List.map_append, List.map_cons, List.map_fst_zip (Nat.le_of_eq hfront.symm),
    List.map_fst_zip (Nat.le_of_eq hback.symm)]
  exact hnames

end Machine

namespace Interp

open Eval

variable {c : Closure} {m : Machine} {span : Option Span} {rest : Option (List Value)}

/-- The frame of a call is opened and the parameters are bound in it. -/
def openCall (c : Closure) (args : List Value) (span : Option Span) : Eval Unit := do
  bindParameters c (← Eval.childFrame c.frame ("call:" ++ c.name) c.definition.isPure) args span

theorem openCall_eq (c : Closure) (args : List Value) (span : Option Span) (m : Machine) :
    openCall c args span m =
      bindParameters c m.heap.frames.size args span (m.withHeap (m.heap.adding [c.newFrame])) :=
  bind_ok (childFrame_adding _ _ _)

/-- A call that is not too deep opens its frame first, and goes on in it. -/
theorem callClosure_openCall {I : Interp} (hdepth : m.depth < m.settings.callLimit.count) :
    I.callClosure c args span m = (do
      openCall c args span
      I.checkConstraints c m.heap.frames.size span
      let outcome ← Eval.deeper m.depth (I.exec c.definition.body.statements m.heap.frames.size)
      checkPredicate c (← bodyResult c span outcome) span : Eval Value) m := by
  have hopen := childFrame_adding c.frame ("call:" ++ c.name) c.definition.isPure (m := m)
  rw [callClosure, get_bind, if_neg (Nat.not_le.2 hdepth), bind_ok hopen, openCall, bind_assoc, bind_ok hopen]

theorem openCall_ok (hb : bindings c.definition args = some (boundTo values rest)) :
    openCall c args span m = .ok () (m.boundIn c.newFrame values rest) := by
  rw [openCall_eq, bindParameters_eq hb]
  exact bindArgument_boundIn rfl values rest

theorem openCall_error (hb : bindings c.definition args = none) :
    ∃ f m', openCall c args span m = .error (.failed (.fault f)) m' ∧ f.kind = .arity := by
  rw [openCall_eq, bindParameters, hb]
  exact ⟨_, _, rfl, rfl⟩

/-- The parameters of a call are bound in a frame of its own, each to its argument and to null if there is none, and
nothing else is bound there. Without a variadic parameter it is an arity error if there are more arguments than
parameters. With one there is no error: the arguments are what the parameters before it, the array in its new cell
and the parameters behind it are bound to, in the order of their declaration; if there are too few for the others,
the array is empty and the others get them in order, with nulls behind them. -/
theorem call_binds_arguments (c : Closure) (args : List Value) (span : Option Span) (m : Machine)
    (hnames : c.definition.parameterNames.Nodup) :
    let names := c.definition.parameterNames
    let frame := m.heap.frames.size
    let run := openCall c args span m
    (variadicName ∉ names →
      ((∃ f m', run = .error (.failed (.fault f)) m' ∧ f.kind = .arity) ↔ names.length < args.length) ∧
      (args.length ≤ names.length → ∃ m', run = .ok () m' ∧ m.Grown m' ∧ m'.heap.arrays = m.heap.arrays ∧
        (m'.heap.frame frame).BindsExactly (names.zip (padded names.length args)))) ∧
    (∀ leading trailing, names = leading ++ variadicName :: trailing →
      ∃ front items back m', run = .ok () m' ∧ m.Grown m' ∧ m'.heap.arrays = m.heap.arrays.push items.toArray ∧
        front.length = leading.length ∧ back.length = trailing.length ∧
        (m'.heap.frame frame).BindsExactly (leading.zip front ++
          (variadicName, .plain (.array m.heap.arrays.size)) :: trailing.zip back) ∧
        (leading.length + trailing.length ≤ args.length → front ++ items ++ back = args) ∧
        (args.length < leading.length + trailing.length →
          items = [] ∧ front ++ back = padded (leading.length + trailing.length) args)) := by
  intro names frame run
  constructor
  · intro hvariadic
    have hb := bindings_of_none hvariadic args
    by_cases hlt : names.length < args.length
    · rw [if_pos hlt] at hb
      exact ⟨iff_of_true (openCall_error hb) hlt, fun hle => absurd hlt (Nat.not_lt.2 hle)⟩
    · rw [if_neg hlt] at hb
      have hrun : run = .ok () _ := openCall_ok hb
      refine ⟨iff_of_false ?_ hlt, fun hle => ⟨_, hrun, m.grown_boundIn _ _ _, rfl, ?_⟩⟩
      · rintro ⟨f, m', hf, -⟩
        rw [hrun] at hf
        cases hf
      · have hfst : (names.zip (padded names.length args)).map Prod.fst = names :=
          List.map_fst_zip (Nat.le_of_eq (length_padded hle).symm)
        exact Machine.bindsExactly_ones rfl (hfst.symm ▸ hnames)
  · intro leading trailing hsplit
    have hsplit : c.definition.parameterNames = leading ++ variadicName :: trailing := hsplit
    rw [hsplit] at hnames
    have hl : variadicName ∉ leading := fun hmem => (List.nodup_append.1 hnames).2.2 _ hmem _ (.head _) rfl
    exact ⟨frontOf leading.length args, spread leading.length trailing.length args,
      backOf leading.length trailing.length args, _, openCall_ok (bindings_of_variadic hsplit hl args),
      m.grown_boundIn _ _ _, rfl, length_frontOf, length_backOf,
      Machine.bindsExactly_around rfl hnames length_frontOf length_backOf, front_spread_back, front_back_of_lt⟩

/-- The function `func (a, __args__, b) {}`. -/
def betweenTwo : Closure :=
  ⟨⟨default, none, [("a" : Text), variadicName, "b"].map (⟨default, ·, none, []⟩), default, [], false⟩, 0⟩

/-- Of three arguments the one in the middle is left for the variadic parameter. -/
theorem call_binds_arguments_middle : betweenTwo.definition.parameterNames.Nodup ∧
    ∃ m', openCall betweenTwo [.number 1, .number 2, .number 3] none default = .ok () m' ∧
      m'.heap.arrays = #[#[.number 2]] ∧
      (m'.heap.frame 0).BindsExactly [("a", .number 1), (variadicName, .plain (.array 0)), ("b", .number 3)] := by
  have hnames : betweenTwo.definition.parameterNames.Nodup := by decide
  refine ⟨hnames, ?_⟩
  obtain ⟨front, items, back, m', hrun, -, harrays, hfront, hback, hbinds, hall, -⟩ :=
    (call_binds_arguments betweenTwo [.number 1, .number 2, .number 3] none default hnames).2 ["a"] ["b"] rfl
  obtain ⟨x, rfl⟩ := List.length_eq_one_iff.1 hfront
  obtain ⟨y, rfl⟩ := List.length_eq_one_iff.1 hback
  have hargs : x :: (items ++ [y]) = .number 1 :: ([.number 2] ++ [.number 3]) := hall (by decide)
  obtain ⟨rfl, hrest⟩ := List.cons.inj hargs
  obtain ⟨rfl, hlast⟩ := List.append_inj' hrest rfl
  obtain ⟨rfl, -⟩ := List.cons.inj hlast
  exact ⟨m', hrun, harrays, hbinds⟩

end Interp

end ScriptEngine

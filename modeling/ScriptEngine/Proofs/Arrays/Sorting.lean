import ScriptEngine.Proofs.Arrays.Building

/-!
# Sorting

The plain form of `sort` gives a new array if the order has no effects: it changes the copy alone, and variables
of the rounds of its loops.

* **Sinking** (`Sinking`): where an element is swapped with those before it. The variable that counts its places is
  bound in the frame of the round.
* **Swapping** (`Swapping`): where two elements are swapped, in a block inside the round.
-/

namespace ScriptEngine

namespace Heap

variable {h h₀ h' : Heap} {B G i owner : Nat} {name : Text} {span : Option Span} {w : Value}

/-- A variable of a frame is assigned there from a frame inside it, unless the inner frame has it as well. -/
theorem assignable_child (hp : (h.frame B).parent = some G)
    (hbound : (h.frame G).bindings.contains (some name) = true) (ho : h.assignable B name span = .ok owner) :
    owner = B ∨ owner = G := by
  have hresolve : h.resolve B name span = .ok owner := by
    unfold assignable at ho
    cases hr : h.resolve B name span with
    | error fault =>
      rw [hr] at ho
      cases ho
    | ok found =>
      rw [hr] at ho
      change (if h.isConstant found (some name) then _ else _) = _ at ho
      split at ho
      · cases ho
      · exact ho
  have hfrom {crossed : Bool} (hr : h.resolveFrom name span crossed G = .ok owner) : owner = G := by
    rw [resolveFrom, if_pos hbound] at hr
    split at hr
    · cases hr
    · cases hr
      rfl
  rw [resolve, resolveFrom] at hresolve
  split at hresolve
  · split at hresolve
    · cases hresolve
    · cases hresolve
      exact .inl rfl
  · rw [hp] at hresolve
    simp only at hresolve
    split at hresolve
    · exact .inr (hfrom hresolve)
    · cases hresolve

theorem parent_bind {n : BindingName} {c : Bool} : ((h.bind i n w c).frame B).parent = (h.frame B).parent := by
  rw [bind, frame_modifyFrame]
  split <;> rfl

/-- What is bound stays bound. -/
theorem contains_bind {n n' : BindingName} {c : Bool} (hbound : (h.frame G).bindings.contains n = true) :
    ((h.bind i n' w c).frame G).bindings.contains n = true := by
  rw [bind, frame_modifyFrame]
  split
  · rw [OrderedMap.contains_eq_isSome, OrderedMap.get?_insert]
    split
    · rfl
    · rw [← OrderedMap.contains_eq_isSome, hbound]
  · exact hbound

theorem contains_bind_self {c : Bool} {n : BindingName} (hG : G < h.frames.size) :
    ((h.bind G n w c).frame G).bindings.contains n = true := by
  rw [bind, frame_modifyFrame, if_pos ⟨rfl, hG⟩, OrderedMap.contains_eq_isSome, OrderedMap.get?_insert, if_pos rfl]
  rfl

theorem Builds.bind {n : BindingName} (hb : h₀.Builds h h') (h₀i : h₀.frames.size ≤ i) (hi : h.frames.size ≤ i) :
    h₀.Builds h (h'.bind i n w false) :=
  ⟨hb.toAdds.bind hi, hb.kept.bind h₀i, hb.arrays_le⟩

end Heap

namespace ArrayLibrary

open Eval Interp

variable {L : Layout} {n F G B i j k : Nat} {m m' : Machine} {known known' : Text → Value → Prop} {p : Nat → Span}
  {arr v w out before : Value} {args : List Value} {span : Option Span} {h₀ h h' : Heap} {R : Value → Machine → Prop}
  {name : Text} {e l r : Expr} {I : Interp} {s : Span} {J : Machine → Prop}

namespace Building

theorem mono (hb : Building L h₀ F known out k h) (hsub : ∀ {n v}, known' n v → known n v)
    (hnative : known' "native" L.nativesValue) (hout : known' "out" out) : Building L h₀ F known' out k h where
  start := hb.start
  adds := hb.adds
  outer := hb.outer
  site := ⟨hb.site.lt, hb.site.free, fun name v hv => hb.site.knows name v (hsub hv)⟩
  native := hnative
  kept := hb.kept
  result := hout
  cell := hb.cell
  new := hb.new
  lt := hb.lt

/-- A name may be bound to something else than the result. -/
theorem bind (hb : Building L h₀ F known out k h) (hnative : "native" ≠ name) (hout : "out" ≠ name) :
    Building L h₀ F (Binding name v known) out k (h.bind F (some name) v false) where
  toInside := hb.toInside.bind hnative
  kept := hb.kept.bind hb.outer
  result := .inr ⟨hout, hb.result⟩
  cell := hb.cell
  new := hb.new
  lt := hb.lt

/-- A name may be bound that is not among the known ones, in a frame that was added. -/
theorem bindOther (hb : Building L h₀ F known out k h) (hname : ∀ v, ¬known name v) (hi : h₀.frames.size ≤ i) :
    Building L h₀ F known out k (h.bind i (some name) w false) where
  start := hb.start
  adds := hb.adds.bind hi
  outer := hb.outer
  site :=
    { lt := by rw [Heap.size_bind]; exact hb.site.lt
      free := by
        rw [Heap.bind, Heap.frame_modifyFrame]
        split <;> exact hb.site.free
      knows := fun other v hv span => by
        have hne : other ≠ name := fun he => hname v (he ▸ hv)
        rw [Heap.lookup_bind_of_ne hne]
        exact hb.site.knows other v hv span }
  native := hb.native
  kept := hb.kept.bind hi
  result := hb.result
  cell := hb.cell
  new := hb.new
  lt := hb.lt

end Building

/-- The names that the loops of a sort use apart from the variables of their rounds. -/
inductive SortNames (L : Layout) (out before : Value) : Text → Value → Prop
  | native : SortNames L out before "native" L.nativesValue
  | out : SortNames L out before "out" out
  | before : SortNames L out before "before" before

theorem not_sortNames (hnative : name ≠ "native") (hout : name ≠ "out") (hbefore : name ≠ "before") (v : Value) :
    ¬SortNames L out before name v := by
  rintro (_ | _ | _)
  · exact hnative rfl
  · exact hout rfl
  · exact hbefore rfl

/-- A place in the loop that swaps an element with those before it, in the frame of a round that began where the
heap was `h` or later. -/
structure Sinking (L : Layout) (h₀ h : Heap) (G : Nat) (out before : Value) (k : Nat) (m : Machine) : Prop extends
    Building L h₀ G (SortNames L out before) out k m.heap where
  since : h₀.Builds h m.heap
  frame_le : h.frames.size ≤ G
  counter : (m.heap.frame G).bindings.contains (some "j") = true

/-- A place in the block where two elements are swapped. -/
structure Swapping (L : Layout) (h₀ h : Heap) (G B : Nat) (out before : Value) (k : Nat) (m : Machine) : Prop extends
    Sinking L h₀ h G out before k m where
  inner : Building L h₀ B (SortNames L out before) out k m.heap
  inner_le : h.frames.size ≤ B
  parent : (m.heap.frame B).parent = some G

namespace Sinking

theorem later (hs : Sinking L h₀ h G out before k m) (hm : h₀.Builds m.heap m'.heap) :
    Sinking L h₀ h G out before k m' where
  toBuilding := hs.toBuilding.later hm
  since := hs.since.trans hm
  frame_le := hs.frame_le
  counter := by rw [hm.frame hs.site.lt, hs.counter]

theorem bind (hs : Sinking L h₀ h G out before k m) (hname : ∀ v, ¬SortNames L out before name v)
    (h₀i : h₀.frames.size ≤ i) (hi : h.frames.size ≤ i) :
    Sinking L h₀ h G out before k (m.withHeap (m.heap.bind i (some name) w false)) where
  toBuilding := hs.toBuilding.bindOther hname h₀i
  since := hs.since.bind h₀i hi
  frame_le := hs.frame_le
  counter := Heap.contains_bind hs.counter

end Sinking

namespace Swapping

theorem later (hs : Swapping L h₀ h G B out before k m) (hm : h₀.Builds m.heap m'.heap) :
    Swapping L h₀ h G B out before k m' where
  toSinking := hs.toSinking.later hm
  inner := hs.inner.later hm
  inner_le := hs.inner_le
  parent := by rw [hm.frame hs.inner.site.lt, hs.parent]

/-- A variable of the block or of the round gets a value. -/
theorem bind (hs : Swapping L h₀ h G B out before k m) (hname : ∀ v, ¬SortNames L out before name v)
    (hi : i = B ∨ i = G) : Swapping L h₀ h G B out before k (m.withHeap (m.heap.bind i (some name) w false)) := by
  have h₀i : h₀.frames.size ≤ i := by
    obtain rfl | rfl := hi
    · exact hs.inner.outer
    · exact hs.outer
  have hle : h.frames.size ≤ i := by
    obtain rfl | rfl := hi
    · exact hs.inner_le
    · exact hs.frame_le
  exact ⟨hs.toSinking.bind hname h₀i hle, hs.inner.bindOther hname h₀i, hs.inner_le,
    Heap.parent_bind.trans hs.parent⟩

end Swapping

/-! ## Swapping two elements -/

theorem onlyReads_previous : OnlyReads (previous p i) := .arith onlyReads_ref (.literal _ _)

namespace Swapping

variable (hs : Swapping L h₀ h G B out before k m)

include hs

/-- A variable of the block. -/
theorem leads_declare (he : OnlyReads e) (hname : ∀ v, ¬SortNames L out before name v) :
    ((ofLevel n).stmt (declare p i name e) B).Leads m (fun _ m' => Swapping L h₀ h G B out before k m') R := by
  have hstmt : (ofLevel n).stmt (declare p i name e) B = (do
      let v ← (ofLevel n).eval e B
      Eval.define B (some name) v false (some (p i))
      return v : Eval Value) := rfl
  rw [hstmt]
  refine (leads_reads hs.inner he).bind fun v m₁ h₁ => ?_
  have hs₁ := hs.later h₁
  have hdefine : (Eval.define B (some name) v false (some (p i))).Leads m₁
      (fun _ m' => Swapping L h₀ h G B out before k m') R :=
    leads_heap (leads_ite (fun _ => leads_fail) fun _ => leads_of_ok rfl (hs₁.bind hname (.inl rfl)))
  exact hdefine.bind fun _ m₂ h₂ => leads_pure h₂

omit hs in
theorem leads_setAt (hb : Building L h₀ F known out k m.heap) {index : Value} :
    (Eval.setAt out index v s).Leads m (fun _ m' => h₀.Builds m.heap m'.heap) R := by
  unfold Eval.setAt
  rw [hb.cell]
  refine leads_readHeap.bind ?_
  rintro place m' ⟨rfl, -⟩
  exact leads_of_ok rfl ((Heap.Builds.refl hb.kept).modifyArray hb.new _)

/-- An element of the result gets a value. -/
theorem leads_setElement {index : Expr} (hindex : OnlyReads index) (he : OnlyReads e) :
    ((ofLevel (n + 2)).stmt (run p i (.assign s (element p j (ref p j' "out") index) .set e)) B).Leads m
      (fun _ m' => Swapping L h₀ h G B out before k m') R := by
  have htarget : ((ofLevel (n + 1)).target (element p j (ref p j' "out") index) B).Leads m
      (fun place m' => (∃ iv, place = .index out iv (p j)) ∧ h₀.Builds m.heap m'.heap) R :=
    leads_bind_ok (eval_ref hs.inner.site.knows .out) <|
      (leads_reads hs.inner hindex).bind fun iv m₁ h₁ => leads_pure ⟨⟨iv, rfl⟩, h₁⟩
  refine htarget.bind ?_
  rintro _ m₁ ⟨⟨iv, rfl⟩, h₁⟩
  have hs₁ := hs.later h₁
  refine Leads.bind (leads_reads hs₁.inner he) fun v m₂ h₂ => ?_
  have hs₂ := hs₁.later h₂
  exact (leads_setAt hs₂.inner).bind fun _ m₃ h₃ => leads_pure (hs₂.later h₃)

/-- The variable of the round is counted down. -/
theorem leads_countDown :
    ((ofLevel (n + 2)).stmt (run p i (.update s .decrement (ref p j "j") false)) B).Leads m
      (fun _ m' => Swapping L h₀ h G B out before k m') R := by
  have hstmt : (ofLevel (n + 2)).stmt (run p i (.update s .decrement (ref p j "j") false)) B =
      (ofLevel (n + 1)).update .decrement (ref p j "j") false s B := rfl
  rw [hstmt]
  refine leads_bind_ok rfl ?_
  refine leads_readHeap.bind ?_
  rintro current m' ⟨rfl, -⟩
  split
  · refine Leads.bind (Q := fun _ m' => Swapping L h₀ h G B out before k m') ?_ fun _ m₁ h₁ => leads_pure h₁
    refine leads_readHeap.bind ?_
    rintro owner m' ⟨rfl, ho⟩
    exact leads_of_ok rfl (hs.bind (not_sortNames (by decide) (by decide) (by decide))
      (Heap.assignable_child hs.parent hs.counter ho))
  · exact leads_failWith

/-- The statements that swap two elements. -/
theorem leads_swap : ((ofLevel (n + 3)).exec (swap p i) B).Leads m
    (fun _ m' => Swapping L h₀ h G B out before k m') R := by
  refine leads_exec_cons (hs.leads_declare (.index onlyReads_ref onlyReads_ref)
    (not_sortNames (by decide) (by decide) (by decide))) fun _ m₁ h₁ => ?_
  refine leads_exec_cons (h₁.leads_setElement onlyReads_ref (.index onlyReads_ref onlyReads_previous)) fun _ m₂ h₂ => ?_
  refine leads_exec_cons (h₂.leads_setElement onlyReads_previous onlyReads_ref) fun _ m₃ h₃ => ?_
  exact h₃.leads_countDown (i := i + 22)

end Swapping

/-! ## Loops -/

theorem leads_logical {op : LogicalOp} (hl : (I.eval l F).Leads m (fun _ m' => J m') R)
    (hr : ∀ m', J m' → (I.eval r F).Leads m' (fun _ m'' => J m'') R) :
    (I.logical l op r F).Leads m (fun _ m' => J m') R := by
  have hoperand {side : Text} {e : Expr} {m : Machine} (he : (I.eval e F).Leads m (fun _ m' => J m') R) :
      (I.logicalOperand op side e F).Leads m (fun _ m' => J m') R := by
    refine he.bind fun v m' hm' => ?_
    cases v.payload <;> first | exact leads_pure hm' | exact leads_failWith
  refine (hoperand hl).bind fun x m₁ h₁ => leads_ite (fun _ => leads_pure h₁) fun _ => ?_
  exact (hoperand (hr m₁ h₁)).bind fun _ m₂ h₂ => leads_pure h₂

namespace Sinking

variable (hs : Sinking L h₀ h G out before k m)

include hs

/-- The block where two elements are swapped. -/
theorem leads_block : ((ofLevel (n + 3)).block ⟨s, swap p i⟩ G).Leads m
    (fun _ m' => Sinking L h₀ h G out before k m') R := by
  refine ArrayLibrary.leads_block hs.toBuilding fun m₁ hb h₁ hparent => ?_
  have hinner : Building L h₀ m.heap.frames.size (SortNames L out before) out k m₁.heap :=
    hb.mono (fun hv => .inr ⟨rfl, hv⟩) .native .out
  have hswap : Swapping L h₀ h G m.heap.frames.size out before k m₁ :=
    ⟨hs.later h₁, hinner, hs.since.frames_le, hparent⟩
  exact hswap.leads_swap.mono (fun _ _ h' => h'.toSinking) fun _ _ h' => h'

/-- The loop that swaps an element with those before it. -/
theorem leads_sink (heffect : h.Effectless before) :
    ((ofLevel (n + 4)).stmt (sink p i) G).Leads m (fun _ m' => Sinking L h₀ h G out before k m') R := by
  refine leads_rounds (J := fun m' => Sinking L h₀ h G out before k m') hs (fun m₁ h₁ => ?_)
    (fun m₁ h₁ => h₁.leads_block) _
  refine Leads.bind (leads_condition (leads_logical ?_ fun m₂ h₂ => ?_)) fun _ m₂ h₂ => leads_pure h₂
  · exact (leads_reads h₁.toBuilding (.compare onlyReads_ref (.literal _ _))).mono
      (fun _ _ h' => h₁.later h') fun _ _ h' => h'
  · refine (leads_callNamed h₂.toBuilding .before (heffect.adds h₂.since.toAdds) ?_).mono
      (fun _ _ h' => h₂.later h') fun _ _ h' => h'
    simp only [List.mem_cons, List.not_mem_nil, or_false, forall_eq_or_imp, forall_eq]
    exact ⟨.index onlyReads_ref onlyReads_ref, .index onlyReads_ref onlyReads_previous⟩

end Sinking

theorem leads_progression {r : RangeParts} (hm : h.Extends m.heap) (hstart : OnlyReads r.start)
    (hstop : OnlyReads r.stop) (hstep : r.step = none) : ((ofLevel n).progression r none F).Leads m h.Kept R := by
  have hbound {e : Expr} {what : Text} {m : Machine} (hm : h.Extends m.heap) (he : OnlyReads e) :
      (do let v ← (ofLevel n).eval e F
          Eval.readHeap fun _ => rangeNumber v what r.span : Eval Int).Leads m h.Kept R :=
    Leads.bind (leads_eval hm he n F) fun _ m₁ h₁ => leads_reading h₁
  unfold progression
  rw [hstep]
  refine (hbound hm hstart).bind fun start m₁ h₁ => (hbound h₁ hstop).bind fun stop m₂ h₂ => ?_
  refine Leads.bind (Q := h.Kept) (leads_pure h₂) fun step m₃ h₃ => ?_
  dsimp only
  split
  · exact leads_pure h₃
  · exact leads_failWith

section

variable (hb : Building L h₀ F known out k m.heap)

include hb

/-- A round of the loop over the elements that are sunk. -/
theorem leads_sortRound (hbefore : known "before" before) (heffect : m.heap.Effectless before) {item : Value} :
    ((ofLevel (n + 5)).forRound none "i" ⟨s, [declare p i "j" (ref p j "i"), sink p j']⟩ F v item).Leads m
      (fun _ m' => h₀.Builds m.heap m'.heap) R := by
  refine leads_forRound hb (by decide) (by decide) fun {m₁} hb₁ h₁ => ?_
  have hround : Building L h₀ m.heap.frames.size (SortNames L out before) out k m₁.heap := by
    refine hb₁.mono (fun hv => ?_) .native .out
    cases hv with
    | native => exact roundFrame_other (by decide) hb.native
    | out => exact roundFrame_other (by decide) hb.result
    | before => exact roundFrame_other (by decide) hbefore
  have hj : ∀ v, ¬SortNames L out before "j" v := not_sortNames (by decide) (by decide) (by decide)
  refine leads_exec_cons (Q := fun _ m₂ => Sinking L h₀ m.heap m.heap.frames.size out before k m₂) ?_
    fun _ m₂ h₂ => (h₂.leads_sink heffect).mono (fun _ _ h' => h'.since) fun _ _ h' => h'
  have hstmt : (ofLevel (n + 4)).stmt (declare p i "j" (ref p j "i")) m.heap.frames.size = (do
      let v ← (ofLevel (n + 4)).eval (ref p j "i") m.heap.frames.size
      Eval.define m.heap.frames.size (some "j") v false (some (p i))
      return v : Eval Value) := rfl
  rw [hstmt]
  refine leads_bind_ok (eval_ref hb₁.site.knows roundFrame_element) ?_
  have hdefine : (Eval.define m.heap.frames.size (some "j") item false (some (p i))).Leads m₁
      (fun _ m₂ => Sinking L h₀ m.heap m.heap.frames.size out before k m₂) R :=
    leads_heap (leads_ite (fun _ => leads_fail) fun _ => leads_of_ok rfl
      ⟨hround.bindOther hj hround.outer, h₁.bind hround.outer (Nat.le_refl _), Nat.le_refl _,
        Heap.contains_bind_self hround.site.lt⟩)
  exact hdefine.bind fun _ m₂ h₂ => leads_pure h₂

/-- The loop that sorts the result. -/
theorem leads_sortLoop (hbefore : known "before" before) (heffect : m.heap.Effectless before) {start stop : Expr}
    (hstart : OnlyReads start) (hstop : OnlyReads stop) :
    ((ofLevel (n + 6)).stmt (loopOver p i "i" (.range s start stop true false none)
      [declare p j "j" (ref p k' "i"), sink p j']) F).Leads m (fun _ m' => h₀.Builds m.heap m'.heap) R := by
  refine Leads.bind (leads_progression (.refl m.heap) hstart hstop rfl) fun q m₁ h₁ => ?_
  have hm₁ : h₀.Builds m.heap m₁.heap := (Heap.Builds.refl hb.kept).grow h₁
  refine leads_forNumbers hm₁ fun index item m₂ h₂ => ?_
  exact (leads_sortRound (hb.later h₂) hbefore (heffect.adds h₂.toAdds)).mono (fun _ _ h' => h₂.trans h')
    fun _ _ h' => h'

/-- The result is returned before the loop if there is nothing to sort. -/
theorem leads_returnResult {body : List Stmt} (hbody : body = [.returnValue s (some (ref p i "out"))]) :
    ((ofLevel (n + 2)).exec body F).Leads m (fun _ m' => h₀.Builds m.heap m'.heap) (Fresh h₀) := by
  subst hbody
  have hexec : (ofLevel (n + 2)).exec [.returnValue s (some (ref p i "out"))] F m = .error (.returned out s) m := by
    have hstmt : (ofLevel (n + 2)).exec [.returnValue s (some (ref p i "out"))] F = (do
        Eval.exit (.returned (← (ofLevel (n + 1)).eval (ref p i "out") F) s) : Eval Value) := rfl
    rw [hstmt, bind_ok (eval_ref hb.site.knows hb.result)]
    rfl
  refine ⟨fun h => ?_, fun h => ?_⟩
  · rw [hexec] at h
    cases h
  · rw [hexec] at h
    cases h
    exact .inr ⟨_, _, rfl, hb.fresh⟩

end

/-- What stands for the order of a sort: the one that it was given, or the one that it takes otherwise. -/
def IsOrder (h : Heap) (less v : Value) : Prop :=
  v = less ∨ ∃ (i : Nat) (c : Closure), v = .plain (.function i) ∧ h.closures[i]? = some c ∧ OnlyComputes c.definition

theorem IsOrder.effectless {less : Value} (hv : IsOrder h less v) (hless : h.Effectless less) : h.Effectless v := by
  obtain rfl | ⟨i, c, rfl, hi, hc⟩ := hv
  · exact hless
  · exact effectless_function hi hc

theorem onlyComputes_ascending : OnlyComputes (ascending p i) where
  name := rfl
  parameters := by simp [ascending]
  whereClauses := rfl
  body := ⟨_, _, rfl, .compare onlyReads_ref onlyReads_ref⟩

section

variable (hb : Building L h₀ F known out k m.heap)

include hb

/-- The order is declared. -/
theorem leads_declareOrder {less : Value} (hless : known "less" less) {test : Expr} (htest : OnlyReads test)
    {s₁ s₂ : Span} :
    ((ofLevel (n + 4)).stmt (declare p i "before" (.ifElse s test ⟨s₁, [run p j (.function (ascending p j'))]⟩
      (some (.block ⟨s₂, [run p k' (ref p k'' "less")]⟩)))) F).Leads m
      (fun _ m' => ∃ before, Building L h₀ F (Binding "before" before known) out k m'.heap ∧
        IsOrder m'.heap less before) R := by
  have horder : ((ofLevel (n + 4)).eval (.ifElse s test ⟨s₁, [run p j (.function (ascending p j'))]⟩
      (some (.block ⟨s₂, [run p k' (ref p k'' "less")]⟩))) F).Leads m
      (fun v m' => h₀.Builds m.heap m'.heap ∧ IsOrder m'.heap less v) R := by
    refine (leads_condition (J := fun m' => h₀.Builds m.heap m'.heap) (leads_reads hb htest)).bind
      fun _ m₁ h₁ => leads_ite (fun _ => ?_) fun _ => ?_
    · refine leads_block (hb.later h₁) fun m₂ hb₂ h₂ _ => ?_
      refine leads_of_ok (eval_function (n := n + 1) rfl rfl) ⟨(h₁.trans h₂).grow (Heap.extends_newClosure _ _), .inr ?_⟩
      exact ⟨_, _, rfl, Array.getElem?_push_size, onlyComputes_ascending⟩
    · refine leads_block (hb.later h₁) fun m₂ hb₂ h₂ _ => ?_
      exact leads_of_ok (eval_ref (n := n) hb₂.site.knows (.inr ⟨rfl, hless⟩)) ⟨h₁.trans h₂, .inl rfl⟩
  refine Leads.bind horder fun before m₁ h₁ => ?_
  have hb₁ := hb.later h₁.1
  have hdefine : (Eval.define F (some "before") before false (some (p i))).Leads m₁
      (fun _ m' => Building L h₀ F (Binding "before" before known) out k m'.heap ∧ IsOrder m'.heap less before) R :=
    leads_heap (leads_ite (fun _ => leads_fail) fun _ => leads_of_ok rfl ⟨hb₁.bind (by decide) (by decide), h₁.2⟩)
  exact hdefine.bind fun _ m₂ h₂ => leads_pure ⟨before, h₂⟩

end

theorem leads_sort {m₁ : Machine} {id d : Nat} (hl : L.LoadedIn m.heap) (hf : ∀ f ∈ args, m.heap.Effectless f)
    (harr : arr.payload = .array id) (hs : Starts L (.plain .sort) p arr args m m₁) :
    ((ofLevel (n + 8)).exec (Operation.sort.plainBody p) m.heap.frames.size).Leads (m₁.withDepth d) (Fresh m.heap)
      (Fresh m.heap) := by
  have hi : Inside L m.heap m.heap.frames.size (callKnown L (.plain .sort) p arr args m) m₁.heap := hs.inside hl
  have hb := Building.of_declared (m := m₁.withDepth d) hi hs.kept (m₁.heap.array id)
    (rfl : (copyOf m₁ arr).payload = .array m₁.heap.arrays.size)
  refine leads_exec_cons (leads_of_ok (stmt_declareCopy (m := m₁.withDepth d) hi callKnown_array harr)
    (Q := fun _ m₂ => Building _ _ _ _ _ _ m₂.heap) hb) fun _ m₂ hb₂ => ?_
  refine leads_exec_cons (Q := fun _ m₃ => m.heap.Builds m₂.heap m₃.heap)
    (leads_when hb₂ (leads_reads hb₂ (.compare (.unary onlyReads_ref) (.literal _ _)))
      fun hb' => leads_returnResult hb' rfl) fun _ m₃ h₃ => ?_
  have hb₃ := hb₂.later h₃
  refine leads_exec_cons (leads_declareOrder hb₃ (.inr ⟨by decide, .inl rfl⟩)
    (.compare onlyReads_ref (.literal _ _))) fun _ m₄ h₄ => ?_
  obtain ⟨before, hb₄, horder⟩ := h₄
  have heffect := horder.effectless ((effectless_argument hf 0).adds hb₄.adds)
  refine leads_exec_cons (Q := fun _ m₅ => m.heap.Builds m₄.heap m₅.heap)
    (leads_sortLoop hb₄ (.inl ⟨rfl, rfl⟩) heffect (.literal _ _) (.unary onlyReads_ref)) fun _ m₅ h₅ => ?_
  exact leads_result (hb₄.later h₅)

end ArrayLibrary

end ScriptEngine

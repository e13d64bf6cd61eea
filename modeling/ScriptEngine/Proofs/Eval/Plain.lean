import ScriptEngine.Eval.Statement
import ScriptEngine.Proofs.Eval.Contract
import ScriptEngine.Proofs.Value.Shift

/-!
# Plain evaluations

An evaluation is **plain** (`Eval.IsPlain`) if it runs no script code and touches no binding: it may
change cells and what is outside of the script and give out tags, but it leaves the functions, the frames,
the modules, the settings and the call depth as they are, and it ends by no jump. It does not look at frames
either: further ones make no difference to it. What it does outside of the script lasts (`Machine.Lasts`): listeners
stay with their events, and a stream that is listened to stays so.

A plain evaluation respects every contract (`Eval.IsPlain.keeps`). Most of what constructs and native
functions do apart from evaluating their parts is plain; there is a rule for each way to build an
evaluation, and a lemma for each operation.
-/

namespace ScriptEngine

/-- The functions and the frames of two heaps are the same. -/
structure Heap.CellsOnly (h h' : Heap) : Prop where
  closures : h'.closures = h.closures
  frames : h'.frames = h.frames

/-- What a plain evaluation may do to the machine. -/
structure Machine.Plain (m m' : Machine) : Prop extends m.Local m' where
  frames : m'.heap.frames = m.heap.frames

theorem Machine.Plain.of_heap_eq {m m' : Machine} (hs : m'.settings = m.settings)
    (hh : m'.heap = m.heap) (hd : m'.depth = m.depth) (hm : m'.modules = m.modules)
    (ht : m'.tries = m.tries) : m.Plain m' :=
  ⟨.of_heap_eq hs hh hd hm ht, by rw [hh]⟩

theorem Machine.Plain.refl (m : Machine) : m.Plain m := .of_heap_eq rfl rfl rfl rfl rfl

theorem Machine.Plain.trans {m m' m'' : Machine} (h : m.Plain m') (h' : m'.Plain m'') : m.Plain m'' where
  settings := h'.settings.trans h.settings
  closures := h'.closures.trans h.closures
  depth := h'.depth.trans h.depth
  frames := h'.frames.trans h.frames
  modules := h'.modules.trans h.modules
  tries := h'.tries.trans h.tries

/-- The listeners that an event of an emitter has. -/
def Machine.listeners (m : Machine) (id : Nat) (event : Text) : List Value :=
  (m.emitters.getD id default).listenersOf event

/-- What lasts from a machine on: listeners are added behind those that an event has, and a stream that is listened to
stays so, unless it is replaced by one with an emitter of its own. -/
structure Machine.Lasts (m m' : Machine) : Prop where
  emitters_le : m.emitters.size ≤ m'.emitters.size
  listeners : ∀ id event, m.listeners id event <+: m'.listeners id event
  stream : m'.stream.emitter = m.stream.emitter ∧ (m.stream.listening = true → m'.stream.listening = true) ∨
    m.emitters.size ≤ m'.stream.emitter

namespace Machine.Lasts

variable {m m' m'' : Machine}

theorem of_eq (he : m'.emitters = m.emitters) (hs : m'.stream.emitter = m.stream.emitter)
    (hl : m'.stream.listening = m.stream.listening) : m.Lasts m' where
  emitters_le := by rw [he]
  listeners id event := by rw [Machine.listeners, Machine.listeners, he]
  stream := .inl ⟨hs, fun h => hl.trans h⟩

theorem refl (m : Machine) : m.Lasts m := .of_eq rfl rfl rfl

theorem trans (h : m.Lasts m') (h' : m'.Lasts m'') : m.Lasts m'' where
  emitters_le := Nat.le_trans h.emitters_le h'.emitters_le
  listeners id event := (h.listeners id event).trans (h'.listeners id event)
  stream := by
    obtain ⟨he', hl'⟩ | hnew' := h'.stream
    · obtain ⟨he, hl⟩ | hnew := h.stream
      · exact .inl ⟨he'.trans he, fun hm => hl' (hl hm)⟩
      · exact .inr (by rwa [he'])
    · exact .inr (Nat.le_trans h.emitters_le hnew')

/-- A stream may become one that is listened to. -/
theorem listening (m : Machine) : m.Lasts { m with stream := { m.stream with listening := true } } where
  emitters_le := Nat.le_refl _
  listeners _ _ := List.prefix_rfl
  stream := .inl ⟨rfl, fun _ => rfl⟩

end Machine.Lasts

namespace Eval

variable {α β ι : Type} {x : Eval α} {f : α → Eval β} {m m' : Machine} {e : Exit} {xs : List ι}

/-- An evaluation that runs no script code, and neither looks at a binding nor touches one, from a machine. -/
structure PlainAt (m : Machine) (x : Eval α) : Prop where
  after : m.Plain (Eval.after x m)
  lasts : m.Lasts (Eval.after x m)
  jump : ∀ {e m'}, x m = .error e m' → e.jump? = none
  blind : ∀ s : Shift, x (m.shifted s) = s.carry id (x m)

/-- An evaluation that runs no script code, and neither looks at a binding nor touches one. -/
structure IsPlain (x : Eval α) : Prop where
  after : ∀ m : Machine, m.Plain (Eval.after x m)
  lasts : ∀ m : Machine, m.Lasts (Eval.after x m)
  jump : ∀ {m e m'}, x m = .error e m' → e.jump? = none
  blind : ∀ (s : Shift) (m : Machine), x (m.shifted s) = s.carry id (x m)

theorem isPlain_of_plainAt (hx : ∀ m, PlainAt m x) : x.IsPlain :=
  ⟨fun m => (hx m).after, fun m => (hx m).lasts, fun h => (hx _).jump h, fun s m => (hx m).blind s⟩

theorem IsPlain.plainAt (hx : x.IsPlain) (m : Machine) : PlainAt m x :=
  ⟨hx.after m, hx.lasts m, hx.jump, fun s => hx.blind s m⟩

theorem IsPlain.lasts_of_ok {a : α} (hx : x.IsPlain) (h : x m = .ok a m') : m.Lasts m' :=
  after_of_ok h ▸ hx.lasts m

/-- A plain evaluation respects every contract. -/
theorem IsPlain.keeps {C : Contract} (hx : x.IsPlain) : C.Keeps x := by
  refine Contract.keeps_of_accepts fun m hm => ?_
  have hp := hx.after m
  cases h : x m with
  | ok a m' =>
    rw [after_of_ok h] at hp
    exact ⟨C.holds_of_local hp.toLocal hm, C.step_of_follows hp.follows⟩
  | error e m' =>
    rw [after_of_error h] at hp
    exact ⟨C.holds_of_local hp.toLocal hm, C.step_of_follows hp.follows,
      C.exits_plain (hx.jump h)⟩

/-! ## Rules -/

@[simp] theorem isPlain_pure {a : α} : (pure a : Eval α).IsPlain := ⟨.refl, .refl, nofun, fun _ _ => rfl⟩

theorem isPlain_exit (he : e.jump? = none) : (exit e : Eval α).IsPlain :=
  ⟨.refl, .refl, fun h => by cases h; exact he, fun _ _ => rfl⟩

theorem isPlain_modifyGet {f : Machine → α × Machine} (hf : ∀ m : Machine, m.Plain (f m).2)
    (hl : ∀ m : Machine, m.Lasts (f m).2)
    (hb : ∀ (s : Shift) (m : Machine), f (m.shifted s) = ((f m).1, (f m).2.shifted s) ) :
    (modifyGet f : Eval α).IsPlain where
  after := hf
  lasts := hl
  jump := nofun
  blind s m := by
    show EStateM.Result.ok (f (m.shifted s)).1 (f (m.shifted s)).2 = _
    rw [hb]
    rfl

theorem isPlain_modify {f : Machine → Machine} (hf : ∀ m : Machine, m.Plain (f m))
    (hl : ∀ m : Machine, m.Lasts (f m))
    (hb : ∀ (s : Shift) (m : Machine), f (m.shifted s) = (f m).shifted s ) :
    (modify f : Eval Unit).IsPlain :=
  isPlain_modifyGet (f := fun m => ((), f m)) hf hl fun s m => by rw [hb]

/-- A change of a machine, and a result that does not depend on it. -/
theorem plainAt_modify {f : Machine → Machine} {a : α} (hf : m.Plain (f m)) (hl : m.Lasts (f m))
    (hb : ∀ s : Shift, f (m.shifted s) = (f m).shifted s) : PlainAt m (modify f >>= fun _ => pure a) where
  after := hf
  lasts := hl
  jump := nofun
  blind s := by
    show EStateM.Result.ok a (f (m.shifted s)) = _
    rw [hb]
    rfl

/-- An evaluation that goes on from the machine that it has looked at, but not at its frames. -/
theorem isPlain_get_bindAt {k : Machine → Eval α} (hk : ∀ m, PlainAt m (k m))
    (hb : ∀ (s : Shift) (m : Machine), k (m.shifted s) = k m ) : (get >>= k).IsPlain :=
  isPlain_of_plainAt fun m =>
    { after := (hk m).after
      lasts := (hk m).lasts
      jump := (hk m).jump
      blind := fun s => by
        show k (m.shifted s) (m.shifted s) = _
        rw [hb, (hk m).blind]
        rfl }

/-- An evaluation that looks at the machine, but not at its frames. -/
theorem isPlain_get_bind {k : Machine → Eval α} (hk : ∀ m, (k m).IsPlain)
    (hb : ∀ (s : Shift) (m : Machine), k (m.shifted s) = k m ) : (get >>= k).IsPlain :=
  isPlain_get_bindAt (fun m => (hk m).plainAt m) hb

@[simp] theorem IsPlain.bind (hx : x.IsPlain) (hf : ∀ a, (f a).IsPlain) : (x >>= f).IsPlain := by
  constructor
  · intro m
    have hp := hx.after m
    cases h : x m with
    | ok a m' =>
      rw [after_of_ok h] at hp
      rw [after_bind_of_ok h]
      exact hp.trans ((hf a).after m')
    | error e m' =>
      rw [after_of_error h] at hp
      rw [after_bind_of_error h]
      exact hp
  · intro m
    have hp := hx.lasts m
    cases h : x m with
    | ok a m' =>
      rw [after_of_ok h] at hp
      rw [after_bind_of_ok h]
      exact hp.trans ((hf a).lasts m')
    | error e m' =>
      rw [after_of_error h] at hp
      rw [after_bind_of_error h]
      exact hp
  · intro m e m' h
    cases hm : x m with
    | ok a m₁ =>
      rw [bind_ok hm] at h
      exact (hf a).jump h
    | error e₁ m₁ =>
      rw [bind_error hm] at h
      cases h
      exact hx.jump hm
  · intro s m
    have hb := hx.blind s m
    cases h : x m with
    | ok a m' =>
      rw [h] at hb
      rw [bind_ok h, bind_ok hb]
      exact (hf a).blind s m'
    | error e m' =>
      rw [h] at hb
      rw [bind_error h, bind_error hb]
      rfl

@[simp] theorem IsPlain.map {k : α → β} (hx : x.IsPlain) : (k <$> x).IsPlain := by
  rw [map_eq_pure_bind]
  exact hx.bind fun _ => isPlain_pure

/-- What a plain evaluation does, it does also where its exit is taken care of. -/
theorem IsPlain.attempt (hx : x.IsPlain) : (attempt x).IsPlain where
  after m := by
    rw [after_attempt]
    exact hx.after m
  lasts m := by
    rw [after_attempt]
    exact hx.lasts m
  jump {m e m'} h := by
    unfold Eval.attempt at h
    split at h <;> cases h
  blind s m := by
    have hb := hx.blind s m
    cases h : x m with
    | ok a m' =>
      rw [h] at hb
      rw [attempt_ok h, attempt_ok hb]
      rfl
    | error e m' =>
      rw [h] at hb
      rw [attempt_error h, attempt_error hb]
      rfl

@[simp] theorem IsPlain.ite {p : Prop} [Decidable p] {y : Eval α} (ht : p → x.IsPlain)
    (hf : ¬ p → y.IsPlain) : (if p then x else y).IsPlain := by
  split
  · next h => exact ht h
  · next h => exact hf h

@[simp] theorem isPlain_unprintable {e : Unprintable} : (unprintable e : Eval α).IsPlain := isPlain_exit rfl

@[simp] theorem isPlain_fail {fault : Fault} : (fail fault : Eval α).IsPlain := isPlain_exit rfl

variable {kind : FaultKind} {message : Text} {span : Option Span}

@[simp] theorem isPlain_failWith : (failWith kind message span : Eval α).IsPlain := isPlain_fail

@[simp] theorem isPlain_crash {kind : HostFailureKind} : (crash kind message : Eval α).IsPlain :=
  isPlain_exit rfl

@[simp] theorem isPlain_mapM {f : ι → Eval α} (hf : ∀ i ∈ xs, (f i).IsPlain) :
    (xs.mapM f).IsPlain := by
  induction xs with
  | nil => exact isPlain_pure
  | cons i xs ih =>
    rw [List.mapM_cons]
    exact (hf i (.head _)).bind fun _ => (ih fun j hj => hf j (.tail _ hj)).bind fun _ => isPlain_pure

/-! ## The operations of the machine -/

theorem isPlain_heap_bind {k : Heap → Eval α} (hk : ∀ h, (k h).IsPlain)
    (hb : ∀ (s : Shift) (h : Heap), k (h.shifted s) = k h ) : (heap >>= k).IsPlain :=
  isPlain_get_bind (fun m => hk m.heap) fun s m => hb s m.heap

theorem isPlain_onHeap {f : Heap → α × Heap} (hf : ∀ h : Heap, h.CellsOnly (f h).2)
    (hb : ∀ (s : Shift) (h : Heap), f (h.shifted s) = s.shiftedResult (f h) ) :
    (onHeap f).IsPlain := by
  refine isPlain_modifyGet
    (fun m => ⟨⟨⟨rfl, (hf m.heap).closures, rfl, rfl⟩, rfl⟩, (hf m.heap).frames⟩) (fun _ => .of_eq rfl rfl rfl)
    fun s m => ?_
  show ((f (m.heap.shifted s)).1, { m.shifted s with heap := (f (m.heap.shifted s)).2 }) = _
  rw [hb]
  rfl

theorem isPlain_modifyHeap {f : Heap → Heap} (hf : ∀ h : Heap, h.CellsOnly (f h))
    (hb : ∀ (s : Shift) (h : Heap), f (h.shifted s) = (f h).shifted s ) :
    (modifyHeap f).IsPlain :=
  isPlain_onHeap hf fun s h => by rw [hb]; rfl

variable {v w : Value} {frame : Nat} {name : Text}

theorem isPlain_readHeap {f : Heap → Except Fault α}
    (hb : ∀ (s : Shift) (h : Heap), f (h.shifted s) = f h ) : (readHeap f).IsPlain := by
  refine isPlain_heap_bind (fun h => ?_) fun s h => by rw [hb]
  split <;> simp

theorem isPlain_readEndless {f : Heap → Option α}
    (hb : ∀ (s : Shift) (h : Heap), f (h.shifted s) = f h ) : (readEndless f).IsPlain := by
  refine isPlain_heap_bind (fun h => ?_) fun s h => by rw [hb]
  split <;> simp [endless]

theorem isPlain_readText {f : Heap → Except Unprintable Text}
    (hb : ∀ (s : Shift) (h : Heap), f (h.shifted s) = f h ) : (readText f).IsPlain := by
  refine isPlain_heap_bind (fun h => ?_) fun s h => by rw [hb]
  split <;> simp

@[simp] theorem isPlain_newArray {items : Array Value} : (newArray items).IsPlain :=
  isPlain_onHeap (fun _ => ⟨rfl, rfl⟩) fun _ _ => rfl

@[simp] theorem isPlain_newObject {entries : OrderedMap Text Value} : (newObject entries).IsPlain :=
  isPlain_onHeap (fun _ => ⟨rfl, rfl⟩) fun _ _ => rfl

@[simp] theorem isPlain_newTexts {ts : List Text} : (newTexts ts).IsPlain := isPlain_newArray

@[simp] theorem isPlain_display : (display v).IsPlain := isPlain_readText fun _ _ => by simp

@[simp] theorem isPlain_quotedForm : (quotedForm v).IsPlain := isPlain_readText fun _ _ => by simp

theorem isPlain_arithmetic {op : ArithOp} {place : Span} : (arithmetic op v w place).IsPlain :=
  .ite (fun _ => isPlain_unprintable) fun _ => isPlain_readHeap fun _ _ => by rw [Heap.arithmetic_shifted]

@[simp] theorem isPlain_equal : (equal v w).IsPlain :=
  isPlain_heap_bind (fun _ => isPlain_pure) fun _ _ => by rw [Heap.equal_shifted]

@[simp] theorem isPlain_freshTag : freshTag.IsPlain :=
  isPlain_modifyGet (fun _ => .of_heap_eq rfl rfl rfl rfl rfl) (fun _ => .of_eq rfl rfl rfl) fun _ _ => rfl

@[simp] theorem isPlain_write : (write message).IsPlain :=
  isPlain_modify (fun _ => .of_heap_eq rfl rfl rfl rfl rfl) (fun _ => .of_eq rfl rfl rfl) fun _ _ => rfl

@[simp] theorem isPlain_logError : (logError message).IsPlain :=
  isPlain_modify (fun m => by split <;> exact .of_heap_eq rfl rfl rfl rfl rfl)
    (fun m => by split <;> exact .of_eq rfl rfl rfl) fun s m => by
    show (if m.settings.logsErrors then _ else _) = _
    split <;> rfl

@[simp] theorem isPlain_arrayItems {id : Nat} : (arrayItems id).IsPlain :=
  isPlain_heap_bind (fun _ => isPlain_pure) fun _ _ => rfl

/-! ## Constructs that evaluate no part -/

section

variable {span : Span}

theorem isPlain_gathered {vs : List Value} : (gathered v vs).IsPlain := by
  unfold gathered
  split <;> simp

theorem isPlain_indexIn {depth : Nat} {i : Value} : (indexIn span depth v i).IsPlain := by
  induction depth generalizing i with
  | zero => exact isPlain_unprintable
  | succ n ih =>
    unfold indexIn
    split
    · exact isPlain_arrayItems.bind fun _ => (isPlain_mapM fun _ _ => ih).bind fun _ => isPlain_gathered
    · exact isPlain_arrayItems.bind fun _ => (isPlain_mapM fun _ _ => ih).bind fun _ => isPlain_gathered
    · exact isPlain_readHeap fun _ _ => rfl

theorem isPlain_index {i : Value} : (index v i span).IsPlain :=
  isPlain_heap_bind (fun _ => isPlain_indexIn) fun _ _ => rfl

theorem isPlain_setAt {i : Value} : (setAt v i w span).IsPlain := by
  unfold setAt
  split
  · exact (isPlain_readHeap fun _ _ => rfl).bind fun _ => isPlain_modifyHeap (fun _ => ⟨rfl, rfl⟩) fun _ _ => rfl
  · exact (isPlain_readHeap fun _ _ => rfl).bind fun _ => isPlain_modifyHeap (fun _ => ⟨rfl, rfl⟩) fun _ _ => rfl
  · exact isPlain_failWith

theorem isPlain_unary {op : UnaryOp} : (Interp.unary op v span).IsPlain := by
  unfold Interp.unary
  split <;> try simp
  refine isPlain_heap_bind (fun h => ?_) fun _ _ => rfl
  split <;> simp

theorem isPlain_picked {p : Progression} {i left : Nat} : (Interp.picked v p span i left).IsPlain := by
  induction left generalizing i with
  | zero => exact isPlain_pure
  | succ n ih => exact isPlain_index.bind fun _ => ih.bind fun _ => isPlain_pure

theorem isPlain_elements : (Interp.elements v span).IsPlain := by
  refine (isPlain_readEndless fun _ _ => by simp).bind fun target => isPlain_heap_bind (fun h => ?_) fun _ _ => rfl
  split <;> simp

end

theorem isPlain_caught : (Interp.caught? e).IsPlain := by
  cases e with
  | failed error =>
    cases error with
    | uncaught v s message => exact isPlain_pure
    | _ => exact (isPlain_onHeap (fun _ => ⟨rfl, rfl⟩) fun _ _ => rfl).bind fun _ => isPlain_pure
  | _ => exact isPlain_pure

theorem isPlain_outsideLoop {keyword : Text} {s : Span} : (outsideLoop keyword s : Eval α).IsPlain :=
  isPlain_failWith

theorem isPlain_checkPredicate {c : Closure} : (Interp.checkPredicate c v span).IsPlain := by
  unfold Interp.checkPredicate
  split
  · exact .ite (fun _ => isPlain_failWith) fun _ => isPlain_pure
  · exact isPlain_pure

theorem isPlain_construct {variant : VariantTag} {args : List Value} :
    (Interp.construct v variant args span).IsPlain := by
  unfold Interp.construct
  split <;> simp

theorem isPlain_resolveModule {path : Text} {importer : Option Text} :
    (resolveModule path importer span).IsPlain := by
  refine isPlain_get_bind (fun m => ?_) fun _ _ => rfl
  split <;> simp

theorem jump?_exit (source : Text) (e : SourceError) : (e.exit source).jump? = none := by
  unfold SourceError.exit
  split <;> rfl

theorem isPlain_parse {source : Text} {file : Option Text} : (parse source file).IsPlain := by
  unfold parse
  split
  · exact isPlain_pure
  · next e _ => exact isPlain_exit (jump?_exit source e)

theorem isPlain_freshVariants {enum : EnumTag} {names : List Text} :
    (Interp.freshVariants enum names).IsPlain := by
  induction names with
  | nil => exact isPlain_pure
  | cons name rest ih => exact isPlain_freshTag.bind fun _ => ih.bind fun _ => isPlain_pure

theorem isPlain_notExported {path : Text} {n : ExchangedName} {offered : List BindingName} :
    (Interp.notExported path n offered).IsPlain := by
  unfold Interp.notExported
  split <;> simp

end Eval

end ScriptEngine

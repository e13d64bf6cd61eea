import ScriptEngine.Native.Run
import ScriptEngine.Proofs.Eval.Plain

/-!
# Contracts of native functions

A native function that runs no script code is plain. The others run script code by the interpreter they
are given:

* **Callbacks** (`callWith`) are calls at the depth of the native function itself.
* **Threads** (`Native.startsThread`) run at a depth of their own, so what they run respects another
  contract that the one of the native function encloses.

`meets_nativeCall` says this of every native function.
-/

namespace ScriptEngine

namespace Heap

theorem CellsOnly.refl (h : Heap) : h.CellsOnly h := ⟨rfl, rfl⟩

theorem CellsOnly.trans {h h' h'' : Heap} (hc : h.CellsOnly h') (hc' : h'.CellsOnly h'') :
    h.CellsOnly h'' :=
  ⟨hc'.closures.trans hc.closures, hc'.frames.trans hc.frames⟩

theorem cellsOnly_shallowCopy (h : Heap) (v : Value) : h.CellsOnly (h.shallowCopy v).2 := by
  unfold shallowCopy
  split <;> exact ⟨rfl, rfl⟩

theorem cellsOnly_newArray (h : Heap) (items : Array Value) : h.CellsOnly (h.newArray items).2 :=
  ⟨rfl, rfl⟩

theorem cellsOnly_newObject (h : Heap) (entries : OrderedMap Text Value) :
    h.CellsOnly (h.newObject entries).2 :=
  ⟨rfl, rfl⟩

mutual

theorem cellsOnly_ofDatum (h : Heap) : ∀ d : Datum, h.CellsOnly (h.ofDatum d).2
  | .null | .bool _ | .number _ | .text _ | .handle _ => .refl h
  | .list items => (cellsOnly_ofData h items).trans (cellsOnly_newArray _ _)
  | .object members => (cellsOnly_ofMembers h members).trans (cellsOnly_newObject _ _)

theorem cellsOnly_ofData (h : Heap) : ∀ ds : List Datum, h.CellsOnly (h.ofData ds).2
  | [] => .refl h
  | d :: rest => (cellsOnly_ofDatum h d).trans (cellsOnly_ofData (h.ofDatum d).2 rest)

theorem cellsOnly_ofMembers (h : Heap) : ∀ ds : List (Text × Datum), h.CellsOnly (h.ofMembers ds).2
  | [] => .refl h
  | (_, d) :: rest => (cellsOnly_ofDatum h d).trans (cellsOnly_ofMembers (h.ofDatum d).2 rest)

end

end Heap

theorem Machine.plain_seed (m : Machine) (seed : Nat) : m.Plain { m with seed := seed } :=
  .of_heap_eq rfl rfl rfl rfl rfl

theorem Machine.lasts_seed (m : Machine) (seed : Nat) : m.Lasts { m with seed := seed } := .of_eq rfl rfl rfl

theorem Machine.listeners_eq {m : Machine} {id : Nat} {event : Text} {present : List Value}
    (h : (m.emitters.getD id default).listeners.get? event = some present) : m.listeners id event = present := by
  rw [Machine.listeners, Emitter.listenersOf, h]
  rfl

/-- Listeners are added to an event that an emitter has. -/
theorem Machine.listeners_insert {m : Machine} {id : Nat} {event : Text} {present : List Value}
    (h : (m.emitters.getD id default).listeners.get? event = some present) (added : List Value) (other : Nat)
    (name : Text) :
    Machine.listeners { m with emitters := m.emitters.setIfInBounds id { m.emitters.getD id default with
      listeners := (m.emitters.getD id default).listeners.insert event (present ++ added) } } other name =
        if other = id ∧ name = event then present ++ added else m.listeners other name := by
  have hin : id < m.emitters.size := by
    by_contra hout
    rw [Array.getD_eq_getD_getElem?, Array.getElem?_eq_none (Nat.le_of_not_lt hout)] at h
    cases h
  show Emitter.listenersOf ((m.emitters.setIfInBounds id _).getD other default) name = _
  rw [Array.getD_eq_getD_getElem?, Array.getElem?_setIfInBounds]
  by_cases hid : id = other
  · subst hid
    rw [if_pos rfl, if_pos hin, Option.getD_some, Emitter.listenersOf, OrderedMap.get?_insert]
    by_cases hname : name = event
    · rw [if_pos hname, if_pos ⟨rfl, hname⟩]
      rfl
    · rw [if_neg hname, if_neg fun hboth => hname hboth.2]
      rfl
  · rw [if_neg hid, if_neg fun hboth => hid hboth.1.symm, ← Array.getD_eq_getD_getElem?]
    rfl

/-- A listener that is added comes after those that the event has. -/
theorem Machine.lasts_listener {m : Machine} {id : Nat} {event : Text} {present added : List Value}
    (h : (m.emitters.getD id default).listeners.get? event = some present) :
    m.Lasts { m with emitters := m.emitters.setIfInBounds id { m.emitters.getD id default with
      listeners := (m.emitters.getD id default).listeners.insert event (present ++ added) } } where
  emitters_le := by simp
  listeners other name := by
    rw [Machine.listeners_insert h]
    split
    · next heq =>
      rw [heq.1, heq.2, Machine.listeners_eq h]
      exact List.prefix_append present added
    · exact List.prefix_rfl
  stream := .inl ⟨rfl, fun h => h⟩

namespace Eval

open Native

variable {α : Type} {f : Native} {position : Nat} {span : Option Span} {v : Value} {kind : FaultKind}
  {message : Text}

/-! ## Arguments -/

@[simp] theorem isPlain_reject : IsPlain (f.reject span kind message : Eval α) := isPlain_failWith

@[simp] theorem isPlain_wrongKind {expected : Kind} :
    IsPlain (f.wrongKind position span v expected : Eval α) := isPlain_reject

@[simp] theorem isPlain_wrongArity {count : Nat} : IsPlain (f.wrongArity count span : Eval α) :=
  isPlain_reject

@[simp] theorem isPlain_number : IsPlain (f.number position span v) := by
  unfold Native.number
  split <;> simp

@[simp] theorem isPlain_whole : IsPlain (f.whole position span v) := by
  refine isPlain_number.bind fun q => ?_
  split <;> simp

@[simp] theorem isPlain_text : IsPlain (f.text position span v) := by
  unfold Native.text
  split <;> simp

@[simp] theorem isPlain_arrayCell : IsPlain (f.arrayCell position span v) := by
  unfold Native.arrayCell
  split <;> simp

@[simp] theorem isPlain_itemsOf : IsPlain (f.arrayItems position span v) :=
  isPlain_arrayCell.bind fun _ => isPlain_arrayItems

@[simp] theorem isPlain_objectCell : IsPlain (f.objectCell position span v) := by
  unfold Native.objectCell
  split <;> simp

@[simp] theorem isPlain_referenceCell : IsPlain (f.referenceCell position span v) := by
  unfold Native.referenceCell
  split <;> simp

@[simp] theorem isPlain_byte : IsPlain (f.byte span v) := by
  refine (isPlain_readEndless fun _ _ => by simp).bind fun target => ?_
  split
  case h_3 => split <;> simp
  all_goals simp

@[simp] theorem isPlain_bytes : IsPlain (f.bytes position span v) :=
  isPlain_itemsOf.bind fun _ => isPlain_mapM fun _ _ => isPlain_byte

/-! ## Numbers, time and chance -/

@[simp] theorem isPlain_floorOf : IsPlain (floorOf span v) := isPlain_number.bind fun _ => isPlain_pure

@[simp] theorem isPlain_ceilOf : IsPlain (ceilOf span v) := isPlain_number.bind fun _ => isPlain_pure

@[simp] theorem isPlain_now : IsPlain now :=
  (isPlain_modifyGet (fun _ => .of_heap_eq rfl rfl rfl rfl rfl) (fun _ => .of_eq rfl rfl rfl) fun _ _ => rfl).bind
    fun _ => isPlain_pure

theorem isPlain_draw {bound : Nat} : IsPlain (draw bound) :=
  isPlain_modifyGet (fun m => m.plain_seed _) (fun m => m.lasts_seed _) fun s m => by
    have hseed : (m.shifted s).seed = m.seed := rfl
    simp only [hseed]
    rfl

@[simp] theorem isPlain_fraction : IsPlain fraction := isPlain_draw.bind fun _ => isPlain_pure

@[simp] theorem isPlain_between {low high : Value} : IsPlain (between span low high) :=
  isPlain_whole.bind fun _ => isPlain_whole.bind fun _ =>
    .ite (fun _ => isPlain_reject) fun _ => isPlain_draw.bind fun _ => isPlain_pure

@[simp] theorem isPlain_choice : IsPlain (choice span v) := by
  refine isPlain_itemsOf.bind fun items => ?_
  split
  · exact isPlain_reject
  · exact isPlain_draw.bind fun _ => isPlain_pure

/-! ## The console -/

@[simp] theorem isPlain_writeValues {separator ending : Text} {args : List Value} :
    IsPlain (writeValues separator ending args) :=
  (isPlain_mapM fun _ _ => isPlain_display).bind fun _ => isPlain_write.bind fun _ => isPlain_pure

@[simp] theorem isPlain_readInput {prompt : Option Value} : IsPlain (readInput prompt) := by
  unfold readInput
  extract_lets k
  have hk : ∀ u, IsPlain (k u) := fun _ =>
    .bind (isPlain_modifyGet (fun _ => .of_heap_eq rfl rfl rfl rfl rfl) (fun _ => .of_eq rfl rfl rfl) fun _ _ => rfl)
      fun _ => isPlain_pure
  split
  · exact isPlain_display.bind fun _ => isPlain_write.bind hk
  · exact hk ()

@[simp] theorem isPlain_clearScreen : IsPlain clearScreen := isPlain_write.bind fun _ => isPlain_pure

/-! ## Strings and patterns -/

@[simp] theorem isPlain_parseNumber : IsPlain (parseNumber span v) := by
  refine isPlain_text.bind fun t => ?_
  split <;> simp

@[simp] theorem isPlain_codeOf : IsPlain (codeOf span v) := by
  refine isPlain_text.bind fun t => ?_
  split <;> simp

@[simp] theorem isPlain_ofCode : IsPlain (ofCode span v) := by
  refine isPlain_whole.bind fun n => ?_
  split <;> simp

@[simp] theorem isPlain_unescaped : IsPlain (unescaped span v) := by
  refine isPlain_text.bind fun t => ?_
  split <;> simp

@[simp] theorem isPlain_splitString {separator : Value} : IsPlain (splitString span v separator) :=
  isPlain_text.bind fun _ => isPlain_text.bind fun _ => isPlain_newTexts

@[simp] theorem isPlain_patternError {intro source : Text} {e : Pattern.Error} :
    IsPlain (patternError f span intro source e : Eval α) := by
  cases e <;> simp [patternError]

@[simp] theorem isPlain_patternOf : IsPlain (f.patternOf span v) := by
  refine isPlain_text.bind fun source => ?_
  split <;> simp

@[simp] theorem isPlain_matchPattern {pattern : Value} : IsPlain (matchPattern span pattern v) :=
  isPlain_patternOf.bind fun _ => isPlain_text.bind fun _ => isPlain_pure

@[simp] theorem isPlain_replacePattern {pattern replacement : Value} :
    IsPlain (replacePattern span pattern v replacement) := by
  refine isPlain_patternOf.bind fun t => isPlain_text.bind fun _ => isPlain_text.bind fun source => ?_
  split <;> simp

/-! ## Arrays, objects and buffers -/

@[simp] theorem isPlain_pushTo {arr : Value} : IsPlain (pushTo span arr v) :=
  isPlain_arrayCell.bind fun _ =>
    .bind (isPlain_modifyHeap (fun _ => ⟨rfl, rfl⟩) fun _ _ => rfl) fun _ => isPlain_pure

@[simp] theorem isPlain_replaceItems {arr other : Value} : IsPlain (replaceItems span arr other) :=
  isPlain_arrayCell.bind fun _ => isPlain_arrayCell.bind fun _ => isPlain_heap_bind
    (fun _ => .bind (isPlain_modifyHeap (fun _ => ⟨rfl, rfl⟩) fun _ _ => rfl) fun _ => isPlain_pure) fun _ _ => rfl

@[simp] theorem isPlain_sliceOf {start : Value} {stop : Option Value} :
    IsPlain (sliceOf span v start stop) := by
  refine isPlain_whole.bind fun first => ?_
  extract_lets k
  have hk : ∀ last, IsPlain (k last) := by
    intro last
    unfold k
    split
    · exact isPlain_pure
    · exact isPlain_itemsOf.bind fun _ => isPlain_newArray
  split
  · exact isPlain_whole.bind fun _ => isPlain_pure.bind hk
  · exact isPlain_pure.bind hk

@[simp] theorem isPlain_reversed : IsPlain (reversed span v) := by
  unfold reversed
  split
  · exact isPlain_pure
  · exact isPlain_itemsOf.bind fun _ => isPlain_newArray

@[simp] theorem isPlain_elementsOf : IsPlain (elementsOf span v) := by
  refine (isPlain_readEndless fun _ _ => by simp).bind fun target => isPlain_heap_bind (fun h => ?_) fun _ _ => rfl
  split <;> simp

@[simp] theorem isPlain_keysOf : IsPlain (keysOf span v) :=
  isPlain_objectCell.bind fun _ => isPlain_heap_bind (fun _ => isPlain_newTexts) fun _ _ => rfl

@[simp] theorem isPlain_shallowCopy : IsPlain (Eval.onHeap (·.shallowCopy v)) :=
  isPlain_onHeap (fun h => h.cellsOnly_shallowCopy v) fun _ _ => Heap.shallowCopy_shifted

@[simp] theorem isPlain_deepCopy : IsPlain (Eval.onHeap (·.deepCopy v)) :=
  isPlain_onHeap (fun _ => by rw [Heap.deepCopy_eq]; exact ⟨rfl, rfl⟩) fun _ _ => Heap.deepCopy_shifted

@[simp] theorem isPlain_bufferValue {bytes : List Nat} : IsPlain (bufferValue bytes) := isPlain_newArray

@[simp] theorem isPlain_decodeBuffer : IsPlain (decodeBuffer span v) := by
  refine isPlain_bytes.bind fun bytes => ?_
  split <;> simp

@[simp] theorem isPlain_encodedText {t : Text} : IsPlain (encodedText t) := by
  unfold encodedText
  split <;> simp

@[simp] theorem isPlain_encodeBuffer : IsPlain (encodeBuffer span v) :=
  isPlain_text.bind fun _ => isPlain_encodedText.bind fun _ => isPlain_bufferValue

/-! ## Data, errors and references -/

@[simp] theorem isPlain_readJson : IsPlain (readJson span v) := by
  refine isPlain_text.bind fun document => ?_
  split
  · exact isPlain_reject
  · split
    · exact isPlain_reject
    · next datum _ =>
      exact isPlain_onHeap (fun h => h.cellsOnly_ofDatum datum) fun _ h => h.ofDatum_shifted datum

@[simp] theorem isPlain_writeJson : IsPlain (writeJson span v) := by
  refine (isPlain_readEndless fun _ _ => by simp).bind fun datum => ?_
  split <;> simp

@[simp] theorem isPlain_makeError {kind data : Option Value} : IsPlain (makeError span v kind data) := by
  refine isPlain_text.bind fun text => ?_
  extract_lets k
  have hk : ∀ typeName, IsPlain (k typeName) := fun _ => isPlain_onHeap (fun _ => ⟨rfl, rfl⟩) fun _ _ => rfl
  split
  · exact isPlain_text.bind hk
  · exact isPlain_pure.bind hk

@[simp] theorem isPlain_newRef : IsPlain (newRef v) := isPlain_onHeap (fun _ => ⟨rfl, rfl⟩) fun _ _ => rfl

@[simp] theorem isPlain_target : IsPlain (target span v) :=
  isPlain_heap_bind (fun _ => isPlain_referenceCell.bind fun _ => isPlain_pure) fun _ _ => rfl

@[simp] theorem isPlain_retarget {r : Value} : IsPlain (retarget span r v) :=
  isPlain_referenceCell.bind fun _ =>
    .bind (isPlain_modifyHeap (fun _ => ⟨rfl, rfl⟩) fun _ _ => rfl) fun _ => isPlain_pure

/-! ## Prototypes, tags and events -/

@[simp] theorem isPlain_prototype : IsPlain ((fun h : Heap => h.prototypeOf v) <$> Eval.heap) :=
  isPlain_heap_bind (k := fun h => pure (h.prototypeOf v)) (fun _ => isPlain_pure) fun _ _ => rfl

@[simp] theorem isPlain_arguments : IsPlain (get >>= fun m => newTexts m.settings.arguments) :=
  isPlain_get_bind (fun _ => isPlain_newTexts) fun _ _ => rfl

@[simp] theorem isPlain_namedPrototype : IsPlain (namedPrototype span v) := by
  refine isPlain_text.bind fun name => ?_
  split <;> simp

@[simp] theorem isPlain_withPrototype {proto : Value} : IsPlain (withPrototype span v proto) := by
  unfold withPrototype
  extract_lets k
  have hk : ∀ target, IsPlain (k target) := fun _ => .ite (fun _ => isPlain_pure) fun _ => isPlain_reject
  split
  · exact isPlain_heap_bind (fun _ => isPlain_pure.bind hk) fun _ _ => rfl
  · exact isPlain_pure.bind hk

@[simp] theorem isPlain_tagName : IsPlain (f.tagName span v) :=
  isPlain_text.bind fun _ => .ite (fun _ => isPlain_reject) fun _ => isPlain_pure

@[simp] theorem isPlain_tagOnce {name content : Value} : IsPlain (tagOnce span v name content) :=
  isPlain_tagName.bind fun _ => isPlain_text.bind fun _ =>
    .ite (fun _ => isPlain_reject) fun _ => isPlain_pure

@[simp] theorem isPlain_tagWith {name content : Value} : IsPlain (tagWith span v name content) :=
  isPlain_tagName.bind fun _ => isPlain_text.bind fun _ => isPlain_pure

@[simp] theorem isPlain_untag {name : Value} : IsPlain (untag span v name) :=
  isPlain_tagName.bind fun _ => isPlain_pure

@[simp] theorem isPlain_tagsOf : IsPlain (tagsOf v) := isPlain_get_bind (fun _ => isPlain_newObject) fun _ _ => rfl

@[simp] theorem isPlain_listenTo {emitter event : Value} : IsPlain (listenTo span emitter event v) := by
  unfold listenTo
  split
  · exact isPlain_reject
  · next id _ =>
    refine isPlain_text.bind fun name => .ite (fun _ => isPlain_reject) fun _ =>
      isPlain_get_bindAt (fun m => ?_) fun _ _ => rfl
    extract_lets e
    split
    · exact isPlain_failWith.plainAt m
    · next listeners hget =>
      exact plainAt_modify (.of_heap_eq rfl rfl rfl rfl rfl) (Machine.lasts_listener hget) fun _ => rfl

/-! ## Streams -/

@[simp] theorem isPlain_receive {limit : Int} : IsPlain (receive limit) := by
  refine isPlain_get_bindAt (fun m => ?_) fun _ _ => rfl
  extract_lets s
  split
  · exact isPlain_crash.plainAt m
  · split
    · exact isPlain_pure.plainAt m
    · exact plainAt_modify (.of_heap_eq rfl rfl rfl rfl rfl) (.of_eq rfl rfl rfl) fun _ => rfl

@[simp] theorem isPlain_readStream {size : Option Value} : IsPlain (readStream span size) := by
  unfold readStream
  extract_lets k
  have hk : ∀ limit, IsPlain (k limit) := fun _ => isPlain_receive.bind fun _ => isPlain_bufferValue
  split
  · exact isPlain_whole.bind hk
  · exact isPlain_pure.bind hk

@[simp] theorem isPlain_writeStream : IsPlain (writeStream span v) := by
  unfold writeStream
  extract_lets k
  have hk : ∀ bytes, IsPlain (k bytes) := by
    refine fun bytes => isPlain_get_bindAt (fun m => ?_) fun _ _ => rfl
    extract_lets s
    split
    · exact isPlain_crash.plainAt m
    · exact plainAt_modify (.of_heap_eq rfl rfl rfl rfl rfl) (.of_eq rfl rfl rfl) fun _ => rfl
  split
  · exact isPlain_encodedText.bind hk
  · exact isPlain_bytes.bind hk

@[simp] theorem isPlain_closeStream : IsPlain closeStream :=
  .bind (isPlain_modify (fun _ => .of_heap_eq rfl rfl rfl rfl rfl) (fun _ => .of_eq rfl rfl rfl) fun _ _ => rfl)
    fun _ => isPlain_pure

@[simp] theorem isPlain_connect {host port : Value} : IsPlain (connect span host port) :=
  isPlain_text.bind fun _ => isPlain_whole.bind fun _ => isPlain_reject

end Eval

/-! ## Natives that run script code -/

/-- A native function is plain and does the same by every interpreter, unless it is one of those that
call functions of the script. -/
theorem Native.run_cases (n : Native) (I J : Interp) (args : List Value) (span : Option Span) :
    (n.run I args span = n.run J args span ∧ (n.run J args span).IsPlain) ∨
    (n = .callFunction ∧ ∃ f xs, args = [f, xs]) ∨
    (n = .spawnThread ∧ ∃ f, args = [f]) ∨
    n = .streamListen := by
  unfold Native.run
  split <;> first
    | exact .inl ⟨rfl, by simp⟩
    | exact .inr (.inl ⟨rfl, _, _, rfl⟩)
    | exact .inr (.inr (.inl ⟨rfl, _, rfl⟩))
    | exact .inr (.inr (.inr rfl))

namespace Contract

open Eval Native

variable {C D : Contract} {span : Option Span} {v : Value}

/-- The calls of two interpreters do the same and respect the contract. -/
def Calls (C : Contract) (I J : Interp) : Prop :=
  ∀ f args span, C.Meets (I.call f args span) (J.call f args span)

variable {I J : Interp}

theorem Calls.callWith {g : Value} (hcall : C.Calls I J) :
    C.Meets (Native.callWith I span g v) (Native.callWith J span g v) :=
  isPlain_itemsOf.keeps.bind fun _ => hcall _ _ _

theorem Meets.logged {what : Text → Text} {x y : Eval Value} (hx : C.Meets x y) :
    C.Meets (Native.logged what x) (Native.logged what y) := by
  refine hx.attempt (fun _ => keeps_pure) fun e => ?_
  cases e with
  | thrown v s => exact isPlain_display.keeps.bind fun _ => isPlain_logError.keeps
  | failed error => exact isPlain_logError.keeps
  | _ => exact keeps_raising

theorem asThread_eq (x : Text → Eval Unit) : asThread x = (do
    let m ← get
    modify fun m => { m with threads := m.threads + 1, depth := 0 }
    let outcome ← Eval.attempt (get >>= fun m => x ("zephyr-" ++ Text.ofNat m.threads))
    modify fun m' => { m' with depth := m.depth }
    match outcome with
    | .error .exhausted => Eval.exit .exhausted
    | _ => return ()) := rfl

/-- What a thread does respects the contract of the thread, and the thread that of its starter. -/
theorem meets_asThread (B : C.Encloses D 0) {x y : Text → Eval Unit}
    (hx : ∀ name, D.Meets (x name) (y name)) : C.Meets (asThread x) (asThread y) := by
  rw [asThread_eq, asThread_eq]
  refine meets_get_bind fun m hm => ?_
  refine meets_enclosed B _ _ (E := fun _ => False) hm (fun _ => ⟨.of_heap_eq rfl rfl rfl rfl, rfl⟩)
    (fun _ => ⟨.of_heap_eq rfl rfl rfl rfl, rfl⟩) (keeps_get.bind fun _ => hx _).allowing
    (fun _ => keeps_pure) (fun _ h => h.elim) fun e _ => ?_
  cases e with
  | exhausted => exact keeps_exhausted
  | _ => exact keeps_pure

theorem meets_spawn (B : C.Encloses D 0) (hcall : D.Calls I J) :
    C.Meets (spawn I span v) (spawn J span v) :=
  .ite (fun _ => (meets_asThread B fun _ => (hcall _ _ _).logged).bind fun _ => keeps_pure)
    fun _ => isPlain_reject.keeps

theorem Calls.emit (hcall : C.Calls I J) {id : Nat} {event : Text} {args : List Value} :
    C.Meets (Native.emit I id event args) (Native.emit J id event args) :=
  keeps_get.bind fun _ => (meets_forM fun _ _ => (hcall _ _ _).logged).bind fun _ => keeps_pure

theorem Calls.pump (hcall : C.Calls I J) {id : Nat} (rounds : Nat) :
    C.Meets (Native.pump I id rounds) (Native.pump J id rounds) := by
  induction rounds with
  | zero => exact keeps_pure
  | succ n ih =>
    have hclose : C.Meets (do let _ ← Native.emit I id "close" [])
        (do let _ ← Native.emit J id "close" []) :=
      hcall.emit.bind fun _ => keeps_pure
    refine isPlain_receive.keeps.attempt (fun bytes => ?_) fun e => hclose.raising
    cases bytes with
    | nil => exact hclose
    | cons b bytes => exact isPlain_bufferValue.keeps.bind fun _ => hcall.emit.bind fun _ => ih

theorem meets_listenStream (B : C.Encloses D 0) (hcall : D.Calls I J) :
    C.Meets (listenStream I span) (listenStream J span) := by
  refine keeps_get.bind fun m => .ite (fun _ => isPlain_reject.keeps) fun _ => ?_
  refine .bind (keeps_modify fun _ => .of_heap_eq rfl rfl rfl rfl rfl) fun _ => ?_
  exact (meets_asThread B fun _ => hcall.pump _).bind fun _ => keeps_pure

end Contract

/-- Whether a native function runs what it calls as a thread. -/
def Native.startsThread : Native → Bool
  | .spawnThread | .streamListen => true
  | _ => false

namespace Contract

open Eval Native

variable {C : Contract} {I J : Interp} {n : Native} {args : List Value} {span : Option Span}

/-- What a native function does by two interpreters that do the same calls. -/
theorem meets_nativeRun
    (hcall : n.startsThread = false → C.Calls I J)
    (hthread : n.startsThread = true → ∃ D, C.Encloses D 0 ∧ D.Calls I J) :
    C.Meets (n.run I args span) (n.run J args span) := by
  obtain ⟨he, hp⟩ | ⟨rfl, f, xs, rfl⟩ | ⟨rfl, f, rfl⟩ | rfl := n.run_cases I J args span
  · rw [he]
    exact hp.keeps
  · exact (hcall rfl).callWith
  · exact (hthread rfl).elim fun D h => meets_spawn h.1 h.2
  · exact (hthread rfl).elim fun D h => meets_listenStream h.1 h.2

/-- A call of a native function by two interpreters that do the same calls. -/
theorem meets_nativeCall (hcall : n.startsThread = false → C.Calls I J)
    (hthread : n.startsThread = true → ∃ D, C.Encloses D 0 ∧ D.Calls I J) :
    C.Meets (n.call I args span) (n.call J args span) := by
  refine .ite (fun _ => isPlain_wrongArity.keeps) fun _ => ?_
  refine (meets_nativeRun hcall hthread).attempt (fun _ => keeps_pure) fun e => ?_
  cases e with
  | failed error =>
    cases error with
    | fault f => exact keeps_fail
    | _ => exact keeps_raising
  | crashed failure => exact .ite (fun _ => isPlain_reject.keeps) fun _ => keeps_raising
  | _ => exact keeps_raising

end Contract

end ScriptEngine

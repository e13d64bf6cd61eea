import ScriptEngine.Native.Run
import ScriptEngine.Proofs.Enum.Relay

/-!
# Variants in native functions

A native function that runs no script code relays variants: what it gives and what it leaves in the heap bears
variants of its arguments and of the heap.
-/

namespace ScriptEngine

variable {P : VariantTag → Prop}

theorem Machine.Only.reseeded {m : Machine} (hm : m.Only P) (seed : Nat) :
    m.Leads P P { m with seed := seed } :=
  .of_eq ⟨hm.heap, hm.listeners⟩ rfl rfl

theorem Emitter.only_listenersOf_insert {e : Emitter} {name : Text} {listeners : List Value} {v : Value}
    (he : ∀ event, AllOnly P (e.listenersOf event)) (hls : e.listeners.get? name = some listeners)
    (hv : v.Only P) (event : Text) :
    AllOnly P (Emitter.listenersOf ⟨e.events, e.listeners.insert name (listeners ++ [v])⟩ event) := by
  have hold : AllOnly P listeners := by
    have h := he name
    rwa [listenersOf, hls] at h
  rw [listenersOf, OrderedMap.get?_insert]
  split
  · exact List.forall_mem_append.2 ⟨hold, List.forall_mem_singleton.2 hv⟩
  · exact he event

/-- A change of one of the emitters. -/
theorem Emitter.forall_listenersOf_set {es : Array Emitter} {e : Emitter} {j : Nat}
    (hes : ∀ id event, AllOnly P ((es.getD id default).listenersOf event))
    (he : ∀ event, AllOnly P (e.listenersOf event)) (id : Nat) :
    ∀ event, AllOnly P (((es.setIfInBounds j e).getD id default).listenersOf event) :=
  forall_getD_set (S := fun e : Emitter => ∀ event, AllOnly P (e.listenersOf event)) hes he id

mutual

/-- Data that are read from a document have no handles. -/
theorem Json.only_toDatum : ∀ {j : Json} {d : Datum}, j.toDatum = .ok d → d.Only P
  | .null, _, h | .bool _, _, h | .whole _, _, h | .real _, _, h | .text _, _, h => by
    cases h
    constructor
  | .nonFinite _, _, h => nomatch h
  | .array _, _, h => by
    obtain ⟨ds, hds, hd⟩ := of_bind_eq_ok h
    cases hd
    exact .list (Json.only_itemsToData hds)
  | .object _, _, h => by
    obtain ⟨ds, hds, hd⟩ := of_bind_eq_ok h
    cases hd
    exact .object (Json.only_membersToData hds)

theorem Json.only_itemsToData : ∀ {js : List Json} {ds : List Datum}, Json.itemsToData js = .ok ds →
    ∀ d ∈ ds, d.Only P
  | [], _, h => by
    cases h
    exact nofun
  | _ :: _, _, h => by
    obtain ⟨d, hd, h⟩ := of_bind_eq_ok h
    obtain ⟨rest, hrest, h⟩ := of_bind_eq_ok h
    cases h
    exact List.forall_mem_cons.2 ⟨Json.only_toDatum hd, Json.only_itemsToData hrest⟩

theorem Json.only_membersToData : ∀ {js : List (Text × Json)} {ds : List (Text × Datum)},
    Json.membersToData js = .ok ds → ∀ d ∈ ds, d.2.Only P
  | [], _, h => by
    cases h
    exact nofun
  | (_, _) :: _, _, h => by
    obtain ⟨d, hd, h⟩ := of_bind_eq_ok h
    obtain ⟨rest, hrest, h⟩ := of_bind_eq_ok h
    cases h
    exact List.forall_mem_cons.2 ⟨Json.only_toDatum hd, Json.only_membersToData hrest⟩

end

namespace Eval

open Native

variable {α : Type} {R : α → Prop} {f : Native} {position : Nat} {span : Option Span}
  {v w : Value} {kind : FaultKind} {message : Text}

/-! ## Arguments -/

@[simp] theorem relays_reject : Relays P R (f.reject span kind message : Eval α) := relays_failWith

@[simp] theorem relays_wrongKind {expected : Kind} :
    Relays P R (f.wrongKind position span v expected : Eval α) := relays_reject

@[simp] theorem relays_wrongArity {count : Nat} : Relays P R (f.wrongArity count span : Eval α) :=
  relays_reject

theorem relays_number : Relays P (fun _ => True) (f.number position span v) := by
  unfold Native.number
  split <;> simp

theorem relays_whole : Relays P (fun _ => True) (f.whole position span v) := by
  refine relays_number.bind fun q _ => ?_
  split <;> simp

theorem relays_text : Relays P (fun _ => True) (f.text position span v) := by
  unfold Native.text
  split <;> simp

theorem relays_arrayCell : Relays P (fun _ => True) (f.arrayCell position span v) := by
  unfold Native.arrayCell
  split <;> simp

theorem relays_itemsOf : Relays P (AllOnly P) (f.arrayItems position span v) :=
  relays_arrayCell.bind fun _ _ => relays_arrayItems

theorem relays_objectCell : Relays P (fun _ => True) (f.objectCell position span v) := by
  unfold Native.objectCell
  split <;> simp

theorem relays_referenceCell : Relays P (fun _ => True) (f.referenceCell position span v) := by
  unfold Native.referenceCell
  split <;> simp

theorem relays_byte : Relays P (fun _ => True) (f.byte span v) := by
  refine (relays_readEndless fun _ _ _ _ => trivial).bind fun target _ => ?_
  split
  case h_3 => split <;> simp
  all_goals simp

theorem relays_bytes : Relays P (fun _ => True) (f.bytes position span v) :=
  relays_itemsOf.bind fun _ _ => (relays_mapM fun _ _ => relays_byte).mono fun _ _ => trivial

/-! ## Numbers, time and chance -/

@[simp] theorem relays_floorOf : Relays P (Value.Only P) (floorOf span v) :=
  relays_number.bind fun _ _ => relays_pure Value.only_number

@[simp] theorem relays_ceilOf : Relays P (Value.Only P) (ceilOf span v) :=
  relays_number.bind fun _ _ => relays_pure Value.only_number

@[simp] theorem relays_now : Relays P (Value.Only P) now :=
  .bind (R := fun _ => True) (relays_modifyGet fun _ hm => ⟨.of_eq ⟨hm.heap, hm.listeners⟩ rfl rfl, trivial⟩)
    fun _ _ => relays_pure Value.only_number

theorem relays_draw {bound : Nat} : Relays P (fun _ => True) (draw bound) :=
  relays_modifyGet fun _ hm => ⟨hm.reseeded _, trivial⟩

@[simp] theorem relays_fraction : Relays P (Value.Only P) fraction :=
  relays_draw.bind fun _ _ => relays_pure Value.only_number

@[simp] theorem relays_between : Relays P (Value.Only P) (between span v w) :=
  relays_whole.bind fun _ _ => relays_whole.bind fun _ _ =>
    .ite (fun _ => relays_reject) fun _ => relays_draw.bind fun _ _ => relays_pure Value.only_number

@[simp] theorem relays_choice : Relays P (Value.Only P) (choice span v) := by
  refine relays_itemsOf.bind fun items hitems => ?_
  split
  · exact relays_reject
  · exact relays_draw.bind fun _ _ => relays_pure hitems.getD

/-! ## The console -/

@[simp] theorem relays_writeValues {separator ending : Text} {args : List Value} :
    Relays P (Value.Only P) (writeValues separator ending args) :=
  (relays_mapM fun _ _ => relays_display).bind fun _ _ => relays_write.bind fun _ _ =>
    relays_pure Value.only_null

@[simp] theorem relays_readInput {prompt : Option Value} : Relays P (Value.Only P) (readInput prompt) := by
  have hline : Relays P (Value.Only P) (do
      let line ← takeLine
      return if line.isEmpty then .null else .string (withoutLineEnds line)) := by
    refine .bind (R := fun _ => True)
      (relays_modifyGet fun _ hm => ⟨.of_eq ⟨hm.heap, hm.listeners⟩ rfl rfl, trivial⟩) fun line _ => ?_
    refine relays_pure ?_
    split <;> simp
  unfold readInput
  split
  · exact relays_display.bind fun _ _ => relays_write.bind fun _ _ => hline
  · exact hline

@[simp] theorem relays_clearScreen : Relays P (Value.Only P) clearScreen :=
  relays_write.bind fun _ _ => relays_pure Value.only_null

/-! ## Strings and patterns -/

@[simp] theorem relays_parseNumber : Relays P (Value.Only P) (parseNumber span v) := by
  refine relays_text.bind fun t _ => ?_
  split <;> simp

@[simp] theorem relays_codeOf : Relays P (Value.Only P) (codeOf span v) := by
  refine relays_text.bind fun t _ => ?_
  split <;> simp

@[simp] theorem relays_ofCode : Relays P (Value.Only P) (ofCode span v) := by
  refine relays_whole.bind fun n _ => ?_
  split <;> simp

@[simp] theorem relays_unescaped : Relays P (Value.Only P) (unescaped span v) := by
  refine relays_text.bind fun t _ => ?_
  split <;> simp

@[simp] theorem relays_splitString : Relays P (Value.Only P) (splitString span v w) :=
  relays_text.bind fun _ _ => relays_text.bind fun _ _ => relays_newTexts

theorem relays_patternError {intro source : Text} {e : Pattern.Error} :
    Relays P R (patternError f span intro source e : Eval α) := by
  cases e <;> simp [patternError]

theorem relays_patternOf : Relays P (fun _ => True) (f.patternOf span v) := by
  refine relays_text.bind fun source _ => ?_
  split
  · exact relays_pure trivial
  · exact relays_patternError

@[simp] theorem relays_matchPattern : Relays P (Value.Only P) (matchPattern span v w) :=
  relays_patternOf.bind fun _ _ => relays_text.bind fun _ _ => relays_pure Value.only_bool

@[simp] theorem relays_replacePattern {replacement : Value} :
    Relays P (Value.Only P) (replacePattern span v w replacement) := by
  refine relays_patternOf.bind fun t _ => relays_text.bind fun _ _ => relays_text.bind fun source _ => ?_
  split
  · exact relays_pure Value.only_string
  · exact relays_patternError

/-! ## Arrays, objects and buffers -/

@[simp] theorem relays_pushTo (hv : v.Only P) (hw : w.Only P) :
    Relays P (Value.Only P) (pushTo span v w) := by
  refine relays_arrayCell.bind fun id _ => (relays_modifyHeap fun _ hh => ?_).bind fun _ _ => relays_pure hv
  refine hh.modifyArray fun items hitems u hu => ?_
  rw [Array.toList_push] at hu
  obtain hu | hu := List.mem_append.1 hu
  · exact hitems u hu
  · exact List.mem_singleton.1 hu ▸ hw

@[simp] theorem relays_replaceItems (hv : v.Only P) : Relays P (Value.Only P) (replaceItems span v w) :=
  relays_arrayCell.bind fun _ _ => relays_arrayCell.bind fun source _ => relays_heap.bind fun _ hh =>
    (relays_modifyHeap fun _ hh' => hh'.modifyArray fun _ _ => hh.array source).bind fun _ _ =>
      relays_pure hv

@[simp] theorem relays_sliceOf {start : Value} {stop : Option Value} :
    Relays P (Value.Only P) (sliceOf span v start stop) := by
  refine relays_whole.bind fun first _ => ?_
  extract_lets k
  have hk : ∀ last, Relays P (Value.Only P) (k last) := by
    intro last
    unfold k
    split
    · exact relays_pure Value.only_string
    · refine relays_itemsOf.bind fun items hitems => relays_newArray fun u hu => ?_
      exact hitems u (List.mem_of_mem_take (List.mem_of_mem_drop hu))
  split
  · exact relays_whole.bind fun _ _ => hk _
  · exact hk _

@[simp] theorem relays_reversed : Relays P (Value.Only P) (reversed span v) := by
  unfold reversed
  split
  · exact relays_pure Value.only_string
  · exact relays_itemsOf.bind fun items hitems => relays_newArray fun u hu => hitems u (List.mem_reverse.1 hu)

@[simp] theorem relays_elementsOf (hv : v.Only P) : Relays P (Value.Only P) (elementsOf span v) := by
  refine (relays_readEndless fun _ _ hh => hh.follow hv).bind fun target _ => relays_heap.bind fun h hh => ?_
  split
  · exact relays_fail (Fault.only_of_data rfl)
  · next hp =>
    refine relays_newArray fun u hu => ?_
    obtain ⟨⟨key, item⟩, hmem, rfl⟩ := List.mem_map.1 hu
    have hpair := hh.pairs hp _ hmem
    dsimp only
    split
    · exact hpair.1
    · exact hpair.2

@[simp] theorem relays_keysOf : Relays P (Value.Only P) (keysOf span v) :=
  relays_objectCell.bind fun _ _ => relays_heap.bind fun _ _ => relays_newTexts

@[simp] theorem relays_shallowCopy (hv : v.Only P) :
    Relays P (Value.Only P) (Eval.onHeap (·.shallowCopy v)) :=
  relays_onHeap fun _ hh => hh.shallowCopy hv

@[simp] theorem relays_deepCopy (hv : v.Only P) :
    Relays P (Value.Only P) (Eval.onHeap (·.deepCopy v)) :=
  relays_onHeap fun _ hh => hh.deepCopy hv

theorem relays_bufferValue {bytes : List Nat} : Relays P (Value.Only P) (bufferValue bytes) :=
  relays_newArray fun u hu => by
    obtain ⟨b, -, rfl⟩ := List.mem_map.1 hu
    exact Value.only_number

@[simp] theorem relays_decodeBuffer : Relays P (Value.Only P) (decodeBuffer span v) := by
  refine relays_bytes.bind fun bytes _ => ?_
  split <;> simp

theorem relays_encodedText {t : Text} : Relays P (fun _ => True) (encodedText t) := by
  unfold encodedText
  split <;> simp

@[simp] theorem relays_encodeBuffer : Relays P (Value.Only P) (encodeBuffer span v) :=
  relays_text.bind fun _ _ => relays_encodedText.bind fun _ _ => relays_bufferValue

/-! ## Data, errors and references -/

@[simp] theorem relays_readJson : Relays P (Value.Only P) (readJson span v) := by
  refine relays_text.bind fun document _ => ?_
  split
  · exact relays_reject
  · split
    · exact relays_reject
    · next hd => exact relays_onHeap fun h hh => Heap.only_ofDatum hh (Json.only_toDatum hd)

@[simp] theorem relays_writeJson : Relays P (Value.Only P) (writeJson span v) := by
  refine (relays_readEndless fun _ _ _ _ => trivial).bind (R := fun _ => True) fun datum _ => ?_
  split <;> simp

@[simp] theorem relays_makeError {kind data : Option Value} (hdata : ∀ u ∈ data, u.Only P) :
    Relays P (Value.Only P) (makeError span v kind data) := by
  refine relays_text.bind fun text _ => ?_
  extract_lets k
  have hk : ∀ typeName, Relays P (Value.Only P) (k typeName) := fun _ =>
    relays_onHeap fun _ hh => hh.newError hdata
  split
  · exact relays_text.bind fun typeName _ => hk typeName
  · exact hk _

@[simp] theorem relays_newRef (hv : v.Only P) : Relays P (Value.Only P) (newRef v) :=
  relays_onHeap fun _ hh => ⟨Value.only_plain trivial, hh.newReference hv⟩

@[simp] theorem relays_target : Relays P (Value.Only P) (target span v) :=
  relays_heap.bind fun _ hh => relays_referenceCell.bind fun _ _ => relays_pure (hh.reference _)

@[simp] theorem relays_retarget (hv : v.Only P) (hw : w.Only P) :
    Relays P (Value.Only P) (retarget span v w) :=
  relays_referenceCell.bind fun _ _ => (relays_modifyHeap fun _ hh => hh.setReference hw).bind fun _ _ =>
    relays_pure hv

/-! ## Prototypes, tags and events -/

@[simp] theorem relays_namedPrototype : Relays P (Value.Only P) (namedPrototype span v) := by
  refine relays_text.bind fun name _ => ?_
  split
  · next hp =>
    obtain ⟨id, -, rfl⟩ := Option.map_eq_some_iff.1 hp
    exact relays_pure (Value.only_plain trivial)
  · exact relays_failWith

/-- A value inherits from its prototype, which bears variants of its own. -/
@[simp] theorem relays_withPrototype (hv : v.Only P) (hw : w.Only P) :
    Relays P (Value.Only P) (withPrototype span v w) := by
  unfold withPrototype
  extract_lets k
  have hk : ∀ target, Relays P (Value.Only P) (k target) := fun _ =>
    .ite (fun _ => relays_pure (hv.setTag hw)) fun _ => relays_reject
  split
  · exact relays_heap.bind fun _ _ => hk _
  · exact hk _

theorem relays_tagName : Relays P (fun _ => True) (f.tagName span v) :=
  relays_text.bind fun _ _ => .ite (fun _ => relays_reject) fun _ => relays_pure trivial

@[simp] theorem relays_tagOnce {content : Value} (hv : v.Only P) :
    Relays P (Value.Only P) (tagOnce span v w content) :=
  relays_tagName.bind fun _ _ => relays_text.bind fun _ _ =>
    .ite (fun _ => relays_reject) fun _ => relays_pure (hv.setTag trivial)

@[simp] theorem relays_tagWith {content : Value} (hv : v.Only P) :
    Relays P (Value.Only P) (tagWith span v w content) :=
  relays_tagName.bind fun _ _ => relays_text.bind fun _ _ => relays_pure (hv.setTag trivial)

@[simp] theorem relays_untag (hv : v.Only P) : Relays P (Value.Only P) (untag span v w) :=
  relays_tagName.bind fun _ _ => relays_pure hv.eraseTag

@[simp] theorem relays_tagsOf : Relays P (Value.Only P) (tagsOf v) := by
  refine relays_get.bind fun m _ => relays_newObject (OrderedMap.forall_ofList fun e he => ?_)
  obtain ⟨t, -, rfl⟩ := List.mem_map.1 he
  exact Value.only_string

/-- A listener stays with the emitter until it is called. -/
@[simp] theorem relays_listenTo {listener : Value} (hl : listener.Only P) :
    Relays P (Value.Only P) (listenTo span v w listener) := by
  unfold listenTo
  split
  · exact relays_reject
  · next id _ =>
    refine relays_text.bind fun name _ => .ite (fun _ => relays_reject) fun _ =>
      relays_get.bind fun m hm => ?_
    extract_lets e
    split
    · exact relays_failWith
    · next listeners hls =>
      have he := Emitter.only_listenersOf_insert (hm.listeners id) hls hl
      refine .bind (R := fun _ => True) (relays_modifyGet fun m' hm' => ⟨?_, trivial⟩) fun _ _ =>
        relays_pure Value.only_null
      exact .of_eq ⟨hm'.heap, Emitter.forall_listenersOf_set hm'.listeners he⟩ rfl rfl

/-! ## Streams -/

theorem relays_receive {limit : Int} : Relays P (fun _ => True) (receive limit) := by
  refine relays_get.bind fun m _ => .ite (fun _ => relays_crash) fun _ => ?_
  split
  · exact relays_pure trivial
  · exact .bind (relays_modify fun _ => ⟨rfl, rfl, rfl, rfl⟩) fun _ _ =>
      relays_pure trivial

@[simp] theorem relays_readStream {size : Option Value} : Relays P (Value.Only P) (readStream span size) := by
  unfold readStream
  extract_lets k
  have hk : ∀ limit, Relays P (Value.Only P) (k limit) := fun _ =>
    relays_receive.bind fun _ _ => relays_bufferValue
  split
  · exact relays_whole.bind fun limit _ => hk limit
  · exact hk _

@[simp] theorem relays_writeStream : Relays P (Value.Only P) (writeStream span v) := by
  unfold writeStream
  extract_lets k
  have hk : ∀ bytes, Relays P (Value.Only P) (k bytes) := fun _ => relays_get.bind fun m _ =>
    .ite (fun _ => relays_crash) fun _ =>
      .bind (relays_modify fun _ => ⟨rfl, rfl, rfl, rfl⟩) fun _ _ =>
        relays_pure Value.only_number
  split
  · exact relays_encodedText.bind fun bytes _ => hk bytes
  · exact relays_bytes.bind fun bytes _ => hk bytes

@[simp] theorem relays_closeStream : Relays P (Value.Only P) closeStream :=
  .bind (relays_modify fun _ => ⟨rfl, rfl, rfl, rfl⟩) fun _ _ =>
    relays_pure Value.only_null

@[simp] theorem relays_connect : Relays P (Value.Only P) (connect span v w) :=
  relays_text.bind fun _ _ => relays_whole.bind fun _ _ => relays_reject

/-- A native function relays variants, unless it is one of those that call functions of the script. -/
theorem relays_run {I : Interp} (n : Native) {args : List Value} (span : Option Span)
    (hargs : AllOnly P args) :
    Relays P (Value.Only P) (n.run I args span) ∨
    (n = .callFunction ∧ ∃ f xs, args = [f, xs]) ∨
    (n = .spawnThread ∧ ∃ f, args = [f]) ∨
    n = .streamListen := by
  unfold Native.run
  split <;> first
    | exact .inr (.inl ⟨rfl, _, _, rfl⟩)
    | exact .inr (.inr (.inl ⟨rfl, _, rfl⟩))
    | exact .inr (.inr (.inr rfl))
    | refine .inl ?_
      simp_all [AllOnly]
      done
    | exact .inl (relays_makeError fun v hv => hargs v (.tail _ (List.mem_of_getElem? hv)))
    | exact .inl (relays_display.bind fun _ _ => relays_pure Value.only_string)
    | exact .inl (relays_get.bind fun _ _ => relays_newTexts)
    | exact .inl (relays_heap.bind fun _ hh => relays_pure (hh.prototypeOf (hargs _ (.head _))))

end Eval

end ScriptEngine

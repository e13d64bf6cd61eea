import ScriptEngine.Eval.Statement
import ScriptEngine.Proofs.Json.ReadingBack
import ScriptEngine.Proofs.Native.Calls
import ScriptEngine.Proofs.Value.ReadingBack
import ScriptEngine.Proofs.Value.Unfolding

/-!
# Values that go through JSON

* **Values** (`Heap.Exchangeable`): null, booleans, whole numbers that are not too long, texts without surrogates, and
  arrays and objects of such values, none of them a variant. The definition is inductive, so none of them has a cycle.
* **Plain data** (`Heap.Carries`): the data of such a value are written as an exact document, are the data of that
  document, and become a value of the same tree wherever they are put. There is a rule for each form of data.

The JSON text of such a value is read as a value that is equal to it, with the keys of objects in the same order
(`json_reads_back`). A longer number has no JSON text (`long_number_not_exchanged`).
-/

namespace ScriptEngine

namespace Heap

variable {h h' : Heap} {v w : Value} {d : Datum} {depth id : Nat}

/-- Values without cycles, of null, booleans, whole numbers that the host writes, texts of scalar values, arrays, and
objects with such texts as keys, none of them a variant. -/
inductive Exchangeable (h : Heap) : Value → Prop
  | null {v : Value} (variant : v.variant? = none) (payload : v.payload = .null) : h.Exchangeable v
  | bool {v : Value} {b : Bool} (variant : v.variant? = none) (payload : v.payload = .bool b) : h.Exchangeable v
  | whole {v : Value} {x : Number} {n : Int} (variant : v.variant? = none) (payload : v.payload = .number x)
      (value : x.value = n) (writable : Text.isWritable n.natAbs) : h.Exchangeable v
  | text {v : Value} {t : Text} (variant : v.variant? = none) (payload : v.payload = .string t)
      (scalars : ∀ c ∈ t, c.isScalar) : h.Exchangeable v
  | array {v : Value} {id : Nat} {items : Array Value} (variant : v.variant? = none) (payload : v.payload = .array id)
      (cell : h.arrays[id]? = some items) (contents : ∀ w ∈ items.toList, h.Exchangeable w) : h.Exchangeable v
  | object {v : Value} {id : Nat} {entries : OrderedMap Text Value} (variant : v.variant? = none)
      (payload : v.payload = .object id) (cell : h.objects[id]? = some entries)
      (scalars : ∀ e ∈ entries.entries, ∀ c ∈ e.1, c.isScalar)
      (contents : ∀ e ∈ entries.entries, h.Exchangeable e.2) : h.Exchangeable v

theorem Exchangeable.finite (hv : h.Exchangeable v) : h.Finite v.payload := by
  induction hv with
  | null _ hp | bool _ hp | text _ hp | whole _ hp =>
    rw [hp]
    exact .leaf rfl
  | array _ hp hcell _ ih =>
    rw [hp]
    refine .node ?_ fun w hw => ih w (by rwa [parts, array_eq hcell] at hw)
    simpa [sites] using (Array.getElem?_eq_some_iff.1 hcell).1
  | object _ hp hcell _ _ ih =>
    rw [hp]
    refine .node ?_ fun w hw => ?_
    · simpa [sites] using (Array.getElem?_eq_some_iff.1 hcell).1
    · rw [parts, object_eq hcell] at hw
      obtain ⟨e, he, rfl⟩ := List.mem_map.1 hw
      exact ih e he

/-! ## Plain data -/

/-- Plain data take a value to an exact document and back, and to a value of the same tree in any heap that keeps the
cells of the first. -/
structure Carries (h : Heap) (v : Value) (d : Datum) : Prop where
  written : ∃ j, d.toJson = .ok j ∧ j.toDatum = .ok d ∧ j.IsExact
  returned : ∀ {h' : Heap}, h.KeptBy h' → h'.KeptBy (h'.ofDatum d).2 ∧ (h'.ofDatum d).2.SameTree v (h'.ofDatum d).1

theorem carries_null (hvariant : v.variant? = none) (hp : v.payload = .null) : h.Carries v .null where
  written := ⟨.null, rfl, rfl, .null⟩
  returned _ := ⟨.refl _, .scalar hvariant hp (by simp [Value.kind, hp, Payload.kind])⟩

theorem carries_bool {b : Bool} (hvariant : v.variant? = none) (hp : v.payload = .bool b) :
    h.Carries v (.bool b) where
  written := ⟨.bool b, rfl, rfl, .bool b⟩
  returned _ := ⟨.refl _, .scalar hvariant hp (by simp [Value.kind, hp, Payload.kind])⟩

theorem carries_text {t : Text} (hvariant : v.variant? = none) (hp : v.payload = .string t)
    (ht : ∀ c ∈ t, c.isScalar) : h.Carries v (.text t) where
  written := ⟨.text t, rfl, rfl, .text ht⟩
  returned _ := ⟨.refl _, .scalar hvariant hp (by simp [Value.kind, hp, Payload.kind])⟩

theorem carries_whole {x : Number} {n : Int} (hvariant : v.variant? = none) (hp : v.payload = .number x)
    (hx : x.value = n) (hn : Text.isWritable n.natAbs) : h.Carries v (.number x.value) := by
  refine ⟨⟨.whole n, ?_, by rw [hx]; rfl, .whole hn⟩, fun _ =>
    ⟨.refl _, .number hvariant hp rfl (Number.value_ofRat _).symm⟩⟩
  have hwhole : (Number.ofRat (n : Rat)).whole? = some n := by simp [Number.ofRat, Number.whole?]
  rw [hx, Datum.toJson, hwhole]
  exact if_pos hn

theorem itemsToJson_of_carries {values : List Value} {items : List Datum}
    (hitems : List.Forall₂ h.Carries values items) :
    ∃ js, Datum.itemsToJson items = .ok js ∧ Json.itemsToData js = .ok items ∧ ∀ j ∈ js, j.IsExact := by
  induction hitems with
  | nil => exact ⟨[], rfl, rfl, nofun⟩
  | cons hd _ ih =>
    obtain ⟨j, hj, hback, hexact⟩ := hd.written
    obtain ⟨js, hjs, hbacks, hexacts⟩ := ih
    refine ⟨j :: js, ?_, ?_, List.forall_mem_cons.2 ⟨hexact, hexacts⟩⟩
    · rw [Datum.itemsToJson, hj, hjs]
      rfl
    · rw [Json.itemsToData, hback, hbacks]
      rfl

theorem ofData_of_carries {values : List Value} {items : List Datum}
    (hitems : List.Forall₂ h.Carries values items) (hk : h.KeptBy h') : h'.KeptBy (h'.ofData items).2 ∧
      List.Forall₂ (h'.ofData items).2.SameTree values (h'.ofData items).1 := by
  induction hitems generalizing h' with
  | nil => exact ⟨.refl h', .nil⟩
  | cons hd _ ih =>
    obtain ⟨hkept, htree⟩ := hd.returned hk
    obtain ⟨hkepts, htrees⟩ := ih (hk.trans hkept)
    exact ⟨hkept.trans hkepts, .cons (htree.mono hkepts) htrees⟩

theorem carries_array {items : Array Value} {data : List Datum} (hvariant : v.variant? = none)
    (hp : v.payload = .array id) (hcell : h.arrays[id]? = some items)
    (hdata : List.Forall₂ h.Carries items.toList data) : h.Carries v (.list data) := by
  obtain ⟨js, hjs, hback, hexact⟩ := itemsToJson_of_carries hdata
  refine ⟨⟨.array js, by rw [Datum.toJson, hjs]; rfl, by rw [Json.toDatum, hback]; rfl, .array hexact⟩, ?_⟩
  intro h' hk
  obtain ⟨hkept, htrees⟩ := ofData_of_carries hdata hk
  exact ⟨hkept.trans (keptBy_newArray _ _), sameTree_newArray hvariant hp ((hk.trans hkept).arrays hcell) htrees⟩

/-- Plain data take an entry of an object to a member with the same key. -/
def CarriesEntry (h : Heap) (e : Text × Value) (m : Text × Datum) : Prop := m.1 = e.1 ∧ h.Carries e.2 m.2

theorem membersToJson_of_carries {entries : List (Text × Value)} {members : List (Text × Datum)}
    (hmembers : List.Forall₂ h.CarriesEntry entries members) :
    ∃ js, Datum.membersToJson members = .ok js ∧ Json.membersToData js = .ok members ∧
      js.map Prod.fst = entries.map Prod.fst ∧ ∀ e ∈ js, e.2.IsExact := by
  induction hmembers with
  | nil => exact ⟨[], rfl, rfl, rfl, nofun⟩
  | @cons e m entries members he _ ih =>
    obtain ⟨key, d⟩ := m
    obtain ⟨hkey, hd⟩ := he
    obtain ⟨j, hj, hback, hexact⟩ := hd.written
    obtain ⟨js, hjs, hbacks, hkeys, hexacts⟩ := ih
    refine ⟨(key, j) :: js, ?_, ?_, by simp [hkeys, ← hkey], List.forall_mem_cons.2 ⟨hexact, hexacts⟩⟩
    · rw [Datum.membersToJson, hj, hjs]
      rfl
    · rw [Json.membersToData, hback, hbacks]
      rfl

theorem ofMembers_of_carries {entries : List (Text × Value)} {members : List (Text × Datum)}
    (hmembers : List.Forall₂ h.CarriesEntry entries members) (hk : h.KeptBy h') :
    h'.KeptBy (h'.ofMembers members).2 ∧ List.Forall₂
      (fun e e' => e'.1 = e.1 ∧ (h'.ofMembers members).2.SameTree e.2 e'.2) entries (h'.ofMembers members).1 := by
  induction hmembers generalizing h' with
  | nil => exact ⟨.refl h', .nil⟩
  | @cons e m entries members he _ ih =>
    obtain ⟨key, d⟩ := m
    obtain ⟨hkey, hd⟩ := he
    obtain ⟨hkept, htree⟩ := hd.returned hk
    obtain ⟨hkepts, htrees⟩ := ih (hk.trans hkept)
    exact ⟨hkept.trans hkepts, .cons ⟨hkey, htree.mono hkepts⟩ htrees⟩

theorem carries_object {entries : OrderedMap Text Value} {data : List (Text × Datum)} (hvariant : v.variant? = none)
    (hp : v.payload = .object id) (hcell : h.objects[id]? = some entries)
    (hscalars : ∀ e ∈ entries.entries, ∀ c ∈ e.1, c.isScalar)
    (hdata : List.Forall₂ h.CarriesEntry entries.entries data) : h.Carries v (.object data) := by
  obtain ⟨js, hjs, hback, hkeys, hexact⟩ := membersToJson_of_carries hdata
  refine ⟨⟨.object js, by rw [Datum.toJson, hjs]; rfl, by rw [Json.toDatum, hback]; rfl, ?_⟩, ?_⟩
  · refine .object (hkeys ▸ entries.nodup) (fun e he => ?_) hexact
    obtain ⟨e', he', hkey⟩ := List.mem_map.1 (hkeys ▸ List.mem_map_of_mem he : e.1 ∈ entries.entries.map Prod.fst)
    exact hkey ▸ hscalars e' he'
  · intro h' hk
    obtain ⟨hkept, htrees⟩ := ofMembers_of_carries hdata hk
    exact ⟨hkept.trans (keptBy_newObject _ _), sameTree_newObject hvariant hp ((hk.trans hkept).objects hcell) htrees⟩

/-- The plain data that are found of a value that goes through JSON carry it. -/
theorem Exchangeable.carries (hv : h.Exchangeable v) (hd : h.toDatumIn? depth v = some d) : h.Carries v d := by
  induction hv generalizing depth d with
  | null variant payload =>
    obtain ⟨depth, rfl⟩ := exists_succ_of_toDatumIn? hd
    rw [toDatumIn?, payload] at hd
    cases hd
    exact carries_null variant payload
  | bool variant payload =>
    obtain ⟨depth, rfl⟩ := exists_succ_of_toDatumIn? hd
    rw [toDatumIn?, payload] at hd
    cases hd
    exact carries_bool variant payload
  | whole variant payload value writable =>
    obtain ⟨depth, rfl⟩ := exists_succ_of_toDatumIn? hd
    rw [toDatumIn?, payload] at hd
    cases hd
    exact carries_whole variant payload value writable
  | text variant payload scalars =>
    obtain ⟨depth, rfl⟩ := exists_succ_of_toDatumIn? hd
    rw [toDatumIn?, payload] at hd
    cases hd
    exact carries_text variant payload scalars
  | array variant payload cell _ ih =>
    obtain ⟨depth, rfl⟩ := exists_succ_of_toDatumIn? hd
    rw [toDatumIn?_array payload, array_eq cell] at hd
    obtain ⟨data, hdata, rfl⟩ := Option.map_eq_some_iff.1 hd
    have hitems := (List.forall₂_and_left _ _).2 ⟨fun w hw d => @ih w hw d depth, mapM_eq_some_iff.1 hdata⟩
    exact carries_array variant payload cell (hitems.imp fun _ _ hi => hi.1 _ hi.2)
  | object variant payload cell scalars _ ih =>
    obtain ⟨depth, rfl⟩ := exists_succ_of_toDatumIn? hd
    rw [toDatumIn?_object payload, object_eq cell] at hd
    obtain ⟨data, hdata, rfl⟩ := Option.map_eq_some_iff.1 hd
    have hmembers := (List.forall₂_and_left _ _).2 ⟨fun e he d => @ih e he d depth, mapM_eq_some_iff.1 hdata⟩
    refine carries_object variant payload cell scalars (hmembers.imp fun e m hm => ?_)
    obtain ⟨d, hd, rfl⟩ := Option.map_eq_some_iff.1 ((memberData?_eq e).symm.trans hm.2)
    exact ⟨rfl, hm.1 _ hd⟩

end Heap

/-- The JSON text of a value without cycles, of null, booleans, whole numbers that the host writes, texts of scalar
values, arrays and objects with such keys, none of them a variant, is read as a value of the same tree, with the keys of
objects in the same order: the two are equal. -/
theorem json_reads_back (I : Interp) {v : Value} {m : Machine} (hv : m.heap.Exchangeable v)
    (span place : Option Span) : ∃ t w m', Native.toJson.call I [v] span m = .ok (.string t) m ∧
      Native.parseJson.call I [.string t] place m = .ok w m' ∧ m.heap.KeptBy m'.heap ∧ m'.heap.SameTree v w ∧
      m'.heap.equal w v = true := by
  obtain ⟨d, hd⟩ := hv.finite.exists_toDatum?
  obtain ⟨⟨j, hj, hback, hexact⟩, hreturned⟩ := hv.carries hd
  obtain ⟨hkept, htree⟩ := hreturned (.refl m.heap)
  refine ⟨j.write, (m.heap.ofDatum d).1, { m with heap := (m.heap.ofDatum d).2 }, ?_, ?_, hkept, htree,
    (Heap.equivalence_equal _).symm htree.equal⟩
  · refine call_of_run rfl ?_
    show Native.writeJson span v m = _
    rw [Native.writeJson, Eval.bind_ok (Eval.readEndless_some hd), hj]
    rfl
  · refine call_of_run rfl ?_
    show Native.readJson place (.string j.write) m = _
    rw [Native.readJson, Eval.bind_ok (text_run rfl), hexact.read_write]
    simp only
    rw [hback]
    rfl

/-- A heap with an object of a text with escapes, an array of other values and an empty object. -/
def nestedHeap : Heap where
  arrays := #[#[.null, .bool true, .number (-12 : Int), .number (10 ^ 25 : Int)]]
  objects := #[.ofList [("b", .string "\"\n\x00é😀"), ("a", .plain (.array 0)), ("", .plain (.object 1))], .empty]

theorem json_reads_back_nested : ∃ t w m',
    Native.toJson.call (.ofLevel 0) [.plain (.object 0)] none { heap := nestedHeap } =
        .ok (.string t) { heap := nestedHeap } ∧
      Native.parseJson.call (.ofLevel 0) [.string t] none { heap := nestedHeap } = .ok w m' ∧
      nestedHeap.KeptBy m'.heap ∧ m'.heap.SameTree (.plain (.object 0)) w ∧
      m'.heap.equal w (.plain (.object 0)) = true := by
  have hwhole {n : Int} (hn : Text.isWritable n.natAbs) : nestedHeap.Exchangeable (.number n) :=
    .whole rfl rfl (Number.value_ofRat n) hn
  have hitems : nestedHeap.Exchangeable (.plain (.array 0)) := by
    refine .array rfl rfl rfl ?_
    show ∀ w ∈ [Value.null, .bool true, .number (-12 : Int), .number (10 ^ 25 : Int)], nestedHeap.Exchangeable w
    simp only [List.forall_mem_cons]
    exact ⟨.null rfl rfl, .bool rfl rfl, hwhole (by decide +kernel), hwhole (by decide +kernel), nofun⟩
  have hempty : nestedHeap.Exchangeable (.plain (.object 1)) := .object rfl rfl rfl nofun nofun
  have hobject : nestedHeap.Exchangeable (.plain (.object 0)) := by
    refine .object rfl rfl rfl (by decide) ?_
    show ∀ e ∈ ([("b", .string "\"\n\x00é😀"), ("a", .plain (.array 0)), ("", .plain (.object 1))] :
      List (Text × Value)), nestedHeap.Exchangeable e.2
    simp only [List.forall_mem_cons]
    exact ⟨.text rfl rfl (by decide), hitems, hempty, nofun⟩
  exact json_reads_back _ hobject none none

/-- A whole number with more digits than the host writes has no JSON text. -/
theorem long_number_not_exchanged :
    Native.toJson.call (.ofLevel 0) [.number (10 ^ Text.digitLimit : Nat)] none {} =
      Native.toJson.reject none .native (": " ++ Text.digitLimitMessage none) {} := by
  have hlong : ¬ Text.isWritable (10 ^ Text.digitLimit) := fun h => lt_irrefl _ (Number.isWritable_iff_lt.1 h)
  generalize 10 ^ Text.digitLimit = n at hlong
  have hwhole : (Number.ofRat (n : Rat)).whole? = some (n : Int) := by simp [Number.ofRat, Number.whole?]
  have hdatum : Heap.toDatum? {} (.number (n : Rat)) = some (.number n) := by
    show some (Datum.number (Number.ofRat (n : Rat)).value) = _
    rw [Number.value_ofRat]
  have hjson : (Datum.number n).toJson = .error .tooLong := by
    rw [Datum.toJson, hwhole]
    exact if_neg hlong
  have hrun : Native.toJson.run (.ofLevel 0) [.number (n : Rat)] none {} =
      .error (.crashed Unprintable.tooLong.failure) {} := by
    show Native.writeJson none (.number (n : Rat)) {} = _
    rw [Native.writeJson, Eval.bind_ok (Eval.readEndless_some hdatum), hjson]
    rfl
  exact call_of_crash rfl rfl hrun

end ScriptEngine

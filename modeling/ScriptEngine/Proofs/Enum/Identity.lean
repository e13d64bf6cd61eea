import ScriptEngine.Proofs.Enum.Reached
import ScriptEngine.Proofs.Value.Bisimilarity

/-!
# The identity of enums

* **Tags that scripts set** (`Native.call_retags`): the functions that set or remove tags or set a prototype
  either end in a fault or give a value that has the payload and the tags of identity of their first argument
  and is equal to it.
* `enum_identity_kept`: in all machines that are reached in sessions, variants of different evaluations of
  enum declarations are different, and values bear only variants of such evaluations.
-/

namespace ScriptEngine

variable {m : Machine}

/-! ## Values with other tags -/

/-- The tags that say which variant or enum a value is, that it is an error, or which emitter it is. -/
def TagName.identity : List Text := [variant, enumBase, error, emitter]

theorem TagName.identity_subset_reserved : identity ⊆ reserved := by decide

theorem TagName.prototype_not_mem_identity : prototype ∉ identity := by decide

/-- A value has the payload of another one and its tags of identity, and is equal to it. -/
structure Value.SameIdentity (h : Heap) (v w : Value) : Prop where
  payload : w.payload = v.payload
  kind : w.kind = v.kind
  tags : ∀ name ∈ TagName.identity, w.tag? name = v.tag? name
  equal : h.equal v w = true

namespace Value

variable {v w : Value} {name key : Text} {tag : Tag}

theorem find?_putTag_of_ne {tags : List (Text × Tag)} (h : name ≠ key) :
    (putTag key tag tags).find? (·.1 = name) = tags.find? (·.1 = name) := by
  induction tags with
  | nil => simp [putTag, h.symm]
  | cons e rest ih =>
    rw [putTag]
    split
    · next he => simp [he, h.symm]
    · rw [List.find?_cons, List.find?_cons, ih]

theorem tag?_setTag_of_ne (h : name ≠ key) : (v.setTag key tag).tag? name = v.tag? name := by
  rw [tag?, tag?, setTag, find?_putTag_of_ne h]

theorem tag?_eraseTag_of_ne (h : name ≠ key) : (v.eraseTag key).tag? name = v.tag? name := by
  rw [tag?, tag?, eraseTag, List.find?_filter]
  congr 2
  funext e
  by_cases he : e.1 = name <;> simp [he, h]

/-- Values are equal if they have the same payload and the same variant. -/
theorem equal_of_payload {h : Heap} (hpayload : w.payload = v.payload) (hvariant : w.variant? = v.variant?) :
    h.equal v w = true := by
  have hR : h.IsBisimulation fun a b => b.payload = a.payload ∧ b.variant? = a.variant? := by
    rintro a b ⟨hp, hv⟩
    exact ⟨hv.symm, hp ▸ .refl (fun _ => ⟨rfl, rfl⟩) _⟩
  exact Heap.equal_of_isBisimulation hR ⟨hpayload, hvariant⟩

theorem SameIdentity.of_tags {h : Heap} (hpayload : w.payload = v.payload)
    (htags : ∀ name ∈ TagName.identity, w.tag? name = v.tag? name) : v.SameIdentity h w where
  payload := hpayload
  kind := congrArg Payload.kind hpayload
  tags := htags
  equal := equal_of_payload hpayload (by rw [variant?, variant?, htags _ (.head _)])

end Value

/-! ## Functions that set tags -/

namespace Eval

variable {α β : Type} {R : α → Prop} {S : β → Prop} {x y : Eval α} {f : α → Eval β}

/-- An evaluation that leaves the machine as it is and gives a result that satisfies `R`, or a fault. -/
def Answers (m : Machine) (R : α → Prop) (x : Eval α) : Prop :=
  (∃ a, x m = .ok a m ∧ R a) ∨ ∃ fault, x m = .error (.failed (.fault fault)) m

theorem answers_pure {a : α} (ha : R a) : Answers m R (pure a) := .inl ⟨a, rfl, ha⟩

theorem answers_fail {fault : Fault} : Answers m R (fail fault : Eval α) := .inr ⟨fault, rfl⟩

theorem Answers.bind (hx : Answers m R x) (hf : ∀ a, R a → Answers m S (f a)) : Answers m S (x >>= f) := by
  obtain ⟨a, ha, hR⟩ | ⟨fault, hfault⟩ := hx
  · rw [Answers, bind_ok ha]
    exact hf a hR
  · exact .inr ⟨fault, bind_error hfault⟩

theorem Answers.mono {R' : α → Prop} (hx : Answers m R x) (h : ∀ a, R a → R' a) : Answers m R' x :=
  hx.imp_left fun ⟨a, ha, hR⟩ => ⟨a, ha, h a hR⟩

theorem Answers.ite {p : Prop} [Decidable p] (ht : p → Answers m R x) (hf : ¬ p → Answers m R y) :
    Answers m R (if p then x else y) := by
  split
  · next h => exact ht h
  · next h => exact hf h

end Eval

namespace Native

open Eval

/-- The functions that give a value with other tags. -/
def retags : Native → Bool
  | .addTag | .setTag | .deleteTag | .setPrototype => true
  | _ => false

variable {f n : Native} {I : Interp} {position : Nat} {span : Option Span} {v name content : Value}
  {args : List Value}

theorem answers_text : Answers m (fun _ => True) (f.text position span v) := by
  unfold text
  split
  · exact answers_pure trivial
  · exact answers_fail

/-- The tags that scripts may set are not among those of the engine. -/
theorem answers_tagName : Answers m (· ∉ TagName.reserved) (f.tagName span name) :=
  answers_text.bind fun _ _ => .ite (fun _ => answers_fail) fun h => answers_pure h

theorem ne_of_mem_of_not_reserved {key tag : Text} (hkey : key ∉ TagName.reserved)
    (htag : tag ∈ TagName.identity) : tag ≠ key := by
  rintro rfl
  exact hkey (TagName.identity_subset_reserved htag)

theorem answers_tagOnce : Answers m (v.SameIdentity m.heap) (tagOnce span v name content) :=
  answers_tagName.bind fun _ hkey => answers_text.bind fun _ _ => .ite (fun _ => answers_fail) fun _ =>
    answers_pure (.of_tags rfl fun _ h => Value.tag?_setTag_of_ne (ne_of_mem_of_not_reserved hkey h))

theorem answers_tagWith : Answers m (v.SameIdentity m.heap) (tagWith span v name content) :=
  answers_tagName.bind fun _ hkey => answers_text.bind fun _ _ =>
    answers_pure (.of_tags rfl fun _ h => Value.tag?_setTag_of_ne (ne_of_mem_of_not_reserved hkey h))

theorem answers_untag : Answers m (v.SameIdentity m.heap) (untag span v name) :=
  answers_tagName.bind fun _ hkey =>
    answers_pure (.of_tags rfl fun _ h => Value.tag?_eraseTag_of_ne (ne_of_mem_of_not_reserved hkey h))

theorem answers_withPrototype {proto : Value} :
    Answers m (v.SameIdentity m.heap) (withPrototype span v proto) := by
  have hset : v.SameIdentity m.heap (v.setTag TagName.prototype (.prototype proto)) :=
    .of_tags rfl fun _ h => Value.tag?_setTag_of_ne fun he => TagName.prototype_not_mem_identity (he ▸ h)
  unfold withPrototype
  extract_lets k
  have hk : ∀ target, Answers m (v.SameIdentity m.heap) (k target) := fun _ =>
    .ite (fun _ => answers_pure hset) fun _ => answers_fail
  split
  · exact hk _
  · exact hk _

/-- Each of the functions gives its first argument with other tags. -/
theorem answers_run (hn : n.retags = true) :
    Answers m (fun w => ∃ v ∈ args.head?, v.SameIdentity m.heap w) (n.run I args span) := by
  have hfirst {v : Value} {rest : List Value} {x : Eval Value} (hx : Answers m (v.SameIdentity m.heap) x) :
      Answers m (fun w => ∃ u ∈ (v :: rest).head?, u.SameIdentity m.heap w) x :=
    hx.mono fun _ hw => ⟨v, rfl, hw⟩
  cases n with
  | addTag =>
    match args with
    | [v, name, content] => exact hfirst answers_tagOnce
    | [] | [_] | [_, _] | _ :: _ :: _ :: _ :: _ => exact answers_fail
  | setTag =>
    match args with
    | [v, name, content] => exact hfirst answers_tagWith
    | [] | [_] | [_, _] | _ :: _ :: _ :: _ :: _ => exact answers_fail
  | deleteTag =>
    match args with
    | [v, name] => exact hfirst answers_untag
    | [] | [_] | _ :: _ :: _ :: _ => exact answers_fail
  | setPrototype =>
    match args with
    | [v, proto] => exact hfirst answers_withPrototype
    | [] | [_] | _ :: _ :: _ :: _ => exact answers_fail
  | _ => cases hn

/-- A call gives the first argument with the same payload, identity and value, or ends in a fault. -/
theorem call_retags (hn : n.retags = true) :
    Answers m (fun w => ∃ v ∈ args.head?, v.SameIdentity m.heap w) (n.call I args span) := by
  refine .ite (fun _ => answers_fail) fun _ => ?_
  have hrun : Answers m _ (n.run I args span) := answers_run hn
  obtain ⟨w, hw, hidentity⟩ | ⟨fault, hfault⟩ := hrun
  · refine .inl ⟨w, ?_, hidentity⟩
    rw [bind_ok (attempt_ok hw)]
    rfl
  · refine .inr ⟨fault.locatedAt span, ?_⟩
    rw [bind_ok (attempt_error hfault)]
    rfl

end Native

/-! ## Enums in sessions -/

namespace Session

open Eval Interp

/-- In every machine that is reached in a session the variants of all evaluations of enum declarations are
different, and values bear such variants only; what a task gives or throws does so as well. A declaration is
listed once, with new variants under the names that it has, and offers these. The functions that set tags or
prototypes give a value that is equal to their first argument and has its payload and its tags of identity. -/
theorem enum_identity_kept (hm : Reached m) :
    m.Genuine ∧
    (m.declared.Pairwise List.Disjoint ∧ ∀ variants ∈ m.declared, variants.Nodup) ∧
    (∀ (n : Nat) (t : Task), t.Only (· ∈ m.variants) → Faithful m Value.Only (t.run (ofLevel n) m)) ∧
    (∀ (d : EnumDecl) (frame : Nat),
      declareEnum d frame m =
        offerEnum d (d.tag m.nextTag) (d.variantsFrom m.nextTag) frame (m.minting d) ∧
      ((declareEnum d frame).after m).declared = d.variantsFrom m.nextTag :: m.declared ∧
      (d.variantsFrom m.nextTag).map (·.name) = d.variants ∧
      List.Disjoint (d.variantsFrom m.nextTag) m.variants) ∧
    ∀ n : Native, n.retags = true → ∀ (I : Interp) (args : List Value) (span : Option Span),
      (∃ w, n.call I args span m = .ok w m ∧ ∃ v ∈ args.head?, v.SameIdentity m.heap w) ∨
      ∃ fault, n.call I args span m = .error (.failed (.fault fault)) m := by
  have hgenuine := hm.genuine
  refine ⟨hgenuine, ?_, fun n t ht => ?_, fun d frame => ⟨declareEnum_run, declared_after_declareEnum,
    EnumTag.names_numbered, ?_⟩, fun n hn I args span => Native.call_retags hn⟩
  · have hnodup := List.nodup_flatten.1 hgenuine.nodup.of_map
    exact ⟨hnodup.2, hnodup.1⟩
  · exact (carries_task (carrying_ofLevel n) ht).faithful hgenuine Value.Only.mono
  · intro t ht hold
    have := EnumDecl.id_of_mem ht
    have := hgenuine.issued t hold
    omega

/-- A declaration that is evaluated twice gives four variants. One of the first two, called with a payload,
stamps it, and stays equal to itself when a tag is set. -/
theorem enum_identity_kept_twice :
    let m := afterSource "func make() { enum Color { Red, Green }; Color.Red }; make(); make()" (blank {} [])
    let red : VariantTag := ⟨⟨"Color", 1⟩, "Red", 2⟩
    let v := Value.ofVariant red
    m.declared = [[⟨⟨"Color", 4⟩, "Red", 5⟩, ⟨⟨"Color", 4⟩, "Green", 6⟩], [red, ⟨⟨"Color", 1⟩, "Green", 3⟩]] ∧
    m.declared.Pairwise List.Disjoint ∧
    v.Only (· ∈ m.variants) ∧
    Faithful m Value.Only ((ofLevel 1).call v [.number 5] none m) ∧
    ∃ w, Native.setTag.call exhausted [v, .string "note", .string "warm"] none m = .ok w m ∧
      v.SameIdentity m.heap w := by
  intro m red v
  have hdeclared : m.declared = [[⟨⟨"Color", 4⟩, "Red", 5⟩, ⟨⟨"Color", 4⟩, "Green", 6⟩],
      [red, ⟨⟨"Color", 1⟩, "Green", 3⟩]] := by
    unfold m red
    rw [Text.ofString_ofList]
    decide +kernel
  have hreached : Reached m := .request (.blank {} []) (r := .source _ none) trivial
  obtain ⟨-, hdistinct, htasks, -, hretags⟩ := enum_identity_kept hreached
  have hv : v.Only (· ∈ m.variants) := Value.only_ofVariant (by simp [Machine.variants, hdeclared])
  have hcall : (Task.call v [.number 5] none).Only (· ∈ m.variants) := ⟨hv, .cons Value.only_number .nil⟩
  refine ⟨hdeclared, hdistinct.1, hv, htasks 1 _ hcall, ?_⟩
  obtain ⟨w, hw, u, hu, hidentity⟩ | ⟨fault, hfault⟩ := hretags .setTag rfl exhausted
    [v, .string "note", .string "warm"] none
  · cases hu
    exact ⟨w, hw, hidentity⟩
  · cases hfault

end Session

end ScriptEngine

import ScriptEngine.Proofs.Eval.Run
import ScriptEngine.Proofs.Value.Printing
import ScriptEngine.Session

/-!
# Printing values of any heap

Arrays and objects may contain themselves, and references may lead anywhere.

* **Texts** (`Heap.Shows`): what a value is printed as inside other containers. A container that it stands in is
  printed by dots, any other in full, however often it is printed.
* **Tangled values** (`Heap.Tangled`): printing them comes to a reference cell that leads back to itself through
  references alone, without a container in between.
* **Lengthy values** (`Heap.Lengthy`): printing them comes to a number with more digits than the host writes.

A value has a text exactly if it is neither tangled nor lengthy; printing one that is not tangled always ends
(`printing_ends`). That there are steps enough (`render_ne_endless`) is by a measure of what is left of the heap on
the way to a place: each container stands around a place at most once, and between two of them no reference cell
repeats. What comes of the steps is then the text (`shows_of_render`) or the number that is too long
(`lengthy_of_render`).
-/

namespace ScriptEngine

open Relation (TransGen)

/-- How a container inside itself is printed. -/
def Cell.dots : Cell → Text
  | .array _ => "[...]"
  | .object _ => ".\x7b...\x7d"

namespace Value

/-- A variant without a payload. -/
def IsBare (v : Value) : Prop := v.variant?.isSome ∧ v.isNull

/-- A text with the variant that a value carries. -/
def labelled (v : Value) (t : Text) : Text :=
  match v.variant? with
  | some variant => variant.render ++ "(" ++ t ++ ")"
  | none => t

/-- Whether the strings of a value are quoted: inside a variant they always are. -/
def quotes (v : Value) (quote : Bool) : Bool := quote || v.variant?.isSome

/-- A container that is printed by its contents. Enums are printed by their names. -/
def ListsContents (v : Value) : Prop := v.kind = .object → v.enumBase? = none

/-- A number that the host does not write. -/
def IsTooLong (v : Value) : Prop := ∃ x, v.payload = .number x ∧ ¬ Number.isWritable x.value

end Value

namespace Heap

/-! ## Texts -/

/-- The text of a payload that is neither a reference nor a container, unless it is a number that is too long. -/
def plainText? (h : Heap) (quote : Bool) : Payload → Option Text
  | .null => some "null"
  | .bool b => some (if b then "true" else "false")
  | .number x => Number.text? x.value
  | .string t => some (if quote then Text.doubleQuoted t else t)
  | .function id => some ("<func " ++ h.closureName id ++ ">")
  | .native n => some ("<native " ++ n.name ++ ">")
  | .reference _ | .array _ | .object _ => none

/-- A value is printed as a text inside the containers `within`. -/
inductive Shows (h : Heap) : Bool → List Cell → Value → Text → Prop
  | bare {quote within v variant} (hv : v.variant? = some variant) (hn : v.isNull) :
      h.Shows quote within v variant.render
  | plain {quote within v t} (hb : ¬ v.IsBare) (ht : h.plainText? (v.quotes quote) v.payload = some t) :
      h.Shows quote within v (v.labelled t)
  | reference {quote within v id t} (hv : v.payload = .reference id) (ht : h.Shows true within (h.reference id) t) :
      h.Shows quote within v (v.labelled ("&" ++ t))
  | again {quote within v c} (hv : v.cell? = some c) (hc : c ∈ within) : h.Shows quote within v (v.labelled c.dots)
  | array {quote within v id} {T : Value → Text} (hv : v.payload = .array id) (hc : .array id ∉ within)
      (ht : ∀ w ∈ h.contents (.array id), h.Shows true (.array id :: within) w (T w)) :
      h.Shows quote within v (v.labelled ("[" ++ Text.joinWith ", " ((h.array id).toList.map T) ++ "]"))
  | enum {quote within v id e} (hv : v.payload = .object id) (hc : .object id ∉ within) (he : v.enumBase? = some e) :
      h.Shows quote within v (v.labelled ("<enum " ++ e.name ++ ">"))
  | object {quote within v id} {T : Value → Text} (hv : v.payload = .object id) (hc : .object id ∉ within)
      (he : v.enumBase? = none) (ht : ∀ w ∈ h.contents (.object id), h.Shows true (.object id :: within) w (T w)) :
      h.Shows quote within v (v.labelled (".\x7b" ++ Text.joinWith ", "
        ((h.object id).entries.map fun (key, w) => key ++ ": " ++ T w) ++ "\x7d"))

/-- A reference cell holds a reference to another. -/
def Points (h : Heap) (i j : Nat) : Prop := (h.reference i).payload = .reference j

/-- A reference cell leads back to itself through references alone. -/
def Circles (h : Heap) (i : Nat) : Prop := TransGen h.Points i i

/-- Printing a value inside the containers `within` comes to a value of some sort. -/
inductive ComesTo (h : Heap) (sort : Value → Prop) : List Cell → Value → Prop
  | here {within v} (hs : sort v) : h.ComesTo sort within v
  | target {within v id} (hv : v.payload = .reference id) (ht : h.ComesTo sort within (h.reference id)) :
      h.ComesTo sort within v
  | content {within v c w} (hv : v.cell? = some c) (hl : v.ListsContents) (hc : c ∉ within) (hw : w ∈ h.contents c)
      (ht : h.ComesTo sort (c :: within) w) : h.ComesTo sort within v

/-- A reference to a cell that leads back to itself through references alone. -/
def EntersCircle (h : Heap) (v : Value) : Prop := ∃ id, v.payload = .reference id ∧ h.Circles id

/-- Printing a value inside the containers `within` comes to a reference cell that leads back to itself through
references alone. -/
def Tangled (h : Heap) : List Cell → Value → Prop := h.ComesTo h.EntersCircle

/-- Printing a value inside the containers `within` comes to a number that the host does not write. -/
def Lengthy (h : Heap) : List Cell → Value → Prop := h.ComesTo Value.IsTooLong

/-! ## A step of printing -/

variable {h : Heap} {v w : Value} {c : Cell} {within : List Cell} {quote : Bool} {depth id i j : Nat} {t : Text}
  {sort : Value → Prop} {e : Unprintable}

/-- The text of a value by the text of its payload. -/
def labelledText (v : Value) (quote : Bool) (payload : Bool → Except Unprintable Text) : Except Unprintable Text :=
  match v.variant? with
  | some variant =>
    if v.isNull then .ok variant.render else (payload true).map fun t => variant.render ++ "(" ++ t ++ ")"
  | none => payload quote

/-- The text of a payload, its parts being printed in `depth` steps. -/
def payloadText (h : Heap) (depth : Nat) (within : List Cell) (v : Value) (quote : Bool) : Except Unprintable Text :=
  match v.payload with
  | .null => .ok "null"
  | .bool b => .ok (if b then "true" else "false")
  | .number x => (Number.text? x.value).elim (.error .tooLong) .ok
  | .string t => .ok (if quote then Text.doubleQuoted t else t)
  | .function id => .ok ("<func " ++ h.closureName id ++ ">")
  | .native n => .ok ("<native " ++ n.name ++ ">")
  | .reference id => do
    let target ← h.render depth true within (h.reference id)
    return "&" ++ target
  | .array id =>
    if .array id ∈ within then .ok "[...]"
    else do
      let items ← (h.array id).toList.mapM (h.render depth true (.array id :: within))
      return "[" ++ Text.joinWith ", " items ++ "]"
  | .object id =>
    if .object id ∈ within then .ok ".\x7b...\x7d"
    else match v.enumBase? with
      | some e => .ok ("<enum " ++ e.name ++ ">")
      | none => do
        let items ← (h.object id).entries.mapM fun (key, item) => do
          let text ← h.render depth true (.object id :: within) item
          return (key ++ ": " ++ text : Text)
        return ".\x7b" ++ Text.joinWith ", " items ++ "\x7d"

theorem render_succ : h.render (depth + 1) quote within v = labelledText v quote (h.payloadText depth within v) := by
  rw [render]
  rfl

theorem labelledText_eq {payload : Bool → Except Unprintable Text} (hb : ¬ v.IsBare) :
    labelledText v quote payload = (payload (v.quotes quote)).map v.labelled := by
  unfold labelledText Value.labelled Value.quotes
  cases hv : v.variant? with
  | none => cases hp : payload quote <;> simp [hp, Except.map]
  | some variant =>
    have hn : v.isNull = false := by simpa [Value.IsBare, hv] using hb
    simp [hn]

theorem not_isBare_of_payload (hp : v.payload ≠ .null) : ¬ v.IsBare := fun hb => by
  have hn : v.payload.kind = .null := of_decide_eq_true hb.2
  cases hv : v.payload <;> simp [hv, Payload.kind] at hn hp

/-- A value with a payload other than null is printed by its payload. -/
theorem render_payload (hp : v.payload ≠ .null) :
    h.render (depth + 1) quote within v = (h.payloadText depth within v (v.quotes quote)).map v.labelled := by
  rw [render_succ, labelledText_eq (not_isBare_of_payload hp)]

theorem render_bare {variant : VariantTag} (hv : v.variant? = some variant) (hn : v.isNull) :
    h.render (depth + 1) quote within v = .ok variant.render := by
  rw [render_succ, labelledText, hv]
  simp only [hn, if_true]

theorem render_plain (hb : ¬ v.IsBare) (ht : h.plainText? (v.quotes quote) v.payload = some t) :
    h.render (depth + 1) quote within v = .ok (v.labelled t) := by
  have hpayload : h.payloadText depth within v (v.quotes quote) = .ok t := by
    rw [payloadText]
    cases hv : v.payload with
    | reference | array | object =>
      rw [hv] at ht
      cases ht
    | number x =>
      rw [hv] at ht
      simp only
      rw [show Number.text? x.value = some t from ht]
      rfl
    | _ =>
      rw [hv] at ht
      exact congrArg Except.ok (Option.some.inj ht)
  rw [render_succ, labelledText_eq hb, hpayload]
  rfl

theorem render_again (hv : v.cell? = some c) (hc : c ∈ within) :
    h.render (depth + 1) quote within v = .ok (v.labelled c.dots) := by
  unfold Value.cell? at hv
  split at hv
  · next hp =>
    cases hv
    rw [render_payload (by rw [hp]; exact nofun), payloadText, hp]
    simp only
    rw [if_pos hc]
    rfl
  · next hp =>
    cases hv
    rw [render_payload (by rw [hp]; exact nofun), payloadText, hp]
    simp only
    rw [if_pos hc]
    rfl
  · cases hv

theorem render_enum {e : EnumTag} (hv : v.payload = .object id) (hc : .object id ∉ within) (he : v.enumBase? = some e) :
    h.render (depth + 1) quote within v = .ok (v.labelled ("<enum " ++ e.name ++ ">")) := by
  rw [render_payload (by rw [hv]; exact nofun), payloadText, hv]
  simp only
  rw [if_neg hc, he]
  rfl

theorem render_reference (hv : v.payload = .reference id) : h.render (depth + 1) quote within v =
    (h.render depth true within (h.reference id)).map fun t => v.labelled ("&" ++ t) := by
  rw [render_payload (by rw [hv]; exact nofun), payloadText, hv]
  simp only
  cases h.render depth true within (h.reference id) <;> rfl

theorem render_array (hv : v.payload = .array id) (hc : .array id ∉ within) :
    h.render (depth + 1) quote within v =
      ((h.array id).toList.mapM (h.render depth true (.array id :: within))).map fun texts =>
        v.labelled ("[" ++ Text.joinWith ", " texts ++ "]") := by
  rw [render_payload (by rw [hv]; exact nofun), payloadText, hv]
  simp only
  rw [if_neg hc]
  cases (h.array id).toList.mapM (h.render depth true (.array id :: within)) <;> rfl

/-- The text of an entry of an object. -/
def entryText (h : Heap) (depth : Nat) (within : List Cell) (entry : Text × Value) : Except Unprintable Text :=
  (h.render depth true within entry.2).map fun t => entry.1 ++ ": " ++ t

theorem render_object (hv : v.payload = .object id) (hc : .object id ∉ within) (he : v.enumBase? = none) :
    h.render (depth + 1) quote within v =
      ((h.object id).entries.mapM (h.entryText depth (.object id :: within))).map fun texts =>
        v.labelled (".\x7b" ++ Text.joinWith ", " texts ++ "\x7d") := by
  have hentry : (fun (key, item) => do
      let text ← h.render depth true (.object id :: within) item
      return (key ++ ": " ++ text : Text)) = h.entryText depth (.object id :: within) := by
    funext ⟨key, item⟩
    show (h.render depth true (.object id :: within) item >>= fun text => _) = _
    rw [entryText]
    cases h.render depth true (.object id :: within) item <;> rfl
  rw [render_payload (by rw [hv]; exact nofun), payloadText, hv]
  simp only
  rw [if_neg hc, he]
  simp only
  rw [hentry]
  cases (h.object id).entries.mapM (h.entryText depth (.object id :: within)) <;> rfl

/-! ## The ways to print a value -/

/-- The ways to print a value inside the containers `within`: at once, by a target or by contents. -/
inductive Form (h : Heap) (quote : Bool) (within : List Cell) (v : Value) : Prop
  | bare {variant : VariantTag} (hv : v.variant? = some variant) (hn : v.isNull)
  | plain {t : Text} (hb : ¬ v.IsBare) (ht : h.plainText? (v.quotes quote) v.payload = some t)
  | tooLong {x : Number} (hv : v.payload = .number x) (hx : ¬ Number.isWritable x.value)
  | reference {id : Nat} (hv : v.payload = .reference id)
  | again {c : Cell} (hv : v.cell? = some c) (hc : c ∈ within)
  | array {id : Nat} (hv : v.payload = .array id) (hc : .array id ∉ within)
  | enum {id : Nat} {e : EnumTag} (hv : v.payload = .object id) (hc : .object id ∉ within) (he : v.enumBase? = some e)
  | object {id : Nat} (hv : v.payload = .object id) (hc : .object id ∉ within) (he : v.enumBase? = none)

/-- Every value is printed in one of the ways. -/
theorem form (h : Heap) (quote : Bool) (within : List Cell) (v : Value) : h.Form quote within v := by
  cases hv : v.payload with
  | null =>
    by_cases hb : v.IsBare
    · obtain ⟨variant, hvariant⟩ := Option.isSome_iff_exists.1 hb.1
      exact .bare hvariant hb.2
    · exact .plain hb (t := "null") (by rw [hv]; rfl)
  | number x =>
    by_cases hx : Number.isWritable x.value
    · exact .plain (t := Number.text x.value) (not_isBare_of_payload (by rw [hv]; exact nofun))
        (by rw [hv]; exact if_pos hx)
    · exact .tooLong hv hx
  | bool | string | function | native =>
    exact .plain (not_isBare_of_payload (by rw [hv]; exact nofun)) (by rw [hv]; rfl)
  | reference id => exact .reference hv
  | array id =>
    by_cases hc : .array id ∈ within
    · exact .again (by rw [Value.cell?, hv]) hc
    · exact .array hv hc
  | object id =>
    by_cases hc : .object id ∈ within
    · exact .again (by rw [Value.cell?, hv]) hc
    · cases he : v.enumBase? with
      | some e => exact .enum hv hc he
      | none => exact .object hv hc he

theorem cell?_array (hv : v.payload = .array id) : v.cell? = some (.array id) := by rw [Value.cell?, hv]

theorem cell?_object (hv : v.payload = .object id) : v.cell? = some (.object id) := by rw [Value.cell?, hv]

theorem listsContents_array (hv : v.payload = .array id) : v.ListsContents := fun hk => by
  rw [Value.kind, hv] at hk
  cases hk

theorem map_eq_error {α β : Type} {f : α → β} {x : Except Unprintable α} : x.map f = .error e ↔ x = .error e := by
  cases x <;> simp [Except.map]

theorem map_eq_ok {α β : Type} {f : α → β} {x : Except Unprintable α} {b : β} :
    x.map f = .ok b ↔ ∃ a, x = .ok a ∧ f a = b := by
  cases x <;> simp [Except.map]

/-- A list is mapped to a list of results, or fails as one of its elements does. -/
theorem mapM_cases {α β : Type} (f : α → Except Unprintable β) (xs : List α) :
    (∃ ys, xs.mapM f = .ok ys ∧ ∀ x ∈ xs, ∃ y, f x = .ok y) ∨
      ∃ e, xs.mapM f = .error e ∧ ∃ x ∈ xs, f x = .error e := by
  induction xs with
  | nil => exact .inl ⟨[], rfl, nofun⟩
  | cons x xs ih =>
    rw [List.mapM_cons]
    cases hx : f x with
    | error e => exact .inr ⟨e, rfl, x, .head _, hx⟩
    | ok y =>
      obtain ⟨ys, hys, hall⟩ | ⟨e, he, z, hz, hfz⟩ := ih
      · exact .inl ⟨y :: ys, by rw [hys]; rfl, List.forall_mem_cons.2 ⟨⟨y, hx⟩, hall⟩⟩
      · exact .inr ⟨e, by rw [he]; rfl, z, .tail _ hz, hfz⟩

theorem exists_error_of_mapM {α β : Type} {f : α → Except Unprintable β} {xs : List α} (hm : xs.mapM f = .error e) :
    ∃ x ∈ xs, f x = .error e := by
  obtain ⟨ys, hys, -⟩ | ⟨e', he, hx⟩ := mapM_cases f xs
  · cases hys.symm.trans hm
  · cases he.symm.trans hm
    exact hx

theorem exists_ok_of_mapM {α β : Type} {f : α → Except Unprintable β} {xs : List α} {ys : List β}
    (hm : xs.mapM f = .ok ys) : ∀ x ∈ xs, ∃ y, f x = .ok y := by
  obtain ⟨zs, -, hall⟩ | ⟨e, he, -⟩ := mapM_cases f xs
  · exact hall
  · cases he.symm.trans hm

/-- The results of a list are those of a function, as equal elements have equal results. -/
theorem eq_map_of_mapM {α β : Type} {f : α → Except Unprintable β} {xs : List α} {ys : List β} (hm : xs.mapM f = .ok ys)
    {g : α → β} (hg : ∀ x ∈ xs, ∀ y, f x = .ok y → y = g x) : ys = xs.map g := by
  have hmap : ∀ x ∈ xs, f x = .ok (g x) := by
    intro x hx
    obtain ⟨y, hy⟩ := exists_ok_of_mapM hm x hx
    rw [hy, hg x hx y hy]
  exact Except.ok.inj (hm.symm.trans (mapM_eq_ok_map hmap))

/-- If printing fails on a container that is not around it, it fails on one of the contents. -/
theorem exists_content_error (hr : h.render (depth + 1) quote within v = .error e) (hv : v.cell? = some c)
    (hl : v.ListsContents) (hc : c ∉ within) : ∃ w ∈ h.contents c, h.render depth true (c :: within) w = .error e := by
  unfold Value.cell? at hv
  split at hv
  · next id hp =>
    cases hv
    rw [render_array hp hc, map_eq_error] at hr
    exact exists_error_of_mapM hr
  · next id hp =>
    cases hv
    rw [render_object hp hc (hl (by rw [Value.kind, hp]; rfl)), map_eq_error] at hr
    obtain ⟨entry, hentry, he⟩ := exists_error_of_mapM hr
    exact ⟨entry.2, List.mem_map_of_mem hentry, map_eq_error.1 he⟩
  · cases hv

/-! ## Circles -/

/-- What a circle leads to is a circle. -/
theorem Circles.next (hc : h.Circles i) (hp : h.Points i j) : h.Circles j := by
  obtain ⟨k, hik, hki⟩ := Relation.TransGen.head'_iff.1 hc
  obtain rfl : j = k := by
    unfold Points at hp hik
    rw [hp] at hik
    exact Payload.reference.inj hik
  exact .tail' hki hp

theorem Circles.points (hc : h.Circles i) : ∃ j, h.Points i j ∧ h.Circles j := by
  obtain ⟨j, hij, -⟩ := Relation.TransGen.head'_iff.1 hc
  exact ⟨j, hij, hc.next hij⟩

/-- No number of steps is enough for a circle of references. -/
theorem render_circle (hv : v.payload = .reference id) (hc : h.Circles id) :
    h.render depth quote within v = .error .endless := by
  induction depth generalizing v id quote with
  | zero => rfl
  | succ depth ih =>
    obtain ⟨j, hj, hcircle⟩ := hc.points
    rw [render_reference hv, ih hj hcircle]
    rfl

/-! ## What comes of printing -/

/-- Only a number that the host does not write makes a value too long. -/
theorem lengthy_of_render (hr : h.render depth quote within v = .error .tooLong) : h.Lengthy within v := by
  induction depth generalizing within v quote with
  | zero => cases hr
  | succ depth ih =>
    cases h.form quote within v with
    | bare hv hn => cases (render_bare hv hn).symm.trans hr
    | plain hb ht => cases (render_plain hb ht).symm.trans hr
    | tooLong hv hx => exact .here ⟨_, hv, hx⟩
    | reference hv =>
      rw [render_reference hv, map_eq_error] at hr
      exact .target hv (ih hr)
    | again hv hc => cases (render_again hv hc).symm.trans hr
    | array hv hc =>
      have hl := listsContents_array hv
      obtain ⟨w, hw, he⟩ := exists_content_error hr (cell?_array hv) hl hc
      exact .content (cell?_array hv) hl hc hw (ih he)
    | enum hv hc he => cases (render_enum hv hc he).symm.trans hr
    | object hv hc he =>
      obtain ⟨w, hw, hew⟩ := exists_content_error hr (cell?_object hv) (fun _ => he) hc
      exact .content (cell?_object hv) (fun _ => he) hc hw (ih hew)

/-- What a value is printed as is a text of it. -/
theorem shows_of_render (hr : h.render depth quote within v = .ok t) : h.Shows quote within v t := by
  induction depth generalizing within v quote t with
  | zero => cases hr
  | succ depth ih =>
    -- The texts of the contents are chosen by a function, as equal contents have equal texts.
    let T (within : List Cell) (w : Value) : Text := (h.render depth true within w).toOption.getD []
    have hT {within : List Cell} {w : Value} {t : Text} (hw : h.render depth true within w = .ok t) :
        t = T within w := by simp [T, hw, Except.toOption]
    cases h.form quote within v with
    | bare hv hn =>
      cases (render_bare hv hn).symm.trans hr
      exact .bare hv hn
    | plain hb ht =>
      cases (render_plain hb ht).symm.trans hr
      exact .plain hb ht
    | tooLong hv hx => cases (render_tooLong hv hx).symm.trans hr
    | reference hv =>
      rw [render_reference hv, map_eq_ok] at hr
      obtain ⟨target, htarget, rfl⟩ := hr
      exact .reference hv (ih htarget)
    | again hv hc =>
      cases (render_again hv hc).symm.trans hr
      exact .again hv hc
    | array hv hc =>
      rw [render_array hv hc, map_eq_ok] at hr
      obtain ⟨texts, htexts, rfl⟩ := hr
      rw [eq_map_of_mapM htexts fun w _ t hw => hT hw]
      refine .array hv hc fun w hw => ?_
      obtain ⟨t, ht⟩ := exists_ok_of_mapM htexts w hw
      exact hT ht ▸ ih ht
    | enum hv hc he =>
      cases (render_enum hv hc he).symm.trans hr
      exact .enum hv hc he
    | @object id hv hc he =>
      rw [render_object hv hc he, map_eq_ok] at hr
      obtain ⟨texts, htexts, rfl⟩ := hr
      have hentry {entry : Text × Value} {t : Text} (he : h.entryText depth (.object id :: within) entry = .ok t) :
          ∃ u, h.render depth true (.object id :: within) entry.2 = .ok u ∧ entry.1 ++ ": " ++ u = t := map_eq_ok.1 he
      have htexts' : texts = (h.object id).entries.map fun (key, w) => key ++ ": " ++ T (.object id :: within) w := by
        refine eq_map_of_mapM htexts fun entry _ t ht => ?_
        obtain ⟨u, hu, rfl⟩ := hentry ht
        rw [hT hu]
      rw [htexts']
      refine .object hv hc he fun w hw => ?_
      obtain ⟨entry, hmem, rfl⟩ := List.mem_map.1 hw
      obtain ⟨t, ht⟩ := exists_ok_of_mapM htexts entry hmem
      obtain ⟨u, hu, -⟩ := hentry ht
      exact hT hu ▸ ih hu

/-! ## Values that are not tangled -/

/-- Only cells of the heap have contents. -/
theorem holds_of_mem_contents (hw : w ∈ h.contents c) : h.holds c := by
  cases c with
  | array id =>
    by_contra hn
    have hnone : h.arrays[id]? = none := Array.getElem?_eq_none (by simpa [holds] using hn)
    simp [contents, Heap.array, Array.getD_eq_getD_getElem?, hnone] at hw
  | object id =>
    by_contra hn
    have hnone : h.objects[id]? = none := Array.getElem?_eq_none (by simpa [holds] using hn)
    rw [contents, Heap.object, Array.getD_eq_getD_getElem?, hnone] at hw
    cases hw

/-- A place that printing comes to: the containers around it are different, and the reference cells `refs` that led
to it from the innermost of them are different and lead on to what is there. -/
structure Place (h : Heap) (within : List Cell) (refs : List Nat) (v : Value) : Prop where
  nodup : within.Nodup
  cells : within ⊆ h.cells
  refsNodup : refs.Nodup
  refsLt : ∀ i ∈ refs, i < h.references.size
  leads : ∀ i ∈ refs, ∀ j, v.payload = .reference j → TransGen h.Points i j

/-- The steps that are enough from a place on: for the reference cells that may still come before the next container,
and for as many containers as there may still be, each with all reference cells behind it. -/
def room (h : Heap) (within : List Cell) (refs : List Nat) : Nat :=
  (h.arrays.size + h.objects.size - within.length) * (h.references.size + 1) + (h.references.size - refs.length) + 2

namespace Place

variable {refs : List Nat}

theorem length_within (hp : h.Place within refs v) : within.length ≤ h.arrays.size + h.objects.size := by
  simpa [Heap.cells] using (List.subperm_of_subset hp.nodup hp.cells).length_le

theorem length_refs (hp : h.Place within refs v) : refs.length ≤ h.references.size := by
  have hsub : refs ⊆ List.range h.references.size := fun i hi => List.mem_range.2 (hp.refsLt i hi)
  simpa using (List.subperm_of_subset hp.refsNodup hsub).length_le

/-- The target of a reference takes a step less, unless the reference comes back. -/
theorem target (hp : h.Place within refs v) (hv : v.payload = .reference id) (hn : ¬ h.Circles id)
    (hlt : id < h.references.size) :
    h.Place within (id :: refs) (h.reference id) ∧ h.room within (id :: refs) + 1 = h.room within refs := by
  have hnew : h.Place within (id :: refs) (h.reference id) := by
    refine ⟨hp.nodup, hp.cells, List.nodup_cons.2 ⟨fun hm => hn (hp.leads id hm id hv), hp.refsNodup⟩,
      List.forall_mem_cons.2 ⟨hlt, hp.refsLt⟩, ?_⟩
    intro i hi j hj
    obtain rfl | hi := List.mem_cons.1 hi
    · exact .single hj
    · exact (hp.leads i hi id hv).tail hj
  refine ⟨hnew, ?_⟩
  have hlength := hnew.length_refs
  simp only [room, List.length_cons] at hlength ⊢
  omega

/-- The contents of a container that the place is not in take a step less. -/
theorem content (hp : h.Place within refs v) (hc : c ∉ within) (hw : w ∈ h.contents c) :
    h.Place (c :: within) [] w ∧ h.room (c :: within) [] + 1 ≤ h.room within refs := by
  have hnew : h.Place (c :: within) [] w :=
    ⟨List.nodup_cons.2 ⟨hc, hp.nodup⟩,
      List.cons_subset.2 ⟨mem_cells_of_holds (holds_of_mem_contents hw), hp.cells⟩, List.nodup_nil,
      nofun, nofun⟩
  refine ⟨hnew, ?_⟩
  have hlength := hnew.length_within
  simp only [List.length_cons] at hlength
  obtain ⟨k, hk⟩ : ∃ k, h.arrays.size + h.objects.size - within.length = k + 1 :=
    ⟨h.arrays.size + h.objects.size - within.length - 1, by omega⟩
  have hk' : h.arrays.size + h.objects.size - (within.length + 1) = k := by omega
  simp only [room, List.length_cons, List.length_nil, hk, hk', Nat.add_mul, Nat.one_mul]
  omega

end Place

/-- The steps that are enough for a place are enough for a value that is not tangled. -/
theorem render_ne_endless {refs : List Nat} (hp : h.Place within refs v) (ht : ¬ h.Tangled within v)
    (hd : h.room within refs ≤ depth) : h.render depth quote within v ≠ .error .endless := by
  induction depth generalizing within refs v quote with
  | zero => simp [room] at hd
  | succ depth ih =>
    intro hr
    have content {c : Cell} (hc : v.cell? = some c) (hl : v.ListsContents) (hn : c ∉ within) : False := by
      obtain ⟨w, hw, he⟩ := exists_content_error hr hc hl hn
      obtain ⟨hplace, hroom⟩ := hp.content hn hw
      exact ih hplace (fun htw => ht (.content hc hl hn hw htw)) (by omega) he
    cases h.form quote within v with
    | bare hv hn => cases (render_bare hv hn).symm.trans hr
    | plain hb ht => cases (render_plain hb ht).symm.trans hr
    | tooLong hv hx => cases (render_tooLong hv hx).symm.trans hr
    | @reference id hv =>
      rw [render_reference hv, map_eq_error] at hr
      by_cases hlt : id < h.references.size
      · obtain ⟨hplace, hroom⟩ := hp.target hv (fun hc => ht (.here ⟨id, hv, hc⟩)) hlt
        exact ih hplace (fun htw => ht (.target hv htw)) (by omega) hr
      · -- There is no such cell, and null is printed.
        have hnull : h.reference id = .null := by
          simp [Heap.reference, Array.getD_eq_getD_getElem?, Array.getElem?_eq_none (Nat.not_lt.1 hlt)]
        obtain ⟨d, rfl⟩ : ∃ d, depth = d + 1 := ⟨depth - 1, by simp only [room] at hd; omega⟩
        have hb : ¬ Value.IsBare .null := fun hb => by cases hb.1
        rw [hnull, render_plain hb (t := "null") rfl] at hr
        cases hr
    | again hv hc => cases (render_again hv hc).symm.trans hr
    | array hv hc => exact content (cell?_array hv) (listsContents_array hv) hc
    | enum hv hc he => cases (render_enum hv hc he).symm.trans hr
    | object hv hc he => exact content (cell?_object hv) (fun _ => he) hc

/-! ## Texts are unique -/

/-- A value is printed as nothing but the text that is its own. -/
theorem Shows.eq_of_render (hs : h.Shows quote within v t) {t' : Text} (hr : h.render depth quote within v = .ok t') :
    t' = t := by
  induction hs generalizing depth t' with
  | bare hv hn =>
    cases depth with
    | zero => cases hr
    | succ depth => exact (Except.ok.inj ((render_bare hv hn).symm.trans hr)).symm
  | plain hb ht =>
    cases depth with
    | zero => cases hr
    | succ depth => exact (Except.ok.inj ((render_plain hb ht).symm.trans hr)).symm
  | reference hv _ ih =>
    cases depth with
    | zero => cases hr
    | succ depth =>
      rw [render_reference hv, map_eq_ok] at hr
      obtain ⟨u, hu, rfl⟩ := hr
      rw [ih hu]
  | again hv hc =>
    cases depth with
    | zero => cases hr
    | succ depth => exact (Except.ok.inj ((render_again hv hc).symm.trans hr)).symm
  | @array quote within v id T hv hc _ ih =>
    cases depth with
    | zero => cases hr
    | succ depth =>
      rw [render_array hv hc, map_eq_ok] at hr
      obtain ⟨texts, htexts, rfl⟩ := hr
      rw [eq_map_of_mapM htexts fun w hw _ hu => ih w hw hu]
  | enum hv hc he =>
    cases depth with
    | zero => cases hr
    | succ depth => exact (Except.ok.inj ((render_enum hv hc he).symm.trans hr)).symm
  | @object quote within v id T hv hc he _ ih =>
    cases depth with
    | zero => cases hr
    | succ depth =>
      rw [render_object hv hc he, map_eq_ok] at hr
      obtain ⟨texts, htexts, rfl⟩ := hr
      have hentries : texts = (h.object id).entries.map fun (key, w) => key ++ ": " ++ T w := by
        refine eq_map_of_mapM htexts fun entry hentry u hu => ?_
        obtain ⟨w, hw, rfl⟩ := map_eq_ok.1 hu
        rw [ih entry.2 (List.mem_map_of_mem hentry) hw]
      rw [hentries]

/-! ## Values without a text -/

/-- Values of a sort without a text: no text of a payload is theirs, they are no containers, and the target of a
reference among them is one of them. -/
structure Textless (h : Heap) (sort : Value → Prop) : Prop where
  plain : ∀ {v quote}, sort v → h.plainText? quote v.payload = none
  cell : ∀ {v}, sort v → v.cell? = none
  target : ∀ {v id}, sort v → v.payload = .reference id → sort (h.reference id)

theorem textless_circle : h.Textless h.EntersCircle where
  plain := by
    rintro v quote ⟨id, hv, -⟩
    rw [hv]
    rfl
  cell := by
    rintro v ⟨id, hv, -⟩
    rw [Value.cell?, hv]
  target := by
    rintro v i ⟨id, hv, hc⟩ hv'
    cases hv.symm.trans hv'
    obtain ⟨j, hj, hcircle⟩ := hc.points
    exact ⟨j, hj, hcircle⟩

theorem textless_tooLong : h.Textless Value.IsTooLong where
  plain := by
    rintro v quote ⟨x, hv, hx⟩
    rw [hv]
    exact if_neg hx
  cell := by
    rintro v ⟨x, hv, -⟩
    rw [Value.cell?, hv]
  target := by
    rintro v id ⟨x, hv, -⟩ hv'
    cases hv.symm.trans hv'

namespace Textless

variable (hs : h.Textless sort)
include hs

theorem not_plain (hp : h.plainText? quote v.payload = some t) : ¬ h.ComesTo sort within v := by
  intro ht
  cases ht with
  | here hv => cases (hs.plain hv).symm.trans hp
  | target hv =>
    rw [hv] at hp
    cases hp
  | content hv =>
    unfold Value.cell? at hv
    split at hv
    · next he => rw [he] at hp; cases hp
    · next he => rw [he] at hp; cases hp
    · cases hv

theorem reference (hv : v.payload = .reference id) (ht : h.ComesTo sort within v) :
    h.ComesTo sort within (h.reference id) := by
  cases ht with
  | here hv' => exact .here (hs.target hv' hv)
  | target hv' ht =>
    cases hv.symm.trans hv'
    exact ht
  | content hv' =>
    rw [Value.cell?, hv] at hv'
    cases hv'

theorem content (hv : v.cell? = some c) (ht : h.ComesTo sort within v) :
    v.ListsContents ∧ c ∉ within ∧ ∃ w ∈ h.contents c, h.ComesTo sort (c :: within) w := by
  cases ht with
  | here hv' => cases (hs.cell hv').symm.trans hv
  | target hv' =>
    rw [Value.cell?, hv'] at hv
    cases hv
  | content hv' hl hc hw ht =>
    cases hv.symm.trans hv'
    exact ⟨hl, hc, _, hw, ht⟩

/-- A value with a text comes to no value without one. -/
theorem not_comesTo (ht : h.Shows quote within v t) : ¬ h.ComesTo sort within v := by
  induction ht with
  | @bare quote within v variant hv hn =>
    have hp : v.payload = .null := by
      have hk : v.payload.kind = .null := of_decide_eq_true hn
      cases hp : v.payload <;> simp [hp, Payload.kind] at hk ⊢
    have hplain : h.plainText? quote v.payload = some "null" := by
      rw [hp]
      rfl
    exact hs.not_plain hplain
  | plain _ ht => exact hs.not_plain ht
  | reference hv _ ih => exact fun ht => ih (hs.reference hv ht)
  | again hv hc => exact fun ht => (hs.content hv ht).2.1 hc
  | array hv hc _ ih =>
    intro ht
    obtain ⟨-, -, w, hw, htw⟩ := hs.content (cell?_array hv) ht
    exact ih w hw htw
  | enum hv hc he =>
    intro ht
    obtain ⟨hl, -, -⟩ := hs.content (cell?_object hv) ht
    rw [hl (by rw [Value.kind, hv]; rfl)] at he
    cases he
  | object hv hc he _ ih =>
    intro ht
    obtain ⟨-, -, w, hw, htw⟩ := hs.content (cell?_object hv) ht
    exact ih w hw htw

end Textless

end Heap

/-! ## Printing -/

variable {m : Machine} {v : Value} {t : Text}

/-- The steps that printing takes are enough for a value that is not tangled. -/
theorem Heap.render_renderDepth (h : Heap) (quote : Bool) (hv : ¬ h.Tangled [] v) :
    h.render h.renderDepth quote [] v ≠ .error .endless := by
  have hplace : h.Place [] [] v := ⟨List.nodup_nil, nofun, List.nodup_nil, nofun, nofun⟩
  refine Heap.render_ne_endless hplace hv ?_
  simp only [Heap.room, Heap.renderDepth, List.length_nil, Nat.sub_zero, Nat.add_mul]
  omega

/-- A value that is neither tangled nor lengthy is printed as the only text that is its own. -/
theorem Heap.exists_text (h : Heap) (quote : Bool) (hv : ¬ h.Tangled [] v) (hl : ¬ h.Lengthy [] v) :
    ∃ t, h.render h.renderDepth quote [] v = .ok t ∧ ∀ u, h.Shows quote [] v u ↔ u = t := by
  match hr : h.render h.renderDepth quote [] v with
  | .ok t =>
    exact ⟨t, rfl, fun u => ⟨fun hu => (hu.eq_of_render hr).symm, fun hu => hu ▸ Heap.shows_of_render hr⟩⟩
  | .error .tooLong => exact absurd (Heap.lengthy_of_render hr) hl
  | .error .endless => exact absurd hr (h.render_renderDepth quote hv)

/-- A lengthy value that is not tangled ends printing with the number that is too long. -/
theorem Heap.Lengthy.render_eq {h : Heap} (quote : Bool) (hl : h.Lengthy [] v) (hv : ¬ h.Tangled [] v) :
    h.render h.renderDepth quote [] v = .error .tooLong := by
  match hr : h.render h.renderDepth quote [] v with
  | .ok t => exact absurd hl (Heap.textless_tooLong.not_comesTo (Heap.shows_of_render hr))
  | .error .tooLong => rfl
  | .error .endless => exact absurd hr (h.render_renderDepth quote hv)

/-- How printing a tangled value ends: without end, unless a number that is too long comes first. -/
theorem Heap.Tangled.readText {quote : Bool} (hv : m.heap.Tangled [] v) : ∃ e,
    Eval.readText (fun h => h.render h.renderDepth quote [] v) m = .error (.crashed e) m ∧
      (e.kind = .recursion ∨ e.kind = .value ∧ m.heap.Lengthy [] v) := by
  match hr : m.heap.render m.heap.renderDepth quote [] v with
  | .ok t => exact absurd hv (Heap.textless_circle.not_comesTo (Heap.shows_of_render hr))
  | .error .endless => exact ⟨_, Eval.readText_error hr, .inl rfl⟩
  | .error .tooLong => exact ⟨_, Eval.readText_error hr, .inr ⟨rfl, Heap.lengthy_of_render hr⟩⟩

/-- Printing a value ends exactly if it is not tangled, with strings quoted or not. It then gives the only text that
the value is printed as: a container that is met again inside itself is printed by dots, and any other container in
full wherever it is met. Only if there is a number in it that the host does not write, it ends with the failure of the
host. A tangled value is printed as no text, and no number of steps is enough for it. -/
theorem printing_ends (m : Machine) (v : Value) :
    (¬ m.heap.Tangled [] v → ¬ m.heap.Lengthy [] v → ∃ shown quoted,
      Eval.display v m = .ok shown m ∧ (∀ t, m.heap.Shows false [] v t ↔ t = shown) ∧
      Eval.quotedForm v m = .ok quoted m ∧ (∀ t, m.heap.Shows true [] v t ↔ t = quoted)) ∧
    (¬ m.heap.Tangled [] v → m.heap.Lengthy [] v → (∀ quote t, ¬ m.heap.Shows quote [] v t) ∧
      ∃ e, e.kind = .value ∧ Eval.display v m = .error (.crashed e) m ∧ Eval.quotedForm v m = .error (.crashed e) m) ∧
    (m.heap.Tangled [] v → (∀ quote t, ¬ m.heap.Shows quote [] v t) ∧
      (∀ quote depth t, m.heap.render depth quote [] v ≠ .ok t) ∧
      (∃ e, Eval.display v m = .error (.crashed e) m ∧
        (e.kind = .recursion ∨ e.kind = .value ∧ m.heap.Lengthy [] v)) ∧
      ∃ e, Eval.quotedForm v m = .error (.crashed e) m ∧
        (e.kind = .recursion ∨ e.kind = .value ∧ m.heap.Lengthy [] v)) := by
  refine ⟨fun hv hl => ?_, fun hv hl => ?_, fun hv => ?_⟩
  · obtain ⟨shown, hshown, hunique⟩ := m.heap.exists_text false hv hl
    obtain ⟨quoted, hquoted, hunique'⟩ := m.heap.exists_text true hv hl
    exact ⟨shown, quoted, Eval.readText_ok hshown, hunique, Eval.readText_ok hquoted, hunique'⟩
  · exact ⟨fun quote t ht => Heap.textless_tooLong.not_comesTo ht hl, _, rfl,
      Eval.readText_error (hl.render_eq false hv), Eval.readText_error (hl.render_eq true hv)⟩
  · have hnone (quote : Bool) (t : Text) : ¬ m.heap.Shows quote [] v t := fun ht =>
      Heap.textless_circle.not_comesTo ht hv
    exact ⟨hnone, fun quote depth t ht => hnone quote t (Heap.shows_of_render ht), hv.readText, hv.readText⟩

/-- A heap with an array that holds itself once and another array twice, and a reference to itself. -/
def knottedHeap : Heap where
  arrays := #[#[.plain (.array 0), .plain (.array 1), .plain (.array 1)], #[.number 1]]
  references := #[.plain (.reference 0)]

theorem printing_ends_knotted :
    (∃ quoted, Eval.quotedForm (.plain (.array 0)) { heap := knottedHeap } = .ok quoted { heap := knottedHeap } ∧
      quoted = "[[...], [1], [1]]" ∧ ∀ t, knottedHeap.Shows true [] (.plain (.array 0)) t ↔ t = quoted) ∧
    ∃ e, Eval.display (.plain (.reference 0)) { heap := knottedHeap } = .error (.crashed e) { heap := knottedHeap } := by
  have hshown : knottedHeap.quotedForm (.plain (.array 0)) = .ok "[[...], [1], [1]]" := by decide +kernel
  have hshows := Heap.shows_of_render hshown
  have hopen : ¬ knottedHeap.Tangled [] (.plain (.array 0)) := Heap.textless_circle.not_comesTo hshows
  have hbrief : ¬ knottedHeap.Lengthy [] (.plain (.array 0)) := Heap.textless_tooLong.not_comesTo hshows
  have htangled : knottedHeap.Tangled [] (.plain (.reference 0)) := .here ⟨0, rfl, .single rfl⟩
  obtain ⟨-, quoted, -, -, hquoted, hunique⟩ := (printing_ends { heap := knottedHeap } _).1 hopen hbrief
  obtain ⟨-, -, ⟨e, hcrash, -⟩, -⟩ := (printing_ends { heap := knottedHeap } _).2.2 htangled
  refine ⟨⟨quoted, hquoted, ?_, hunique⟩, e, hcrash⟩
  cases (Eval.readText_ok hshown).symm.trans hquoted
  rfl

namespace Session

/-- A run of a source on a machine where nothing but the native functions is defined. -/
def runBare (source : Text) : EStateM.Result Exit Machine (Except Failure Value) :=
  (defineNatives >>= fun _ => runSource source none) (blank {} [])

/-- The payload of what a source gives, and that of the target of the first reference. -/
def payloads? (source : Text) : Option (Payload × Payload) :=
  match runBare source with
  | .ok (.ok v) m => some (v.payload, (m.heap.reference 0).payload)
  | _ => none

theorem runBare_of_payloads? {source : Text} {p q : Payload} (h : payloads? source = some (p, q)) :
    ∃ v m, runBare source = .ok (.ok v) m ∧ v.payload = p ∧ (m.heap.reference 0).payload = q := by
  unfold payloads? at h
  split at h
  · next v m hrun =>
    cases h
    exact ⟨v, m, hrun, rfl, rfl⟩
  · cases h

/-- A source that makes a reference its own target. -/
def circleSource : Text := "let r = __zephyr_native.make_ref(null)\n__zephyr_native.ref_set(r, r)\n"

/-- The reference that a script makes its own target has no text, and a call in which it is printed ends with a
fault. -/
theorem circle_unprintable :
    (∃ v m, runBare (circleSource ++ "r") = .ok (.ok v) m ∧
      ∀ quote depth, m.heap.render depth quote [] v = .error .endless) ∧
    ∃ v m, runBare (circleSource ++ "func shown() \x7b __zephyr_native.to_string(r)\n \"printed\" \x7d\n" ++
        "try \x7b shown() \x7d catch e \x7b e.type \x7d") = .ok (.ok v) m ∧ v.payload = .string "RecursionError" := by
  constructor
  · have hrun : payloads? (circleSource ++ "r") = some (.reference 0, .reference 0) := by
      rw [circleSource, Text.ofString_ofList]
      decide +kernel
    obtain ⟨v, m, hsource, hv, htarget⟩ := runBare_of_payloads? hrun
    have hcircle : m.heap.Circles 0 := .single htarget
    exact ⟨v, m, hsource, fun quote depth => Heap.render_circle hv hcircle⟩
  · have hrun : payloads? (circleSource ++ "func shown() \x7b __zephyr_native.to_string(r)\n \"printed\" \x7d\n" ++
        "try \x7b shown() \x7d catch e \x7b e.type \x7d") = some (.string "RecursionError", .reference 0) := by
      rw [circleSource, Text.ofString_ofList, Text.ofString_ofList, Text.ofString_ofList]
      decide +kernel
    obtain ⟨v, m, hsource, hv, -⟩ := runBare_of_payloads? hrun
    exact ⟨v, m, hsource, hv⟩

end Session

end ScriptEngine

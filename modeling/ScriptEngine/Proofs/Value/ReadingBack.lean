import ScriptEngine.Eval.Statement
import ScriptEngine.Proofs.Eval.Run
import ScriptEngine.Proofs.Program.Taking
import ScriptEngine.Proofs.Token.Numeral
import ScriptEngine.Proofs.Value.Bisimilarity
import ScriptEngine.Proofs.Value.Printing

/-!
# Printed values read back

A printable value is written as a text; the text is a program, and running it gives an equal value.

* **Same trees** (`Heap.SameTree`): two values unfold to the same tree. This stays so when cells are
  added (`SameTree.mono`) and implies equality (`SameTree.equal`).
* **Yields** (`Heap.Yields`): an expression is evaluated to a value that unfolds to the same tree as a
  given one, and changes no cell that was there.
* **Reading back** (`Heap.ReadsBack v t ks`): the value is printed as `t`, which is read as tokens of
  the kinds `ks`, which are parsed as an expression that yields the value. There is a rule for each
  kind of printable value, and `Printable.readsBack` puts them together.
-/

namespace ScriptEngine

open Grammar Parse

namespace Heap

variable {h h' : Heap} {v w : Value} {m : Machine}

/-! ## Same trees -/

/-- The arrays and objects of a heap are there, unchanged, in another. -/
structure KeptBy (h h' : Heap) : Prop where
  arrays : ∀ {id : Nat} {items}, h.arrays[id]? = some items → h'.arrays[id]? = some items
  objects : ∀ {id : Nat} {entries}, h.objects[id]? = some entries → h'.objects[id]? = some entries

theorem KeptBy.refl (h : Heap) : h.KeptBy h := ⟨id, id⟩

theorem KeptBy.trans {h'' : Heap} (hk : h.KeptBy h') (hk' : h'.KeptBy h'') : h.KeptBy h'' :=
  ⟨fun ha => hk'.arrays (hk.arrays ha), fun ho => hk'.objects (hk.objects ho)⟩

theorem keptBy_newArray (h : Heap) (items : Array Value) : h.KeptBy (h.newArray items).2 := by
  refine ⟨fun {id xs} ha => ?_, id⟩
  obtain ⟨hlt, -⟩ := Array.getElem?_eq_some_iff.1 ha
  rw [newArray, Array.getElem?_push_lt hlt]
  rwa [Array.getElem?_eq_getElem hlt] at ha

theorem keptBy_newObject (h : Heap) (entries : OrderedMap Text Value) :
    h.KeptBy (h.newObject entries).2 := by
  refine ⟨id, fun {id xs} ho => ?_⟩
  obtain ⟨hlt, -⟩ := Array.getElem?_eq_some_iff.1 ho
  rw [newObject, Array.getElem?_push_lt hlt]
  rwa [Array.getElem?_eq_getElem hlt] at ho

/-- Two values unfold to the same tree of scalars, arrays and objects. -/
inductive SameTree (h : Heap) : Value → Value → Prop
  | scalar {v w : Value} (variant : v.variant? = w.variant?) (payload : v.payload = w.payload)
      (kind : v.kind ∈ [Kind.null, .boolean, .number, .string]) : h.SameTree v w
  | number {v w : Value} {x y : Number} (variant : v.variant? = w.variant?)
      (left : v.payload = .number x) (right : w.payload = .number y) (value : x.value = y.value) :
      h.SameTree v w
  | array {v w : Value} {i j : Nat} {xs ys : Array Value} (variant : v.variant? = w.variant?)
      (left : v.payload = .array i) (right : w.payload = .array j)
      (leftCell : h.arrays[i]? = some xs) (rightCell : h.arrays[j]? = some ys)
      (length : xs.toList.length = ys.toList.length)
      (items : ∀ x y, (x, y) ∈ xs.toList.zip ys.toList → h.SameTree x y) : h.SameTree v w
  | object {v w : Value} {i j : Nat} {xs ys : OrderedMap Text Value}
      (variant : v.variant? = w.variant?)
      (left : v.payload = .object i) (right : w.payload = .object j)
      (leftCell : h.objects[i]? = some xs) (rightCell : h.objects[j]? = some ys)
      (keys : xs.keys = ys.keys)
      (entries : ∀ k x y, xs.get? k = some x → ys.get? k = some y → h.SameTree x y) :
      h.SameTree v w

theorem SameTree.mono (hk : h.KeptBy h') (hs : h.SameTree v w) : h'.SameTree v w := by
  induction hs with
  | scalar variant payload kind => exact .scalar variant payload kind
  | number variant left right value => exact .number variant left right value
  | array variant left right leftCell rightCell length _ ih =>
    exact .array variant left right (hk.arrays leftCell) (hk.arrays rightCell) length ih
  | object variant left right leftCell rightCell keys _ ih =>
    exact .object variant left right (hk.objects leftCell) (hk.objects rightCell) keys ih

theorem isBisimulation_sameTree (h : Heap) : h.IsBisimulation h.SameTree := by
  intro v w hs
  cases hs with
  | scalar variant payload kind =>
    refine ⟨variant, payload ▸ ?_⟩
    unfold Value.kind at kind
    cases hp : v.payload with
    | number x => exact .number rfl
    | _ => simp [hp, Payload.kind] at kind <;> constructor
  | number variant left right value => exact ⟨variant, left ▸ right ▸ .number value⟩
  | array variant left right leftCell rightCell length items =>
    refine ⟨variant, left ▸ right ▸ .array ?_⟩
    rw [array_eq leftCell, array_eq rightCell, List.forall₂_iff_zip]
    exact ⟨length, fun {x y} hxy => items x y hxy⟩
  | object variant left right leftCell rightCell keys entries =>
    rename_i i j xs ys
    refine ⟨variant, left ▸ right ▸ .object fun k => ?_⟩
    rw [object_eq leftCell, object_eq rightCell]
    cases hx : xs.get? k with
    | none =>
      have hy : ys.get? k = none := by
        rw [OrderedMap.get?_eq_none_iff, ← keys, ← OrderedMap.get?_eq_none_iff, hx]
      rw [hy]; exact .none
    | some x =>
      obtain ⟨y, hy⟩ := OrderedMap.mem_keys_iff.1 (keys ▸ OrderedMap.mem_keys_iff.2 ⟨x, hx⟩)
      rw [hy]; exact .some (entries k x y hx hy)

theorem SameTree.equal (hs : h.SameTree v w) : h.equal v w = true :=
  equal_of_isBisimulation h.isBisimulation_sameTree hs

/-- A new array of the same trees as those in an array cell. -/
theorem sameTree_newArray {id : Nat} {items : Array Value} {values : List Value} (hv : v.variant? = none)
    (hp : v.payload = .array id) (hc : h.arrays[id]? = some items)
    (hs : List.Forall₂ h.SameTree items.toList values) :
    (h.newArray values.toArray).2.SameTree v (h.newArray values.toArray).1 := by
  have hk := h.keptBy_newArray values.toArray
  obtain ⟨hl, hz⟩ := List.forall₂_iff_zip.1 (hs.imp fun _ _ => SameTree.mono hk)
  exact .array hv hp rfl (hk.arrays hc) (by simp [newArray]) hl fun x y hxy => hz hxy

theorem exists_of_forall₂ {α β : Type} {R : α → β → Prop} {xs : List α} {ys : List β}
    (hxy : List.Forall₂ R xs ys) {x : α} (hx : x ∈ xs) : ∃ y ∈ ys, R x y := by
  induction hxy with
  | nil => cases hx
  | cons hr _ ih =>
    rcases List.mem_cons.1 hx with rfl | hx
    · exact ⟨_, .head _, hr⟩
    · obtain ⟨y, hy, hr⟩ := ih hx
      exact ⟨y, .tail _ hy, hr⟩

/-- A new object of the same trees as those in an object cell, under the same keys. -/
theorem sameTree_newObject {id : Nat} {entries : OrderedMap Text Value} {others : List (Text × Value)}
    (hv : v.variant? = none) (hp : v.payload = .object id) (hc : h.objects[id]? = some entries)
    (hs : List.Forall₂ (fun x y => y.1 = x.1 ∧ h.SameTree x.2 y.2) entries.entries others) :
    (h.newObject (.ofList others)).2.SameTree v (h.newObject (.ofList others)).1 := by
  have hk := h.keptBy_newObject (.ofList others)
  have hkeys : entries.keys = others.map Prod.fst := by
    have hf : List.Forall₂ (fun x y => x.1 = y.1) entries.entries others := hs.imp fun _ _ hr => hr.1.symm
    exact List.forall₂_eq_eq_eq ▸ List.forall₂_map_left_iff.2 (List.forall₂_map_right_iff.2 hf)
  have hentries : (OrderedMap.ofList others).entries = others := OrderedMap.entries_ofList (hkeys ▸ entries.nodup_keys)
  refine .object hv hp rfl (hk.objects hc) (by simp [newObject]; rfl)
    (by rw [hkeys, OrderedMap.keys, hentries]) fun key x y hx hy => ?_
  obtain ⟨⟨_, z⟩, hz, rfl, hs⟩ := exists_of_forall₂ hs (OrderedMap.get?_eq_some_iff.1 hx)
  rw [← hentries, ← OrderedMap.get?_eq_some_iff, hy] at hz
  cases hz
  exact hs.mono hk

end Heap

/-! ## Evaluation -/

/-- An expression is a number and changes nothing, from a level on. -/
def Expr.IsNumber (k : Nat) (e : Expr) (q : Rat) : Prop :=
  ∀ n frame m, k ≤ n → (Interp.ofLevel n).eval e frame m = .ok (.number q) m

namespace Expr

variable {k : Nat} {e e' : Expr} {q r : Rat} {s : Span}

theorem isNumber_literal : IsNumber 1 (.literal s (.number q)) q := by
  intro n frame m hn
  obtain ⟨n, rfl⟩ := Nat.exists_eq_add_of_le' hn
  rfl

theorem IsNumber.mono {k' : Nat} (he : e.IsNumber k q) (hk : k ≤ k') : e.IsNumber k' q :=
  fun n frame m hn => he n frame m (by omega)

theorem IsNumber.neg (he : e.IsNumber k q) : IsNumber (k + 1) (.unary s .neg e) (-q) := by
  intro n frame m hn
  obtain ⟨n, rfl⟩ := Nat.exists_eq_add_of_le' (Nat.le_of_add_left_le hn)
  refine (Eval.bind_ok (he n frame m (by omega))).trans ?_
  show EStateM.Result.ok (Value.number (-(Number.ofRat q).value)) m = _
  rw [Number.value_ofRat]

theorem IsNumber.div (he : e.IsNumber k q) (he' : e'.IsNumber k r) (hr : r ≠ 0) :
    IsNumber (k + 1) (.binary s e (.arith .div) e') (q / r) := by
  intro n frame m hn
  obtain ⟨n, rfl⟩ := Nat.exists_eq_add_of_le' (Nat.le_of_add_left_le hn)
  refine (Eval.bind_ok (he n frame m (by omega))).trans ?_
  refine (Eval.bind_ok (he' n frame m (by omega))).trans ?_
  have : m.heap.arithmetic .div (.number q) (.number r) s = .ok (.number (q / r)) := by
    simp [Heap.arithmetic, Value.number, Value.plain, Number.calculate, hr]
  exact Eval.arithmetic_ok this

end Expr

namespace Heap

variable {h : Heap} {v : Value} {k : Nat} {e : Expr}

/-- From a level on, and wherever the arrays and objects of the heap are kept, an expression is
evaluated to a value of the same tree as `v`, and keeps what is there. -/
def Yields (h : Heap) (k : Nat) (e : Expr) (v : Value) : Prop :=
  ∀ n frame m, k ≤ n → h.KeptBy m.heap → ∃ w m', (Interp.ofLevel n).eval e frame m = .ok w m' ∧
    m.heap.KeptBy m'.heap ∧ m'.heap.SameTree v w

theorem Yields.mono {k' : Nat} (hy : h.Yields k e v) (hk : k ≤ k') : h.Yields k' e v :=
  fun n frame m hn => hy n frame m (by omega)

theorem yields_literal {s : Span} {l : Literal} (hu : v.IsUntagged)
    (hp : v.payload = (Interp.literal l).payload) : h.Yields 1 (.literal s l) v := by
  intro n frame m hn _
  obtain ⟨n, rfl⟩ := Nat.exists_eq_add_of_le' hn
  refine ⟨Interp.literal l, m, rfl, .refl _, .scalar ?_ hp ?_⟩
  · rw [hu.1]; cases l <;> rfl
  · rw [Value.kind, hp]; cases l <;> simp [Interp.literal, Payload.kind, Value.number,
      Value.string, Value.bool, Value.null, Value.plain]

theorem yields_number {x : Number} (hu : v.IsUntagged) (hp : v.payload = .number x)
    (he : e.IsNumber k x.value) : h.Yields k e v := fun n frame m hn _ =>
  ⟨.number x.value, m, he n frame m hn, .refl _, .number hu.1 hp rfl (Number.value_ofRat _).symm⟩

theorem evalList_yields {ws : List Value} {es : List Expr}
    (hes : List.Forall₂ (fun w e => h.Yields k e w) ws es) {n : Nat} (hn : k ≤ n) (frame : Nat)
    (m : Machine) (hm : h.KeptBy m.heap) : ∃ vs m',
      (Interp.ofLevel n).evalList frame es m = .ok vs m' ∧ m.heap.KeptBy m'.heap ∧
        List.Forall₂ m'.heap.SameTree ws vs := by
  induction hes generalizing m with
  | nil => exact ⟨[], m, rfl, .refl _, .nil⟩
  | cons he _ ih =>
    obtain ⟨v, m₁, hv, hk, hs⟩ := he n frame m hn hm
    obtain ⟨vs, m₂, hvs, hk', hss⟩ := ih m₁ (hm.trans hk)
    refine ⟨v :: vs, m₂, ?_, hk.trans hk', .cons (hs.mono hk') hss⟩
    exact (Eval.bind_ok hv).trans ((Eval.bind_ok hvs).trans rfl)

theorem yields_array {s : Span} {id : Nat} {items : Array Value} {es : List Expr}
    (hu : v.IsUntagged) (hp : v.payload = .array id) (hc : h.arrays[id]? = some items)
    (hes : List.Forall₂ (fun w e => h.Yields k e w) items.toList es) :
    h.Yields (k + 1) (.array s es) v := by
  intro n frame m hn hm
  obtain ⟨n, rfl⟩ := Nat.exists_eq_add_of_le' (Nat.le_of_add_left_le hn)
  obtain ⟨vs, m', hvs, hk, hss⟩ := evalList_yields hes (by omega : k ≤ n) frame m hm
  exact ⟨_, { m' with heap := (m'.heap.newArray vs.toArray).2 }, (Eval.bind_ok hvs).trans rfl,
    hk.trans (m'.heap.keptBy_newArray vs.toArray), sameTree_newArray hu.1 hp ((hm.trans hk).arrays hc) hss⟩

theorem entries_yields {xs : List (Text × Value)} {es : List ObjectEntry}
    (hes : List.Forall₂ (fun x (e : ObjectEntry) => e.key = x.1 ∧ h.Yields k e.value x.2) xs es)
    {n : Nat} (hn : k ≤ n) (frame : Nat) (m : Machine) (hm : h.KeptBy m.heap) : ∃ ys m',
      (Interp.ofLevel n).entries frame es m = .ok ys m' ∧ m.heap.KeptBy m'.heap ∧
        List.Forall₂ (fun x y => y.1 = x.1 ∧ m'.heap.SameTree x.2 y.2) xs ys := by
  induction hes generalizing m with
  | nil => exact ⟨[], m, rfl, .refl _, .nil⟩
  | cons he _ ih =>
    obtain ⟨v, m₁, hv, hk, hs⟩ := he.2 n frame m hn hm
    obtain ⟨ys, m₂, hys, hk', hss⟩ := ih m₁ (hm.trans hk)
    refine ⟨(_, v) :: ys, m₂, ?_, hk.trans hk', .cons ⟨he.1, hs.mono hk'⟩ hss⟩
    exact (Eval.bind_ok hv).trans ((Eval.bind_ok hys).trans rfl)

theorem yields_object {s : Span} {id : Nat} {entries : OrderedMap Text Value}
    {es : List ObjectEntry} (hu : v.IsUntagged) (hp : v.payload = .object id)
    (hc : h.objects[id]? = some entries)
    (hes : List.Forall₂ (fun x (e : ObjectEntry) => e.key = x.1 ∧ h.Yields k e.value x.2)
      entries.entries es) : h.Yields (k + 1) (.object s es) v := by
  intro n frame m hn hm
  obtain ⟨n, rfl⟩ := Nat.exists_eq_add_of_le' (Nat.le_of_add_left_le hn)
  obtain ⟨ys, m', hys, hk, hss⟩ := entries_yields hes (by omega : k ≤ n) frame m hm
  exact ⟨_, { m' with heap := (m'.heap.newObject (.ofList ys)).2 }, (Eval.bind_ok hys).trans rfl,
    hk.trans (m'.heap.keptBy_newObject (.ofList ys)), sameTree_newObject hu.1 hp ((hm.trans hk).objects hc) hss⟩

end Heap

/-! ## Numbers -/

namespace Number

theorem signed_num (q : Rat) :
    (if q.num < 0 then -(q.num.natAbs : Rat) else (q.num.natAbs : Rat)) = q.num := by
  split
  · next hq => rw [← Int.cast_natCast, ← Int.cast_neg]; congr 1; omega
  · next hq => rw [← Int.cast_natCast]; congr 1; omega

theorem signed_magnitude (q : Rat) : (if q.num < 0 then -magnitude q else magnitude q) = q := by
  calc (if q.num < 0 then -magnitude q else magnitude q)
      = (if q.num < 0 then -(q.num.natAbs : Rat) else (q.num.natAbs : Rat)) / q.den := by
        rw [magnitude, Rat.mkRat_eq_div, Int.cast_natCast]
        split
        · rw [neg_div]
        · rfl
    _ = q := by rw [signed_num, Rat.num_div_den]

/-- The number of tokens of a numeral with the sign of a number. -/
def signedLength (q : Rat) : Nat := if q.num < 0 then 2 else 1

theorem signedLength_pos (q : Rat) : 0 < signedLength q := by unfold signedLength; split <;> omega

theorem length_kinds (q : Rat) :
    (kinds q).length = signedLength q + (if isNumeral q then 0 else 2) := by
  unfold kinds magnitudeKinds signedLength
  split <;> split <;> rfl

end Number

/-- A numeral with the sign of `q`. -/
theorem takes_signed (q x : Rat) (rest : List TokenKind) {n : Nat}
    (hn : Number.signedLength q ≤ n)
    (hb : Closes rest ∨ rest.headD .endOfFile = .symbol .slash) :
    Takes (ofLevel n).unaryExpr
      ((if q.num < 0 then [.symbol .minus] else []) ++ .number x :: rest) rest fun e =>
        e.IsNumber (Number.signedLength q) (if q.num < 0 then -x else x) := by
  have literal (k : Nat) (hk : 0 < k) : Takes (ofLevel k).unaryExpr (.number x :: rest) rest
      fun e => e.IsNumber 1 x := by
    have hp : Takes (ofLevel k).primary (.number x :: rest) rest fun e =>
      ∃ s, e = .literal s (.number x) := takes_primary_literal rfl
    refine (takes_unaryExpr_operand (takes_operandExpr hp (by rwa [bound_ofLevel]) hb) rfl
      rfl).mono ?_
    rintro _ ⟨s, rfl⟩
    exact Expr.isNumber_literal
  unfold Number.signedLength at hn ⊢
  split at hn
  · next hq =>
    obtain ⟨n, rfl⟩ := Nat.exists_eq_add_of_le' (show 1 ≤ n by omega)
    simp only [if_pos hq]
    refine (takes_unaryExpr_minus (g := ofLevel (n + 1)) (literal n (by omega))).mono ?_
    rintro _ ⟨s, e, rfl, he⟩
    exact he.neg
  · next hq =>
    simp only [if_neg hq]
    exact literal n hn

/-- The tokens of a number are parsed as an expression that is the number. -/
theorem takes_number (q : Rat) {n : Nat} {rest : List TokenKind}
    (hn : (Number.kinds q).length ≤ n) (hb : Closes rest) :
    Takes (ofLevel n).expressionExpr (Number.kinds q ++ rest) rest fun e =>
      e.IsNumber (Number.kinds q).length q := by
  have hpos := Number.signedLength_pos q
  refine takes_expressionExpr ?_ hb
  rw [Number.length_kinds] at hn ⊢
  unfold Number.kinds Number.magnitudeKinds
  by_cases hq : Number.isNumeral q = true
  · simp only [if_pos hq, List.append_assoc] at hn ⊢
    have hs := takes_signed q (Number.magnitude q) rest hn (.inl hb)
    rw [Number.signed_magnitude] at hs
    exact takes_binaryExpr hs (by rw [bound_ofLevel]; omega) hb
  · simp only [if_neg hq, List.append_assoc] at hn ⊢
    have hl := takes_signed q q.num.natAbs (.symbol .slash :: .number q.den :: rest) (n := n)
      (by omega) (.inr rfl)
    rw [Number.signed_num] at hl
    obtain ⟨n, rfl⟩ := Nat.exists_eq_add_of_le' (show 1 ≤ n by omega)
    have hr : Takes ((ofLevel (n + 1)).binary 7) (.number q.den :: rest) rest
        fun e => e.IsNumber 1 q.den := by
      have hs := takes_signed 0 q.den rest (n := n) (by simp [Number.signedLength]; omega) (.inl hb)
      exact takes_binaryExpr hs (by rw [bound_ofLevel]; omega) hb
    refine (takes_binaryExpr_slash hl hr (by rw [bound_ofLevel]; omega) (by omega) hb).mono ?_
    rintro _ ⟨s, l, r, rfl, hl, hr⟩
    have hd : (q.den : Rat) ≠ 0 := Nat.cast_ne_zero.2 q.den_nz
    have := hl.div (hr.mono (by omega)) hd (s := s)
    rw [Rat.num_div_den] at this
    exact this.mono (by omega)

/-! ## Reading back -/

namespace Heap

variable {h : Heap} {v : Value}

/-- A value is printed as `t`, which is read as tokens of the kinds `ks`, which are parsed as an
expression that yields the value. -/
structure ReadsBack (h : Heap) (v : Value) (t : Text) (ks : List TokenKind) : Prop where
  rendered : h.RendersAs v t
  spelled : Spells t ks
  starts : ∃ k rest, ks = k :: rest ∧ startsLiteral k
  parsed : ∀ n rest, ks.length ≤ n → Closes rest →
    Takes (ofLevel n).expressionExpr (ks ++ rest) rest fun e => h.Yields ks.length e v

/-- A value that one token writes. -/
theorem readsBack_literal {t : Text} {k : TokenKind} {l : Literal} (hu : v.IsUntagged)
    (hr : h.RendersAs v t) (hs : Spells t [k]) (hl : Literal.ofToken? k = some l)
    (hp : v.payload = (Interp.literal l).payload) : h.ReadsBack v t [k] where
  rendered := hr
  spelled := hs
  starts := ⟨k, [], rfl, by
    unfold Literal.ofToken? at hl
    split at hl <;> first | rfl | cases hl⟩
  parsed n rest hn hc := by
    obtain ⟨hu', hs'⟩ := ofToken?_of_literal hl
    refine (takes_expressionExpr_of_primary (takes_primary_literal hl)
      (by rw [bound_ofLevel]; exact hn) hu' hs' hc).mono ?_
    rintro _ ⟨s, rfl⟩
    exact yields_literal hu hp

theorem startsLiteral_kinds (q : Rat) :
    ∃ k rest, Number.kinds q = k :: rest ∧ startsLiteral k := by
  unfold Number.kinds Number.magnitudeKinds
  split <;> split <;> exact ⟨_, _, rfl, rfl⟩

theorem readsBack_number {x : Number} (hu : v.IsUntagged) (hp : v.payload = .number x)
    (hx : Number.IsBrief x.value) : h.ReadsBack v (Number.text x.value) (Number.kinds x.value) where
  rendered := rendersAs_of_forall fun depth within => by
    simp only [render, hu.1, hp, Number.text?, hx.writable, if_true]
    rfl
  spelled := spells_number hx
  starts := startsLiteral_kinds _
  parsed n rest hn hc := (takes_number _ hn hc).mono fun e he => yields_number hu hp he

theorem spells_constants : Spells "null" [.keyword .kwNull] ∧ Spells "false" [.keyword .kwFalse] ∧
    Spells "true" [.keyword .kwTrue] := by
  refine ⟨spells_keyword ?_ ?_ ?_ ?_ ?_, spells_keyword ?_ ?_ ?_ ?_ ?_,
    spells_keyword ?_ ?_ ?_ ?_ ?_⟩ <;> decide

theorem readsBack_scalar (hu : v.IsUntagged) (hk : v.kind ∈ [Kind.null, .boolean, .number, .string])
    (hx : ∀ x, v.payload = .number x → Number.IsBrief x.value) : ∃ t ks, h.ReadsBack v t ks := by
  obtain ⟨hnull, hfalse, htrue⟩ := spells_constants
  unfold Value.kind at hk
  cases hp : v.payload with
  | null =>
    have hr : h.RendersAs v "null" := rendersAs_of_forall fun _ _ => by simp only [render, hu.1, hp]
    exact ⟨_, _, readsBack_literal (l := .null) hu hr hnull rfl hp⟩
  | bool b =>
    have hr : h.RendersAs v (if b then "true" else "false") :=
      rendersAs_of_forall fun _ _ => by simp only [render, hu.1, hp]
    cases b
    · exact ⟨_, _, readsBack_literal (l := .bool false) hu hr hfalse rfl hp⟩
    · exact ⟨_, _, readsBack_literal (l := .bool true) hu hr htrue rfl hp⟩
  | number q => exact ⟨_, _, readsBack_number hu hp (hx q hp)⟩
  | string t =>
    have hr : h.RendersAs v (Text.doubleQuoted t) :=
      rendersAs_of_forall fun _ _ => by simp [render, hu.1, hp]
    exact ⟨_, _, readsBack_literal (l := .string t) hu hr (spells_doubleQuoted t) rfl hp⟩
  | _ => simp [hp, Payload.kind] at hk

theorem length_intercalate_cons {ι : Type} (x : ι) (xs : List ι) (K : ι → List TokenKind) :
    (K x).length + ([.symbol .comma].intercalate (xs.map K)).length ≤
      ([.symbol .comma].intercalate ((x :: xs).map K)).length := by
  cases xs with
  | nil => simp
  | cons y ys => simp [List.intercalate_cons_cons]

/-- A list has at least as many tokens as one of its items, and at least as many as it has items. -/
theorem length_le_intercalate {ι : Type} (xs : List ι) (K : ι → List TokenKind)
    (hk : ∀ x ∈ xs, K x ≠ []) :
    (∀ x ∈ xs, (K x).length ≤ ([.symbol .comma].intercalate (xs.map K)).length) ∧
      xs.length ≤ ([.symbol .comma].intercalate (xs.map K)).length := by
  induction xs with
  | nil => simp
  | cons x xs ih =>
    obtain ⟨hle, hlen⟩ := ih fun y hy => hk y (.tail _ hy)
    have hc := length_intercalate_cons x xs K
    have hpos := List.length_pos_iff.2 (hk x (.head _))
    refine ⟨fun y hy => ?_, by simp only [List.length_cons]; omega⟩
    rcases List.mem_cons.1 hy with rfl | hy
    · omega
    · have := hle y hy; omega

/-- An array of values that read back. -/
theorem readsBack_array {id : Nat} {items : Array Value} {T : Value → Text}
    {K : Value → List TokenKind} (hv : h.Printable v) (hu : v.IsUntagged)
    (hp : v.payload = .array id) (hc : h.arrays[id]? = some items)
    (hi : ∀ w ∈ items, h.ReadsBack w (T w) (K w)) :
    h.ReadsBack v ("[" ++ Text.joinWith ", " (items.toList.map T) ++ "]")
      (.symbol .lbracket :: ([.symbol .comma].intercalate (items.toList.map K) ++
        [.symbol .rbracket])) := by
  have hi : ∀ w ∈ items.toList, h.ReadsBack w (T w) (K w) := fun w hw =>
    hi w (Array.mem_toList_iff.1 hw)
  have hk : ∀ w ∈ items.toList, ∃ k ks, K w = k :: ks ∧ k ≠ .symbol .rbracket := by
    intro w hw
    obtain ⟨k, ks, he, hs⟩ := (hi w hw).starts
    exact ⟨k, ks, he, by rintro rfl; cases hs⟩
  obtain ⟨hle, hlen⟩ := length_le_intercalate items.toList K fun w hw => by
    obtain ⟨k, ks, he, -⟩ := hk w hw
    simp [he]
  refine ⟨rendersAs_array hv hu hp hc fun w hw => (hi w (Array.mem_toList_iff.2 hw)).rendered,
    spells_array fun w hw => (hi w hw).spelled, ⟨_, _, rfl, rfl⟩, fun n rest hn hrest => ?_⟩
  simp only [List.length_cons, List.length_append, List.length_nil] at hn ⊢
  obtain ⟨n, rfl⟩ := Nat.exists_eq_add_of_le' (show 1 ≤ n by omega)
  rw [List.cons_append, List.append_assoc]
  have hb := bound_ofLevel (n + 1)
  have hprimary := takes_arrayLiteral (g := ofLevel (n + 1)) items.toList K rest
    (R := fun w e => h.Yields ([.symbol .comma].intercalate (items.toList.map K)).length e w)
    (fun w hw after hafter => ((hi w hw).parsed n after (by have := hle w hw; omega) hafter).mono
      fun e he => he.mono (hle w hw)) hk (by omega)
  refine (takes_expressionExpr_of_primary hprimary (by omega) rfl rfl hrest).mono ?_
  rintro _ ⟨s, es, rfl, hes⟩
  exact (yields_array hu hp hc hes).mono (by omega)

/-- An object of values that read back. -/
theorem readsBack_object {id : Nat} {entries : OrderedMap Text Value} {T : Value → Text}
    {K : Value → List TokenKind} (hv : h.Printable v) (hu : v.IsUntagged)
    (hp : v.payload = .object id) (hc : h.objects[id]? = some entries)
    (hn : ∀ key ∈ entries.keys, key.isName)
    (hi : ∀ e ∈ entries.entries, h.ReadsBack e.2 (T e.2) (K e.2)) :
    h.ReadsBack v (".\x7b" ++ Text.joinWith ", "
        (entries.entries.map fun e => e.1 ++ ": " ++ T e.2) ++ "\x7d")
      (.symbol .dot :: .symbol .lbrace :: ([.symbol .comma].intercalate
        (entries.entries.map fun e => entryKinds e.1 (K e.2)) ++ [.symbol .rbrace])) := by
  obtain ⟨hle, hlen⟩ := length_le_intercalate entries.entries
    (fun e => entryKinds e.1 (K e.2)) fun e _ => by simp [entryKinds]
  have hname : ∀ e ∈ entries.entries, e.1.isName := fun e he => hn _ (List.mem_map.2 ⟨e, he, rfl⟩)
  refine ⟨rendersAs_object hv hu hp hc fun e he => (hi e he).rendered,
    spells_object hname fun e he => (hi e he).spelled, ⟨_, _, rfl, rfl⟩, fun n rest hn hrest => ?_⟩
  simp only [List.length_cons, List.length_append, List.length_nil] at hn ⊢
  obtain ⟨n, rfl⟩ := Nat.exists_eq_add_of_le' (show 1 ≤ n by omega)
  rw [List.cons_append, List.cons_append, List.append_assoc]
  have hb := bound_ofLevel (n + 1)
  generalize hL : ([.symbol .comma].intercalate
    (entries.entries.map fun e => entryKinds e.1 (K e.2))).length = L at *
  have hval : ∀ e ∈ entries.entries, (K e.2).length ≤ L := fun e he => by
    have := hle e he
    simp only [entryKinds, List.length_cons] at this
    omega
  have hprimary := takes_objectLiteral (g := ofLevel (n + 1)) entries.entries K rest
    (R := fun w e => h.Yields L e w)
    (fun e he after hafter => ((hi e he).parsed n after (by have := hval e he; omega) hafter).mono
      fun _ hy => hy.mono (hval e he)) (by omega)
  refine (takes_expressionExpr_of_primary hprimary (by omega) rfl rfl hrest).mono ?_
  rintro _ ⟨s, es, rfl, hes⟩
  exact (yields_object hu hp hc hes).mono (by omega)

/-- Every printable value reads back. -/
theorem Printable.readsBack (hp : h.Printable v) : ∃ t ks, h.ReadsBack v t ks := by
  induction hp with
  | scalar untagged kind brief => exact readsBack_scalar untagged kind brief
  | @array v id items untagged payload cell contents ih =>
    have hi : ∀ w, ∃ t ks, w ∈ items → h.ReadsBack w t ks := fun w => by
      by_cases hw : w ∈ items
      · obtain ⟨t, ks, hr⟩ := ih w hw
        exact ⟨t, ks, fun _ => hr⟩
      · exact ⟨[], [], fun hm => absurd hm hw⟩
    choose T K hTK using hi
    exact ⟨_, _, readsBack_array (.array untagged payload cell contents) untagged payload cell hTK⟩
  | @object v id entries untagged payload cell names contents ih =>
    have hi : ∀ w, ∃ t ks, ∀ e ∈ entries.entries, e.2 = w → h.ReadsBack w t ks := fun w => by
      by_cases hw : ∃ e ∈ entries.entries, e.2 = w
      · obtain ⟨e, he, rfl⟩ := hw
        obtain ⟨t, ks, hr⟩ := ih e he
        exact ⟨t, ks, fun _ _ _ => hr⟩
      · exact ⟨[], [], fun e he hw' => absurd ⟨e, he, hw'⟩ hw⟩
    choose T K hTK using hi
    exact ⟨_, _, readsBack_object (.object untagged payload cell names contents) untagged payload
      cell names fun e he => hTK e.2 e he rfl⟩

/-! ## Running the text -/

theorem keptBy_modifyFrame (h : Heap) (id : Nat) (f : Frame → Frame) :
    h.KeptBy (h.modifyFrame id f) := ⟨fun ha => ha, fun ho => ho⟩

theorem recordFile_run (m : Machine) (frame : Nat) (file : Option Text) :
    ∃ m', Interp.recordFile frame file m = .ok () m' ∧ m.heap.KeptBy m'.heap := by
  unfold Interp.recordFile
  rw [Eval.bind_ok (show (get : Eval Machine) m = .ok m m from rfl)]
  cases file.filter fun f => !f.isEmpty with
  | none => exact ⟨m, rfl, .refl _⟩
  | some f =>
    simp only
    split
    · exact ⟨_, rfl, m.heap.keptBy_modifyFrame frame _⟩
    · exact ⟨m, rfl, .refl _⟩

/-- The text of a printable value is a program that gives the value back: run in any frame of any
machine with the heap of the value, at a level above the length of the text, it succeeds with an
equal value and changes no array and no object that was there. -/
theorem run_quotedForm {h : Heap} {v : Value} (hv : h.Printable v) (file : Option Text) :
    ∃ t p, h.quotedForm? v = some t ∧ Program.parse t file = .ok p ∧
      ∀ n frame m, t.length < n → m.heap = h →
        ∃ w m', (Interp.ofLevel n).runProgram p frame m = .ok w m' ∧ h.KeptBy m'.heap ∧
          m'.heap.equal v w = true := by
  obtain ⟨t, ks, hr⟩ := hv.readsBack
  obtain ⟨k, ks, rfl, hk⟩ := hr.starts
  have hread := hr.spelled.readsAs
  have hlen := hread.length_le
  obtain ⟨p, s, e, hparse, hstmts, hfile, hy⟩ := Program.parse_of_takes file hread hk
    fun n hn => by simpa using hr.parsed n [] hn (by simp [Closes, itemEnds])
  refine ⟨t, p, hr.rendered.quotedForm?, hparse, ?_⟩
  rintro n frame m hn rfl
  obtain ⟨n, rfl⟩ := Nat.exists_eq_add_of_le' (show 1 ≤ n by omega)
  obtain ⟨m₁, hrecord, hk₁⟩ := recordFile_run m frame p.file
  have hle : (k :: ks).length ≤ n := by
    simp only [List.length_append, List.length_singleton] at hlen
    omega
  obtain ⟨w, m₂, hw, hk₂, hs⟩ := hy n frame m₁ hle hk₁
  have hexec : (Interp.ofLevel (n + 1)).exec p.statements frame m₁ = .ok w m₂ := by
    rw [hstmts]
    exact hw
  refine ⟨w, m₂, ?_, hk₁.trans hk₂, hs.equal⟩
  have hattempt : Eval.attempt ((Interp.ofLevel (n + 1)).exec p.statements frame) m₁ =
      .ok (.ok w) m₂ := by rw [Eval.attempt, hexec]
  exact (Eval.bind_ok hrecord).trans ((Eval.bind_ok hattempt).trans rfl)

/-- An array of a fraction, a string with a line feed and an object. -/
theorem run_quotedForm_nested :
    let h : Heap :=
      { arrays := #[#[.number (-1 / 3), .string "a\n\"b\"", .plain (.object 0)]],
        objects := #[⟨[("ok?", .bool true), ("x", .number (5 / 2))], by decide⟩] }
    let v : Value := .plain (.array 0)
    h.Printable v ∧ ∃ t p, h.quotedForm? v = some t ∧ Program.parse t none = .ok p ∧
      ∀ n frame m, t.length < n → m.heap = h →
        ∃ w m', (Interp.ofLevel n).runProgram p frame m = .ok w m' ∧ h.KeptBy m'.heap ∧
          m'.heap.equal v w = true := by
  intro h v
  have scalar {p : Payload} (hp : p.kind ∈ [Kind.null, .boolean, .string]) : h.Printable (.plain p) :=
    .scalar ⟨rfl, rfl⟩ (by revert hp; cases p <;> simp [Value.kind, Value.plain, Payload.kind]) fun x hx => by
      rw [show p = .number x from hx] at hp
      simp [Payload.kind] at hp
  have number {q : Rat} (hq : Number.IsBrief q) : h.Printable (.number q) :=
    .scalar ⟨rfl, rfl⟩ (by simp [Value.kind, Value.number, Value.plain, Payload.kind]) fun x hx => by
      obtain rfl : Number.ofRat q = x := Payload.number.inj hx
      rwa [Number.value_ofRat]
  have object : h.Printable (.plain (.object 0)) := by
    refine .object ⟨rfl, rfl⟩ rfl rfl (by decide +kernel) fun e he => ?_
    change e ∈ [(("ok?" : Text), Value.bool true), ("x", .number (5 / 2))] at he
    simp only [List.mem_cons, List.not_mem_nil, or_false] at he
    rcases he with rfl | rfl
    · exact scalar (by simp [Payload.kind])
    · exact number (by decide +kernel)
  have hv : h.Printable v := by
    refine .array ⟨rfl, rfl⟩ rfl rfl fun w hw => ?_
    change w ∈ #[Value.number (-1 / 3), .string "a\n\"b\"", .plain (.object 0)] at hw
    simp only [List.mem_toArray, List.mem_cons, List.not_mem_nil, or_false] at hw
    rcases hw with rfl | rfl | rfl
    · exact number (by decide +kernel)
    · exact scalar (by simp [Payload.kind])
    · exact object
  exact ⟨hv, run_quotedForm hv none⟩

end Heap

end ScriptEngine

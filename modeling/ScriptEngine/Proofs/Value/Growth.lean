import ScriptEngine.Proofs.Value.Frames

/-!
# Growing heaps

* **Growth** (`Heap.Adds`, `Heap.Extends`): objects, functions and frames that are there stay as they are; in an
  extension the arrays do so too. What a name stands for depends only on frames that are there.
* **Known names** (`Heap.Knows`): values that names stand for from a frame. A frame inside another knows what it
  binds and what the other one knows (`Knows.child`).
* **Variables** (`Heap.Variable`): a variable that is seen from a frame, with the frame around it that owns it. It is
  seen from frames inside that do not bind its name (`Variable.inner`), and after an assignment it holds the new value
  (`Variable.assign`); other names stand for what they stood for (`Site.assign`).
-/

namespace ScriptEngine

/-- Two frames do the same for a name. -/
structure Frame.Alike (name : Text) (f g : Frame) : Prop where
  parent : f.parent = g.parent
  isGlobal : f.isGlobal = g.isGlobal
  isPure : f.isPure = g.isPure
  value : f.bindings.get? (some name) = g.bindings.get? (some name)

/-- What a frame knows: what it binds, and of the other names what is known around it. -/
def Frame.Knowing (f : Frame) (known : Text → Value → Prop) (name : Text) (v : Value) : Prop :=
  f.bindings.get? (some name) = some v ∨ f.bindings.get? (some name) = none ∧ known name v

/-- What is known where a name has been bound. -/
def Binding (name : Text) (v : Value) (known : Text → Value → Prop) (other : Text) (w : Value) : Prop :=
  other = name ∧ w = v ∨ other ≠ name ∧ known other w

theorem Frame.Alike.refl (name : Text) (f : Frame) : f.Alike name f := ⟨rfl, rfl, rfl, rfl⟩

namespace Heap

/-- Objects, functions and frames may have been added; those that were there are as they were. -/
structure Adds (h h' : Heap) : Prop where
  objects_le : h.objects.size ≤ h'.objects.size
  object : ∀ {i}, i < h.objects.size → h'.object i = h.object i
  closure : ∀ {i : Nat} {c}, h.closures[i]? = some c → h'.closures[i]? = some c
  frames_le : h.frames.size ≤ h'.frames.size
  frame : ∀ {i}, i < h.frames.size → h'.frame i = h.frame i

/-- Arrays may have been added as well. -/
structure Extends (h h' : Heap) : Prop extends h.Adds h' where
  arrays_le : h.arrays.size ≤ h'.arrays.size
  array : ∀ {i}, i < h.arrays.size → h'.array i = h.array i

/-- A heap with further frames behind its own. -/
def adding (h : Heap) (fs : List Frame) : Heap := { h with frames := h.frames ++ fs.toArray }

/-- Names stand for values from a frame. -/
def Knows (h : Heap) (id : Nat) (known : Text → Value → Prop) : Prop :=
  ∀ name v, known name v → ∀ span, h.lookup id name span = .ok v

/-- A frame without constants from which names are known. -/
structure Site (h : Heap) (id : Nat) (known : Text → Value → Prop) : Prop where
  lt : id < h.frames.size
  free : (h.frame id).constants = []
  knows : h.Knows id known

variable {h h' h'' : Heap} {id owner : Nat} {name : Text} {span : Option Span} {crossed : Bool}
  {fs fs' : List Frame} {f : Frame} {v : Value} {known : Text → Value → Prop}

/-! ## Growth -/

theorem Adds.refl (h : Heap) : h.Adds h := ⟨Nat.le_refl _, fun _ => rfl, id, Nat.le_refl _, fun _ => rfl⟩

theorem Adds.trans (hh : h.Adds h') (hh' : h'.Adds h'') : h.Adds h'' where
  objects_le := Nat.le_trans hh.objects_le hh'.objects_le
  object hi := (hh'.object (Nat.lt_of_lt_of_le hi hh.objects_le)).trans (hh.object hi)
  closure hc := hh'.closure (hh.closure hc)
  frames_le := Nat.le_trans hh.frames_le hh'.frames_le
  frame hi := (hh'.frame (Nat.lt_of_lt_of_le hi hh.frames_le)).trans (hh.frame hi)

/-- A name may be bound in a frame that was added. -/
theorem Adds.bind (hh : h.Adds h') (hid : h.frames.size ≤ id) {n : BindingName} {c : Bool} :
    h.Adds (h'.bind id n v c) where
  objects_le := hh.objects_le
  object := hh.object
  closure := hh.closure
  frames_le := by rw [size_bind]; exact hh.frames_le
  frame hi := by
    rw [Heap.bind, frame_modifyFrame_of_ne (Nat.ne_of_lt (Nat.lt_of_lt_of_le hi hid))]
    exact hh.frame hi

theorem Extends.refl (h : Heap) : h.Extends h := ⟨.refl h, Nat.le_refl _, fun _ => rfl⟩

theorem Extends.trans (hh : h.Extends h') (hh' : h'.Extends h'') : h.Extends h'' where
  toAdds := hh.toAdds.trans hh'.toAdds
  arrays_le := Nat.le_trans hh.arrays_le hh'.arrays_le
  array hi := (hh'.array (Nat.lt_of_lt_of_le hi hh.arrays_le)).trans (hh.array hi)

/-- A name may be bound in a frame that was added. -/
theorem Extends.bind (hh : h.Extends h') (hid : h.frames.size ≤ id) {n : BindingName} {c : Bool} :
    h.Extends (h'.bind id n v c) where
  toAdds := hh.toAdds.bind hid
  arrays_le := hh.arrays_le
  array hi := hh.array hi

@[simp] theorem size_adding : (h.adding fs).frames.size = h.frames.size + fs.length := by simp [adding]

@[simp] theorem adding_nil : h.adding [] = h := by simp [adding]

@[simp] theorem adding_adding : (h.adding fs).adding fs' = h.adding (fs ++ fs') := by simp [adding]

theorem frame_adding (hid : id < h.frames.size) : (h.adding fs).frame id = h.frame id := by
  simp only [frame, adding, Array.getD_eq_getD_getElem?, Array.getElem?_append_left hid]

/-- The first of the further frames. -/
theorem frame_adding_size : (h.adding (f :: fs)).frame h.frames.size = f := by
  simp [frame, adding, Array.getD_eq_getD_getElem?]

theorem extends_adding (h : Heap) (fs : List Frame) : h.Extends (h.adding fs) where
  objects_le := Nat.le_refl _
  object _ := rfl
  closure hc := hc
  frames_le := by simp
  frame hi := frame_adding hi
  arrays_le := Nat.le_refl _
  array _ := rfl

theorem extends_newArray (h : Heap) (items : Array Value) : h.Extends (h.newArray items).2 where
  toAdds := ⟨Nat.le_refl _, fun _ => rfl, id, Nat.le_refl _, fun _ => rfl⟩
  arrays_le := by simp [newArray]
  array {i} hi := by
    simp only [Heap.array, newArray, Array.getD_eq_getD_getElem?, Array.getElem?_push_lt hi,
      Array.getElem?_eq_getElem hi]

theorem extends_newClosure (h : Heap) (c : Closure) : h.Extends (h.newClosure c).2 where
  objects_le := Nat.le_refl _
  object _ := rfl
  closure {i c'} hc := by
    have hi : i < h.closures.size := (Array.getElem?_eq_some_iff.1 hc).1
    rw [newClosure, Array.getElem?_push_lt hi, ← hc, Array.getElem?_eq_getElem hi]
  frames_le := Nat.le_refl _
  frame _ := rfl
  arrays_le := Nat.le_refl _
  array _ := rfl

theorem newFrame_eq_adding (h : Heap) (f : Frame) : h.newFrame f = (h.frames.size, h.adding [f]) := by
  simp [newFrame, adding]

/-- A change of the first of the further frames. -/
theorem modifyFrame_adding (g : Frame → Frame) :
    (h.adding (f :: fs)).modifyFrame h.frames.size g = h.adding (g f :: fs) := by
  have hframes : (h.frames ++ (f :: fs).toArray).modify h.frames.size g = h.frames ++ (g f :: fs).toArray := by
    apply Array.ext
    · simp
    · intro i hi hi'
      rw [Array.getElem_modify, Array.getElem_append, Array.getElem_append]
      split
      · next he => simp [← he]
      · next he =>
        split
        · rfl
        · next hlt =>
          obtain ⟨j, hj⟩ : ∃ j, i - h.frames.size = j + 1 := ⟨i - h.frames.size - 1, by omega⟩
          simp [hj]
  exact congrArg (fun frames => { h with frames := frames }) hframes

/-! ## Arrays -/

theorem array_modifyArray (h : Heap) (id j : Nat) (g : Array Value → Array Value) :
    (h.modifyArray id g).array j = if j = id ∧ j < h.arrays.size then g (h.array j) else h.array j := by
  simp only [array, modifyArray, Array.getD_eq_getD_getElem?, Array.getElem?_modify]
  by_cases hj : id = j
  · subst hj
    by_cases hs : id < h.arrays.size <;> simp [hs]
  · simp [hj, Ne.symm hj]

theorem array_newArray (h : Heap) (items : Array Value) (j : Nat) :
    (h.newArray items).2.array j = if j = h.arrays.size then items else h.array j := by
  simp only [array, newArray, Array.getD_eq_getD_getElem?, Array.getElem?_push]
  split <;> rfl

/-- An array that was added may be changed. -/
theorem Extends.modifyArray (hh : h.Extends h') (hid : h.arrays.size ≤ id) (g : Array Value → Array Value) :
    h.Extends (h'.modifyArray id g) where
  toAdds := ⟨hh.objects_le, hh.object, hh.closure, hh.frames_le, hh.frame⟩
  arrays_le := by simpa [Heap.modifyArray] using hh.arrays_le
  array {i} hi := by
    have hne : ¬(i = id ∧ i < h'.arrays.size) := fun he => absurd hid (Nat.not_le.2 (he.1 ▸ hi))
    rw [array_modifyArray, if_neg hne]
    exact hh.array hi

/-! ## What names stand for -/

theorem resolveFrom_le (hr : h.resolveFrom name span crossed id = .ok owner) : owner ≤ id := by
  fun_induction resolveFrom h name span crossed id with
  | case1 => cases hr
  | case2 crossed id f hb hc =>
    cases hr
    exact Nat.le_refl _
  | case3 crossed id f hb p hp hlt ih => exact Nat.le_trans (ih hr) (Nat.le_of_lt hlt)
  | case4 => cases hr
  | case5 => cases hr

/-- What a name is resolved to depends on the frames of the chain alone, and on what they do for the name. -/
theorem resolveFrom_congr (hf : ∀ j ≤ id, (h'.frame j).Alike name (h.frame j)) :
    h'.resolveFrom name span crossed id = h.resolveFrom name span crossed id := by
  induction id using Nat.strongRecOn generalizing crossed with
  | ind id ih =>
    have hid := hf id (Nat.le_refl _)
    have hb : (h'.frame id).bindings.contains (some name) = (h.frame id).bindings.contains (some name) := by
      rw [OrderedMap.contains_eq_isSome, OrderedMap.contains_eq_isSome, hid.value]
    rw [resolveFrom, resolveFrom, hb, hid.isGlobal, hid.parent, hid.isPure]
    split
    · rfl
    · split
      · split
        · next p _ hlt => exact ih p hlt fun j hj => hf j (Nat.le_trans hj (Nat.le_of_lt hlt))
        · rfl
      · rfl

theorem lookup_congr (hf : ∀ j ≤ id, (h'.frame j).Alike name (h.frame j)) :
    h'.lookup id name span = h.lookup id name span := by
  have hr : h'.resolve id name span = h.resolve id name span := resolveFrom_congr hf
  rw [lookup, lookup, hr]
  cases ho : h.resolve id name span with
  | error fault => rfl
  | ok owner =>
    show Except.ok (((h'.frame owner).bindings.get? (some name)).getD .null) = _
    rw [(hf owner (resolveFrom_le ho)).value]
    rfl

/-- A name stands for what its frame binds it to. -/
theorem lookup_bound (hv : (h.frame id).bindings.get? (some name) = some v) : h.lookup id name span = .ok v := by
  have hb : (h.frame id).bindings.contains (some name) = true := by
    rw [OrderedMap.contains_eq_isSome, hv]
    rfl
  have hr : h.resolve id name span = .ok id := by
    rw [resolve, resolveFrom, if_pos hb]
    rfl
  rw [lookup, hr]
  show Except.ok (((h.frame id).bindings.get? (some name)).getD .null) = _
  rw [hv]
  rfl

/-- A name that a frame does not bind stands for what it stands for outside. -/
theorem lookup_unbound {parent : Nat} (hn : (h.frame id).bindings.get? (some name) = none)
    (hp : (h.frame id).parent = some parent) (hlt : parent < id) (hpure : (h.frame id).isPure = false) :
    h.lookup id name span = h.lookup parent name span := by
  have hb : ¬ (h.frame id).bindings.contains (some name) = true := by
    rw [OrderedMap.contains_eq_isSome, hn]
    exact nofun
  have hr : h.resolve id name span = h.resolve parent name span := by
    rw [resolve, resolveFrom, if_neg hb]
    simp only [hp, hlt, if_true, hpure, Bool.or_false]
    rfl
  rw [lookup, lookup, hr]

/-- Binding one name does not change what another one stands for. -/
theorem lookup_bind_of_ne {j : Nat} {other : Text} {w : Value} {c : Bool} (hne : name ≠ other) :
    (h.bind j (some other) w c).lookup id name span = h.lookup id name span := by
  refine lookup_congr fun i _ => ?_
  rw [bind, frame_modifyFrame]
  split
  · exact ⟨rfl, rfl, rfl, by rw [OrderedMap.get?_insert, if_neg (by simpa using hne)]⟩
  · exact .refl _ _

/-! ## Known names -/

namespace Knows

theorem adds (hk : h.Knows id known) (ha : h.Adds h') (hid : id < h.frames.size) : h'.Knows id known := by
  intro name v hn span
  have hsame (j : Nat) (hj : j ≤ id) : (h'.frame j).Alike name (h.frame j) := by
    rw [ha.frame (Nat.lt_of_le_of_lt hj hid)]
    exact .refl name _
  rw [lookup_congr hsame]
  exact hk name v hn span

/-- A frame inside another knows what it binds and what the other one knows. -/
theorem child {parent : Nat} (hk : h.Knows parent known) (hlt : parent < h.frames.size)
    (hp : f.parent = some parent) (hpure : f.isPure = false) :
    (h.adding (f :: fs)).Knows h.frames.size (f.Knowing known) := by
  rintro name v (hb | ⟨hb, hn⟩) span
  · exact lookup_bound (by rw [frame_adding_size, hb])
  · rw [lookup_unbound (by rw [frame_adding_size, hb]) (by rw [frame_adding_size, hp]) hlt
      (by rw [frame_adding_size, hpure])]
    exact hk.adds (extends_adding h _).toAdds hlt name v hn span

/-- A frame knows what a name is bound to in it. -/
theorem bind {c : Bool} (hk : h.Knows id known) (hlt : id < h.frames.size) :
    (h.bind id (some name) v c).Knows id (Binding name v known) := by
  rintro n w (⟨rfl, rfl⟩ | ⟨hne, hn⟩) span
  · refine lookup_bound ?_
    rw [Heap.bind, frame_modifyFrame, if_pos ⟨rfl, hlt⟩, OrderedMap.get?_insert, if_pos rfl]
  · rw [lookup_bind_of_ne hne]
    exact hk n w hn span

end Knows

namespace Site

theorem adds (hs : h.Site id known) (ha : h.Adds h') : h'.Site id known where
  lt := Nat.lt_of_lt_of_le hs.lt ha.frames_le
  free := by rw [ha.frame hs.lt, hs.free]
  knows := hs.knows.adds ha hs.lt

theorem child {parent : Nat} (hk : h.Knows parent known) (hlt : parent < h.frames.size)
    (hp : f.parent = some parent) (hpure : f.isPure = false) (hc : f.constants = []) :
    (h.adding (f :: fs)).Site h.frames.size (f.Knowing known) where
  lt := by simp
  free := by rw [frame_adding_size, hc]
  knows := hk.child hlt hp hpure

theorem bind (hs : h.Site id known) : (h.bind id (some name) v false).Site id (Binding name v known) where
  lt := by rw [size_bind]; exact hs.lt
  free := by rw [Heap.bind, frame_modifyFrame, if_pos ⟨rfl, hs.lt⟩]; exact hs.free
  knows := hs.knows.bind hs.lt

theorem isConstant (hs : h.Site id known) (name : BindingName) : h.isConstant id name = false := by
  rw [Heap.isConstant, hs.free]
  rfl

end Site

/-! ## Variables -/

/-- A name is found from a frame in the frame that owns it, which binds it to a value and not as a constant. -/
structure Variable (h : Heap) (id : Nat) (name : Text) (owner : Nat) (v : Value) : Prop where
  resolves : ∀ span, h.resolve id name span = .ok owner
  value : (h.frame owner).bindings.get? (some name) = some v
  free : h.isConstant owner (some name) = false
  lt : id < h.frames.size

variable {w : Value}

/-- Where a name is found does not depend on what it is bound to. -/
theorem resolveFrom_bind (hb : (h.frame owner).bindings.contains (some name) = true) :
    (h.bind owner (some name) w false).resolveFrom name span crossed id = h.resolveFrom name span crossed id := by
  have hframe (j : Nat) : ((h.bind owner (some name) w false).frame j).bindings.contains (some name) =
        (h.frame j).bindings.contains (some name) ∧
      ((h.bind owner (some name) w false).frame j).isGlobal = (h.frame j).isGlobal ∧
      ((h.bind owner (some name) w false).frame j).isPure = (h.frame j).isPure ∧
      ((h.bind owner (some name) w false).frame j).parent = (h.frame j).parent := by
    rw [bind, frame_modifyFrame]
    split
    · next hj =>
      rw [hj.1, hb]
      refine ⟨?_, rfl, rfl, rfl⟩
      rw [OrderedMap.contains_eq_isSome, OrderedMap.get?_insert, if_pos rfl]
      rfl
    · exact ⟨rfl, rfl, rfl, rfl⟩
  induction id using Nat.strongRecOn generalizing crossed with
  | ind id ih =>
    obtain ⟨hcontains, hglobal, hpure, hparent⟩ := hframe id
    rw [resolveFrom, resolveFrom, hcontains, hglobal, hpure, hparent]
    split
    · rfl
    · split
      · split
        · next p _ hlt => exact ih p hlt
        · rfl
      · rfl

namespace Variable

theorem bound (hv : h.Variable id name owner v) : (h.frame owner).bindings.contains (some name) = true := by
  rw [OrderedMap.contains_eq_isSome, hv.value]
  rfl

/-- A variable of a frame, seen from this. -/
theorem own (hs : h.Site id known) (hv : (h.frame id).bindings.get? (some name) = some v) :
    h.Variable id name id v where
  resolves span := by
    have hb : (h.frame id).bindings.contains (some name) = true := by
      rw [OrderedMap.contains_eq_isSome, hv]
      rfl
    rw [resolve, resolveFrom, if_pos hb]
    rfl
  value := hv
  free := hs.isConstant _
  lt := hs.lt

/-- A name that has been bound in a frame. -/
theorem declared (hs : h.Site id known) : (h.bind id (some name) v false).Variable id name id v := by
  have hsite : (h.bind id (some name) v false).Site id (Binding name v known) := hs.bind
  refine own hsite ?_
  rw [Heap.bind, frame_modifyFrame, if_pos ⟨rfl, hs.lt⟩, OrderedMap.get?_insert, if_pos rfl]

variable (hv : h.Variable id name owner v)

include hv

theorem lookup : h.lookup id name span = .ok v := by
  rw [Heap.lookup, hv.resolves]
  show Except.ok (((h.frame owner).bindings.get? (some name)).getD .null) = _
  rw [hv.value]
  rfl

theorem assignable : h.assignable id name span = .ok owner := by
  rw [Heap.assignable, hv.resolves]
  show (if h.isConstant owner (some name) then _ else _) = _
  rw [hv.free]
  rfl

theorem owner_lt : owner < h.frames.size := by
  by_contra hle
  have hvalue := hv.value
  rw [frame_of_size_le (Nat.le_of_not_lt hle)] at hvalue
  cases hvalue

theorem adds (ha : h.Adds h') : h'.Variable id name owner v where
  resolves span := by
    rw [resolve, resolveFrom_congr fun j hj => ?_]
    · exact hv.resolves span
    · rw [ha.frame (Nat.lt_of_le_of_lt hj hv.lt)]
      exact .refl name _
  value := by rw [ha.frame hv.owner_lt, hv.value]
  free := by rw [isConstant, ha.frame hv.owner_lt, ← isConstant, hv.free]
  lt := Nat.lt_of_lt_of_le hv.lt ha.frames_le

/-- A variable is seen from a frame inside that does not bind its name. -/
theorem inner (hn : f.bindings.get? (some name) = none) (hp : f.parent = some id) (hpure : f.isPure = false) :
    (h.adding (f :: fs)).Variable h.frames.size name owner v where
  resolves span := by
    have hout := hv.adds (extends_adding h (f :: fs)).toAdds
    have hb : ¬ f.bindings.contains (some name) = true := by
      rw [OrderedMap.contains_eq_isSome, hn]
      exact nofun
    rw [resolve, resolveFrom, frame_adding_size, if_neg hb, hp]
    simp only [hv.lt, if_true, hpure, Bool.or_false]
    exact hout.resolves span
  value := (hv.adds (extends_adding h (f :: fs)).toAdds).value
  free := (hv.adds (extends_adding h (f :: fs)).toAdds).free
  lt := by simp

/-- An assigned variable holds the new value. -/
theorem assign : (h.bind owner (some name) w false).Variable id name owner w where
  resolves span := by
    rw [resolve, resolveFrom_bind hv.bound]
    exact hv.resolves span
  value := by rw [Heap.bind, frame_modifyFrame, if_pos ⟨rfl, hv.owner_lt⟩, OrderedMap.get?_insert, if_pos rfl]
  free := by
    rw [isConstant, Heap.bind, frame_modifyFrame, if_pos ⟨rfl, hv.owner_lt⟩]
    exact hv.free
  lt := by
    rw [size_bind]
    exact hv.lt

end Variable

/-- Other names stand for what they stood for before an assignment. -/
theorem Site.assign (hs : h.Site id known) (hname : ∀ v, ¬ known name v) :
    (h.bind owner (some name) w false).Site id known where
  lt := by rw [size_bind]; exact hs.lt
  free := by
    rw [Heap.bind, frame_modifyFrame]
    split <;> exact hs.free
  knows other v hv span := by
    have hne : other ≠ name := fun he => hname v (he ▸ hv)
    rw [lookup_bind_of_ne hne]
    exact hs.knows other v hv span

end Heap

end ScriptEngine

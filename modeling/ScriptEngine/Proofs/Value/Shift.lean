import ScriptEngine.Eval.Access
import ScriptEngine.Eval.Arithmetic
import ScriptEngine.Eval.Purity
import ScriptEngine.Proofs.Value.Copying
import ScriptEngine.Proofs.Value.Frames
import ScriptEngine.Value.Datum

/-!
# Further frames

A shift (`Shift`) puts frames between those of a heap. The later frames move up, and so does everything that
refers to them: the frames of functions, the parents of frames and the frames of modules. Besides, it lets more
calls be active. Nothing else is changed.

* What is read of cells alone is the same (`Heap.display_shifted` and the like).
* What names stand for in a frame, they stand for in the frame at the place that it has moved to
  (`Heap.resolve_shifted`, `Heap.lookup_shifted`).
* Frames that are added and changed are added and changed in the same way (`Heap.newFrame_shifted`,
  `Heap.modifyFrame_shifted`).
-/

namespace ScriptEngine

/-- Frames that are put before the frame at a place, and how many more calls are active. -/
structure Shift where
  start : Nat
  frames : List Frame
  depth : Nat

/-- Nothing is put anywhere. -/
def Shift.still : Shift := ⟨0, [], 0⟩

/-- The shift of what a thread runs, which has a call depth of its own. -/
def Shift.inThread (s : Shift) : Shift := { s with depth := 0 }

/-- The place that a frame moves to. -/
def Shift.place (s : Shift) (i : Nat) : Nat := if i < s.start then i else i + s.frames.length

/-- A frame with the place that its parent moves to. -/
def Frame.shifted (s : Shift) (f : Frame) : Frame := { f with parent := f.parent.map s.place }

/-- A function with the place that its frame moves to. -/
def Closure.shifted (s : Shift) (c : Closure) : Closure := { c with frame := s.place c.frame }

/-- A heap with further frames. -/
def Heap.shifted (s : Shift) (h : Heap) : Heap :=
  { h with
    closures := h.closures.map (·.shifted s)
    frames := ((h.frames.toList.take s.start).map (·.shifted s) ++ s.frames ++
      (h.frames.toList.drop s.start).map (·.shifted s)).toArray }

/-- The frames are put between those of a heap, or right behind them. -/
def Shift.Fits (s : Shift) (h : Heap) : Prop := s.start ≤ h.frames.size

/-- A result of the heap, with the heap after it moved. -/
def Shift.shiftedResult {α : Type} (s : Shift) (x : α × Heap) : α × Heap := (x.1, x.2.shifted s)

namespace Shift

variable {s : Shift} {i j : Nat}

theorem place_of_lt (hi : i < s.start) : s.place i = i := if_pos hi

theorem place_of_le (hi : s.start ≤ i) : s.place i = i + s.frames.length := if_neg (Nat.not_lt.2 hi)

theorem place_lt_place : s.place i < s.place j ↔ i < j := by
  unfold place
  split <;> split <;> omega

theorem place_inj : s.place i = s.place j ↔ i = j := by
  unfold place
  split <;> split <;> omega

@[simp] theorem place_still : still.place = id := rfl

end Shift

namespace Heap

variable {s : Shift} {h : Heap} {i : Nat} {v w : Value}

/-! ## Cells -/

@[simp] theorem array_shifted : (h.shifted s).array = h.array := rfl

@[simp] theorem object_shifted : (h.shifted s).object = h.object := rfl

@[simp] theorem reference_shifted : (h.shifted s).reference = h.reference := rfl

@[simp] theorem follow?_shifted : (h.shifted s).follow? v = h.follow? v := by
  have hin (steps : Nat) (v : Value) : (h.shifted s).followIn? steps v = h.followIn? steps v := by
    induction steps generalizing v with
    | zero => rfl
    | succ n ih =>
      unfold followIn?
      split
      · exact ih _
      · rfl
  exact hin _ v

theorem closureName_shifted (id : Nat) : (h.shifted s).closureName id = h.closureName id := by
  have hclosure : (h.shifted s).closures[id]? = h.closures[id]?.map (·.shifted s) := by simp [shifted]
  rw [closureName, closureName, hclosure]
  cases h.closures[id]? <;> rfl

theorem render_shifted (depth : Nat) : (h.shifted s).render depth = h.render depth := by
  induction depth with
  | zero => rfl
  | succ n ih =>
    funext quote within v
    unfold render
    rw [ih]
    simp only [closureName_shifted, array_shifted, object_shifted, reference_shifted]

@[simp] theorem display_shifted : (h.shifted s).display v = h.display v :=
  congrFun (congrFun (congrFun (render_shifted _) _) _) _

@[simp] theorem quotedForm_shifted : (h.shifted s).quotedForm v = h.quotedForm v :=
  congrFun (congrFun (congrFun (render_shifted _) _) _) _

@[simp] theorem toDatum?_shifted : (h.shifted s).toDatum? v = h.toDatum? v := by
  have hin (depth : Nat) : (h.shifted s).toDatumIn? depth = h.toDatumIn? depth := by
    induction depth with
    | zero => rfl
    | succ n ih =>
      funext v
      unfold toDatumIn?
      rw [ih]
      rfl
  exact congrFun (hin _) v

@[simp] theorem compare_shifted : (h.shifted s).compare v w = h.compare v w := rfl

@[simp] theorem equal_shifted : (h.shifted s).equal v w = h.equal v w := by
  have hagree (assumed : List CellPair) (pending : List (Value × Value)) :
      (h.shifted s).agree assumed pending = h.agree assumed pending := by
    fun_induction h.agree assumed pending with
    | case1 => rw [agree]
    | case2 assumed a b rest hc =>
      rw [agree]
      split <;> simp_all
    | case3 assumed a b rest hc ih =>
      rw [agree]
      split <;> simp_all
    | case4 assumed a b rest pair contents hc hm ih =>
      rw [agree]
      split <;> simp_all
    | case5 assumed a b rest pair contents hc hm ih =>
      rw [agree]
      split <;> simp_all
  exact hagree [] [(v, w)]

theorem reach_shifted : (h.shifted s).reach v = h.reach v := by
  have hfrom (found pending : List Cell) : (h.shifted s).reachFrom found pending = h.reachFrom found pending := by
    fun_induction h.reachFrom found pending with
    | case1 => rw [reachFrom]
    | case2 found c rest hc ih =>
      rw [reachFrom, dif_pos (by cases c <;> exact hc), ← ih]
      cases c <;> rfl
    | case3 found c rest hc ih => rw [reachFrom, dif_neg (by cases c <;> exact hc), ih]
  rw [reach, reach, hfrom]

@[simp] theorem deepCopy_shifted : (h.shifted s).deepCopy v = s.shiftedResult (h.deepCopy v) := by
  rw [deepCopy_eq, deepCopy_eq, reach_shifted]
  rfl

@[simp] theorem shallowCopy_shifted : (h.shifted s).shallowCopy v = s.shiftedResult (h.shallowCopy v) := by
  unfold shallowCopy
  split <;> rfl

@[simp] theorem newError_shifted {message kind : Text} {data : Option Value} {span : Option Span} :
    (h.shifted s).newError message kind data span = s.shiftedResult (h.newError message kind data span) := rfl

mutual

@[simp] theorem ofDatum_shifted (h : Heap) : ∀ d : Datum, (h.shifted s).ofDatum d = s.shiftedResult (h.ofDatum d)
  | .null | .bool _ | .number _ | .text _ | .handle _ => rfl
  | .list items => by
    rw [ofDatum, ofDatum, ofData_shifted h items]
    rfl
  | .object members => by
    rw [ofDatum, ofDatum, ofMembers_shifted h members]
    rfl

theorem ofData_shifted (h : Heap) : ∀ ds : List Datum, (h.shifted s).ofData ds = s.shiftedResult (h.ofData ds)
  | [] => rfl
  | d :: rest => by
    rw [ofData, ofData, ofDatum_shifted h d]
    simp only [Shift.shiftedResult]
    rw [ofData_shifted _ rest]
    rfl

theorem ofMembers_shifted (h : Heap) : ∀ ds : List (Text × Datum),
    (h.shifted s).ofMembers ds = s.shiftedResult (h.ofMembers ds)
  | [] => rfl
  | (_, d) :: rest => by
    rw [ofMembers, ofMembers, ofDatum_shifted h d]
    simp only [Shift.shiftedResult]
    rw [ofMembers_shifted _ rest]
    rfl

end

/-! ## Operators and members -/

section

variable {span : Span}

@[simp] theorem arithmetic_shifted {op : ArithOp} :
    (h.shifted s).arithmetic op v w span = h.arithmetic op v w span := by
  have hjoined : (h.shifted s).joinedText? w = h.joinedText? w := by
    unfold joinedText?
    rw [display?, display?, display_shifted]
  unfold arithmetic
  rw [hjoined]

@[simp] theorem comparison_shifted {op : CompareOp} :
    (h.shifted s).comparison op v w span = h.comparison op v w span := by
  unfold comparison
  rw [equal_shifted]

@[simp] theorem membership_shifted : (h.shifted s).membership v w span = h.membership v w span := by
  unfold membership
  simp only [array_shifted, object_shifted, equal_shifted]

@[simp] theorem pairs?_shifted : (h.shifted s).pairs? v = h.pairs? v := rfl

@[simp] theorem length?_shifted : (h.shifted s).length? v = h.length? v := rfl

@[simp] theorem element_shifted : (h.shifted s).element v w span = h.element v w span := rfl

@[simp] theorem member_shifted {name : Text} : (h.shifted s).member v name span = h.member v name span := rfl

@[simp] theorem method_shifted {name : Text} : (h.shifted s).method v name span = h.method v name span := rfl

end

/-! ## Frames -/

theorem size_shifted : (h.shifted s).frames.size = h.frames.size + s.frames.length := by
  simp only [shifted, List.size_toArray, List.length_append, List.length_map, List.length_take, List.length_drop,
    Array.length_toList]
  omega

theorem fits_of_size_le {h' : Heap} (hs : s.Fits h) (hle : h.frames.size ≤ h'.frames.size) : s.Fits h' :=
  Nat.le_trans hs hle

/-- The frames of the moved heap: those before the start, the further ones and the others. -/
theorem getElem?_frames_shifted (hs : s.Fits h) (j : Nat) :
    (h.shifted s).frames[j]? =
      if j < s.start then h.frames[j]?.map (·.shifted s)
      else if j < s.start + s.frames.length then s.frames[j - s.start]?
      else h.frames[j - s.frames.length]?.map (·.shifted s) := by
  have hmin : min s.start h.frames.size = s.start := Nat.min_eq_left hs
  simp only [shifted, List.getElem?_toArray]
  split
  · next hj =>
    rw [List.append_assoc, List.getElem?_append_left (by simpa [hmin] using hj)]
    simp [hj]
  · next hj =>
    split
    · next hlt =>
      rw [List.getElem?_append_left (by simp [hmin]; omega), List.getElem?_append_right (by simp [hmin]; omega)]
      simp [hmin]
    · next hle =>
      rw [List.getElem?_append_right (by simp [hmin]; omega)]
      have hplace : s.start + (j - (s.start + s.frames.length)) = j - s.frames.length := by omega
      simp [hmin, hplace]

/-- A frame is found at the place that it has moved to. -/
theorem getElem?_place (hs : s.Fits h) : (h.shifted s).frames[s.place i]? = h.frames[i]?.map (·.shifted s) := by
  rw [getElem?_frames_shifted hs, Shift.place]
  split
  · rfl
  · next hi => rw [if_neg (by omega), if_neg (by omega), Nat.add_sub_cancel]

theorem frame_shifted (hs : s.Fits h) : (h.shifted s).frame (s.place i) = (h.frame i).shifted s := by
  rw [frame, frame, Array.getD_eq_getD_getElem?, Array.getD_eq_getD_getElem?, getElem?_place hs]
  cases h.frames[i]? <;> rfl

theorem newFrame_shifted (hs : s.Fits h) (f : Frame) :
    (h.shifted s).newFrame (f.shifted s) = (s.place h.frames.size, (h.newFrame f).2.shifted s) := by
  have hle : s.start ≤ h.frames.toList.length := hs
  have hframes : (h.shifted s).frames.push (f.shifted s) = ((h.newFrame f).2.shifted s).frames := by
    simp [shifted, newFrame, List.drop_append_of_le_length hle, List.take_append_of_le_length hle]
  have hplace : (h.shifted s).frames.size = s.place h.frames.size := by
    rw [size_shifted, Shift.place_of_le hs]
  simp only [newFrame, hplace, hframes]
  rfl

/-- A change of a frame is a change of the frame where it has moved to. -/
theorem modifyFrame_shifted (hs : s.Fits h) {g g' : Frame → Frame}
    (hg : ∀ f : Frame, g' (f.shifted s) = (g f).shifted s) :
    (h.shifted s).modifyFrame (s.place i) g' = (h.modifyFrame i g).shifted s := by
  have hs' : s.Fits (h.modifyFrame i g) := fits_of_size_le hs (Nat.le_of_eq (size_modifyFrame h i g).symm)
  have hframes : ((h.shifted s).modifyFrame (s.place i) g').frames = ((h.modifyFrame i g).shifted s).frames := by
    have hmap (f? : Option Frame) : (f?.map (·.shifted s)).map g' = (f?.map g).map (·.shifted s) := by
      cases f? with
      | none => rfl
      | some f => exact congrArg some (hg f)
    refine Array.ext_getElem? fun j => ?_
    rw [getElem?_frames_shifted hs', modifyFrame, Array.getElem?_modify, getElem?_frames_shifted hs]
    simp only [modifyFrame, Array.getElem?_modify, Shift.place]
    split_ifs <;> first | rfl | exact hmap _ | omega
  show { h.shifted s with frames := ((h.shifted s).modifyFrame (s.place i) g').frames } = _
  rw [hframes]
  rfl

/-! ## Names -/

section

variable {name : Text} {span : Option Span} {n : BindingName}

theorem bind_shifted (hs : s.Fits h) {c : Bool} : (h.shifted s).bind (s.place i) n v c = (h.bind i n v c).shifted s :=
  modifyFrame_shifted hs fun _ => rfl

theorem isConstant_shifted (hs : s.Fits h) : (h.shifted s).isConstant (s.place i) n = h.isConstant i n := by
  rw [isConstant, isConstant, frame_shifted hs]
  rfl

/-- A name is resolved to the place that its frame has moved to. -/
theorem resolveFrom_shifted (hs : s.Fits h) {crossed : Bool} :
    (h.shifted s).resolveFrom name span crossed (s.place i) = (h.resolveFrom name span crossed i).map s.place := by
  fun_induction h.resolveFrom name span crossed i with
  | case1 crossed i f hb hc =>
    rw [resolveFrom, frame_shifted hs, if_pos (by exact hb), if_pos (by exact hc)]
    rfl
  | case2 crossed i f hb hc =>
    rw [resolveFrom, frame_shifted hs, if_pos (by exact hb), if_neg (by exact hc)]
    rfl
  | case3 crossed i f hb p hp hlt ih =>
    have hp' : (f.shifted s).parent = some (s.place p) := by rw [Frame.shifted, hp]; rfl
    rw [resolveFrom, frame_shifted hs, if_neg (by exact hb), hp']
    exact (if_pos (Shift.place_lt_place.2 hlt)).trans ih
  | case4 crossed i f hb p hp hlt =>
    have hp' : (f.shifted s).parent = some (s.place p) := by rw [Frame.shifted, hp]; rfl
    rw [resolveFrom, frame_shifted hs, if_neg (by exact hb), hp']
    exact if_neg (mt Shift.place_lt_place.1 hlt)
  | case5 crossed i f hb hp =>
    have hp' : (f.shifted s).parent = none := by rw [Frame.shifted, hp]; rfl
    rw [resolveFrom, frame_shifted hs, if_neg (by exact hb), hp']
    rfl

theorem resolve_shifted (hs : s.Fits h) :
    (h.shifted s).resolve (s.place i) name span = (h.resolve i name span).map s.place :=
  resolveFrom_shifted hs

/-- A name stands for the same where its frame has moved to. -/
theorem lookup_shifted (hs : s.Fits h) : (h.shifted s).lookup (s.place i) name span = h.lookup i name span := by
  rw [lookup, lookup, resolve_shifted hs]
  cases h.resolve i name span with
  | error fault => rfl
  | ok owner =>
    show Except.ok ((((h.shifted s).frame (s.place owner)).bindings.get? (some name)).getD .null) = _
    rw [frame_shifted hs]
    rfl

theorem assignable_shifted (hs : s.Fits h) :
    (h.shifted s).assignable (s.place i) name span = (h.assignable i name span).map s.place := by
  rw [assignable, assignable, resolve_shifted hs]
  cases h.resolve i name span with
  | error fault => rfl
  | ok owner =>
    show (if (h.shifted s).isConstant (s.place owner) (some name) then _ else _ : Except Fault Nat) =
      (if h.isConstant owner (some name) then _ else _ : Except Fault Nat).map s.place
    rw [isConstant_shifted hs]
    split <;> rfl

theorem declareExport_shifted (hs : s.Fits h) {altName : Option Text} :
    (h.shifted s).declareExport (s.place i) n altName span = (h.declareExport i n altName span).map (·.shifted s) := by
  rw [declareExport, declareExport, frame_shifted hs]
  show (if (h.frame i).bindings.contains n then _ else _) = _
  split
  · exact congrArg Except.ok (modifyFrame_shifted hs fun _ => rfl)
  · rfl

theorem exportedNames_shifted (hs : s.Fits h) : (h.shifted s).exportedNames (s.place i) = h.exportedNames i := by
  rw [exportedNames, exportedNames, frame_shifted hs]
  rfl

theorem export?_shifted (hs : s.Fits h) : (h.shifted s).export? (s.place i) n = h.export? i n := by
  rw [export?, export?, frame_shifted hs]
  rfl

theorem chain_shifted (hs : s.Fits h) : (h.shifted s).chain (s.place i) = (h.chain i).map s.place := by
  fun_induction h.chain i with
  | case1 i p hp hlt ih =>
    rw [chain, frame_shifted hs, Frame.shifted, hp]
    simp only [Option.map_some, if_pos (Shift.place_lt_place.2 hlt), ih, List.map_cons]
  | case2 i p hp hlt =>
    rw [chain, frame_shifted hs, Frame.shifted, hp]
    simp only [Option.map_some, if_neg (mt Shift.place_lt_place.1 hlt), List.map_cons, List.map_nil]
  | case3 i hp =>
    rw [chain, frame_shifted hs, Frame.shifted, hp]
    rfl

theorem moduleFile?_shifted (hs : s.Fits h) : (h.shifted s).moduleFile? (s.place i) = h.moduleFile? i := by
  rw [moduleFile?, moduleFile?, chain_shifted hs, List.findSome?_map]
  refine congrArg (List.findSome? · (h.chain i)) (funext fun j => ?_)
  rw [Function.comp_apply, frame_shifted hs]
  rfl

theorem owner?_shifted (hs : s.Fits h) : (h.shifted s).owner? (s.place i) name = (h.owner? i name).map s.place := by
  have hbinds : ((fun f => ((h.shifted s).frame f).bindings.contains (some name)) ∘ s.place) =
      fun f => (h.frame f).bindings.contains (some name) := by
    funext j
    rw [Function.comp_apply, frame_shifted hs]
    rfl
  rw [owner?, owner?, chain_shifted hs, List.find?_map, hbinds]

theorem checkPure_shifted (hs : s.Fits h) {f : FunctionDef} :
    (h.shifted s).checkPure (s.place i) f = h.checkPure i f := by
  have hcaptured : (h.shifted s).captured? (s.place i) f = h.captured? i f := by
    rw [captured?, captured?]
    refine congrArg (List.find? · f.free) (funext fun (n, _) => ?_)
    simp only [owner?_shifted hs, Option.any_map]
    refine congrArg (Option.any · (h.owner? i n)) (funext fun j => ?_)
    show (!((h.shifted s).frame (s.place j)).isGlobal) = _
    rw [frame_shifted hs]
    rfl
  rw [checkPure, checkPure, hcaptured]

end

theorem newClosure_shifted {c : Closure} :
    (h.shifted s).newClosure (c.shifted s) = s.shiftedResult (h.newClosure c) := by
  simp [newClosure, Shift.shiftedResult, shifted]

end Heap

/-! ## Machines -/

/-- The modules with the places that their frames move to. -/
def Modules.shifted (s : Shift) (ms : Modules) : Modules :=
  { ms with
    loaded := ms.loaded.mapValues s.place
    journal := ms.journal.map fun l => { l with frame := s.place l.frame } }

/-- A machine with further frames and more active calls. -/
def Machine.shifted (s : Shift) (m : Machine) : Machine :=
  { m with
    heap := m.heap.shifted s
    depth := m.depth + s.depth
    modules := m.modules.shifted s
    mainFrame := s.place m.mainFrame
    globalFrame := s.place m.globalFrame }

@[simp] theorem Frame.shifted_still (f : Frame) : f.shifted .still = f := by
  rw [Frame.shifted, Shift.place_still, Option.map_id_fun, id_eq]

@[simp] theorem Closure.shifted_still (c : Closure) : c.shifted .still = c := rfl

@[simp] theorem Machine.shifted_still (m : Machine) : m.shifted .still = m := by
  have hheap : m.heap.shifted .still = m.heap := by
    have hstart : Shift.still.start = 0 := rfl
    have hframes : Shift.still.frames = [] := rfl
    simp [Heap.shifted, hstart, hframes]
  have hmodules : m.modules.shifted .still = m.modules := by simp [Modules.shifted, OrderedMap.mapValues]
  rw [Machine.shifted, hheap, hmodules]
  rfl

/-- The end of an evaluation, with the result that it has and the machine that it leaves among further frames. -/
def Shift.carry {α β : Type} (s : Shift) (g : α → β) :
    EStateM.Result Exit Machine α → EStateM.Result Exit Machine β
  | .ok a m => .ok (g a) (m.shifted s)
  | .error e m => .error e (m.shifted s)

end ScriptEngine

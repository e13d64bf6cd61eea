import ScriptEngine.Proofs.Eval.Assignment
import ScriptEngine.Proofs.Eval.Ranges
import ScriptEngine.Proofs.Eval.Settling
import ScriptEngine.Proofs.Value.Growth
import ScriptEngine.Proofs.Value.Visibility

/-!
# Places in bodies

Rules for the total correctness of the bodies of functions, each from the meaning of its construct alone.

* `Machine.Within`: a place in a body, as a frame from which names are known.
* `Eval.Finishes`: a body comes to its end, by a value or by returning it.
* `Interp.settles_call`: a call gives what the body of the function finishes with, if its constraints are satisfied.
* `Interp.settles_search`: a loop over numbers that is left at the first one with some property.
-/

namespace ScriptEngine

/-- A place in a body that runs from the machine `m₀` and has had no side effects: a frame that was not there then, from
which names are known. -/
structure Machine.Within (m₀ : Machine) (F : Nat) (known : Text → Value → Prop) (m : Machine) : Prop where
  unaffected : m₀.Unaffected m
  outer : m₀.heap.frames.size ≤ F
  site : m.heap.Site F known

namespace Machine.Within

variable {m₀ m m' : Machine} {F : Nat} {known : Text → Value → Prop} {name : Text} {v : Value} {f : Frame}

theorem knows (hm : Within m₀ F known m) : m.heap.Knows F known := hm.site.knows

theorem later (hm : Within m₀ F known m) (hm' : m.Unaffected m') : Within m₀ F known m' :=
  ⟨hm.unaffected.trans hm', hm.outer, hm.site.adds hm'.kept.toAdds⟩

theorem bind (hm : Within m₀ F known m) :
    Within m₀ F (Binding name v known) (m.withHeap (m.heap.bind F (some name) v false)) :=
  ⟨hm.unaffected.bind hm.outer, hm.outer, hm.site.bind⟩

theorem mono {known' : Text → Value → Prop} (hm : Within m₀ F known m)
    (hsub : ∀ name v, known' name v → known name v) : Within m₀ F known' m :=
  ⟨hm.unaffected, hm.outer, hm.site.lt, hm.site.free, fun name v hv => hm.knows name v (hsub name v hv)⟩

/-- A frame inside that of the place. -/
theorem child (hm : Within m₀ F known m) (hp : f.parent = some F) (hpure : f.isPure = false)
    (hc : f.constants = []) :
    Within m₀ m.heap.frames.size (f.Knowing known) (m.withHeap (m.heap.adding [f])) :=
  ⟨hm.unaffected.trans (m.unaffected_adding [f]), hm.unaffected.kept.frames_le,
    .child hm.knows hm.site.lt hp hpure hc⟩

theorem withDepth (hm : Within m₀ F known m) (d : Nat) : Within (m₀.withDepth d) F known (m.withDepth d) :=
  ⟨hm.unaffected.withDepth d, hm.outer, hm.site⟩

/-- The frame of a call. -/
theorem of_call (c : Closure) (values : List (Text × Value)) (hk : m.heap.Knows c.frame known)
    (hlt : c.frame < m.heap.frames.size) :
    Within m m.heap.frames.size ((c.callFrame values).Knowing known)
      (m.withHeap (m.heap.adding [c.callFrame values])) :=
  ⟨m.unaffected_adding _, Nat.le_refl _, .child hk hlt rfl rfl rfl⟩

end Machine.Within

/-- A body comes to its end, by a value or by returning it. -/
inductive Eval.Finishes (x : Nat → Eval Value) (m : Machine) (v : Value) (m' : Machine) : Prop
  | value (h : Settles x m (.ok v m'))
  | returned {s : Span} (h : Settles x m (.error (.returned v s) m'))

namespace Interp

open Eval

variable {m m' m'' : Machine} {F : Nat} {known : Text → Value → Prop} {name : Text} {v w : Value} {s s' s'' : Span}
  {span : Option Span} {e : Expr} {es : List Expr} {vs args : List Value} {r : EStateM.Result Exit Machine Value}

/-! ## Expressions -/

theorem settles_name (hk : m.heap.Knows F known) (hv : known name v) :
    Settles (fun n => (ofLevel n).eval (.name s name) F) m (.ok v m) :=
  Settles.succ (settles_of_eq fun _ => readHeap_ok (hk name v hv _))

theorem settles_literal {l : Literal} : Settles (fun n => (ofLevel n).eval (.literal s l) F) m (.ok (literal l) m) :=
  Settles.succ (settles_of_eq fun _ => rfl)

theorem settles_length {size : Nat} (he : Settles (fun n => (ofLevel n).eval e F) m (.ok v m'))
    (hv : m'.heap.length? v = some size) :
    Settles (fun n => (ofLevel n).eval (.unary s .length e) F) m (.ok (.number size) m') := by
  refine Settles.succ (he.bind (settles_of_eq fun n => ?_))
  have hheap : Eval.heap m' = .ok m'.heap m' := rfl
  rw [unary, bind_ok hheap, hv]
  rfl

theorem settles_blockExpr {b : Block} (hb : Settles (fun n => (ofLevel n).block b F) m r) :
    Settles (fun n => (ofLevel n).eval (.block b) F) m r :=
  Settles.succ hb

/-- A variable gets the result of an operator. -/
theorem settles_compound {op : AssignOp} {a : ArithOp} {owner : Nat} {u : Value} (ha : op.arith? = some a)
    (hv : m.heap.Variable F name owner v) (he : Settles (fun n => (ofLevel n).eval e F) m (.ok w m'))
    (hm : m.Unaffected m') (hu : m'.heap.arithmetic a v w s = .ok u) :
    Settles (fun n => (ofLevel n).eval (.assign s (.name s' name) op e) F) m
      (.ok u (m'.withHeap (m'.heap.bind owner (some name) u false))) := by
  obtain ⟨N, hN⟩ := he
  have htarget (n : Nat) : (ofLevel n).target (.name s' name) F m = .ok (.name F name s') m := rfl
  have hread : (Target.name F name s').read m = .ok v m := readHeap_ok hv.lookup
  have hoperator : arithmetic a v w s m' = .ok u m' := arithmetic_ok hu
  have howner : m'.heap.assignable F name s' = .ok owner := (hv.adds hm.kept.toAdds).assignable
  refine Settles.succ ⟨N, fun n hn => ?_⟩
  dsimp only
  rw [eval_assign_compound ha, bind_ok (htarget n), bind_ok hread, bind_ok (hN n hn), bind_ok hoperator]
  exact (bind_ok (assign_ok howner)).trans rfl

/-- A call of a native function that a name holds. -/
theorem settles_callMember {holder : Text} {id : Nat} {f : Native} (hk : m.heap.Knows F known)
    (hh : known holder (.plain (.object id))) (hf : (m.heap.object id).get? f.name = some (.plain (.native f)))
    (hargs : Settles (fun n => (ofLevel n).evalList F es) m (.ok vs m')) (hcall : ∀ I, f.call I vs (some s) m' = r) :
    Settles (fun n => (ofLevel n).eval (.call s (.member s' (.name s'' holder) f.name) es) F) m r := by
  have hmethod : readHeap (·.method (.plain (.object id)) f.name s') m = .ok (.plain (.native f), false) m := by
    refine readHeap_ok ?_
    unfold Heap.method Heap.ownMember?
    simp only [Value.plain, hf]
  refine Settles.succ ((settles_name hk hh).bind (Settles.bind (settles_of_eq fun _ => hmethod) (hargs.bind ?_)))
  exact Settles.succ (settles_of_eq fun n => hcall (ofLevel n))

/-! ## Calls -/

section

variable {c : Closure} {values : List (Text × Value)} {i : Nat}

/-- A call of a function with as many arguments as it has parameters. -/
theorem settles_call (hc : m.heap.closures[i]? = some c) (hd : m.depth < m.settings.callLimit.count)
    (hpure : c.definition.isPure = false) (hb : bindings c.definition args = some (boundTo values none))
    (hchecks : Settles (fun n => (ofLevel n).checkConstraints c m.heap.frames.size span)
      (m.withHeap (m.heap.adding [c.callFrame values])) (.ok () m'))
    (hbody : Finishes (fun n => (ofLevel n).exec c.definition.body.statements m.heap.frames.size)
      (m'.withDepth (m.depth + 1)) v m'')
    (hv : ∀ name ∈ c.definition.name, isPredicateName name → v.kind = .boolean) :
    Settles (fun n => (ofLevel n).call (.plain (.function i)) args span) m (.ok v (m''.withDepth m.depth)) := by
  obtain ⟨outcome, ⟨N, hN⟩, hresult⟩ : ∃ outcome,
      Settles (fun n => attempt ((ofLevel n).exec c.definition.body.statements m.heap.frames.size))
        (m'.withDepth (m.depth + 1)) (.ok outcome m'') ∧ bodyResult c span outcome = pure v := by
    cases hbody with
    | value h => exact ⟨_, h.attempt_ok, rfl⟩
    | returned h => exact ⟨_, h.attempt_error, rfl⟩
  obtain ⟨K, hK⟩ := hchecks
  have hpredicate : checkPredicate c v span = pure v := by
    unfold checkPredicate
    split
    · next name hname => exact if_neg fun h => h.2 (hv name hname h.1)
    · rfl
  refine Settles.succ ⟨max N K, fun n hn => ?_⟩
  show (ofLevel (n + 1)).call (.plain (.function i)) args span m = _
  rw [call_function hc, callClosure_ends hd hpure hb (hK n (by omega)) (hN n (by omega)), hresult, pure_bind,
    hpredicate]
  rfl

/-- The predicate of a parameter accepts its argument. -/
theorem settles_checkParameter {P : Parameter} {test : Value} (hP : P.predicate = some e) (hnone : P.predicateArgs = [])
    (he : Settles (fun n => (ofLevel n).eval e F) m (.ok test m)) (hk : m.heap.Knows F known) (hv : known P.name v)
    (hcall : Settles (fun n => (ofLevel n).call test [v] span) m (.ok (.bool true) m')) :
    Settles (fun n => (ofLevel n).checkParameter c F span P) m (.ok () m') := by
  have hargument : Eval.lookup F P.name none m = .ok v m := readHeap_ok (hk _ _ hv _)
  unfold checkParameter
  simp only [hP, hnone]
  exact he.bind (settles_evalList_nil.bind (Settles.bind (settles_of_eq fun _ => hargument)
    (hcall.bind (settles_of_eq fun _ => rfl))))

end

/-! ## Loops -/

theorem settles_progression {start stop : Expr} {x y : Number} {a b : Int} {withStart withStop : Bool}
    {q : Progression} (hstart : Settles (fun n => (ofLevel n).eval start F) m (.ok v m'))
    (hv : v.payload = .number x) (ha : x.whole? = some a)
    (hstop : Settles (fun n => (ofLevel n).eval stop F) m' (.ok w m'')) (hw : w.payload = .number y)
    (hb : y.whole? = some b) (hq : Progression.between a b none withStart withStop = .ok q) :
    Settles (fun n => (ofLevel n).progression ⟨s, start, stop, withStart, withStop, none⟩ none F) m (.ok q m'') := by
  obtain ⟨N, hN⟩ := hstart
  obtain ⟨K, hK⟩ := hstop
  refine ⟨max N K, fun n hn => ?_⟩
  have hbounds : (ofLevel n).GivesBounds ⟨s, start, stop, withStart, withStop, none⟩ F m a b none m'' :=
    ⟨m', m'', ⟨v, x, hN n (by omega), hv, ha⟩, ⟨w, y, hK n (by omega), hw, hb⟩, .default⟩
  have hplaces : Progression.between (placeIn none a) (placeIn none b) none withStart withStop = .ok q := hq
  dsimp only
  rw [progression_eq hbounds, hplaces]

/-- The frame of a round of a loop, with what it binds. -/
def turnFrame (F : Nat) (values : List (Text × Value)) : Frame :=
  Frame.binding { parent := some F, name := "for" } values

section

variable {I : Interp} {b : Block} {index item : Value} {indexName : Option Text} {valueName : Text}

/-- A round binds the index, if it has a name, and the element, and runs the body. -/
theorem forRound_eq : I.forRound indexName valueName b F index item m =
    round (I.exec b.statements m.heap.frames.size) (m.withHeap (m.heap.adding
      [turnFrame F (indexName.toList.map (·, index) ++ [(valueName, item)])])) := by
  rw [forRound, bind_ok (childFrame_adding F "for" false)]
  cases indexName with
  | none => exact bind_ok (define_adding rfl)
  | some i =>
    refine (bind_ok (define_adding rfl)).trans ((bind_ok (define_adding rfl)).trans ?_)
    rfl

/-- A round that the loop goes on after. -/
theorem settles_turn (hbody : Settles (fun n => (ofLevel n).exec b.statements m.heap.frames.size)
      (m.withHeap (m.heap.adding [turnFrame F (indexName.toList.map (·, index) ++ [(valueName, item)])])) (.ok v m')) :
    Settles (fun n => (ofLevel n).forRound indexName valueName b F index item) m (.ok true m') := by
  obtain ⟨N, hN⟩ := hbody
  refine ⟨N, fun n hn => forRound_eq.trans ?_⟩
  rw [round, bind_ok (attempt_ok (hN n hn))]
  rfl

/-- A round that returns a value. -/
theorem settles_turn_returned (hbody : Settles (fun n => (ofLevel n).exec b.statements m.heap.frames.size)
      (m.withHeap (m.heap.adding [turnFrame F (indexName.toList.map (·, index) ++ [(valueName, item)])]))
      (.error (.returned v s) m')) :
    Settles (fun n => (ofLevel n).forRound indexName valueName b F index item) m (.error (.returned v s) m') := by
  obtain ⟨N, hN⟩ := hbody
  refine ⟨N, fun n hn => forRound_eq.trans ?_⟩
  rw [round, bind_ok (attempt_error (hN n hn))]
  rfl

/-- A loop over an array goes over the elements that it has at the start. -/
theorem settles_forIn_array {id : Nat} (hrange : ∀ r : RangeParts, e ≠ r.literal)
    (he : Settles (fun n => (ofLevel n).eval e F) m (.ok v m')) (hid : v.payload = .array id)
    (hloop : Settles (fun n => forEach ((ofLevel n).forRound indexName valueName b F)
      (Heap.enumerated (m'.heap.array id).toList)) m' r) :
    Settles (fun n => (ofLevel n).eval (.forIn s indexName valueName e b) F) m r := by
  obtain ⟨N, hN⟩ := he
  obtain ⟨K, hK⟩ := hloop
  refine Settles.succ ⟨max N K, fun n hn => ?_⟩
  dsimp only
  rw [eval_forIn_array hrange (hN n (by omega)) hid]
  exact hK n (by omega)

end

section

variable {turn : Nat → Value → Value → Eval Bool} {rest : List (Value × Value)}

theorem settles_forEach_nil : Settles (fun n => forEach (turn n) []) m (.ok .null m) := settles_of_eq fun _ => rfl

theorem settles_forEach_cons (hturn : Settles (fun n => turn n v w) m (.ok true m'))
    (hrest : Settles (fun n => forEach (turn n) rest) m' r) :
    Settles (fun n => forEach (turn n) ((v, w) :: rest)) m r :=
  hturn.bind hrest

end

section

variable {turn : Nat → Value → Value → Eval Bool} {p : Progression} {Goal : Nat → Prop} [DecidablePred Goal]
  {leave : Nat → Exit}

/-- A loop whose rounds have no side effects, and which is left at the first place with some property. -/
theorem settles_search (hturn : ∀ (k : Nat) m', m.Unaffected m' → ∃ m'', m'.Unaffected m'' ∧
      Settles (fun n => turn n (.number k) (.number (p.get k))) m'
        (if Goal k then .error (leave k) m'' else .ok true m''))
    (left place : Nat) (hm : m.Unaffected m') :
    ∃ m'', m.Unaffected m'' ∧ Settles (fun n => forNumbers (turn n) p place left) m'
      (match (List.range' place left).find? Goal with
        | some k => .error (leave k) m''
        | none => .ok .null m'') := by
  induction left generalizing place m' with
  | zero => exact ⟨m', hm, settles_forNumbers_zero⟩
  | succ left ih =>
    obtain ⟨m₁, hm₁, hround⟩ := hturn place m' hm
    rw [List.range'_succ, List.find?_cons]
    by_cases hp : Goal place
    · rw [if_pos hp] at hround
      refine ⟨m₁, hm.trans hm₁, ?_⟩
      simp only [hp, decide_true]
      exact hround.bindError
    · rw [if_neg hp] at hround
      obtain ⟨m'', hm'', hrest⟩ := ih (place + 1) (hm.trans hm₁)
      refine ⟨m'', hm'', ?_⟩
      simp only [hp, decide_false]
      exact settles_forNumbers_succ hround hrest

end

end Interp

end ScriptEngine

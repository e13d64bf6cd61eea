import ScriptEngine.Proofs.Native.Calls
import ScriptEngine.Proofs.Number.Arithmetic
import ScriptEngine.Proofs.Session.Started
import ScriptEngine.Proofs.Strings.Library
import ScriptEngine.Proofs.Text.Occurrences

/-!
# Searching

What the functions answer that look for a text in another. `contains?` looks at characters alone; `index_of`,
`starts_with?` and `ends_with?` compare parts with `==`, and a part, which has no tags, is not `==` to a text that
carries a variant.

* `settles_isPart`: the comparison of a part.
* `answers_indexOf`: the loop of `index_of` is left at the first position at which the comparison holds.
* `searches_agree`: all four functions by the positions at which the text occurs.
-/

namespace ScriptEngine

namespace StringLibrary

open Eval Interp
open ArrayLibrary (ref callNative run declare loopOver when)

variable {L : Layout} {m m' m₀ : Machine} {F i j : Nat} {known : Text → Value → Prop} {s w v : Value}
  {t u piece name : Text} {p : Nat → Span} {f : Frame} {span : Option Span} {I : Interp} {es : List Expr}
  {vs : List Value}

/-! ## Parts -/

theorem whole_natCast {f : Native} {position : Nat} :
    f.whole position span (.number (i : Rat)) m = .ok (i : Int) m := by
  have hwhole : (Number.ofRat (i : Rat)).whole? = some (i : Int) := Number.whole?_ofRat i
  have hnumber : f.number position span (.number (i : Rat)) m = .ok (.ofRat (i : Rat)) m := rfl
  rw [Native.whole, bind_ok hnumber, hwhole]
  rfl

/-- The characters from one position up to another. -/
theorem sliced_between : Native.sliced t (i : Int) (some (j : Int)) = (t.drop i).take (j - i) := by
  simp only [Native.sliced, Native.sliceBound, Option.map_some, Option.getD_some, Int.toNat_natCast,
    if_neg (show ¬ (i : Int) < 0 by omega), if_neg (show ¬ (j : Int) < 0 by omega)]
  rw [List.drop_take]
  by_cases hi : i ≤ t.length
  · rw [Nat.min_eq_right hi, List.take_eq_take_iff, List.length_drop]
    omega
  · have hle : t.length ≤ i := by omega
    rw [Nat.min_eq_left hle, List.drop_length, List.drop_eq_nil_of_le hle, List.take_nil, List.take_nil]

/-- The characters from one position on. -/
theorem sliced_from : Native.sliced t (i : Int) none = t.drop i := by
  simp only [Native.sliced, Native.sliceBound, Option.map_none, Option.getD_none, Int.toNat_natCast,
    if_neg (show ¬ (i : Int) < 0 by omega), List.take_length]
  by_cases hi : i ≤ t.length
  · rw [Nat.min_eq_right hi]
  · have hle : t.length ≤ i := by omega
    rw [Nat.min_eq_left hle, List.drop_length, List.drop_eq_nil_of_le hle]

theorem call_slice_between (ht : s.payload = .string t) :
    Native.slice.call I [s, .number (i : Rat), .number (j : Rat)] span m =
      .ok (.string ((t.drop i).take (j - i))) m := by
  refine call_of_run rfl ?_
  have hstop : (some (Value.number (j : Rat))).filter (fun v => !v.isNull) = some (.number (j : Rat)) := rfl
  show Native.sliceOf span s (.number (i : Rat)) (some (.number (j : Rat))) m = _
  rw [Native.sliceOf, bind_ok whole_natCast, hstop]
  dsimp only
  rw [bind_ok whole_natCast, ht, ← sliced_between]
  rfl

theorem call_slice_from (ht : s.payload = .string t) :
    Native.slice.call I [s, .number (i : Rat)] span m = .ok (.string (t.drop i)) m := by
  refine call_of_run rfl ?_
  show Native.sliceOf span s (.number (i : Rat)) none m = _
  rw [Native.sliceOf, bind_ok whole_natCast, ht, ← sliced_from]
  rfl

/-! ## Positions -/

/-- The first position at which a text is found by the comparison of parts. -/
def position? (w : Value) (u t : Text) : Option Nat :=
  (List.range' 0 (t.length + 1 - u.length)).find? fun i => w.variant? = none ∧ (t.drop i).take u.length = u

theorem position?_eq_some_iff :
    position? w u t = some i ↔ w.variant? = none ∧ IsLeast {i | Text.OccursAt u t i} i := by
  have hin {j : Nat} : j < t.length + 1 - u.length ↔ j + u.length ≤ t.length := by omega
  rw [position?, List.find?_range'_eq_some]
  simp only [decide_eq_true_eq, Bool.not_eq_true', decide_eq_false_iff_not, List.mem_range'_1, Nat.zero_le, true_and,
    true_imp_iff, Nat.zero_add, hin]
  constructor
  · rintro ⟨⟨hv, hpart⟩, hfits, hbefore⟩
    refine ⟨hv, ⟨hfits, hpart⟩, fun j hj => ?_⟩
    by_contra hlt
    exact hbefore j (by omega) ⟨hv, hj.2⟩
  · rintro ⟨hv, ⟨hfits, hpart⟩, hleast⟩
    refine ⟨⟨hv, hpart⟩, hfits, fun j hj ⟨_, hother⟩ => ?_⟩
    have := hleast (a := j) ⟨by omega, hother⟩
    omega

theorem position?_eq_none_iff :
    position? w u t = none ↔ (w.variant? = none → ∀ i, ¬ Text.OccursAt u t i) := by
  rw [position?, List.find?_eq_none]
  constructor
  · intro h hv i hi
    have hmem : i ∈ List.range' 0 (t.length + 1 - u.length) := by
      have := hi.1
      rw [List.mem_range'_1]
      omega
    exact h i hmem (decide_eq_true ⟨hv, hi.2⟩)
  · intro h i hmem hi
    rw [List.mem_range'_1] at hmem
    obtain ⟨hv, hpart⟩ := of_decide_eq_true hi
    exact h hv i ⟨by omega, hpart⟩

/-! ## Bodies -/

/-- A place in the body of a function that looks for the text `w`, which has a name, in the text `s`. -/
structure Looking (L : Layout) (m₀ : Machine) (F : Nat) (known : Text → Value → Prop) (name : Text) (s w : Value)
    (m : Machine) : Prop extends Machine.Within m₀ F known m where
  start : L.LoadedIn m₀.heap
  native : known "native" L.nativesValue
  whole : known "s" s
  part : known name w

namespace Looking

section

variable (hl : Looking L m₀ F known name s w m)

include hl

theorem loaded : L.LoadedIn m.heap := hl.start.later hl.unaffected

theorem later (hm : m.Unaffected m') : Looking L m₀ F known name s w m' :=
  ⟨hl.toWithin.later hm, hl.start, hl.native, hl.whole, hl.part⟩

/-- A further name is bound in the frame of the place. -/
theorem bind {other : Text} (hother : other ∉ (["native", "s", name] : List Text)) :
    Looking L m₀ F (Binding other v known) name s w (m.withHeap (m.heap.bind F (some other) v false)) := by
  simp only [List.mem_cons, List.not_mem_nil, or_false, not_or, ne_comm (a := other)] at hother
  obtain ⟨hnative, hwhole, hpart⟩ := hother
  exact ⟨hl.toWithin.bind, hl.start, .inr ⟨hnative, hl.native⟩, .inr ⟨hwhole, hl.whole⟩, .inr ⟨hpart, hl.part⟩⟩

/-- A frame inside that of the place. -/
theorem child (hp : f.parent = some F) (hpure : f.isPure = false) (hc : f.constants = [])
    (hnative : f.bindings.get? (some "native") = none) (hwhole : f.bindings.get? (some "s") = none)
    (hpart : f.bindings.get? (some name) = none) :
    Looking L m₀ m.heap.frames.size (f.Knowing known) name s w (m.withHeap (m.heap.adding [f])) where
  toWithin := hl.toWithin.child hp hpure hc
  start := hl.start
  native := .inr ⟨hnative, hl.native⟩
  whole := .inr ⟨hwhole, hl.whole⟩
  part := .inr ⟨hpart, hl.part⟩

theorem settles_isPart (hw : w.payload = .string u)
    (hbounds : Settles (fun n => (ofLevel n).evalList F es) m (.ok vs m))
    (hslice : ∀ I, Native.slice.call I (s :: vs) (some (p (i + 1))) m = .ok (.string piece) m) :
    Settles (fun n => (ofLevel n).eval (isPart p i name es) F) m
      (.ok (.bool (decide (w.variant? = none ∧ piece = u))) m) := by
  refine settles_binary (settles_callMember hl.knows hl.native (hl.loaded.natives _ (by decide))
    (settles_evalList_cons (settles_name hl.knows hl.whole) hbounds) hslice) (settles_name hl.knows hl.part) fun n => ?_
  rw [← Heap.equal_text (h := m.heap) hw]
  rfl

theorem settles_lengthOf {other : Text} (hv : known other v) (ht : v.payload = .string t) :
    Settles (fun n => (ofLevel n).eval (lengthOf p i other) F) m (.ok (.number (t.length : Rat)) m) :=
  settles_length (settles_name hl.knows hv) (by rw [Heap.length?, ht])

/-- How much longer the text is than another length. -/
theorem settles_excess {e : Expr} {s' : Span} (ht : s.payload = .string t)
    (he : Settles (fun n => (ofLevel n).eval e F) m (.ok (.number (i : Rat)) m)) (hle : i ≤ t.length) :
    Settles (fun n => (ofLevel n).eval (.binary s' (lengthOf p j "s") (.arith .sub) e) F) m
      (.ok (.number ((t.length - i : Nat) : Rat)) m) := by
  refine settles_binary (hl.settles_lengthOf hl.whole ht) he fun n => ?_
  rw [binary_sub (Value.standsFor_number _) (Value.standsFor_number _), Nat.cast_sub hle]
  rfl

/-- A test after the one whether the text is not longer than the other. -/
theorem settles_fitsAnd {e : Expr} {test : Bool} (ht : s.payload = .string t) (hw : w.payload = .string u)
    (he : u.length ≤ t.length → Settles (fun n => (ofLevel n).eval e F) m (.ok (.bool test) m)) :
    Settles (fun n => (ofLevel n).exec [fitsAnd p i name e] F) m
      (.ok (.bool (decide (u.length ≤ t.length ∧ test = true))) m) := by
  have hfits : Settles (fun n => (ofLevel n).eval (.binary (p (i + 2)) (lengthOf p (i + 3) name) (.compare .le)
      (lengthOf p (i + 5) "s")) F) m (.ok (.bool (decide (u.length ≤ t.length))) m) := by
    refine settles_binary (hl.settles_lengthOf hl.part hw) (hl.settles_lengthOf hl.whole ht) fun n => ?_
    rw [binary_ordered (Value.standsFor_number _) (Value.standsFor_number _) (by decide) (by decide)]
    simp only [Heap.ordered, Nat.cast_lt, ← decide_not, not_lt]
    rfl
  refine settles_exec_single ?_
  by_cases hle : u.length ≤ t.length
  · have hboth : decide (u.length ≤ t.length ∧ test = true) = test := by simp [hle]
    rw [hboth]
    exact settles_and_true hfits (by rw [decide_eq_true hle]; rfl) (he hle) rfl
  · have hneither : decide (u.length ≤ t.length ∧ test = true) = false := by simp [hle]
    rw [decide_eq_false hle] at hfits
    rw [hneither]
    exact settles_and_false hfits rfl

/-- The test whether the text that is looked for is the longer one. -/
theorem settles_isLonger (ht : s.payload = .string t) (hn : known "n" (.number (i : Rat))) :
    Settles (fun n => (ofLevel n).eval (.binary (p 33) (ref p 34 "n") (.compare .gt) (lengthOf p 35 "s")) F) m
      (.ok (.bool (decide (t.length < i))) m) := by
  refine settles_binary (settles_name hl.knows hn) (hl.settles_lengthOf hl.whole ht) fun n => ?_
  rw [binary_ordered (Value.standsFor_number _) (Value.standsFor_number _) (by decide) (by decide)]
  simp only [Heap.ordered, Nat.cast_lt]
  rfl

end

/-! ### The loop of `index_of` -/

/-- The test of the loop. -/
abbrev turnTest (p : Nat → Span) : Expr :=
  isPart p 53 "sub" [ref p 60 "i", .binary (p 61) (ref p 62 "i") (.arith .add) (ref p 63 "n")]

/-- The body of the loop. -/
abbrev turnBody (p : Nat → Span) : Block :=
  ⟨p 42, [when p 50 (turnTest p) [.returnValue (p 64) (some (ref p 65 "i"))]]⟩

/-- The statement of the loop. -/
abbrev search (p : Nat → Span) : Stmt :=
  loopOver p 40 "i"
    (.range (p 43) (.literal (p 44) (.number 0)) (.binary (p 45) (lengthOf p 46 "s") (.arith .sub) (ref p 48 "n"))
      true true none)
    (turnBody p).statements

/-- The numbers from zero to a stop that is not below it. -/
theorem between_zero {n : Nat} : Progression.between 0 (n : Int) none true true = .ok ⟨0, 1, n + 1⟩ := by
  have hdirection : Progression.direction 0 (n : Int) = 1 := if_pos (by omega)
  have hcount : ((n : Int) + 1).toNat = n + 1 := by omega
  simp [Progression.between, hdirection, Progression.countBefore, hcount]

theorem get_between_zero {n k : Nat} : (((⟨0, 1, n⟩ : Progression).get k : Int) : Rat) = k := by
  simp [Progression.get]

section

variable (hl : Looking L m₀ F known "sub" s w m) (ht : s.payload = .string t) (hw : w.payload = .string u)

include hl ht hw

/-- The test compares the characters from a position on, as many as there are in the text that is looked for. -/
theorem settles_turnTest (hi : known "i" (.number (i : Rat))) (hn : known "n" (.number (u.length : Rat))) :
    Settles (fun n => (ofLevel n).eval (turnTest p) F) m
      (.ok (.bool (decide (w.variant? = none ∧ (t.drop i).take u.length = u))) m) := by
  have hstop : Settles (fun n => (ofLevel n).eval (.binary (p 61) (ref p 62 "i") (.arith .add) (ref p 63 "n")) F) m
      (.ok (.number ((i + u.length : Nat) : Rat)) m) := by
    refine settles_binary (settles_name hl.knows hi) (settles_name hl.knows hn) fun n => ?_
    rw [binary_add (Value.standsFor_number _) (Value.standsFor_number _), Nat.cast_add]
    rfl
  have hbounds := settles_evalList_cons (settles_name (s := p 60) hl.knows hi)
    (settles_evalList_cons hstop settles_evalList_nil)
  rw [← Nat.add_sub_cancel_left (n := i) (m := u.length)]
  exact hl.settles_isPart hw hbounds fun I => call_slice_between ht

/-- A round of the loop returns its position if the text that is looked for stands there. -/
theorem settles_searchTurn (hn : known "n" (.number (u.length : Rat))) (k : Nat) (q : Value) :
    ∃ m', m.Unaffected m' ∧ Settles (fun n => (ofLevel n).forRound none "i" (turnBody p) F q (.number (k : Rat))) m
      (if w.variant? = none ∧ (t.drop k).take u.length = u then .error (.returned (.number (k : Rat)) (p 64)) m'
        else .ok true m') := by
  have hplace := hl.child (f := turnFrame F [("i", .number (k : Rat))]) rfl rfl rfl rfl rfl rfl
  have htest := hplace.settles_turnTest (p := p) ht hw (.inl rfl) (.inr ⟨rfl, hn⟩)
  by_cases hhit : w.variant? = none ∧ (t.drop k).take u.length = u
  · rw [decide_eq_true hhit] at htest
    have hblock := hplace.child (f := { parent := some m.heap.frames.size, name := "block" }) rfl rfl rfl
      rfl rfl rfl
    have hvalue : Settles (fun n => (ofLevel n).eval (ref p 65 "i") _) _ (.ok (.number (k : Rat)) _) :=
      settles_name hblock.knows (.inr ⟨rfl, .inl rfl⟩)
    have hreturn := settles_block (b := ⟨p 52, [_]⟩) (settles_exec_single (settles_return (s := p 64) hvalue))
    simp only [if_pos hhit]
    exact ⟨_, (m.unaffected_adding _).trans (Machine.unaffected_adding _ _),
      settles_turn_returned (settles_exec_single (settles_then htest rfl hreturn))⟩
  · rw [decide_eq_false hhit] at htest
    simp only [if_neg hhit]
    exact ⟨_, m.unaffected_adding _, settles_turn (settles_exec_single (settles_noElse htest rfl))⟩

/-- The loop returns the first position at which the text is found, and comes to its end if there is none. -/
theorem settles_search (hn : known "n" (.number (u.length : Rat))) (hle : u.length ≤ t.length) :
    ∃ m', m.Unaffected m' ∧ Settles (fun n => (ofLevel n).stmt (search p) F) m
      (match position? w u t with
        | some k => .error (.returned (.number (k : Rat)) (p 64)) m'
        | none => .ok .null m') := by
  have hcount : t.length - u.length + 1 = t.length + 1 - u.length := by omega
  have hstop : Settles (fun n => (ofLevel n).eval (.binary (p 45) (lengthOf p 46 "s") (.arith .sub) (ref p 48 "n")) F) m
      (.ok (.number ((t.length - u.length : Nat) : Rat)) m) :=
    hl.settles_excess ht (settles_name hl.knows hn) hle
  have hrange := settles_progression (s := p 43) (settles_literal (s := p 44) (l := .number 0)) rfl rfl hstop rfl
    (Number.whole?_ofRat _) between_zero
  rw [hcount] at hrange
  have hturn (k : Nat) (m' : Machine) (hm : m.Unaffected m') : ∃ m'', m'.Unaffected m'' ∧
      Settles (fun n => (ofLevel n).forRound none "i" (turnBody p) F (.number k)
          (.number ((⟨0, 1, t.length + 1 - u.length⟩ : Progression).get k))) m'
        (if w.variant? = none ∧ (t.drop k).take u.length = u then .error (.returned (.number (k : Rat)) (p 64)) m''
          else .ok true m'') := by
    rw [get_between_zero]
    exact (hl.later hm).settles_searchTurn ht hw hn k _
  obtain ⟨m', hm', hloop⟩ := Interp.settles_search hturn (t.length + 1 - u.length) 0 (.refl m)
  exact ⟨m', hm', Settles.succ (hrange.bind hloop)⟩

/-- The body of `index_of` finishes with the first position, if there is one. -/
theorem finishes_indexOf :
    ∃ m', Finishes (fun n => (ofLevel n).exec (Function.indexOf.body p) F) m
      ((position? w u t).elim .null fun i => .number (i : Rat)) m' ∧ m₀.Unaffected m' := by
  have hdeclare : Settles (fun n => (ofLevel n).stmt (declare p 20 "n" (lengthOf p 21 "sub")) F) m (.ok _ _) :=
    ArrayLibrary.settles_declare (hl.settles_lengthOf hl.part hw) hl.site
  have h₁ : Looking L m₀ F (Binding "n" (.number (u.length : Rat)) known) "sub" s w _ := hl.bind (by decide)
  have hn : Binding "n" (.number (u.length : Rat)) known "n" (.number (u.length : Rat)) := .inl ⟨rfl, rfl⟩
  have hlonger := h₁.settles_isLonger (p := p) ht hn
  by_cases hle : u.length ≤ t.length
  · rw [decide_eq_false (by omega)] at hlonger
    obtain ⟨m', hm', hsearch⟩ := h₁.settles_search (p := p) ht hw hn hle
    refine ⟨m', ?_, h₁.unaffected.trans hm'⟩
    cases hposition : position? w u t with
    | some k =>
      rw [hposition] at hsearch
      exact .returned (settles_exec_cons hdeclare (settles_exec_cons (settles_noElse hlonger rfl)
        (settles_exec_exit hsearch)))
    | none =>
      rw [hposition] at hsearch
      exact .value (settles_exec_cons hdeclare (settles_exec_cons (settles_noElse hlonger rfl)
        (settles_exec_cons hsearch (settles_exec_single settles_literal))))
  · rw [decide_eq_true (by omega)] at hlonger
    have hposition : position? w u t = none := position?_eq_none_iff.2 fun _ i hi => hle (by have := hi.1; omega)
    rw [hposition]
    exact ⟨_, .returned (settles_exec_cons hdeclare (settles_exec_exit (settles_then hlonger rfl
      (settles_block (settles_exec_single (settles_return settles_literal)))))),
      h₁.unaffected.trans (Machine.unaffected_adding _ _)⟩

end

end Looking

/-! ## Answers -/

/-- Scripts find a function as a member of a library, and a call of it with two arguments comes to its end and gives a
value. It has no side effects. -/
def Answers (m : Machine) (library name : Text) (a b v : Value) : Prop :=
  ∃ f m', m.heap.globalMember library name = .ok f ∧
    (∀ span, Settles (fun n => (ofLevel n).call f [a, b] span) m (.ok v m')) ∧ m.Unaffected m'

section

variable (hm : m.HasPrelude) (hd : m.depth < m.settings.callLimit.count) (hs : s.payload = .string t)
  (hw : w.payload = .string u)

include hm hd hs hw

/-- A function that looks for a text answers what its body finishes with, wherever that runs. -/
theorem answers_of_body (fn : Function) (hfirst : fn.first = "s")
    (hv : isPredicateName fn.name → v.kind = .boolean)
    (hbody : ∀ L p F known m₀ m₁, Looking L m₀ F known fn.second s w m₁ →
      ∃ m₂, Finishes (fun n => (ofLevel n).exec (fn.body p) F) m₁ v m₂ ∧ m₀.Unaffected m₂) :
    Answers m (libraryName fn.receiver) fn.name s w v := by
  obtain ⟨L, hl, hnames⟩ := hm.stringLibrary
  have hreceiver : s.kind = fn.receiver := by
    rw [kind_of_string hs]
    cases fn <;> first | rfl | exact absurd hfirst (by decide)
  have hasked : ∀ k ∈ fn.asked?, w.kind = k := by
    intro k hk
    cases fn <;> cases hk <;> exact kind_of_string hw
  obtain ⟨p, m₁, hplace, hcall⟩ := settles_function fn hl hd hreceiver hasked
  have hlooking : Looking L (m.withDepth (m.depth + 1)) m.heap.frames.size (callKnown L fn p s w) fn.second s w m₁ :=
    { toWithin := hplace
      start := hl
      native := callKnown_native
      whole := hfirst ▸ callKnown_first
      part := callKnown_second }
  obtain ⟨m₂, hfinishes, hm₂⟩ := hbody L p _ _ _ _ hlooking
  exact ⟨_, _, hnames fn, hcall v m₂ hfinishes hv, hm₂.withDepth m.depth⟩

theorem answers_contains : Answers m "String" "contains?" s w (.bool (Text.occursIn u t)) := by
  refine answers_of_body hm hd hs hw .contains rfl (fun _ => rfl) fun _ p F known m₀ m₁ h =>
    ⟨m₁, .value ?_, h.unaffected⟩
  refine settles_exec_single (settles_binary (settles_name h.knows h.part) (settles_name h.knows h.whole) fun n => ?_)
  have hmember : readHeap (·.membership w s (p 21)) m₁ = .ok (Text.occursIn u t) m₁ :=
    readHeap_ok (by rw [Heap.membership, hs, hw])
  exact (bind_ok hmember).trans rfl

theorem answers_indexOf :
    Answers m "String" "index_of" s w ((position? w u t).elim .null fun i => .number (i : Rat)) :=
  answers_of_body hm hd hs hw .indexOf rfl (fun h => absurd h (by decide)) fun _ _ _ _ _ _ h => h.finishes_indexOf hs hw

theorem answers_startsWith :
    Answers m "String" "starts_with?" s w (.bool (decide (w.variant? = none ∧ Text.OccursAt u t 0))) := by
  refine answers_of_body hm hd hs hw .startsWith rfl (fun _ => rfl) fun _ p F known m₀ m₁ h =>
    ⟨m₁, .value ?_, h.unaffected⟩
  have hpart : Settles (fun n => (ofLevel n).eval (isPart p 30 "prefix"
      [.literal (p 36) (.number 0), lengthOf p 37 "prefix"]) F) m₁ (.ok (.bool (decide (w.variant? = none ∧
      (t.drop 0).take (u.length - 0) = u))) m₁) :=
    h.settles_isPart hw (settles_evalList_cons settles_literal (settles_evalList_cons (h.settles_lengthOf h.part hw)
      settles_evalList_nil)) fun I => call_slice_between hs
  have hsame : decide (u.length ≤ t.length ∧ decide (w.variant? = none ∧ (t.drop 0).take (u.length - 0) = u) = true) =
      decide (w.variant? = none ∧ Text.OccursAt u t 0) := by
    simp [Text.OccursAt, and_left_comm]
  rw [← hsame]
  exact h.settles_fitsAnd hs hw fun _ => hpart

theorem answers_endsWith :
    Answers m "String" "ends_with?" s w
      (.bool (decide (w.variant? = none ∧ Text.OccursAt u t (t.length - u.length)))) := by
  refine answers_of_body hm hd hs hw .endsWith rfl (fun _ => rfl) fun _ p F known m₀ m₁ h =>
    ⟨m₁, .value ?_, h.unaffected⟩
  have hpart (hle : u.length ≤ t.length) : Settles (fun n => (ofLevel n).eval (isPart p 30 "suffix"
      [.binary (p 36) (lengthOf p 37 "s") (.arith .sub) (lengthOf p 39 "suffix")]) F) m₁
      (.ok (.bool (decide (w.variant? = none ∧ t.drop (t.length - u.length) = u))) m₁) :=
    h.settles_isPart hw (settles_evalList_cons (h.settles_excess hs (h.settles_lengthOf h.part hw) hle)
      settles_evalList_nil) fun I => call_slice_from hs
  have hsame : decide (u.length ≤ t.length ∧
        decide (w.variant? = none ∧ t.drop (t.length - u.length) = u) = true) =
      decide (w.variant? = none ∧ Text.OccursAt u t (t.length - u.length)) := by
    have hlength (hle : u.length ≤ t.length) : (t.drop (t.length - u.length)).take u.length =
        t.drop (t.length - u.length) := List.take_of_length_le (by rw [List.length_drop]; omega)
    have hfits : t.length - u.length + u.length ≤ t.length ↔ u.length ≤ t.length := by omega
    rw [decide_eq_decide, decide_eq_true_iff, Text.OccursAt, hfits, and_left_comm]
    exact and_congr_right fun _ => and_congr_right fun hle => by rw [hlength hle]
  rw [← hsame]
  exact h.settles_fitsAnd hs hw hpart

end

/-! ## Agreement -/

/-- The answers of `contains?`, `index_of`, `starts_with?` and `ends_with?` fit together. -/
structure Agree (t u : Text) (found : Bool) (place : Value) (begins ends : Bool) : Prop where
  null : place = .null ↔ found = false
  least : place ≠ .null → ∃ i : Nat, IsLeast {i | Text.OccursAt u t i} i ∧ place = .number (i : Rat)
  starts : begins = true ↔ place = .number 0
  ends : ends = true ↔ ∃ i, i + u.length = t.length ∧ Text.OccursAt u t i

theorem number_ne_null {q : Rat} : Value.number q ≠ .null := nofun

theorem number_eq_zero_iff : Value.number (i : Rat) = .number 0 ↔ i = 0 := by
  have hwhole (j : Nat) : (Number.ofRat (j : Rat)).whole? = some (j : Int) := Number.whole?_ofRat j
  constructor
  · intro h
    have hnumber : Number.ofRat (i : Rat) = .ofRat ((0 : Nat) : Rat) := Payload.number.inj (congrArg Value.payload h)
    exact Int.ofNat.inj (Option.some.inj ((hwhole i).symm.trans (hnumber ▸ hwhole 0)))
  · rintro rfl
    rfl

/-- A text occurs at the end of another exactly if that end is the place. -/
theorem occursAt_end_iff :
    (∃ i, i + u.length = t.length ∧ Text.OccursAt u t i) ↔ Text.OccursAt u t (t.length - u.length) := by
  constructor
  · rintro ⟨i, hi, h⟩
    rwa [show t.length - u.length = i by omega]
  · intro h
    exact ⟨_, by have := h.1; omega, h⟩

theorem agree_of_absent (h : ∀ i, ¬ Text.OccursAt u t i) : Agree t u false .null false false where
  null := by simp
  least h := absurd rfl h
  starts := by simp [number_ne_null.symm]
  ends := by simp [h]

theorem agree_of_least (h : IsLeast {i | Text.OccursAt u t i} i) :
    Agree t u true (.number (i : Rat)) (decide (Text.OccursAt u t 0))
      (decide (Text.OccursAt u t (t.length - u.length))) where
  null := by simp [number_ne_null]
  least _ := ⟨i, h, rfl⟩
  starts := by
    rw [decide_eq_true_iff, number_eq_zero_iff]
    constructor
    · intro hzero
      exact Nat.le_zero.1 (h.2 hzero)
    · rintro rfl
      exact h.1
  ends := by rw [decide_eq_true_iff, occursAt_end_iff]

section

variable (hm : m.HasPrelude) (hd : m.depth < m.settings.callLimit.count) (hs : s.payload = .string t)
  (hw : w.payload = .string u)

include hm hd hs hw

/-- The functions that look for a text agree on it if it carries no variant, and if it does not occur at all. A text
with a variant is found by `contains?` alone. -/
theorem searches_agree :
    ∃ found place begins ends,
      Answers m "String" "contains?" s w (.bool found) ∧ Answers m "String" "index_of" s w place ∧
      Answers m "String" "starts_with?" s w (.bool begins) ∧ Answers m "String" "ends_with?" s w (.bool ends) ∧
      (found = true ↔ ∃ i, Text.OccursAt u t i) ∧
      (Agree t u found place begins ends ↔ (w.variant? = none ∨ found = false)) ∧
      (w.variant? ≠ none → place = .null ∧ begins = false ∧ ends = false) := by
  refine ⟨_, _, _, _, answers_contains hm hd hs hw, answers_indexOf hm hd hs hw, answers_startsWith hm hd hs hw,
    answers_endsWith hm hd hs hw, Text.occursIn_iff, ?_, ?_⟩
  · by_cases hany : ∃ i, Text.OccursAt u t i
    · have hfound : Text.occursIn u t = true := Text.occursIn_iff.2 hany
      by_cases hv : w.variant? = none
      · have hleast : IsLeast {i | Text.OccursAt u t i} (Nat.find hany) :=
          ⟨Nat.find_spec hany, fun j hj => Nat.find_min' hany hj⟩
        simpa [hfound, position?_eq_some_iff.2 ⟨hv, hleast⟩, hv] using agree_of_least hleast
      · -- `index_of` gives null for what `contains?` finds
        have hposition : position? w u t = none := position?_eq_none_iff.2 fun h => absurd h hv
        simp only [hposition, hfound, hv, Option.elim_none, Bool.true_eq_false, or_self, iff_false]
        intro hagree
        cases hagree.null.1 rfl
    · have hnone := not_exists.1 hany
      have hfound : Text.occursIn u t = false := Bool.eq_false_iff.2 (mt Text.occursIn_iff.1 hany)
      simpa [hfound, position?_eq_none_iff.2 fun _ => hnone, hnone] using agree_of_absent hnone
  · intro hv
    have hposition : position? w u t = none := position?_eq_none_iff.2 fun h => absurd h hv
    simp [hposition, hv]

end

/-- `"b"` in `"abab"` -/
theorem searches_agree_letters :
    ∃ m : Machine, m.HasPrelude ∧
      Answers m "String" "contains?" (.string "abab") (.string "b") (.bool true) ∧
      Answers m "String" "index_of" (.string "abab") (.string "b") (.number (1 : Nat)) ∧
      Answers m "String" "starts_with?" (.string "abab") (.string "b") (.bool false) ∧
      Answers m "String" "ends_with?" (.string "abab") (.string "b") (.bool true) := by
  obtain ⟨m, hm⟩ := Session.exists_ready
  obtain ⟨found, place, begins, ends, hcontains, hindexOf, hstartsWith, hendsWith, hfound, hagree, -⟩ :=
    searches_agree (s := .string "abab") (w := .string "b") hm.prelude (hm.lt_limit (by decide : 0 < 400)) rfl rfl
  have hagree := hagree.2 (.inl rfl)
  obtain rfl : found = true := hfound.2 ⟨1, by decide⟩
  have hleast : IsLeast {i | Text.OccursAt "b" "abab" i} 1 := by
    refine ⟨by decide, fun j hj => ?_⟩
    by_contra hlt
    obtain rfl : j = 0 := by omega
    exact absurd hj (by decide)
  obtain ⟨i, hi, rfl⟩ := hagree.least fun h => nomatch hagree.null.1 h
  obtain rfl := hi.unique hleast
  obtain rfl : begins = false := Bool.eq_false_iff.2 fun h => Nat.one_ne_zero (number_eq_zero_iff.1 (hagree.starts.1 h))
  obtain rfl : ends = true := hagree.ends.2 ⟨3, by decide⟩
  exact ⟨m, hm.prelude, hcontains, hindexOf, hstartsWith, hendsWith⟩

/-- `"b"` with a variant is found in `"abc"`, but not at any position. -/
theorem tagged_text_has_no_position :
    let tagged := (Value.string "b").stamped ⟨⟨"E", 1⟩, "A", 2⟩
    ∃ m : Machine, m.HasPrelude ∧ Answers m "String" "contains?" (.string "abc") tagged (.bool true) ∧
      Answers m "String" "index_of" (.string "abc") tagged .null := by
  intro tagged
  obtain ⟨m, hm⟩ := Session.exists_ready
  have hposition : position? tagged "b" "abc" = none := position?_eq_none_iff.2 nofun
  have hfound : Text.occursIn "b" "abc" = true := by decide
  have hdepth : m.depth < m.settings.callLimit.count := hm.lt_limit (by decide : 0 < 400)
  have hcontains := answers_contains (s := .string "abc") (w := tagged) hm.prelude hdepth rfl rfl
  have hindexOf := answers_indexOf (s := .string "abc") (w := tagged) hm.prelude hdepth rfl rfl
  rw [hfound] at hcontains
  rw [hposition] at hindexOf
  exact ⟨m, hm.prelude, hcontains, hindexOf⟩

end StringLibrary

end ScriptEngine

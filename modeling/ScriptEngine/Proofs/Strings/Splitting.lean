import ScriptEngine.Proofs.Native.Calls
import ScriptEngine.Proofs.Session.Started
import ScriptEngine.Proofs.Strings.Library
import ScriptEngine.Proofs.Text.Occurrences

/-!
# Splitting and joining

`split` cuts a text to its pieces, and `join` puts pieces together with a separator between them.

* `Joining`: a place in the body of `join`, with what has been put together so far.
* `settles_rounds`: the rounds of the loop of `join` join the texts of an array.
* `split_then_join`: joining the pieces of a text gives the characters of the text.
-/

namespace ScriptEngine

namespace StringLibrary

open Eval Interp
open ArrayLibrary (ref callNative run declare when)

variable {L : Layout} {m m' m₀ : Machine} {F G i k id : Nat} {known : Text → Value → Prop} {s w v a glue : Value}
  {t u out out' name : Text} {p : Nat → Span} {f : Frame} {span : Option Span} {I : Interp} {e : Expr}

/-! ## Splitting -/

theorem call_strSplit (hs : s.payload = .string t) (hw : w.payload = .string u) :
    Native.strSplit.call I [s, w] span m = .ok (.plain (.array m.heap.arrays.size))
      (m.withHeap (m.heap.newArray ((Text.piecesAt u t).map Value.string).toArray).2) := by
  refine call_of_run rfl ?_
  show Native.splitString span s w m = _
  rw [Native.splitString, bind_ok (text_run hs), bind_ok (text_run hw)]
  rfl

/-- A value is an array of texts in a cell that is new. -/
structure NewTexts (m m' : Machine) (v : Value) (id : Nat) (ts : List Text) : Prop where
  array : v.payload = .array id
  new : m.heap.arrays.size ≤ id
  lt : id < m'.heap.arrays.size
  elements : (m'.heap.array id).toList = ts.map Value.string

/-- A call of `split` gives a new array of the pieces, and has no side effects. -/
theorem settles_split (hl : L.LoadedIn m.heap) (hd : m.depth < m.settings.callLimit.count)
    (hs : s.payload = .string t) (hw : w.payload = .string u) :
    ∃ v id m', (∀ span, Settles (fun n => (ofLevel n).call (L.value .split) [s, w] span) m (.ok v m')) ∧
      m.Unaffected m' ∧ NewTexts m m' v id (Text.piecesAt u t) := by
  obtain ⟨p, m₁, hplace, hcall⟩ := settles_function .split hl hd (kind_of_string hs)
    (by rintro _ ⟨⟩; exact kind_of_string hw)
  have hloaded : L.LoadedIn m₁.heap :=
    Layout.LoadedIn.later (m := m.withDepth (m.depth + 1)) hl hplace.unaffected
  have hcut : Settles (fun n => (ofLevel n).exec (Function.split.body p) m.heap.frames.size) m₁ (.ok _ _) :=
    settles_exec_single (settles_callMember hplace.knows callKnown_native (hloaded.natives .strSplit (by decide))
      (settles_evalList_cons (settles_name hplace.knows callKnown_first)
        (settles_evalList_cons (settles_name hplace.knows callKnown_second) settles_evalList_nil))
      fun I => call_strSplit hs hw)
  have hnew : m₁.Unaffected (m₁.withHeap (m₁.heap.newArray ((Text.piecesAt u t).map Value.string).toArray).2) :=
    (m₁.grown_newArray _).unaffected (Heap.extends_newArray _ _)
  refine ⟨_, m₁.heap.arrays.size, _, hcall _ _ (.value hcut) (fun h => absurd h (by decide)),
    (hplace.unaffected.trans hnew).withDepth m.depth, rfl, hplace.unaffected.kept.arrays_le, ?_, ?_⟩
  · simp [Heap.newArray]
  · show ((m₁.heap.newArray _).2.array m₁.heap.arrays.size).toList = _
    rw [Heap.array_newArray, if_pos rfl]

/-! ## Places in the body of `join` -/

/-- A place in the body of `join`, seen from the frame `G`: the variable `out` of the frame `F` holds the text that has
been put together. -/
structure Joining (L : Layout) (m₀ : Machine) (F : Nat) (out : Text) (G : Nat) (known : Text → Value → Prop)
    (m : Machine) : Prop extends Machine.Within m₀ G known m where
  start : L.LoadedIn m₀.heap
  inside : m₀.heap.frames.size ≤ F
  holds : m.heap.Variable G "out" F (.string out)
  other : ∀ v, ¬ known "out" v

/-- The names that the loop of `join` uses besides its variables. -/
inductive JoinNames (L : Layout) (arr glue : Value) : Text → Value → Prop
  | native : JoinNames L arr glue "native" L.nativesValue
  | arr : JoinNames L arr glue "arr" arr
  | glue : JoinNames L arr glue "glue" glue

/-- The separator before an element that is not the first. -/
abbrev separate (p : Nat → Span) : Stmt :=
  when p 50 (.binary (p 53) (ref p 54 "i") (.compare .gt) (.literal (p 55) (.number 0)))
    [extend p 56 "out" (ref p 59 "glue")]

/-- The body of the loop. -/
abbrev joinTurn (p : Nat → Span) : Block :=
  ⟨p 42, [separate p, extend p 60 "out" (callNative p 63 .toText [ref p 66 "v"])]⟩

theorem call_toText_string : Native.toText.call I [.string t] span m = .ok (.string t) m := by
  have hshown : m.heap.display (.string t) = .ok t := by
    rw [Heap.display, Heap.renderDepth, Heap.render]
    rfl
  exact call_toText_of_display hshown

namespace Joining

theorem loaded (hj : Joining L m₀ F out G known m) : L.LoadedIn m.heap := hj.start.later hj.unaffected

theorem later (hj : Joining L m₀ F out G known m) (hm : m.Unaffected m') : Joining L m₀ F out G known m' :=
  ⟨hj.toWithin.later hm, hj.start, hj.inside, hj.holds.adds hm.kept.toAdds, hj.other⟩

/-- A frame inside that of the place. -/
theorem child (hj : Joining L m₀ F out G known m) (hp : f.parent = some G) (hpure : f.isPure = false)
    (hc : f.constants = []) (hn : f.bindings.get? (some "out") = none) :
    Joining L m₀ F out m.heap.frames.size (f.Knowing known) (m.withHeap (m.heap.adding [f])) where
  toWithin := hj.toWithin.child hp hpure hc
  start := hj.start
  inside := hj.inside
  holds := hj.holds.inner hn hp hpure
  other := by
    rintro v (hv | ⟨-, hv⟩)
    · rw [hn] at hv
      cases hv
    · exact hj.other v hv

/-- The variable gets another text. -/
theorem assigned (hj : Joining L m₀ F out G known m) :
    Joining L m₀ F out' G known (m.withHeap (m.heap.bind F (some "out") (.string out') false)) where
  toWithin := ⟨hj.unaffected.bind hj.inside, hj.outer, hj.site.assign hj.other⟩
  start := hj.start
  inside := hj.inside
  holds := hj.holds.assign
  other := hj.other

/-- The variable is extended by a text. -/
theorem settles_extend (hj : Joining L m₀ F out G known m)
    (he : Settles (fun n => (ofLevel n).eval e G) m (.ok v m)) (hv : v.payload = .string t) :
    Settles (fun n => (ofLevel n).stmt (extend p i "out" e) G) m
      (.ok (.string (out ++ t)) (m.withHeap (m.heap.bind F (some "out") (.string (out ++ t)) false))) := by
  have hsum : m.heap.arithmetic .add (.string out) v (p (i + 1)) = .ok (.string (out ++ t)) := by
    simp [Heap.arithmetic, Heap.joinedText?, Value.string, Value.plain, hv]
  exact settles_compound rfl hj.holds he (.refl m) hsum

/-- The separator comes before each element but the first. What is seen from other frames is kept. -/
theorem settles_separate (hj : Joining L m₀ F out G known m) (hi : known "i" (.number (k : Rat)))
    (hg : known "glue" glue) (hglue : glue.payload = .string u) :
    ∃ v m', Settles (fun n => (ofLevel n).stmt (separate p) G) m (.ok v m') ∧
      ∀ {G known}, Joining L m₀ F out G known m →
        Joining L m₀ F (if k = 0 then out else out ++ u) G known m' := by
  have htest : Settles (fun n => (ofLevel n).eval (.binary (p 53) (ref p 54 "i") (.compare .gt)
      (.literal (p 55) (.number 0))) G) m (.ok (.bool (decide (0 < k))) m) :=
    settles_binary (settles_name hj.knows hi) settles_literal fun n => binary_positive
  by_cases hk : k = 0
  · rw [decide_eq_false (by omega)] at htest
    simp only [if_pos hk]
    exact ⟨_, m, settles_noElse htest rfl, id⟩
  · rw [decide_eq_true (by omega)] at htest
    have hblock := hj.child (f := { parent := some G, name := "block" }) rfl rfl rfl rfl
    have hextend := hblock.settles_extend (p := p) (i := 56) (settles_name (s := p 59) hblock.knows (.inr ⟨rfl, hg⟩))
      hglue
    simp only [if_neg hk]
    exact ⟨_, _, settles_then htest rfl (settles_block (settles_exec_single hextend)),
      fun h => (h.later (m.unaffected_adding _)).assigned⟩

/-- A round of the loop puts one more text to what has been put together. -/
theorem settles_joinTurn (hj : Joining L m₀ F out F known m) (hn : known "native" L.nativesValue)
    (hg : known "glue" glue) (hglue : glue.payload = .string u) (k : Nat) (t : Text) :
    ∃ m', Settles (fun n => (ofLevel n).forRound (some "i") "v" (joinTurn p) F (.number (k : Rat)) (.string t)) m
        (.ok true m') ∧
      Joining L m₀ F ((if k = 0 then out else out ++ u) ++ t) F known m' := by
  have hround := hj.child (f := turnFrame F [("i", .number (k : Rat)), ("v", .string t)]) rfl rfl rfl rfl
  obtain ⟨_, m₁, hseparate, hkeep⟩ := hround.settles_separate (p := p) (.inl rfl) (.inr ⟨rfl, hg⟩) hglue
  have h₁ := hkeep hround
  have helement : Settles (fun n => (ofLevel n).eval (ref p 66 "v") _) m₁ (.ok (.string t) m₁) :=
    settles_name h₁.knows (.inl rfl)
  have htext : Settles (fun n => (ofLevel n).eval (callNative p 63 .toText [ref p 66 "v"]) _) m₁ (.ok (.string t) m₁) :=
    settles_callMember h₁.knows (.inr ⟨rfl, hn⟩) (h₁.loaded.natives .toText (by decide))
      (settles_evalList_cons helement settles_evalList_nil) fun I => call_toText_string
  have hpiece := h₁.settles_extend (p := p) (i := 60) htext rfl
  exact ⟨_, settles_turn (settles_exec_cons hseparate (settles_exec_single hpiece)),
    (hkeep (hj.later (m.unaffected_adding _))).assigned⟩

/-- The rounds of the loop put the texts that are left to those that have been put together. -/
theorem settles_rounds {done : List Text} (hj : Joining L m₀ F (Text.joinWith u done) F known m)
    (hn : known "native" L.nativesValue) (hg : known "glue" glue) (hglue : glue.payload = .string u)
    (todo : List Text) :
    ∃ m', Settles (fun n => forEach ((ofLevel n).forRound (some "i") "v" (joinTurn p) F)
        (((todo.map Value.string).zipIdx done.length).map fun (item, i) => (.number i, item))) m (.ok .null m') ∧
      Joining L m₀ F (Text.joinWith u (done ++ todo)) F known m' := by
  induction todo generalizing done m with
  | nil => exact ⟨m, settles_forEach_nil, by simpa using hj⟩
  | cons t todo ih =>
    obtain ⟨m₁, hturn, h₁⟩ := hj.settles_joinTurn (p := p) hn hg hglue done.length t
    have hjoined : (if done.length = 0 then Text.joinWith u done else Text.joinWith u done ++ u) ++ t =
        Text.joinWith u (done ++ [t]) := by
      by_cases hdone : done = []
      · rw [hdone]
        rfl
      · rw [if_neg (by simpa using hdone), Text.joinWith_concat hdone]
    rw [hjoined] at h₁
    obtain ⟨m', hrest, h'⟩ := ih h₁
    rw [List.append_assoc] at h'
    rw [List.length_append] at hrest
    exact ⟨m', settles_forEach_cons hturn hrest, h'⟩

/-- The loop puts the texts of the array together. -/
theorem settles_loop {ts : List Text} (hj : Joining L m₀ F [] F (JoinNames L a glue) m)
    (hglue : glue.payload = .string u) (ha : a.payload = .array id) (hid : id < m₀.heap.arrays.size)
    (hts : (m₀.heap.array id).toList = ts.map Value.string) :
    ∃ m', Settles (fun n => (ofLevel n).stmt (run p 40 (.forIn (p 41) (some "i") "v" (ref p 43 "arr")
        (joinTurn p))) F) m (.ok .null m') ∧
      Joining L m₀ F (Text.joinWith u ts) F (JoinNames L a glue) m' := by
  have hstart : Joining L m₀ F (Text.joinWith u []) F (JoinNames L a glue) m := hj
  obtain ⟨m', hrounds, h'⟩ := hstart.settles_rounds (p := p) .native .glue hglue ts
  refine ⟨m', settles_forIn_array (fun _ => nofun) (settles_name hj.knows .arr) ha ?_, h'⟩
  rw [hj.unaffected.kept.array hid, hts]
  exact hrounds

end Joining

/-! ## Joining -/

theorem equal_null_of_string {h : Heap} (hw : w.payload = .string u) : h.equal w .null = false := by
  refine Heap.equal_of_differ ?_
  have hnull : (Value.null).payload = .null := rfl
  rw [Heap.compare, hw, hnull]
  split <;> rfl

/-- The text between the elements is the separator, unless this is null. -/
theorem settles_glue (hm : m₀.Within F known m) (hsep : known "sep" w) (hw : w.payload = .string u) :
    Settles (fun n => (ofLevel n).eval (.ifElse (p 21)
        (.binary (p 22) (ref p 23 "sep") (.compare .eq) (.literal (p 24) .null))
        ⟨p 25, [run p 26 (.literal (p 27) (.string []))]⟩
        (some (.block ⟨p 28, [run p 29 (ref p 30 "sep")]⟩))) F) m
      (.ok w (m.withHeap (m.heap.adding [{ parent := some F, name := "block" }]))) := by
  have htest : Settles (fun n => (ofLevel n).eval (.binary (p 22) (ref p 23 "sep") (.compare .eq)
      (.literal (p 24) .null)) F) m (.ok (.bool false) m) :=
    settles_binary (settles_name hm.knows hsep) settles_literal fun n =>
      binary_compare (congrArg Except.ok (equal_null_of_string hw))
  have hblock := hm.child (f := { parent := some F, name := "block" }) rfl rfl rfl
  exact settles_else htest rfl (settles_blockExpr (settles_block (settles_exec_single
    (settles_name hblock.knows (.inr ⟨rfl, hsep⟩)))))

/-- The body of `join` finishes with the texts of the array, put together with the separator between them. -/
theorem finishes_join {ts : List Text} (hm : m₀.Within F (callKnown L .join p a w) m) (hl : L.LoadedIn m₀.heap)
    (ha : a.payload = .array id) (hid : id < m₀.heap.arrays.size)
    (hts : (m₀.heap.array id).toList = ts.map Value.string) (hw : w.payload = .string u) :
    ∃ m', Finishes (fun n => (ofLevel n).exec (Function.join.body p) F) m (.string (Text.joinWith u ts)) m' ∧
      m₀.Unaffected m' := by
  have h₁ := hm.later (m.unaffected_adding [{ parent := some F, name := "block" }])
  have hglue : Settles (fun n => (ofLevel n).stmt (declare p 20 "glue" _) F) m (.ok w _) :=
    ArrayLibrary.settles_declare (settles_glue (p := p) hm callKnown_second hw) h₁.site
  have h₂ : m₀.Within F (Binding "glue" w (callKnown L .join p a w)) _ := h₁.bind
  have hout : Settles (fun n => (ofLevel n).stmt (declare p 31 "out" (.literal (p 32) (.string []))) F) _
      (.ok (.string []) _) := ArrayLibrary.settles_declare settles_literal h₂.site
  have h₃ : m₀.Within F (Binding "out" (.string []) (Binding "glue" w (callKnown L .join p a w))) _ := h₂.bind
  have hjoining : Joining L m₀ F [] F (JoinNames L a w) _ :=
    { toWithin := h₃.mono fun name v hv => by
        cases hv with
        | native => exact .inr ⟨by decide, .inr ⟨by decide, callKnown_native⟩⟩
        | arr => exact .inr ⟨by decide, .inr ⟨by decide, callKnown_first⟩⟩
        | glue => exact .inr ⟨by decide, .inl ⟨rfl, rfl⟩⟩
      start := hl
      inside := hm.outer
      holds := .declared h₂.site
      other := fun _ => nofun }
  obtain ⟨m', hloop, h'⟩ := hjoining.settles_loop (p := p) hw ha hid hts
  have hresult : Settles (fun n => (ofLevel n).stmt (run p 70 (ref p 71 "out")) F) m'
      (.ok (.string (Text.joinWith u ts)) m') := Settles.succ (settles_of_eq fun _ => readHeap_ok h'.holds.lookup)
  exact ⟨m', .value (settles_exec_cons hglue (settles_exec_cons hout (settles_exec_cons hloop
    (settles_exec_single hresult)))), h'.unaffected⟩

/-- A call of `join` on an array of texts gives the texts with the separator between them, and has no side effects. -/
theorem settles_join {ts : List Text} (hl : L.LoadedIn m.heap) (hd : m.depth < m.settings.callLimit.count)
    (ha : a.payload = .array id) (hid : id < m.heap.arrays.size)
    (hts : (m.heap.array id).toList = ts.map Value.string) (hw : w.payload = .string u) :
    ∃ m', (∀ span, Settles (fun n => (ofLevel n).call (L.value .join) [a, w] span) m
      (.ok (.string (Text.joinWith u ts)) m')) ∧ m.Unaffected m' := by
  have hkind : a.kind = .array := by rw [Value.kind, ha, Payload.kind]
  obtain ⟨p, m₁, hplace, hcall⟩ := settles_function .join hl hd hkind (by rintro _ ⟨⟩)
  obtain ⟨m₂, hfinishes, hm₂⟩ := finishes_join hplace hl ha hid hts hw
  exact ⟨_, hcall _ m₂ hfinishes fun h => absurd h (by decide), hm₂.withDepth m.depth⟩

/-! ## Splitting and joining -/

/-- Scripts find `split` as a member of `String` and `join` as one of `Array`. Splitting a text and joining the pieces
with the same separator gives a text with the same characters. It is `==` to the text that was split exactly if that
carries no variant. The pieces are those between the leftmost occurrences of the separator, or the characters if this
is empty. -/
theorem split_then_join (hm : m.HasPrelude) (hd : m.depth < m.settings.callLimit.count)
    (hs : s.payload = .string t) (hw : w.payload = .string u) :
    ∃ split join v id ps m₁ m₂,
      (m.heap.globalMember "String" "split" = .ok split ∧ m.heap.globalMember "Array" "join" = .ok join) ∧
      (∀ span, Settles (fun n => (ofLevel n).call split [s, w] span) m (.ok v m₁)) ∧
      (∀ span, Settles (fun n => (ofLevel n).call join [v, w] span) m₁ (.ok (.string t) m₂)) ∧
      m.Unaffected m₁ ∧ m₁.Unaffected m₂ ∧ NewTexts m m₁ v id ps ∧ Text.IsCut u t ps ∧
      (∀ h : Heap, h.equal (.string t) s = decide (s.variant? = none)) := by
  obtain ⟨L, hl, hnames⟩ := hm.stringLibrary
  obtain ⟨v, id, m₁, hsplit, hm₁, hnew⟩ := settles_split hl hd hs hw
  obtain ⟨m₂, hjoin, hm₂⟩ := settles_join (hl.later hm₁) (by rw [hm₁.depth, hm₁.settings]; exact hd) hnew.array
    hnew.lt hnew.elements hw
  have hcut := Text.isCut_piecesAt u t
  rw [hcut.joined] at hjoin
  exact ⟨_, _, v, id, _, m₁, m₂, ⟨hnames .split, hnames .join⟩, hsplit, hjoin, hm₁, hm₂, hnew, hcut,
    fun h => by rw [Heap.equal_text hs]; simp⟩

/-- `"a,b"` at `","` -/
theorem split_then_join_letters :
    ∃ m : Machine, m.HasPrelude ∧ ∃ split join v id ps m₁ m₂,
      (m.heap.globalMember "String" "split" = .ok split ∧ m.heap.globalMember "Array" "join" = .ok join) ∧
      (∀ span, Settles (fun n => (ofLevel n).call split [.string "a,b", .string ","] span) m (.ok v m₁)) ∧
      (∀ span, Settles (fun n => (ofLevel n).call join [v, .string ","] span) m₁ (.ok (.string "a,b") m₂)) ∧
      NewTexts m m₁ v id ps ∧ Text.IsCut "," "a,b" ps ∧
      m₂.heap.equal (.string "a,b") (.string "a,b") = true := by
  obtain ⟨m, hm⟩ := Session.exists_ready
  obtain ⟨split, join, v, id, ps, m₁, m₂, hnames, hsplit, hjoin, -, -, hnew, hcut, hequal⟩ :=
    split_then_join (s := .string "a,b") (w := .string ",") hm.prelude (hm.lt_limit (by decide : 0 < 400)) rfl rfl
  exact ⟨m, hm.prelude, split, join, v, id, ps, m₁, m₂, hnames, hsplit, hjoin, hnew, hcut,
    (hequal _).trans (decide_eq_true rfl)⟩

/-- A text with a variant is not `==` to what joining its pieces gives. -/
theorem joined_pieces_drop_variant :
    let tagged := (Value.string "a,b").stamped ⟨⟨"E", 1⟩, "A", 2⟩
    ∃ m : Machine, m.HasPrelude ∧ ∃ split join v m₁ m₂,
      (m.heap.globalMember "String" "split" = .ok split ∧ m.heap.globalMember "Array" "join" = .ok join) ∧
      (∀ span, Settles (fun n => (ofLevel n).call split [tagged, .string ","] span) m (.ok v m₁)) ∧
      (∀ span, Settles (fun n => (ofLevel n).call join [v, .string ","] span) m₁ (.ok (.string "a,b") m₂)) ∧
      m₂.heap.equal (.string "a,b") tagged = false := by
  intro tagged
  obtain ⟨m, hm⟩ := Session.exists_ready
  have hd : m.depth < m.settings.callLimit.count := hm.lt_limit (by decide : 0 < 400)
  obtain ⟨L, hl, hnames⟩ := hm.prelude.stringLibrary
  obtain ⟨v, id, m₁, hsplit, hm₁, hnew⟩ := settles_split (s := tagged) (w := .string ",") hl hd rfl rfl
  obtain ⟨m₂, hjoin, -⟩ := settles_join (w := .string ",") (hl.later hm₁)
    (by rw [hm₁.depth, hm₁.settings]; exact hd) hnew.array hnew.lt hnew.elements rfl
  rw [(Text.isCut_piecesAt _ _).joined] at hjoin
  have hdiffer : m₂.heap.equal (.string "a,b") tagged = false := by
    rw [Heap.equal_text rfl]
    exact decide_eq_false nofun
  exact ⟨m, hm.prelude, _, _, v, m₁, m₂, ⟨hnames .split, hnames .join⟩, hsplit, hjoin, hdiffer⟩

end StringLibrary

end ScriptEngine

import ScriptEngine.Proofs.Program.Sound

/-!
# Outcomes of parsers

`Parse.Ensures p ts i Q`: at the position `i` of the tokens `ts` the parser `p` ends with a result and a
position that satisfy `Q`, or it rejects the tokens at a span of them. It asks for no token that is not there
and uses up no bound.

There is a rule for each way to build a parser, first for those of single tokens. Of the token list they only
need that its end of file is the last token and no other one (`Ended`), so that a parser that stands before
another token moves on when it consumes one. Each round of a repetition moves on, and so a bound that is no
less than the tokens ahead is enough.
-/

namespace ScriptEngine

/-- The last token, and no other one, is the end of file. -/
structure Ended (ts : Array Token) : Prop where
  pos : 0 < ts.size
  last : ∀ {i}, i < ts.size → ((tokenIn ts i).kind = .endOfFile ↔ i + 1 = ts.size)

theorem Ended.lt_size {ts : Array Token} (hts : Ended ts) {i : Nat} (hi : i < ts.size)
    (hk : (tokenIn ts i).kind ≠ .endOfFile) : i + 1 < ts.size := by
  have hlast := mt (hts.last hi).2 hk
  omega

/-- A token that stands for something is not the end of file, for which nothing stands. -/
theorem ne_endOfFile_of_some {α : Type} {f : TokenKind → Option α} {k : TokenKind} {a : α}
    (hf : f .endOfFile = none) (hk : f k = some a) : k ≠ .endOfFile := by
  rintro rfl
  rw [hf] at hk
  cases hk

namespace Parse

variable {α β : Type} {p : Parse α} {f : α → Parse β} {ts : Array Token} {i j : Nat}
  {Q : α → Nat → Prop} {R : β → Nat → Prop}

/-- A parser ends at a position with what `Q` says, or rejects the tokens at a span of them. -/
def Ensures (p : Parse α) (ts : Array Token) (i : Nat) (Q : α → Nat → Prop) : Prop :=
  match p ts i with
  | .ok (a, j) => Q a j
  | .error (.rejected e) => e.span.Within ts 0 ts.size
  | .error _ => False

theorem ensures_pure {a : α} (ha : Q a i) : (pure a : Parse α).Ensures ts i Q := ha

theorem Ensures.bind (hp : p.Ensures ts i Q) (hf : ∀ a j, Q a j → (f a).Ensures ts j R) :
    (p >>= f).Ensures ts i R := by
  cases hrun : p ts i with
  | ok r =>
    obtain ⟨a, j⟩ := r
    rw [Ensures, hrun] at hp
    rw [Ensures, bind_ok hrun]
    exact hf a j hp
  | error stop =>
    rw [Ensures, hrun] at hp
    rw [Ensures, bind_error hrun]
    cases stop with
    | rejected e => exact hp
    | noToken | unfinished => exact hp.elim

theorem Ensures.mono {Q' : α → Nat → Prop} (hp : p.Ensures ts i Q) (hQ : ∀ a j, Q a j → Q' a j) :
    p.Ensures ts i Q' := by
  unfold Ensures at hp ⊢
  split
  · next h => exact hQ _ _ (by simpa only [h] using hp)
  · next h => simpa only [h] using hp
  · next h => simp only [h] at hp

/-- A parser that goes on after another one, of which the result is known. -/
theorem Ensures.after {a : α} (hp : p ts i = .ok (a, j)) (hf : (f a).Ensures ts j R) :
    (p >>= f).Ensures ts i R := by
  rw [Ensures, bind_ok hp]
  exact hf

theorem ensures_failAt {cause : ParseCause} {s : Span} (hs : s.Within ts 0 ts.size) :
    (failAt cause s : Parse α).Ensures ts i Q := hs

/-- Nothing comes after a failure. -/
theorem Ensures.failAt {cause : ParseCause} {s : Span} (hs : s.Within ts 0 ts.size) :
    (failAt cause s >>= f).Ensures ts i R :=
  (ensures_failAt hs (Q := fun _ _ => False)).bind fun _ _ h => h.elim

/-! ## Single tokens -/

section

variable (hi : i < ts.size)

include hi

theorem Ensures.peek {f : Token → Parse β} (hf : (f (tokenIn ts i)).Ensures ts i R) :
    (peek >>= f).Ensures ts i R :=
  .after (peek_run hi) hf

theorem ensures_failExpected {expected : Text} : (failExpected expected : Parse α).Ensures ts i Q := by
  have hs : (tokenIn ts i).span.Within ts 0 ts.size :=
    (Span.covers_token ts i).within (Nat.zero_le i) hi
  refine .peek hi ?_
  split <;> exact ensures_failAt hs

theorem Ensures.failExpected {expected : Text} : (failExpected expected >>= f).Ensures ts i R :=
  (ensures_failExpected hi (Q := fun _ _ => False)).bind fun _ _ h => h.elim

theorem Ensures.spanFrom {start : Token} {f : Span → Parse β}
    (hf : (f ⟨start.span.start, (tokenIn ts (i - 1)).span.stop⟩).Ensures ts i R) :
    (spanFrom start >>= f).Ensures ts i R :=
  .after (spanFrom_run start hi) hf

theorem Ensures.previous (hpos : 0 < i) {f : Token → Parse β}
    (hf : (f (tokenIn ts (i - 1))).Ensures ts i R) : (previous >>= f).Ensures ts i R :=
  .after (previous_run hpos (Nat.le_of_lt hi)) hf

theorem Ensures.looksAt {kind : TokenKind} {f : Bool → Parse β}
    (hyes : (tokenIn ts i).kind = kind → (f true).Ensures ts i R)
    (hno : (tokenIn ts i).kind ≠ kind → (f false).Ensures ts i R) :
    (looksAt kind >>= f).Ensures ts i R := by
  have hrun : Parse.looksAt kind ts i = .ok (decide ((tokenIn ts i).kind = kind), i) := by
    rw [Parse.looksAt, bind_ok (peek_run hi)]
    rfl
  refine .after hrun ?_
  by_cases hk : (tokenIn ts i).kind = kind
  · rw [decide_eq_true hk]
    exact hyes hk
  · rw [decide_eq_false hk]
    exact hno hk

end

section

variable (hts : Ended ts) (hi : i < ts.size)

include hts hi

theorem Ensures.peekSecond {f : Token → Parse β} (hk : (tokenIn ts i).kind ≠ .endOfFile)
    (hf : i + 1 < ts.size → (f (tokenIn ts (i + 1))).Ensures ts i R) :
    (peekSecond >>= f).Ensures ts i R := by
  have hi₁ := hts.lt_size hi hk
  have hrun := peekSecond_run hi
  rw [if_pos hi₁] at hrun
  exact .after hrun (hf hi₁)

/-- Before any token but the end of file, a parser moves on. -/
theorem Ensures.next {f : Token → Parse β} (hk : (tokenIn ts i).kind ≠ .endOfFile)
    (hf : i + 1 < ts.size → (f (tokenIn ts i)).Ensures ts (i + 1) R) :
    (next >>= f).Ensures ts i R := by
  have hrun := next_run hi
  rw [if_neg hk] at hrun
  exact .after hrun (hf (hts.lt_size hi hk))

theorem Ensures.accept {kind : TokenKind} {f : Bool → Parse β} (hkind : kind ≠ .endOfFile)
    (hyes : (tokenIn ts i).kind = kind → i + 1 < ts.size → (f true).Ensures ts (i + 1) R)
    (hno : (f false).Ensures ts i R) : (accept kind >>= f).Ensures ts i R := by
  rw [Parse.accept, bind_assoc]
  refine .looksAt hi (fun hk => ?_) fun _ => hno
  rw [if_pos rfl, bind_assoc]
  exact .next hts hi (hk ▸ hkind) (hyes hk)

theorem ensures_accept {kind : TokenKind} (hkind : kind ≠ .endOfFile) :
    (accept kind).Ensures ts i fun _ j => i ≤ j ∧ j < ts.size := by
  rw [← bind_pure (Parse.accept kind)]
  refine .accept hts hi hkind (fun _ hi₁ => ?_) ?_
  · exact ensures_pure ⟨Nat.le_succ i, hi₁⟩
  · exact ensures_pure ⟨Nat.le_refl i, hi⟩

theorem Ensures.expect {kind : TokenKind} {expected : Text} {f : Token → Parse β}
    (hkind : kind ≠ .endOfFile)
    (hf : (tokenIn ts i).kind = kind → i + 1 < ts.size → (f (tokenIn ts i)).Ensures ts (i + 1) R) :
    (expect kind expected >>= f).Ensures ts i R := by
  rw [Parse.expect, bind_assoc]
  refine .looksAt hi (fun hk => ?_) fun _ => ?_
  · rw [if_pos rfl]
    exact .next hts hi (hk ▸ hkind) (hf hk)
  · exact .failExpected hi

theorem Ensures.expectName {expected : Text} {f : Token × Text → Parse β}
    (hf : ∀ name, (tokenIn ts i).kind = .identifier name → i + 1 < ts.size →
      (f (tokenIn ts i, name)).Ensures ts (i + 1) R) : (expectName expected >>= f).Ensures ts i R := by
  rw [Parse.expectName, bind_assoc]
  refine .peek hi ?_
  split
  · next name hk =>
    rw [bind_assoc]
    exact .next hts hi (by simp [hk]) (hf name hk)
  · exact .failExpected hi

/-- A name that may be left out. -/
theorem Ensures.acceptName {f : Option Text → Parse β}
    (hf : ∀ name j, i ≤ j → j < ts.size → (f name).Ensures ts j R) :
    (acceptName >>= f).Ensures ts i R := by
  rw [Parse.acceptName, bind_assoc]
  refine .peek hi ?_
  split
  · next name hk =>
    rw [bind_assoc]
    exact .next hts hi (by simp [hk]) fun h => hf _ _ (Nat.le_succ i) h
  · exact hf _ _ (Nat.le_refl i) hi

end

/-! ## Repetition

In each of these `lo` is a position from which on the parts are known to do their work, and `A i j a` says
that an item `a` is made of the tokens from `i` up to `j`. -/

section

variable {A : Nat → Nat → α → Prop} {lo bound : Nat}

/-- A parser of an item moves on. -/
def ReadsItem (A : Nat → Nat → α → Prop) (ts : Array Token) (p : Parse α) (i : Nat) : Prop :=
  p.Ensures ts i fun a j => i < j ∧ j < ts.size ∧ A i j a

/-- What is made of some tokens is made of more tokens. -/
def Widens (A : Nat → Nat → α → Prop) : Prop :=
  ∀ i j k l a, A i j a → k ≤ i → j ≤ l → A k l a

theorem Widens.all {as : List α} (hA : Widens A) (has : ∀ a ∈ as, A i j a) {k l : Nat} (hi : k ≤ i)
    (hj : j ≤ l) : ∀ a ∈ as, A k l a :=
  fun a ha => hA _ _ _ _ a (has a ha) hi hj

/-- A repetition that goes on with the state of the last round: `S i s` holds of the state at each
position. A round that gives nothing ends it where it is. -/
theorem ensures_iterate {step : α → Parse (Option α)} {S : Nat → α → Prop}
    (hstep : ∀ i s, lo ≤ i → i < ts.size → S i s → (step s).Ensures ts i fun r j =>
      (∃ s', r = some s' ∧ i < j ∧ j < ts.size ∧ S j s') ∨ r = none ∧ j = i)
    {s : α} (hlo : lo ≤ i) (hi : i < ts.size) (hs : S i s) (hbound : ts.size ≤ i + bound) :
    (iterate step bound s).Ensures ts i fun s' j => i ≤ j ∧ j < ts.size ∧ S j s' := by
  induction bound generalizing i s with
  | zero => omega
  | succ bound ih =>
    refine (hstep i s hlo hi hs).bind ?_
    rintro r j (⟨s', rfl, hij, hj, hs'⟩ | ⟨rfl, rfl⟩)
    · refine (ih (by omega) hj hs' (by omega)).mono fun s'' k hk => ?_
      exact ⟨by omega, hk.2⟩
    · exact ensures_pure ⟨Nat.le_refl j, hi, hs⟩

/-- Items until there is none; `N` holds where the parser finds no further one. -/
theorem ensures_many {item : Parse (Option α)} {N : Nat → Prop} (hA : Widens A)
    (hitem : ∀ i, lo ≤ i → i < ts.size → item.Ensures ts i fun r j =>
      (∃ a, r = some a ∧ i < j ∧ j < ts.size ∧ A i j a) ∨ r = none ∧ j = i ∧ N i)
    (hlo : lo ≤ i) (hi : i < ts.size) (hbound : ts.size ≤ i + bound) :
    (many item bound).Ensures ts i fun as j =>
      i ≤ j ∧ j < ts.size ∧ N j ∧ ∀ a ∈ as, A i j a := by
  induction bound generalizing i with
  | zero => omega
  | succ bound ih =>
    refine (hitem i hlo hi).bind ?_
    rintro r j (⟨a, rfl, hij, hj, ha⟩ | ⟨rfl, rfl, hN⟩)
    · refine (ih (by omega) hj (by omega)).bind ?_
      rintro as k ⟨hjk, hk, hN, has⟩
      refine ensures_pure ⟨by omega, hk, hN, List.forall_mem_cons.2 ⟨?_, ?_⟩⟩
      · exact hA _ _ _ _ a ha (Nat.le_refl i) hjk
      · exact hA.all has (Nat.le_of_lt hij) (Nat.le_refl k)
    · exact ensures_pure ⟨Nat.le_refl j, hi, hN, List.forall_mem_nil _⟩

variable (hts : Ended ts)

include hts

theorem ensures_separated {close : Symbol} {item : Parse α} (hA : Widens A)
    (hitem : ∀ i, lo ≤ i → i < ts.size → ReadsItem A ts item i) (hlo : lo ≤ i) (hi : i < ts.size)
    (hbound : ts.size ≤ i + bound) :
    (separated close item bound).Ensures ts i fun as j =>
      i ≤ j ∧ j < ts.size ∧ ∀ a ∈ as, A i j a := by
  induction bound generalizing i with
  | zero => omega
  | succ bound ih =>
    refine .looksAt hi (fun _ => ?_) fun _ => ?_
    · exact ensures_pure ⟨Nat.le_refl i, hi, List.forall_mem_nil _⟩
    · refine (hitem i hlo hi).bind ?_
      rintro a j ⟨hij, hj, ha⟩
      refine .accept hts hj (by simp) (fun _ hj' => ?_) ?_
      · refine (ih (by omega) hj' (by omega)).bind ?_
        rintro as k ⟨hjk, hk, has⟩
        refine ensures_pure ⟨by omega, hk, List.forall_mem_cons.2 ⟨?_, ?_⟩⟩
        · exact hA _ _ _ _ a ha (Nat.le_refl i) (by omega)
        · exact hA.all has (by omega) (Nat.le_refl k)
      · exact ensures_pure ⟨Nat.le_of_lt hij, hj, List.forall_mem_singleton.2 ha⟩

theorem ensures_commaList {item : Parse α} (hA : Widens A)
    (hitem : ∀ i, lo ≤ i → i < ts.size → ReadsItem A ts item i) (hlo : lo ≤ i) (hi : i < ts.size)
    (hbound : ts.size ≤ i + bound) :
    (commaList item bound).Ensures ts i fun as j => i < j ∧ j < ts.size ∧ ∀ a ∈ as, A i j a := by
  induction bound generalizing i with
  | zero => omega
  | succ bound ih =>
    refine (hitem i hlo hi).bind ?_
    rintro a j ⟨hij, hj, ha⟩
    refine .accept hts hj (by simp) (fun _ hj' => ?_) ?_
    · refine (ih (by omega) hj' (by omega)).bind ?_
      rintro as k ⟨hjk, hk, has⟩
      refine ensures_pure ⟨by omega, hk, List.forall_mem_cons.2 ⟨?_, ?_⟩⟩
      · exact hA _ _ _ _ a ha (Nat.le_refl i) (by omega)
      · exact hA.all has (by omega) (Nat.le_refl k)
    · exact ensures_pure ⟨hij, hj, List.forall_mem_singleton.2 ha⟩

theorem ensures_skipSemicolons (hi : i < ts.size) (hbound : ts.size ≤ i + bound) :
    (skipSemicolons bound).Ensures ts i fun _ j => i ≤ j ∧ j < ts.size := by
  have hskip : ∀ k, 0 ≤ k → k < ts.size →
      (do if ← acceptSymbol .semicolon then return some () else return none : Parse (Option Unit)).Ensures
        ts k fun r j => (∃ a, r = some a ∧ k < j ∧ j < ts.size ∧ True) ∨ r = none ∧ j = k ∧ True := by
    intro k _ hk
    refine .accept hts hk (by simp) (fun _ hk' => ?_) ?_
    · exact ensures_pure (.inl ⟨(), rfl, Nat.lt_succ_self k, hk', trivial⟩)
    · exact ensures_pure (.inr ⟨rfl, rfl, trivial⟩)
  refine (ensures_many (A := fun _ _ _ => True) (N := fun _ => True) (fun _ _ _ _ _ _ _ _ => trivial) hskip
    (Nat.zero_le i) hi hbound).bind ?_
  rintro _ j ⟨hij, hj, -, -⟩
  exact ensures_pure ⟨hij, hj⟩

end

end Parse

end ScriptEngine

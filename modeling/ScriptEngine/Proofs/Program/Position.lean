import ScriptEngine.Program.Parser.Statement

/-!
# Runs of parsers

What a parser does at a position of a token list, by what its parts do, and what the parsers of single
tokens do. `tokenIn ts i` is the token that they find at a position inside the list.
-/

namespace ScriptEngine

/-- The token at a position. -/
def tokenIn (ts : Array Token) (i : Nat) : Token := ts.getD i default

namespace Parse

variable {α β : Type} {p : Parse α} {f : α → Parse β} {ts : Array Token} {i j : Nat}

theorem bind_ok {a : α} (hp : p ts i = .ok (a, j)) : (p >>= f) ts i = f a ts j := by
  simp [bind, ReaderT.bind, StateT.bind, Except.bind, hp]

theorem bind_error {stop : ParseStop} (hp : p ts i = .error stop) : (p >>= f) ts i = .error stop := by
  simp [bind, ReaderT.bind, StateT.bind, Except.bind, hp]

theorem tokenAt_run (hi : i < ts.size) (j : Nat) : tokenAt i ts j = .ok (tokenIn ts i, j) := by
  have hlookup : ts[i]? = some (tokenIn ts i) := by simp [tokenIn, hi]
  have hread : (read : Parse (Array Token)) ts j = .ok (ts, j) := rfl
  rw [tokenAt, bind_ok hread, hlookup]
  rfl

theorem lookAhead_run (places : Nat) :
    lookAhead places ts i = tokenAt (if i + places < ts.size then i + places else ts.size - 1) ts i := rfl

theorem peek_run (hi : i < ts.size) : peek ts i = .ok (tokenIn ts i, i) := by
  rw [peek, lookAhead_run, Nat.add_zero, if_pos hi]
  exact tokenAt_run hi i

/-- The end of file is the second token where it is the first one. -/
theorem peekSecond_run (hi : i < ts.size) :
    peekSecond ts i = .ok (tokenIn ts (if i + 1 < ts.size then i + 1 else i), i) := by
  have hindex : (if i + 1 < ts.size then i + 1 else ts.size - 1) =
      if i + 1 < ts.size then i + 1 else i := by
    split <;> omega
  rw [peekSecond, lookAhead_run, hindex]
  refine tokenAt_run ?_ i
  split <;> omega

theorem next_run (hi : i < ts.size) :
    next ts i = .ok (tokenIn ts i, if (tokenIn ts i).kind = .endOfFile then i else i + 1) := by
  rw [next, bind_ok (peek_run hi)]
  by_cases hk : (tokenIn ts i).kind = .endOfFile
  · rw [if_neg (not_not_intro hk), if_pos hk]
    rfl
  · rw [if_pos hk, if_neg hk]
    rfl

theorem previous_run (hi : 0 < i) (hs : i ≤ ts.size) :
    previous ts i = .ok (tokenIn ts (i - 1), i) := by
  obtain ⟨k, rfl⟩ : ∃ k, i = k + 1 := ⟨i - 1, by omega⟩
  have hget : (get : Parse Nat) ts (k + 1) = .ok (k + 1, k + 1) := rfl
  rw [previous, bind_ok hget]
  exact tokenAt_run hs (k + 1)

theorem spanFrom_run (start : Token) (hi : i < ts.size) :
    spanFrom start ts i = .ok (⟨start.span.start, (tokenIn ts (i - 1)).span.stop⟩, i) := by
  have hget : (get : Parse Nat) ts i = .ok (i, i) := rfl
  rw [spanFrom, bind_ok hget, bind_ok (tokenAt_run (by omega) i)]
  rfl

end Parse

end ScriptEngine

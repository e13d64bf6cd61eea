import ScriptEngine.Proofs.Eval.Confined
import ScriptEngine.Session

/-!
# Lexical hygiene

An evaluation declares names in its own frame only: of the frames that were there before, every other
one binds the same names, has the same constants and offers the same names afterwards
(`Machine.Runs.sameNames`). Values of bindings may change. A block has a frame of its own, so that it
declares nothing in any frame that was there.
-/

namespace ScriptEngine

/-- Two frames bind the same names, of which the same are constants and the same are offered. -/
structure Frame.SameNames (f f' : Frame) : Prop where
  names : f'.bindings.keys = f.bindings.keys
  constants : f'.constants = f.constants
  exports : f'.exports = f.exports

theorem Frame.SameNames.refl (f : Frame) : f.SameNames f := ⟨rfl, rfl, rfl⟩

theorem Frame.SameNames.trans {f f' f'' : Frame} (h : f.SameNames f') (h' : f'.SameNames f'') :
    f.SameNames f'' :=
  ⟨h'.names.trans h.names, h'.constants.trans h.constants, h'.exports.trans h.exports⟩

namespace Heap

/-- A name that is bound already may get a new value. -/
theorem sameNames_bind {h : Heap} {id : Nat} {name : BindingName} {v : Value}
    (hbound : (h.frame id).bindings.contains name = true) (j : Nat) :
    (h.frame j).SameNames ((h.bind id name v false).frame j) := by
  rw [bind, frame_modifyFrame]
  split
  · next hj =>
    refine ⟨?_, rfl, rfl⟩
    rw [hj.1, OrderedMap.keys_insert, if_pos (OrderedMap.contains_iff.1 hbound)]
  · exact .refl _

end Heap

namespace Machine

variable {s f : Nat} {m m' : Machine}

/-- Frames are never removed. -/
theorem Runs.size_le (h : Runs s m m') : m.heap.frames.size ≤ m'.heap.frames.size := by
  induction h with
  | still _ hframes _ => rw [hframes]
  | trans _ _ ih ih' => exact ih.trans ih'
  | enter _ _ ih =>
    rw [Heap.size_newFrame] at ih
    omega
  | define | assign | offer | record => simp
  | note | reuse => exact Nat.le_refl _
  | abandon _ _ _ ih => exact ih
  | load _ _ _ ih => exact ih

/-- An evaluation declares names in its own frame and in frames that it opens, and in no other. -/
theorem Runs.sameNames (h : Runs s m m') (hf : f < m.heap.frames.size) (hs : f ≠ s) :
    (m.heap.frame f).SameNames (m'.heap.frame f) := by
  induction h with
  | still _ hframes _ =>
    rw [Heap.frame_of_frames_eq hframes]
    exact .refl _
  | trans h _ ih ih' => exact (ih hf hs).trans (ih' (Nat.lt_of_lt_of_le hf h.size_le) hs)
  | define =>
    rw [Heap.bind, Heap.frame_modifyFrame_of_ne hs]
    exact .refl _
  | assign hbound => exact Heap.sameNames_bind hbound f
  | offer | record =>
    rw [Heap.frame_modifyFrame_of_ne hs]
    exact .refl _
  | @enter _ m _ fr _ _ ih =>
    -- what is entered is evaluated in the new frame, which is none of those that were there
    have hkept := Heap.frame_newFrame_of_lt (f := fr) hf
    rw [← hkept]
    refine ih ?_ (Nat.ne_of_lt hf)
    rw [Heap.size_newFrame]
    omega
  | note | reuse => exact .refl _
  | abandon _ _ _ ih => exact ih hf hs
  | load _ _ _ ih => exact ih hf hs

/-- What is within any frame declares names in frames that it opens only. -/
theorem sameNames_of_within {α : Type} {x : Eval α} (hx : ∀ s, Eval.Within s x)
    (hf : f < m.heap.frames.size) : (m.heap.frame f).SameNames ((x.after m).heap.frame f) :=
  -- in particular it is within a frame that is not there
  (hx m.heap.frames.size m).sameNames hf (Nat.ne_of_lt hf)

end Machine

namespace Interp

/-- An expression, a statement or a list of statements leaves the names of every frame that was there as
they were, except for the frame that it is evaluated in; a block leaves those of every frame. -/
theorem evaluation_keeps_names (n s : Nat) (m : Machine) {f : Nat} (hf : f < m.heap.frames.size) :
    (f ≠ s →
      (∀ e, (m.heap.frame f).SameNames ((((ofLevel n).expr e s).after m).heap.frame f)) ∧
      (∀ st, (m.heap.frame f).SameNames ((((ofLevel n).stmt st s).after m).heap.frame f)) ∧
      ∀ ss, (m.heap.frame f).SameNames ((((ofLevel n).stmts s ss).after m).heap.frame f)) ∧
    ∀ b, (m.heap.frame f).SameNames ((((ofLevel n).block b s).after m).heap.frame f) := by
  have hI := confined_ofLevel n
  refine ⟨fun hs => ⟨fun e => ?_, fun st => ?_, fun ss => ?_⟩, fun b => ?_⟩
  · exact (hI.expr e s m).sameNames hf hs
  · exact (hI.stmt st s m).sameNames hf hs
  · exact (hI.stmts ss s m).sameNames hf hs
  · exact Machine.sameNames_of_within (fun _ => hI.block) hf

/-- The declaration `const x = 1`. -/
def constantX : Stmt :=
  .bindings { span := .unknown, name := some "x", isConst := true, targets := [],
              initializer := some (.literal .unknown (.number 1)) }

/-- The declaration binds a name of the main frame and none of the global frame; in a block it binds a name
of neither. -/
theorem evaluation_keeps_names_constantX :
    let m := Session.blank {} []
    let declared := (((ofLevel 3).stmt constantX Session.mainFrame).after m).heap
    let enclosed := (((ofLevel 3).block ⟨.unknown, [constantX]⟩ Session.mainFrame).after m).heap
    (declared.frame Session.mainFrame).constants = [some ("x" : Text)] ∧
    (enclosed.frame 2).constants = [some ("x" : Text)] ∧
    (m.heap.frame Session.globalFrame).SameNames (declared.frame Session.globalFrame) ∧
    (m.heap.frame Session.mainFrame).SameNames (enclosed.frame Session.mainFrame) := by
  refine ⟨rfl, rfl, ?_, ?_⟩
  · exact ((evaluation_keeps_names 3 Session.mainFrame (Session.blank {} []) (by decide)).1
      (by decide)).2.1 constantX
  · exact (evaluation_keeps_names 3 Session.mainFrame (Session.blank {} []) (by decide)).2 _

end Interp

end ScriptEngine

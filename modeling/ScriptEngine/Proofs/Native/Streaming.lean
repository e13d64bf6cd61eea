import ScriptEngine.Proofs.Native.Emitting

/-!
# Streams that are listened to

Reading a stream in the background, as the emissions that it makes.

* `Stream.Emits`: what a stream has emitted so far, an emission for each packet that it received and one for its end.
* `Stream.Attended`: the listeners end wherever they are called, and nobody else receives or closes.
* `Stream.pump_settles`: a stream that is attended is read to its end, packet by packet.
* `Stream.listen_delivers`: so is one that is listened to, which it is only once.
-/

namespace ScriptEngine

open Eval Interp Listener

/-- An event that was emitted with its arguments, and the heap as it was then. -/
structure Emission where
  event : Text
  args : List Value
  heap : Heap

/-- What was emitted is an array of the given bytes, as it was then. -/
def Emission.Carries (e : Emission) (bytes : List Nat) : Prop :=
  e.event = "receive" ∧
    ∃ i, e.args = [.plain (.array i)] ∧ (e.heap.array i).toList = bytes.map fun b : Nat => Value.number b

/-- Bytes that can be received at once. -/
structure Stream.IsPacket (bytes : List Nat) : Prop where
  nonempty : bytes ≠ []
  length_le : bytes.length ≤ 4096
  lt : ∀ b ∈ bytes, b < 256

/-- The machine of the thread that reads its stream. -/
def Machine.reading (m : Machine) : Machine :=
  { m with stream := { m.stream with listening := true }, threads := m.threads + 1, depth := 0 }

/-- Nothing has been received from the stream in the meantime, and it has not been closed. -/
structure Machine.SameStream (m m' : Machine) : Prop where
  incoming : m'.stream.incoming = m.stream.incoming
  closed : m'.stream.closed = m.stream.closed

namespace Stream

variable {id rounds : Nat} {event : Text} {args listeners : List Value} {m m' m₁ m₂ : Machine} {es : List Emission}
  {chunk : List Nat} {others : List (List Nat)} {span : Option Span}

/-- What a stream emits while it is read: packets that it has received, and its end where there are none left. -/
inductive Emits (id : Nat) : List Emission → Machine → Machine → Prop
  | nil {m : Machine} : Emits id [] m m
  | received {m m₁ m₂ m₃ m' : Machine} {b : Nat} {bytes : List Nat} {v : Value} {cs : List (Option Text)}
      {es : List Emission} (hreceive : Native.receive 4096 m = .ok (b :: bytes) m₁)
      (hbuffer : Native.bufferValue (b :: bytes) m₁ = .ok v m₂)
      (hcalls : Calls "receive" [v] (m₂.listeners id "receive") m₂ cs m₃) (hrest : Emits id es m₃ m') :
      Emits id (⟨"receive", [v], m₂.heap⟩ :: es) m m'
  | ended {m m₁ m₂ m' : Machine} {cs : List (Option Text)} {es : List Emission}
      (hreceive : Native.receive 4096 m = .ok [] m₁)
      (hcalls : Calls "close" [] (m₁.listeners id "close") m₁ cs m₂) (hrest : Emits id es m₂ m') :
      Emits id (⟨"close", [], m₁.heap⟩ :: es) m m'

/-- The listeners of an event end where they are called, and what is still to be received stays so. -/
def Heard (event : Text) (args listeners : List Value) (m : Machine) : Prop :=
  ∀ done listener rest cs m₁, listeners = done ++ listener :: rest → Calls event args done m cs m₁ →
    ∃ c m₂, Reacts event args listener m₁ c m₂ ∧ m₁.SameStream m₂

/-- Whatever a stream has emitted, its listeners end where they are called next, and nobody else receives from the
stream or closes it. -/
structure Attended (id : Nat) (m : Machine) : Prop where
  received : ∀ {es m₁ m₂ m₃ b bytes v}, Emits id es m m₁ → (∀ e ∈ es, e.event = "receive") →
    Native.receive 4096 m₁ = .ok (b :: bytes) m₂ → Native.bufferValue (b :: bytes) m₂ = .ok v m₃ →
      Heard "receive" [v] (m₃.listeners id "receive") m₃
  ended : ∀ {es m₁ m₂}, Emits id es m m₁ → (∀ e ∈ es, e.event = "receive") →
    Native.receive 4096 m₁ = .ok [] m₂ → Heard "close" [] (m₂.listeners id "close") m₂

/-! ## Receiving -/

theorem receive_nil (hopen : m.stream.closed = false) (hin : m.stream.incoming = []) :
    Native.receive 4096 m = .ok [] m := by
  rw [Native.receive, get_bind]
  dsimp only
  rw [hopen, hin]
  rfl

/-- What is still to be received after a packet of a chunk. -/
def remaining (chunk : List Nat) (others : List (List Nat)) : List (List Nat) :=
  if 4096 < chunk.length then chunk.drop 4096 :: others else others

theorem receive_cons (hopen : m.stream.closed = false) (hin : m.stream.incoming = chunk :: others) :
    Native.receive 4096 m =
      .ok (chunk.take 4096) { m with stream := { m.stream with incoming := remaining chunk others } } := by
  rw [Native.receive, get_bind]
  dsimp only
  rw [hopen, hin]
  rfl

section

variable (hchunks : ∀ c ∈ chunk :: others, c ≠ [] ∧ ∀ b ∈ c, b < 256)

include hchunks

/-- As much of a chunk as can be received at once. -/
theorem isPacket_take : IsPacket (chunk.take 4096) where
  nonempty := by simpa using (hchunks chunk (.head _)).1
  length_le := List.length_take_le 4096 chunk
  lt b hb := (hchunks chunk (.head _)).2 b (List.mem_of_mem_take hb)

theorem mem_remaining : ∀ c ∈ remaining chunk others, c ≠ [] ∧ ∀ b ∈ c, b < 256 := by
  intro c hc
  rw [remaining] at hc
  split at hc
  · next hlong =>
    obtain rfl | hc := List.mem_cons.1 hc
    · have hleft : chunk.drop 4096 ≠ [] := by simpa using hlong
      exact ⟨hleft, fun b hb => (hchunks chunk (.head _)).2 b (List.mem_of_mem_drop hb)⟩
    · exact hchunks c (.tail _ hc)
  · exact hchunks c (.tail _ hc)

end

/-- No byte is lost and none comes twice. -/
theorem flatten_remaining : chunk.take 4096 ++ (remaining chunk others).flatten = (chunk :: others).flatten := by
  rw [remaining, List.flatten_cons]
  split
  · rw [List.flatten_cons, ← List.append_assoc, List.take_append_drop]
  · next hshort => rw [List.take_of_length_le (Nat.le_of_not_lt hshort)]

/-- Each packet takes a round. -/
theorem pumpRounds_lt {s t : Stream} (hs : s.incoming = chunk :: others) (ht : t.incoming = remaining chunk others) :
    Native.pumpRounds t < Native.pumpRounds s := by
  rw [Native.pumpRounds, Native.pumpRounds, hs, ht, remaining, List.foldr_cons]
  split
  · rw [List.foldr_cons, List.length_drop]
    omega
  · omega

theorem pumpRounds_pos {s : Stream} : 0 < Native.pumpRounds s := by
  rw [Native.pumpRounds]
  cases s.incoming with
  | nil => exact Nat.one_pos
  | cons c others =>
    rw [List.foldr_cons]
    omega

/-! ## Emitting what is received -/

/-- All listeners of an event are called. -/
theorem Heard.calls (h : Heard event args listeners m) :
    ∃ cs m', Calls event args listeners m cs m' ∧ m.SameStream m' := by
  refine Calls.exists_of_reacts (Q := m.SameStream) ⟨rfl, rfl⟩ fun done listener rest cs m₁ hsplit hdone hkept => ?_
  obtain ⟨c, m₂, hreacts, hsame⟩ := h done listener rest cs m₁ hsplit hdone
  have hlogged : (m₂.complaining c).stream = m₂.stream := m₂.stream_complaining c
  refine ⟨c, m₂, hreacts, ?_, ?_⟩
  · rw [hlogged, hsame.incoming, hkept.incoming]
  · rw [hlogged, hsame.closed, hkept.closed]

theorem bufferValue_run (bytes : List Nat) : Native.bufferValue bytes m = .ok (.plain (.array m.heap.arrays.size))
    (m.withHeap (m.heap.newArray (bytes.map fun b : Nat => Value.number b).toArray).2) := rfl

/-- A new array of bytes is emitted. -/
theorem carries_newArray {h : Heap} {bytes : List Nat} :
    Emission.Carries ⟨"receive", [.plain (.array h.arrays.size)],
      (h.newArray (bytes.map fun b : Nat => Value.number b).toArray).2⟩ bytes := by
  refine ⟨rfl, _, rfl, ?_⟩
  simp [Heap.newArray, Heap.array]

/-- The stream is attended also after a packet has been emitted. -/
theorem Attended.next {b : Nat} {bytes : List Nat} {v : Value} {cs : List (Option Text)} {m₃ : Machine}
    (h : Attended id m) (hreceive : Native.receive 4096 m = .ok (b :: bytes) m₁)
    (hbuffer : Native.bufferValue (b :: bytes) m₁ = .ok v m₂)
    (hcalls : Calls "receive" [v] (m₂.listeners id "receive") m₂ cs m₃) : Attended id m₃ where
  received hemits hopen := h.received (.received hreceive hbuffer hcalls hemits) (List.forall_mem_cons.2 ⟨rfl, hopen⟩)
  ended hemits hopen := h.ended (.received hreceive hbuffer hcalls hemits) (List.forall_mem_cons.2 ⟨rfl, hopen⟩)

/-- A stream is read to its end: its bytes are emitted packet by packet, and then its end. -/
theorem pump_settles (hopen : m.stream.closed = false)
    (hchunks : ∀ c ∈ m.stream.incoming, c ≠ [] ∧ ∀ b ∈ c, b < 256) (hattended : Attended id m)
    (hrounds : Native.pumpRounds m.stream ≤ rounds) :
    ∃ received packets h m', Emits id (received ++ [⟨"close", [], h⟩]) m m' ∧
      Settles (fun n => Native.pump (ofLevel n) id rounds) m (.ok () m') ∧
      List.Forall₂ Emission.Carries received packets ∧ packets.flatten = m.stream.incoming.flatten ∧
      ∀ p ∈ packets, IsPacket p := by
  induction rounds generalizing m with
  | zero => exact absurd hrounds (Nat.not_le_of_lt pumpRounds_pos)
  | succ rounds ih =>
    cases hin : m.stream.incoming with
    | nil =>
      have hreceive := receive_nil hopen hin
      obtain ⟨cs, m', hcalls, -⟩ := (hattended.ended .nil nofun hreceive).calls
      refine ⟨[], [], m.heap, m', .ended hreceive hcalls .nil, ?_, .nil, rfl, nofun⟩
      refine Settles.bind (settles_of_eq fun _ => attempt_ok hreceive) ?_
      exact hcalls.emit.bind (settles_of_eq fun _ => rfl)
    | cons chunk others =>
      rw [hin] at hchunks
      have hpacket := isPacket_take hchunks
      have hreceive := receive_cons hopen hin
      obtain ⟨b, bytes, hbytes⟩ := List.exists_cons_of_ne_nil hpacket.nonempty
      rw [hbytes] at hreceive hpacket
      have hbuffer := bufferValue_run (b :: bytes)
        (m := { m with stream := { m.stream with incoming := remaining chunk others } })
      obtain ⟨cs, m₃, hcalls, hsame⟩ := (hattended.received .nil nofun hreceive hbuffer).calls
      have hleft : m₃.stream.incoming = remaining chunk others := hsame.incoming
      have hfewer := pumpRounds_lt hin hleft
      obtain ⟨received, packets, h, m', hemits, hpump, hcarries, hflatten, hpackets⟩ :=
        ih (hsame.closed.trans hopen) (fun c hc => mem_remaining hchunks c (hleft ▸ hc))
          (hattended.next hreceive hbuffer hcalls) (by omega)
      refine ⟨_ :: received, (b :: bytes) :: packets, h, m', .received hreceive hbuffer hcalls hemits, ?_,
        .cons carries_newArray hcarries, ?_, ?_⟩
      · refine Settles.bind (settles_of_eq fun _ => attempt_ok hreceive) ?_
        exact Settles.bind (settles_of_eq fun _ => hbuffer) (hcalls.emit.bind hpump)
      · rw [List.flatten_cons, hflatten, ← hbytes, ← flatten_remaining]
        exact congrArg _ (congrArg _ hleft)
      · exact List.forall_mem_cons.2 ⟨hpacket, hpackets⟩

/-! ## Listening -/

theorem Emits.lasts (h : Emits id es m m') : m.Lasts m' := by
  induction h with
  | nil => exact .refl _
  | received hreceive hbuffer hcalls _ ih =>
    exact (isPlain_receive.lasts_of_ok hreceive).trans
      ((isPlain_bufferValue.lasts_of_ok hbuffer).trans (hcalls.lasts.trans ih))
  | ended hreceive hcalls _ ih => exact (isPlain_receive.lasts_of_ok hreceive).trans (hcalls.lasts.trans ih)

/-- The thread that reads a stream has a call depth of its own. -/
theorem listen_settles (hfresh : m.stream.listening = false)
    (hpump : Settles (fun n => Native.pump (ofLevel n) m.stream.emitter (Native.pumpRounds m.stream)) m.reading
      (.ok () m')) :
    Settles (fun n => (ofLevel n).call (.plain (.native .streamListen)) [] span) m
      (.ok .null (m'.withDepth m.depth)) := by
  have hthread : Settles (fun n => Native.asThread fun _ =>
      Native.pump (ofLevel n) m.stream.emitter (Native.pumpRounds m.stream))
      { m with stream := { m.stream with listening := true } } (.ok () (m'.withDepth m.depth)) := by
    obtain ⟨N, hN⟩ := hpump.attempt_ok
    exact ⟨N, fun n hn => bind_ok (hN n hn)⟩
  obtain ⟨N, hN⟩ := hthread
  refine .succ ⟨N, fun n hn => ?_⟩
  show Native.streamListen.call (ofLevel n) [] span m = _
  refine call_of_run rfl ?_
  show Native.listenStream (ofLevel n) span m = _
  rw [Native.listenStream, get_bind, hfresh]
  exact bind_ok (hN n hn)

/-- The fault of listening to a stream that is listened to. -/
def alreadyRead (span : Option Span) : Fault :=
  { kind := .value, message := "listen(): stream is already being read in the background", span := span }

/-- A stream that is listened to is not listened to again. -/
theorem listen_again {I : Interp} (hlistening : m.stream.listening = true) :
    Native.streamListen.call I [] span m = .error (.failed (.fault (alreadyRead span))) m := by
  have hrun : Native.streamListen.run I [] span m = .error (.failed (.fault (alreadyRead span))) m := by
    show Native.listenStream I span m = _
    rw [Native.listenStream, get_bind, hlistening]
    rfl
  rw [call_of_fault rfl hrun]
  cases span <;> rfl

/-- A stream that is listened to delivers every byte once: arrays of at most 4096 bytes are emitted that together are
the bytes of all chunks in order, and after them the end, once. From then on it can not be listened to again, whatever
happens later in the session. -/
theorem listen_delivers (hfresh : m.stream.listening = false) (hopen : m.stream.closed = false)
    (hchunks : ∀ c ∈ m.stream.incoming, c ≠ [] ∧ ∀ b ∈ c, b < 256)
    (hemitter : m.stream.emitter < m.emitters.size) (hattended : Attended m.stream.emitter m.reading) :
    ∃ received packets h m₁, Emits m.stream.emitter (received ++ [⟨"close", [], h⟩]) m.reading m₁ ∧
      Settles (fun n => (ofLevel n).call (.plain (.native .streamListen)) [] span) m
        (.ok .null (m₁.withDepth m.depth)) ∧
      List.Forall₂ Emission.Carries received packets ∧ packets.flatten = m.stream.incoming.flatten ∧
      (∀ p ∈ packets, IsPacket p) ∧
      ∀ m', Relation.ReflTransGen Session.Step (m₁.withDepth m.depth) m' →
        m'.stream.emitter = m.stream.emitter → ∀ I span,
          Native.streamListen.call I [] span m' = .error (.failed (.fault (alreadyRead span))) m' := by
  obtain ⟨received, packets, h, m₁, hemits, hpump, hcarries, hflatten, hpackets⟩ :=
    pump_settles (m := m.reading) hopen hchunks hattended (Nat.le_refl _)
  refine ⟨received, packets, h, m₁, hemits, listen_settles hfresh hpump, hcarries, hflatten, hpackets, ?_⟩
  intro m' hsteps hsame I span
  have hdepth : m₁.Lasts (m₁.withDepth m.depth) := .of_eq rfl rfl rfl
  have hlasts : m.reading.Lasts m' := (hemits.lasts.trans hdepth).trans (Session.lasts_of_steps hsteps)
  obtain ⟨-, hlistening⟩ | hnew := hlasts.stream
  · exact listen_again (hlistening rfl)
  · -- another stream would have an emitter of its own
    exact absurd (hsame ▸ hnew) (Nat.not_le_of_lt hemitter)

/-! ## A stream with listeners -/

/-- A stream whose listener takes no arrays. -/
def feed : Machine :=
  { emitters := #[⟨["receive", "close"],
      .ofList [("receive", [.plain (.native .floor)]), ("close", [.plain (.native .timeNanos)])]⟩],
    stream := { incoming := [[1, 2], [3]], emitter := 0 } }

theorem floor_settles (m : Machine) (i : Nat) : ∃ e, Settles
    (fun n => (ofLevel n).call (.plain (.native .floor)) [.plain (.array i)] none) m (.error (.failed e) m) :=
  ⟨_, .succ (settles_of_eq fun _ => rfl)⟩

theorem emitters_of_receive {bytes : List Nat} (h : Native.receive 4096 m = .ok bytes m') :
    m'.emitters = m.emitters := by
  cases hclosed : m.stream.closed with
  | true =>
    rw [Native.receive, get_bind, hclosed] at h
    cases h
  | false =>
    cases hin : m.stream.incoming with
    | nil =>
      cases (receive_nil hclosed hin).symm.trans h
      rfl
    | cons chunk others =>
      cases (receive_cons hclosed hin).symm.trans h
      rfl

theorem of_bufferValue {bytes : List Nat} {v : Value} (h : Native.bufferValue bytes m = .ok v m') :
    (∃ i, v = .plain (.array i)) ∧ m'.emitters = m.emitters := by
  cases (bufferValue_run bytes).symm.trans h
  exact ⟨⟨_, rfl⟩, rfl⟩

theorem heard_single {l : Value} (hlisteners : listeners = [l])
    (h : ∃ c m', Reacts event args l m c m' ∧ m.SameStream m') : Heard event args listeners m := by
  intro done listener rest cs m₁ hsplit hdone
  rw [hlisteners] at hsplit
  cases done with
  | nil =>
    cases hsplit
    cases hdone
    exact h
  | cons _ done => simp at hsplit

theorem listeners_feed (hm : m.emitters = feed.emitters) :
    m.listeners 0 "receive" = [.plain (.native .floor)] ∧ m.listeners 0 "close" = [.plain (.native .timeNanos)] := by
  rw [Machine.listeners, Machine.listeners, hm]
  exact ⟨rfl, rfl⟩

/-- Nothing is registered while the stream is read. -/
theorem emitters_feed (h : Emits 0 es m m') (hes : ∀ e ∈ es, e.event = "receive")
    (hm : m.emitters = feed.emitters) : m'.emitters = feed.emitters := by
  induction h with
  | nil => exact hm
  | received hreceive hbuffer hcalls _ ih =>
    refine ih (fun e he => hes e (.tail _ he)) ?_
    obtain ⟨⟨i, rfl⟩, hbuffered⟩ := of_bufferValue hbuffer
    have hpresent := hbuffered.trans ((emitters_of_receive hreceive).trans hm)
    rw [(listeners_feed hpresent).1] at hcalls
    obtain _ | ⟨hfirst, _ | _⟩ := hcalls
    obtain ⟨e, hfloor⟩ := floor_settles _ i
    rw [Machine.emitters_complaining]
    cases hfirst with
    | value hcall | thrown hcall => cases hfloor.unique hcall
    | failed hcall =>
      cases hfloor.unique hcall
      exact hpresent
  | ended =>
    have hclose : ("close" : Text) ≠ "receive" := by decide
    exact absurd (hes _ (.head _)) hclose

theorem attended_feed : Attended 0 feed.reading where
  received hemits hes hreceive hbuffer := by
    obtain ⟨⟨i, rfl⟩, hbuffered⟩ := of_bufferValue hbuffer
    have hpresent := hbuffered.trans ((emitters_of_receive hreceive).trans (emitters_feed hemits hes rfl))
    obtain ⟨e, hfloor⟩ := floor_settles _ i
    exact heard_single (listeners_feed hpresent).1 ⟨_, _, .failed hfloor, ⟨rfl, rfl⟩⟩
  ended hemits hes hreceive := by
    have hpresent := (emitters_of_receive hreceive).trans (emitters_feed hemits hes rfl)
    exact heard_single (listeners_feed hpresent).2 ⟨_, _, .value (.succ (settles_of_eq fun _ => rfl)), ⟨rfl, rfl⟩⟩

theorem listen_delivers_feed :
    ∃ received packets h m₁, Emits 0 (received ++ [⟨"close", [], h⟩]) feed.reading m₁ ∧
      Settles (fun n => (ofLevel n).call (.plain (.native .streamListen)) [] none) feed
        (.ok .null (m₁.withDepth 0)) ∧
      List.Forall₂ Emission.Carries received packets ∧ packets.flatten = [1, 2, 3] ∧ (∀ p ∈ packets, IsPacket p) ∧
      ∀ m', Relation.ReflTransGen Session.Step (m₁.withDepth 0) m' → m'.stream.emitter = 0 → ∀ I span,
        Native.streamListen.call I [] span m' = .error (.failed (.fault (alreadyRead span))) m' :=
  listen_delivers (m := feed) rfl rfl (by decide) (by decide) attended_feed

end Stream

end ScriptEngine

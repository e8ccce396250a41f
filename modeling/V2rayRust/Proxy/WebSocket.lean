import V2rayRust.Common.Basic
import V2rayRust.Lib.Select
import V2rayRust.Lib.SourceRun

/-!
# WebSocket streams

`BinaryWsStream` of `proxy/websocket/mod.rs`. A message that is shorter than the destination is put
into it, a longer one is kept and handed over piece by piece. Binary messages are all it takes: any
other is an error, but for `Close`, which is the end of the stream. So the payloads come as they
were sent, and a control message between them is reported by the poll that receives it
(`BinaryWsStream.pollRead_delivers`).
-/

namespace V2ray

/-- `Message`, less the reason of a `Close`. -/
inductive Message
  | text (text : String)
  | binary (data : List UInt8)
  | ping (data : List UInt8)
  | pong (data : List UInt8)
  | close
  | frame (payload : List UInt8)
  deriving DecidableEq

/-- What one `poll_next` of the stream of messages answers. -/
inductive WsEvent
  | pending
  | message (m : Message)
  | err (message : String)
  /-- there are no more messages -/
  | drained
  deriving DecidableEq

def WsEvent.bytes : WsEvent → List UInt8
  | message (.binary data) => data
  | _ => []

/-- What a poll answers that receives this. Its errors are made by `new_error`. -/
def WsEvent.answer (debug : Message → String) : WsEvent → Poll (Except String Unit)
  | pending => .pending
  | message (.binary _) | message .close => .ready (.ok ())
  | message m => .ready (.error (newErrorText ("invalid message type " ++ debug m)))
  | err text => .ready (.error (newErrorText text))
  | drained => .ready (.error (newErrorText "websocket stream drained"))

/-- The payloads of the binary messages. -/
def payloads (es : List WsEvent) : List UInt8 := es.flatMap WsEvent.bytes

/-- A call of the stream of messages: `poll_next`, or one of a sink. -/
inductive WsCall
  | next
  | ready
  /-- `start_send`, and whether the message was taken -/
  | send (m : Message) (taken : Bool)
  | flush
  | close
  deriving DecidableEq

/-- What the sink answers; its errors as `{:?}` prints them. -/
structure WsAnswers where
  ready : Poll (Except String Unit)
  send : Except String Unit
  flush : Poll (Except String Unit)
  close : Poll (Except String Unit)

/-- The payloads of the binary messages that were sent. -/
def binaries (calls : List WsCall) : List UInt8 :=
  calls.flatMap fun
    | .send (.binary data) true => data
    | _ => []

/-- `BinaryWsStream`, less the stream of messages. -/
structure BinaryWsStream where
  readBuffer : Option (List UInt8)
  deriving DecidableEq

namespace BinaryWsStream

def new : BinaryWsStream := ⟨none⟩

/-- `poll_read`; `debug` is what `{:?}` prints of a message. -/
def pollRead (debug : Message → String) :
    BinaryWsStream → List WsEvent → ℕ → SourcePoll WsEvent BinaryWsStream
  | ⟨some readBuffer⟩, es, room =>
    if readBuffer.length ≤ room then ⟨⟨none⟩, es, .ready (.ok ()), readBuffer⟩
    else ⟨⟨some (readBuffer.drop room)⟩, es, .ready (.ok ()), readBuffer.take room⟩
  | ⟨none⟩, [], _ => ⟨new, [], .pending, []⟩
  | ⟨none⟩, .pending :: es, _ => ⟨new, es, .pending, []⟩
  | ⟨none⟩, .drained :: es, _ =>
    ⟨new, es, .ready (.error (newErrorText "websocket stream drained")), []⟩
  | ⟨none⟩, .err text :: es, _ => ⟨new, es, .ready (.error (newErrorText text)), []⟩
  -- binary only
  | ⟨none⟩, .message (.binary data) :: es, room =>
    if data.length < room then ⟨new, es, .ready (.ok ()), data⟩
    else pollRead debug ⟨some data⟩ es room
  | ⟨none⟩, .message .close :: es, _ => ⟨new, es, .ready (.ok ()), []⟩
  | ⟨none⟩, .message m :: es, _ =>
    ⟨new, es, .ready (.error (newErrorText ("invalid message type " ++ debug m))), []⟩

/-! ### Writing -/

/-- `poll_write` -/
def pollWrite (a : WsAnswers) (buf : List UInt8) : Poll (Except String ℕ) × List WsCall :=
  match a.ready with
  | .pending => (.pending, [.ready])
  | .ready (.error e) => (.ready (.error e), [.ready])
  | .ready (.ok ()) =>
    match a.send with
    | .error e => (.ready (.error e), [.ready, .send (.binary buf) false])
    | .ok () => (.ready (.ok buf.length), [.ready, .send (.binary buf) true])

/-- `poll_flush` -/
def pollFlush (a : WsAnswers) : Poll (Except String Unit) × List WsCall := (a.flush, [.flush])

/-- `poll_shutdown` -/
def pollShutdown (a : WsAnswers) : Poll (Except String Unit) × List WsCall :=
  match a.ready with
  | .pending => (.pending, [.ready])
  | .ready (.error e) => (.ready (.error e), [.ready])
  | .ready (.ok ()) =>
    -- what comes of the message does not matter
    (a.close.map (Except.mapError ("close " ++ ·)), [.ready, .send .close a.send.isOk, .close])

/-- Every byte that a write has accepted is in a message. -/
theorem pollWrite_accepts {a : WsAnswers} {buf : List UInt8} :
    match (pollWrite a buf).1 with
    | .ready (.ok n) => n = buf.length ∧ binaries (pollWrite a buf).2 = buf
    | _ => binaries (pollWrite a buf).2 = [] := by
  unfold pollWrite
  cases a.ready with
  | pending => rfl
  | ready r =>
    cases r with
    | error e => rfl
    | ok _ =>
      cases a.send with
      | error e => rfl
      | ok _ => exact ⟨rfl, List.append_nil buf⟩

theorem binaries_pollShutdown (a : WsAnswers) : binaries (pollShutdown a).2 = [] := by
  unfold pollShutdown
  cases a.ready with
  | pending => rfl
  | ready r =>
    cases r with
    | error e => rfl
    | ok _ => cases a.send <;> rfl

/-! ### One poll -/

variable {debug : Message → String} {s : BinaryWsStream} {es : List WsEvent} {room : ℕ}

/-- What is kept of a message. -/
def kept (s : BinaryWsStream) : List UInt8 := s.readBuffer.getD []

/-- What is kept of `data` after a destination with `room` bytes. -/
def keeps (room : ℕ) (data : List UInt8) : BinaryWsStream :=
  ⟨if data.length ≤ room then none else some (data.drop room)⟩

theorem kept_keeps (room : ℕ) (data : List UInt8) : (keeps room data).kept = data.drop room := by
  unfold keeps kept
  split
  · next h_le => exact (List.drop_eq_nil_of_le h_le).symm
  · rfl

/-- Nothing is kept of no bytes. -/
def WellKept (s : BinaryWsStream) : Prop := s.readBuffer ≠ some []

theorem wellKept_new : new.WellKept := fun h => by cases h

theorem wellKept_keeps (room : ℕ) (data : List UInt8) : (keeps room data).WellKept := by
  unfold WellKept keeps
  split
  · exact wellKept_new
  · next h_gt =>
    intro h
    have h_nil : data.drop room = [] := Option.some.inj h
    exact h_gt (List.drop_eq_nil_iff.mp h_nil)

/-- What a poll does: it hands over what is kept, or what it receives. -/
inductive Reads (debug : Message → String) (room : ℕ) (s : BinaryWsStream) :
    List WsEvent → SourcePoll WsEvent BinaryWsStream → Prop
  | kept {data : List UInt8} (kept_eq : s.readBuffer = some data) (es : List WsEvent) :
      Reads debug room s es ⟨keeps room data, es, .ready (.ok ()), data.take room⟩
  | received (kept_eq : s.readBuffer = none) (e : WsEvent) (es : List WsEvent) :
      Reads debug room s (e :: es) ⟨keeps room e.bytes, es, e.answer debug, e.bytes.take room⟩
  | nothing (kept_eq : s.readBuffer = none) : Reads debug room s [] ⟨s, [], .pending, []⟩

theorem pollRead_kept (data : List UInt8) (es : List WsEvent) (room : ℕ) :
    pollRead debug ⟨some data⟩ es room =
      ⟨keeps room data, es, .ready (.ok ()), data.take room⟩ := by
  rw [pollRead, keeps]
  split
  · next h_le => rw [List.take_of_length_le h_le]
  · rfl

/-- Nothing is put and nothing kept of what has no bytes. -/
theorem received_nothing {e : WsEvent} (h : e.bytes = []) (es : List WsEvent) (room : ℕ)
    (answer : Poll (Except String Unit)) :
    SourcePoll.mk (keeps room e.bytes) es answer (e.bytes.take room) = ⟨new, es, answer, []⟩ := by
  rw [h, List.take_nil]
  rfl

/-- A poll that receives something. -/
theorem pollRead_received (e : WsEvent) (es : List WsEvent) (room : ℕ) :
    pollRead debug ⟨none⟩ (e :: es) room =
      ⟨keeps room e.bytes, es, e.answer debug, e.bytes.take room⟩ := by
  cases e with
  | message m =>
    cases m with
    | binary data =>
      rw [pollRead]
      split
      · next h_lt =>
        have h_le := Nat.le_of_lt h_lt
        show _ = SourcePoll.mk (keeps room data) es _ (data.take room)
        rw [keeps, if_pos h_le, List.take_of_length_le h_le]
        rfl
      · rw [pollRead_kept]
        rfl
    | _ => exact (received_nothing rfl es room _).symm
  | _ => exact (received_nothing rfl es room _).symm

/-- How a poll ends. -/
theorem reads_pollRead (s : BinaryWsStream) (es : List WsEvent) (room : ℕ) :
    Reads debug room s es (pollRead debug s es room) := by
  obtain ⟨readBuffer⟩ := s
  cases readBuffer with
  | some data =>
    rw [pollRead_kept]
    exact .kept rfl es
  | none =>
    cases es with
    | nil => exact .nothing rfl
    | cons e es =>
      rw [pollRead_received]
      exact .received rfl e es

/-- What a poll puts and keeps is what was kept and what it has taken. -/
theorem received_pollRead (s : BinaryWsStream) (es : List WsEvent) (room : ℕ) :
    let x := pollRead debug s es room
    ∃ used, es = used ++ x.events ∧ x.put ++ x.state.kept = s.kept ++ payloads used := by
  have h_reads : Reads debug room s es (pollRead debug s es room) := reads_pollRead s es room
  generalize pollRead debug s es room = x at h_reads
  cases h_reads with
  | @kept data kept_eq =>
    refine ⟨[], rfl, ?_⟩
    rw [kept_keeps, List.take_append_drop, BinaryWsStream.kept, kept_eq]
    exact (List.append_nil data).symm
  | received kept_eq e es =>
    refine ⟨[e], rfl, ?_⟩
    rw [kept_keeps, List.take_append_drop, BinaryWsStream.kept, kept_eq]
    exact (List.append_nil e.bytes).symm
  | nothing kept_eq => exact ⟨[], rfl, (List.append_nil _).symm⟩

/-- A poll never keeps an empty rest. -/
theorem wellKept_pollRead (s : BinaryWsStream) (es : List WsEvent) (room : ℕ) (h : s.WellKept) :
    (pollRead debug s es room).state.WellKept := by
  have h_reads : Reads debug room s es (pollRead debug s es room) := reads_pollRead s es room
  generalize pollRead debug s es room = x at h_reads
  cases h_reads with
  | kept => exact wellKept_keeps _ _
  | received => exact wellKept_keeps _ _
  | nothing => exact h

/-- How much is left: bytes that are kept, messages to come and their bytes. -/
def left (s : BinaryWsStream) (es : List WsEvent) : ℕ :=
  s.readBuffer.elim 0 (fun data => data.length + 1) + (es.length + (payloads es).length)

/-- What is kept of a message takes fewer polls than the message has bytes. -/
theorem left_keeps (data : List UInt8) (h_room : 0 < room) :
    (keeps room data).readBuffer.elim 0 (fun data => data.length + 1) ≤ data.length := by
  unfold keeps
  split
  · exact Nat.zero_le _
  · show (data.drop room).length + 1 ≤ _
    rw [List.length_drop]
    omega

/-- A poll with room leaves less, unless nothing is left. -/
theorem left_pollRead (s : BinaryWsStream) (es : List WsEvent) (room : ℕ) (h_room : 0 < room) :
    left (pollRead debug s es room).state (pollRead debug s es room).events ≤ left s es - 1 := by
  have h_reads : Reads debug room s es (pollRead debug s es room) := reads_pollRead s es room
  generalize pollRead debug s es room = x at h_reads
  unfold left
  cases h_reads with
  | @kept data kept_eq =>
    have h_kept := left_keeps data h_room
    rw [kept_eq]
    simp only [Option.elim_some]
    omega
  | received kept_eq e es =>
    have h_kept := left_keeps e.bytes h_room
    have h_bytes : payloads (e :: es) = e.bytes ++ payloads es := List.flatMap_cons
    rw [kept_eq, h_bytes, List.length_append, List.length_cons]
    simp only [Option.elim_none]
    omega
  | nothing kept_eq =>
    rw [kept_eq]
    exact Nat.le_refl 0

/-! ### All polls -/

/-- What comes of polls `y` of a new stream, and of one more poll `x`. -/
structure Delivers (debug : Message → String) (es : List WsEvent)
    (y : SourcePolls WsEvent BinaryWsStream) (x : SourcePoll WsEvent BinaryWsStream) : Prop where
  /-- what was put and what is kept are the payloads that were received -/
  received : ∃ received, es = received ++ y.events ∧ y.put ++ y.state.kept = payloads received
  /-- the poll puts bytes, or waits, and then all is delivered, or it answers to what it receives,
  and then all that came before is delivered -/
  answer : x.events = y.events ∧ x.result = .ready (.ok ()) ∧ x.put ≠ [] ∨
    x.events = [] ∧ x.result = .pending ∧ y.put = payloads es ∨
    ∃ before e, es = before ++ e :: x.events ∧ y.put = payloads before ∧ x.result = e.answer debug
  /-- no bytes without an error: a `Close` was received, or a message without a payload -/
  ended : x.result = .ready (.ok ()) → x.put = [] → .message (.binary []) ∉ es →
    ∃ before, es = before ++ .message .close :: x.events ∧ y.put = payloads before

/-- All polls of a new stream, if they have room. -/
theorem polls_deliver (rooms : List ℕ) (es : List WsEvent) (h_room : 0 < room) :
    let y := sourcePolls (pollRead debug) rooms new es
    Delivers debug es y (pollRead debug y.state y.events room) := by
  have h_received := sourcePolls_received (@received_pollRead debug) rooms new es
  have h_kept : (sourcePolls (pollRead debug) rooms new es).state.WellKept :=
    sourcePolls_keeps (P := fun (s : BinaryWsStream) _ => s.WellKept) wellKept_pollRead rooms
      wellKept_new
  -- from here on only the state after the earlier polls counts
  generalize sourcePolls (pollRead debug) rooms new es = y at h_received h_kept
  obtain ⟨received, h_es, h_put⟩ := h_received
  replace h_put : y.put ++ y.state.kept = payloads received := h_put
  show Delivers debug es y (pollRead debug y.state y.events room)
  have h_reads : Reads debug room y.state y.events (pollRead debug y.state y.events room) :=
    reads_pollRead y.state y.events room
  generalize pollRead debug y.state y.events room = x at h_reads
  obtain ⟨s, events, put⟩ := y
  dsimp only at h_es h_put h_kept h_reads
  cases h_reads with
  -- a part of a message is kept: the poll returns the front of it
  | @kept data kept_eq =>
    have h_data : data ≠ [] := fun h_nil => h_kept (by rw [kept_eq, h_nil])
    have h_ne : data.take room ≠ [] := by
      rw [Ne, List.take_eq_nil_iff]
      exact not_or.mpr ⟨Nat.ne_of_gt h_room, h_data⟩
    refine ⟨⟨received, h_es, h_put⟩, .inl ⟨rfl, rfl, h_ne⟩, fun _ h_nil _ => absurd h_nil h_ne⟩
  -- nothing is kept, and the next answer is that of the stream
  | received kept_eq e events =>
    have h_before : put = payloads received := by
      rw [← h_put, BinaryWsStream.kept, kept_eq]
      exact (List.append_nil put).symm
    refine ⟨⟨received, h_es, h_put⟩, .inr (.inr ⟨received, e, h_es, h_before, rfl⟩), ?_⟩
    intro h_ok h_nil h_empty
    refine ⟨received, ?_, h_before⟩
    cases e with
    | message m =>
      cases m with
      | close => exact h_es
      | binary data =>
        -- a message with no data is the only one that puts nothing and is no end
        have h_data : data = [] :=
          (List.take_eq_nil_iff.mp h_nil).resolve_left (Nat.ne_of_gt h_room)
        rw [h_data] at h_es
        exact absurd (h_es ▸ List.mem_append_right received List.mem_cons_self) h_empty
      | _ => cases h_ok
    | _ => cases h_ok
  | nothing kept_eq =>
    have h_before : put = payloads es := by
      rw [h_es, List.append_nil, ← h_put, BinaryWsStream.kept, kept_eq]
      exact (List.append_nil put).symm
    exact ⟨⟨received, h_es, h_put⟩, .inr (.inl ⟨rfl, rfl, h_before⟩), fun h_ok => by cases h_ok⟩

/-- **Binary messages.** Over all polls, the payloads of the binary messages are delivered as they
were sent. A poll that receives another message answers with an error, unless it is `Close`, and
what came before has been delivered then; without an error and without bytes a poll answers only to
`Close`, if no binary message is empty. -/
theorem pollRead_delivers (debug : Message → String) (es : List WsEvent) {rooms : List ℕ} {room : ℕ}
    (h_rooms : ∀ room ∈ rooms, 0 < room) (h_room : 0 < room) :
    let y := sourcePolls (pollRead debug) rooms new es
    Delivers debug es y (pollRead debug y.state y.events room) ∧
      (es.length + (payloads es).length ≤ rooms.length → y.put = payloads es) := by
  intro y
  have h_delivers : Delivers debug es y (pollRead debug y.state y.events room) :=
    polls_deliver rooms es h_room
  refine ⟨h_delivers, fun h_enough => ?_⟩
  have h_left : left y.state y.events = 0 := by
    refine sourcePolls_all left_pollRead h_rooms ?_
    rwa [left, new, Option.elim_none, Nat.zero_add]
  obtain ⟨received, h_es, h_put⟩ := h_delivers.received
  -- nothing is to come, and nothing is kept
  obtain ⟨h_kept, h_rest⟩ := Nat.add_eq_zero_iff.mp h_left
  have h_events : y.events = [] :=
    List.length_eq_zero_iff.mp (Nat.add_eq_zero_iff.mp h_rest).1
  have h_buffer : y.state.kept = [] := by
    unfold kept
    cases h_data : y.state.readBuffer with
    | none => rfl
    | some data =>
      rw [h_data] at h_kept
      cases h_kept
  rw [h_events, List.append_nil] at h_es
  rw [h_buffer, List.append_nil] at h_put
  rw [h_put, h_es]

theorem pollRead_delivers_two :
    let es : List WsEvent :=
      [.message (.binary [1, 2, 3]), .message (.ping []), .message (.binary [4]),
      .message .close]
    let y := sourcePolls (pollRead fun _ => "Ping([])") [2, 2, 2, 2] new es
    Delivers (fun _ => "Ping([])") es y (pollRead (fun _ => "Ping([])") y.state y.events 2) ∧
      (es.length + (payloads es).length ≤ 4 → y.put = payloads es) :=
  pollRead_delivers _ _ (by decide) (by decide)

/-- What a server sends: binary messages, with `Ping` and `Pong` between them, and then `Close`. -/
def Conversation (es : List WsEvent) : Prop :=
  ∃ before : List WsEvent, es = before ++ [.message .close] ∧
    ∀ e ∈ before, ∃ data, e = .message (.binary data) ∨ e = .message (.ping data) ∨
      e = .message (.pong data)

/-- A `Ping` between two messages: the reader gets an error instead of the second one. -/
theorem pollRead_ping : ¬ ∀ (debug : Message → String) (es : List WsEvent) (rooms : List ℕ),
    Conversation es → (∀ room ∈ rooms, 0 < room) →
      ∃ run, sourceRun (fun s es room => .ok (pollRead debug s es room)) rooms new es = .ok run ∧
        (∀ e, run.how ≠ .failed e) := by
  intro h
  let es : List WsEvent := [.message (.binary [1]), .message (.ping []), .message (.binary [2]),
    .message .close]
  have h_es : Conversation es := by
    refine ⟨es.take 3, rfl, ?_⟩
    intro e h_e
    rcases List.mem_cons.mp h_e with rfl | h_e
    · exact ⟨[1], .inl rfl⟩
    rcases List.mem_cons.mp h_e with rfl | h_e
    · exact ⟨[], .inr (.inl rfl)⟩
    rcases List.mem_singleton.mp h_e with rfl
    · exact ⟨[2], .inl rfl⟩
  obtain ⟨run, h_run, h_how⟩ := h (fun _ => "Ping([])") es [16, 16, 16] h_es (by decide)
  have h_failed : run.how = .failed "Error: invalid message type Ping([])" := by
    cases h_run
    rfl
  exact h_how _ h_failed

end BinaryWsStream

end V2ray

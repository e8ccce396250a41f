import V2rayRust.Common.Basic
import V2rayRust.Lib.Bytes
import V2rayRust.Lib.H2Body
import V2rayRust.Lib.Varint

/-!
# The gRPC tunnel

`proxy/grpc/mod.rs`: a message is a head of six bytes, the length of its payload and the
payload. A reader takes the DATA frames of a response; it does not keep what a frame holds of
the head of a message, and it hands out what it keeps of a frame without looking for heads
(`grpc_read_meets`). A writer frames the whole slice, whatever it reports (`grpc_write_iff`).

The condition on a poll (`Fits`) is one on the state before it, on the next frame and on the
destination. A poll that meets it delivers (`GrpcAhead.pollRead`), and what a run of such polls
delivers follows by the rule for runs whose steps meet a condition (`run_of_meets`).
-/

namespace V2ray

/-- `GrpcStream`, less the stream that it sends to. -/
structure GrpcStream where
  /-- what `resp_fut` answers until it is ready -/
  respFut : List (Poll (Except String Unit))
  /-- whether the response is there -/
  recv : Bool
  buffer : List UInt8
  payloadLen : ℕ
  /-- the capacity of the receive window that has been given back -/
  released : ℕ
  deriving DecidableEq

namespace GrpcStream

variable (V : Varint)

def new (respFut : List (Poll (Except String Unit))) : GrpcStream where
  respFut := respFut
  recv := false
  buffer := []
  payloadLen := 0
  released := 0

/-- The bytes of a message: a flag and a length, which cover what follows, a field tag and the
payload with its length. -/
def encodeBuf (data : List UInt8) : List UInt8 :=
  let varint := V.encode data.length
  [0] ++ beBytes 4 ((1 + varint.length + data.length) % 2 ^ 32) ++ [0x0a] ++ (varint ++ data)

/-- What the loop over a DATA frame leaves. -/
structure FrameRest where
  put : List UInt8
  payloadLen : ℕ
  /-- what is kept in the buffer of the stream -/
  kept : List UInt8
  /-- what is left of the frame -/
  left : List UInt8
  failed : Option String
  deriving DecidableEq

/-- The loop over a DATA frame; `room` is what is free in the destination. -/
def frameLoop : ℕ → ℕ → ℕ → List UInt8 → Except Fault FrameRest
  | 0, _, _, _ => .error .diverge
  | n + 1, room, payloadLen, data =>
    let step (payloadLen : ℕ) (data : List UInt8) : Except Fault FrameRest :=
      let toRead := min payloadLen (min room data.length)
      if toRead = 0 then .ok ⟨[], payloadLen, data, [], none⟩
      else do
        let x ← frameLoop n (room - toRead) (payloadLen - toRead) (data.drop toRead)
        return { x with put := data.take toRead ++ x.put }
    if 0 < payloadLen then step payloadLen data
    -- a head that is not followed by a byte is left, and lost
    else if 6 < data.length then
      match V.decode (data.drop 6) with
      | some (payloadLen, data) => step payloadLen data
      | none =>
        .ok ⟨[], payloadLen, [], data.drop 6,
          some (newErrorText "failed to decode Protobuf message: invalid varint")⟩
    else .ok ⟨[], payloadLen, [], data, none⟩

/-- `poll_read`, once the response is there. -/
def pollData (p : Profile) (s : GrpcStream) (es : List BodyEvent) (room : ℕ) :
    Except Fault (SourcePoll BodyEvent GrpcStream) :=
  if s.buffer ≠ [] then do
    let toRead := min room s.buffer.length
    let payloadLen ← p.sub 64 s.payloadLen toRead
    return ⟨{ s with buffer := s.buffer.drop toRead, payloadLen }, es, .ready (.ok ()),
      s.buffer.take toRead⟩
  else match es with
  | [] => .ok ⟨s, [], .pending, []⟩
  | .pending :: es => .ok ⟨s, es, .pending, []⟩
  | .data frame :: es => do
    let x ← frameLoop V (frame.length + 1) room s.payloadLen frame
    let s := { s with payloadLen := x.payloadLen, buffer := x.kept }
    match x.failed with
    | some message => return ⟨s, es, .ready (.error message), x.put⟩
    | none =>
      return ⟨{ s with released := s.released + (frame.length - x.left.length) }, es,
        .ready (.ok ()), x.put⟩
  -- an error is the end of the stream, too
  | .err _ :: es | .ended :: es => .ok ⟨s, es, .ready (.ok ()), []⟩

/-- `poll_read` -/
def pollRead (p : Profile) (s : GrpcStream) (es : List BodyEvent) (room : ℕ) :
    Except Fault (SourcePoll BodyEvent GrpcStream) :=
  if s.recv then pollData V p s es room
  else match s.respFut with
  | [] => .ok ⟨s, es, .pending, []⟩
  | .pending :: respFut => .ok ⟨{ s with respFut }, es, .pending, []⟩
  | .ready (.error message) :: respFut =>
    .ok ⟨{ s with respFut }, es, .ready (.error (newErrorText message)), []⟩
  | .ready (.ok ()) :: respFut => pollData V p { s with respFut, recv := true } es room

/-- What a poll of the writer leaves: its answer, and the message that is handed to `send_data`. -/
structure GrpcWrite where
  reserved : ℕ
  result : Poll (Except String ℕ)
  sent : Option (List UInt8)
  deriving DecidableEq

/-- `reserve_send_capacity`: `10 - varint.length` bytes of a buffer of ten are left. -/
def reserveSendCapacity (data : List UInt8) : ℕ :=
  6 + 10 - (10 - (V.encode data.length).length) + data.length

/-- `poll_write` -/
def pollWrite (buf : List UInt8) (e : SendEvent) : GrpcWrite :=
  let reserved := reserveSendCapacity V buf
  match e with
  | .pending => ⟨reserved, .pending, none⟩
  | .granted toWrite => ⟨reserved, .ready (.ok toWrite), some (encodeBuf V buf)⟩
  | .refused _ message => ⟨reserved, .ready (.error message), none⟩
  | .closed => ⟨reserved, .ready (.error "broken pipe"), none⟩

/-- What the writes of a copy leave: how far it is in its buffer, and the messages. -/
structure CopyWrites where
  pos : ℕ
  sent : List (List UInt8)
  deriving DecidableEq

/-- The writes of `CopyWithCapacity::poll` from a buffer, poll after poll, until it is written or
the writer fails. -/
def copyWrites (buf : List UInt8) : ℕ → List SendEvent → CopyWrites
  | pos, [] => ⟨pos, []⟩
  | pos, e :: es =>
    if pos < buf.length then
      let x := pollWrite V (buf.drop pos) e
      match x.result with
      | .pending => copyWrites buf pos es
      | .ready (.error _) => ⟨pos, []⟩
      | .ready (.ok i) =>
        if i = 0 then ⟨pos, x.sent.toList⟩
        else
          let y := copyWrites buf (pos + i) es
          { y with sent := x.sent.toList ++ y.sent }
    else ⟨pos, []⟩

end GrpcStream

open GrpcStream

section Read

variable {V : Varint} {p : Profile} {s : GrpcStream} {es : List BodyEvent} {k room : ℕ}
  {frame wire rest : List UInt8} {payloads : List (List UInt8)}

/-- The messages with these payloads. -/
def wireOf (V : Varint) (payloads : List (List UInt8)) : List UInt8 :=
  (payloads.map (encodeBuf V)).flatten

/-- A frame that is not cut within the head of a message, as far as it is parsed: `k` bytes of
a payload are to come before the next head, and there is room for so many bytes. -/
inductive Cut (V : Varint) : ℕ → ℕ → List UInt8 → Prop
  /-- it brings nothing but the payload -/
  | within {k room : ℕ} {frame : List UInt8} (le : frame.length ≤ k) : Cut V k room frame
  /-- the destination is full before the payload ends -/
  | full {k room : ℕ} {frame : List UInt8} (lt : room < k) : Cut V k room frame
  | next {k room n : ℕ} {frame head rest : List UInt8} (le : k ≤ room) (head_len : head.length = 6)
      (frame_eq : frame.drop k = head ++ (V.encode n ++ rest)) (n_lt : n < 2 ^ 64) (n_pos : 0 < n)
      (cut : Cut V n (room - k) rest) : Cut V k room frame

/-- A frame that brings a byte of a payload. -/
def Brings (V : Varint) (k : ℕ) (frame : List UInt8) : Prop :=
  0 < k ∧ frame ≠ [] ∨ k = 0 ∧ ∃ head n rest, head.length = 6 ∧ n < 2 ^ 64 ∧
    frame = head ++ (V.encode n ++ rest) ∧ rest ≠ []

/-- The condition on a poll. A buffer is read no further than its message goes; a frame is not
cut within a head and brings a byte of a payload, unless there are no bytes left to bring. -/
structure Fits (V : Varint) (s : GrpcStream) (es : List BodyEvent) (room : ℕ) : Prop where
  buffer : s.buffer ≠ [] → min room s.buffer.length ≤ s.payloadLen
  frame : s.buffer = [] → (s.recv = true ∨ s.respFut.head? = some (.ready (.ok ()))) →
    ∀ frame es', es = .data frame :: es' → frameBytes es ≠ [] →
      Cut V s.payloadLen room frame ∧ Brings V s.payloadLen frame

theorem encodeBuf_eq (V : Varint) (data : List UInt8) :
    ∃ head, head.length = 6 ∧ encodeBuf V data = head ++ (V.encode data.length ++ data) :=
  ⟨_, by simp, rfl⟩

/-- What a poll that puts so many bytes leaves of a frame is not cut within a head. -/
theorem Cut.advance (h : Cut V k room frame) :
    Cut V (k - min k (min room frame.length)) (room - min k (min room frame.length))
      (frame.drop (min k (min room frame.length))) := by
  generalize h_t : min k (min room frame.length) = t
  cases h with
  | within le =>
    refine .within ?_
    rw [List.length_drop]
    omega
  | full lt => exact .full (by omega)
  | @next _ _ n _ head rest le head_len frame_eq n_lt n_pos cut =>
    have h_len := congrArg List.length frame_eq
    rw [List.length_drop, List.length_append, head_len] at h_len
    -- the frame goes on behind `k`, so all of it is put
    obtain rfl : t = k := by omega
    have h_frame : (frame.drop t).drop (t - t) = head ++ (V.encode n ++ rest) := by
      rw [List.drop_drop, Nat.sub_self, Nat.add_zero]
      exact frame_eq
    have h_cut : Cut V n (room - t - (t - t)) rest := by
      rw [Nat.sub_self, Nat.sub_zero]
      exact cut
    exact .next (by omega) head_len h_frame n_lt n_pos h_cut

/-- Bytes on the way: `k` of a payload that has begun, and messages. -/
def Queue (V : Varint) (k : ℕ) (bytes rest : List UInt8) : Prop :=
  ∃ cur payloads, cur.length = k ∧ bytes = cur ++ wireOf V payloads ∧
    rest = cur ++ payloads.flatten ∧ ∀ payload ∈ payloads, payload ≠ [] ∧ payload.length < 2 ^ 64

/-- Bytes of a payload that has begun are taken off the front. -/
theorem Queue.put {xs later : List UInt8} {t : ℕ} (h : Queue V k (xs ++ later) rest) (h_k : t ≤ k)
    (h_xs : t ≤ xs.length) :
    ∃ rest', rest = xs.take t ++ rest' ∧ Queue V (k - t) (xs.drop t ++ later) rest' := by
  obtain ⟨cur, payloads, rfl, h_bytes, rfl, h_payloads⟩ := h
  have h_take := congrArg (List.take t) h_bytes
  have h_drop := congrArg (List.drop t) h_bytes
  rw [List.take_append_of_le_length h_xs, List.take_append_of_le_length h_k] at h_take
  rw [List.drop_append_of_le_length h_xs, List.drop_append_of_le_length h_k] at h_drop
  refine ⟨cur.drop t ++ payloads.flatten, ?_, cur.drop t, payloads, List.length_drop, h_drop, rfl,
    h_payloads⟩
  rw [h_take, ← List.append_assoc, List.take_append_drop]

/-- At the end of a payload there is the head of the next message. -/
theorem Queue.next (h_lawful : V.Lawful) {head bytes : List UInt8} {n : ℕ}
    (h_head : head.length = 6)
    (h_n : n < 2 ^ 64) (h : Queue V 0 (head ++ (V.encode n ++ bytes)) rest) :
    Queue V n bytes rest := by
  obtain ⟨cur, payloads, h_cur, h_bytes, rfl, h_payloads⟩ := h
  obtain rfl := List.length_eq_zero_iff.mp h_cur
  -- nothing of a payload is left, so the head is that of the next message
  cases payloads with
  | nil =>
    have h_len := congrArg List.length h_bytes
    rw [List.length_append, h_head] at h_len
    exact absurd h_len (by show 6 + _ ≠ 0; omega)
  | cons payload payloads =>
    obtain ⟨-, h_lt⟩ := h_payloads payload List.mem_cons_self
    obtain ⟨head', h_head', h_message⟩ := encodeBuf_eq V payload
    have h_wire : wireOf V (payload :: payloads) =
        head' ++ (V.encode payload.length ++ (payload ++ wireOf V payloads)) := by
      rw [wireOf, List.map_cons, List.flatten_cons, h_message, List.append_assoc, List.append_assoc]
      rfl
    rw [List.nil_append, h_wire] at h_bytes
    obtain ⟨-, h_rest⟩ := List.append_inj h_bytes (h_head.trans h_head'.symm)
    obtain ⟨rfl, rfl⟩ := h_lawful.inj h_n h_lt h_rest
    exact ⟨payload, payloads, rfl, rfl, rfl, fun q h_q => h_payloads q (List.mem_cons_of_mem _ h_q)⟩

/-! ### The loop over a frame -/

/-- A round of the loop with bytes of a message left: it puts as many as message, room and frame
allow. -/
theorem frameLoop_pos {n : ℕ} (h_k : 0 < k) :
    frameLoop V (n + 1) room k frame =
      if min k (min room frame.length) = 0 then .ok ⟨[], k, frame, [], none⟩
      else do
        let x ← frameLoop V n (room - min k (min room frame.length))
          (k - min k (min room frame.length)) (frame.drop (min k (min room frame.length)))
        return { x with put := frame.take (min k (min room frame.length)) ++ x.put } := by
  rw [frameLoop]
  exact if_pos h_k

theorem frameLoop_head {n k' : ℕ} (h_len : 6 < frame.length)
    (h_dec : V.decode (frame.drop 6) = some (k', rest)) (h_pos : 0 < k') :
    frameLoop V (n + 1) room 0 frame = frameLoop V (n + 1) room k' rest := by
  rw [frameLoop, if_neg (Nat.lt_irrefl 0), if_pos h_len, h_dec, frameLoop, if_pos h_pos]

theorem frameLoop_nil {n : ℕ} : frameLoop V (n + 1) room 0 [] = .ok ⟨[], 0, [], [], none⟩ := by
  rw [frameLoop, if_neg (Nat.lt_irrefl 0)]
  exact if_neg (Nat.not_lt_zero 6)

/-- What the loop leaves of a frame that is not cut within a head. -/
structure FrameDone (V : Varint) (rest later : List UInt8) (x : FrameRest) : Prop where
  failed_eq : x.failed = none
  left_eq : x.left = []
  queue : ∃ rest', rest = x.put ++ rest' ∧ Queue V x.payloadLen (x.kept ++ later) rest'

/-- **The loop over a frame** puts what it may of the payloads, and keeps the rest. -/
theorem frameLoop_queue (h_lawful : V.Lawful) {n : ℕ} {later : List UInt8} (h_n : frame.length < n)
    (h_cut : Cut V k room frame) (h_queue : Queue V k (frame ++ later) rest) :
    ∃ x, frameLoop V n room k frame = .ok x ∧ FrameDone V rest later x := by
  -- on the fuel, which is longer than the frame
  induction n generalizing k room frame rest with
  | zero => exact absurd h_n (Nat.not_lt_zero _)
  | succ n ih =>
    -- within a payload: what fits is put, and the frame goes on behind it
    have h_begun {k : ℕ} {frame rest : List UInt8} (h_k : 0 < k) (h_n : frame.length < n + 1)
        (h_cut : Cut V k room frame) (h_queue : Queue V k (frame ++ later) rest) :
        ∃ x, frameLoop V (n + 1) room k frame = .ok x ∧ FrameDone V rest later x := by
      have h_advance := h_cut.advance
      rw [frameLoop_pos h_k]
      generalize h_t : min k (min room frame.length) = t at h_advance ⊢
      by_cases h_zero : t = 0
      · rw [if_pos h_zero]
        exact ⟨_, rfl, rfl, rfl, rest, rfl, h_queue⟩
      · obtain ⟨rest', h_rest, h_queue'⟩ := h_queue.put (t := t) (by omega) (by omega)
        have h_n' : (frame.drop t).length < n := by
          rw [List.length_drop]
          omega
        obtain ⟨x, h_x, failed_eq, left_eq, rest'', h_rest', h_queue''⟩ :=
          ih h_n' h_advance h_queue'
        rw [if_neg h_zero, h_x]
        refine ⟨_, rfl, failed_eq, left_eq, rest'', ?_, h_queue''⟩
        rw [h_rest, h_rest', List.append_assoc]
    -- at a head: the loop reads it, and is within a payload then
    rcases Nat.eq_zero_or_pos k with rfl | h_k
    · cases h_cut with
      | full lt => exact absurd lt (Nat.not_lt_zero _)
      | within le =>
        obtain rfl := List.length_eq_zero_iff.mp (Nat.le_zero.mp le)
        exact ⟨_, frameLoop_nil, rfl, rfl, rest, rfl, h_queue⟩
      | @next _ _ m _ head bytes le head_len frame_eq n_lt n_pos cut =>
        have h_frame : frame = head ++ (V.encode m ++ bytes) := frame_eq
        have h_encode := h_lawful.length_pos n_lt
        have h_len := congrArg List.length h_frame
        -- the head and the length are all in this frame
        rw [List.length_append, List.length_append, head_len] at h_len
        have h_dec : V.decode (frame.drop 6) = some (m, bytes) := by
          rw [h_frame, ← head_len, List.drop_left]
          exact h_lawful.decode_encode n_lt _
        rw [frameLoop_head (by omega) h_dec n_pos]
        refine h_begun n_pos (by omega) cut ?_
        rw [h_frame, List.append_assoc, List.append_assoc] at h_queue
        exact h_queue.next h_lawful head_len n_lt
    · exact h_begun h_k h_n h_cut h_queue

/-- A frame that brings a byte of a payload puts one. -/
theorem put_ne_nil (h_lawful : V.Lawful) {n : ℕ} {x : FrameRest} (h_n : frame.length < n)
    (h_room : 0 < room) (h_cut : Cut V k room frame) (h_brings : Brings V k frame)
    (h_x : frameLoop V n room k frame = .ok x) : x.put ≠ [] := by
  cases n with
  | zero => exact absurd h_n (Nat.not_lt_zero _)
  | succ n =>
    -- within a payload the first byte of the frame is put
    have h_begun {k : ℕ} {frame : List UInt8} (h_k : 0 < k) (h_frame : frame ≠ [])
        (h_x : frameLoop V (n + 1) room k frame = .ok x) : x.put ≠ [] := by
      have h_len : 0 < frame.length := List.length_pos_iff.mpr h_frame
      rw [frameLoop_pos h_k, if_neg (by omega)] at h_x
      obtain ⟨y, -, h_y⟩ := bind_eq_ok.mp h_x
      obtain rfl := Except.ok.inj h_y
      intro h_nil
      have h_take := (List.append_eq_nil_iff.mp h_nil).1
      rcases List.take_eq_nil_iff.mp h_take with h_zero | h_empty
      · omega
      · exact h_frame h_empty
    rcases h_brings with ⟨h_k, h_frame⟩ | ⟨rfl, head, m, bytes, h_head, h_m, rfl, h_bytes⟩
    · exact h_begun h_k h_frame h_x
    · have h_encode := h_lawful.length_pos h_m
      have h_dec : V.decode ((head ++ (V.encode m ++ bytes)).drop 6) = some (m, bytes) := by
        rw [← h_head, List.drop_left]
        exact h_lawful.decode_encode h_m _
      -- a head is only left to read if its payload has a byte
      have h_pos : 0 < m := by
        cases h_cut with
        | full lt => exact absurd lt (Nat.not_lt_zero _)
        | within le =>
          rw [List.length_append, h_head] at le
          omega
        | next le head_len frame_eq n_lt n_pos cut =>
          obtain ⟨rfl, h_rest⟩ := List.append_inj frame_eq (h_head.trans head_len.symm)
          obtain ⟨rfl, -⟩ := h_lawful.inj h_m n_lt h_rest
          exact n_pos
      rw [frameLoop_head (by rw [List.length_append, List.length_append]; omega) h_dec h_pos] at h_x
      exact h_begun h_pos h_bytes h_x

/-! ### Runs -/

/-- A future that becomes ready. -/
inductive Responds : List (Poll (Except String Unit)) → Prop
  | ready {answers : List (Poll (Except String Unit))} : Responds (.ready (.ok ()) :: answers)
  | pending {answers : List (Poll (Except String Unit))} (rest : Responds answers) :
      Responds (.pending :: answers)

/-- The pending answers before and in the body. -/
def waits (s : GrpcStream) (es : List BodyEvent) : ℕ :=
  (if s.recv then 0 else s.respFut.countP (· = .pending)) + bodyPendings es

/-- A stream before the response or in its body, on a connection that works. -/
structure GrpcAhead (V : Varint) (s : GrpcStream) (es : List BodyEvent) (rest : List UInt8) :
    Prop where
  clean : BodyClean es
  queue : Queue V s.payloadLen (s.buffer ++ frameBytes es) rest
  response : s.recv = true ∨ s.recv = false ∧ Responds s.respFut

/-- Where nothing is on the way, nothing is ahead. -/
theorem Queue.eq_nil (h : Queue V k [] rest) : rest = [] := by
  obtain ⟨cur, payloads, -, h_bytes, rfl, -⟩ := h
  obtain ⟨rfl, h_wire⟩ := List.append_eq_nil_iff.mp h_bytes.symm
  cases payloads with
  | nil => rfl
  | cons payload payloads =>
    obtain ⟨head, h_head, h_message⟩ := encodeBuf_eq V payload
    rw [wireOf, List.map_cons, List.flatten_cons, h_message] at h_wire
    obtain ⟨h_nil, -⟩ := List.append_eq_nil_iff.mp h_wire
    obtain ⟨rfl, -⟩ := List.append_eq_nil_iff.mp h_nil
    cases h_head

/-- A poll within the body. -/
theorem GrpcAhead.pollData (h_lawful : V.Lawful) (h_ahead : GrpcAhead V s es rest)
    (h_recv : s.recv = true) (h_room : 0 < room)
    (h_buffer : s.buffer ≠ [] → min room s.buffer.length ≤ s.payloadLen)
    (h_frame : s.buffer = [] → ∀ frame es', es = .data frame :: es' → frameBytes es ≠ [] →
      Cut V s.payloadLen room frame ∧ Brings V s.payloadLen frame) :
    ∃ x, GrpcStream.pollData V p s es room = .ok x ∧
      SourceDelivery waits (GrpcAhead V) (bodyPendings es) rest x := by
  obtain ⟨h_clean, h_queue, -⟩ := h_ahead
  have h_waits {s' : GrpcStream} (h_recv : s'.recv = true) (es' : List BodyEvent) :
      waits s' es' = bodyPendings es' := by
    rw [waits, h_recv, if_pos rfl, Nat.zero_add]
  unfold GrpcStream.pollData
  by_cases h_nil : s.buffer = []
  · -- nothing is in the buffer, so the body is asked
    rw [if_neg (not_not_intro h_nil)]
    rw [h_nil, List.nil_append] at h_queue
    cases h_clean with
    | nil =>
      exact ⟨_, rfl, .pending rfl ⟨.nil, h_nil.symm ▸ h_queue, Or.inl h_recv⟩
        (Or.inr h_queue.eq_nil)⟩
    | @pending es clean =>
      refine ⟨_, rfl, .pending rfl ⟨clean, h_nil.symm ▸ h_queue, Or.inl h_recv⟩ (Or.inl ?_)⟩
      show waits s es < _
      rw [h_waits h_recv]
      simp [bodyPendings]
    | ended clean no_bytes =>
      refine ⟨_, rfl, .ended rfl rfl ?_⟩
      rw [frameBytes_cons, no_bytes] at h_queue
      exact h_queue.eq_nil
    | @data frame es clean =>
      have h_n := Nat.lt_add_one frame.length
      by_cases h_last : frameBytes (.data frame :: es) = []
      · -- an empty frame at the end of the body
        have h_rest := (h_last ▸ h_queue).eq_nil
        obtain ⟨rfl, -⟩ := List.append_eq_nil_iff.mp h_last
        obtain ⟨y, h_y, failed_eq, -, rest', h_put, -⟩ :=
          frameLoop_queue h_lawful h_n (.within (Nat.zero_le _) : Cut V s.payloadLen room [])
            h_queue
        dsimp only
        rw [h_y, ok_bind, failed_eq]
        exact ⟨_, rfl, .ended rfl (List.append_eq_nil_iff.mp (h_put.symm.trans h_rest)).1 h_rest⟩
      obtain ⟨h_cut, h_brings⟩ := h_frame h_nil frame es rfl h_last
      obtain ⟨y, h_y, failed_eq, left_eq, rest', h_rest, h_queue'⟩ :=
        frameLoop_queue h_lawful h_n h_cut h_queue
      dsimp only
      rw [h_y, ok_bind, failed_eq]
      refine ⟨_, rfl, .put rfl (put_ne_nil h_lawful h_n h_room h_cut h_brings h_y) h_rest
        ⟨clean, h_queue', Or.inl h_recv⟩ ?_⟩
      refine Nat.le_trans (Nat.le_of_eq (h_waits (by exact h_recv) es)) ?_
      simp [bodyPendings]
  · -- what is in the buffer goes first
    rw [if_pos h_nil]
    have h_le := h_buffer h_nil
    obtain ⟨rest', h_rest, h_queue'⟩ := h_queue.put h_le (Nat.min_le_right _ _)
    have h_put : s.buffer.take (min room s.buffer.length) ≠ [] := by
      rw [Ne, List.take_eq_nil_iff]
      rintro (h_zero | h_empty)
      · have h_len := List.length_pos_iff.mpr h_nil
        omega
      · exact h_nil h_empty
    dsimp only
    rw [Profile.sub_of_le h_le]
    exact ⟨_, rfl, .put rfl h_put h_rest ⟨h_clean, h_queue', Or.inl h_recv⟩
      (Nat.le_of_eq (h_waits (by exact h_recv) es))⟩

/-- **A poll that fits delivers.** -/
theorem GrpcAhead.pollRead (h_lawful : V.Lawful) (h_ahead : GrpcAhead V s es rest)
    (h_room : 0 < room) (h_fits : Fits V s es room) :
    ∃ x, GrpcStream.pollRead V p s es room = .ok x ∧
      SourceDelivery waits (GrpcAhead V) (waits s es) rest x := by
  unfold GrpcStream.pollRead
  by_cases h_recv : s.recv = true
  · rw [if_pos h_recv, waits, if_pos h_recv, Nat.zero_add]
    exact h_ahead.pollData h_lawful h_recv h_room h_fits.buffer fun h_nil =>
      h_fits.frame h_nil (Or.inl h_recv)
  · obtain ⟨-, h_resp⟩ := h_ahead.response.resolve_left h_recv
    rw [if_neg h_recv, waits, if_neg h_recv]
    generalize h_answers : s.respFut = answers at h_resp
    cases h_resp with
    -- the response is there, and the same poll goes on with the body
    | @ready answers =>
      have h_ahead' : GrpcAhead V { s with respFut := answers, recv := true } es rest :=
        ⟨h_ahead.clean, h_ahead.queue, Or.inl rfl⟩
      obtain ⟨x, h_x, h_delivery⟩ := h_ahead'.pollData (p := p) h_lawful rfl h_room h_fits.buffer
        fun h_nil => h_fits.frame h_nil (Or.inr (h_answers ▸ rfl))
      exact ⟨x, h_x, h_delivery.mono (Nat.le_add_left _ _)⟩
    | @pending answers h_later =>
      have h_wait : s.recv = false := Bool.eq_false_iff.mpr h_recv
      refine ⟨_, rfl, .pending rfl ⟨h_ahead.clean, h_ahead.queue, Or.inr ⟨h_wait, h_later⟩⟩
        (Or.inl ?_)⟩
      show waits { s with respFut := answers } es < _
      rw [waits, if_neg h_recv]
      simp

/-- **The gRPC tunnel delivers while its polls fit.** -/
theorem grpc_read_meets (h_lawful : V.Lawful) (p : Profile)
    (h_payloads : ∀ payload ∈ payloads, payload ≠ [] ∧ payload.length < 2 ^ 64)
    {respFut : List (Poll (Except String Unit))} (h_resp : Responds respFut)
    (h_clean : BodyClean es)
    (h_bytes : frameBytes es = wireOf V payloads) {rooms : List ℕ}
    (h_rooms : ∀ room ∈ rooms, 0 < room)
    (h_meets : Meets (GrpcStream.pollRead V p) (Fits V) rooms (GrpcStream.new respFut) es) :
    ∃ y, sourceRun (GrpcStream.pollRead V p) rooms (GrpcStream.new respFut) es = .ok y ∧
      y.put <+: payloads.flatten ∧ (∀ e, y.how ≠ .failed e) ∧
      (y.how = .ended → y.put = payloads.flatten) ∧
      (respFut.countP (· = .pending) + bodyPendings es + payloads.flatten.length ≤ rooms.length →
        y.put = payloads.flatten) := by
  have h_ahead : GrpcAhead V (GrpcStream.new respFut) es payloads.flatten :=
    ⟨h_clean, ⟨[], payloads, rfl, h_bytes, rfl, h_payloads⟩, Or.inr ⟨rfl, h_resp⟩⟩
  exact run_of_meets (fun s es rest room h h_room h_fits => h.pollRead h_lawful h_room h_fits)
    h_ahead h_rooms h_meets

/-- Two messages in one frame, for a destination that has room for both. -/
theorem grpc_read_meets_two : ∃ y,
    sourceRun (GrpcStream.pollRead .base128 .debug) [4, 4] (GrpcStream.new [.ready (.ok ())])
      [.data (wireOf .base128 [[104, 105], [33]]), .ended] = .ok y ∧
    y.put <+: [104, 105, 33] := by
  have h_meets : Meets (GrpcStream.pollRead .base128 .debug) (Fits .base128) [4, 4]
      (GrpcStream.new [.ready (.ok ())])
      [.data (wireOf .base128 [[104, 105], [33]]), .ended] := by
    -- the first poll: both messages are in the one frame that is ahead
    refine ⟨⟨fun h => absurd rfl h, fun _ _ frame es' h_es _ => ?_⟩, fun x h_x _ => ?_⟩
    · obtain ⟨h_frame, -⟩ := List.cons.inj h_es
      cases h_frame
      have h_last : Cut .base128 1 2 [33] := .within (Nat.le_refl 1)
      have h_second : ([104, 105] ++ encodeBuf .base128 [33]).drop 2 =
          [0, 0, 0, 0, 3, 10] ++ (Varint.base128.encode 1 ++ [33]) := rfl
      have h_next : Cut .base128 2 4 ([104, 105] ++ encodeBuf .base128 [33]) :=
        .next (by decide) rfl h_second (by decide) (by decide) h_last
      have h_first : wireOf .base128 [[104, 105], [33]] = [0, 0, 0, 0, 4, 10] ++
          (Varint.base128.encode 2 ++ ([104, 105] ++ encodeBuf .base128 [33])) := rfl
      refine ⟨.next (Nat.zero_le 4) rfl h_first (by decide) (by decide) h_next, Or.inr ?_⟩
      exact ⟨rfl, _, 2, _, rfl, by decide, h_first, by decide⟩
    · -- the second poll: nothing is left but the end
      cases h_x
      refine ⟨⟨fun h => absurd rfl h, fun _ _ frame es' h_es => ?_⟩, fun _ _ _ => trivial⟩
      cases h_es
  have h_payloads : ∀ payload ∈ ([[104, 105], [33]] : List (List UInt8)),
      payload ≠ [] ∧ payload.length < 2 ^ 64 := by decide
  have h_bytes : frameBytes [.data (wireOf .base128 [[104, 105], [33]]), .ended] =
      wireOf .base128 [[104, 105], [33]] := rfl
  obtain ⟨y, h_run, h_pre, -⟩ := grpc_read_meets Varint.base128_lawful .debug h_payloads .ready
    (.data (.ended .nil rfl)) h_bytes (by decide) h_meets
  exact ⟨y, h_run, h_pre⟩

/-- The head of a message that is cut is taken for the end of the stream. -/
theorem grpc_read_cut :
    ¬ ∀ (V : Varint) (p : Profile) (payloads : List (List UInt8))
        (respFut : List (Poll (Except String Unit))) (es : List BodyEvent) (rooms : List ℕ),
      V.Lawful → (∀ payload ∈ payloads, payload ≠ [] ∧ payload.length < 2 ^ 64) →
      Responds respFut → BodyClean es → frameBytes es = wireOf V payloads →
      (∀ room ∈ rooms, 0 < room) →
      ∃ y, sourceRun (GrpcStream.pollRead V p) rooms (GrpcStream.new respFut) es = .ok y ∧
        y.put <+: payloads.flatten ∧ (∀ e, y.how ≠ .failed e) ∧
        (y.how = .ended → y.put = payloads.flatten) := by
  intro h
  obtain ⟨y, h_run, -, -, h_ended⟩ := h .base128 .release [[65]] [.ready (.ok ())]
    [.data [0, 0, 0], .data [0, 3, 10, 1, 65], .ended] [1] Varint.base128_lawful (by decide) .ready
    (.data (.data (.ended .nil rfl))) rfl (by decide)
  cases h_run
  exact absurd (h_ended rfl) (by decide)

end Read

section Write

variable {V : Varint} {buf : List UInt8} {es : List SendEvent} {pos : ℕ}

/-- What is granted is positive and no more than was asked for. -/
def GrantedFor (V : Varint) (buf : List UInt8) (e : SendEvent) : Prop :=
  ∀ n, e = .granted n → 0 < n ∧ n ≤ reserveSendCapacity V buf

/-- A poll that reports `n` bytes has sent a message of just these. -/
def Accounted (V : Varint) (buf : List UInt8) (x : GrpcWrite) : Prop :=
  ∀ n, x.result = .ready (.ok n) → n ≤ buf.length ∧ x.sent = some (encodeBuf V (buf.take n))

/-- The bytes that a copy has passed are in its messages once each, in order. -/
def FramedOnce (V : Varint) (buf : List UInt8) (y : CopyWrites) : Prop :=
  y.pos ≤ buf.length ∧
    ∃ pieces : List (List UInt8), y.sent = pieces.map (encodeBuf V) ∧
      pieces.flatten = buf.take y.pos

/-- The first grant of a schedule, if it comes before the writer fails. -/
def firstGrant : List SendEvent → Option (ℕ × List SendEvent)
  | .pending :: es => firstGrant es
  | .granted n :: es => some (n, es)
  | _ => none

/-- Messages tell their payloads. -/
theorem encodeBuf_inj (h_lawful : V.Lawful) {xs ys : List UInt8} (h_xs : xs.length < 2 ^ 64)
    (h_ys : ys.length < 2 ^ 64) (h : encodeBuf V xs = encodeBuf V ys) : xs = ys := by
  obtain ⟨head, h_head, h_x⟩ := encodeBuf_eq V xs
  obtain ⟨head', h_head', h_y⟩ := encodeBuf_eq V ys
  rw [h_x, h_y] at h
  obtain ⟨-, h_rest⟩ := List.append_inj h (h_head.trans h_head'.symm)
  exact (h_lawful.inj h_xs h_ys h_rest).2

/-- A poll is accounted for if what is granted is the length of the slice. -/
theorem accounted_iff (h_lawful : V.Lawful) (h_len : buf.length < 2 ^ 64) (e : SendEvent) :
    Accounted V buf (pollWrite V buf e) ↔ ∀ n, e = .granted n → n = buf.length := by
  constructor
  · rintro h n rfl
    obtain ⟨h_le, h_sent⟩ := h n rfl
    -- two slices with one encoding are the same, and so are their lengths
    have h_take := encodeBuf_inj h_lawful h_len
      (Nat.lt_of_le_of_lt (List.length_take_le' _ _) h_len) (Option.some.inj h_sent)
    have h_same := congrArg List.length h_take
    rw [List.length_take_of_le h_le] at h_same
    exact h_same.symm
  · intro h n h_result
    cases e with
    | pending => cases h_result
    | refused n message => cases h_result
    | closed => cases h_result
    | granted m =>
      cases h_result
      obtain rfl := h n rfl
      exact ⟨Nat.le_refl _, congrArg some (by rw [List.take_length])⟩

/-- A copy goes on with the first grant. -/
theorem copyWrites_eq (h_pos : pos < buf.length) :
    copyWrites V buf pos es = match firstGrant es with
      | none => ⟨pos, []⟩
      | some (n, es') =>
        if n = 0 then ⟨pos, [encodeBuf V (buf.drop pos)]⟩
        else ⟨(copyWrites V buf (pos + n) es').pos,
          encodeBuf V (buf.drop pos) :: (copyWrites V buf (pos + n) es').sent⟩ := by
  induction es with
  | nil => rfl
  | cons e es ih =>
    rw [copyWrites, if_pos h_pos]
    cases e with
    | pending => exact ih
    | granted n => rfl
    | refused n message => rfl
    | closed => rfl

theorem copyWrites_of_le (h_pos : buf.length ≤ pos) : copyWrites V buf pos es = ⟨pos, []⟩ := by
  cases es with
  | nil => rfl
  | cons e es => exact if_neg (Nat.not_lt_of_le h_pos)

/-- The first grant is one of the schedule. -/
theorem mem_of_firstGrant {n : ℕ} {es' : List SendEvent} (h : firstGrant es = some (n, es')) :
    .granted n ∈ es := by
  induction es with
  | nil => cases h
  | cons e es ih =>
    cases e with
    | pending => exact List.mem_cons_of_mem _ (ih h)
    | granted m => cases h; exact List.mem_cons_self
    | refused m message => cases h
    | closed => cases h

/-- The first message of a copy that is not at its end. -/
theorem copyWrites_sent (es : List SendEvent) (h_pos : pos < buf.length) :
    copyWrites V buf pos es = ⟨pos, []⟩ ∨
      ∃ messages, (copyWrites V buf pos es).sent = encodeBuf V (buf.drop pos) :: messages := by
  rw [copyWrites_eq h_pos]
  split
  · exact Or.inl rfl
  · split
    · exact Or.inr ⟨[], rfl⟩
    · exact Or.inr ⟨_, rfl⟩

/-- A copy frames its bytes once if the first grant is for all of them. -/
theorem framedOnce_iff (h_lawful : V.Lawful) (h_len : buf.length < 2 ^ 64) (h_buf : buf ≠ [])
    (h_es : ∀ n, .granted n ∈ es → 0 < n) :
    FramedOnce V buf (copyWrites V buf 0 es) ↔
      ∀ n es', firstGrant es = some (n, es') → n = buf.length := by
  have h_pos : 0 < buf.length := List.length_pos_iff.mpr h_buf
  rw [copyWrites_eq h_pos]
  cases h_first : firstGrant es with
  | none => exact ⟨fun _ n es' h => (by cases h), fun _ => ⟨Nat.zero_le _, [], rfl, rfl⟩⟩
  | some grant =>
    obtain ⟨n, es'⟩ := grant
    have h_n : 0 < n := h_es n (mem_of_firstGrant h_first)
    dsimp only
    rw [if_neg (Nat.ne_of_gt h_n), Nat.zero_add, List.drop_zero]
    constructor
    · rintro ⟨h_le, pieces, h_sent, h_flat⟩ m es'' h_eq
      cases h_eq
      cases pieces with
      | nil => cases h_sent
      | cons piece pieces =>
        obtain ⟨h_piece, h_rest⟩ := List.cons.inj h_sent
        dsimp only at h_le h_flat
        have h_total := congrArg List.length h_flat
        rw [List.flatten_cons, List.length_append, List.length_take_of_le h_le] at h_total
        obtain rfl := encodeBuf_inj h_lawful h_len (by omega) h_piece
        -- the first message holds all bytes, so nothing may follow
        have h_nil : pieces.flatten = [] := List.length_eq_zero_iff.mp (by omega)
        rcases Nat.lt_trichotomy n buf.length with h_short | h_same | h_long
        · rcases copyWrites_sent (V := V) es' h_short with h_stop | ⟨messages, h_more⟩
          · rw [h_stop] at h_total
            dsimp only at h_total
            omega
          · rw [h_more] at h_rest
            cases pieces with
            | nil => cases h_rest
            | cons piece pieces =>
              have h_piece := (List.append_eq_nil_iff.mp h_nil).1
              have h_drop := encodeBuf_inj h_lawful (by rw [List.length_drop]; omega)
                (h_piece ▸ Nat.two_pow_pos 64) (List.cons.inj h_rest).1
              rw [h_piece] at h_drop
              exact absurd h_short (Nat.not_lt_of_le (List.drop_eq_nil_iff.mp h_drop))
        · exact h_same
        · rw [copyWrites_of_le (Nat.le_of_lt h_long)] at h_le
          exact absurd h_long (Nat.not_lt_of_le h_le)
    · intro h_all
      obtain rfl := h_all n es' rfl
      rw [copyWrites_of_le (Nat.le_refl _)]
      refine ⟨Nat.le_refl _, [buf], rfl, ?_⟩
      rw [List.take_length, List.flatten_singleton]

/-- **The account of the gRPC tunnel.** In any sequence of polls, each one that reports `n`
bytes has sent a message of just these if and only if what is granted is always the length of
the slice; and a copy that resumes where it was told to has framed its bytes once each, in
order, if and only if the first grant is for all of them. -/
theorem grpc_write_iff (h_lawful : V.Lawful) {calls : List (List UInt8 × SendEvent)}
    (h_calls : ∀ call ∈ calls, call.1.length < 2 ^ 64 ∧ GrantedFor V call.1 call.2)
    (h_len : buf.length < 2 ^ 64) (h_buf : buf ≠ []) (h_es : ∀ n, .granted n ∈ es → 0 < n) :
    ((∀ call ∈ calls, Accounted V call.1 (GrpcStream.pollWrite V call.1 call.2)) ↔
      ∀ call ∈ calls, ∀ n, call.2 = .granted n → n = call.1.length) ∧
    (FramedOnce V buf (copyWrites V buf 0 es) ↔
      ∀ n es', firstGrant es = some (n, es') → n = buf.length) := by
  refine ⟨?_, framedOnce_iff h_lawful h_len h_buf h_es⟩
  exact forall₂_congr fun call h_call => accounted_iff h_lawful (h_calls call h_call).1 call.2

/-- A grant for the slice, and one that comes in two. -/
theorem grpc_write_iff_pair :
    (∀ call ∈ [(([1, 2] : List UInt8), SendEvent.pending), ([1, 2], .granted 2)],
      Accounted .base128 call.1 (GrpcStream.pollWrite .base128 call.1 call.2)) ∧
    ¬ FramedOnce .base128 [1, 2] (copyWrites .base128 [1, 2] 0 [.granted 1, .granted 1]) := by
  have h_calls : ∀ call ∈ [(([1, 2] : List UInt8), SendEvent.pending), ([1, 2], .granted 2)],
      call.1.length < 2 ^ 64 ∧ GrantedFor .base128 call.1 call.2 := by
    intro call h_call
    rcases List.mem_pair.mp h_call with rfl | rfl
    · exact ⟨by decide, fun n h_n => (by cases h_n)⟩
    · exact ⟨by decide, fun n h_n => (by cases h_n; decide)⟩
  have h_es : ∀ n, SendEvent.granted n ∈ [.granted 1, .granted 1] → 0 < n := by
    intro n h_n
    rcases List.mem_pair.mp h_n with h_eq | h_eq <;> cases h_eq <;> decide
  have h_buf : ([1, 2] : List UInt8) ≠ [] := by decide
  obtain ⟨h_account, h_framed⟩ :=
    grpc_write_iff Varint.base128_lawful h_calls (by decide) h_buf h_es
  refine ⟨h_account.mpr ?_, fun h => absurd (h_framed.mp h 1 _ rfl) (by decide)⟩
  intro call h_call n h_n
  rcases List.mem_pair.mp h_call with rfl | rfl
  · cases h_n
  · cases h_n; rfl

/-- With all that was asked for granted, more is reported than there is. -/
theorem grpc_write_over :
    ¬ ∀ (V : Varint) (calls : List (List UInt8 × SendEvent)), V.Lawful →
      (∀ call ∈ calls, call.1.length < 2 ^ 64 ∧ GrantedFor V call.1 call.2) →
      ∀ call ∈ calls, Accounted V call.1 (GrpcStream.pollWrite V call.1 call.2) := by
  intro h
  have h_calls : ∀ call ∈ [(([65] : List UInt8), SendEvent.granted 8)],
      call.1.length < 2 ^ 64 ∧ GrantedFor .base128 call.1 call.2 := by
    intro call h_call
    rw [List.mem_singleton.mp h_call]
    exact ⟨by decide, fun n h_n => (by cases h_n; decide)⟩
  have h_call := h .base128 _ Varint.base128_lawful h_calls _ List.mem_cons_self
  exact absurd (h_call 8 rfl).1 (by decide)

end Write

end V2ray

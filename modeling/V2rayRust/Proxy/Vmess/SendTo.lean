import V2rayRust.Lib.ChunkSlice
import V2rayRust.Proxy.Address
import V2rayRust.Proxy.Vmess.WriteHeader

/-!
# Datagrams over a VMess stream

`poll_send_to` of `proxy/vmess/vmess_stream.rs` writes a datagram as it writes a slice of a byte
stream: as much of it as a chunk may hold. So a datagram is sent whole exactly if it fits into a
chunk (`sendTo_whole_iff`).

A call first writes what is left of the request header, and then polls the writer with the datagram
as its slice (`Sends`). The writer may have been used for anything before: in every state that polls
lead to it is between two chunks when a datagram begins (`atRest_of_reaches`), so the chunk that is
written then is that of the datagram.
-/

namespace V2ray

/-- What `send_to` depends on besides the stream: the ciphers, whether `strict-vmess-udp` is on, and
the address of the handshake, which is `option.addr`. -/
structure VmessUdp where
  aead : Aead
  profile : Profile
  strict : Bool
  addr : Address

/-- What the polls for a datagram leave. -/
structure VmessSendRun where
  state : VmessSender
  events : List WriteEvent
  result : Poll (Except String ℕ)
  /-- the bytes that the stream below has taken -/
  out : List UInt8

/-- What is left of the request header. -/
def VmessSender.headerLeft (s : VmessSender) : List UInt8 :=
  match s.state2 with
  | .header => s.headerBuffer.drop s.headerPos
  | _ => []

namespace VmessUdp

/-- `poll_send_to` -/
def pollSendTo (u : VmessUdp) (s : VmessSender) (ws : List WriteEvent) (buf : List UInt8)
    (target : Address) : Except Fault SenderPoll :=
  if u.strict ∧ u.addr ≠ target then
    .ok ⟨s, ws, .ready (.error
      ("Vmess can't change target udp address different from first packet. " ++
      "Try using a full-cone protocol instead.")), [], []⟩
  else s.pollWriteHeader u.aead u.profile ws buf

/-- `send_to(..).await`, as far as so many polls get. -/
def sendTo (u : VmessUdp) (buf : List UInt8) (target : Address) :
    ℕ → VmessSender → List WriteEvent → Except Fault VmessSendRun
  | 0, s, ws => .ok ⟨s, ws, .pending, []⟩
  | polls + 1, s, ws => do
    let x ← u.pollSendTo s ws buf target
    match x.result with
    | .pending => do
      let y ← sendTo u buf target polls x.state x.events
      return { y with out := x.out ++ y.out }
    | .ready r => return ⟨x.state, x.events, .ready r, x.out⟩

/-- A new stream after any traffic: reads, and datagrams that were sent or failed. -/
inductive Reaches (u : VmessUdp) : VmessSender → Prop
  | new {D : Digests} {securityNum : ℕ} {salt : Vector UInt8 64} {stream : VmessStream}
      (header : List UInt8) (new_eq : VmessStream.new D securityNum salt = .ok stream) :
      Reaches u (.new stream header)
  | recv {s : VmessSender} {es : List ReadEvent} {room : ℕ} {x : ReadPoll VmessStream}
      (before : Reaches u s)
      (recv_eq : s.toVmessStream.privPollRead u.aead u.profile es room = .ok x) :
      Reaches u { s with toVmessStream := x.state }
  | send {s : VmessSender} {buf : List UInt8} {target : Address} {polls : ℕ}
      {ws : List WriteEvent} {x : VmessSendRun} {r : Except String ℕ} (before : Reaches u s)
      (send_eq : u.sendTo buf target polls s ws = .ok x) (ready : x.result = .ready r) :
      Reaches u x.state

/-- `Ok(n)` is the whole datagram, and one chunk with all of it has been written behind what was
left of the request header. -/
def SendsWhole (u : VmessUdp) (s : VmessSender) (buf : List UInt8) (n : ℕ) (out : List UInt8) :
    Prop :=
  n = buf.length ∧ ∃ c' chunk, (VmessAeadWriter.format u.aead u.profile).chunk s.writer.cipher buf =
    .ok (c', chunk) ∧ out = s.headerLeft ++ chunk

/-- What is so while a datagram is sent by `s`, and `out` has been written for it. -/
inductive Sending (u : VmessUdp) (s : VmessSender) (buf : List UInt8) (s' : VmessSender) :
    List UInt8 → Prop
  | header {out : List UInt8} (state_eq : s'.state2 = .header) (atRest : s'.writer.AtRest)
      (cipher_eq : s'.writer.cipher = s.writer.cipher)
      (out_eq : out ++ s'.headerLeft = s.headerLeft) : Sending u s buf s' out
  | body {out : List UInt8} (state_eq : s'.state2 = .streaming)
      (chunk :
        ChunkOut (VmessAeadWriter.format u.aead u.profile) s.writer.cipher buf s'.writer out) :
      Sending u s buf s' (s.headerLeft ++ out)
  | done {out : List UInt8} (state_eq : s'.state2 = .done) (atRest : s'.writer.AtRest) :
      Sending u s buf s' out

/-- What a poll leaves, or all of them. -/
inductive Sends (u : VmessUdp) (s : VmessSender) (buf out : List UInt8) (s' : VmessSender) :
    Poll (Except String ℕ) → Prop
  | pending (sending : Sending u s buf s' out) : Sends u s buf out s' .pending
  | whole {c' : VmessAead} {chunk : List UInt8} (atRest : s'.writer.AtRest)
      (chunk_eq : (VmessAeadWriter.format u.aead u.profile).chunk s.writer.cipher
        (buf.take (chunkSize - 16)) = .ok (c', chunk))
      (out_eq : out = s.headerLeft ++ chunk) :
      Sends u s buf out s' (.ready (.ok (buf.take (chunkSize - 16)).length))
  | ended {n : ℕ} (nil : buf = []) (atRest : s'.writer.AtRest) :
      Sends u s buf out s' (.ready (.ok n))
  | failed {message : String} (atRest : s'.writer.AtRest) :
      Sends u s buf out s' (.ready (.error message))

variable {u : VmessUdp} {s s' : VmessSender} {ws : List WriteEvent} {buf out : List UInt8}
  {target : Address} {x : SenderPoll} {polls : ℕ}

/-- A poll of the writer. -/
theorem sends_streamData
    (h : ChunkOut (VmessAeadWriter.format u.aead u.profile) s.writer.cipher buf s'.writer out)
    (h_poll : s'.streamData u.aead u.profile ws buf = .ok x) :
    Sends u s buf (s.headerLeft ++ out ++ x.out) x.state x.result := by
  obtain ⟨y, h_write, h_poll⟩ := bind_eq_ok.mp h_poll
  cases h_poll
  dsimp only
  rw [List.append_assoc]
  cases chunkOut_pollWrite h h_write with
  | pending result_eq chunk =>
    rw [result_eq]
    exact .pending (.body rfl chunk)
  | whole result_eq chunk_eq atRest =>
    rw [result_eq]
    exact .whole atRest chunk_eq rfl
  | ended result_eq nil atRest =>
    rw [result_eq]
    exact .ended nil atRest
  | failed result_eq atRest =>
    rw [result_eq]
    exact .failed atRest

/-- What a write takes of the request header. -/
theorem take_header (header : List UInt8) (pos n : ℕ) :
    (header.drop pos).take n ++ header.drop (pos + ((header.drop pos).take n).length) =
      header.drop pos := by
  rw [← List.drop_drop]
  exact List.prefix_iff_eq_append.mp (List.take_prefix n (header.drop pos))

/-- A poll of `poll_write_header`. -/
theorem sends_poll (h : Sending u s buf s' out)
    (h_poll : s'.pollWriteHeader u.aead u.profile ws buf = .ok x) :
    Sends u s buf (out ++ x.out) x.state x.result := by
  unfold VmessSender.pollWriteHeader at h_poll
  cases h with
  | header state_eq atRest cipher_eq out_eq =>
    rw [state_eq] at h_poll
    dsimp only at h_poll
    have h_left : s'.headerLeft = s'.headerBuffer.drop s'.headerPos := by
      unfold VmessSender.headerLeft
      rw [state_eq]
    rw [h_left] at out_eq
    -- a poll that comes to the data, when all of the header has been written
    have h_data {t : VmessSender} {y : SenderPoll} {ws' : List WriteEvent}
        (h_y : t.streamData u.aead u.profile ws' buf = .ok y) (h_t : t.writer = s'.writer) :
        Sends u s buf (s.headerLeft ++ y.out) y.state y.result := by
      have h_chunk := atRest.chunkOut (VmessAeadWriter.format u.aead u.profile) buf
      rw [cipher_eq, ← h_t] at h_chunk
      have h_sends := sends_streamData h_chunk h_y
      rwa [List.append_nil] at h_sends
    have h_same : Sending u s buf s' (out ++ []) := by
      rw [List.append_nil]
      exact .header state_eq atRest cipher_eq (by rw [h_left, out_eq])
    split at h_poll
    · next h_lt =>
      match ws with
      | [] =>
        cases h_poll
        exact .pending h_same
      | .pending :: ws =>
        cases h_poll
        exact .pending h_same
      | .err message :: ws =>
        cases h_poll
        exact .failed atRest
      | .accept n :: ws =>
        dsimp only at h_poll
        have h_take := take_header s'.headerBuffer s'.headerPos n
        split at h_poll
        · cases h_poll
          refine .pending (.header rfl atRest cipher_eq ?_)
          rw [List.append_assoc]
          exact (congrArg (out ++ ·) h_take).trans out_eq
        · next h_all =>
          obtain ⟨y, h_y, h_poll⟩ := bind_eq_ok.mp h_poll
          cases h_poll
          rw [List.drop_eq_nil_of_le (Nat.le_of_not_lt h_all), List.append_nil] at h_take
          have h_sends := h_data h_y rfl
          rwa [← out_eq, ← h_take, List.append_assoc] at h_sends
    · next h_all =>
      rw [List.drop_eq_nil_of_le (Nat.le_of_not_lt h_all), List.append_nil] at out_eq
      rw [out_eq]
      exact h_data h_poll rfl
  | body state_eq chunk =>
    rw [state_eq] at h_poll
    exact sends_streamData chunk h_poll
  | done state_eq atRest =>
    rw [state_eq] at h_poll
    cases h_poll
    exact .failed atRest

/-- Before the first poll. -/
theorem sending_start (h : s.writer.AtRest) (u : VmessUdp) (buf : List UInt8) :
    Sending u s buf s [] := by
  cases h_state : s.state2 with
  | header => exact .header h_state h rfl (List.nil_append _)
  | streaming =>
    have h_left : s.headerLeft = [] := by
      unfold VmessSender.headerLeft
      rw [h_state]
    have h_sending : Sending u s buf s (s.headerLeft ++ []) := .body h_state (h.chunkOut _ _)
    rwa [h_left] at h_sending
  | done => exact .done h_state h

/-- Polls of a datagram go on with its chunk. -/
theorem sends_polls {y : VmessSendRun} (h_target : ¬ (u.strict ∧ u.addr ≠ target))
    (h : Sending u s buf s' out) (h_send : u.sendTo buf target polls s' ws = .ok y) :
    Sends u s buf (out ++ y.out) y.state y.result := by
  -- on the polls; what is written in a pending one is carried on
  induction polls generalizing s' ws out y with
  | zero =>
    cases h_send
    refine .pending ?_
    rwa [List.append_nil]
  | succ polls ih =>
    obtain ⟨x, h_poll, h_send⟩ := bind_eq_ok.mp h_send
    unfold pollSendTo at h_poll
    rw [if_neg h_target] at h_poll
    have h_sends := sends_poll h h_poll
    generalize h_result : x.result = result at h_send h_sends
    cases result with
    | pending =>
      obtain ⟨y, h_rest, h_send⟩ := bind_eq_ok.mp h_send
      cases h_send
      cases h_sends with
      | pending sending =>
        have h_later := ih sending h_rest
        rwa [List.append_assoc] at h_later
    | ready r =>
      cases h_send
      exact h_sends

/-- **The polls for a datagram**, of a stream that is not within another one. -/
theorem sends_sendTo {y : VmessSendRun} (h_rest : s.writer.AtRest)
    (h_send : u.sendTo buf target polls s ws = .ok y) : Sends u s buf y.out y.state y.result := by
  by_cases h_target : u.strict ∧ u.addr ≠ target
  · cases polls with
    | zero =>
      cases h_send
      exact .pending (sending_start h_rest u buf)
    | succ polls =>
      obtain ⟨x, h_poll, h_send⟩ := bind_eq_ok.mp h_send
      unfold pollSendTo at h_poll
      rw [if_pos h_target] at h_poll
      cases h_poll
      cases h_send
      exact .failed h_rest
  · exact sends_polls h_target (sending_start h_rest u buf) h_send

/-- A read leaves the writer as it is. -/
theorem writer_of_privPollRead {t : VmessStream} {A : Aead} {p : Profile} {es : List ReadEvent}
    {room : ℕ} {y : ReadPoll VmessStream} (h : t.privPollRead A p es room = .ok y) :
    y.state.writer = t.writer := by
  have h_streaming {t : VmessStream} {es : List ReadEvent}
      (h : t.streaming A p es room = .ok y) : y.state.writer = t.writer := by
    obtain ⟨z, -, h⟩ := bind_eq_ok.mp h
    cases h
    rfl
  unfold VmessStream.privPollRead at h
  -- waiting for the response, reading the body, or at the end
  split at h
  · obtain ⟨z, h_wait, h⟩ := bind_eq_ok.mp h
    obtain ⟨x, -, h_wait⟩ := bind_eq_ok.mp h_wait
    split at h_wait <;> cases h_wait
    · cases h
      rfl
    · cases h
      rfl
    · have h_writer := h_streaming h
      exact h_writer
  · exact h_streaming h
  · cases h
    rfl

/-- **Between two datagrams**, whatever the traffic before, no chunk is half written. -/
theorem atRest_of_reaches (h : Reaches u s) : s.writer.AtRest := by
  induction h with
  | new header new_eq =>
    unfold VmessStream.new at new_eq
    dsimp only at new_eq
    split at new_eq <;> cases new_eq <;> exact .idle rfl rfl
  | recv before recv_eq ih =>
    rw [writer_of_privPollRead recv_eq]
    exact ih
  | send before send_eq ready ih =>
    have h_sends := sends_sendTo ih send_eq
    rw [ready] at h_sends
    cases h_sends with
    | whole atRest _ _ => exact atRest
    | ended _ atRest => exact atRest
    | failed atRest => exact atRest

/-- **Whole datagrams.** After any traffic, over any stream, a datagram for which `poll_send_to` is
ready with `Ok` has been sent whole, as one chunk, if and only if it fits into a chunk. -/
theorem sendTo_whole_iff {n : ℕ} {y : VmessSendRun} (h_reaches : Reaches u s) (h_buf : buf ≠ [])
    (h_send : u.sendTo buf target polls s ws = .ok y) (h_ok : y.result = .ready (.ok n)) :
    SendsWhole u s buf n y.out ↔ buf.length ≤ chunkSize - 16 := by
  have h_sends := sends_sendTo (atRest_of_reaches h_reaches) h_send
  rw [h_ok] at h_sends
  cases h_sends with
  | @whole c' chunk atRest chunk_eq out_eq =>
    constructor
    · rintro ⟨h_len, -⟩
      rw [← h_len]
      exact List.length_take_le _ _
    · intro h_le
      rw [List.take_of_length_le h_le] at chunk_eq ⊢
      exact ⟨rfl, c', chunk, chunk_eq, out_eq⟩
  | ended nil atRest => exact absurd nil h_buf

/-- One byte, whose header and chunk go out in three polls. -/
theorem sendTo_whole_one : ∃ stream y,
    VmessStream.new .zeros 3 (Vector.replicate 64 0) = .ok stream ∧
    let u : VmessUdp := ⟨.tagged, .debug, false, .domainNameAddress "a" 53⟩
    u.sendTo [7] u.addr 2 (.new stream [1, 2]) [.accept 2, .accept 18, .pending, .accept 1] =
      .ok y ∧
      (SendsWhole u (.new stream [1, 2]) [7] 1 y.out ↔ [(7 : UInt8)].length ≤ chunkSize - 16) := by
  have h_stream : ∃ stream, VmessStream.new .zeros 3 (Vector.replicate 64 0) = .ok stream :=
    ⟨_, rfl⟩
  obtain ⟨stream, h_stream⟩ := h_stream
  let u : VmessUdp := ⟨.tagged, .debug, false, .domainNameAddress "a" 53⟩
  have h_send : ∃ y, u.sendTo [7] u.addr 2 (.new stream [1, 2])
      [.accept 2, .accept 18, .pending, .accept 1] = .ok y ∧ y.result = .ready (.ok 1) := by
    cases h_stream
    exact ⟨_, rfl, rfl⟩
  obtain ⟨y, h_send, h_ok⟩ := h_send
  exact ⟨stream, y, h_stream, h_send,
    sendTo_whole_iff (.new [1, 2] h_stream) (List.cons_ne_nil _ _) h_send h_ok⟩

/-- A stream that takes the header at once, and then the chunk: what fits into it is sent. -/
theorem sendTo_takes {stream : VmessStream} {header : List UInt8} (h_inPlace : u.aead.InPlace)
    (h_release : u.profile = .release) (h_header : header ≠ []) (h_buf : buf ≠ [])
    (h_stage : stream.writer.stage = .idle) (h_buffer : stream.writer.buffer = []) :
    ∃ y, u.sendTo buf u.addr 1 (.new stream header)
        [.accept header.length, .accept ((buf.take (chunkSize - 16)).length + 18)] = .ok y ∧
      y.result = .ready (.ok (buf.take (chunkSize - 16)).length) := by
  have h_chunk := vmess_chunk_release u.aead stream.writer.cipher (buf.take (chunkSize - 16))
  rw [← h_release] at h_chunk
  generalize h_frame : beBytes 2 _ ++ _ = frame at h_chunk
  have h_len : frame.length = (buf.take (chunkSize - 16)).length + 18 := by
    rw [← h_frame, List.length_append, length_beBytes, h_inPlace.length_encrypt, tagSize]
    omega
  have h_ne : frame ≠ [] := List.length_pos_iff.mp (by omega)
  have h_write := writeData_accept h_ne (Nat.le_of_eq h_len) []
  rw [← List.nil_append frame, ← h_buffer] at h_write
  have h_chunk' : (VmessAeadWriter.format u.aead u.profile).chunk stream.writer.cipher
      (buf.take (chunkSize - 16)) = _ := h_chunk
  have h_poll := pollWrite_whole h_stage (fun _ => h_buf) h_chunk' h_write
  -- the header is taken, and the data comes in the same poll
  have h_all : ¬ 0 + (header.take header.length).length < header.length := by
    rw [List.take_length, Nat.zero_add]
    exact Nat.lt_irrefl _
  have h_call : ∃ x, u.pollSendTo (.new stream header)
      [.accept header.length, .accept ((buf.take (chunkSize - 16)).length + 18)] buf u.addr =
      .ok x ∧ x.result = .ready (.ok (buf.take (chunkSize - 16)).length) := by
    unfold pollSendTo
    rw [if_neg (fun h => h.2 rfl)]
    change ∃ x, (if 0 < header.length then
      if 0 + (header.take header.length).length < header.length then _
      else _
    else _ : Except Fault SenderPoll) = .ok x ∧ _
    rw [if_pos (List.length_pos_iff.mpr h_header), if_neg h_all]
    unfold VmessSender.streamData
    change ∃ x, ((ChunkWriter.pollWrite _ stream.writer _ _ >>= _) >>= _) = Except.ok x ∧ _
    rw [h_poll]
    exact ⟨_, rfl, rfl⟩
  obtain ⟨x, h_call, h_result⟩ := h_call
  refine ⟨⟨x.state, x.events, .ready (.ok (buf.take (chunkSize - 16)).length), x.out⟩, ?_, rfl⟩
  rw [sendTo, h_call, ok_bind, h_result]
  rfl

/-- A datagram of one byte more than a chunk may hold is cut, and the last byte is not sent. -/
theorem sendTo_cut : ∃ stream y,
    VmessStream.new .zeros 3 (Vector.replicate 64 0) = .ok stream ∧
    let u : VmessUdp := ⟨.tagged, .release, false, .domainNameAddress "a" 53⟩
    u.sendTo (List.replicate 16369 7) u.addr 1 (.new stream [1, 2]) [.accept 2, .accept 16386] =
      .ok y ∧ y.result = .ready (.ok 16368) ∧
      ¬ SendsWhole u (.new stream [1, 2]) (List.replicate 16369 7) 16368 y.out := by
  have h_stream : ∃ stream, VmessStream.new .zeros 3 (Vector.replicate 64 0) = .ok stream ∧
      stream.writer.stage = .idle ∧ stream.writer.buffer = [] := ⟨_, rfl, rfl, rfl⟩
  obtain ⟨stream, h_stream, h_stage, h_buffer⟩ := h_stream
  have h_len : ((List.replicate 16369 (7 : UInt8)).take (chunkSize - 16)).length = 16368 := by
    rw [List.length_take, List.length_replicate]
    rfl
  have h_buf : List.replicate 16369 (7 : UInt8) ≠ [] :=
    List.length_pos_iff.mp (by rw [List.length_replicate]; decide)
  obtain ⟨y, h_send, h_ok⟩ := sendTo_takes
    (u := ⟨.tagged, .release, false, .domainNameAddress "a" 53⟩)
    Aead.tagged_lawful.toInPlace rfl (List.cons_ne_nil 1 [2]) h_buf h_stage h_buffer
  rw [h_len] at h_send h_ok
  refine ⟨stream, y, h_stream, h_send, h_ok, fun ⟨h_whole, _⟩ => ?_⟩
  rw [List.length_replicate] at h_whole
  cases h_whole

end VmessUdp

end V2ray

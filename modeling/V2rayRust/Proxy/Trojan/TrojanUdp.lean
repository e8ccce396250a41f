import V2rayRust.Lib.FramedReader
import V2rayRust.Proxy.AddressWire
import V2rayRust.Proxy.Trojan.TrojanStream

/-!
# Datagrams over Trojan

`TrojanUdpStream`: a stream of frames, each a head and a payload. Its reader waits for two bytes,
which tell how long the head is, then for the head, then for the payload, and puts the payload
into the destination. The address goes from the reader to `poll_recv_from` in a field.

What the writer writes for a sequence of datagrams, the reader gives back, one datagram for each
result of `poll_recv_from` (`TrojanUdpReader.roundTrip`).
-/

namespace V2ray

structure Datagram where
  addr : Address
  payload : List UInt8
  deriving DecidableEq

namespace Datagram

def head (d : Datagram) : List UInt8 := trojanHead d.addr d.payload

def frame (d : Datagram) : List UInt8 := d.head ++ d.payload

/-- The frames of a sequence of datagrams. -/
def frames (ds : List Datagram) : List UInt8 := ds.flatMap frame

/-- The datagrams that the format can express, but for those without a payload. -/
structure Fits (d : Datagram) : Prop where
  encodable : d.addr.Encodable
  payload_pos : 0 < d.payload.length
  payload_le : d.payload.length ≤ 65535

end Datagram

/-! ### The reader -/

/-- Where `priv_poll_read` is suspended: at one of its calls of `read_at_least`, in the loop that
puts the payload, or it has returned. -/
inductive TrojanReadStage
  | kind
  | head
  | payload
  | put
  | done
  deriving DecidableEq, Repr

structure TrojanUdpReader where
  stage : TrojanReadStage
  addr : Address
  buffer : List UInt8
  dataLength : ℕ
  deriving DecidableEq

namespace TrojanUdpReader

open Cursor

def new : TrojanUdpReader := ⟨.kind, Address.newDummyAddress, [], 0⟩

/-- The length of a head, from its first two bytes. -/
def headLength : List UInt8 → Except Stop ℕ
  | t :: n :: _ =>
    if t = 0x01 then .ok (1 + 4 + 2 + 4)
    else if t = 0x4 then .ok (1 + 16 + 2 + 4)
    else if t = 0x3 then .ok (2 + n.toNat + 2 + 4)
    else .error (.err ("not supported address type " ++ hexText t))
  | _ => .error (.fault .outOfBounds)

/-- The head at the front of the buffer: the address, the length of the payload, and what comes
after it. -/
def readHead (buffer : List UInt8) : Except Stop ((Address × ℕ) × List UInt8) := do
  let addr ← Address.readFromBuf buffer
  StateT.run (do
    let _ ← copyToSlice addr.serializedLen
    let dataLength ← getBe 2
    let _ ← copyToSlice 2
    return (addr, dataLength)) buffer

/-- A round of the loop: it goes on, or it leaves the poll. -/
inductive Round
  | next (r : TrojanUdpReader) (es : List ReadEvent)
  | leave (x : ReadPoll TrojanUdpReader)

/-- A wait for bytes that does not end with a full buffer. With `read_zero` the end of the stream is
no error. -/
def unfilled (r : TrojanUdpReader) (es : List ReadEvent) : Filled → ReadPoll TrojanUdpReader
  | .full | .pending => ⟨r, es, .pending, []⟩
  | .ended => ⟨{ r with stage := .done }, es, .ready (.ok ()), []⟩
  | .err message => ⟨{ r with stage := .done }, es, .ready (.error message), []⟩

/-- The end of a poll with an error, or with a panic. The model is done after an error. An error that
is left by `?` or by `return` does not move the state of the coroutine: the next poll would repeat
the step on what the buffer still holds, and deliver as little as a reader that is done. -/
def fail (r : TrojanUdpReader) (es : List ReadEvent) : Stop → Except Fault Round
  | .err message => .ok (.leave ⟨{ r with stage := .done }, es, .ready (.error message), []⟩)
  | .fault f => .error f

/-- The loop, stage by stage. `room` is what is free in the destination. -/
def round (r : TrojanUdpReader) (es : List ReadEvent) (room : ℕ) : Except Fault Round :=
  match r.stage with
  | .kind =>
    match readAtLeast 2 r.buffer es with
    | (.full, buffer, es) =>
      match headLength buffer with
      | .ok dataLength => .ok (.next { r with stage := .head, buffer, dataLength } es)
      | .error e => fail { r with buffer } es e
    | (f, buffer, es) => .ok (.leave (unfilled { r with buffer } es f))
  | .head =>
    match readAtLeast r.dataLength r.buffer es with
    | (.full, buffer, es) =>
      match readHead buffer with
      | .ok ((addr, dataLength), buffer) => .ok (.next ⟨.payload, addr, buffer, dataLength⟩ es)
      | .error e => fail { r with buffer } es e
    | (f, buffer, es) => .ok (.leave (unfilled { r with buffer } es f))
  | .payload =>
    match readAtLeast r.dataLength r.buffer es with
    | (.full, buffer, es) => .ok (.next { r with stage := .put, buffer } es)
    | (f, buffer, es) => .ok (.leave (unfilled { r with buffer } es f))
  | .put =>
    -- `calc_data_to_put`
    let minimalDataToPut := min r.dataLength room
    if minimalDataToPut ≠ 0 then do
      let (put, buffer) ← splitTo minimalDataToPut r.buffer
      return .leave ⟨{ r with buffer, dataLength := r.dataLength - minimalDataToPut }, es,
        .ready (.ok ()), put⟩
    -- what is left of the payload is taken for a head if the destination has no room
    else .ok (.next { r with stage := .kind } es)
  | .done => .ok (.leave ⟨r, es, .ready (.error "unexpected end of file"), []⟩)

/-- Rounds until one leaves the poll. -/
def pollLoop (room : ℕ) :
    ℕ → TrojanUdpReader → List ReadEvent → Except Fault (ReadPoll TrojanUdpReader)
  | 0, _, _ => .error .diverge
  | n + 1, r, es => do
    match ← r.round es room with
    | .next r es => pollLoop room n r es
    | .leave x => return x

/-- A bound on the rounds of a poll: a frame takes four of them, and a head has some bytes. -/
def rounds (r : TrojanUdpReader) (es : List ReadEvent) : ℕ :=
  4 * (r.buffer.length + (bytesOf es).length) +
    match r.stage with
    | .kind => 1
    | .head => 0
    | .payload => 3
    | .put => 2
    | .done => 0

def privPollRead (r : TrojanUdpReader) (es : List ReadEvent) (room : ℕ) :
    Except Fault (ReadPoll TrojanUdpReader) :=
  pollLoop room (r.rounds es + 1) r es

/-- What `poll_recv_from` leaves: its answer, and what it put into the destination. -/
structure Recv where
  state : TrojanUdpReader
  events : List ReadEvent
  result : Poll (Except String Address)
  put : List UInt8

def takeAddr (r : TrojanUdpReader) : Address × TrojanUdpReader :=
  (r.addr, { r with addr := Address.newDummyAddress })

/-- `poll_recv_from` -/
def pollRecvFrom (r : TrojanUdpReader) (es : List ReadEvent) (room : ℕ) : Except Fault Recv := do
  let x ← r.privPollRead es room
  match x.result with
  | .pending => return ⟨x.state, x.events, .pending, x.put⟩
  | .ready (.error message) => return ⟨x.state, x.events, .ready (.error message), x.put⟩
  | .ready (.ok ()) =>
    let (addr, state) := x.state.takeAddr
    return ⟨state, x.events, .ready (.ok addr), x.put⟩

/-- The results of so many polls that are ready. The destination of a poll has `room n k` bytes when
`n` polls are to come after it, and `k` were ready before. -/
def recvRun (room : ℕ → ℕ → ℕ) :
    ℕ → ℕ → TrojanUdpReader → List ReadEvent → Except Fault (List (Except String Datagram))
  | 0, _, _, _ => .ok []
  | n + 1, k, r, es => do
    let x ← r.pollRecvFrom es (room n k)
    match x.result with
    | .pending => recvRun room n k x.state x.events
    | .ready answer =>
      let results ← recvRun room n (k + 1) x.state x.events
      return (answer.map fun addr => ⟨addr, x.put⟩) :: results

end TrojanUdpReader

/-! ### Sending -/

/-- What a run of `poll_send_to` has written, and what it has not been able to send. -/
structure SendRun where
  out : List UInt8
  left : List Datagram

namespace TrojanUdpWriter

/-- So many polls of `poll_send_to`, with the first of the datagrams until it is sent, and then with
the next one. -/
def sendRun : ℕ → List Datagram → TrojanUdpWriter → List WriteEvent → SendRun
  | 0, ds, _, _ => ⟨[], ds⟩
  | _ + 1, [], _, _ => ⟨[], []⟩
  | n + 1, d :: ds, w, ws =>
    let x := w.privPollWrite ws d.payload d.addr
    match x.result with
    | .pending =>
      let y := sendRun n (d :: ds) x.state x.events
      { y with out := x.out ++ y.out }
    | .ready (.ok _) =>
      let y := sendRun n ds x.state x.events
      { y with out := x.out ++ y.out }
    | .ready (.error _) => ⟨x.out, d :: ds⟩

end TrojanUdpWriter

/-! ### The rounds of a poll -/

namespace TrojanUdpReader

variable {r r' : TrojanUdpReader} {es es' : List ReadEvent} {room : ℕ}

/-- What a round that goes on does. -/
inductive Next (r : TrojanUdpReader) (es : List ReadEvent) (room : ℕ) :
    TrojanUdpReader → List ReadEvent → Prop
  | kind {buffer : List UInt8} {es' : List ReadEvent} {dataLength : ℕ} (stage_eq : r.stage = .kind)
      (read_eq : readAtLeast 2 r.buffer es = (.full, buffer, es'))
      (length_eq : headLength buffer = .ok dataLength) :
      Next r es room { r with stage := .head, buffer, dataLength } es'
  | head {buffer rest : List UInt8} {es' : List ReadEvent} {addr : Address} {dataLength : ℕ}
      (stage_eq : r.stage = .head)
      (read_eq : readAtLeast r.dataLength r.buffer es = (.full, buffer, es'))
      (head_eq : readHead buffer = .ok ((addr, dataLength), rest)) :
      Next r es room ⟨.payload, addr, rest, dataLength⟩ es'
  | payload {buffer : List UInt8} {es' : List ReadEvent} (stage_eq : r.stage = .payload)
      (read_eq : readAtLeast r.dataLength r.buffer es = (.full, buffer, es')) :
      Next r es room { r with stage := .put, buffer } es'
  | put (stage_eq : r.stage = .put) (nothing : min r.dataLength room = 0) :
      Next r es room { r with stage := .kind } es

theorem fail_ne_next {e : Stop} : fail r es e ≠ .ok (.next r' es') := by
  cases e <;> intro h <;> cases h

/-- A round that goes on is one of `Next`. -/
theorem next_of_round (h : r.round es room = .ok (.next r' es')) : Next r es room r' es' := by
  unfold round at h
  cases h_stage : r.stage with
  | kind =>
    rw [h_stage] at h
    rcases h_read : readAtLeast 2 r.buffer es with ⟨f, buffer, es₁⟩
    rw [h_read] at h
    cases f with
    | full =>
      -- a round goes on only if its bytes are there and are well formed
      dsimp only at h
      cases h_length : headLength buffer with
      | ok dataLength => rw [h_length] at h; cases h; exact .kind h_stage h_read h_length
      | error e => rw [h_length] at h; exact absurd h fail_ne_next
    | pending | ended | err => cases h
  | head =>
    rw [h_stage] at h
    rcases h_read : readAtLeast r.dataLength r.buffer es with ⟨f, buffer, es₁⟩
    rw [h_read] at h
    cases f with
    | full =>
      dsimp only at h
      cases h_head : readHead buffer with
      | ok x => rw [h_head] at h; cases h; exact .head h_stage h_read h_head
      | error e => rw [h_head] at h; exact absurd h fail_ne_next
    | pending | ended | err => cases h
  | payload =>
    rw [h_stage] at h
    rcases h_read : readAtLeast r.dataLength r.buffer es with ⟨f, buffer, es₁⟩
    rw [h_read] at h
    cases f with
    | full => cases h; exact .payload h_stage h_read
    | pending | ended | err => cases h
  | put =>
    rw [h_stage] at h
    dsimp only at h
    split at h
    · -- the payload is put in parts, until nothing of it is left
      obtain ⟨_, _, h⟩ := bind_eq_ok.mp h
      cases h
    · next h_zero => cases h; exact .put h_stage (not_not.mp h_zero)
  | done => rw [h_stage] at h; cases h

/-- And the other way round. -/
theorem round_of_next (h : Next r es room r' es') : r.round es room = .ok (.next r' es') := by
  obtain ⟨stage, addr, buffer₀, dataLength⟩ := r
  -- each case has what its stage looks at
  cases h with
  | kind stage_eq read_eq length_eq =>
    cases stage_eq
    unfold round
    dsimp only at read_eq ⊢
    rw [read_eq]
    dsimp only
    rw [length_eq]
  | head stage_eq read_eq head_eq =>
    cases stage_eq
    unfold round
    dsimp only at read_eq ⊢
    rw [read_eq]
    dsimp only
    rw [head_eq]
  | payload stage_eq read_eq =>
    cases stage_eq
    unfold round
    dsimp only at read_eq ⊢
    rw [read_eq]
  | put stage_eq nothing =>
    cases stage_eq
    exact if_neg (not_not.mpr nothing)

/-- How many bytes the reader waits for. -/
def wants (r : TrojanUdpReader) : Option ℕ :=
  match r.stage with
  | .kind => some 2
  | .head | .payload => some r.dataLength
  | .put | .done => none

/-- A round that has too few bytes leaves. -/
theorem round_of_wait {n : ℕ} {f : Filled} {buffer : List UInt8} (h : r.wants = some n)
    (h_read : readAtLeast n r.buffer es = (f, buffer, es')) (h_full : f ≠ .full) :
    r.round es room = .ok (.leave (unfilled { r with buffer } es' f)) := by
  obtain ⟨stage, addr, buffer₀, dataLength⟩ := r
  unfold round
  cases stage with
  | kind | head | payload =>
    cases h
    dsimp only at h_read ⊢
    rw [h_read]
    cases f with
    | full => exact absurd rfl h_full
    | pending | ended | err => rfl
  | put | done => cases h

/-- A head is taken off the front of the buffer. -/
theorem readHead_eq_ok {buffer rest : List UInt8} {addr : Address} {n : ℕ}
    (h : readHead buffer = .ok ((addr, n), rest)) :
    Address.readFromBuf buffer = .ok addr ∧ addr.serializedLen + 4 ≤ buffer.length ∧
      n = ofBeBytes ((buffer.drop addr.serializedLen).take 2) ∧
      rest = buffer.drop (addr.serializedLen + 4) := by
  obtain ⟨addr', h_addr, h⟩ := bind_eq_ok.mp h
  obtain ⟨x, h_x, h⟩ := bind_eq_ok.mp h
  obtain ⟨y, h_y, h⟩ := bind_eq_ok.mp h
  obtain ⟨z, h_z, h⟩ := bind_eq_ok.mp h
  obtain ⟨y', h_y', h_y⟩ := bind_eq_ok.mp h_y
  obtain ⟨h_le, rfl⟩ := Cursor.copyToSlice_eq_ok h_x
  obtain ⟨h_le', rfl⟩ := Cursor.copyToSlice_eq_ok h_y'
  cases h_y
  obtain ⟨h_le'', rfl⟩ := Cursor.copyToSlice_eq_ok h_z
  cases h
  dsimp only at h_le' h_le'' ⊢
  rw [List.length_drop] at h_le'
  rw [List.drop_drop, List.length_drop] at h_le''
  refine ⟨h_addr, by omega, rfl, ?_⟩
  rw [List.drop_drop, List.drop_drop]

/-- **A round that goes on takes something off the measure.** -/
theorem Next.rounds_lt (h : Next r es room r' es') : r'.rounds es' < r.rounds es := by
  cases h with
  | kind stage_eq read_eq length_eq =>
    have h_len := congrArg List.length (readAtLeast_cases read_eq).1
    rw [List.length_append, List.length_append] at h_len
    simp only [rounds, stage_eq]
    omega
  | head stage_eq read_eq head_eq =>
    have h_len := congrArg List.length (readAtLeast_cases read_eq).1
    rw [List.length_append, List.length_append] at h_len
    -- a head has at least four bytes, and so many rounds more
    obtain ⟨-, h_le, -, rfl⟩ := readHead_eq_ok head_eq
    simp only [rounds, stage_eq, List.length_drop]
    omega
  | payload stage_eq read_eq =>
    have h_len := congrArg List.length (readAtLeast_cases read_eq).1
    rw [List.length_append, List.length_append] at h_len
    simp only [rounds, stage_eq]
    omega
  | put stage_eq nothing =>
    simp only [rounds, stage_eq]
    omega

/-- **A poll goes round until it leaves.** If each round from a state with `I` goes on to one with
`I` or leaves with `Q`, then the poll returns with `Q`. -/
theorem privPollRead_of_rounds {I : TrojanUdpReader → List ReadEvent → Prop}
    {Q : ReadPoll TrojanUdpReader → Prop}
    (h_round : ∀ r es, I r es →
      (∃ r' es', r.round es room = .ok (.next r' es') ∧ I r' es') ∨
        ∃ x, r.round es room = .ok (.leave x) ∧ Q x) (h : I r es) :
    ∃ x, r.privPollRead es room = .ok x ∧ Q x := by
  suffices h_loop : ∀ n r es, r.rounds es < n → I r es →
      ∃ x, pollLoop room n r es = .ok x ∧ Q x from h_loop _ r es (Nat.lt_succ_self _) h
  -- by induction on the rounds that are left
  intro n
  induction n with
  | zero => exact fun r es h_lt _ => absurd h_lt (Nat.not_lt_zero _)
  | succ n ih =>
    intro r es h_lt h
    rcases h_round r es h with ⟨r', es', h_eq, h'⟩ | ⟨x, h_eq, h_x⟩
    · have h_less := (next_of_round h_eq).rounds_lt
      obtain ⟨x, h_rest, h_x⟩ := ih r' es' (by omega) h'
      exact ⟨x, by rw [pollLoop, h_eq, ok_bind]; exact h_rest, h_x⟩
    · exact ⟨x, by rw [pollLoop, h_eq, ok_bind]; rfl, h_x⟩

/-! ### Heads -/

/-- The bytes of an address tell how long its head is. -/
theorem headLength_writeToBuf {a : Address} (h : a.Encodable) (rest : List UInt8) :
    headLength (a.writeToBuf ++ rest) = .ok (a.serializedLen + 4) := by
  cases a with
  | socketAddress addr =>
    cases addr with
    | v4 ip port => rfl
    | v6 ip port flowinfo scopeId => rfl
  | domainNameAddress name port =>
    have h_n : (UInt8.ofNat name.toUTF8.size).toNat = name.toUTF8.size :=
      UInt8.toNat_ofNat_of_lt' (Nat.lt_succ_of_le h)
    show Except.ok (2 + (UInt8.ofNat name.toUTF8.size).toNat + 2 + 4) =
      .ok (1 + 1 + name.toUTF8.size + 2 + 4)
    rw [h_n]

/-- Two bytes are enough for this. -/
theorem headLength_append {buffer : List UInt8} (h : 2 ≤ buffer.length) (more : List UInt8) :
    headLength (buffer ++ more) = headLength buffer := by
  match buffer with
  | _ :: _ :: _ => rfl
  | [] => cases h
  | [_] => exact absurd h (Nat.not_succ_le_self 1)

end TrojanUdpReader

/-- What is long enough to hold the first part of some bytes begins with it. -/
theorem append_split {a b c d : List UInt8} (h : a ++ b = c ++ d) (h_len : c.length ≤ a.length) :
    ∃ a', a = c ++ a' ∧ a' ++ b = d := by
  obtain ⟨a', rfl⟩ := List.prefix_of_prefix_length_le (h ▸ List.prefix_append c d)
    (List.prefix_append a b) h_len
  rw [List.append_assoc] at h
  exact ⟨a', rfl, List.append_cancel_left h⟩

namespace Datagram

variable {d : Datagram}

theorem length_head (d : Datagram) : d.head.length = d.addr.serializedLen + 4 := by
  unfold head trojanHead
  rw [List.length_append, List.length_append, Address.length_writeToBuf, length_beBytes]
  rfl

theorem headLength_head (h : d.Fits) (rest : List UInt8) :
    TrojanUdpReader.headLength (d.head ++ rest) = .ok d.head.length := by
  rw [length_head]
  unfold head trojanHead
  rw [List.append_assoc, List.append_assoc]
  exact TrojanUdpReader.headLength_writeToBuf h.encodable _

/-- A head is read back. -/
theorem readHead_head (h : d.Fits) (rest : List UInt8) :
    TrojanUdpReader.readHead (d.head ++ rest) = .ok ((d.addr, d.payload.length), rest) := by
  have h_addr (bs : List UInt8) : Address.readFromBuf (d.addr.writeToBuf ++ bs) = .ok d.addr := by
    rw [Address.readFromBuf_eq, Address.readFromCursor_writeToBuf h.encodable]
    rfl
  have h_length : ofBeBytes (beBytes 2 d.payload.length) = d.payload.length := by
    rw [ofBeBytes_beBytes]
    exact Nat.mod_eq_of_lt (Nat.lt_succ_of_le h.payload_le)
  have h_crlf : Cursor.copyToSlice 2 ([0x0D, 0x0A] ++ rest) = .ok ([0x0D, 0x0A], rest) :=
    @Cursor.copyToSlice_append 2 [0x0D, 0x0A] rfl rest
  unfold head trojanHead TrojanUdpReader.readHead
  rw [List.append_assoc, List.append_assoc, h_addr, ok_bind]
  show (do
      let x ← Cursor.copyToSlice d.addr.serializedLen (d.addr.writeToBuf ++ _)
      let y ← Cursor.getBe 2 x.2
      let z ← Cursor.copyToSlice 2 y.2
      .ok ((d.addr, y.1), z.2) : Except Stop ((Address × ℕ) × List UInt8)) = _
  -- the address, the length, and `\r\n` come off one after the other
  rw [Cursor.copyToSlice_append (Address.length_writeToBuf _), ok_bind,
    Cursor.getBe_append (length_beBytes _ _), ok_bind]
  dsimp only
  rw [h_crlf, h_length, ok_bind]

theorem frames_cons (d : Datagram) (ds : List Datagram) :
    frames (d :: ds) = d.head ++ (d.payload ++ frames ds) :=
  List.append_assoc _ _ _

end Datagram

namespace TrojanUdpReader

open Datagram

variable {r r' : TrojanUdpReader} {es es' : List ReadEvent} {room : ℕ} {ds : List Datagram}

/-! ### Receiving -/

/-- These datagrams are ahead of the reader: of the first one the head, or the payload, may already
be in the buffer. -/
inductive Ahead : TrojanUdpReader → List ReadEvent → List Datagram → Prop
  | kind {r : TrojanUdpReader} {es : List ReadEvent} {ds : List Datagram}
      (stage_eq : r.stage = .kind)
      (bytes_eq : r.buffer ++ bytesOf es = frames ds) : Ahead r es ds
  | head {r : TrojanUdpReader} {es : List ReadEvent} {d : Datagram} {ds : List Datagram}
      (stage_eq : r.stage = .head) (length_eq : r.dataLength = d.head.length)
      (bytes_eq : r.buffer ++ bytesOf es = frames (d :: ds)) : Ahead r es (d :: ds)
  | payload {r : TrojanUdpReader} {es : List ReadEvent} {d : Datagram} {ds : List Datagram}
      (stage_eq : r.stage = .payload) (addr_eq : r.addr = d.addr)
      (length_eq : r.dataLength = d.payload.length)
      (bytes_eq : r.buffer ++ bytesOf es = d.payload ++ frames ds) : Ahead r es (d :: ds)
  | put {r : TrojanUdpReader} {es : List ReadEvent} {d : Datagram} {ds : List Datagram}
      (stage_eq : r.stage = .put) (addr_eq : r.addr = d.addr)
      (length_eq : r.dataLength = d.payload.length) (full : d.payload.length ≤ r.buffer.length)
      (bytes_eq : r.buffer ++ bytesOf es = d.payload ++ frames ds) : Ahead r es (d :: ds)
  | after {r : TrojanUdpReader} {es : List ReadEvent} {ds : List Datagram}
      (stage_eq : r.stage = .put)
      (nothing : r.dataLength = 0) (bytes_eq : r.buffer ++ bytesOf es = frames ds) : Ahead r es ds

/-- What a poll leaves when these datagrams are ahead: the first one is put, or the poll is pending,
or it reports the end of the stream, and then none was ahead. -/
inductive Received (es : List ReadEvent) (ds : List Datagram) (x : ReadPoll TrojanUdpReader) : Prop
  | datagram {d : Datagram} {ds' : List Datagram} (ds_eq : ds = d :: ds')
      (result_eq : x.result = .ready (.ok ())) (addr_eq : x.state.addr = d.addr)
      (put_eq : x.put = d.payload) (stage_eq : x.state.stage = .put)
      (nothing : x.state.dataLength = 0)
      (bytes_eq : x.state.buffer ++ bytesOf x.events = frames ds') (clean : Clean x.events)
      (suffix : x.events <:+ es) (pendings_le : pendings x.events ≤ pendings es)
  | pending (result_eq : x.result = .pending) (ahead : Ahead x.state x.events ds)
      (clean : Clean x.events) (suffix : x.events <:+ es)
      (spent : pendings x.events < pendings es ∨ ds = [])
  | ended (result_eq : x.result = .ready (.ok ())) (done : x.state.stage = .done)
      (nothing : ds = [])
      (at_end : .data [] ∈ es)

/-- What is known between two rounds of a poll. -/
structure Going (es : List ReadEvent) (ds : List Datagram) (r : TrojanUdpReader)
    (es' : List ReadEvent) : Prop where
  ahead : Ahead r es' ds
  clean : Clean es'
  suffix : es' <:+ es
  pendings_le : pendings es' ≤ pendings es

/-- What a poll leaves for a later part of a schedule, it leaves for the whole. -/
theorem Received.of_suffix {x : ReadPoll TrojanUdpReader} (h : Received es' ds x)
    (h_suffix : es' <:+ es) (h_le : pendings es' ≤ pendings es) : Received es ds x := by
  cases h with
  | datagram ds_eq result_eq addr_eq put_eq stage_eq nothing bytes_eq clean suffix pendings_le =>
    exact .datagram ds_eq result_eq addr_eq put_eq stage_eq nothing bytes_eq clean
      (suffix.trans h_suffix) (Nat.le_trans pendings_le h_le)
  | pending result_eq ahead clean suffix spent =>
    exact .pending result_eq ahead clean (suffix.trans h_suffix)
      (spent.imp (fun h_lt => Nat.lt_of_lt_of_le h_lt h_le) id)
  | ended result_eq done nothing at_end =>
    exact .ended result_eq done nothing (h_suffix.mem at_end)

/-- **A round that waits**: with a full buffer it goes on. Else it leaves the poll, and if datagrams
are ahead then only because the poll is pending. -/
theorem round_of_wants {n : ℕ} (h_wants : r.wants = some n) (h_clean : Clean es)
    (h_ahead : ∀ buffer es', buffer ++ bytesOf es' = r.buffer ++ bytesOf es →
      Ahead { r with buffer } es' ds)
    (h_enough : ds ≠ [] → n ≤ (r.buffer ++ bytesOf es).length)
    (h_next : ∀ buffer es', readAtLeast n r.buffer es = (.full, buffer, es') →
      buffer ++ bytesOf es' = r.buffer ++ bytesOf es → n ≤ buffer.length →
        ∃ r', Next r es room r' es' ∧ Ahead r' es' ds) :
    (∃ r' es', r.round es room = .ok (.next r' es') ∧ Going es ds r' es') ∨
      ∃ x, r.round es room = .ok (.leave x) ∧ Received es ds x := by
  rcases h_read : readAtLeast n r.buffer es with ⟨f, buffer, es'⟩
  obtain ⟨h_bytes, h_suffix, h_full⟩ := readAtLeast_cases h_read
  have h_cases := readClean h_clean h_read
  cases h_cases with
  | full clean le pendings_le =>
    obtain ⟨r', h_round, h_next⟩ := h_next buffer es' h_read h_bytes le
    exact Or.inl ⟨r', es', round_of_next h_round, h_next, clean, h_suffix, pendings_le⟩
  | pending clean lt spent =>
    exact Or.inr ⟨_, round_of_wait h_wants h_read (fun h => (by cases h)),
      .pending rfl (h_ahead buffer es' h_bytes) clean h_suffix (Or.inl spent)⟩
  | waiting lt =>
    -- the schedule is over, so nothing more comes
    refine Or.inr ⟨_, round_of_wait h_wants h_read (fun h => (by cases h)),
      .pending rfl (h_ahead buffer [] h_bytes) .nil h_suffix (Or.inr (by_contra fun h_ne => ?_))⟩
    have h_le := h_enough h_ne
    rw [← h_bytes, bytesOf_nil, List.append_nil] at h_le
    exact Nat.not_le_of_lt lt h_le
  | ended clean lt no_bytes =>
    -- the end of the stream comes after its last byte
    refine Or.inr ⟨_, round_of_wait h_wants h_read (fun h => (by cases h)),
      .ended rfl rfl (by_contra fun h_ne => ?_) (ended_mem h_read)⟩
    have h_le := h_enough h_ne
    rw [← h_bytes, no_bytes, List.append_nil] at h_le
    exact Nat.not_le_of_lt lt h_le

/-- **One round** when datagrams are ahead and the destination has room for the first one. -/
theorem round_of_ahead (h : Ahead r es ds) (h_clean : Clean es) (h_fits : ∀ d ∈ ds, d.Fits)
    (h_room : ∀ d, ds[0]? = some d → d.payload.length ≤ room) :
    (∃ r' es', r.round es room = .ok (.next r' es') ∧ Going es ds r' es') ∨
      ∃ x, r.round es room = .ok (.leave x) ∧ Received es ds x := by
  cases h with
  | kind stage_eq bytes_eq =>
    have h_wants : r.wants = some 2 := by
      unfold wants
      rw [stage_eq]
    refine round_of_wants h_wants h_clean
      (fun buffer es' h_bytes => .kind stage_eq (h_bytes.trans bytes_eq)) (fun h_ne => ?_)
      fun buffer es' h_read h_bytes h_two => ?_
    · -- the first frame has at least two bytes
      obtain ⟨d, ds', rfl⟩ := List.exists_cons_of_ne_nil h_ne
      rw [bytes_eq, frames_cons, List.length_append, length_head]
      omega
    · rw [bytes_eq] at h_bytes
      cases ds with
      | nil =>
        -- there is no byte left
        rw [(List.append_eq_nil_iff.mp h_bytes).1] at h_two
        exact absurd h_two (by decide)
      | cons d ds =>
        -- the two bytes are those of the head, which goes on in the buffer or below it
        have h_length : headLength buffer = .ok d.head.length := by
          rw [← headLength_append h_two (bytesOf es'), h_bytes, frames_cons]
          exact headLength_head (h_fits d List.mem_cons_self) _
        exact ⟨_, .kind stage_eq h_read h_length, .head rfl rfl h_bytes⟩
  | @head d ds stage_eq length_eq bytes_eq =>
    have h_wants : r.wants = some d.head.length := by
      unfold wants
      rw [stage_eq, ← length_eq]
    refine round_of_wants h_wants h_clean
      (fun buffer es' h_bytes => .head stage_eq length_eq (h_bytes.trans bytes_eq)) (fun _ => ?_)
      fun buffer es' h_read h_bytes h_long => ?_
    · rw [bytes_eq, frames_cons, List.length_append]
      exact Nat.le_add_right _ _
    · -- the whole head is in the buffer
      rw [bytes_eq, frames_cons] at h_bytes
      obtain ⟨rest, rfl, h_rest⟩ := append_split h_bytes h_long
      rw [← length_eq] at h_read
      exact ⟨_, .head stage_eq h_read (readHead_head (h_fits d List.mem_cons_self) rest),
        .payload rfl rfl rfl h_rest⟩
  | @payload d ds stage_eq addr_eq length_eq bytes_eq =>
    have h_wants : r.wants = some d.payload.length := by
      unfold wants
      rw [stage_eq, ← length_eq]
    refine round_of_wants h_wants h_clean
      (fun buffer es' h_bytes => .payload stage_eq addr_eq length_eq (h_bytes.trans bytes_eq))
      (fun _ => ?_) fun buffer es' h_read h_bytes h_long => ?_
    · rw [bytes_eq, List.length_append]
      exact Nat.le_add_right _ _
    · rw [← length_eq] at h_read
      exact ⟨_, .payload stage_eq h_read,
        .put rfl addr_eq length_eq h_long (h_bytes.trans bytes_eq)⟩
  | @put d ds stage_eq addr_eq length_eq full bytes_eq =>
    obtain ⟨rest, h_buffer, h_rest⟩ := append_split bytes_eq full
    -- there is room for all of the payload
    have h_min : min r.dataLength room = d.payload.length := by
      rw [length_eq]
      exact Nat.min_eq_left (h_room d rfl)
    have h_pos := (h_fits d List.mem_cons_self).payload_pos
    right
    refine ⟨⟨{ r with buffer := rest, dataLength := 0 }, es, .ready (.ok ()), d.payload⟩, ?_,
      .datagram rfl rfl addr_eq rfl stage_eq rfl h_rest h_clean List.suffix_rfl (Nat.le_refl _)⟩
    obtain ⟨stage, addr, buffer, dataLength⟩ := r
    cases stage_eq
    unfold round
    dsimp only at h_min h_buffer length_eq ⊢
    rw [h_min, if_pos (Nat.ne_of_gt h_pos), h_buffer, splitTo_of_le (by simp), ok_bind,
      List.take_left' rfl, List.drop_left' rfl, length_eq, Nat.sub_self]
    rfl
  | after stage_eq nothing bytes_eq =>
    left
    refine ⟨{ r with stage := .kind }, es, round_of_next (.put stage_eq ?_), .kind rfl bytes_eq,
      h_clean, List.suffix_rfl, Nat.le_refl _⟩
    rw [nothing, Nat.zero_min]

/-- **One poll.** -/
theorem privPollRead_receives (h : Ahead r es ds) (h_clean : Clean es) (h_fits : ∀ d ∈ ds, d.Fits)
    (h_room : ∀ d, ds[0]? = some d → d.payload.length ≤ room) :
    ∃ x, r.privPollRead es room = .ok x ∧ Received es ds x := by
  have h_going : Going es ds r es := ⟨h, h_clean, List.suffix_rfl, Nat.le_refl _⟩
  refine privPollRead_of_rounds (fun r' es' h' => ?_) h_going
  rcases round_of_ahead h'.ahead h'.clean h_fits h_room with ⟨r'', es'', h_eq, h''⟩ | ⟨x, h_eq, h_x⟩
  · exact Or.inl ⟨r'', es'', h_eq, h''.ahead, h''.clean, h''.suffix.trans h'.suffix,
      Nat.le_trans h''.pendings_le h'.pendings_le⟩
  · exact Or.inr ⟨x, h_eq, h_x.of_suffix h'.suffix h'.pendings_le⟩

/-- What `poll_recv_from` leaves when these datagrams are ahead. -/
inductive RecvPoll (es : List ReadEvent) (ds : List Datagram) (x : Recv) : Prop
  | datagram {d : Datagram} {ds' : List Datagram} (ds_eq : ds = d :: ds')
      (result_eq : x.result = .ready (.ok d.addr)) (put_eq : x.put = d.payload)
      (ahead : Ahead x.state x.events ds') (clean : Clean x.events) (suffix : x.events <:+ es)
      (pendings_le : pendings x.events ≤ pendings es)
  | pending (result_eq : x.result = .pending) (ahead : Ahead x.state x.events ds)
      (clean : Clean x.events) (suffix : x.events <:+ es)
      (spent : pendings x.events < pendings es ∨ ds = [])
  | ended {answer : Except String Address} (result_eq : x.result = .ready answer)
      (done : x.state.stage = .done) (nothing : ds = []) (at_end : .data [] ∈ es)

/-- A poll on a stream of datagrams: one is received, or the poll is pending. -/
theorem pollRecvFrom_receives (h : Ahead r es ds) (h_clean : Clean es) (h_fits : ∀ d ∈ ds, d.Fits)
    (h_room : ∀ d, ds[0]? = some d → d.payload.length ≤ room) :
    ∃ x, r.pollRecvFrom es room = .ok x ∧ RecvPoll es ds x := by
  obtain ⟨x, h_poll, h_x⟩ := privPollRead_receives h h_clean h_fits h_room
  unfold pollRecvFrom
  rw [h_poll, ok_bind]
  cases h_x with
  | datagram ds_eq result_eq addr_eq put_eq stage_eq nothing bytes_eq clean suffix pendings_le =>
    rw [result_eq]
    -- the address is taken out of the field, and not looked at again
    exact ⟨_, rfl, .datagram ds_eq (congrArg (fun a => Poll.ready (Except.ok a)) addr_eq) put_eq
      (.after stage_eq nothing bytes_eq) clean suffix pendings_le⟩
  | pending result_eq ahead clean suffix spent =>
    rw [result_eq]
    exact ⟨_, rfl, .pending rfl ahead clean suffix spent⟩
  | ended result_eq done nothing at_end =>
    rw [result_eq]
    exact ⟨_, rfl, .ended rfl done nothing at_end⟩

/-- After the end every poll is an error. -/
theorem pollRecvFrom_done (h : r.stage = .done) :
    r.pollRecvFrom es room = .ok ⟨r, es, .ready (.error "unexpected end of file"), []⟩ := by
  have h_round : r.round es room =
      .ok (.leave ⟨r, es, .ready (.error "unexpected end of file"), []⟩) := by
    obtain ⟨stage, addr, buffer, dataLength⟩ := r
    cases h
    rfl
  unfold pollRecvFrom privPollRead
  rw [pollLoop, h_round, ok_bind]
  rfl

theorem recvRun_done {room : ℕ → ℕ → ℕ} (n k : ℕ) (h : r.stage = .done) :
    ∃ results, recvRun room n k r es = .ok results := by
  induction n generalizing k with
  | zero => exact ⟨[], rfl⟩
  | succ n ih =>
    obtain ⟨results, h_rest⟩ := ih (k + 1)
    rw [recvRun, pollRecvFrom_done h, ok_bind]
    dsimp only
    rw [h_rest]
    exact ⟨_, rfl⟩

/-- **A run** when datagrams are ahead: they are its first results, one after the other, and if
there is another one then the stream has ended. -/
theorem recvRun_receives {room : ℕ → ℕ → ℕ} {n k : ℕ} (h : Ahead r es ds) (h_clean : Clean es)
    (h_fits : ∀ d ∈ ds, d.Fits)
    (h_room : ∀ n i d, ds[i]? = some d → d.payload.length ≤ room n (k + i)) :
    ∃ results more, recvRun room n k r es = .ok (results ++ more) ∧ results <+: ds.map .ok ∧
      (more ≠ [] → results = ds.map .ok ∧ .data [] ∈ es) ∧
      (pendings es + ds.length ≤ n → results = ds.map .ok) := by
  induction n generalizing k r es ds with
  | zero =>
    refine ⟨[], [], rfl, List.nil_prefix, fun h_ne => absurd rfl h_ne, fun h_len => ?_⟩
    have h_nil : ds.length = 0 := Nat.eq_zero_of_le_zero (Nat.le_trans (Nat.le_add_left _ _) h_len)
    rw [List.length_eq_zero_iff.mp h_nil]
    rfl
  | succ n ih =>
    obtain ⟨x, h_poll, h_x⟩ := pollRecvFrom_receives h h_clean h_fits (h_room n 0)
    rw [recvRun, ← Nat.add_zero k, h_poll, ok_bind]
    cases h_x with
    | @datagram d ds' ds_eq result_eq put_eq ahead clean suffix pendings_le =>
      subst ds_eq
      -- from now on one more has been received
      have h_room' (n i : ℕ) (d' : Datagram) (h_d' : ds'[i]? = some d') :
          d'.payload.length ≤ room n (k + 1 + i) := by
        rw [Nat.add_assoc, Nat.add_comm 1 i]
        exact h_room n (i + 1) d' h_d'
      obtain ⟨results, more, h_run, h_prefix, h_more, h_all⟩ :=
        ih ahead clean (fun d h_d => h_fits d (List.mem_cons_of_mem _ h_d)) h_room'
      rw [result_eq]
      dsimp only
      rw [Nat.add_zero, h_run, put_eq]
      refine ⟨.ok d :: results, more, rfl, (List.cons_prefix_cons).mpr ⟨rfl, h_prefix⟩,
        fun h_ne => ?_, fun h_len => ?_⟩
      · obtain ⟨h_eq, h_end⟩ := h_more h_ne
        exact ⟨congrArg (.ok d :: ·) h_eq, suffix.mem h_end⟩
      · rw [List.length_cons] at h_len
        exact congrArg (.ok d :: ·) (h_all (by omega))
    | pending result_eq ahead clean suffix spent =>
      obtain ⟨results, more, h_run, h_prefix, h_more, h_all⟩ := ih ahead clean h_fits h_room
      rw [result_eq]
      refine ⟨results, more, h_run, h_prefix, fun h_ne => ?_, fun h_len => ?_⟩
      · exact ⟨(h_more h_ne).1, suffix.mem (h_more h_ne).2⟩
      · rcases spent with h_spent | h_nothing
        · exact h_all (by omega)
        · rw [h_nothing] at h_prefix ⊢
          exact List.prefix_nil.mp h_prefix
    | @ended answer result_eq done nothing at_end =>
      subst nothing
      -- all that comes now comes after the last datagram
      obtain ⟨rest, h_rest⟩ := @recvRun_done _ x.events room n (k + 1) done
      rw [result_eq]
      dsimp only
      rw [Nat.add_zero, h_rest]
      exact ⟨[], _ :: rest, rfl, List.nil_prefix, fun _ => ⟨rfl, at_end⟩, fun _ => rfl⟩

end TrojanUdpReader

/-! ### Sending datagrams -/

namespace TrojanUdpWriter

open Datagram

variable {w : TrojanUdpWriter} {ws : List WriteEvent} {data out : List UInt8} {ds : List Datagram}

/-- Over a stream that works a poll is pending or sends the datagram, and at least a byte is taken
for each write that is not pending. -/
inductive Live (ws : List WriteEvent) (x : TrojanPoll) : Prop
  | pending (result_eq : x.result = .pending) (going : x.state.stage ≠ .done)
      (working : Working x.events)
      (spent : writePendings x.events < writePendings ws ∨ x.events = [])
      (accepts_le : accepts ws ≤ x.out.length + accepts x.events)
  | sent {n : ℕ} (result_eq : x.result = .ready (.ok n)) (going : x.state.stage ≠ .done)
      (working : Working x.events) (pendings_le : writePendings x.events ≤ writePendings ws)
      (accepts_le : accepts ws ≤ x.out.length + accepts x.events)

/-- A poll at the payload, over a stream that works, is pending or sends it. -/
theorem live_payload (h : Working ws) : Live ws (writePayload w ws data) := by
  unfold writePayload
  have h_clean : WriteClean data w.pos ws (writeData data w.pos ws) := writeClean h
  generalize writeData data w.pos ws = x at h_clean ⊢
  cases h_clean with
  | done working pendings_le accepts_le =>
    exact .sent rfl (fun h_eq => (by cases h_eq)) working pendings_le accepts_le
  | pending working lt out_eq spent accepts_le =>
    exact .pending rfl (fun h_eq => (by cases h_eq)) working spent accepts_le

/-- A call that is at the header, over a stream that works. -/
theorem live_head (h : Working ws) : Live ws (writeHead w ws data) := by
  unfold writeHead
  have h_clean : WriteClean w.buffer w.pos ws (writeData w.buffer w.pos ws) := writeClean h
  generalize writeData w.buffer w.pos ws = x at h_clean ⊢
  cases h_clean with
  | @done _ ws' working pendings_le accepts_le =>
    -- the payload follows in the same poll
    have h_rest : Live ws' (writePayload { w with pos := 0, buffer := [] } ws' data) :=
      live_payload working
    dsimp only
    generalize writePayload { w with pos := 0, buffer := [] } ws' data = y at h_rest ⊢
    have h_len : (w.buffer.drop w.pos ++ y.out).length =
        (w.buffer.drop w.pos).length + y.out.length := List.length_append
    cases h_rest with
    | pending result_eq going working spent accepts_le' =>
      refine .pending result_eq going working
        (spent.imp (fun h_lt => Nat.lt_of_lt_of_le h_lt pendings_le) id) ?_
      dsimp only
      omega
    | sent result_eq going working pendings_le' accepts_le' =>
      refine .sent result_eq going working (Nat.le_trans pendings_le' pendings_le) ?_
      dsimp only
      omega
  | pending working lt out_eq spent accepts_le =>
    exact .pending rfl (fun h_eq => (by cases h_eq)) working spent accepts_le

/-- A poll of `send_to`, over a stream that works, is pending or sends the datagram. -/
theorem live_privPollWrite {addr : Address} (h : Working ws) (h_data : data ≠ [])
    (h_stage : w.stage ≠ .done) : Live ws (w.privPollWrite ws data addr) := by
  unfold privPollWrite
  cases h_eq : w.stage with
  | idle =>
    dsimp only
    rw [if_neg h_data]
    exact live_head h
  | header => exact live_head h
  | payload => exact live_payload h
  | done => exact absurd h_eq h_stage

/-- The writer is between two datagrams, or so much has been written of the first of these. -/
inductive Sending : List Datagram → TrojanUdpWriter → List UInt8 → Prop
  | rest {ds : List Datagram} {w : TrojanUdpWriter} (rest : AtRest w) : Sending ds w []
  | within {d : Datagram} {ds : List Datagram} {w : TrojanUdpWriter} {out : List UInt8}
      (within : Within d.addr d.payload w out False) : Sending (d :: ds) w out

theorem Sending.progress {d : Datagram} (h : Sending (d :: ds) w out) (h_data : d.payload ≠ []) :
    Progress d.addr d.payload out False ws (w.privPollWrite ws d.payload d.addr) := by
  cases h with
  | rest rest => exact progress_of_rest rest h_data
  | within within => exact progress_of_within within

/-- What is written of a datagram is no longer than its frame. -/
theorem Within.length_le {d : Datagram} (h : Within d.addr d.payload w out False) :
    out.length ≤ d.frame.length := by
  unfold frame Datagram.head
  cases h with
  | header =>
    rw [List.length_append, List.length_take]
    omega
  | payload stage_eq buffer_eq head_eq =>
    rw [head_eq.mpr id, List.length_append, List.length_append, List.length_take]
    omega

/-- **A run over a stream that works.** When all datagrams are sent, their frames have been written;
and all are sent when there are enough polls, and writes that are not pending. -/
theorem sendRun_frames {n : ℕ} (h : Sending ds w out) (h_ws : Working ws)
    (h_fits : ∀ d ∈ ds, d.Fits) :
    ((sendRun n ds w ws).left = [] → out ++ (sendRun n ds w ws).out = frames ds) ∧
      (w.stage ≠ .done → (frames ds).length < accepts ws + out.length →
        writePendings ws + ds.length ≤ n → (sendRun n ds w ws).left = []) := by
  induction n generalizing w ws ds out with
  | zero =>
    refine ⟨fun h_left => ?_, fun _ _ h_polls => ?_⟩
    · have h_nil : ds = [] := h_left
      subst h_nil
      cases h
      rfl
    · show ds = []
      exact List.length_eq_zero_iff.mp (by omega)
  | succ n ih =>
    cases ds with
    | nil =>
      cases h
      exact ⟨fun _ => rfl, fun _ _ _ => rfl⟩
    | cons d ds =>
      have h_data : d.payload ≠ [] :=
        List.length_pos_iff.mp (h_fits d List.mem_cons_self).payload_pos
      have h_progress : Progress d.addr d.payload out False ws
          (w.privPollWrite ws d.payload d.addr) := h.progress h_data
      have h_live (h_stage : w.stage ≠ .done) :=
        @live_privPollWrite w ws d.payload d.addr h_ws h_data h_stage
      rw [sendRun]
      generalize w.privPollWrite ws d.payload d.addr = x at h_progress h_live
      -- every write that is used works
      have h_used {used : List WriteEvent} (h_eq : ws = used ++ x.events) :
          Working x.events ∧ ((False ∨ ∃ e ∈ used, ¬ e.Works) ↔ False) := by
        rw [working_iff, h_eq] at h_ws
        rw [working_iff]
        exact ⟨fun e h_e => h_ws e (List.mem_append_right _ h_e),
          failed_iff fun e h_e => h_ws e (List.mem_append_left _ h_e)⟩
      cases h_progress with
      | pending ws_eq result_eq within =>
        obtain ⟨h_events, h_fine⟩ := h_used ws_eq
        rw [h_fine] at within
        obtain ⟨h_out, h_sent⟩ := ih (.within within) h_events h_fits
        rw [result_eq]
        dsimp only
        rw [← List.append_assoc]
        refine ⟨h_out, fun h_stage h_len h_polls => ?_⟩
        have h_le := within.length_le
        have h_frames : (frames (d :: ds)).length = d.frame.length + (frames ds).length :=
          List.length_append
        rw [List.length_append] at h_le h_sent
        cases h_live h_stage with
        | pending _ going _ spent accepts_le =>
          rcases spent with h_spent | h_none
          · exact h_sent going (by omega) (by omega)
          · -- then all that was accepted has been written, and that is too much
            have h_zero : accepts x.events = 0 := by
              rw [h_none]
              rfl
            omega
        | sent result_eq' =>
          rw [result_eq] at result_eq'
          cases result_eq'
      | sent head ws_eq result_eq rest out_eq head_eq =>
        obtain ⟨h_events, h_fine⟩ := h_used ws_eq
        rw [h_fine] at head_eq
        obtain ⟨h_out, h_sent⟩ :=
          ih (.rest rest) h_events fun d h_d => h_fits d (List.mem_cons_of_mem _ h_d)
        rw [head_eq.mpr id] at out_eq
        rw [result_eq]
        dsimp only
        constructor
        · intro h_left
          rw [← List.append_assoc, out_eq]
          exact congrArg (d.frame ++ ·) (h_out h_left)
        · intro h_stage h_len h_polls
          have h_frame : (out ++ x.out).length = d.frame.length := congrArg List.length out_eq
          have h_frames : (frames (d :: ds)).length = d.frame.length + (frames ds).length :=
            List.length_append
          rw [List.length_append] at h_frame
          rw [List.length_cons] at h_polls
          cases h_live h_stage with
          | sent _ going _ pendings_le accepts_le =>
            refine h_sent going ?_ (by omega)
            rw [List.length_nil]
            omega
          | pending result_eq' =>
            rw [result_eq] at result_eq'
            cases result_eq'
      | failed result_eq rest =>
        -- the run stops here with the datagram unsent, but this does not happen
        rw [result_eq]
        refine ⟨fun h_left => (by cases h_left), fun h_stage => ?_⟩
        cases h_live h_stage with
        | pending result_eq' | sent result_eq' =>
          rw [result_eq] at result_eq'
          cases result_eq'

end TrojanUdpWriter

/-- **Datagrams over Trojan.** Over a stream that works every datagram is sent when there are enough
polls and writes. When all are sent, a reader of these bytes, however they are cut and with every
destination long enough for the datagram that is next, returns the same datagrams, one for each
result, before the end of the stream; and with enough polls all of them. -/
theorem TrojanUdpReader.roundTrip {ds : List Datagram} (h_fits : ∀ d ∈ ds, d.Fits)
    {ws : List WriteEvent} (h_ws : Working ws) (sends : ℕ) :
    ((Datagram.frames ds).length < accepts ws → writePendings ws + ds.length ≤ sends →
      (TrojanUdpWriter.sendRun sends ds .new ws).left = []) ∧
    ((TrojanUdpWriter.sendRun sends ds .new ws).left = [] →
      ∀ es, Clean es → bytesOf es = (TrojanUdpWriter.sendRun sends ds .new ws).out →
        ∀ room : ℕ → ℕ → ℕ, (∀ n k d, ds[k]? = some d → d.payload.length ≤ room n k) → ∀ polls,
          ∃ results more, recvRun room polls 0 .new es = .ok (results ++ more) ∧
            results <+: ds.map .ok ∧
            (more ≠ [] → results = ds.map .ok ∧ .data [] ∈ es) ∧
            (pendings es + ds.length ≤ polls → results = ds.map .ok)) := by
  have h_rest : TrojanUdpWriter.Sending ds .new [] := .rest (Or.inr ⟨rfl, rfl, rfl⟩)
  obtain ⟨h_out, h_sent⟩ := TrojanUdpWriter.sendRun_frames (n := sends) h_rest h_ws h_fits
  constructor
  · intro h_len h_polls
    exact h_sent (fun h_eq => (by cases h_eq)) h_len h_polls
  · intro h_left es h_clean h_bytes room h_room polls
    have h_ahead : Ahead .new es ds := .kind rfl (h_bytes.trans (h_out h_left))
    refine recvRun_receives h_ahead h_clean h_fits fun n i d h_d => ?_
    rw [Nat.zero_add]
    exact h_room n i d h_d

/-- Datagrams to a domain name and to an IPv4 address; the first head is cut by the writer, and
every frame by the reader. -/
theorem TrojanUdpReader.roundTrip_two :
    let ds : List Datagram := [⟨.domainNameAddress "a.org" 53, [1, 2, 3]⟩,
      ⟨.socketAddress (.v4 0x01020304 80), [9]⟩]
    let ws := [.accept 3, .pending, .accept 20, .accept 1, .pending, .accept 8, .accept 8,
      .accept 8, .accept 8]
    let es := .pending :: oneByOne (TrojanUdpWriter.sendRun 4 ds .new ws).out
    ∃ more, recvRun (fun _ _ => 3) 3 0 .new es = .ok (ds.map .ok ++ more) := by
  intro ds ws es
  have h_fits : ∀ d ∈ ds, d.Fits := by
    refine List.forall_mem_cons.mpr ⟨⟨?_, by decide, by decide⟩, List.forall_mem_cons.mpr
      ⟨⟨trivial, by decide, by decide⟩, fun d h_d => (by cases h_d)⟩⟩
    show "a.org".toUTF8.size ≤ 255
    decide
  have h_ws : Working ws := by
    rw [working_iff]
    simp [ws, WriteEvent.Works]
  have h_left : (TrojanUdpWriter.sendRun 4 ds .new ws).left = [] := by decide +kernel
  have h_clean : Clean es := .pending (clean_oneByOne _)
  have h_bytes : bytesOf es = (TrojanUdpWriter.sendRun 4 ds .new ws).out := bytesOf_oneByOne _
  have h_room (_ : ℕ) (k : ℕ) (d : Datagram) (h_d : ds[k]? = some d) : d.payload.length ≤ 3 := by
    rcases List.mem_cons.mp (List.mem_of_getElem? h_d) with rfl | h_mem
    · exact Nat.le_refl 3
    · rw [List.mem_singleton.mp h_mem]
      exact Nat.le_add_left 1 2
  -- there is one pending read, so three polls are enough for two datagrams
  obtain ⟨results, more, h_run, -, -, h_all⟩ :=
    (roundTrip h_fits h_ws 4).2 h_left es h_clean h_bytes (fun _ _ => 3) h_room 3
  have h_pendings : pendings es = 1 :=
    (List.countP_cons_of_pos rfl).trans (congrArg (· + 1) (pendings_oneByOne _))
  rw [h_all (by rw [h_pendings]; exact Nat.le_refl 3)] at h_run
  exact ⟨more, h_run⟩

end V2ray

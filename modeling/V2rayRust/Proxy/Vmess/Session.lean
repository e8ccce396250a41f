import V2rayRust.Lib.TwoWay
import V2rayRust.Proxy.Vmess.Request
import V2rayRust.Proxy.Vmess.SendTo

/-!
# A VMess session

A client and a server that knows the id of the user, over a stream that works: `poll_read` and
`poll_write` of `proxy/vmess/vmess_stream.rs` in any order, from the first byte of the request to
the last chunk of the response. The server gets out of the request what it needs for the chunks
that follow it, and for its response (`vmess_session`).

* `written_pollWriteHeader`: a poll to write sends a part of what is owed. The first slice waits
  until the header is out, and each byte of the header may cost a poll (`cost`).
* `twoWay_works`: the halves do not get in each other's way, so the rules for a stream of two
  directions apply, and a run of polls in any order is a run of each direction.
* `agrees_new`: the ciphers of a new stream are those that its request names. From this on the
  server is known by what it has read, and not by what the client has kept.
* `validHeader`, `ahead`, `hears`: what either end seals with the keys of the request, the other
  end opens.
-/

namespace V2ray

/-! ### The client -/

namespace VmessSender

/-- `poll_read` and `poll_write` of a stream with its request header. -/
def twoWay (A : Aead) (p : Profile) : TwoWay VmessSender where
  read s es room := do
    let x ← s.toVmessStream.privPollRead A p es room
    return x.map fun stream => { s with toVmessStream := stream }
  write s ws buf := do
    let x ← s.pollWriteHeader A p ws buf
    return ⟨x.state, x.events, x.result, x.out⟩

variable {A : Aead} {p : Profile} {s : VmessSender} {ws : List WriteEvent} {buf : List UInt8}
  {slices : List (List UInt8)} {owed : List UInt8} {x : SenderPoll}

/-- The bytes that a sender still has to write when these slices are left: an idle one does not
write its header before the first slice. -/
inductive Owes (A : Aead) (p : Profile) (s : VmessSender) :
    List (List UInt8) → List UInt8 → Prop
  | nothing (stage_eq : s.writer.stage = .idle) : Owes A p s [] []
  | header {data wire : List UInt8} {slices : List (List UInt8)} (state_eq : s.state2 = .header)
      (owes : V2ray.Owes (VmessAeadWriter.format A p) s.writer (data :: slices) wire) :
      Owes A p s (data :: slices) (s.headerBuffer.drop s.headerPos ++ wire)
  | streaming {data wire : List UInt8} {slices : List (List UInt8)}
      (state_eq : s.state2 = .streaming)
      (owes : V2ray.Owes (VmessAeadWriter.format A p) s.writer (data :: slices) wire) :
      Owes A p s (data :: slices) wire

/-- Each byte of the header may cost a poll that is not woken. -/
def cost (s : VmessSender) : ℕ := s.headerLeft.length

/-- How much of a slice a chunk takes. -/
def taken (data : List UInt8) : ℕ := min (chunkSize - 16) data.length

/-- A stream past its header owes what its writer owes. -/
theorem owes_streaming (h_state : s.state2 = .streaming)
    (h : V2ray.Owes (VmessAeadWriter.format A p) s.writer slices owed) :
    Owes A p s slices owed := by
  cases slices with
  | nil =>
    cases h with
    | nothing stage_eq => exact .nothing stage_eq
  | cons data slices => exact .streaming h_state h

theorem cost_of_streaming (h : s.state2 = .streaming) : s.cost = 0 := by
  unfold cost headerLeft
  rw [h]
  rfl

/-- The poll that comes to the data, after `front` has been written of the header. -/
theorem written_streamData (s₀ : VmessSender) (front : List UInt8) {ws' : List WriteEvent}
    (h_working : Working ws)
    (h : V2ray.Owes (VmessAeadWriter.format A p) s.writer (buf :: slices) owed)
    (h_pendings : writePendings ws ≤ writePendings ws')
    (h_accepts : accepts ws' ≤ front.length + accepts ws) :
    ∃ x, s.streamData A p ws buf = .ok x ∧
      TwoWay.Written (Owes A p) cost taken s₀ ws' buf slices (front ++ owed)
        ⟨x.state, x.events, x.result, front ++ x.out⟩ := by
  obtain ⟨y, h_poll, h_y⟩ := writes_pollWrite h_working h
  let s' : VmessSender := { s with writer := y.state, state2 := .streaming }
  have h_zero : s'.cost = 0 := cost_of_streaming rfl
  unfold streamData
  rw [h_poll, ok_bind]
  refine ⟨_, rfl, ?_⟩
  -- either way `front` is out before what the writer adds, and the header costs nothing any more
  cases h_y with
  | ready result_eq owed_eq owes working pendings_le accepts_le =>
    refine .ready result_eq ?_ (owes_streaming rfl owes) working ?_ ?_
    · rw [owed_eq]
      exact (List.append_assoc _ _ _).symm
    · show s'.cost + writePendings y.events ≤ _
      omega
    · show accepts ws' ≤ (front ++ y.out).length + accepts y.events
      rw [List.length_append]
      omega
  -- a pending poll has taken a step of the writer, or used up the schedule
  | pending result_eq owed_eq owes not_out working spent accepts_le =>
    refine .pending result_eq ?_ (owes_streaming rfl owes) not_out working ?_ ?_
    · rw [owed_eq]
      exact (List.append_assoc _ _ _).symm
    · refine spent.imp_left fun h_lt => ?_
      show s'.cost + writePendings y.events < _
      omega
    · show accepts ws' ≤ (front ++ y.out).length + accepts y.events
      rw [List.length_append]
      omega

/-- **A poll to write**, on a stream that works. -/
theorem written_pollWriteHeader (h_working : Working ws) (h : Owes A p s (buf :: slices) owed) :
    ∃ x, s.pollWriteHeader A p ws buf = .ok x ∧
      TwoWay.Written (Owes A p) cost taken s ws buf slices owed
        ⟨x.state, x.events, x.result, x.out⟩ := by
  unfold pollWriteHeader
  cases h with
  | streaming state_eq owes =>
    -- no header is left, so `front` is empty
    rw [state_eq]
    exact written_streamData s [] h_working owes (Nat.le_refl _) (Nat.le_add_left _ _)
  | @header _ wire _ state_eq owes =>
    rw [state_eq]
    dsimp only
    by_cases h_lt : s.headerPos < s.headerBuffer.length
    · rw [if_pos h_lt]
      have h_left : s.headerBuffer.drop s.headerPos ≠ [] := by
        intro h_nil
        exact absurd (List.drop_eq_nil_iff.mp h_nil) (Nat.not_le_of_lt h_lt)
      have h_owed : s.headerBuffer.drop s.headerPos ++ wire ≠ [] := fun h_nil =>
        h_left (List.append_eq_nil_iff.mp h_nil).1
      cases h_working with
      -- the schedule is at its end, and stays so
      | nil =>
        exact ⟨_, rfl, .pending rfl rfl (.header state_eq owes) h_owed .nil (.inr rfl)
          (Nat.le_add_left _ _)⟩
      -- nothing goes out, but the schedule is one `pending` shorter
      | @pending ws rest =>
        refine ⟨_, rfl, .pending rfl rfl (.header state_eq owes) h_owed rest (.inl ?_) ?_⟩
        · show s.cost + writePendings ws < s.cost + writePendings (.pending :: ws)
          rw [writePendings, writePendings, List.countP_cons_of_pos (by decide)]
          omega
        · show accepts (.pending :: ws) ≤ 0 + accepts ws
          rw [accepts, accepts, List.countP_cons_of_neg (by decide), Nat.zero_add]
      -- `n` bytes of room, so at least one byte of the header goes out
      | @accept n ws pos rest =>
        have h_take := VmessUdp.take_header s.headerBuffer s.headerPos n
        generalize h_front : (s.headerBuffer.drop s.headerPos).take n = front at h_take
        have h_some : 0 < front.length := by
          rw [← h_front, List.length_take]
          exact Nat.lt_min.mpr ⟨pos, List.length_pos_iff.mpr h_left⟩
        have h_pendings : writePendings ws = writePendings (.accept n :: ws) := by
          rw [writePendings, writePendings, List.countP_cons_of_neg (by simp)]
        have h_accepts : accepts (.accept n :: ws) ≤ front.length + accepts ws := by
          rw [accepts, accepts, List.countP_cons_of_pos (by simp)]
          omega
        dsimp only
        rw [h_front, ← h_take, List.append_assoc]
        by_cases h_more : s.headerPos + front.length < s.headerBuffer.length
        · -- a part of the header is out, and the poll is pending
          rw [if_pos h_more]
          have h_cost : s.cost = s.headerBuffer.length - s.headerPos := by
            unfold cost headerLeft
            rw [state_eq]
            exact List.length_drop
          let s' : VmessSender :=
            { s with headerPos := s.headerPos + front.length, state2 := .header }
          have h_cost' : s'.cost = s.headerBuffer.length - (s.headerPos + front.length) :=
            List.length_drop
          have h_not_out : s.headerBuffer.drop (s.headerPos + front.length) ++ wire ≠ [] := by
            intro h_nil
            have h_drop := (List.append_eq_nil_iff.mp h_nil).1
            exact absurd (List.drop_eq_nil_iff.mp h_drop) (Nat.not_le_of_lt h_more)
          refine ⟨_, rfl, .pending rfl rfl (.header rfl owes) h_not_out rest (.inl ?_) h_accepts⟩
          show s'.cost + writePendings ws < s.cost + writePendings (.accept n :: ws)
          omega
        · -- all of it is out, and the data comes in the same poll
          rw [if_neg h_more, List.drop_eq_nil_of_le (Nat.le_of_not_lt h_more), List.nil_append]
          obtain ⟨x, h_x, h_written⟩ := written_streamData s front
            (s := { s with headerPos := s.headerPos + front.length, state2 := .header }) rest owes
            (Nat.le_of_eq h_pendings) h_accepts
          rw [h_x]
          exact ⟨_, rfl, h_written⟩
    · -- the header was out before this poll
      rw [if_neg h_lt, List.drop_eq_nil_of_le (Nat.le_of_not_lt h_lt)]
      exact written_streamData s [] h_working owes (Nat.le_refl _) (Nat.le_add_left _ _)

/-- What a read depends on. -/
def Ahead (A : Aead) (p : Profile) (s : VmessSender) (es : List ReadEvent) (rest : List UInt8) :
    Prop :=
  VmessAhead A p s.toVmessStream es rest

/-- What is ahead does not depend on the writer. -/
theorem ahead_congr {t t' : VmessStream} {es : List ReadEvent} {rest : List UInt8}
    (h : VmessAhead A p t es rest) (h_state : t'.state1 = t.state1)
    (h_header : t'.headerReader = t.headerReader) (h_reader : t'.reader = t.reader) :
    VmessAhead A p t' es rest := by
  cases h with
  | waitResp state_eq ahead stage_eq frames =>
    rw [← h_header] at ahead
    rw [← h_reader] at stage_eq frames
    exact .waitResp (h_state.trans state_eq) ahead stage_eq frames
  | streaming state_eq ahead =>
    refine .streaming (h_state.trans state_eq) ?_
    rwa [h_reader]

/-- A write leaves the reading half as it is. -/
theorem reading_of_pollWriteHeader (h : s.pollWriteHeader A p ws buf = .ok x) :
    x.state.state1 = s.state1 ∧ x.state.headerReader = s.headerReader ∧
      x.state.reader = s.reader := by
  -- the poll that comes to the data touches the writer and the state of the header only
  have h_data {t : VmessSender} {ws : List WriteEvent} {y : SenderPoll}
      (h_y : t.streamData A p ws buf = .ok y) : y.state.state1 = t.state1 ∧
        y.state.headerReader = t.headerReader ∧ y.state.reader = t.reader := by
    obtain ⟨z, -, h_y⟩ := bind_eq_ok.mp h_y
    cases h_y
    exact ⟨rfl, rfl, rfl⟩
  unfold pollWriteHeader at h
  split at h
  · split at h
    · match ws with
      | [] => cases h; exact ⟨rfl, rfl, rfl⟩
      | .pending :: ws => cases h; exact ⟨rfl, rfl, rfl⟩
      | .err message :: ws => cases h; exact ⟨rfl, rfl, rfl⟩
      | .accept n :: ws =>
        dsimp only at h
        split at h
        · -- the header is not out, and the poll is pending
          cases h
          exact ⟨rfl, rfl, rfl⟩
        · -- the rest of the header, then data
          obtain ⟨y, h_y, h⟩ := bind_eq_ok.mp h
          cases h
          have h_reading := h_data h_y
          exact h_reading
    · exact h_data h
  · exact h_data h
  · cases h
    exact ⟨rfl, rfl, rfl⟩

/-- **Both directions of a client.** -/
theorem twoWay_works (h_inPlace : A.InPlace) :
    (twoWay A p).Works (Ahead A p) (Owes A p) cost taken where
  reads := by
    intro s es rest room h_ahead h_room
    obtain ⟨x, h_poll, h_x⟩ := delivers_vmess h_inPlace s.toVmessStream es rest room h_ahead h_room
    refine ⟨x.map fun stream => { s with toVmessStream := stream }, ?_, h_x.map _ ?_⟩
    · -- the reading half of the sender is its stream, which delivers on its own
      show (s.toVmessStream.privPollRead A p es room >>= _) = _
      rw [h_poll]
      rfl
    · exact fun _ _ _ h => h
  -- the writing half is the poll with a header
  writes := by
    intro s ws data slices owed h_working h_owes
    obtain ⟨x, h_poll, h_x⟩ := written_pollWriteHeader h_working h_owes
    refine ⟨_, ?_, h_x⟩
    show (s.pollWriteHeader A p ws data >>= _) = _
    rw [h_poll]
    rfl
  -- a read leaves the writer as it is, whichever half is at work
  read_owes := by
    intro s es room x slices owed h_read h_owes
    obtain ⟨y, h_poll, h_read⟩ := bind_eq_ok.mp h_read
    cases h_read
    have h_writer := VmessUdp.writer_of_privPollRead h_poll
    refine ⟨?_, rfl⟩
    cases h_owes with
    | nothing stage_eq =>
      refine .nothing ?_
      show y.state.writer.stage = _
      rwa [h_writer]
    | header state_eq owes =>
      refine .header state_eq ?_
      show V2ray.Owes _ y.state.writer _ _
      rwa [h_writer]
    | streaming state_eq owes =>
      refine .streaming state_eq ?_
      show V2ray.Owes _ y.state.writer _ _
      rwa [h_writer]
  -- a write leaves the reading half as it is
  write_ahead := by
    intro s ws data x es rest h_write h_ahead
    obtain ⟨y, h_poll, h_write⟩ := bind_eq_ok.mp h_write
    cases h_write
    obtain ⟨h_state, h_header, h_reader⟩ := reading_of_pollWriteHeader h_poll
    exact ahead_congr h_ahead h_state h_header h_reader

end VmessSender

/-! ### The server -/

namespace VmessRequest

variable (A : Aead) (D : Digests) (r : VmessRequest)

/-- The cipher for the chunks under a body key. -/
def cipherOf (bodyKey : List UInt8) : Option VmessSecurity :=
  if r.security = 3 then some (.aes128Gcm bodyKey)
  else if r.security = 4 then some (.chaCha20Poly1305 (D.chachaOf bodyKey))
  else none

def respBodyKey : List UInt8 := (D.sha256 r.key).take 16

def respBodyIv : List UInt8 := (D.sha256 r.iv).take 16

/-- A response header with this payload. -/
def responseLength (payload : List UInt8) : List UInt8 :=
  A.encryptInPlace .aes128Gcm ((D.vmessKdf1 (r.respBodyKey D) "AEAD Resp Header Len Key").take 16)
    ((D.vmessKdf1 (r.respBodyIv D) "AEAD Resp Header Len IV").take 12) (beBytes 2 payload.length)

def responseBox (payload : List UInt8) : List UInt8 :=
  A.encryptInPlace .aes128Gcm ((D.vmessKdf1 (r.respBodyKey D) "AEAD Resp Header Key").take 16)
    ((D.vmessKdf1 (r.respBodyIv D) "AEAD Resp Header IV").take 12) payload

/-- The first chunk of the request is sealed with `c`. -/
structure Requests (c : VmessAead) : Prop where
  security_eq : r.cipherOf D r.key = some c.security
  iv_eq : c.iv = r.iv
  count_eq : c.count = 0

/-- The first chunk of the response is sealed with `c`. -/
structure Responds (c : VmessAead) : Prop where
  security_eq : r.cipherOf D (r.respBodyKey D) = some c.security
  iv_eq : c.iv = r.respBodyIv D
  count_eq : c.count = 0

/-- A payload that answers the request, and asks for nothing. -/
structure Payload (payload : List UInt8) : Prop where
  four_le : 4 ≤ payload.length
  length_lt : payload.length < 65536
  respv_eq : payload[0]? = some r.respv
  port_eq : payload[2]? = some 0

/-- What the server sends for these slices. -/
inductive Sends (payload : List UInt8) (replies : List (List UInt8)) : List UInt8 → Prop
  | intro {c : VmessAead} {chunks : List UInt8} (is_payload : r.Payload payload)
      (cipher : r.Responds D c)
      (sealed : Sealed (VmessAeadWriter.format A .release) c replies chunks) :
      Sends payload replies (r.responseLength A D payload ++ (r.responseBox A D payload ++ chunks))

/-- What the server reads of these bytes, in any pieces: a part of `plain`, and all of it after
enough polls. -/
def Hears (wire plain : List UInt8) : Prop :=
  ∀ c : VmessAead, r.Requests D c → ∀ (es : List ReadEvent) (rooms : List ℕ),
    Clean es → bytesOf es = wire → (∀ room ∈ rooms, 0 < room) →
    ∃ y, readRun (VmessAeadReader.pollReadDecrypted A .release) rooms
        (VmessAeadReader.new c.security c.iv c.iv_len) es = .ok y ∧
      y.put <+: plain ∧ (∀ e, y.how ≠ .failed e) ∧ (y.how = .ended → y.put = plain) ∧
      (pendings es + plain.length ≤ rooms.length → y.put = plain)

end VmessRequest

section Session

variable {A : Aead} {D : Digests} {option : VmessOption} {salt : Vector UInt8 64}
  {stream : VmessStream}

/-- A stream that seals and opens as its request says. -/
structure VmessStream.Agrees (D : Digests) (option : VmessOption) (salt : Vector UInt8 64)
    (s : VmessStream) : Prop where
  requests : (requestOf option salt).Requests D s.writer.cipher
  responds : (requestOf option salt).Responds D s.reader.cipher
  header_eq : s.headerReader = .new D.vmessKdf1 ((requestOf option salt).respBodyKey D)
    ((requestOf option salt).respBodyIv D) (requestOf option salt).respv
  writer_idle : s.writer.stage = .idle ∧ s.writer.buffer = []

/-- Both methods fit into four bits. -/
theorem security_lt {r : VmessRequest} {bodyKey : List UInt8} {security : VmessSecurity}
    (h : r.cipherOf D bodyKey = some security) : r.security < 16 := by
  unfold VmessRequest.cipherOf at h
  split at h
  · next h_three =>
    rw [h_three]
    decide
  · split at h
    · next h_four =>
      rw [h_four]
      decide
    · cases h

/-- A new stream does, if its keys are those of its method. -/
theorem agrees_new (h_new : VmessStream.new D option.securityNum.toNat salt = .ok stream)
    (h_keys : option.securityNum = 3 ∨ stream.DerivesKeys D salt) :
    stream.Agrees D option salt := by
  unfold VmessStream.new at h_new
  dsimp only at h_new
  split at h_new
  · next h_three =>
    -- AES-128-GCM takes the body key as it is
    have h_security : option.securityNum = 3 := UInt8.toNat_inj.mp h_three
    have h_cipher (key : List UInt8) : (requestOf option salt).cipherOf D key =
        some (.aes128Gcm key) := if_pos h_security
    cases h_new
    exact ⟨⟨h_cipher _, rfl, rfl⟩, ⟨h_cipher _, rfl, rfl⟩, rfl, rfl, rfl⟩
  · next h_four =>
    -- ChaCha20-Poly1305 derives it, which is where `h_keys` comes in
    have h_security : option.securityNum = 4 := UInt8.toNat_inj.mp h_four
    have h_not : option.securityNum ≠ 3 := by
      rw [h_security]
      decide
    have h_cipher (key : List UInt8) : (requestOf option salt).cipherOf D key =
        some (.chaCha20Poly1305 (D.chachaOf key)) :=
      (if_neg h_not).trans (if_pos h_security)
    obtain ⟨h_writer, h_reader⟩ := h_keys.resolve_left h_not
    cases h_new
    refine ⟨⟨?_, rfl, rfl⟩, ⟨?_, rfl, rfl⟩, rfl, rfl, rfl⟩
    · exact (h_cipher _).trans (congrArg some h_writer.symm)
    · exact (h_cipher _).trans (congrArg some h_reader.symm)
  · cases h_new

/-- The request and the user decide the first cipher of each direction. -/
theorem vmessAead_ext {c c' : VmessAead} (h_security : c.security = c'.security)
    (h_iv : c.iv = c'.iv) (h_count : c.count = c'.count) : c = c' := by
  obtain ⟨security, iv, count, iv_len⟩ := c
  obtain ⟨security', iv', count', iv_len'⟩ := c'
  cases h_security
  cases h_iv
  cases h_count
  rfl

theorem VmessStream.Agrees.eq_writer {c : VmessAead} (h : stream.Agrees D option salt)
    (h_c : (requestOf option salt).Requests D c) : c = stream.writer.cipher :=
  vmessAead_ext (Option.some.inj (h_c.security_eq.symm.trans h.requests.security_eq))
    (h_c.iv_eq.trans h.requests.iv_eq.symm) (h_c.count_eq.trans h.requests.count_eq.symm)

theorem VmessStream.Agrees.eq_reader {c : VmessAead} (h : stream.Agrees D option salt)
    (h_c : (requestOf option salt).Responds D c) : c = stream.reader.cipher :=
  vmessAead_ext (Option.some.inj (h_c.security_eq.symm.trans h.responds.security_eq))
    (h_c.iv_eq.trans h.responds.iv_eq.symm) (h_c.count_eq.trans h.responds.count_eq.symm)

/-- The header of a response is valid for the client. -/
theorem VmessStream.Agrees.validHeader (h_aead : A.Lawful) (h : stream.Agrees D option salt)
    {payload : List UInt8} (h_payload : (requestOf option salt).Payload payload) :
    ValidHeader A stream.headerReader ((requestOf option salt).responseLength A D payload)
      ((requestOf option salt).responseBox A D payload) payload where
  -- the lengths go through the same two keys
  len_opens := by
    rw [h.header_eq]
    refine ⟨beBytes 2 payload.length, h_aead.decrypt_encrypt _ _ _ _, length_beBytes _ _, ?_⟩
    rw [ofBeBytes_beBytes]
    exact Nat.mod_eq_of_lt h_payload.length_lt
  box_opens := by
    rw [h.header_eq]
    exact h_aead.decrypt_encrypt _ _ _ _
  four_le := h_payload.four_le
  respv_eq := by
    rw [h.header_eq]
    exact h_payload.respv_eq
  port_eq := h_payload.port_eq

/-- What a client gets of the response. -/
theorem VmessStream.Agrees.ahead (h_aead : A.Lawful) (h : stream.Agrees D option salt)
    (h_fresh : stream.Fresh) {payload down : List UInt8} {replies : List (List UInt8)}
    (h_down : (requestOf option salt).Sends A D payload replies down) {es : List ReadEvent}
    (h_clean : Clean es) (h_bytes : bytesOf es = down) :
    VmessAhead A .release stream es
      (replies.map fun data => data.take (chunkSize - 16)).flatten := by
  obtain ⟨h_wait, ⟨h_stage, h_buffer⟩, h_reader⟩ := h_fresh
  cases h_down with
  | @intro c chunks is_payload cipher sealed =>
    rw [h.eq_reader cipher] at sealed
    have h_header := h.validHeader h_aead is_payload
    have h_ahead : HeaderAhead A stream.headerReader es chunks :=
      .length h_stage h_header h_clean (by rw [h_buffer]; exact h_bytes)
    exact .waitResp h_wait h_ahead (congrArg FramedReader.stage h_reader)
      (frames_of_vmess_sealed h_aead sealed)

/-- What a server gets of the chunks. -/
theorem VmessStream.Agrees.hears (h_aead : A.Lawful) (h : stream.Agrees D option salt)
    {slices : List (List UInt8)} {wire : List UInt8}
    (h_sealed : Sealed (VmessAeadWriter.format A .release) stream.writer.cipher slices wire) :
    (requestOf option salt).Hears A D wire
      (slices.map fun data => data.take (chunkSize - 16)).flatten := by
  intro c h_c es rooms h_clean h_bytes h_rooms
  rw [← h.eq_writer h_c] at h_sealed
  have h_frames := frames_of_vmess_sealed h_aead h_sealed
  -- the reader begins with the cipher that the first chunk is sealed with
  have h_new : (VmessAeadReader.new c.security c.iv c.iv_len).cipher = c :=
    vmessAead_ext rfl rfl h_c.count_eq.symm
  rw [← h_new] at h_frames
  have h_ahead : FramedReader.AheadOf (VmessAeadReader.format A .release)
      (VmessAeadReader.new c.security c.iv c.iv_len) es
      (slices.map fun data => data.take (chunkSize - 16)).flatten := by
    refine ⟨h_clean, ?_⟩
    show FramedReader.Ahead _ _ ([] ++ bytesOf es) _
    rw [List.nil_append, h_bytes]
    exact .head rfl h_frames
  exact run_of_delivers
    (FramedReader.delivers_pollRead (VmessAeadReader.format_sound h_aead.toInPlace)) h_ahead h_rooms

/-- **A session.** A client polls its stream to read and to write in any order. When its slices are
written, a server that knows the id gets the request out of the bytes, and of what follows it the
slices; and what such a server sends for that request arrives at the client, whatever is written in
the meantime. Enough polls of either kind do it: a read for each byte of the response and for each
time there is nothing to read yet, a write for each byte of the header, for each slice and for each
time there is no room yet. Of a slice that is longer than a chunk only its first bytes are sent, as
`poll_write` reports. -/
theorem vmess_session {σ : Type} {K : RequestCrypto σ} (h_aead : A.Lawful)
    (h_header : K.header.Lawful)
    (h_new : VmessStream.new K.digests option.securityNum.toNat salt = .ok stream)
    (h_keys : option.securityNum = 3 ∨ stream.DerivesKeys K.digests salt)
    (h_addr : option.addr.onWire.Encodable) (d : HeaderDraws) {slices : List (List UInt8)}
    (h_some : slices ≠ []) (h_slices : ∀ data ∈ slices, data ≠ []) {ws : List WriteEvent}
    (h_working : Working ws) {payload down : List UInt8} {replies : List (List UInt8)}
    (h_down : (requestOf option salt).Sends A K.digests payload replies down)
    {es : List ReadEvent} (h_clean : Clean es) (h_bytes : bytesOf es = down)
    {ops : List TwoWayOp} (h_ops : TwoWay.Roomy ops) :
    ∃ wire run, (VmessSender.twoWay A .release).run ops (TwoWay.start
        (.new stream (K.constructHeaderData option salt d)) slices es ws) = .ok run ∧
      let up := (slices.map fun data => data.take (chunkSize - 16)).flatten
      let plain := (replies.map fun data => data.take (chunkSize - 16)).flatten
      run.out <+: K.constructHeaderData option salt d ++ wire ∧
      (run.left = [] →
        K.openRequest option.uuid run.out = some (requestOf option salt, wire) ∧
        (requestOf option salt).Hears A K.digests wire up) ∧
      run.got <+: plain ∧ (∀ e, run.how ≠ .failed e) ∧ (run.how = .ended → run.got = plain) ∧
      (pendings es + plain.length ≤ TwoWay.readsOf ops → run.got = plain) ∧
      ((K.constructHeaderData option salt d).length + writePendings ws + slices.length ≤
          TwoWay.writesOf ops →
        (K.constructHeaderData option salt d).length +
          (slices.map fun data => 18 + min (chunkSize - 16) data.length).sum ≤ accepts ws →
        run.left = []) := by
  -- both ends agree on the ciphers, so the chunks of either are frames for the other
  have h_agrees := agrees_new h_new h_keys
  have h_security := security_lt h_agrees.requests.security_eq
  obtain ⟨wire, h_sealed⟩ := exists_vmess_sealed A stream.writer.cipher h_slices
  obtain ⟨data, rest, rfl⟩ := List.exists_cons_of_ne_nil h_some
  -- the stream begins with the header unsent, and owes it with the chunks behind
  have h_owes : VmessSender.Owes A .release (.new stream (K.constructHeaderData option salt d))
      (data :: rest) (K.constructHeaderData option salt d ++ wire) :=
    .header rfl (owes_of_sealed h_agrees.writer_idle.1 h_agrees.writer_idle.2 h_sealed)
  have h_ahead := h_agrees.ahead h_aead (VmessStream.fresh_new h_new) h_down h_clean h_bytes
  -- one run of both directions: what is out and what is got are prefixes, by invariants
  obtain ⟨run, owed, later, h_run, h_goes, h_out, h_got, -, h_reads, h_writes⟩ :=
    (VmessSender.twoWay_works h_aead.toInPlace).run h_owes h_ahead h_working h_ops
  refine ⟨wire, run, h_run, ⟨owed, h_out.symm⟩, fun h_left => ?_, ⟨later, h_got.symm⟩,
    h_goes.not_failed, fun h_ended => ?_, fun h_enough => ?_, fun h_enough h_accepts => ?_⟩
  · -- nothing is owed, so all of it is out
    have h_none := h_goes.owes
    rw [h_left] at h_none
    cases h_none
    rw [List.append_nil] at h_out
    rw [← h_out]
    exact ⟨openRequest_sealed h_header h_addr h_security salt d wire,
      h_agrees.hears h_aead h_sealed⟩
  · -- the end of the response: nothing is ahead
    rw [h_got, h_goes.ended h_ended, List.append_nil]
  · -- enough reads leave nothing ahead
    rw [h_got, h_reads h_enough, List.append_nil]
  · -- enough writes leave nothing owed, if the room that is granted is that of the whole request
    refine h_writes h_enough ?_
    rw [List.length_append, length_of_vmess_sealed h_aead.toInPlace h_sealed]
    exact h_accepts

/-- Toy ciphers, which only add a tag. -/
def HeaderCrypto.tagged : HeaderCrypto where
  crc32 _ := 0
  encryptBlock _ block := block
  decryptBlock _ block := block
  encryptInPlace _ _ _ message := message ++ List.replicate tagSize 0
  decryptInPlace _ _ _ buffer := some (buffer.take (buffer.length - tagSize))

/-- What is assumed of the sealing of a header is satisfiable. -/
theorem HeaderCrypto.tagged_lawful : HeaderCrypto.tagged.Lawful where
  length_encryptBlock _ _ h := h
  decrypt_encryptBlock _ _ _ _ := rfl
  length_encrypt _ _ _ message := by
    show (message ++ List.replicate tagSize 0).length = _
    rw [List.length_append, List.length_replicate]
  decrypt_encrypt _ _ _ message := by
    show some ((message ++ List.replicate tagSize 0).take
      ((message ++ List.replicate tagSize 0).length - tagSize)) = _
    rw [List.length_append, List.length_replicate, Nat.add_sub_cancel, List.take_left]

/-- The key derivation of the client, over the toy ciphers. -/
def RequestCrypto.sample : RequestCrypto (HmacWithHasher Sha256) where
  kdf := hmacSha256
  header := .tagged
  digests := { Digests.zeros with
    sha256 := fun data => V2ray.sha256.finalize (V2ray.sha256.update Sha256.new data)
    vmessKdf1 := hmacSha256.kdfOfPath
    length_sha256 := fun _ => V2ray.sha256.length_finalize _ }
  kdf1_eq := rfl

/-- A request for `a:53`, byte by byte, with two bytes of data; one byte comes back. -/
theorem vmess_session_hi :
    let option : VmessOption := ⟨0, 0, .domainNameAddress "a" 53, 3, false⟩
    let salt : Vector UInt8 64 := Vector.replicate 64 1
    let d : HeaderDraws :=
      ⟨7, Vector.replicate 16 2, 99, Vector.replicate 4 3, Vector.replicate 8 4⟩
    ∃ stream wire es run,
      VmessStream.new RequestCrypto.sample.digests 3 salt = .ok stream ∧
      (VmessSender.twoWay .tagged .release).run (List.replicate 400 .write ++ [.read 2])
        (TwoWay.start (.new stream (RequestCrypto.sample.constructHeaderData option salt d))
          [[104, 105]] es (List.replicate 400 (.accept 1))) = .ok run ∧
      RequestCrypto.sample.openRequest 0 run.out = some (requestOf option salt, wire) ∧
      run.got = [33] := by
  intro option salt d
  have h_new : ∃ stream, VmessStream.new RequestCrypto.sample.digests option.securityNum.toNat
      salt = .ok stream := ⟨_, rfl⟩
  obtain ⟨stream, h_new⟩ := h_new
  have h_agrees : stream.Agrees RequestCrypto.sample.digests option salt :=
    agrees_new h_new (.inl rfl)
  -- the response
  have h_replies : ∀ data ∈ ([[33]] : List (List UInt8)), data ≠ [] := by decide
  obtain ⟨chunks, h_chunks⟩ := exists_vmess_sealed .tagged stream.reader.cipher h_replies
  have h_payload : (requestOf option salt).Payload [1, 0, 0, 0] := ⟨by decide, by decide, rfl, rfl⟩
  have h_down := VmessRequest.Sends.intro (A := .tagged) h_payload h_agrees.responds h_chunks
  have h_addr : option.addr.onWire.Encodable := show ("a".toUTF8.size ≤ 255) by decide
  have h_len :=
    length_constructHeaderData_le (K := .sample) HeaderCrypto.tagged_lawful h_addr salt d
  have h_ops : TwoWay.Roomy (List.replicate 400 .write ++ [.read 2]) := by
    intro room h_room
    rcases List.mem_append.mp h_room with h_write | h_read
    · cases List.eq_of_mem_replicate h_write
    · cases List.mem_singleton.mp h_read
      decide
  have h_writesOf : TwoWay.writesOf (List.replicate 400 .write ++ [.read 2]) = 400 := by
    unfold TwoWay.writesOf
    rw [List.countP_append, List.countP_replicate]
    rfl
  have h_readsOf : TwoWay.readsOf (List.replicate 400 .write ++ [.read 2]) = 1 := by
    unfold TwoWay.readsOf
    rw [List.countP_append, List.countP_replicate]
    rfl
  obtain ⟨wire, run, h_run, -, h_up, -, -, -, h_reads, h_writes⟩ :=
    vmess_session (K := .sample) Aead.tagged_lawful HeaderCrypto.tagged_lawful h_new (.inl rfl)
      h_addr d (List.cons_ne_nil [104, 105] []) (by decide)
      (working_replicate 400 (k := 1) (by decide))
      h_down (clean_oneByOne _) (bytesOf_oneByOne _) h_ops
  refine ⟨stream, wire, _, run, h_new, h_run, (h_up (h_writes ?_ ?_)).1, h_reads ?_⟩
  · rw [h_writesOf, writePendings_replicate]
    exact Nat.add_le_add_right (Nat.le_trans h_len (by decide)) 1
  · rw [accepts_replicate]
    exact Nat.le_trans (Nat.add_le_add_right h_len _) (by decide)
  · rw [h_readsOf, pendings_oneByOne]
    decide

end Session

end V2ray

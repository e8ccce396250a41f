import V2rayRust.Lib.FramedReader
import V2rayRust.Proxy.Shadowsocks.AeadHelper

/-!
# The response header of a VMess server

`proxy/vmess/aead_header.rs`: the sealed length of the header, and the sealed header. A reader
reports that it is done when the header is there, but also when the stream ends before it
(`header_end_of_ready`); and it checks the bytes of the header on the whole of its buffer.

There are two accounts of a poll. When a valid header is ahead it is read, whatever the segmentation
(`HeaderAhead`). On a schedule of any answers, a poll that is pending goes on later as if it had not
been (`OneShot`), so what comes of all polls is what comes of one poll of the schedule without its
pending answers, and it can be told from the bytes when this is a valid header (`headerDone_iff`).
-/

namespace V2ray

/-- Where `poll_read_decrypted` is suspended. -/
inductive HeaderStage
  | length
  | payload
  | done
  deriving DecidableEq, Repr

/-- `VmessHeaderReader`; both ciphers are AES-128-GCM, and stand for their keys. -/
structure VmessHeaderReader where
  buffer : List UInt8
  stage : HeaderStage
  respHeaderLenEnc : List UInt8
  headerLenIv : List UInt8
  respHeaderPayloadEnc : List UInt8
  headerPayloadIv : List UInt8
  respv : UInt8
  dataLength : ℕ
  receivedResp : Bool
  deriving DecidableEq

/-- What a poll of a header reader leaves. -/
structure HeaderPoll where
  state : VmessHeaderReader
  events : List ReadEvent
  result : Poll (Except String Unit)

namespace VmessHeaderReader

/-- `VmessHeaderReader::new`; `kdf` is `vmess_kdf_1_one_shot`, with the path as a string. -/
def new (kdf : List UInt8 → String → List UInt8) (respBodyKey respBodyIv : List UInt8)
    (respv : UInt8) : VmessHeaderReader where
  buffer := []
  stage := .length
  respHeaderLenEnc := (kdf respBodyKey "AEAD Resp Header Len Key").take 16
  headerLenIv := (kdf respBodyIv "AEAD Resp Header Len IV").take 12
  respHeaderPayloadEnc := (kdf respBodyKey "AEAD Resp Header Key").take 16
  headerPayloadIv := (kdf respBodyIv "AEAD Resp Header IV").take 12
  respv := respv
  dataLength := 0
  receivedResp := false

/-- A poll that ends with an error. -/
def fail (h : VmessHeaderReader) (es : List ReadEvent) (message : String) : HeaderPoll :=
  ⟨{ h with stage := .done }, es, .ready (.error message)⟩

/-- A wait for bytes that does not end with a full buffer leaves the poll; the end of the
stream is `read_zero`, and no error. -/
def unfilled (h : VmessHeaderReader) (es : List ReadEvent) : Filled → HeaderPoll
  | .full | .pending => ⟨h, es, .pending⟩
  | .ended => ⟨{ h with stage := .done }, es, .ready (.ok ())⟩
  | .err message => h.fail es message

/-- What follows once the buffer holds the header. -/
def openPayload (A : Aead) (p : Profile) (h : VmessHeaderReader) (es : List ReadEvent) :
    Except Fault HeaderPoll := do
  let (opened, m) ← A.decryptInplaceWithSlice p .aes128Gcm h.respHeaderPayloadEnc h.headerPayloadIv
    (h.buffer.take (h.dataLength + 16))
  if ¬ opened then
    return h.fail es "decrypted resp header payload failed!"
  let buffer := m ++ h.buffer.drop (h.dataLength + 16)
  let h := { h with buffer }
  -- tag(16) + vmess command(at least 4), but the buffer may hold what follows the header
  if buffer.length < 20 then
    return h.fail es "unexpected buffer length!"
  if (← index buffer 0) ≠ h.respv then
    return h.fail es "unexpected response header!"
  if (← index buffer 2) ≠ 0 then
    return h.fail es "dynamic port is not supported now!"
  let (_, buffer) ← splitTo (h.dataLength + 16) buffer
  return ⟨{ h with buffer, dataLength := buffer.length, receivedResp := true, stage := .done }, es,
    .ready (.ok ())⟩

/-- The second half of `poll_read_decrypted`. -/
def pollPayload (A : Aead) (p : Profile) (h : VmessHeaderReader) (es : List ReadEvent) :
    Except Fault HeaderPoll :=
  match readAtLeast (h.dataLength + 16) h.buffer es with
  | (.full, buffer, es) => openPayload A p { h with buffer } es
  | (f, buffer, es) => .ok (unfilled { h with buffer } es f)

/-- What follows once the buffer holds the length. -/
def openLength (A : Aead) (p : Profile) (h : VmessHeaderReader) (es : List ReadEvent) :
    Except Fault HeaderPoll := do
  let (opened, m) ← A.decryptInplaceWithSlice p .aes128Gcm h.respHeaderLenEnc h.headerLenIv
    (h.buffer.take 18)
  if ¬ opened then
    return h.fail es "decrypted resp header len failed!"
  let (length, buffer) ← splitTo 2 (m ++ h.buffer.drop 18)
  let (_, buffer) ← splitTo 16 buffer
  pollPayload A p { h with buffer, dataLength := ofBeBytes length, stage := .payload } es

/-- `poll_read_decrypted` -/
def pollReadDecrypted (A : Aead) (p : Profile) (h : VmessHeaderReader) (es : List ReadEvent) :
    Except Fault HeaderPoll :=
  match h.stage with
  | .length =>
    match readAtLeast 18 h.buffer es with
    | (.full, buffer, es) => openLength A p { h with buffer } es
    | (f, buffer, es) => .ok (unfilled { h with buffer } es f)
  | .payload => pollPayload A p h es
  | .done => .ok ⟨h, es, .ready (.error "unexpected end of file")⟩

end VmessHeaderReader

open VmessHeaderReader

/-- The two boxes of a header, which open to its length and to its payload. -/
structure OpenHeader (A : Aead) (h : VmessHeaderReader) (len box payload : List UInt8) : Prop where
  len_opens : ∃ m, A.decryptInPlace .aes128Gcm h.respHeaderLenEnc h.headerLenIv len = some m ∧
    m.length = 2 ∧ ofBeBytes m = payload.length
  box_opens : A.decryptInPlace .aes128Gcm h.respHeaderPayloadEnc h.headerPayloadIv box =
    some payload

/-- A header that answers the request and asks for nothing. -/
structure ValidHeader (A : Aead) (h : VmessHeaderReader) (len box payload : List UInt8) : Prop
    extends OpenHeader A h len box payload where
  four_le : 4 ≤ payload.length
  respv_eq : payload[0]? = some h.respv
  port_eq : payload[2]? = some 0

/-- What the reader checks, on a buffer that begins with the payload. -/
structure Passes (respv : UInt8) (buffer : List UInt8) : Prop where
  twenty_le : 20 ≤ buffer.length
  respv_eq : buffer[0]? = some respv
  port_eq : buffer[2]? = some 0

section Header

variable {A : Aead} {p : Profile} {h : VmessHeaderReader} {es es' : List ReadEvent}
  {len box payload later buffer : List UInt8}

theorem OpenHeader.length_len (h_inPlace : A.InPlace) (h_open : OpenHeader A h len box payload) :
    len.length = 18 := by
  obtain ⟨m, h_m, h_two, -⟩ := h_open.len_opens
  have h_len := h_inPlace.length_decrypt h_m
  unfold tagSize at h_len
  omega

theorem OpenHeader.length_box (h_inPlace : A.InPlace) (h_open : OpenHeader A h len box payload) :
    box.length = payload.length + 16 :=
  (h_inPlace.length_decrypt h_open.box_opens).symm

/-- The header that a stream of bytes begins with is the only one. -/
theorem OpenHeader.unique (h_inPlace : A.InPlace) {len' box' payload' later' : List UInt8}
    (h_open : OpenHeader A h len box payload) (h_open' : OpenHeader A h len' box' payload')
    (h_bytes : len ++ (box ++ later) = len' ++ (box' ++ later')) : payload = payload' := by
  obtain ⟨rfl, h_rest⟩ := List.append_inj h_bytes
    ((h_open.length_len h_inPlace).trans (h_open'.length_len h_inPlace).symm)
  obtain ⟨m, h_m, -, h_len⟩ := h_open.len_opens
  obtain ⟨m', h_m', -, h_len'⟩ := h_open'.len_opens
  obtain rfl : m = m' := Option.some.inj (h_m.symm.trans h_m')
  have h_boxes : box.length = box'.length := by
    rw [h_open.length_box h_inPlace, h_open'.length_box h_inPlace, ← h_len, ← h_len']
  obtain ⟨rfl, -⟩ := List.append_inj h_rest h_boxes
  exact Option.some.inj (h_open.box_opens.symm.trans h_open'.box_opens)

/-- Whether a header is valid does not depend on what has been read. -/
theorem ValidHeader.of_reading (h_valid : ValidHeader A h len box payload) {stage : HeaderStage}
    {dataLength : ℕ} {receivedResp : Bool} :
    ValidHeader A { h with buffer, stage, dataLength, receivedResp } len box payload :=
  ⟨⟨h_valid.len_opens, h_valid.box_opens⟩, h_valid.four_le, h_valid.respv_eq, h_valid.port_eq⟩

/-- A valid header passes whatever follows it. -/
theorem ValidHeader.passes (h_valid : ValidHeader A h len box payload) {tag : List UInt8}
    (h_tag : 16 ≤ tag.length) : Passes h.respv (payload ++ tag) where
  twenty_le := by
    have h_four := h_valid.four_le
    rw [List.length_append]
    omega
  respv_eq := by
    rw [List.getElem?_append_left (Nat.lt_of_lt_of_le (by decide) h_valid.four_le)]
    exact h_valid.respv_eq
  port_eq := by
    rw [List.getElem?_append_left (Nat.lt_of_lt_of_le (by decide) h_valid.four_le)]
    exact h_valid.port_eq

/-! ### The spec of each step -/

/-- What stands behind a part of a box, and behind the box. -/
theorem drop_take_append_drop (xs : List UInt8) (n k : ℕ) :
    (xs.take (n + k)).drop n ++ xs.drop (n + k) = xs.drop n := by
  rw [List.drop_take, Nat.add_sub_cancel_left, ← List.drop_drop, List.take_append_drop]

/-- A box that is opened in place: the payload, and after it what stood there. -/
theorem decryptInplace_take {key nonce : List UInt8} {n : ℕ} (h_inPlace : A.InPlace)
    (h_le : n + 16 ≤ buffer.length)
    (h_open : A.decryptInPlace .aes128Gcm key nonce (buffer.take (n + 16)) = some payload) :
    payload.length = n ∧ ∃ m,
      A.decryptInplaceWithSlice p .aes128Gcm key nonce (buffer.take (n + 16)) = .ok (true, m) ∧
        m ++ buffer.drop (n + 16) = payload ++ buffer.drop n := by
  have h_take : (buffer.take (n + 16)).length = n + 16 := List.length_take_of_le h_le
  have h_len := h_inPlace.length_decrypt h_open
  rw [h_take] at h_len
  refine ⟨Nat.add_right_cancel h_len,
    payload ++ (buffer.take (n + 16)).drop ((buffer.take (n + 16)).length - tagSize), ?_, ?_⟩
  · rw [Aead.decryptInplace_of_le (by rw [h_take]; exact Nat.le_add_left _ _), h_open]
  · show payload ++ (buffer.take (n + 16)).drop ((buffer.take (n + 16)).length - 16) ++ _ = _
    rw [h_take, Nat.add_sub_cancel, List.append_assoc, drop_take_append_drop]

/-- A box that does not open stays as it is. -/
theorem decryptInplace_none {key nonce : List UInt8} {n : ℕ} (h_le : n + 16 ≤ buffer.length)
    (h_open : A.decryptInPlace .aes128Gcm key nonce (buffer.take (n + 16)) = none) :
    A.decryptInplaceWithSlice p .aes128Gcm key nonce (buffer.take (n + 16)) =
      .ok (false, buffer.take (n + 16)) := by
  have h_take : (buffer.take (n + 16)).length = n + 16 := List.length_take_of_le h_le
  rw [Aead.decryptInplace_of_le (by rw [h_take]; exact Nat.le_add_left _ _), h_open]

/-- A payload that opens, with bytes that pass. -/
theorem openPayload_of_passes (es : List ReadEvent) (h_inPlace : A.InPlace)
    (h_le : h.dataLength + 16 ≤ h.buffer.length)
    (h_open : A.decryptInPlace .aes128Gcm h.respHeaderPayloadEnc h.headerPayloadIv
      (h.buffer.take (h.dataLength + 16)) = some payload)
    (h_passes : Passes h.respv (payload ++ h.buffer.drop h.dataLength)) :
    openPayload A p h es = .ok ⟨{ h with
      buffer := h.buffer.drop (h.dataLength + 16),
      dataLength := (h.buffer.drop (h.dataLength + 16)).length,
      receivedResp := true, stage := .done }, es, .ready (.ok ())⟩ := by
  obtain ⟨h_len, m, h_m, h_buffer⟩ := decryptInplace_take (p := p) h_inPlace h_le h_open
  obtain ⟨h_twenty, h_first, h_third⟩ := h_passes
  -- the tag is still behind the payload, and goes with it
  have h_split : splitTo (h.dataLength + 16) (payload ++ h.buffer.drop h.dataLength) =
      .ok (payload ++ (h.buffer.drop h.dataLength).take 16, h.buffer.drop (h.dataLength + 16)) := by
    rw [splitTo_of_le (by rw [List.length_append, List.length_drop]; omega), ← h_len,
      List.take_length_add_append, List.drop_length_add_append, List.drop_drop]
  unfold openPayload
  rw [h_m, ok_bind]
  dsimp only
  rw [h_buffer, if_neg (by decide), if_neg (Nat.not_lt_of_le h_twenty),
    index_of_getElem? h_first, ok_bind, if_neg (not_not_intro rfl),
    index_of_getElem? h_third, ok_bind, if_neg (not_not_intro rfl), h_split]
  rfl

/-- A payload that does not open, or bytes that do not pass. -/
theorem openPayload_of_not (es : List ReadEvent) (h_inPlace : A.InPlace)
    (h_le : h.dataLength + 16 ≤ h.buffer.length)
    (h_not : ∀ payload, A.decryptInPlace .aes128Gcm h.respHeaderPayloadEnc h.headerPayloadIv
      (h.buffer.take (h.dataLength + 16)) = some payload →
        ¬ Passes h.respv (payload ++ h.buffer.drop h.dataLength)) :
    ∃ h' message, openPayload A p h es = .ok ⟨h', es, .ready (.error message)⟩ := by
  unfold openPayload
  cases h_open : A.decryptInPlace .aes128Gcm h.respHeaderPayloadEnc h.headerPayloadIv
      (h.buffer.take (h.dataLength + 16)) with
  | none =>
    rw [decryptInplace_none h_le h_open, ok_bind]
    exact ⟨_, _, rfl⟩
  | some payload =>
    obtain ⟨h_len, m, h_m, h_buffer⟩ := decryptInplace_take (p := p) h_inPlace h_le h_open
    have h_not := h_not payload h_open
    rw [h_m, ok_bind]
    dsimp only
    rw [h_buffer, if_neg (by decide)]
    generalize payload ++ h.buffer.drop h.dataLength = buffer at h_not ⊢
    -- what is left is the order of the checks: the length, the response byte, the port byte
    by_cases h_twenty : buffer.length < 20
    · rw [if_pos h_twenty]
      exact ⟨_, _, rfl⟩
    rw [if_neg h_twenty]
    have h_first : buffer[0]? = some buffer[0] := List.getElem?_eq_getElem (by omega)
    have h_third : buffer[2]? = some buffer[2] := List.getElem?_eq_getElem (by omega)
    rw [index_of_getElem? h_first, ok_bind]
    by_cases h_respv : buffer[0] = h.respv
    · have h_port : buffer[2] ≠ 0 := fun h_zero =>
        h_not ⟨Nat.le_of_not_lt h_twenty, h_respv ▸ h_first, h_zero ▸ h_third⟩
      rw [if_neg (not_not_intro h_respv), index_of_getElem? h_third, ok_bind, if_pos h_port]
      exact ⟨_, _, rfl⟩
    · rw [if_pos h_respv]
      exact ⟨_, _, rfl⟩

/-- A length that opens. -/
theorem openLength_of_open {m : List UInt8} (h_inPlace : A.InPlace) (h_le : 18 ≤ h.buffer.length)
    (h_open : A.decryptInPlace .aes128Gcm h.respHeaderLenEnc h.headerLenIv (h.buffer.take 18) =
      some m) :
    openLength A p h es = pollPayload A p { h with
      buffer := h.buffer.drop 18, dataLength := ofBeBytes m, stage := .payload } es := by
  obtain ⟨h_len, m', h_m', h_buffer⟩ := decryptInplace_take (n := 2) (p := p) h_inPlace h_le h_open
  have h_two : splitTo 2 (m ++ h.buffer.drop 2) = .ok (m, h.buffer.drop 2) := by
    rw [splitTo_of_le (by rw [List.length_append]; omega), ← h_len, List.take_left, List.drop_left]
  have h_tag : splitTo 16 (h.buffer.drop 2) =
      .ok ((h.buffer.drop 2).take 16, h.buffer.drop 18) := by
    rw [splitTo_of_le (by rw [List.length_drop]; omega), List.drop_drop]
  unfold openLength
  rw [h_m', ok_bind]
  dsimp only
  rw [if_neg (by decide), h_buffer, h_two, ok_bind]
  dsimp only
  rw [h_tag]
  rfl

/-- A length that does not open. -/
theorem openLength_of_none (es : List ReadEvent) (h_le : 18 ≤ h.buffer.length)
    (h_open : A.decryptInPlace .aes128Gcm h.respHeaderLenEnc h.headerLenIv (h.buffer.take 18) =
      none) :
    ∃ h' message, openLength A p h es = .ok ⟨h', es, .ready (.error message)⟩ := by
  unfold openLength
  rw [decryptInplace_none (n := 2) h_le h_open, ok_bind]
  exact ⟨_, _, rfl⟩

/-! ### A header on a stream that works -/

/-- A header is on its way, and after it `wire`. -/
inductive HeaderAhead (A : Aead) (h : VmessHeaderReader) (es : List ReadEvent) (wire : List UInt8) :
    Prop
  | length {len box payload : List UInt8} (stage_eq : h.stage = .length)
      (valid : ValidHeader A h len box payload) (clean : Clean es)
      (bytes_eq : h.buffer ++ bytesOf es = len ++ (box ++ wire))
  | payload {len box payload : List UInt8} (stage_eq : h.stage = .payload)
      (valid : ValidHeader A h len box payload) (clean : Clean es)
      (dataLength_eq : h.dataLength = payload.length)
      (bytes_eq : h.buffer ++ bytesOf es = box ++ wire)

/-- What a poll does then: a pending answer is spent, or the header is read. -/
inductive HeaderDelivery (A : Aead) (es : List ReadEvent) (wire : List UInt8)
    (x : HeaderPoll) : Prop
  | pending (result_eq : x.result = .pending) (ahead : HeaderAhead A x.state x.events wire)
      (spent : pendings x.events < pendings es)
  | done (result_eq : x.result = .ready (.ok ())) (clean : Clean x.events)
      (bytes_eq : x.state.buffer ++ bytesOf x.events = wire)
      (pendings_le : pendings x.events ≤ pendings es)

/-- The bytes on the way are enough for a box that is ahead. -/
theorem not_lt_of_no_bytes {n : ℕ} {front : List UInt8} (h_front : front.length = n)
    (h_bytes : buffer ++ bytesOf es = front ++ later) (h_nil : bytesOf es = []) :
    ¬ buffer.length < n := by
  have h_len := congrArg List.length h_bytes
  rw [h_nil, List.append_nil, List.length_append] at h_len
  omega

/-- A poll that reads the payload of a valid header. -/
theorem HeaderAhead.poll_payload {wire : List UInt8} (h_inPlace : A.InPlace)
    (h_stage : h.stage = .payload) (h_valid : ValidHeader A h len box payload) (h_clean : Clean es)
    (h_len : h.dataLength = payload.length) (h_bytes : h.buffer ++ bytesOf es = box ++ wire) :
    ∃ x, pollPayload A p h es = .ok x ∧ HeaderDelivery A es wire x := by
  have h_box : box.length = h.dataLength + 16 := h_len ▸ h_valid.length_box h_inPlace
  unfold pollPayload
  rcases h_read : readAtLeast (h.dataLength + 16) h.buffer es with ⟨f, buffer, es'⟩
  have h_bytes : buffer ++ bytesOf es' = box ++ wire := (readAtLeast_cases h_read).1.trans h_bytes
  -- the sealed header is at the front of the buffer, and the bytes after it are those of the stream
  cases readClean h_clean h_read with
  | full clean le pendings_le =>
    obtain ⟨h_take, h_drop⟩ := FramedReader.take_drop_of_append_eq h_bytes (h_box ▸ le)
    rw [h_box] at h_take h_drop
    have h_open : A.decryptInPlace .aes128Gcm h.respHeaderPayloadEnc h.headerPayloadIv
        (buffer.take (h.dataLength + 16)) = some payload := h_take ▸ h_valid.box_opens
    have h_tag : 16 ≤ (buffer.drop h.dataLength).length := by
      rw [List.length_drop]
      omega
    refine ⟨_, openPayload_of_passes (h := { h with buffer }) _ h_inPlace le h_open
      (h_valid.passes h_tag), .done rfl clean ?_ pendings_le⟩
    show buffer.drop (h.dataLength + 16) ++ bytesOf es' = wire
    exact h_drop
  | pending clean lt spent =>
    exact ⟨_, rfl, .pending rfl (.payload h_stage h_valid.of_reading clean h_len h_bytes) spent⟩
  -- with no bytes to come, the buffer holds the whole header already
  | waiting lt => exact absurd lt (not_lt_of_no_bytes h_box h_bytes rfl)
  | ended clean lt no_bytes => exact absurd lt (not_lt_of_no_bytes h_box h_bytes no_bytes)

/-- **A header that is ahead is read**, whatever the segmentation. -/
theorem HeaderAhead.poll {wire : List UInt8} (h_inPlace : A.InPlace)
    (h_ahead : HeaderAhead A h es wire) :
    ∃ x, h.pollReadDecrypted A p es = .ok x ∧ HeaderDelivery A es wire x := by
  unfold pollReadDecrypted
  cases h_ahead with
  | payload stage_eq valid clean dataLength_eq bytes_eq =>
    rw [stage_eq]
    exact poll_payload h_inPlace stage_eq valid clean dataLength_eq bytes_eq
  | @length len box payload stage_eq valid clean bytes_eq =>
    have h_len : len.length = 18 := valid.length_len h_inPlace
    rw [stage_eq]
    dsimp only
    rcases h_read : readAtLeast 18 h.buffer es with ⟨f, buffer, es'⟩
    have h_bytes : buffer ++ bytesOf es' = len ++ (box ++ wire) :=
      (readAtLeast_cases h_read).1.trans bytes_eq
    cases readClean clean h_read with
    -- the length opens, and the payload stage is polled in the same call
    | full clean le pendings_le =>
      obtain ⟨h_take, h_drop⟩ := FramedReader.take_drop_of_append_eq h_bytes (h_len ▸ le)
      rw [h_len] at h_take h_drop
      obtain ⟨m, h_m, -, h_value⟩ := valid.len_opens
      have h_open : A.decryptInPlace .aes128Gcm h.respHeaderLenEnc h.headerLenIv (buffer.take 18) =
          some m := h_take ▸ h_m
      obtain ⟨x, h_x, h_delivery⟩ := poll_payload (p := p) (h := { h with
        buffer := buffer.drop 18, dataLength := ofBeBytes m, stage := .payload })
        h_inPlace rfl valid.of_reading clean h_value h_drop
      refine ⟨x, (openLength_of_open h_inPlace le h_open).trans h_x, ?_⟩
      cases h_delivery with
      | pending result_eq ahead spent =>
        exact .pending result_eq ahead (Nat.lt_of_lt_of_le spent pendings_le)
      | done result_eq clean bytes_eq pendings_le' =>
        exact .done result_eq clean bytes_eq (Nat.le_trans pendings_le' pendings_le)
    | pending clean lt spent =>
      exact ⟨_, rfl, .pending rfl (.length rfl valid.of_reading clean h_bytes) spent⟩
    | waiting lt => exact absurd lt (not_lt_of_no_bytes h_len h_bytes rfl)
    | ended clean lt no_bytes => exact absurd lt (not_lt_of_no_bytes h_len h_bytes no_bytes)

/-! ### Any stream -/

/-- How a schedule leads to the end of the header reader without an error, from `es` to what is
left of it. -/
inductive HeaderEnd (A : Aead) (h : VmessHeaderReader) (es : List ReadEvent) :
    List ReadEvent → Prop
  | endedInLength {es₁ es₂ : List ReadEvent} (flows : Flows es₁)
      (es_eq : es = es₁ ++ .data [] :: es₂) (lt : (bytesOf es₁).length < 18) : HeaderEnd A h es es₂
  | endedInPayload {es₁ es₂ : List ReadEvent} {len box m : List UInt8} (flows : Flows es₁)
      (es_eq : es = es₁ ++ .data [] :: es₂) (bytes_eq : bytesOf es₁ = len ++ box)
      (len_opens : A.decryptInPlace .aes128Gcm h.respHeaderLenEnc h.headerLenIv len = some m)
      (len_len : len.length = 18) (lt : box.length < ofBeBytes m + 16) : HeaderEnd A h es es₂
  | read {es₁ es₂ : List ReadEvent} {bs len box payload later : List UInt8} (flows : Flows es₁)
      (ne_nil : bs ≠ []) (es_eq : es = es₁ ++ .data bs :: es₂)
      (bytes_eq : bytesOf es₁ ++ bs = len ++ (box ++ later))
      (lt : (bytesOf es₁).length < (len ++ box).length) (opens : OpenHeader A h len box payload)
      (passes : Passes h.respv (payload ++ (box.drop payload.length ++ later))) :
      HeaderEnd A h es es₂

/-- A poll of a reader that waits for the length. -/
theorem poll_length_eq {f : Filled} {e : List ReadEvent} (h_stage : h.stage = .length)
    (h_read : readAtLeast 18 h.buffer es = (f, buffer, e)) :
    h.pollReadDecrypted A p es =
      if f = .full then openLength A p { h with buffer } e
      else .ok (unfilled { h with buffer } e f) := by
  unfold pollReadDecrypted
  rw [h_stage]
  dsimp only
  rw [h_read]
  cases f <;> rfl

theorem poll_payload_eq (h_stage : h.stage = .payload) :
    h.pollReadDecrypted A p es = pollPayload A p h es := by
  unfold pollReadDecrypted
  rw [h_stage]

/-- The payload is opened when it is there with its tag, and the poll ends where it is not. -/
theorem pollPayload_eq {f : Filled} {e : List ReadEvent}
    (h_read : readAtLeast (h.dataLength + 16) h.buffer es = (f, buffer, e)) :
    pollPayload A p h es =
      if f = .full then openPayload A p { h with buffer } e
      else .ok (unfilled { h with buffer } e f) := by
  unfold pollPayload
  rw [h_read]
  cases f <;> rfl

/-- A schedule that brings the reader to its end without a valid header: the stream ends before
the whole header is there, or a payload of less than four bytes passes with what follows it. -/
inductive Misled (A : Aead) (h : VmessHeaderReader) (es : List ReadEvent) : Prop
  | endedInLength {es₁ es₂ : List ReadEvent} (flows : Flows es₁)
      (es_eq : es = es₁ ++ .data [] :: es₂) (lt : (bytesOf es₁).length < 18)
  | endedInPayload {es₁ es₂ : List ReadEvent} {len box m : List UInt8} (flows : Flows es₁)
      (es_eq : es = es₁ ++ .data [] :: es₂) (bytes_eq : bytesOf es₁ = len ++ box)
      (len_opens : A.decryptInPlace .aes128Gcm h.respHeaderLenEnc h.headerLenIv len = some m)
      (len_len : len.length = 18) (lt : box.length < ofBeBytes m + 16)
  | short {es₁ es₂ : List ReadEvent} {bs len box payload later : List UInt8} (flows : Flows es₁)
      (ne_nil : bs ≠ []) (es_eq : es = es₁ ++ .data bs :: es₂)
      (bytes_eq : bytesOf es₁ ++ bs = len ++ (box ++ later))
      (lt : (bytesOf es₁).length < (len ++ box).length) (opens : OpenHeader A h len box payload)
      (passes : Passes h.respv (payload ++ (box.drop payload.length ++ later)))
      (short : payload.length < 4)

/-- Bytes that begin with a valid header. -/
def HeaderReceived (A : Aead) (h : VmessHeaderReader) (received : List UInt8) : Prop :=
  ∃ len box payload later, received = len ++ (box ++ later) ∧ ValidHeader A h len box payload

/-- The bytes before an event. -/
theorem bytesOf_split {es₁ es₂ : List ReadEvent} {bs : List UInt8}
    (h_es : es = es₁ ++ .data bs :: es₂) :
    bytesOf es = bytesOf es₁ ++ bs ++ bytesOf es₂ := by
  rw [h_es, bytesOf_append, bytesOf_cons, List.append_assoc]
  rfl

/-- A reader that comes to its end was misled or has received a valid header. -/
theorem HeaderEnd.misled_or_received (h_end : HeaderEnd A h es es') :
    Misled A h es ∨ ∃ received, bytesOf es = received ++ bytesOf es' ∧
      HeaderReceived A h received := by
  cases h_end with
  | endedInLength flows es_eq lt => exact Or.inl (.endedInLength flows es_eq lt)
  | endedInPayload flows es_eq bytes_eq len_opens len_len lt =>
    exact Or.inl (.endedInPayload flows es_eq bytes_eq len_opens len_len lt)
  | @read es₁ _ bs len box payload later flows ne_nil es_eq bytes_eq lt opens passes =>
    rcases Nat.lt_or_ge payload.length 4 with h_short | h_four
    · exact Or.inl (.short flows ne_nil es_eq bytes_eq lt opens passes h_short)
    · refine Or.inr ⟨_, bytesOf_split es_eq, len, box, payload, later, bytes_eq, opens,
        h_four, ?_, ?_⟩
      · rw [← passes.respv_eq, List.getElem?_append_left (by omega)]
      · rw [← passes.port_eq, List.getElem?_append_left (by omega)]

/-- A reader that is misled comes to its end, and has not received a valid header. -/
theorem Misled.headerEnd (h_inPlace : A.InPlace) (h_misled : Misled A h es) :
    ∃ es', HeaderEnd A h es es' ∧
      ∀ received, bytesOf es = received ++ bytesOf es' → ¬ HeaderReceived A h received := by
  cases h_misled with
  | @endedInLength es₁ es₂ flows es_eq lt =>
    -- a valid header is longer than what has been read
    refine ⟨es₂, .endedInLength flows es_eq lt, ?_⟩
    rintro received h_received ⟨len, box, payload, later, rfl, h_valid⟩
    have h_bytes := List.append_cancel_right ((bytesOf_split es_eq).symm.trans h_received)
    have h_len := h_valid.length_len h_inPlace
    rw [List.append_nil] at h_bytes
    rw [h_bytes, List.length_append] at lt
    omega
  | @endedInPayload es₁ es₂ len box m flows es_eq bytes_eq len_opens len_len lt =>
    refine ⟨es₂, .endedInPayload flows es_eq bytes_eq len_opens len_len lt, ?_⟩
    -- the length is the same one, and the sealed payload of a valid header is longer
    rintro received h_received ⟨len', box', payload', later', rfl, h_valid⟩
    have h_bytes := List.append_cancel_right ((bytesOf_split es_eq).symm.trans h_received)
    rw [List.append_nil, bytes_eq] at h_bytes
    obtain ⟨rfl, rfl⟩ := List.append_inj h_bytes (len_len.trans (h_valid.length_len h_inPlace).symm)
    obtain ⟨m', h_m', -, h_value⟩ := h_valid.len_opens
    obtain rfl : m = m' := Option.some.inj (len_opens.symm.trans h_m')
    rw [List.length_append, h_valid.length_box h_inPlace, ← h_value] at lt
    omega
  | @short es₁ es₂ bs len box payload later flows ne_nil es_eq bytes_eq lt opens passes short =>
    refine ⟨es₂, .read flows ne_nil es_eq bytes_eq lt opens passes, ?_⟩
    -- the header that has been read is the valid one, whose payload is not short
    rintro received h_received ⟨len', box', payload', later', rfl, h_valid⟩
    have h_bytes := List.append_cancel_right ((bytesOf_split es_eq).symm.trans h_received)
    obtain rfl := opens.unique h_inPlace h_valid.toOpenHeader (bytes_eq.symm.trans h_bytes)
    exact absurd h_valid.four_le (Nat.not_le_of_lt short)

/-- What ends the reader without the pending answers of a schedule, ends it with them. -/
theorem misled_of_reads (h_misled : Misled A h (reads es)) : Misled A h es := by
  cases h_misled with
  | endedInLength flows es_eq lt =>
    obtain ⟨es₁', es₂', rfl, rfl, rfl⟩ := split_of_reads es_eq
    rw [bytesOf_reads] at lt
    exact .endedInLength (flows_of_reads flows) rfl lt
  | endedInPayload flows es_eq bytes_eq len_opens len_len lt =>
    obtain ⟨es₁', es₂', rfl, rfl, rfl⟩ := split_of_reads es_eq
    rw [bytesOf_reads] at bytes_eq
    exact .endedInPayload (flows_of_reads flows) rfl bytes_eq len_opens len_len lt
  | short flows ne_nil es_eq bytes_eq lt opens passes short =>
    obtain ⟨es₁', es₂', rfl, rfl, rfl⟩ := split_of_reads es_eq
    rw [bytesOf_reads] at bytes_eq lt
    exact .short (flows_of_reads flows) ne_nil rfl bytes_eq lt opens passes short

/-- A length that opens sends the reader on to the payload: as if it had read both at once. -/
theorem poll_length_step {m : List UInt8} {e : List ReadEvent} {f : Filled} (h_inPlace : A.InPlace)
    (h_stage : h.stage = .length) (h_buffer : h.buffer = [])
    (h_read : readAtLeast (18 + (ofBeBytes m + 16)) [] es = (f, buffer, e))
    (h_le : 18 ≤ buffer.length)
    (h_open : A.decryptInPlace .aes128Gcm h.respHeaderLenEnc h.headerLenIv (buffer.take 18) =
      some m) :
    let h' := { h with buffer := buffer.drop 18, dataLength := ofBeBytes m, stage := .payload }
    h.pollReadDecrypted A p es =
      if f = .full then openPayload A p h' e else .ok (unfilled h' e f) := by
  obtain ⟨b₁, e₁, h_len⟩ := readAtLeast_shorter (Nat.le_add_right 18 _) h_read h_le
  have h_le₁ : 18 ≤ b₁.length := (readAtLeast_cases h_len).2.2 rfl
  have h_rest : readAtLeast (18 + (ofBeBytes m + 16)) b₁ e₁ = (f, buffer, e) :=
    (readAtLeast_longer (Nat.le_add_right 18 _) h_len).symm.trans h_read
  have h_take : b₁.take 18 = buffer.take 18 := by
    obtain ⟨t, rfl⟩ := prefix_of_readAtLeast h_rest
    exact (List.take_append_of_le_length h_le₁).symm
  dsimp only
  rw [poll_length_eq h_stage (h_buffer.symm ▸ h_len), if_pos rfl,
    openLength_of_open h_inPlace h_le₁ (h_take ▸ h_open),
    pollPayload_eq (readAtLeast_drop h_le₁ h_rest)]

/-- A payload that is done with has opened and passed. -/
theorem openPayload_ok {x : HeaderPoll} (h_inPlace : A.InPlace)
    (h_le : h.dataLength + 16 ≤ h.buffer.length) (h_x : openPayload A p h es = .ok x)
    (h_done : x.result = .ready (.ok ())) :
    ∃ payload, A.decryptInPlace .aes128Gcm h.respHeaderPayloadEnc h.headerPayloadIv
        (h.buffer.take (h.dataLength + 16)) = some payload ∧
      Passes h.respv (payload ++ h.buffer.drop h.dataLength) ∧ x.events = es := by
  by_cases h_good : ∃ payload, A.decryptInPlace .aes128Gcm h.respHeaderPayloadEnc h.headerPayloadIv
      (h.buffer.take (h.dataLength + 16)) = some payload ∧
        Passes h.respv (payload ++ h.buffer.drop h.dataLength)
  · obtain ⟨payload, h_open, h_passes⟩ := h_good
    cases (openPayload_of_passes es h_inPlace h_le h_open h_passes).symm.trans h_x
    exact ⟨payload, h_open, h_passes, rfl⟩
  · obtain ⟨h', message, h_fail⟩ := openPayload_of_not (p := p) es h_inPlace h_le
      fun payload h_open h_passes => h_good ⟨payload, h_open, h_passes⟩
    cases h_fail.symm.trans h_x
    cases h_done

/-- What has been read when the reader is done with the payload. -/
theorem headerEnd_of_payload {x : HeaderPoll} {m : List UInt8} {e : List ReadEvent} {f : Filled}
    (h_inPlace : A.InPlace) (h_le : 18 ≤ buffer.length)
    (h_open : A.decryptInPlace .aes128Gcm h.respHeaderLenEnc h.headerLenIv
      (buffer.take 18) = some m)
    (h_read : readAtLeast (18 + (ofBeBytes m + 16)) [] es = (f, buffer, e))
    (h_poll : (if f = .full then openPayload A p { h with
        buffer := buffer.drop 18, dataLength := ofBeBytes m, stage := .payload } e
      else .ok (unfilled { h with
        buffer := buffer.drop 18, dataLength := ofBeBytes m, stage := .payload } e f)) = .ok x)
    (h_done : x.result = .ready (.ok ())) : HeaderEnd A h es x.events := by
  have h_pos : 0 < 18 + (ofBeBytes m + 16) := Nat.add_pos_left (by decide) _
  have h_take : (buffer.take 18).length = 18 := List.length_take_of_le h_le
  have h_two : m.length = 2 := by
    have h_len := h_inPlace.length_decrypt h_open
    rw [h_take] at h_len
    unfold tagSize at h_len
    omega
  cases f with
  | pending =>
    cases h_poll
    cases h_done
  | err message =>
    cases h_poll
    cases h_done
  | ended =>
    cases h_poll
    -- the stream ended: the length has opened, and the sealed payload is not complete
    cases reached_of_readAtLeast h_pos h_read with
    | ended flows es_eq lt =>
      refine .endedInPayload flows es_eq (List.take_append_drop 18 _).symm h_open h_take ?_
      rw [List.length_drop]
      omega
    | failed not_full not_ended => exact absurd rfl not_ended
  | full =>
    rw [if_pos rfl] at h_poll
    cases reached_of_readAtLeast h_pos h_read with
    | failed not_full not_ended => exact absurd rfl not_full
    | @full es₁ es₂ bs flows ne_nil es_eq lt le =>
      generalize h_buffer : bytesOf es₁ ++ bs = buffer at *
      have h_le' : ofBeBytes m + 16 ≤ (buffer.drop 18).length := by
        rw [List.length_drop]
        omega
      -- the sealed payload is there, and as the poll has not failed it opens and passes
      obtain ⟨payload, h_box, h_passes, h_events⟩ := openPayload_ok (h := { h with
        buffer := buffer.drop 18, dataLength := ofBeBytes m, stage := .payload })
        h_inPlace h_le' h_poll h_done
      obtain ⟨h_len, -⟩ := decryptInplace_take (p := p) h_inPlace h_le' h_box
      have h_bytes : bytesOf es₁ ++ bs = buffer.take 18 ++ ((buffer.drop 18).take
          (ofBeBytes m + 16) ++ (buffer.drop 18).drop (ofBeBytes m + 16)) := by
        rw [List.take_append_drop, List.take_append_drop, h_buffer]
      rw [h_events]
      refine .read flows ne_nil es_eq h_bytes ?_ ⟨⟨m, h_open, h_two, h_len.symm⟩, h_box⟩ ?_
      · rw [List.length_append, h_take, List.length_take_of_le h_le']
        exact lt
      · rw [h_len, drop_take_append_drop]
        exact h_passes

/-- What a new reader has read when it is done. -/
theorem headerEnd_of_poll {x : HeaderPoll} (h_inPlace : A.InPlace) (h_stage : h.stage = .length)
    (h_buffer : h.buffer = []) (h_poll : h.pollReadDecrypted A p es = .ok x)
    (h_done : x.result = .ready (.ok ())) : HeaderEnd A h es x.events := by
  rcases h_len : readAtLeast 18 [] es with ⟨f₁, b₁, e₁⟩
  have h_first := (poll_length_eq h_stage (h_buffer.symm ▸ h_len)).symm.trans h_poll
  cases f₁ with
  | pending =>
    cases h_first
    cases h_done
  | err message =>
    cases h_first
    cases h_done
  | ended =>
    cases h_first
    cases reached_of_readAtLeast (by decide) h_len with
    | ended flows es_eq lt => exact .endedInLength flows es_eq lt
    | failed not_full not_ended => exact absurd rfl not_ended
  | full =>
    rw [if_pos rfl] at h_first
    have h_le₁ : 18 ≤ b₁.length := (readAtLeast_cases h_len).2.2 rfl
    cases h_open : A.decryptInPlace .aes128Gcm h.respHeaderLenEnc h.headerLenIv (b₁.take 18) with
    | none =>
      obtain ⟨h', message, h_fail⟩ := openLength_of_none (p := p)
        (h := { h with buffer := b₁ }) e₁ h_le₁ h_open
      cases h_fail.symm.trans h_first
      cases h_done
    | some m =>
      -- from here on, the length and the payload are read together
      rcases h_read : readAtLeast (18 + (ofBeBytes m + 16)) [] es with ⟨f, b, e⟩
      have h_pre : b₁ <+: b := prefix_of_readAtLeast
        ((readAtLeast_longer (Nat.le_add_right 18 _) h_len).symm.trans h_read)
      have h_le : 18 ≤ b.length := Nat.le_trans h_le₁ h_pre.length_le
      have h_take : b₁.take 18 = b.take 18 := by
        obtain ⟨t, rfl⟩ := h_pre
        exact (List.take_append_of_le_length h_le₁).symm
      rw [h_take] at h_open
      exact headerEnd_of_payload h_inPlace h_le h_open h_read
        ((poll_length_step h_inPlace h_stage h_buffer h_read h_le h_open).symm.trans h_poll) h_done

/-- A schedule with such an end, without its pending answers, brings a new reader there. -/
theorem poll_of_headerEnd (h_inPlace : A.InPlace) (p : Profile) (h_stage : h.stage = .length)
    (h_buffer : h.buffer = []) (h_end : HeaderEnd A h es es') :
    ∃ x, h.pollReadDecrypted A p (reads es) = .ok x ∧ x.result = .ready (.ok ()) ∧
      x.events = reads es' := by
  cases h_end with
  | @endedInLength es₁ _ flows es_eq lt =>
    have h_read : readAtLeast 18 h.buffer (reads es) = (.ended, bytesOf es₁, reads es') := by
      -- without pending answers, one call reads all that flows before the end
      rw [h_buffer, es_eq, reads_append, reads_data, readAtLeast_flow flows lt, List.nil_append,
        readAtLeast_of_lt lt]
      rfl
    rw [poll_length_eq h_stage h_read]
    exact ⟨_, rfl, rfl, rfl⟩
  | @endedInPayload es₁ _ len box m flows es_eq bytes_eq len_opens len_len lt =>
    have h_lt : (bytesOf es₁).length < 18 + (ofBeBytes m + 16) := by
      rw [bytes_eq, List.length_append]
      omega
    have h_read : readAtLeast (18 + (ofBeBytes m + 16)) [] (reads es) =
        (.ended, bytesOf es₁, reads es') := by
      rw [es_eq, reads_append, reads_data, readAtLeast_flow flows h_lt, List.nil_append,
        readAtLeast_of_lt h_lt]
      rfl
    rw [bytes_eq] at h_read
    rw [poll_length_step h_inPlace h_stage h_buffer h_read (by rw [List.length_append]; omega)
      (by rw [← len_len, List.take_left]; exact len_opens)]
    exact ⟨_, rfl, rfl, rfl⟩
  | @read es₁ _ bs len box payload later flows ne_nil es_eq bytes_eq lt opens passes =>
    obtain ⟨m, h_m, -, h_len⟩ := opens.len_opens
    have h_len_len : len.length = 18 := opens.length_len h_inPlace
    have h_box_len : box.length = ofBeBytes m + 16 := h_len ▸ opens.length_box h_inPlace
    rw [List.length_append, h_len_len, h_box_len] at lt
    have h_read : readAtLeast (18 + (ofBeBytes m + 16)) [] (reads es) =
        (.full, len ++ (box ++ later), reads es') := by
      -- the chunk that crosses the length is the last one read
      rw [es_eq, reads_append, reads_data, readAtLeast_flow flows lt, List.nil_append,
        readAtLeast_of_lt lt]
      refine (if_neg ne_nil).trans ?_
      rw [bytes_eq]
      refine readAtLeast_of_le ?_ _
      rw [List.length_append, List.length_append]
      omega
    have h_buffer' : (len ++ (box ++ later)).drop 18 = box ++ later := by
      rw [← h_len_len, List.drop_left]
    rw [poll_length_step h_inPlace h_stage h_buffer h_read (by rw [List.length_append]; omega)
      (by rw [← h_len_len, List.take_left]; exact h_m), if_pos rfl]
    have h_le : ofBeBytes m + 16 ≤ ((len ++ (box ++ later)).drop 18).length := by
      rw [h_buffer', List.length_append]
      omega
    have h_open : A.decryptInPlace .aes128Gcm h.respHeaderPayloadEnc h.headerPayloadIv
        (((len ++ (box ++ later)).drop 18).take (ofBeBytes m + 16)) = some payload := by
      rw [h_buffer', ← h_box_len, List.take_left]
      exact opens.box_opens
    have h_passes : Passes h.respv
        (payload ++ ((len ++ (box ++ later)).drop 18).drop (ofBeBytes m)) := by
      rw [h_buffer', h_len, List.drop_append_of_le_length (by omega)]
      exact passes
    exact ⟨_, openPayload_of_passes _ h_inPlace h_le h_open h_passes, rfl, rfl⟩

/-! ### Polls until the reader is done -/

/-- Polls of a reader that are pending, up to one that ends without an error. -/
inductive HeaderDone (A : Aead) (p : Profile) :
    VmessHeaderReader → List ReadEvent → List ReadEvent → Prop
  | now {h : VmessHeaderReader} {es : List ReadEvent} {x : HeaderPoll}
      (poll_eq : h.pollReadDecrypted A p es = .ok x) (result_eq : x.result = .ready (.ok ())) :
      HeaderDone A p h es x.events
  | later {h : VmessHeaderReader} {es es' : List ReadEvent} {x : HeaderPoll}
      (poll_eq : h.pollReadDecrypted A p es = .ok x) (result_eq : x.result = .pending)
      (rest : HeaderDone A p x.state x.events es') : HeaderDone A p h es es'

/-- How a poll compares to one over the same schedule without its pending answers. -/
inductive OneShot (A : Aead) (p : Profile) (h : VmessHeaderReader) (es : List ReadEvent)
    (x : HeaderPoll) : Prop
  | pending (result_eq : x.result = .pending)
      (reads_eq : h.pollReadDecrypted A p (reads es) =
        x.state.pollReadDecrypted A p (reads x.events))
      (shorter : x.events.length < es.length ∨ es = [] ∧ x.events = [])
  | done {x' : HeaderPoll} (result_eq : x.result = .ready (.ok ()))
      (reads_eq : h.pollReadDecrypted A p (reads es) = .ok x')
      (result_eq' : x'.result = .ready (.ok ()))
      (events_eq : x'.events = reads x.events)
  | failed {x' : HeaderPoll} {message message' : String}
      (result_eq : x.result = .ready (.error message))
      (reads_eq : h.pollReadDecrypted A p (reads es) = .ok x')
      (result_eq' : x'.result = .ready (.error message'))

/-- What the bytes of a payload lead to does not depend on what is still to come. -/
theorem openPayload_oneShot (h_inPlace : A.InPlace) (h_le : h.dataLength + 16 ≤ h.buffer.length)
    (es es' : List ReadEvent) :
    (∃ h', openPayload A p h es = .ok ⟨h', es, .ready (.ok ())⟩ ∧
      openPayload A p h es' = .ok ⟨h', es', .ready (.ok ())⟩) ∨
    ∃ x x' message message', openPayload A p h es = .ok x ∧ openPayload A p h es' = .ok x' ∧
      x.result = .ready (.error message) ∧ x'.result = .ready (.error message') := by
  by_cases h_good : ∃ payload, A.decryptInPlace .aes128Gcm h.respHeaderPayloadEnc h.headerPayloadIv
      (h.buffer.take (h.dataLength + 16)) = some payload ∧
        Passes h.respv (payload ++ h.buffer.drop h.dataLength)
  · obtain ⟨payload, h_open, h_passes⟩ := h_good
    exact Or.inl ⟨_, openPayload_of_passes es h_inPlace h_le h_open h_passes,
      openPayload_of_passes es' h_inPlace h_le h_open h_passes⟩
  · have h_not : ∀ payload, A.decryptInPlace .aes128Gcm h.respHeaderPayloadEnc h.headerPayloadIv
        (h.buffer.take (h.dataLength + 16)) = some payload →
          ¬ Passes h.respv (payload ++ h.buffer.drop h.dataLength) :=
      fun payload h_open h_passes => h_good ⟨payload, h_open, h_passes⟩
    obtain ⟨_, _, h_eq⟩ := openPayload_of_not (p := p) es h_inPlace h_le h_not
    obtain ⟨_, _, h_eq'⟩ := openPayload_of_not (p := p) es' h_inPlace h_le h_not
    exact Or.inr ⟨_, _, _, _, h_eq, h_eq', rfl, rfl⟩

/-- A poll that reads the payload, on any schedule. -/
theorem oneShot_payload (es : List ReadEvent) (h_inPlace : A.InPlace)
    (h_stage : h.stage = .payload) :
    ∃ x, h.pollReadDecrypted A p es = .ok x ∧ OneShot A p h es x := by
  rcases h_read : readAtLeast (h.dataLength + 16) h.buffer es with ⟨f, buffer, e⟩
  have h_reads := readAtLeast_reads h_read
  rw [poll_payload_eq h_stage, pollPayload_eq h_read]
  cases f with
  | pending =>
    refine ⟨_, rfl, .pending rfl ?_ ?_⟩
    · rw [poll_payload_eq h_stage]
      refine Eq.trans ?_ (poll_payload_eq (h := { h with buffer }) h_stage).symm
      unfold pollPayload
      rw [h_reads]
      rfl
    · -- the call stops at its first pending answer, or at the end of the schedule
      refine (readAtLeast_pending h_read).imp id fun h_nil => ⟨h_nil, ?_⟩
      subst h_nil
      exact List.eq_nil_of_suffix_nil (readAtLeast_cases h_read).2.1
  | ended =>
    refine ⟨_, rfl, .done rfl ((poll_payload_eq h_stage).trans (pollPayload_eq h_reads)) rfl rfl⟩
  | err message =>
    refine ⟨_, rfl, .failed rfl ((poll_payload_eq h_stage).trans (pollPayload_eq h_reads)) rfl⟩
  | full =>
    have h_eq : pollPayload A p h (reads es) = openPayload A p { h with buffer } (reads e) :=
      pollPayload_eq h_reads
    have h_le := (readAtLeast_cases h_read).2.2 rfl
    rcases openPayload_oneShot (A := A) (p := p) (h := { h with buffer }) h_inPlace h_le e
      (reads e) with
      ⟨h', h_x, h_x'⟩ | ⟨x, x', message, message', h_x, h_x', h_result, h_result'⟩
    · exact ⟨_, h_x, .done rfl ((poll_payload_eq h_stage).trans (h_eq.trans h_x')) rfl rfl⟩
    · exact ⟨x, h_x, .failed h_result ((poll_payload_eq h_stage).trans (h_eq.trans h_x')) h_result'⟩

/-- A poll whose rest is a poll of another reader compares as that rest does. -/
theorem OneShot.of_rest {h' : VmessHeaderReader} {e : List ReadEvent} {x : HeaderPoll}
    (h_rest : OneShot A p h' e x)
    (h_reads : h.pollReadDecrypted A p (reads es) = h'.pollReadDecrypted A p (reads e))
    (h_length : e.length ≤ es.length) : OneShot A p h es x := by
  cases h_rest with
  | done result_eq reads_eq result_eq' events_eq =>
    exact .done result_eq (h_reads.trans reads_eq) result_eq' events_eq
  | failed result_eq reads_eq result_eq' =>
    exact .failed result_eq (h_reads.trans reads_eq) result_eq'
  | pending result_eq reads_eq shorter =>
    refine .pending result_eq (h_reads.trans reads_eq) ?_
    rcases shorter with h_lt | ⟨h_nil, h_nil'⟩
    · exact Or.inl (Nat.lt_of_lt_of_le h_lt h_length)
    · rw [h_nil']
      exact (Nat.eq_zero_or_pos es.length).symm.imp id
        fun h_zero => ⟨List.length_eq_zero_iff.mp h_zero, rfl⟩

/-- **A poll that is pending goes on later as if it had not been**, and every poll returns. -/
theorem oneShot (h_inPlace : A.InPlace) (p : Profile) (h : VmessHeaderReader)
    (es : List ReadEvent) :
    ∃ x, h.pollReadDecrypted A p es = .ok x ∧ OneShot A p h es x := by
  cases h_stage : h.stage with
  | payload => exact oneShot_payload es h_inPlace h_stage
  | done =>
    have h_poll (es : List ReadEvent) : h.pollReadDecrypted A p es =
        .ok ⟨h, es, .ready (.error "unexpected end of file")⟩ := by
      unfold pollReadDecrypted
      rw [h_stage]
    exact ⟨_, h_poll es, .failed rfl (h_poll _) rfl⟩
  | length =>
    rcases h_read : readAtLeast 18 h.buffer es with ⟨f, buffer, e⟩
    have h_reads := readAtLeast_reads h_read
    rw [poll_length_eq h_stage h_read]
    cases f with
    -- the length is not there yet: a later poll goes on with the bytes kept
    | pending =>
      refine ⟨_, rfl, .pending rfl ?_ ?_⟩
      · show _ = pollReadDecrypted A p { h with buffer } (reads e)
        unfold pollReadDecrypted
        rw [h_stage]
        dsimp only
        rw [h_reads]
        rfl
      · refine (readAtLeast_pending h_read).imp id fun h_nil => ⟨h_nil, ?_⟩
        subst h_nil
        exact List.eq_nil_of_suffix_nil (readAtLeast_cases h_read).2.1
    | ended => exact ⟨_, rfl, .done rfl (poll_length_eq h_stage h_reads) rfl rfl⟩
    | err message => exact ⟨_, rfl, .failed rfl (poll_length_eq h_stage h_reads) rfl⟩
    | full =>
      obtain ⟨-, h_suffix, h_le⟩ := readAtLeast_cases h_read
      have h_le := h_le rfl
      have h_eq : h.pollReadDecrypted A p (reads es) = openLength A p { h with buffer } (reads e) :=
        poll_length_eq h_stage h_reads
      rw [if_pos rfl]
      cases h_open : A.decryptInPlace .aes128Gcm h.respHeaderLenEnc h.headerLenIv
        (buffer.take 18) with
      | none =>
        obtain ⟨_, _, h_x⟩ := openLength_of_none (p := p) (h := { h with buffer }) e h_le h_open
        obtain ⟨_, _, h_x'⟩ :=
          openLength_of_none (p := p) (h := { h with buffer }) (reads e) h_le h_open
        exact ⟨_, h_x, .failed rfl (h_eq.trans h_x') rfl⟩
      -- the length is there, so the rest of the call is a poll at the payload stage
      | some m =>
        have h_step (es : List ReadEvent) : openLength A p { h with buffer } es =
            pollReadDecrypted A p { h with
              buffer := buffer.drop 18, dataLength := ofBeBytes m, stage := .payload } es :=
          (openLength_of_open h_inPlace h_le h_open).trans (poll_payload_eq rfl).symm
        obtain ⟨x, h_x, h_oneShot⟩ := oneShot_payload (A := A) (p := p)
          (h := { h with buffer := buffer.drop 18, dataLength := ofBeBytes m, stage := .payload })
          e h_inPlace rfl
        exact ⟨x, (h_step e).trans h_x,
          h_oneShot.of_rest (h_eq.trans (h_step (reads e))) h_suffix.length_le⟩

/-- What a reader that is done has read is read at once without the pending answers. -/
theorem HeaderDone.poll_reads (h_inPlace : A.InPlace) (h_done : HeaderDone A p h es es') :
    ∃ x, h.pollReadDecrypted A p (reads es) = .ok x ∧ x.result = .ready (.ok ()) ∧
      x.events = reads es' := by
  induction h_done with
  | @now h es x poll_eq result_eq =>
    obtain ⟨x', h_x', h_oneShot⟩ := oneShot h_inPlace p h es
    obtain rfl := Except.ok.inj (poll_eq.symm.trans h_x')
    cases h_oneShot with
    | done _ reads_eq result_eq' events_eq => exact ⟨_, reads_eq, result_eq', events_eq⟩
    | pending result_eq' => cases result_eq.symm.trans result_eq'
    | failed result_eq' => cases result_eq.symm.trans result_eq'
  | @later h es es' x poll_eq result_eq rest ih =>
    obtain ⟨x', h_x', h_oneShot⟩ := oneShot h_inPlace p h es
    obtain rfl := Except.ok.inj (poll_eq.symm.trans h_x')
    cases h_oneShot with
    | pending _ reads_eq => rw [reads_eq]; exact ih
    | done result_eq' => cases result_eq.symm.trans result_eq'
    | failed result_eq' => cases result_eq.symm.trans result_eq'

/-- What is read at once without the pending answers, polls read with them. -/
theorem headerDone_of_poll_reads (h_inPlace : A.InPlace) {x : HeaderPoll}
    (h_poll : h.pollReadDecrypted A p (reads es) = .ok x) (h_result : x.result = .ready (.ok ())) :
    ∃ es', HeaderDone A p h es es' ∧ x.events = reads es' := by
  -- a pending poll shortens the schedule
  generalize h_n : es.length = n
  induction n using Nat.strong_induction_on generalizing h es with
  | _ n ih =>
    obtain ⟨y, h_y, h_oneShot⟩ := oneShot h_inPlace p h es
    cases h_oneShot with
    | done result_eq reads_eq result_eq' events_eq =>
      obtain rfl := Except.ok.inj (reads_eq.symm.trans h_poll)
      exact ⟨_, .now h_y result_eq, events_eq⟩
    | failed result_eq reads_eq result_eq' =>
      obtain rfl := Except.ok.inj (reads_eq.symm.trans h_poll)
      cases result_eq'.symm.trans h_result
    | pending result_eq reads_eq shorter =>
      rcases shorter with h_lt | ⟨h_nil, -⟩
      · obtain ⟨es', h_done, h_events⟩ :=
          ih y.events.length (h_n ▸ h_lt) (reads_eq.symm.trans h_poll) rfl
        exact ⟨es', .later h_y result_eq h_done, h_events⟩
      · subst h_nil
        obtain rfl := Except.ok.inj (h_y.symm.trans h_poll)
        cases result_eq.symm.trans h_result

/-- **A new reader receives a valid header whenever it is done, if and only if it is not
misled.** -/
theorem headerDone_iff (h_inPlace : A.InPlace) (p : Profile) (h_stage : h.stage = .length)
    (h_buffer : h.buffer = []) (es : List ReadEvent) :
    (∀ es', HeaderDone A p h es es' →
      ∃ received, bytesOf es = received ++ bytesOf es' ∧ HeaderReceived A h received) ↔
      ¬ Misled A h es := by
  constructor
  · intro h_all h_misled
    obtain ⟨es', h_end, h_not⟩ := h_misled.headerEnd h_inPlace
    obtain ⟨x, h_poll, h_result, h_events⟩ := poll_of_headerEnd h_inPlace p h_stage h_buffer h_end
    obtain ⟨es'', h_done, h_events'⟩ := headerDone_of_poll_reads h_inPlace h_poll h_result
    obtain ⟨received, h_received, h_valid⟩ := h_all es'' h_done
    refine h_not received ?_ h_valid
    rw [h_received, ← bytesOf_reads es'', ← h_events', h_events, bytesOf_reads]
  · intro h_not es' h_done
    obtain ⟨x, h_poll, h_result, h_events⟩ := h_done.poll_reads h_inPlace
    rcases (headerEnd_of_poll h_inPlace h_stage h_buffer h_poll h_result).misled_or_received with
      h_misled | ⟨received, h_received, h_valid⟩
    · exact absurd (misled_of_reads h_misled) h_not
    · refine ⟨received, ?_, h_valid⟩
      rw [h_events, bytesOf_reads, bytesOf_reads] at h_received
      exact h_received

end Header

end V2ray

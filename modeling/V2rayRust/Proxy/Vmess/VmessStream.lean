import Mathlib.Data.UInt
import V2rayRust.Lib.SourceRun
import V2rayRust.Proxy.Vmess.Aead
import V2rayRust.Proxy.Vmess.AeadHeader

/-!
# The VMess stream

`proxy/vmess/vmess_stream.rs`: the client makes its keys from a random salt, and reads the
response header before the chunks. What the server sends after a valid header arrives
(`vmessStream_roundTrip`); but the chunks are read after some headers that are not valid, too
(`vmessStream_header_iff`). The keys of ChaCha20 are only half derived from the body keys
(`new_derivesKeys_iff`).
-/

namespace V2ray

/-- `sha256`, `md5!` and `vmess_kdf_1_one_shot`, whose path is a string here. -/
structure Digests where
  sha256 : List UInt8 → List UInt8
  md5 : List UInt8 → List UInt8
  vmessKdf1 : List UInt8 → String → List UInt8
  length_sha256 : ∀ data, (sha256 data).length = 32
  length_md5 : ∀ data, (md5 data).length = 16

/-- Where `poll_read_header` is suspended. -/
inductive VmessReadState
  | waitResp
  | streaming
  | done
  deriving DecidableEq, Repr

/-- `VmessStream`, less the stream below it and the request header that it sends. -/
structure VmessStream where
  reader : VmessAeadReader
  writer : VmessAeadWriter
  headerReader : VmessHeaderReader
  state1 : VmessReadState

namespace VmessStream

/-- The two halves of `key` are written, the second with the digest of what it was. -/
def chachaKey (D : Digests) (key bodyKey : List UInt8) : List UInt8 :=
  let key := D.md5 bodyKey ++ key.drop 16
  key.take 16 ++ D.md5 (key.drop 16)

/-- `VmessStream::new`, with the salt that it draws. -/
def new (D : Digests) (securityNum : ℕ) (salt : Vector UInt8 64) : Except Fault VmessStream :=
  let respv := salt[32]
  let reqBodyIv := salt.toList.take 16
  let reqBodyKey := (salt.toList.drop 16).take 16
  let respBodyKey := (D.sha256 reqBodyKey).take 16
  let respBodyIv := (D.sha256 reqBodyIv).take 16
  have h_req : 12 ≤ reqBodyIv.length := by
    rw [List.length_take, Vector.length_toList]
    decide
  have h_resp : 12 ≤ respBodyIv.length := by
    rw [List.length_take, D.length_sha256]
    decide
  let headerReader := VmessHeaderReader.new D.vmessKdf1 respBodyKey respBodyIv respv
  match securityNum with
  | 3 => .ok {
      writer := VmessAeadWriter.new (.aes128Gcm reqBodyKey) reqBodyIv h_req
      reader := VmessAeadReader.new (.aes128Gcm respBodyKey) respBodyIv h_resp
      headerReader := headerReader
      state1 := .waitResp }
  | 4 =>
    let key := List.replicate 32 0
    let key := chachaKey D key reqBodyKey
    let writer := VmessAeadWriter.new (.chaCha20Poly1305 key) reqBodyIv h_req
    let key := chachaKey D key respBodyKey
    .ok {
      writer := writer
      reader := VmessAeadReader.new (.chaCha20Poly1305 key) respBodyIv h_resp
      headerReader := headerReader
      state1 := .waitResp }
  | _ => .error .unimplemented

/-- What waiting for the response leads to: an answer, or the start of the body reader. -/
inductive WaitResp
  | answer (x : ReadPoll VmessStream)
  | start (s : VmessStream) (es : List ReadEvent)

/-- The first loop of `poll_read_header`, and the steal of the buffer after it. -/
def waitResp (A : Aead) (p : Profile) (s : VmessStream) (es : List ReadEvent) :
    Except Fault WaitResp := do
  let x ← s.headerReader.pollReadDecrypted A p es
  let s := { s with headerReader := x.state }
  match x.result with
  | .pending => return .answer ⟨s, x.events, .pending, []⟩
  | .ready (.error message) =>
    return .answer ⟨{ s with state1 := .done }, x.events, .ready (.error message), []⟩
  | .ready (.ok ()) =>
    return .start { s with
      reader := { s.reader with buffer := x.state.buffer },
      headerReader := { x.state with buffer := [] }, state1 := .streaming } x.events

/-- The second loop of `poll_read_header`. -/
def streaming (A : Aead) (p : Profile) (s : VmessStream) (es : List ReadEvent) (room : ℕ) :
    Except Fault (ReadPoll VmessStream) := do
  let x ← s.reader.pollReadDecrypted A p es room
  return x.map fun reader => { s with reader }

/-- `priv_poll_read` -/
def privPollRead (A : Aead) (p : Profile) (s : VmessStream) (es : List ReadEvent) (room : ℕ) :
    Except Fault (ReadPoll VmessStream) :=
  match s.state1 with
  | .waitResp => do
    match ← waitResp A p s es with
    | .answer x => return x
    | .start s es => streaming A p s es room
  | .streaming => streaming A p s es room
  | .done => .ok ⟨s, es, .ready (.error "unexpected end of file"), []⟩

end VmessStream

open VmessStream

variable {A : Aead} {p : Profile} {D : Digests} {securityNum : ℕ} {salt : Vector UInt8 64}
  {s s' : VmessStream} {es es' : List ReadEvent} {rest : List UInt8} {room : ℕ}

/-- What every new stream begins with. -/
structure VmessStream.Fresh (s : VmessStream) : Prop where
  state1_eq : s.state1 = .waitResp
  header_eq : s.headerReader.stage = .length ∧ s.headerReader.buffer = []
  reader_eq : s.reader = .new s.reader.cipher.security s.reader.cipher.iv s.reader.cipher.iv_len

theorem VmessStream.fresh_new (h : VmessStream.new D securityNum salt = .ok s) : s.Fresh := by
  unfold VmessStream.new at h
  dsimp only at h
  split at h <;> cases h <;> exact ⟨rfl, ⟨rfl, rfl⟩, rfl⟩

/-- Toy digests. -/
def Digests.zeros : Digests where
  sha256 _ := List.replicate 32 0
  md5 _ := List.replicate 16 0
  vmessKdf1 _ _ := List.replicate 32 0
  length_sha256 _ := rfl
  length_md5 _ := rfl

/-- The boxes of a header of four bytes that answers a request with `respv` 0. -/
def sampleLen : List UInt8 := [0, 4] ++ List.replicate 16 0

def sampleBox : List UInt8 := [0, 1, 0, 0] ++ List.replicate 16 0

theorem sampleHeader_valid {h : VmessHeaderReader} (h_respv : h.respv = 0) :
    ValidHeader .tagged h sampleLen sampleBox [0, 1, 0, 0] where
  len_opens := ⟨[0, 4], rfl, rfl, rfl⟩
  box_opens := rfl
  four_le := Nat.le_refl 4
  respv_eq := by rw [h_respv]; rfl
  port_eq := rfl

section Keys

/-- `salt[16..32]` -/
def reqBodyKey (salt : Vector UInt8 64) : List UInt8 := (salt.toList.drop 16).take 16

/-- `salt[32..48]`, once it has been overwritten. -/
def respBodyKey (D : Digests) (salt : Vector UInt8 64) : List UInt8 :=
  (D.sha256 (reqBodyKey salt)).take 16

/-- The key of ChaCha20 that VMess derives from a body key. -/
def Digests.chachaOf (D : Digests) (bodyKey : List UInt8) : List UInt8 :=
  D.md5 bodyKey ++ D.md5 (D.md5 bodyKey)

/-- Both directions have the key that is derived from their own body key. -/
structure VmessStream.DerivesKeys (D : Digests) (salt : Vector UInt8 64) (s : VmessStream) :
    Prop where
  writer_eq : s.writer.cipher.security = .chaCha20Poly1305 (D.chachaOf (reqBodyKey salt))
  reader_eq : s.reader.cipher.security = .chaCha20Poly1305 (D.chachaOf (respBodyKey D salt))

theorem chachaKey_eq (D : Digests) (key bodyKey : List UInt8) :
    chachaKey D key bodyKey = D.md5 bodyKey ++ D.md5 (key.drop 16) := by
  unfold chachaKey
  dsimp only
  rw [List.take_left' (D.length_md5 bodyKey), List.drop_left' (D.length_md5 bodyKey)]

/-- The second halves come from the scratch array: that of the writer is the same for every body
key, and that of the reader is the digest of it. -/
theorem new_chacha (D : Digests) (salt : Vector UInt8 64) :
    ∃ s, VmessStream.new D 4 salt = .ok s ∧
      s.writer.cipher.security = .chaCha20Poly1305
        (D.md5 (reqBodyKey salt) ++ D.md5 (List.replicate 16 0)) ∧
      s.reader.cipher.security = .chaCha20Poly1305
        (D.md5 (respBodyKey D salt) ++ D.md5 (D.md5 (List.replicate 16 0))) := by
  have h_writer (k : List UInt8) : chachaKey D (List.replicate 32 0) k =
      D.md5 k ++ D.md5 (List.replicate 16 0) := chachaKey_eq D _ k
  have h_reader (k k' : List UInt8) : chachaKey D (chachaKey D (List.replicate 32 0) k) k' =
      D.md5 k' ++ D.md5 (D.md5 (List.replicate 16 0)) := by
    rw [chachaKey_eq, h_writer, List.drop_left' (D.length_md5 k)]
  refine ⟨_, rfl, ?_, ?_⟩
  · show VmessSecurity.chaCha20Poly1305 (chachaKey D _ (reqBodyKey salt)) = _
    rw [h_writer]
  · show VmessSecurity.chaCha20Poly1305 (chachaKey D (chachaKey D _ (reqBodyKey salt))
      (respBodyKey D salt)) = _
    rw [h_reader]

/-- **The keys of ChaCha20** are derived from the body keys only where the digests of the scratch
array happen to be those that are asked for. -/
theorem new_derivesKeys_iff (D : Digests) (salt : Vector UInt8 64) :
    ∃ s, VmessStream.new D 4 salt = .ok s ∧
      (s.DerivesKeys D salt ↔
        D.md5 (List.replicate 16 0) = D.md5 (D.md5 (reqBodyKey salt)) ∧
        D.md5 (D.md5 (List.replicate 16 0)) = D.md5 (D.md5 (respBodyKey D salt))) := by
  obtain ⟨s, h_new, h_writer, h_reader⟩ := new_chacha D salt
  have h_half {a b c : List UInt8} :
      VmessSecurity.chaCha20Poly1305 (a ++ b) = .chaCha20Poly1305 (a ++ c) ↔ b = c := by
    rw [VmessSecurity.chaCha20Poly1305.injEq, List.append_cancel_left_eq]
  refine ⟨s, h_new, fun h => ⟨?_, ?_⟩, fun ⟨h_req, h_resp⟩ => ⟨?_, ?_⟩⟩
  · exact h_half.mp (h_writer.symm.trans h.writer_eq)
  · exact h_half.mp (h_reader.symm.trans h.reader_eq)
  · exact h_writer.trans (h_half.mpr h_req)
  · exact h_reader.trans (h_half.mpr h_resp)

/-- Digests that add up the bytes. -/
def Digests.sums : Digests where
  sha256 data := List.replicate 32 (data.sum + 1)
  md5 data := List.replicate 16 (data.sum + 1)
  vmessKdf1 data _ := List.replicate 32 data.sum
  length_sha256 _ := List.length_replicate
  length_md5 _ := List.length_replicate

/-- For a salt of zeros the second half of the writer's key is not the digest of the first. -/
theorem new_derivesKeys_zeros :
    ¬ ∀ (D : Digests) (salt : Vector UInt8 64) (s : VmessStream),
      VmessStream.new D 4 salt = .ok s → s.DerivesKeys D salt := by
  intro h
  obtain ⟨s, h_new, h_writer, -⟩ := new_chacha .sums (Vector.replicate 64 0)
  have h_eq := h_writer.symm.trans (h .sums (Vector.replicate 64 0) s h_new).writer_eq
  exact absurd (VmessSecurity.chaCha20Poly1305.inj h_eq) (by decide)

end Keys

section RoundTrip

/-- A stream before the response of its server or after it, on a stream below that works. -/
inductive VmessAhead (A : Aead) (p : Profile) (s : VmessStream) (es : List ReadEvent)
    (rest : List UInt8) : Prop
  | waitResp {wire : List UInt8} (state_eq : s.state1 = .waitResp)
      (ahead : HeaderAhead A s.headerReader es wire) (stage_eq : s.reader.stage = .head)
      (frames : Frames (VmessAeadReader.format A p) s.reader.cipher wire rest)
  | streaming (state_eq : s.state1 = .streaming)
      (ahead : FramedReader.AheadOf (VmessAeadReader.format A p) s.reader es rest)

/-- A poll of a stream whose body has begun. -/
theorem deliver_streaming (h_inPlace : A.InPlace) (h_state : s.state1 = .streaming)
    (h_ahead : FramedReader.AheadOf (VmessAeadReader.format A p) s.reader es rest)
    (h_room : 0 < room) :
    ∃ x, streaming A p s es room = .ok x ∧ Delivery (VmessAhead A p) es rest x := by
  obtain ⟨x, h_poll, h_x⟩ :=
    FramedReader.delivers_pollRead (p := p) (VmessAeadReader.format_sound h_inPlace) s.reader es
      rest
      room h_ahead h_room
  refine ⟨x.map fun reader => { s with reader }, ?_, h_x.map _ ?_⟩
  · show (FramedReader.pollRead p _ s.reader es room >>= _) = _
    rw [h_poll]
    rfl
  · exact fun reader es rest h => .streaming h_state h

/-- **The stream delivers**, from the first byte of the header on. -/
theorem delivers_vmess (h_inPlace : A.InPlace) :
    Delivers (VmessStream.privPollRead A p) (VmessAhead A p) := by
  intro s es rest room h_ahead h_room
  unfold VmessStream.privPollRead
  cases h_ahead with
  | streaming state_eq ahead =>
    rw [state_eq]
    exact deliver_streaming h_inPlace state_eq ahead h_room
  | @waitResp wire state_eq ahead stage_eq frames =>
    obtain ⟨x, h_x, h_delivery⟩ := ahead.poll (p := p) h_inPlace
    rw [state_eq]
    dsimp only
    unfold VmessStream.waitResp
    rw [h_x, ok_bind]
    cases h_delivery with
    | pending result_eq ahead' spent =>
      rw [result_eq]
      exact ⟨_, rfl, .pending rfl (.waitResp state_eq ahead' stage_eq frames) (Or.inl spent)⟩
    | done result_eq clean bytes_eq pendings_le =>
      rw [result_eq]
      -- the body begins with what the header reader has left
      have h_body : FramedReader.AheadOf (VmessAeadReader.format A p)
          { s.reader with buffer := x.state.buffer } x.events rest := by
        refine ⟨clean, ?_⟩
        show FramedReader.Ahead _ _ (x.state.buffer ++ bytesOf x.events) rest
        rw [bytes_eq]
        exact .head stage_eq frames
      obtain ⟨y, h_y, h_delivered⟩ := deliver_streaming (s := { s with
        reader := { s.reader with buffer := x.state.buffer },
        headerReader := { x.state with buffer := [] }, state1 := .streaming })
        h_inPlace rfl h_body h_room
      exact ⟨y, h_y, h_delivered.mono pendings_le⟩

/-- **Round trip of a VMess stream.** The server seals slices under the response key, and a
client reads them after any valid header: whatever is put into the destinations is a prefix of
what the writer has reported as taken, it is all of that when the stream ends or after enough
polls, and no poll fails. -/
theorem vmessStream_roundTrip (h_aead : A.Lawful)
    (h_new : VmessStream.new D securityNum salt = .ok s)
    {len box payload : List UInt8} (h_header : ValidHeader A s.headerReader len box payload)
    {slices : List (List UInt8)} (h_slices : ∀ data ∈ slices, data ≠ []) {ws : List WriteEvent}
    (h_working : Working ws) (polls : ℕ) :
    ∃ w, writeRun (VmessAeadWriter.format A .release) polls slices
        (VmessAeadWriter.new s.reader.cipher.security s.reader.cipher.iv s.reader.cipher.iv_len)
          ws =
          .ok w ∧
      (writePendings ws + slices.length ≤ polls →
        (slices.map fun data => 18 + min (chunkSize - 16) data.length).sum ≤ accepts ws →
        w.left = []) ∧
      (w.left = [] → w.returned = (slices.map fun data => .ok (min (chunkSize - 16) data.length)) ∧
        ∀ (es : List ReadEvent) (rooms : List ℕ), Clean es → bytesOf es = len ++ (box ++ w.out) →
          (∀ room ∈ rooms, 0 < room) →
          ∃ y, readRun (VmessStream.privPollRead A .release) rooms s es = .ok y ∧
            let plain := (slices.map fun data =>
              data.take (min (chunkSize - 16) data.length)).flatten
            y.put <+: plain ∧ (∀ e, y.how ≠ .failed e) ∧ (y.how = .ended → y.put = plain) ∧
              (pendings es + plain.length ≤ rooms.length → y.put = plain)) := by
  obtain ⟨h_wait, ⟨h_stage, h_buffer⟩, h_reader⟩ := VmessStream.fresh_new h_new
  -- the server seals under the cipher that the client reads with
  have h_cipher : s.reader.cipher =
      ⟨s.reader.cipher.security, s.reader.cipher.iv, 0, s.reader.cipher.iv_len⟩ :=
    congrArg FramedReader.cipher h_reader
  have h_plain : (slices.map fun data => data.take (min (chunkSize - 16) data.length)) =
      slices.map fun data => data.take (chunkSize - 16) :=
    List.map_congr_left fun data _ => List.take_eq_take_min.symm
  -- what goes on the wire is fixed before the stream below is asked to take any of it
  obtain ⟨wire, h_sealed⟩ := exists_vmess_sealed A
    ⟨s.reader.cipher.security, s.reader.cipher.iv, 0, s.reader.cipher.iv_len⟩ h_slices
  have h_frames := frames_of_vmess_sealed h_aead h_sealed
  rw [← h_cipher] at h_frames
  obtain ⟨w, h_run, -, ⟨written, h_written, h_returned⟩, h_all, h_left⟩ :=
    writeRun_of_owes (n := polls) (w := VmessAeadWriter.new s.reader.cipher.security
      s.reader.cipher.iv s.reader.cipher.iv_len) h_working (owes_of_sealed rfl rfl h_sealed)
  refine ⟨w, h_run, fun h_polls h_accepts => ?_, fun h_nil => ?_⟩
  · rw [← length_of_vmess_sealed h_aead.toInPlace h_sealed] at h_accepts
    exact h_left h_polls h_accepts
  rw [h_nil, List.append_nil] at h_written
  refine ⟨by rw [h_returned, h_written]; rfl, ?_⟩
  -- the client: the header is ahead of the frames of that wire
  intro es rooms h_clean h_bytes h_rooms
  rw [h_all h_nil] at h_bytes
  dsimp only
  rw [h_plain]
  have h_ahead : HeaderAhead A s.headerReader es wire :=
    .length h_stage h_header h_clean (by rw [h_buffer]; exact h_bytes)
  exact run_of_delivers (delivers_vmess h_aead.toInPlace)
    (.waitResp h_wait h_ahead (congrArg FramedReader.stage h_reader) h_frames) h_rooms

/-- Two slices under ChaCha20, read a byte at a time. -/
theorem vmessStream_roundTrip_hi : ∃ s w y,
    VmessStream.new .zeros 4 (Vector.replicate 64 0) = .ok s ∧
    writeRun (VmessAeadWriter.format .tagged .release) 2 [[104, 105], [33]]
      (VmessAeadWriter.new s.reader.cipher.security s.reader.cipher.iv s.reader.cipher.iv_len)
      (List.replicate 39 (.accept 1)) = .ok w ∧
    readRun (VmessStream.privPollRead .tagged .release) [2, 1, 2] s
      (oneByOne (sampleLen ++ (sampleBox ++ w.out))) = .ok y ∧
    y.put = [104, 105, 33] := by
  obtain ⟨s, h_new⟩ : ∃ s, VmessStream.new .zeros 4 (Vector.replicate 64 0) = .ok s := ⟨_, rfl⟩
  have h_header : ValidHeader .tagged s.headerReader sampleLen sampleBox [0, 1, 0, 0] := by
    cases h_new
    exact sampleHeader_valid rfl
  have h_slices : ∀ data ∈ ([[104, 105], [33]] : List (List UInt8)), data ≠ [] := by decide
  obtain ⟨w, h_run, h_left, h_read⟩ := vmessStream_roundTrip Aead.tagged_lawful h_new h_header
    h_slices (working_replicate 39 (k := 1) (by decide)) 2
  have h_nil := h_left (by rw [writePendings_replicate]; decide) (by rw [accepts_replicate]; decide)
  obtain ⟨y, h_y, -, -, -, h_all⟩ := (h_read h_nil).2 (oneByOne (sampleLen ++ (sampleBox ++ w.out)))
    [2, 1, 2] (clean_oneByOne _) (bytesOf_oneByOne _) (by decide)
  refine ⟨s, w, y, h_new, h_run, h_y, ?_⟩
  rw [h_all (by rw [pendings_oneByOne]; decide)]
  decide

end RoundTrip

section Header

/-- Some polls lead to the steal of the buffer, with `es'` still to come. -/
def BodyStarts (A : Aead) (p : Profile) (s : VmessStream) (es es' : List ReadEvent) : Prop :=
  ∃ rooms y s', readRun (VmessStream.privPollRead A p) rooms s es = .ok y ∧ y.how = .more ∧
    y.state.state1 = .waitResp ∧ VmessStream.waitResp A p y.state y.events = .ok (.start s' es')

theorem privPollRead_streaming (h_state : s.state1 = .streaming) :
    VmessStream.privPollRead A p s es room = streaming A p s es room := by
  unfold VmessStream.privPollRead
  rw [h_state]

/-- A stream whose body has begun stays there. -/
theorem readRun_streaming {rooms : List ℕ} {y : ReadRun VmessStream}
    (h_state : s.state1 = .streaming)
    (h_run : readRun (VmessStream.privPollRead A p) rooms s es = .ok y) :
    y.state.state1 = .streaming := by
  induction rooms generalizing s es y with
  | nil => cases h_run; exact h_state
  | cons room rooms ih =>
    rw [readRun] at h_run
    obtain ⟨x, h_poll, h_run⟩ := bind_eq_ok.mp h_run
    -- a poll in this state only reads frames
    have h_x : x.state.state1 = .streaming := by
      rw [privPollRead_streaming h_state] at h_poll
      obtain ⟨z, -, h_z⟩ := bind_eq_ok.mp h_poll
      obtain rfl := Except.ok.inj h_z
      exact h_state
    split at h_run
    · exact ih h_x h_run
    · cases h_run; exact h_x
    · split at h_run
      · cases h_run; exact h_x
      · obtain ⟨y', h_rest, h_run⟩ := bind_eq_ok.mp h_run
        obtain rfl := Except.ok.inj h_run
        exact ih (y := y') h_x h_rest

/-- What waiting for the response leads to is what the poll of the header reader leads to. -/
theorem waitResp_of_poll {x : HeaderPoll}
    (h_poll : s.headerReader.pollReadDecrypted A p es = .ok x) :
    VmessStream.waitResp A p s es = match x.result with
      | .pending => .ok (.answer ⟨{ s with headerReader := x.state }, x.events, .pending, []⟩)
      | .ready (.error message) =>
        .ok (.answer ⟨{ s with headerReader := x.state, state1 := .done }, x.events,
          .ready (.error message), []⟩)
      | .ready (.ok ()) => .ok (.start { s with
          reader := { s.reader with buffer := x.state.buffer },
          headerReader := { x.state with buffer := [] }, state1 := .streaming } x.events) := by
  unfold VmessStream.waitResp
  rw [h_poll, ok_bind]
  split <;> rfl

/-- A poll that waits for the response reads it, and goes on with the body if it is there. -/
theorem privPollRead_waitResp (es : List ReadEvent) (room : ℕ) (h_state : s.state1 = .waitResp) :
    VmessStream.privPollRead A p s es room =
      (VmessStream.waitResp A p s es >>= fun
        | .answer x => .ok x
        | .start s es => streaming A p s es room) := by
  unfold VmessStream.privPollRead
  rw [h_state]
  rfl

/-- The body starts when the header reader is done. -/
theorem bodyStarts_iff (h_inPlace : A.InPlace) (h_state : s.state1 = .waitResp) :
    BodyStarts A p s es es' ↔ HeaderDone A p s.headerReader es es' := by
  constructor
  · rintro ⟨rooms, y, s', h_run, h_how, h_wait, h_start⟩
    induction rooms generalizing s es with
    | nil =>
      cases h_run
      obtain ⟨x, h_poll, -⟩ := oneShot h_inPlace p s.headerReader es
      have h_wait := waitResp_of_poll h_poll
      change VmessStream.waitResp A p s es = _ at h_start
      cases h_result : x.result with
      | pending => rw [h_result] at h_wait; cases h_wait.symm.trans h_start
      | ready r =>
        rw [h_result] at h_wait
        cases r with
        | error e => cases h_wait.symm.trans h_start
        | ok u =>
          cases h_wait.symm.trans h_start
          exact .now h_poll h_result
    | cons room rooms ih =>
      obtain ⟨z, h_poll, -⟩ := oneShot h_inPlace p s.headerReader es
      have h_wait' := waitResp_of_poll h_poll
      have h_first := privPollRead_waitResp (A := A) (p := p) es room h_state
      cases h_result : z.result with
      | pending =>
        rw [h_result] at h_wait'
        rw [h_wait'] at h_first
        rw [readRun, h_first] at h_run
        exact .later h_poll h_result (ih (s := { s with headerReader := z.state }) h_state h_run)
      | ready r =>
        rw [h_result] at h_wait'
        rw [h_wait'] at h_first
        cases r with
        | error e =>
          rw [readRun, h_first] at h_run
          cases h_run
          cases h_how
        | ok u =>
          -- the body has begun, and does not end
          have h_same := h_run.symm.trans (readRun_congr rooms (h_first.trans
            (privPollRead_streaming (by rfl)).symm))
          cases h_wait.symm.trans (readRun_streaming (by rfl) h_same.symm)
  · intro h_done
    generalize h_header : s.headerReader = h at h_done
    induction h_done generalizing s with
    | now poll_eq result_eq =>
      subst h_header
      have h_wait := waitResp_of_poll poll_eq
      rw [result_eq] at h_wait
      exact ⟨[], _, _, rfl, rfl, h_state, h_wait⟩
    | @later h es es' x poll_eq result_eq rest ih =>
      subst h_header
      have h_wait := waitResp_of_poll poll_eq
      rw [result_eq] at h_wait
      obtain ⟨rooms, y, s', h_run, h_rest⟩ :=
        ih (s := { s with headerReader := x.state }) h_state rfl
      refine ⟨1 :: rooms, y, s', ?_, h_rest⟩
      have h_poll := privPollRead_waitResp (A := A) (p := p) es 1 h_state
      rw [h_wait] at h_poll
      rw [readRun, h_poll]
      exact h_run

/-- **The body of a stream starts only after a valid header**, over every segmentation and with
ends of the stream anywhere, if and only if the schedule does not mislead the header reader. -/
theorem vmessStream_header_iff (h_inPlace : A.InPlace) (p : Profile)
    (h_new : VmessStream.new D securityNum salt = .ok s) (es : List ReadEvent) :
    (∀ es', BodyStarts A p s es es' →
      ∃ received, bytesOf es = received ++ bytesOf es' ∧ HeaderReceived A s.headerReader received) ↔
      ¬ Misled A s.headerReader es := by
  obtain ⟨h_wait, ⟨h_stage, h_buffer⟩, -⟩ := VmessStream.fresh_new h_new
  rw [← headerDone_iff h_inPlace p h_stage h_buffer es]
  exact forall_congr' fun es' => imp_congr_left (bodyStarts_iff h_inPlace h_wait)

/-- After a valid header the body may start. -/
theorem vmessStream_header_valid : ∃ s, VmessStream.new .zeros 3 (Vector.replicate 64 0) = .ok s ∧
    ∀ es', BodyStarts .tagged .debug s [.data (sampleLen ++ sampleBox)] es' →
      ∃ received, bytesOf [.data (sampleLen ++ sampleBox)] = received ++ bytesOf es' ∧
        HeaderReceived .tagged s.headerReader received := by
  have h_inPlace := Aead.tagged_lawful.toInPlace
  obtain ⟨s, h_new⟩ : ∃ s, VmessStream.new .zeros 3 (Vector.replicate 64 0) = .ok s := ⟨_, rfl⟩
  have h_header : ValidHeader .tagged s.headerReader sampleLen sampleBox [0, 1, 0, 0] := by
    cases h_new
    exact sampleHeader_valid rfl
  refine ⟨s, h_new, (vmessStream_header_iff h_inPlace .debug h_new _).mpr fun h_misled => ?_⟩
  -- there is one read, and it is all of a header
  have h_one {es₁ es₂ : List ReadEvent} {bs : List UInt8}
      (h_es : [.data (sampleLen ++ sampleBox)] = es₁ ++ .data bs :: es₂) :
      es₁ = [] ∧ bs = sampleLen ++ sampleBox := by
    cases es₁ with
    | nil => cases h_es; exact ⟨rfl, rfl⟩
    | cons e es₁ => exact absurd (congrArg List.length h_es) (by simp)
  cases h_misled with
  | endedInLength flows es_eq => cases (h_one es_eq).2
  | endedInPayload flows es_eq => cases (h_one es_eq).2
  | short flows ne_nil es_eq bytes_eq lt opens passes short =>
    obtain ⟨rfl, rfl⟩ := h_one es_eq
    rw [← List.append_nil sampleBox] at bytes_eq
    obtain rfl := h_header.toOpenHeader.unique h_inPlace opens bytes_eq
    exact absurd short (by decide)

/-- A server that closes the connection at once starts the body. -/
theorem vmessStream_header_closed :
    ¬ ∀ (A : Aead) (p : Profile) (D : Digests) (securityNum : ℕ) (salt : Vector UInt8 64)
        (s : VmessStream) (es es' : List ReadEvent),
      A.InPlace → VmessStream.new D securityNum salt = .ok s → BodyStarts A p s es es' →
      ∃ received, bytesOf es = received ++ bytesOf es' ∧
        HeaderReceived A s.headerReader received := by
  intro h
  have h_inPlace := Aead.tagged_lawful.toInPlace
  obtain ⟨_, h_bytes, len, box, payload, later, rfl, h_valid⟩ :=
    h .tagged .release .zeros 3 (Vector.replicate 64 0) _ [.data []] [] h_inPlace rfl
      ⟨[], _, _, rfl, rfl, rfl, rfl⟩
  have h_len := congrArg List.length h_bytes
  rw [List.length_append, List.length_append, h_valid.length_len h_inPlace] at h_len
  exact absurd h_len (by show 0 ≠ 18 + _ + 0; omega)

end Header

end V2ray

import V2rayRust.Lib.FramedOverlay
import V2rayRust.Proxy.Shadowsocks.Session

/-!
# Shadowsocks over any stream

A `CryptoStream<S>` is written over any `S`, and a chain puts one over the other. It reads its salt
into a slice of that length and everything else into its buffer, and it offers what is left of its
buffer. So it sits on every stream that works (`CryptoStream.sits`), another one included.

Over a stream below, a poll meets one answer at a time. What it does with none, with bytes and with
the end is one lemma each (`privPollRead_later`, `privPollRead_feed`, `privPollRead_end`), with two
cases: within the salt it is `read_exact`, and after it the reader of frames, for which
`Lib/FramedOverlay` has the same.
-/

namespace V2ray

namespace CryptoStream

/-- `CryptoStream<S>`: `spare` is the room that the buffer of its reader has. -/
def overlay (A : Aead) (p : Profile) (checkNonceAndSet : List UInt8 → Bool)
    (spare : AeadDecryptedReader → ℕ) : Overlay CryptoStream where
  toTwoWay := twoWay A p checkNonceAndSet
  wants s :=
    match s.readStatus, s.dec with
    | .waitIv buf method _, _ => method.saltLen - buf.length
    | .established, some (.aead r) => spare r
    | .established, _ => 0
  offers s :=
    match s.enc with
    | .aead w => w.offers
    | .none => []

/-- A read is suspended below. -/
inductive Waits (A : Aead) (p : Profile) (s : CryptoStream) : Prop
  | waitIv {buf key : List UInt8} {method : CipherKind}
      (status_eq : s.readStatus = .waitIv buf method key) (lt : buf.length < method.saltLen)
  | established {r : AeadDecryptedReader} (status_eq : s.readStatus = .established)
      (dec_eq : s.dec = some (.aead r)) (waits : r.Waits (AeadDecryptedReader.format A p))

/-- `wire` is still to come, and `rest` is in it and in what came. -/
inductive Coming (A : Aead) (p : Profile) (checkNonceAndSet : List UInt8 → Bool) (s : CryptoStream)
    (wire rest : List UInt8) : Prop
  | waitIv {buf key salt later : List UInt8} {method : CipherKind}
      (status_eq : s.readStatus = .waitIv buf method key) (is_aead : method ≠ .none)
      (salt_len : salt.length = method.saltLen) (new_salt : checkNonceAndSet salt = false)
      (buf_len : buf.length ≤ method.saltLen) (bytes_eq : buf ++ wire = salt ++ later)
      (frames : Frames (AeadDecryptedReader.format A p) (.new A method key salt) later rest)
  | established {r : AeadDecryptedReader} (status_eq : s.readStatus = .established)
      (dec_eq : s.dec = some (.aead r))
      (coming : r.Coming (AeadDecryptedReader.format A p) wire rest)

/-- The chunks that a stream still has to write when these slices are left. -/
def OwesEach (A : Aead) (s : CryptoStream) (slices chunks : List (List UInt8)) : Prop :=
  ∃ w, s.enc = .aead w ∧
    ChunkWriter.OwesEach (AeadEncryptedWriter.format A) w slices chunks

variable {A : Aead} {p : Profile} {checkNonceAndSet : List UInt8 → Bool} {s : CryptoStream}
  {es : List ReadEvent} {wire rest : List UInt8} {room : ℕ}

/-- What is ahead of a stream over a schedule is what is coming over any stream that has the same
bytes. -/
theorem cryptoAhead_iff : CryptoAhead A p checkNonceAndSet s es rest ↔
    Clean es ∧ Coming A p checkNonceAndSet s (bytesOf es) rest := by
  constructor
  · intro h
    cases h with
    | waitIv status_eq is_aead salt_len new_salt buf_len clean bytes_eq frames =>
      exact ⟨clean, .waitIv status_eq is_aead salt_len new_salt buf_len bytes_eq frames⟩
    | established status_eq dec_eq ahead => exact ⟨ahead.1, .established status_eq dec_eq ahead.2⟩
  · rintro ⟨h_clean, h⟩
    cases h with
    | waitIv status_eq is_aead salt_len new_salt buf_len bytes_eq frames =>
      exact .waitIv status_eq is_aead salt_len new_salt buf_len h_clean bytes_eq frames
    | established status_eq dec_eq coming => exact .established status_eq dec_eq ⟨h_clean, coming⟩

/-! ### Reading -/

/-- The end of a schedule and a `Pending` are one to `readExact`. -/
theorem readExact_later (length : ℕ) (buffer : List UInt8) (es : List ReadEvent) :
    (readExact length buffer [] = (.full, buffer, []) ∧
      readExact length buffer (.pending :: es) = (.full, buffer, .pending :: es)) ∨
    (buffer.length < length ∧ readExact length buffer [] = (.pending, buffer, []) ∧
      readExact length buffer (.pending :: es) = (.pending, buffer, es)) := by
  rcases Nat.lt_or_ge buffer.length length with h_lt | h_le
  · refine .inr ⟨h_lt, ?_, readExact_of_lt h_lt _ _⟩
    rw [readExact, if_neg (Nat.not_le_of_lt h_lt)]
  · exact .inl ⟨readExact_of_le h_le _, readExact_of_le h_le _⟩

/-- An established stream. -/
theorem privPollRead_established {r : AeadDecryptedReader} (h_status : s.readStatus = .established)
    (h_dec : s.dec = some (.aead r)) (es : List ReadEvent) :
    privPollRead A p checkNonceAndSet s es room =
      (r.pollReadDecrypted A p es room).map fun x => x.map fun r =>
        { s with dec := some (.aead r) } := by
  obtain ⟨dec, enc, status⟩ := s
  cases h_status
  cases h_dec
  show (r.pollReadDecrypted A p es room >>= _) = _
  cases r.pollReadDecrypted A p es room <;> rfl

/-- To an established stream the end of a schedule and a `Pending` are one. -/
theorem established_later (h_inPlace : A.InPlace) {r : AeadDecryptedReader}
    (h_status : s.readStatus = .established) (h_dec : s.dec = some (.aead r))
    (es : List ReadEvent) :
    privPollRead A p checkNonceAndSet s (.pending :: es) room =
      (privPollRead A p checkNonceAndSet s [] room).map (ReadPoll.later es) := by
  have h_later : r.pollReadDecrypted A p (.pending :: es) room =
      (r.pollReadDecrypted A p [] room).map (ReadPoll.later es) :=
    FramedReader.pollRead_later (AeadDecryptedReader.format_sound h_inPlace) r es
  rw [privPollRead_established h_status h_dec, privPollRead_established h_status h_dec, h_later]
  cases r.pollReadDecrypted A p [] room <;> rfl

/-- What the salt makes of a stream. -/
def salted (A : Aead) (s : CryptoStream) (method : CipherKind) (key salt : List UInt8) :
    CryptoStream :=
  { s with dec := some (.aead (.new A method key salt)), readStatus := .established }

/-- A stream that has its salt goes on as an established one. -/
theorem privPollRead_of_full {buf key salt : List UInt8} {method : CipherKind}
    {es' : List ReadEvent} (h_status : s.readStatus = .waitIv buf method key)
    (h_method : method ≠ .none) (h_new : checkNonceAndSet salt = false)
    (h_read : readExact method.saltLen buf es = (.full, salt, es')) :
    privPollRead A p checkNonceAndSet s es room =
      privPollRead A p checkNonceAndSet (salted A s method key salt) es' room := by
  have h_shake : pollReadHandshake A checkNonceAndSet s es =
      .done (salted A s method key salt) es' := by
    unfold pollReadHandshake
    rw [h_status]
    dsimp only
    rw [h_read]
    dsimp only
    rw [h_new, if_neg Bool.false_ne_true]
    cases method with
    | none => exact absurd rfl h_method
    | aes128Gcm | aes256Gcm | chaCha20Poly1305 => rfl
  unfold privPollRead
  rw [h_shake]
  rfl

/-- While the salt is not whole, a poll keeps what it has of it and puts nothing. -/
theorem privPollRead_of_pending {buf buf' key : List UInt8} {method : CipherKind}
    {es' : List ReadEvent} (h_status : s.readStatus = .waitIv buf method key)
    (h_read : readExact method.saltLen buf es = (.pending, buf', es')) :
    privPollRead A p checkNonceAndSet s es room =
      .ok ⟨{ s with readStatus := .waitIv buf' method key }, es', .pending, []⟩ := by
  unfold privPollRead pollReadHandshake
  rw [h_status]
  dsimp only
  rw [h_read]

/-- **No answer suspends a read where a pending one does.** -/
theorem privPollRead_later (h_inPlace : A.InPlace)
    (h : Coming A p checkNonceAndSet s wire rest) (es : List ReadEvent) :
    privPollRead A p checkNonceAndSet s (.pending :: es) room =
      (privPollRead A p checkNonceAndSet s [] room).map (ReadPoll.later es) := by
  cases h with
  | established status_eq dec_eq => exact established_later h_inPlace status_eq dec_eq es
  | @waitIv buf key salt later method status_eq is_aead salt_len new_salt buf_len bytes_eq =>
    rcases readExact_later method.saltLen buf es with ⟨h_nil, h_later⟩ | ⟨-, h_nil, h_later⟩
    · -- the whole salt is there
      obtain ⟨-, -, h_full⟩ := readExact_cases buf_len h_nil
      have h_salt : buf = salt :=
        (List.append_inj bytes_eq ((h_full rfl).trans salt_len.symm)).1
      rw [h_salt] at status_eq h_nil h_later
      rw [privPollRead_of_full status_eq is_aead new_salt h_nil,
        privPollRead_of_full status_eq is_aead new_salt h_later]
      exact established_later h_inPlace rfl rfl es
    · rw [privPollRead_of_pending status_eq h_nil, privPollRead_of_pending status_eq h_later]
      rfl

/-- A poll after the handshake that is pending waits for bytes of a frame. -/
theorem waits_of_established {r : AeadDecryptedReader} (h_status : s.readStatus = .established)
    (h_dec : s.dec = some (.aead r)) {x : ReadPoll CryptoStream}
    (h : privPollRead A p checkNonceAndSet s [] room = .ok x) (h_pending : x.result = .pending) :
    Waits A p x.state := by
  rw [privPollRead_established h_status h_dec] at h
  cases h_poll : r.pollReadDecrypted A p [] room with
  | error f =>
    rw [h_poll] at h
    cases h
  | ok y =>
    rw [h_poll] at h
    cases h
    exact .established h_status rfl (FramedReader.waits_of_pollRead h_poll h_pending)

/-- A poll that is pending waits for bytes. -/
theorem waits_of_privPollRead (h : Coming A p checkNonceAndSet s wire rest)
    {x : ReadPoll CryptoStream} (h_poll : privPollRead A p checkNonceAndSet s [] room = .ok x)
    (h_pending : x.result = .pending) : Waits A p x.state := by
  cases h with
  | established status_eq dec_eq => exact waits_of_established status_eq dec_eq h_poll h_pending
  | @waitIv buf key salt later method status_eq is_aead salt_len new_salt buf_len bytes_eq =>
    rcases readExact_later method.saltLen buf [] with ⟨h_nil, -⟩ | ⟨h_lt, h_nil, -⟩
    · obtain ⟨-, -, h_full⟩ := readExact_cases buf_len h_nil
      have h_salt : buf = salt :=
        (List.append_inj bytes_eq ((h_full rfl).trans salt_len.symm)).1
      rw [h_salt] at status_eq h_nil
      rw [privPollRead_of_full status_eq is_aead new_salt h_nil] at h_poll
      exact waits_of_established rfl rfl h_poll h_pending
    · rw [privPollRead_of_pending status_eq h_nil] at h_poll
      cases h_poll
      exact .waitIv rfl h_lt

/-- The stream with these bytes in its buffer. -/
def fed (s : CryptoStream) (bs : List UInt8) : CryptoStream :=
  match s.readStatus, s.dec with
  | .waitIv buf method key, _ => { s with readStatus := .waitIv (buf ++ bs) method key }
  | .established, some (.aead r) =>
    { s with dec := some (.aead { r with buffer := r.buffer ++ bs }) }
  | .established, _ => s

variable {spare : AeadDecryptedReader → ℕ} {bs : List UInt8}

/-- Bytes that come go into the buffer. -/
theorem privPollRead_feed (h : Waits A p s) (h_bs : bs ≠ [])
    (h_le : bs.length ≤ (overlay A p checkNonceAndSet spare).wants s) :
    privPollRead A p checkNonceAndSet s [.data bs] room =
      privPollRead A p checkNonceAndSet (fed s bs) [] room := by
  obtain ⟨dec, enc, status⟩ := s
  cases h with
  -- within the salt: the answer fits into what is missing
  | @waitIv buf key method status_eq lt =>
    cases status_eq
    change bs.length ≤ method.saltLen - buf.length at h_le
    have h_read : readExact method.saltLen buf [.data bs] =
        readExact method.saltLen (buf ++ bs) [] := by
      rw [readExact_of_lt lt]
      dsimp only
      rw [if_neg h_bs, if_pos h_le]
    unfold privPollRead pollReadHandshake
    dsimp only [fed]
    rw [h_read]
  -- in the stream: the reader of frames
  | @established r status_eq dec_eq waits =>
    cases status_eq
    cases dec_eq
    have h_fed : r.pollReadDecrypted A p [.data bs] room =
        AeadDecryptedReader.pollReadDecrypted A p { r with buffer := r.buffer ++ bs } [] room :=
      FramedReader.pollRead_feed waits h_bs []
    rw [privPollRead_established rfl rfl, h_fed]
    show _ = privPollRead A p checkNonceAndSet
      ⟨some (.aead { r with buffer := r.buffer ++ bs }), enc, .established⟩ [] room
    rw [privPollRead_established rfl rfl]

/-- Bytes that have come are no longer to come. -/
theorem coming_feed (h : Waits A p s)
    (h_le : bs.length ≤ (overlay A p checkNonceAndSet spare).wants s)
    (h_coming : Coming A p checkNonceAndSet s (bs ++ wire) rest) :
    Coming A p checkNonceAndSet (fed s bs) wire rest := by
  obtain ⟨dec, enc, status⟩ := s
  cases h with
  -- the salt has become longer, and what comes after it is the same
  | @waitIv buf key method status_eq lt =>
    cases status_eq
    change bs.length ≤ method.saltLen - buf.length at h_le
    cases h_coming with
    | established status_eq' => cases status_eq'
    | waitIv status_eq' is_aead salt_len new_salt buf_len bytes_eq frames =>
      cases status_eq'
      refine .waitIv rfl is_aead salt_len new_salt ?_ ?_ frames
      · rw [List.length_append]
        omega
      · rw [List.append_assoc]
        exact bytes_eq
  -- the frames begin with the buffer, so its bytes only change sides
  | @established r status_eq dec_eq waits =>
    cases status_eq
    cases dec_eq
    cases h_coming with
    | waitIv status_eq' => cases status_eq'
    | established status_eq' dec_eq' coming =>
      cases dec_eq'
      exact .established rfl rfl (FramedReader.coming_feed waits coming)

/-- The end of the stream below, when nothing is missing. -/
theorem privPollRead_end (h : Waits A p s) (h_coming : Coming A p checkNonceAndSet s [] rest) :
    ∃ x, privPollRead A p checkNonceAndSet s [.data []] room = .ok x ∧
      x.result = .ready (.ok ()) ∧ x.put = [] := by
  cases h with
  | @waitIv buf key method status_eq lt =>
    -- the salt is missing
    cases h_coming with
    | established status_eq' =>
      rw [status_eq] at status_eq'
      cases status_eq'
    | waitIv status_eq' is_aead salt_len new_salt buf_len bytes_eq frames =>
      cases status_eq.symm.trans status_eq'
      have h_len := congrArg List.length bytes_eq
      rw [List.append_nil, List.length_append] at h_len
      omega
  | @established r status_eq dec_eq waits =>
    have h_end : r.pollReadDecrypted A p [.data []] room =
        .ok ⟨{ r with stage := .done }, [], .ready (.ok ()), []⟩ := FramedReader.pollRead_end waits
    rw [privPollRead_established status_eq dec_eq, h_end]
    exact ⟨_, rfl, rfl, rfl⟩

/-- A read puts no more than there is room for. -/
theorem length_of_pollReadBuf {es' : List ReadEvent}
    (h : pollReadBuf room es = (.ready (.ok bs), es')) : bs.length ≤ room := by
  match es with
  | [] => cases h
  | .pending :: es => cases h
  | .err message :: es => cases h
  | .data bytes :: es =>
    rw [pollReadBuf] at h
    split at h
    · next h_le =>
      cases h
      exact h_le
    · cases h
      exact List.length_take_le _ _

/-- What a poll puts fits into its destination. -/
theorem fits_twoWay : (twoWay A p checkNonceAndSet).Fits := by
  intro s es room x h
  change privPollRead A p checkNonceAndSet s es room = .ok x at h
  unfold privPollRead at h
  split at h
  · next y h_answer =>
    -- a handshake that answers puts nothing
    cases h
    unfold pollReadHandshake at h_answer
    split at h_answer
    · cases h_answer
    · split at h_answer
      · cases h_answer
        exact Nat.zero_le _
      · cases h_answer
        exact Nat.zero_le _
      · cases h_answer
        exact Nat.zero_le _
      · split at h_answer <;> cases h_answer
        exact Nat.zero_le _
  · -- the handshake is over
    split at h
    · cases h
    · split at h
      · cases h
        exact Nat.zero_le _
      · cases h
        exact Nat.zero_le _
      · next h_buf =>
        cases h
        exact length_of_pollReadBuf h_buf
    · -- the reader of frames
      obtain ⟨y, h_y, h⟩ := bind_eq_ok.mp h
      cases h
      exact FramedReader.length_put_of_pollRead h_y

/-! ### Writing -/

/-- A chunk has bytes, also that of an empty slice. -/
theorem encryptedBuffer_ne_nil (h_inPlace : A.InPlace) {c c' : AeadCipher}
    {data chunk : List UInt8} (h : (AeadEncryptedWriter.format A).chunk c data = .ok (c', chunk)) :
    chunk ≠ [] := by
  cases h
  apply List.ne_nil_of_length_pos
  show 0 < ((c.encrypt A _).1 ++ _).length
  rw [List.length_append, length_encrypt h_inPlace, length_beBytes]
  omega

/-- **A stream offers what is left of its chunk.** -/
theorem offer_privPollWrite (h_inPlace : A.InPlace) {data : List UInt8}
    {slices chunks' : List (List UInt8)} (h : OwesEach A s (data :: slices) chunks') :
    ∃ chunk chunks x, chunks' = chunk :: chunks ∧ chunk ≠ [] ∧
      (overlay A p checkNonceAndSet spare).Offer (OwesEach A) taken s data slices chunk chunks
        x := by
  obtain ⟨w, h_enc, h_owes⟩ := h
  obtain ⟨chunk, chunks, y, rfl, h_ne, h_poll, h_pending, h_offered⟩ :=
    ChunkWriter.offered (encryptedBuffer_ne_nil h_inPlace) h_owes
  -- a write of the stream is a write of its writer
  have h_write (t : CryptoStream) {w : AeadEncryptedWriter} (h_enc : t.enc = .aead w)
      {ws : List WriteEvent} {z : WritePoll AeadCipher}
      (h_z : w.pollWrite (AeadEncryptedWriter.format A) ws data = .ok z) :
      privPollWrite A t ws data =
        .ok ⟨{ t with enc := .aead z.state }, z.events, z.result, z.out⟩ := by
    unfold privPollWrite
    rw [h_enc]
    dsimp only
    rw [h_z]
    rfl
  -- what is left after a poll without an answer
  let s' : CryptoStream := { s with enc := .aead y.state }
  refine ⟨chunk, chunks, _, rfl, h_ne, h_write s h_enc h_poll, h_pending, h_offered.offers_eq,
    ⟨_, rfl, h_offered.owes⟩, fun n h_n h_lt => ?_, ?_⟩
  · -- a part of the chunk is taken
    obtain ⟨z, h_z, h_result, h_owes'⟩ := h_offered.part n h_n h_lt
    exact ⟨_, h_write s' rfl h_z, h_result, _, rfl, h_owes'⟩
  · -- the whole chunk is taken
    obtain ⟨z, h_z, h_result, h_owes'⟩ := h_offered.whole
    exact ⟨_, h_write s' rfl h_z, h_result, _, rfl, h_owes'⟩

/-! ### Both -/

/-- **A Shadowsocks stream sits on any stream**, if its buffer always has room. -/
theorem sits (h_inPlace : A.InPlace) (h_spare : ∀ r, 0 < spare r) :
    (overlay A p checkNonceAndSet spare).Sits (Coming A p checkNonceAndSet) (Waits A p)
      (OwesEach A) taken where
  -- it never makes a read without room
  wants_pos := by
    intro s h
    obtain ⟨dec, enc, status⟩ := s
    cases h with
    | waitIv status_eq lt =>
      cases status_eq
      exact Nat.sub_pos_of_lt lt
    | established status_eq dec_eq =>
      cases status_eq
      cases dec_eq
      exact h_spare _
  -- with no answer it does what it does with a pending one
  read_nil := by
    intro s wire rest room h_coming h_room
    exact Overlay.heard_of_later (delivers_privPollRead checkNonceAndSet h_inPlace)
      (fun _ _ _ => cryptoAhead_iff) (privPollRead_later h_inPlace h_coming)
      (fun x => waits_of_privPollRead h_coming) h_coming h_room
  -- with bytes it does what it does with these bytes in its buffer
  read_data := by
    intro s bs wire rest room h_waits h_coming h_bs h_le h_room
    have h_fed := coming_feed h_waits h_le h_coming
    show ∃ x, privPollRead A p checkNonceAndSet s [.data bs] room = .ok x ∧ _
    rw [privPollRead_feed h_waits h_bs h_le]
    exact Overlay.heard_of_later (delivers_privPollRead checkNonceAndSet h_inPlace)
      (fun _ _ _ => cryptoAhead_iff) (privPollRead_later h_inPlace h_fed)
      (fun x => waits_of_privPollRead h_fed) h_fed h_room
  read_end := fun h_waits h_coming _ => privPollRead_end h_waits h_coming
  write := offer_privPollWrite h_inPlace
  -- neither direction touches the other
  read_owes := by
    rintro s es room x slices chunks h_read ⟨w, h_enc, h_owes⟩
    exact ⟨w, (enc_of_privPollRead h_read).trans h_enc, h_owes⟩
  write_coming := by
    intro s ws data x wire rest h_write h_coming
    obtain ⟨enc, h_state⟩ := enc_of_privPollWrite h_write
    rw [h_state]
    cases h_coming with
    | waitIv status_eq is_aead salt_len new_salt buf_len bytes_eq frames =>
      exact .waitIv status_eq is_aead salt_len new_salt buf_len bytes_eq frames
    | established status_eq dec_eq coming => exact .established status_eq dec_eq coming

theorem takesPart_taken : TakesPart taken := by
  intro data h_data
  have h_pos := List.length_pos_iff.mpr h_data
  unfold taken maxPacketSize
  omega

end CryptoStream

end V2ray

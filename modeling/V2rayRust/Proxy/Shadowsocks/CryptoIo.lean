import V2rayRust.Lib.SourceRun
import V2rayRust.Proxy.Shadowsocks.Aead

/-!
# The Shadowsocks stream

`proxy/shadowsocks/crypto_io.rs`: a `CryptoStream` first reads the salt of its peer, all of
it and no byte more, and then the chunks. What the peer wrote after its salt arrives whatever
the schedules (`cryptoStream_roundTrip`); of any other bytes only a prefix of what the peer
sealed arrives, as long as its nonces have not come round (`cryptoStream_prefix`).
-/

namespace V2ray

inductive DecryptedReader
  | none
  | aead (reader : AeadDecryptedReader)
  deriving DecidableEq

inductive EncryptedWriter
  | none
  | aead (writer : AeadEncryptedWriter)
  deriving DecidableEq

/-- Steps for initializing a `DecryptedReader`; the context is a parameter of what uses it. -/
inductive ReadStatus
  | waitIv (buf : List UInt8) (method : CipherKind) (key : List UInt8)
  | established
  deriving DecidableEq

/-- `CryptoStream`, less the stream below it. -/
structure CryptoStream where
  dec : Option DecryptedReader
  enc : EncryptedWriter
  readStatus : ReadStatus
  deriving DecidableEq

namespace CryptoStream

/-- `CryptoStream::new`, with `iv` for the salt that it draws. -/
def new (A : Aead) (encKey : List UInt8) (method : CipherKind) (iv : List UInt8) : CryptoStream :=
  match method with
  | .none => ⟨some .none, .none, .established⟩
  | _ => ⟨none, .aead (.new A method encKey iv), .waitIv [] method encKey⟩

/-- What is left of a poll by `poll_read_handshake`: it goes on, or it has an answer. -/
inductive Handshake
  | done (s : CryptoStream) (es : List ReadEvent)
  | answer (x : ReadPoll CryptoStream)

/-- `poll_read_handshake`; `checkNonceAndSet` is what the context answers. -/
def pollReadHandshake (A : Aead) (checkNonceAndSet : List UInt8 → Bool) (s : CryptoStream)
    (es : List ReadEvent) : Handshake :=
  match s.readStatus with
  | .established => .done s es
  | .waitIv buf method key =>
    match readExact method.saltLen buf es with
    | (.pending, buf, es) =>
      .answer ⟨{ s with readStatus := .waitIv buf method key }, es, .pending, []⟩
    | (.err message, buf, es) =>
      .answer ⟨{ s with readStatus := .waitIv buf method key }, es, .ready (.error message), []⟩
    | (.ended, buf, es) =>
      .answer ⟨{ s with readStatus := .waitIv buf method key }, es,
        .ready (.error "unexpected end of file"), []⟩
    | (.full, nonce, es) =>
      if checkNonceAndSet nonce then
        .answer ⟨{ s with readStatus := .waitIv nonce method key }, es,
          .ready (.error "detected repeated iv/salt"), []⟩
      else
        let dec :=
          match method with
          | .none => DecryptedReader.none
          | _ => .aead (.new A method key nonce)
        .done { s with dec := some dec, readStatus := .established } es

/-- `priv_poll_read` -/
def privPollRead (A : Aead) (p : Profile) (checkNonceAndSet : List UInt8 → Bool) (s : CryptoStream)
    (es : List ReadEvent) (room : ℕ) : Except Fault (ReadPoll CryptoStream) :=
  match pollReadHandshake A checkNonceAndSet s es with
  | .answer x => .ok x
  | .done s es =>
    match s.dec with
    | none => .error (.unwrapNone "dec")
    | some .none =>
      match pollReadBuf room es with
      | (.pending, es) => .ok ⟨s, es, .pending, []⟩
      | (.ready (.error message), es) => .ok ⟨s, es, .ready (.error message), []⟩
      | (.ready (.ok bs), es) => .ok ⟨s, es, .ready (.ok ()), bs⟩
    | some (.aead r) => do
      let x ← r.pollReadDecrypted A p es room
      return x.map fun r => { s with dec := some (.aead r) }

end CryptoStream

open CryptoStream

section RoundTrip

variable {A : Aead} {p : Profile} (checkNonceAndSet : List UInt8 → Bool)

/-- The stream is before the salt of its peer or after it, and the bytes on the way work. -/
inductive CryptoAhead (A : Aead) (p : Profile) (checkNonceAndSet : List UInt8 → Bool)
    (s : CryptoStream) (es : List ReadEvent) (rest : List UInt8) : Prop
  | waitIv {buf key salt wire : List UInt8} {method : CipherKind}
      (status_eq : s.readStatus = .waitIv buf method key) (is_aead : method ≠ .none)
      (salt_len : salt.length = method.saltLen) (new_salt : checkNonceAndSet salt = false)
      (buf_len : buf.length ≤ method.saltLen) (clean : Clean es)
      (bytes_eq : buf ++ bytesOf es = salt ++ wire)
      (frames : Frames (AeadDecryptedReader.format A p) (.new A method key salt) wire rest)
  | established {r : AeadDecryptedReader} (status_eq : s.readStatus = .established)
      (dec_eq : s.dec = some (.aead r))
      (ahead : FramedReader.AheadOf (AeadDecryptedReader.format A p) r es rest)

/-- A poll of an established stream. -/
theorem CryptoAhead.deliver_established (h_aead : A.InPlace) {s : CryptoStream}
    {r : AeadDecryptedReader} {es : List ReadEvent} {rest : List UInt8} {room : ℕ}
    (h_status : s.readStatus = .established) (h_dec : s.dec = some (.aead r))
    (h_ahead : FramedReader.AheadOf (AeadDecryptedReader.format A p) r es rest)
    (h_room : 0 < room) :
    ∃ x, privPollRead A p checkNonceAndSet s es room = .ok x ∧
      Delivery (CryptoAhead A p checkNonceAndSet) es rest x := by
  obtain ⟨x, h_poll, h_x⟩ :=
    FramedReader.delivers_pollRead (p := p) (AeadDecryptedReader.format_sound h_aead) r es rest room
      h_ahead h_room
  obtain ⟨dec, enc, status⟩ := s
  cases h_status
  cases h_dec
  refine ⟨x.map fun r => ⟨some (.aead r), enc, .established⟩, ?_, h_x.map _ ?_⟩
  · show (FramedReader.pollRead p _ r es room >>= _) = _
    rw [h_poll]
    rfl
  · exact fun r' es' rest' h => .established rfl rfl h

/-- **The stream delivers**, from the first byte of the salt on. -/
theorem delivers_privPollRead (h_aead : A.InPlace) :
    Delivers (privPollRead A p checkNonceAndSet) (CryptoAhead A p checkNonceAndSet) := by
  intro s es rest room h_ahead h_room
  cases h_ahead with
  | established status_eq dec_eq ahead =>
    exact CryptoAhead.deliver_established checkNonceAndSet h_aead status_eq dec_eq ahead h_room
  | @waitIv buf key salt wire method status_eq is_aead salt_len new_salt buf_len clean bytes_eq
      frames =>
    rcases h_read : readExact method.saltLen buf es with ⟨f, buf', es'⟩
    obtain ⟨h_bytes, h_le, h_full⟩ := readExact_cases buf_len h_read
    have h_bytes : buf' ++ bytesOf es' = salt ++ wire := h_bytes.trans bytes_eq
    -- the salt cannot be cut off
    have h_short : bytesOf es' = [] → ¬ buf'.length < method.saltLen := by
      intro h_nil h_lt
      have h_len := congrArg List.length h_bytes
      rw [h_nil, List.append_nil, List.length_append] at h_len
      omega
    cases readExact_clean clean h_read with
    | full clean' _ pendings_le =>
      have h_len : buf'.length = salt.length := (h_full rfl).trans salt_len.symm
      obtain ⟨rfl, h_wire⟩ := List.append_inj h_bytes h_len
      let s' : CryptoStream :=
        { s with dec := some (.aead (.new A method key buf')), readStatus := .established }
      have h_ahead' : FramedReader.AheadOf (AeadDecryptedReader.format A p)
          (AeadDecryptedReader.new A method key buf') es' rest := by
        refine ⟨clean', ?_⟩
        show FramedReader.Ahead _ _ ([] ++ bytesOf es') rest
        rw [List.nil_append, h_wire]
        exact .head rfl frames
      obtain ⟨x, h_poll, h_x⟩ :=
        CryptoAhead.deliver_established checkNonceAndSet (s := s') h_aead rfl rfl h_ahead' h_room
      refine ⟨x, ?_, h_x.mono pendings_le⟩
      have h_shake : pollReadHandshake A checkNonceAndSet s es = .done s' es' := by
        unfold pollReadHandshake
        rw [status_eq]
        dsimp only
        rw [h_read]
        dsimp only
        rw [if_neg (by rw [new_salt]; decide)]
        cases method with
        | none => exact absurd rfl is_aead
        | aes128Gcm | aes256Gcm | chaCha20Poly1305 => rfl
      have h_established : pollReadHandshake A checkNonceAndSet s' es' = .done s' es' := rfl
      unfold privPollRead at h_poll ⊢
      rw [h_shake]
      rw [h_established] at h_poll
      exact h_poll
    | pending clean' lt spent =>
      refine ⟨⟨{ s with readStatus := .waitIv buf' method key }, es', .pending, []⟩, ?_,
        .pending rfl ?_ (Or.inl spent)⟩
      · unfold privPollRead pollReadHandshake
        rw [status_eq]
        dsimp only
        rw [h_read]
      · exact .waitIv rfl is_aead salt_len new_salt h_le clean' h_bytes frames
    | waiting lt => exact absurd lt (h_short rfl)
    | ended clean' lt no_bytes => exact absurd lt (h_short no_bytes)

/-- A stream that gets no byte waits for the salt or fails. -/
theorem privPollRead_nothing {s : CryptoStream} {es : List ReadEvent} {key : List UInt8}
    {method : CipherKind} (h_method : method ≠ .none)
    (h_status : s.readStatus = .waitIv [] method key)
    (h_clean : Clean es) (h_bytes : bytesOf es = []) (room : ℕ) :
    ∃ x, privPollRead A p checkNonceAndSet s es room = .ok x ∧ x.put = [] ∧
      ((∃ e, x.result = .ready (.error e)) ∨ x.result = .pending ∧
        x.state.readStatus = .waitIv [] method key ∧ Clean x.events ∧ bytesOf x.events = []) := by
  -- a salt has bytes, and none has come
  have h_pos : 0 < method.saltLen := by
    cases method with
    | none => exact absurd rfl h_method
    | aes128Gcm | aes256Gcm | chaCha20Poly1305 => decide
  unfold privPollRead pollReadHandshake
  rw [h_status]
  dsimp only
  rcases h_read : readExact method.saltLen [] es with ⟨f, buf, es'⟩
  obtain ⟨h_all, -, h_full⟩ := readExact_cases (Nat.zero_le _) h_read
  rw [h_bytes, List.append_nil, List.append_eq_nil_iff] at h_all
  obtain ⟨rfl, h_rest⟩ := h_all
  cases readExact_clean h_clean h_read with
  | full clean le => exact absurd le (Nat.not_le_of_lt h_pos)
  | pending clean lt spent => exact ⟨_, rfl, rfl, Or.inr ⟨rfl, rfl, clean, h_rest⟩⟩
  | waiting lt => exact ⟨_, rfl, rfl, Or.inr ⟨rfl, rfl, .nil, rfl⟩⟩
  | ended clean lt no_bytes => exact ⟨_, rfl, rfl, Or.inl ⟨_, rfl⟩⟩

/-- A run over a stream that gets no byte delivers none. -/
theorem readRun_nothing {s : CryptoStream} {es : List ReadEvent} {key : List UInt8}
    {method : CipherKind} (h_method : method ≠ .none)
    (h_status : s.readStatus = .waitIv [] method key)
    (h_clean : Clean es) (h_bytes : bytesOf es = []) (rooms : List ℕ) :
    ∃ y, readRun (privPollRead A p checkNonceAndSet) rooms s es = .ok y ∧ y.put = [] := by
  induction rooms generalizing s es with
  | nil => exact ⟨_, rfl, rfl⟩
  | cons room rooms ih =>
    obtain ⟨x, h_poll, h_put, h_x⟩ :=
      privPollRead_nothing (A := A) (p := p) checkNonceAndSet h_method h_status h_clean h_bytes room
    rw [readRun, h_poll, ok_bind]
    rcases h_x with ⟨e, h_err⟩ | ⟨h_pending, h_status', h_clean', h_bytes'⟩
    · rw [h_err]
      exact ⟨_, rfl, h_put⟩
    · rw [h_pending]
      exact ih h_status' h_clean' h_bytes'

/-- **Round trip of a Shadowsocks stream.** Every write reports what it has taken of its slice,
and a stream with the same key to which the salt is new reads the concatenation of it: whatever
is put into the destinations is a prefix of that, it is all of that when the stream ends or
after enough polls, and no poll fails. (Before the first write there is no salt to read.) -/
theorem cryptoStream_roundTrip (h_aead : A.Lawful) (p : Profile) {method : CipherKind}
    (h_method : method ≠ .none) (key salt : List UInt8) (h_salt : salt.length = method.saltLen)
    (slices : List (List UInt8)) {ws : List WriteEvent} (h_working : Working ws) (polls : ℕ) :
    ∃ w, writeRun (AeadEncryptedWriter.format A) polls slices
      (AeadEncryptedWriter.new A method key salt) ws = .ok w ∧
      (writePendings ws + slices.length ≤ polls →
        salt.length + (slices.map fun data => 34 + min 0x3FFF data.length).sum ≤ accepts ws →
        w.left = []) ∧
      (w.left = [] → w.returned = (slices.map fun data => .ok (min 0x3FFF data.length)) ∧
        ∀ (localSalt : List UInt8) (checkNonceAndSet : List UInt8 → Bool) (es : List ReadEvent)
          (rooms : List ℕ), checkNonceAndSet salt = false → Clean es → bytesOf es = w.out →
          (∀ room ∈ rooms, 0 < room) →
          ∃ y, readRun (privPollRead A p checkNonceAndSet) rooms
              (CryptoStream.new A key method localSalt) es = .ok y ∧
            let plain := (slices.map fun data => data.take (min 0x3FFF data.length)).flatten
            y.put <+: plain ∧ (∀ e, y.how = .failed e → slices = []) ∧
              (y.how = .ended → y.put = plain) ∧
              (pendings es + plain.length ≤ rooms.length → y.put = plain)) := by
  obtain ⟨wire, h_sealed⟩ := exists_sealed A (.new A method key salt) slices
  have h_frames := frames_of_sealed (p := p) h_aead h_sealed
  have h_plain : (slices.map fun data => data.take (min 0x3FFF data.length)) =
      slices.map fun data => data.take maxPacketSize :=
    List.map_congr_left fun data _ => List.take_eq_take_min.symm
  have h_status (localSalt : List UInt8) :
      (CryptoStream.new A key method localSalt).readStatus = .waitIv [] method key := by
    cases method with
    | none => exact absurd rfl h_method
    | aes128Gcm | aes256Gcm | chaCha20Poly1305 => rfl
  -- what the writer owes; the salt waits for the first slice
  obtain ⟨owed, h_owes, h_len, h_owed⟩ : ∃ owed,
      Owes (AeadEncryptedWriter.format A) (AeadEncryptedWriter.new A method key salt) slices owed ∧
        owed.length ≤ salt.length + wire.length ∧ (slices ≠ [] → owed = salt ++ wire) := by
    cases slices with
    | nil => exact ⟨[], .nothing rfl, Nat.zero_le _, fun h => absurd rfl h⟩
    | cons data slices =>
      exact ⟨salt ++ wire, .idle rfl h_sealed, Nat.le_of_eq List.length_append, fun _ => rfl⟩
  obtain ⟨w, h_run, -, ⟨written, h_slices, h_returned⟩, h_all, h_left⟩ :=
    writeRun_of_owes (n := polls) h_working h_owes
  refine ⟨w, h_run, fun h_polls h_accepts => ?_, fun h_nil => ?_⟩
  · refine h_left h_polls (Nat.le_trans h_len ?_)
    rw [length_of_sealed h_aead.toInPlace h_sealed]
    exact h_accepts
  rw [h_nil, List.append_nil] at h_slices
  refine ⟨by rw [h_returned, h_slices]; rfl, ?_⟩
  intro localSalt checkNonceAndSet es rooms h_new h_clean h_bytes h_rooms
  rw [h_all h_nil] at h_bytes
  dsimp only
  rw [h_plain]
  by_cases h_none : slices = []
  · subst h_none
    cases h_owes
    obtain ⟨y, h_y, h_put⟩ := readRun_nothing (A := A) (p := p) checkNonceAndSet h_method
      (h_status localSalt) h_clean h_bytes rooms
    exact ⟨y, h_y, h_put ▸ List.nil_prefix, fun _ _ => rfl, fun _ => h_put, fun _ => h_put⟩
  · rw [h_owed h_none] at h_bytes
    obtain ⟨y, h_y, h_pre, h_ok, h_end, h_enough⟩ :=
      run_of_delivers (delivers_privPollRead checkNonceAndSet h_aead.toInPlace)
        (.waitIv (h_status localSalt) h_method h_salt h_new
          (Nat.zero_le _) h_clean h_bytes h_frames)
        h_rooms
    exact ⟨y, h_y, h_pre, fun e h_e => absurd h_e (h_ok e), h_end, h_enough⟩

/-- Three slices, one of them empty, written and read a byte at a time. -/
theorem cryptoStream_roundTrip_hi : ∃ w y,
    writeRun (AeadEncryptedWriter.format .tagged) 3 [[104, 105], [], [33]]
      (AeadEncryptedWriter.new .tagged .aes128Gcm (List.replicate 16 7) (List.replicate 16 9))
      (List.replicate 121 (.accept 1)) = .ok w ∧
    readRun (privPollRead .tagged .debug fun _ => false) (List.replicate 3 2)
      (CryptoStream.new .tagged (List.replicate 16 7) .aes128Gcm []) (oneByOne w.out) = .ok y ∧
    y.put = [104, 105, 33] := by
  obtain ⟨w, h_run, h_left, h_read⟩ :=
    cryptoStream_roundTrip Aead.tagged_lawful .debug (show CipherKind.aes128Gcm ≠ .none by decide)
      (List.replicate 16 7) (List.replicate 16 9) rfl [[104, 105], [], [33]]
      (working_replicate 121 Nat.one_pos) 3
  have h_pendings : writePendings (List.replicate 121 (.accept 1)) = 0 :=
    writePendings_replicate 121 1
  have h_accepts : accepts (List.replicate 121 (.accept 1)) = 121 := accepts_replicate 121 1
  obtain ⟨-, h_read⟩ := h_read (h_left (by rw [h_pendings]; decide) (by rw [h_accepts]; decide))
  obtain ⟨y, h_y, -, -, -, h_put⟩ := h_read [] (fun _ => false) (oneByOne w.out)
    (List.replicate 3 2)
    rfl (clean_oneByOne _) (bytesOf_oneByOne _) (by decide)
  refine ⟨w, y, h_run, h_y, h_put ?_⟩
  rw [pendings_oneByOne]
  decide

end RoundTrip

/-! ### Any bytes after the salt -/

section Prefix

variable {A : Aead} {p : Profile} (checkNonceAndSet : List UInt8 → Bool) {s : CryptoStream}
  {es : List ReadEvent} {method : CipherKind} {key salt : List UInt8}

variable (es) in
/-- What a poll of the handshake does: it has the salt, or it answers and keeps what it has. -/
theorem handshake_cases (h_method : method ≠ .none) {buf : List UInt8}
    (h_status : s.readStatus = .waitIv buf method key) (h_len : buf.length ≤ method.saltLen) :
    (∃ nonce es', nonce.length = method.saltLen ∧ nonce ++ bytesOf es' = buf ++ bytesOf es ∧
      pollReadHandshake A checkNonceAndSet s es = .done { s with
        dec := some (.aead (.new A method key nonce)), readStatus := .established } es') ∨
    ∃ x buf', pollReadHandshake A checkNonceAndSet s es = .answer x ∧ x.put = [] ∧
      x.state.readStatus = .waitIv buf' method key ∧ buf'.length ≤ method.saltLen ∧
      buf' ++ bytesOf x.events = buf ++ bytesOf es ∧
      (x.result = .pending ∨ ∃ e, x.result = .ready (.error e)) := by
  unfold pollReadHandshake
  rw [h_status]
  dsimp only
  rcases h_read : readExact method.saltLen buf es with ⟨f, buf', es'⟩
  obtain ⟨h_bytes, h_le, h_full⟩ := readExact_cases h_len h_read
  -- the salt is there, but not all of it
  cases f with
  | pending => exact Or.inr ⟨_, buf', rfl, rfl, rfl, h_le, h_bytes, Or.inl rfl⟩
  | ended | err => exact Or.inr ⟨_, buf', rfl, rfl, rfl, h_le, h_bytes, Or.inr ⟨_, rfl⟩⟩
  -- the salt is complete: it may have been seen before
  | full =>
    dsimp only
    split
    · exact Or.inr ⟨_, buf', rfl, rfl, rfl, h_le, h_bytes, Or.inr ⟨_, rfl⟩⟩
    · refine Or.inl ⟨buf', es', h_full rfl, h_bytes, ?_⟩
      cases method with
      | none => exact absurd rfl h_method
      | aes128Gcm | aes256Gcm | chaCha20Poly1305 => rfl

/-- An established stream polls its reader. -/
theorem privPollRead_established {r : AeadDecryptedReader} {room : ℕ}
    (h_status : s.readStatus = .established) (h_dec : s.dec = some (.aead r)) :
    privPollRead A p checkNonceAndSet s es room = do
      let x ← r.pollReadDecrypted A p es room
      return x.map fun r => ⟨some (.aead r), s.enc, .established⟩ := by
  obtain ⟨dec, enc, status⟩ := s
  cases h_status
  cases h_dec
  rfl

/-- What a stream holds before the salt that is on its way, and after it. -/
inductive CryptoHeld (A : Aead) (p : Profile) (method : CipherKind) (key salt : List UInt8)
    (payloads : List (List UInt8)) (s : CryptoStream) (es : List ReadEvent)
    (out : List UInt8) : Prop
  | waitIv {buf bytes : List UInt8} (status_eq : s.readStatus = .waitIv buf method key)
      (buf_len : buf.length ≤ method.saltLen) (bytes_eq : buf ++ bytesOf es = salt ++ bytes)
      (out_eq : out = [])
  | established {r : AeadDecryptedReader} (status_eq : s.readStatus = .established)
      (dec_eq : s.dec = some (.aead r))
      (quiet : FramedReader.Quiet (AeadDecryptedReader.format A p) r es)
      (held : FramedReader.Held (AeadDecryptedReader.format A p)
        (fun k => AeadCipher.increaseNonce^[2 * k] (.new A method key salt)) payloads r out)

variable {payloads : List (List UInt8)} {out : List UInt8}

/-- A poll of an established stream keeps what is held. -/
theorem CryptoHeld.poll_established (h_inPlace : A.InPlace)
    (h_vouches : (AeadDecryptedReader.format A p).Vouches
      (fun k => AeadCipher.increaseNonce^[2 * k] (.new A method key salt)) payloads)
    {r : AeadDecryptedReader} {room : ℕ} (h_room : 0 < room)
    (h_status : s.readStatus = .established)
    (h_dec : s.dec = some (.aead r))
    (h_quiet : FramedReader.Quiet (AeadDecryptedReader.format A p) r es)
    (h_held : FramedReader.Held (AeadDecryptedReader.format A p)
      (fun k => AeadCipher.increaseNonce^[2 * k] (.new A method key salt)) payloads r out) :
    ∃ x, privPollRead A p checkNonceAndSet s es room = .ok x ∧
      Kept (CryptoHeld A p method key salt payloads) out x := by
  obtain ⟨x, h_poll, h_quiet'⟩ :=
    FramedReader.quiet_pollRead (AeadDecryptedReader.format_sound h_inPlace) h_room h_quiet
  refine ⟨x.map fun r => ⟨some (.aead r), s.enc, .established⟩, ?_, ?_⟩
  · rw [privPollRead_established checkNonceAndSet h_status h_dec]
    show (FramedReader.pollRead p _ r es room >>= _) = _
    rw [h_poll]
    rfl
  · refine (FramedReader.kept_pollRead h_vouches h_room h_held h_poll).imp id ?_
    rintro ⟨h_held', h_pending⟩
    exact ⟨.established rfl rfl h_quiet' h_held', h_pending⟩

/-- A poll keeps what is held, or fails and delivers nothing. -/
theorem CryptoHeld.poll (h_inPlace : A.InPlace) (h_method : method ≠ .none)
    (h_salt : salt.length = method.saltLen)
    (h_vouches : (AeadDecryptedReader.format A p).Vouches
      (fun k => AeadCipher.increaseNonce^[2 * k] (.new A method key salt)) payloads)
    {room : ℕ} (h_room : 0 < room) (h : CryptoHeld A p method key salt payloads s es out) :
    ∃ x, privPollRead A p checkNonceAndSet s es room = .ok x ∧
      Kept (CryptoHeld A p method key salt payloads) out x := by
  cases h with
  | established status_eq dec_eq quiet held =>
    exact poll_established checkNonceAndSet h_inPlace h_vouches h_room status_eq dec_eq quiet held
  | waitIv status_eq buf_len bytes_eq out_eq =>
    subst out_eq
    rcases handshake_cases (A := A) checkNonceAndSet es h_method status_eq buf_len with
        ⟨nonce, es', h_nonce, h_bytes, h_shake⟩ |
        ⟨x, buf', h_shake, h_put, h_status, h_len, h_bytes, h_result⟩
    · -- the salt is the one that was fed
      obtain ⟨rfl, -⟩ := List.append_inj (h_bytes.trans bytes_eq) (h_nonce.trans h_salt.symm)
      have h_first : ∃ x, privPollRead A p checkNonceAndSet
          ⟨some (.aead (.new A method key nonce)), s.enc, .established⟩ es' room = .ok x ∧
            Kept (CryptoHeld A p method key nonce payloads) [] x :=
        poll_established checkNonceAndSet h_inPlace h_vouches h_room rfl rfl (.head rfl not_faults)
          (.head (k := 0) (Nat.zero_le _) rfl rfl rfl)
      obtain ⟨x, h_poll, h_x⟩ := h_first
      refine ⟨x, ?_, h_x⟩
      -- with the salt there the handshake is over, and the poll goes on with the chunks
      have h_established : pollReadHandshake A checkNonceAndSet
          ⟨some (.aead (.new A method key nonce)), s.enc, .established⟩ es' = .done _ es' := rfl
      unfold privPollRead at h_poll ⊢
      rw [h_shake]
      rw [h_established] at h_poll
      exact h_poll
    · -- the poll ends in the handshake, and nothing has been delivered
      refine ⟨x, ?_, ?_⟩
      · unfold privPollRead
        rw [h_shake]
      · rcases h_result with h_pending | h_error
        · right
          rw [h_put]
          exact ⟨.waitIv h_status h_len (h_bytes.trans bytes_eq) rfl, fun _ => rfl⟩
        · exact Or.inl ⟨h_error, h_put⟩

theorem CryptoHeld.isPrefix (h : CryptoHeld A p method key salt payloads s es out) :
    out <+: payloads.flatten := by
  cases h with
  | waitIv status_eq buf_len bytes_eq out_eq => exact out_eq ▸ List.nil_prefix
  | established status_eq dec_eq quiet held => exact held.isPrefix

/-- **Integrity of a Shadowsocks stream.** Whatever follows the salt of the peer, and however
it is cut, what a stream delivers before the first error is a prefix of what the peer has
sealed, if the AEAD is ideal and the peer's nonces have not come round. -/
theorem cryptoStream_prefix (h_inPlace : A.InPlace) (p : Profile) (h_method : method ≠ .none)
    (h_salt : salt.length = method.saltLen) {slices : List (List UInt8)} {ws : List WriteEvent}
    {w : WriteRun AeadCipher}
    (h_peer : writePolls (AeadEncryptedWriter.format A) slices
      (AeadEncryptedWriter.new A method key salt) ws = .ok w)
    (h_few : w.chunks.length < 2 ^ 95)
    (h_ideal : IdealFor A method (AeadCipher.new A method key salt).key w.chunks)
    (checkNonceAndSet : List UInt8 → Bool) (localSalt : List UInt8) {bytes : List UInt8}
    (h_bytes : bytesOf es = salt ++ bytes) {rooms : List ℕ} (h_rooms : ∀ room ∈ rooms, 0 < room) :
    ∃ y, readRun (privPollRead A p checkNonceAndSet) rooms
        (CryptoStream.new A key method localSalt) es = .ok y ∧
      y.put <+: (w.chunks.map Prod.snd).flatten := by
  have h_chain := chain_of_writePolls (by show 0 < maxPacketSize; decide) h_peer
  have h_vouches := vouches_format (p := p) h_method h_chain h_ideal h_few
  -- a method that seals begins by waiting for the salt
  have h_status : (CryptoStream.new A key method localSalt).readStatus = .waitIv [] method key := by
    cases method with
    | none => exact absurd rfl h_method
    | aes128Gcm | aes256Gcm | chaCha20Poly1305 => rfl
  have h_init : CryptoHeld A p method key salt (w.chunks.map Prod.snd)
      (CryptoStream.new A key method localSalt) es [] :=
    .waitIv h_status (Nat.zero_le _) h_bytes rfl
  obtain ⟨y, h_run, s', es', h_y⟩ :=
    run_of_keeps (fun s es room out h h_room =>
      h.poll checkNonceAndSet h_inPlace h_method h_salt h_vouches h_room) h_init h_rooms
  exact ⟨y, h_run, h_y.isPrefix⟩

/-- A peer with an ideal AEAD that has sealed these slices. -/
theorem exists_peer (method : CipherKind) (key salt : List UInt8) (slices : List (List UInt8)) :
    ∃ A ws w, A.InPlace ∧ writePolls (AeadEncryptedWriter.format A) slices
        (AeadEncryptedWriter.new A method key salt) ws = .ok w ∧
      w.chunks.map Prod.snd = (slices.map fun data => data.take maxPacketSize) ∧
      IdealFor A method (AeadCipher.new A method key salt).key w.chunks ∧
      A = .ideal (w.chunks.flatMap (sealedBoxes .tagged)) := by
  obtain ⟨wire, h_sealed⟩ := exists_sealed .tagged (.new .tagged method key salt) slices
  obtain ⟨ws, w, -, h_run, h_chunks⟩ :=
    exists_writePolls (w := AeadEncryptedWriter.new .tagged method key salt) rfl h_sealed
  exact ⟨_, ws, w, Aead.ideal_inPlace (taggedBoxes w.chunks), h_run, h_chunks,
    idealFor_ideal method _ w.chunks, rfl⟩

/-- Of two bytes that were sealed, what arrives is a prefix, also if their chunks are cut off. -/
theorem cryptoStream_prefix_hi : ∃ A ws w y,
    writePolls (AeadEncryptedWriter.format A) [[104], [105]]
      (AeadEncryptedWriter.new A .aes128Gcm (List.replicate 16 7) (List.replicate 16 9)) ws =
        .ok w ∧
    readRun (privPollRead A .debug fun _ => false) [1, 2]
      (CryptoStream.new A (List.replicate 16 7) .aes128Gcm [])
      [.data (List.replicate 16 9), .data [1, 2, 3], .data []] = .ok y ∧
    y.put <+: [104, 105] := by
  obtain ⟨A, ws, w, h_inPlace, h_peer, h_chunks, h_ideal, -⟩ :=
    exists_peer .aes128Gcm (List.replicate 16 7) (List.replicate 16 9) [[104], [105]]
  have h_len := congrArg List.length h_chunks
  rw [List.length_map, List.length_map] at h_len
  have h_bytes : bytesOf [.data (List.replicate 16 9), .data [1, 2, 3], .data []] =
      List.replicate 16 9 ++ [1, 2, 3] := rfl
  have h_rooms : ∀ room ∈ [1, 2], 0 < room := by decide
  obtain ⟨y, h_run, h_pre⟩ := cryptoStream_prefix h_inPlace .debug (by decide) (by rfl) h_peer
    (by rw [h_len]; decide) h_ideal (fun _ => false) [] h_bytes h_rooms
  rw [h_chunks] at h_pre
  exact ⟨A, ws, w, y, h_peer, h_run, h_pre⟩

/-- A peer that seals so many chunks that its nonces come round, and then one more: the last
chunk opens in the place of the first. -/
theorem prefix_fails_of_round {n : ℕ} (h_pos : 0 < n) (h_round : 2 * n % 2 ^ 96 = 0) :
    ∃ A ws w es y, A.InPlace ∧ writePolls (AeadEncryptedWriter.format A)
        (List.replicate n [65] ++ [[66]]) (AeadEncryptedWriter.new A .aes128Gcm
          (List.replicate 16 7) (List.replicate 16 9)) ws = .ok w ∧
      IdealFor A .aes128Gcm
        (AeadCipher.new A .aes128Gcm (List.replicate 16 7) (List.replicate 16 9)).key w.chunks ∧
      (∃ bytes, bytesOf es = List.replicate 16 9 ++ bytes) ∧
      readRun (privPollRead A .release fun _ => false) [1]
        (CryptoStream.new A (List.replicate 16 7) .aes128Gcm []) es = .ok y ∧
      ¬ y.put <+: (w.chunks.map Prod.snd).flatten := by
  obtain ⟨A, ws, w, h_inPlace, h_peer, h_chunks, h_ideal, h_A⟩ :=
    exists_peer .aes128Gcm (List.replicate 16 7) (List.replicate 16 9)
      (List.replicate n [65] ++ [[66]])
  generalize h_c : AeadCipher.new A .aes128Gcm (List.replicate 16 7) (List.replicate 16 9) = c
    at h_ideal
  have h_counts : c.Counts := h_c ▸ AeadCipher.counts_new (by decide) _ _
  have h_nlen : c.nlen = 12 := h_c ▸ rfl
  have h_zeros : c.nonce.take 12 = List.replicate 12 0 := h_c ▸ rfl
  -- the last chunk, and the nonces of it
  have h_last : (w.chunks.map Prod.snd)[n]? = some [66] := by
    rw [h_chunks, List.getElem?_map, List.getElem?_append_right (by simp)]
    simp [maxPacketSize]
  rw [List.getElem?_map, Option.map_eq_some_iff] at h_last
  obtain ⟨⟨cₙ, data⟩, h_chunk, rfl⟩ := h_last
  have h_chain := chain_of_writePolls (by show 0 < maxPacketSize; decide) h_peer
  have h_cₙ : cₙ = AeadCipher.increaseNonce^[2 * n] c := h_c ▸ (cipher_of_chain h_chain h_chunk).1
  obtain ⟨h_countsₙ, h_nlenₙ, h_countₙ⟩ := AeadCipher.counts_iterate h_counts (2 * n)
  rw [← h_cₙ] at h_countsₙ h_nlenₙ h_countₙ
  have h_nonce : cₙ.nonce.take cₙ.nlen = c.nonce.take c.nlen := by
    have h_zero : cₙ.count = 0 := by
      rw [h_countₙ, AeadCipher.count, h_nlen, h_zeros, ofLeBytes_replicate_zero, Nat.zero_add]
      exact h_round
    have h_zerosₙ := eq_replicate_zero_of_ofLeBytes h_zero
    rw [List.length_take_of_le h_countsₙ.nlen_le] at h_zerosₙ
    rw [h_zerosₙ, h_nlenₙ, h_nlen, h_zeros]
  have h_nonce' : cₙ.increaseNonce.nonce.take cₙ.nlen = c.increaseNonce.nonce.take c.nlen := by
    rw [h_countsₙ.increaseNonce.1, h_counts.increaseNonce.1, h_nonce]
  -- under the first nonces of a reader, its boxes open
  have h_mem : ∀ box ∈ sealedBoxes .tagged (cₙ, [66]),
      box ∈ w.chunks.flatMap (sealedBoxes .tagged) := fun box h_box =>
    List.mem_flatMap.mpr ⟨_, List.mem_of_getElem? h_chunk, h_box⟩
  have h_boxes := taggedBoxes w.chunks
  have h_len : A.decryptInPlace c.kind c.key (c.nonce.take c.nlen)
      (beBytes 2 1 ++ List.replicate tagSize 0) = some (beBytes 2 ([66] : List UInt8).length) := by
    rw [h_A, ← h_nonce]
    exact Aead.ideal_of_mem h_boxes (h_mem _ List.mem_cons_self)
  have h_box : A.decryptInPlace c.kind c.key (c.increaseNonce.nonce.take c.nlen)
      ([66] ++ List.replicate tagSize 0) = some [66] := by
    rw [h_A, ← h_nonce']
    exact Aead.ideal_of_mem h_boxes (h_mem _ (List.mem_cons_of_mem _ List.mem_cons_self))
  have h_frames := frames_of_open (p := .release) h_inPlace (by decide) h_len h_box (.nil _)
  rw [← h_c] at h_frames
  generalize h_wire : beBytes 2 1 ++ List.replicate tagSize 0 ++
    ([66] ++ List.replicate tagSize 0 ++ []) = wire at h_frames
  have h_es : bytesOf [.data (List.replicate 16 9 ++ wire)] = List.replicate 16 9 ++ wire :=
    List.append_nil _
  have h_ahead : CryptoAhead A .release (fun _ => false)
      (CryptoStream.new A (List.replicate 16 7) .aes128Gcm [])
      [.data (List.replicate 16 9 ++ wire)] ([66] ++ []) :=
    .waitIv rfl (by decide) rfl rfl (Nat.zero_le _) (.data (List.cons_ne_nil _ _) .nil) h_es
      h_frames
  have h_rooms : ∀ room ∈ [1], 0 < room := by decide
  obtain ⟨y, h_run, -, -, -, h_put⟩ :=
    run_of_delivers (delivers_privPollRead _ h_inPlace) h_ahead h_rooms
  refine ⟨A, ws, w, _, y, h_inPlace, h_peer, ?_, ⟨wire, h_es⟩, h_run, ?_⟩
  · rw [h_c]
    exact h_ideal
  · rw [h_put (Nat.le_refl 1), h_chunks]
    obtain ⟨m, rfl⟩ := Nat.exists_eq_succ_of_ne_zero (Nat.ne_of_gt h_pos)
    rw [List.replicate_succ]
    rintro ⟨rest, h_rest⟩
    cases h_rest

/-- After `2 ^ 95` chunks, what arrives need not be a prefix of what was sealed. -/
theorem cryptoStream_prefix_round :
    ¬ ∀ (A : Aead) (p : Profile) (method : CipherKind) (key salt : List UInt8)
        (slices : List (List UInt8)) (ws : List WriteEvent) (w : WriteRun AeadCipher)
        (checkNonceAndSet : List UInt8 → Bool) (localSalt bytes : List UInt8)
        (es : List ReadEvent) (rooms : List ℕ),
      A.InPlace → method ≠ .none → key.length = method.keyLen → salt.length = method.saltLen →
      writePolls (AeadEncryptedWriter.format A) slices
        (AeadEncryptedWriter.new A method key salt) ws =
        .ok w →
      IdealFor A method (AeadCipher.new A method key salt).key w.chunks →
      bytesOf es = salt ++ bytes → (∀ room ∈ rooms, 0 < room) →
      ∃ y, readRun (privPollRead A p checkNonceAndSet) rooms
          (CryptoStream.new A key method localSalt) es = .ok y ∧
        y.put <+: (w.chunks.map Prod.snd).flatten := by
  intro h
  obtain ⟨A, ws, w, es, y, h_inPlace, h_peer, h_ideal, ⟨bytes, h_bytes⟩, h_run, h_not⟩ :=
    prefix_fails_of_round (n := 2 ^ 95) (by decide) (by decide)
  obtain ⟨y', h_run', h_pre⟩ := h A .release .aes128Gcm (List.replicate 16 7) (List.replicate 16 9)
    _ ws w (fun _ => false) [] bytes es [1] h_inPlace (by decide) rfl rfl h_peer h_ideal h_bytes
    (by decide)
  cases h_run.symm.trans h_run'
  exact h_not h_pre

end Prefix

end V2ray

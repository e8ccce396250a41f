import V2rayRust.Lib.TwoWay
import V2rayRust.Proxy.AddressText
import V2rayRust.Proxy.Shadowsocks.CryptoIo

/-!
# A Shadowsocks session

`build_tcp` of `proxy/shadowsocks/mod.rs` makes a `CryptoStream` and writes the target through it,
and then its owner polls it to read and to write in any order. A peer that has the same key gets the
target and what was written after it, and what the peer writes arrives (`crypto_session`).

Reader and writer are fields of their own of a `CryptoStream`. So a read keeps what is owed
(`enc_of_privPollRead`), a write keeps what is ahead (`enc_of_privPollWrite`), and `twoWay_works`
makes of this the rules for a stream of two directions. `hears` is what a peer gets of the first
bytes of a stream, and it is used for both ends.
-/

namespace V2ray

namespace CryptoStream

/-- `priv_poll_write` -/
def privPollWrite (A : Aead) (s : CryptoStream) (ws : List WriteEvent) (buf : List UInt8) :
    Except Fault (SinkPoll CryptoStream) :=
  match s.enc with
  | .none =>
    match ws with
    | [] => .ok ⟨s, [], .pending, []⟩
    | .pending :: ws => .ok ⟨s, ws, .pending, []⟩
    | .err message :: ws => .ok ⟨s, ws, .ready (.error message), []⟩
    | .accept n :: ws => .ok ⟨s, ws, .ready (.ok (buf.take n).length), buf.take n⟩
  | .aead w => do
    let x ← w.pollWrite (AeadEncryptedWriter.format A) ws buf
    return ⟨{ s with enc := .aead x.state }, x.events, x.result, x.out⟩

/-- `poll_read` and `poll_write` -/
def twoWay (A : Aead) (p : Profile) (checkNonceAndSet : List UInt8 → Bool) :
    TwoWay CryptoStream where
  read := privPollRead A p checkNonceAndSet
  write := privPollWrite A

variable {A : Aead} {p : Profile} {checkNonceAndSet : List UInt8 → Bool} {s : CryptoStream}
  {ws : List WriteEvent} {buf : List UInt8}

/-- The bytes that a stream still has to write when these slices are left. -/
def Owes (A : Aead) (s : CryptoStream) (slices : List (List UInt8)) (owed : List UInt8) : Prop :=
  ∃ w, s.enc = .aead w ∧ V2ray.Owes (AeadEncryptedWriter.format A) w slices owed

/-- How much of a slice a chunk takes. -/
def taken (data : List UInt8) : ℕ := min maxPacketSize data.length

/-- A read leaves the writing half as it is. -/
theorem enc_of_privPollRead {es : List ReadEvent} {room : ℕ} {x : ReadPoll CryptoStream}
    (h : privPollRead A p checkNonceAndSet s es room = .ok x) : x.state.enc = s.enc := by
  -- the handshake keeps the writing half when it goes on
  have h_shake : ∀ {t : CryptoStream} {es' : List ReadEvent},
      pollReadHandshake A checkNonceAndSet s es = .done t es' → t.enc = s.enc := by
    intro t es' h
    unfold pollReadHandshake at h
    split at h
    · cases h
      rfl
    · split at h
      · cases h
      · cases h
      · cases h
      · split at h <;> cases h
        rfl
  -- and when it answers
  have h_answer : ∀ {y : ReadPoll CryptoStream},
      pollReadHandshake A checkNonceAndSet s es = .answer y → y.state.enc = s.enc := by
    intro y h
    unfold pollReadHandshake at h
    split at h
    · cases h
    · split at h
      · cases h
        rfl
      · cases h
        rfl
      · cases h
        rfl
      · split at h <;> cases h
        rfl
  unfold privPollRead at h
  split at h
  · next y h_y =>
    -- the poll ends with the handshake
    cases h
    exact h_answer h_y
  · next t es' h_t =>
    -- it goes on to the reader, which has a state of its own
    rw [← h_shake h_t]
    split at h
    · cases h
    · split at h <;> cases h <;> rfl
    · obtain ⟨y, -, h⟩ := bind_eq_ok.mp h
      cases h
      rfl

/-- A write changes the writing half and nothing else. -/
theorem enc_of_privPollWrite {x : SinkPoll CryptoStream} (h : privPollWrite A s ws buf = .ok x) :
    ∃ enc, x.state = { s with enc := enc } := by
  unfold privPollWrite at h
  split at h
  · match ws with
    | [] => cases h; exact ⟨s.enc, rfl⟩
    | .pending :: ws => cases h; exact ⟨s.enc, rfl⟩
    | .err message :: ws => cases h; exact ⟨s.enc, rfl⟩
    | .accept n :: ws => cases h; exact ⟨s.enc, rfl⟩
  · obtain ⟨y, -, h⟩ := bind_eq_ok.mp h
    cases h
    exact ⟨.aead y.state, rfl⟩

/-- **Both directions of a stream.** -/
theorem twoWay_works (h_inPlace : A.InPlace) :
    (twoWay A p checkNonceAndSet).Works (CryptoAhead A p checkNonceAndSet) (Owes A) (fun _ => 0)
      taken where
  -- a read delivers, wherever the stream is in its handshake
  reads := delivers_privPollRead checkNonceAndSet h_inPlace
  -- a write is that of the writer, which is there from the start
  writes := by
    rintro s ws data slices owed h_working ⟨w, h_enc, h_owes⟩
    obtain ⟨x, h_poll, h_x⟩ := writes_pollWrite h_working h_owes
    refine ⟨⟨{ s with enc := .aead x.state }, x.events, x.result, x.out⟩, ?_, ?_⟩
    · show privPollWrite A s ws data = _
      unfold privPollWrite
      rw [h_enc]
      dsimp only
      rw [h_poll]
      rfl
    · cases h_x with
      | ready result_eq owed_eq owes working pendings_le accepts_le =>
        exact .ready result_eq owed_eq ⟨_, rfl, owes⟩ working (Nat.add_le_add_left pendings_le 0)
          accepts_le
      | pending result_eq owed_eq owes not_out working spent accepts_le =>
        exact .pending result_eq owed_eq ⟨_, rfl, owes⟩ not_out working
          (spent.imp_left fun h_lt => Nat.add_lt_add_left h_lt 0) accepts_le
  -- a read does not touch what is owed
  read_owes := by
    rintro s es room x slices owed h_read ⟨w, h_enc, h_owes⟩
    exact ⟨⟨w, (enc_of_privPollRead h_read).trans h_enc, h_owes⟩, rfl⟩
  -- a write does not touch what is ahead
  write_ahead := by
    intro s ws data x es rest h_write h_ahead
    obtain ⟨enc, h_state⟩ := enc_of_privPollWrite h_write
    rw [h_state]
    cases h_ahead with
    | waitIv status_eq is_aead salt_len new_salt buf_len clean bytes_eq frames =>
      exact .waitIv status_eq is_aead salt_len new_salt buf_len clean bytes_eq frames
    | established status_eq dec_eq ahead => exact .established status_eq dec_eq ahead

/-- A new stream waits for the salt of its peer, and has a writer for its own. -/
theorem new_of_aead {method : CipherKind} (h_method : method ≠ .none) (A : Aead)
    (key iv : List UInt8) : CryptoStream.new A key method iv =
      ⟨none, .aead (.new A method key iv), .waitIv [] method key⟩ := by
  cases method with
  | none => exact absurd rfl h_method
  | aes128Gcm | aes256Gcm | chaCha20Poly1305 => rfl

/-- What a peer gets of the first bytes of a stream. -/
theorem hears (h_aead : A.Lawful) {method : CipherKind} (h_method : method ≠ .none)
    {key iv : List UInt8} (localSalt : List UInt8) (h_iv : iv.length = method.saltLen)
    (h_new : checkNonceAndSet iv = false) {slices : List (List UInt8)} {wire : List UInt8}
    (h_sealed : Sealed (AeadEncryptedWriter.format A) (AeadCipher.new A method key iv) slices wire)
    {es : List ReadEvent} (h_clean : Clean es) (h_bytes : bytesOf es = iv ++ wire) :
    CryptoAhead A p checkNonceAndSet (CryptoStream.new A key method localSalt) es
      (slices.map fun data => data.take maxPacketSize).flatten := by
  rw [new_of_aead h_method]
  exact .waitIv rfl h_method h_iv h_new (Nat.zero_le _) h_clean h_bytes
    (frames_of_sealed h_aead h_sealed)

end CryptoStream

open CryptoStream

/-- The address fits into a chunk. -/
theorem take_writeToBuf {target : Address} (h : target.onWire.Encodable) :
    target.writeToBuf.take maxPacketSize = target.writeToBuf := by
  apply List.take_of_length_le
  rw [← Address.writeToBuf_onWire, Address.length_writeToBuf]
  unfold maxPacketSize
  generalize target.onWire = a at h
  cases a with
  | socketAddress addr =>
    cases addr with
    | v4 ip port => exact (show 1 + 4 + 2 ≤ 0x3FFF by decide)
    | v6 ip port flowinfo scopeId => exact (show 1 + 8 * 2 + 2 ≤ 0x3FFF by decide)
  | domainNameAddress name port =>
    have h_size : name.toUTF8.size ≤ 255 := h
    show 1 + 1 + name.toUTF8.size + 2 ≤ 0x3FFF
    omega

/-- **A session.** A stream for a target is polled to read and to write in any order, over a stream
that works. What it writes is the target and then the slices, and a peer with the key to which the
salt is new gets all of them out of the bytes, in any pieces; and what the peer sends arrives. The
method is one of the AEAD methods: with `none` there is no salt and nothing is sealed. Of a slice
that is longer than a chunk only its first bytes are sent, as `poll_write` reports. -/
theorem crypto_session {A : Aead} (h_aead : A.Lawful) (p : Profile) {method : CipherKind}
    (h_method : method ≠ .none) (key : List UInt8) {iv peerSalt : List UInt8}
    (h_iv : iv.length = method.saltLen) (h_peerSalt : peerSalt.length = method.saltLen)
    (checkNonceAndSet : List UInt8 → Bool) (h_new : checkNonceAndSet peerSalt = false)
    {target : Address} (h_target : target.onWire.Encodable) (slices : List (List UInt8))
    {ws : List WriteEvent} (h_working : Working ws) {replies : List (List UInt8)}
    {down : List UInt8} (h_down : Sealed (AeadEncryptedWriter.format A)
      (AeadCipher.new A method key peerSalt) replies down) {es : List ReadEvent}
    (h_clean : Clean es) (h_bytes : bytesOf es = peerSalt ++ down)
    {ops : List TwoWayOp} (h_ops : TwoWay.Roomy ops) :
    ∃ run, (CryptoStream.twoWay A p checkNonceAndSet).run ops (TwoWay.start
        (CryptoStream.new A key method iv) (target.writeToBuf :: slices) es ws) = .ok run ∧
      let up := (slices.map fun data => data.take maxPacketSize).flatten
      let plain := (replies.map fun data => data.take maxPacketSize).flatten
      (run.left = [] → ∀ (peerCheck : List UInt8 → Bool) (es' : List ReadEvent) (rooms : List ℕ),
        peerCheck iv = false → Clean es' → bytesOf es' = run.out → (∀ room ∈ rooms, 0 < room) →
        ∃ y, readRun (privPollRead A p peerCheck) rooms
            (CryptoStream.new A key method peerSalt) es' = .ok y ∧
          y.put <+: target.writeToBuf ++ up ∧ (∀ e, y.how ≠ .failed e) ∧
          (pendings es' + (target.writeToBuf ++ up).length ≤ rooms.length →
            Address.parse y.put = some (target.onWire, up))) ∧
      run.got <+: plain ∧ (∀ e, run.how ≠ .failed e) ∧ (run.how = .ended → run.got = plain) ∧
      (pendings es + plain.length ≤ TwoWay.readsOf ops → run.got = plain) ∧
      (writePendings ws + (slices.length + 1) ≤ TwoWay.writesOf ops →
        iv.length + (34 + target.writeToBuf.length +
          (slices.map fun data => 34 + min maxPacketSize data.length).sum) ≤ accepts ws →
        run.left = []) := by
  -- the target is the first slice, and the rest follows
  obtain ⟨wire, h_sealed⟩ := exists_sealed A (AeadCipher.new A method key iv)
    (target.writeToBuf :: slices)
  have h_len := length_of_sealed h_aead.toInPlace h_sealed
  -- an address is shorter than a chunk, so all of it is in the first one
  have h_buf := take_writeToBuf h_target
  have h_start : CryptoStream.Owes A (CryptoStream.new A key method iv)
      (target.writeToBuf :: slices) (iv ++ wire) := by
    rw [new_of_aead h_method]
    exact ⟨.new A method key iv, rfl, .idle rfl h_sealed⟩
  -- the salt of the peer is new, and its chunks are frames for the reader
  have h_ahead := hears (p := p) h_aead h_method iv h_peerSalt h_new h_down h_clean h_bytes
  -- one run of both directions
  obtain ⟨run, owed, later, h_run, h_goes, h_out, h_got, -, h_reads, h_writes⟩ :=
    (twoWay_works h_aead.toInPlace).run h_start h_ahead h_working h_ops
  refine ⟨run, h_run, fun h_left peerCheck es' rooms h_salt h_clean' h_bytes' h_rooms => ?_,
    ⟨later, h_got.symm⟩, h_goes.not_failed, fun h_ended => ?_, fun h_enough => ?_,
    fun h_enough h_accepts => ?_⟩
  · -- nothing is owed, so the salt and all of the chunks are out
    have h_none : owed = [] := by
      obtain ⟨w, -, h_owes⟩ := h_goes.owes
      rw [h_left] at h_owes
      cases h_owes
      rfl
    rw [h_none, List.append_nil] at h_out
    rw [← h_out] at h_bytes'
    have h_peer := hears (p := p) h_aead h_method peerSalt h_iv h_salt h_sealed h_clean' h_bytes'
    rw [List.map_cons, List.flatten_cons, h_buf] at h_peer
    obtain ⟨y, h_y, h_pre, h_ok, -, h_all⟩ :=
      run_of_delivers (delivers_privPollRead peerCheck h_aead.toInPlace) h_peer h_rooms
    refine ⟨y, h_y, h_pre, h_ok, fun h_enough => ?_⟩
    rw [h_all h_enough, ← Address.writeToBuf_onWire]
    exact Address.parse_writeToBuf h_target _
  · -- the end of what the peer has sent
    rw [h_got, h_goes.ended h_ended, List.append_nil]
  · -- enough reads
    rw [h_got, h_reads h_enough, List.append_nil]
  · -- enough writes, with room for the salt and for 34 bytes over each slice
    refine h_writes ?_ ?_
    · rw [List.length_cons, Nat.zero_add]
      exact h_enough
    · have h_min : min maxPacketSize target.writeToBuf.length = target.writeToBuf.length := by
        rw [← List.length_take, h_buf]
      rw [List.length_append, h_len, List.map_cons, List.sum_cons, h_min]
      exact h_accepts

/-- A request for `127.0.0.1:80` with two bytes after it, byte by byte; one byte comes back. -/
theorem crypto_session_hi :
    let target : Address := .socketAddress (.v4 0x7F000001 80)
    let key := List.replicate 16 7
    ∃ es run y, (CryptoStream.twoWay .tagged .release fun _ => false).run
        [.write, .write, .read 2]
        (TwoWay.start (CryptoStream.new .tagged key .aes128Gcm (List.replicate 16 9))
          [target.writeToBuf, [104, 105]] es (List.replicate 93 (.accept 1))) = .ok run ∧
      run.got = [33] ∧
      readRun (privPollRead .tagged .release fun _ => false) (List.replicate 9 1)
        (CryptoStream.new .tagged key .aes128Gcm (List.replicate 16 8)) (oneByOne run.out) = .ok y ∧
      Address.parse y.put = some (target, [104, 105]) := by
  intro target key
  -- the peer sends one chunk
  obtain ⟨down, h_down⟩ := exists_sealed .tagged
    (AeadCipher.new .tagged .aes128Gcm key (List.replicate 16 8)) [[33]]
  have h_target : target.onWire.Encodable := trivial
  have h_ops : TwoWay.Roomy [.write, .write, .read 2] := by
    intro room h_room
    have h_two : room = 2 := by simpa using h_room
    rw [h_two]
    decide
  have h_iv : (List.replicate 16 (9 : UInt8)).length = CipherKind.aes128Gcm.saltLen := rfl
  have h_peerSalt : (List.replicate 16 (8 : UInt8)).length = CipherKind.aes128Gcm.saltLen := rfl
  obtain ⟨run, h_run, h_peer, -, -, -, h_reads, h_writes⟩ :=
    crypto_session Aead.tagged_lawful .release (by decide) key h_iv h_peerSalt (fun _ => false) rfl
      h_target [[104, 105]] (working_replicate 93 (k := 1) (by decide)) h_down (clean_oneByOne _)
      (bytesOf_oneByOne _) h_ops
  -- three polls are enough for both directions
  have h_left := h_writes (by rw [writePendings_replicate]; decide)
    (by rw [accepts_replicate]; decide)
  obtain ⟨y, h_y, -, -, h_parse⟩ := h_peer h_left (fun _ => false) (oneByOne run.out)
    (List.replicate 9 1) rfl (clean_oneByOne _) (bytesOf_oneByOne _) (by decide)
  refine ⟨_, run, y, h_run, h_reads ?_, h_y, h_parse ?_⟩
  · rw [pendings_oneByOne]
    decide
  · rw [pendings_oneByOne]
    decide

end V2ray

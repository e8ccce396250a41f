import V2rayRust.Lib.ChunkWriter
import V2rayRust.Lib.FramedReader
import V2rayRust.Proxy.Shadowsocks.AeadHelper

/-!
# Chunks of a Shadowsocks stream

`proxy/shadowsocks/aead.rs`: a chunk is the length of a payload and the payload, each sealed
under a nonce of its own. The reader and the writer are a reader of frames and a writer of
chunks; the frames that a reader expects are the chunks that a writer with the same cipher
makes (`frames_of_sealed`).
-/

namespace V2ray

/-- `MAX_PACKET_SIZE` -/
def maxPacketSize : ℕ := 0x3FFF

/-- A number as `{:#x}` prints it. -/
def lowerHex (n : ℕ) : String := "0x" ++ String.ofList (Nat.toDigits 16 n)

abbrev AeadDecryptedReader := FramedReader AeadCipher

abbrev AeadEncryptedWriter := ChunkWriter AeadCipher

namespace AeadDecryptedReader

def new (A : Aead) (method : CipherKind) (key ivOrSalt : List UInt8) : AeadDecryptedReader where
  cipher := .new A method key ivOrSalt
  buffer := []
  dataLength := 0
  stage := .head

/-- `decrypt_length`, with the cipher after it. -/
def decryptLength (A : Aead) (p : Profile) (cipher : AeadCipher) (m : List UInt8) :
    Except Stop (AeadCipher × ℕ) :=
  match cipher.decrypt A p m with
  | .error f => .error (.fault f)
  | .ok (false, _, _) => .error (.err "invalid tag-in")
  | .ok (true, m, cipher) =>
    let plen := ofBeBytes (m.take 2)
    if plen > maxPacketSize then
      .error (.err ("buffer size too large (" ++ lowerHex plen ++ "), AEAD encryption protocol " ++
        "requires buffer to be smaller than 0x3FFF, the higher two bits must be set to zero"))
    else .ok (cipher, plen)

/-- The frames that `poll_read_decrypted` reads. -/
def format (A : Aead) (p : Profile) : FrameFormat AeadCipher where
  headLen := tagSize + 2
  tagLen := tagSize
  head cipher m := do
    let (cipher, plen) ← decryptLength A p cipher m
    return (cipher, plen + tagSize)
  body cipher m :=
    match cipher.decrypt A p m with
    | .error f => .error (.fault f)
    | .ok (false, _, _) => .error (.err "invalid aead tag")
    | .ok (true, m, cipher) => .ok (cipher, m)

/-- `poll_read_decrypted` -/
def pollReadDecrypted (A : Aead) (p : Profile) :
    AeadDecryptedReader → List ReadEvent → ℕ → Except Fault (ReadPoll AeadDecryptedReader) :=
  FramedReader.pollRead p (format A p)

end AeadDecryptedReader

namespace AeadEncryptedWriter

/-- The salt is sent with the first chunk. -/
def new (A : Aead) (method : CipherKind) (key ivOrSalt : List UInt8) : AeadEncryptedWriter where
  cipher := .new A method key ivOrSalt
  buffer := ivOrSalt
  pos := 0
  dataLen := 0
  stage := .idle

/-- The bytes that `encrypted_buffer` appends, with the cipher after it. -/
def encryptedBuffer (A : Aead) (cipher : AeadCipher) (data : List UInt8) :
    AeadCipher × List UInt8 :=
  let (len, cipher) := cipher.encrypt A (beBytes 2 data.length)
  let (payload, cipher) := cipher.encrypt A data
  (cipher, len ++ payload)

/-- The chunks that `poll_write_encrypted` writes. -/
def format (A : Aead) : ChunkFormat AeadCipher where
  limit := maxPacketSize
  emptyEnds := false
  chunk cipher data := .ok (encryptedBuffer A cipher data)

end AeadEncryptedWriter

open AeadDecryptedReader AeadEncryptedWriter

variable {A : Aead} {p : Profile} {c c' : AeadCipher} {buffer out : List UInt8}

/-! ### Opening -/

/-- A buffer that a cipher opened. -/
theorem AeadCipher.opened_of_decrypt (h : c.decrypt A p buffer = .ok (true, out, c')) :
    c' = c.increaseNonce ∧ tagSize ≤ buffer.length ∧
      ∃ message, A.decryptInPlace c.kind c.key (c.nonce.take c.nlen) buffer = some message ∧
        out = message ++ buffer.drop (buffer.length - tagSize) := by
  obtain ⟨⟨ret, b⟩, h_dec, h⟩ := bind_eq_ok.mp h
  cases h
  exact ⟨rfl, Aead.opened_of_decryptInplace h_dec⟩

/-- A length that opened. -/
theorem opened_of_decryptLength {n : ℕ} (h : decryptLength A p c buffer = .ok (c', n)) :
    c' = c.increaseNonce ∧ tagSize ≤ buffer.length ∧ n ≤ maxPacketSize ∧
      ∃ message, A.decryptInPlace c.kind c.key (c.nonce.take c.nlen) buffer = some message ∧
        n = ofBeBytes ((message ++ buffer.drop (buffer.length - tagSize)).take 2) := by
  unfold decryptLength at h
  split at h
  · cases h
  · cases h
  · next m cipher h_dec =>
    obtain ⟨h_cipher, h_le, message, h_message, rfl⟩ := AeadCipher.opened_of_decrypt h_dec
    dsimp only at h
    split at h
    · cases h
    · next h_small =>
      cases h
      exact ⟨h_cipher, h_le, Nat.le_of_not_lt h_small, message, h_message, rfl⟩

/-- A payload that opened. -/
theorem opened_of_body (h : (AeadDecryptedReader.format A p).body c buffer = .ok (c', out)) :
    c.decrypt A p buffer = .ok (true, out, c') := by
  dsimp only [AeadDecryptedReader.format] at h
  split at h
  · cases h
  · cases h
  · next h_dec => cases h; exact h_dec

/-- A chunk is opened in place, and has a tag. -/
theorem AeadDecryptedReader.format_sound (h : A.InPlace) :
    (AeadDecryptedReader.format A p).Sound where
  headLen_pos := by show 0 < tagSize + 2; exact Nat.succ_pos _
  tagLen_le h_body := (AeadCipher.opened_of_decrypt (opened_of_body h_body)).2.1
  length_opened := by
    intro c c' b opened h_body
    obtain ⟨-, h_le, message, h_message, rfl⟩ :=
      AeadCipher.opened_of_decrypt (opened_of_body h_body)
    have h_len := h.length_decrypt h_message
    rw [List.length_append, List.length_drop]
    omega

/-! ### Chunks are frames -/

/-- A buffer that opens. -/
theorem AeadCipher.decrypt_of_open (h : A.InPlace) {message : List UInt8}
    (h_open : A.decryptInPlace c.kind c.key (c.nonce.take c.nlen) buffer = some message) :
    c.decrypt A p buffer = .ok (true, message ++ buffer.drop message.length, c.increaseNonce) := by
  have h_len := h.length_decrypt h_open
  unfold AeadCipher.decrypt
  rw [Aead.decryptInplace_of_le (h_len ▸ Nat.le_add_left _ _), h_open, ← h_len, Nat.add_sub_cancel]
  rfl

theorem length_encrypt (h : A.InPlace) (c : AeadCipher) (message : List UInt8) :
    (c.encrypt A message).1.length = message.length + tagSize :=
  h.length_encrypt _ _ _ _

/-- A length that opens. -/
theorem decryptLength_of_open (h : A.InPlace) {n : ℕ} (h_n : n ≤ maxPacketSize)
    (h_open : A.decryptInPlace c.kind c.key (c.nonce.take c.nlen) buffer = some (beBytes 2 n)) :
    decryptLength A p c buffer = .ok (c.increaseNonce, n) := by
  have h_take : ofBeBytes ((beBytes 2 n ++ buffer.drop (beBytes 2 n).length).take 2) = n := by
    have h_two : (beBytes 2 n).length = 2 := length_beBytes 2 n
    rw [List.take_append_of_le_length (Nat.le_of_eq h_two.symm),
      List.take_of_length_le (Nat.le_of_eq h_two), ofBeBytes_beBytes]
    exact Nat.mod_eq_of_lt (Nat.lt_of_le_of_lt h_n (by decide))
  unfold decryptLength
  rw [AeadCipher.decrypt_of_open h h_open]
  dsimp only
  rw [h_take, if_neg (Nat.not_lt_of_le h_n)]

/-- A length and a payload that open, one after the other, are a frame. -/
theorem frames_of_open (h : A.InPlace) {len box payload wire plain : List UInt8}
    (h_payload : payload.length ≤ maxPacketSize)
    (h_len : A.decryptInPlace c.kind c.key (c.nonce.take c.nlen) len =
      some (beBytes 2 payload.length))
    (h_box : A.decryptInPlace c.kind c.key (c.increaseNonce.nonce.take c.nlen) box = some payload)
    (rest : Frames (AeadDecryptedReader.format A p) c.increaseNonce.increaseNonce wire plain) :
    Frames (AeadDecryptedReader.format A p) c (len ++ (box ++ wire)) (payload ++ plain) := by
  -- what opens is longer by its tag
  have h_box_len := h.length_decrypt h_box
  have h_head_len : len.length = tagSize + 2 := by
    have h_len_len := h.length_decrypt h_len
    rw [length_beBytes] at h_len_len
    exact h_len_len.symm.trans (Nat.add_comm _ _)
  have h_head : (AeadDecryptedReader.format A p).head c len =
      .ok (c.increaseNonce, box.length) := by
    show (do
      let (cipher, plen) ← decryptLength A p c len
      return (cipher, plen + tagSize)) = _
    rw [decryptLength_of_open h h_payload h_len, ← h_box_len]
    rfl
  have h_body : (AeadDecryptedReader.format A p).body c.increaseNonce box =
      .ok (c.increaseNonce.increaseNonce, payload ++ box.drop payload.length) := by
    dsimp only [AeadDecryptedReader.format]
    rw [AeadCipher.decrypt_of_open (c := c.increaseNonce) h h_box]
  have h_tag_len : (box.drop payload.length).length = tagSize := by
    rw [List.length_drop, ← h_box_len, Nat.add_sub_cancel_left]
  exact .cons h_head_len h_head h_body h_tag_len rest

/-- **The chunks of a writer are frames of a reader with the same cipher.** -/
theorem frames_of_sealed (h : A.Lawful) {slices : List (List UInt8)} {wire : List UInt8}
    (h_sealed : Sealed (AeadEncryptedWriter.format A) c slices wire) :
    Frames (AeadDecryptedReader.format A p) c wire
      (slices.map fun data => data.take maxPacketSize).flatten := by
  -- on the chunks; each is a sealed length and a sealed payload
  induction h_sealed with
  | nil c => exact .nil c
  | @cons c c' data chunk wire slices not_end chunk_eq rest ih =>
    have h_data : (data.take maxPacketSize).length ≤ maxPacketSize := List.length_take_le _ _
    change Except.ok (encryptedBuffer A c (data.take maxPacketSize)) = .ok (c', chunk) at chunk_eq
    rw [List.map_cons, List.flatten_cons]
    generalize data.take maxPacketSize = payload at h_data chunk_eq ⊢
    cases chunk_eq
    show Frames _ c (((c.encrypt A (beBytes 2 payload.length)).1 ++
      (c.increaseNonce.encrypt A payload).1) ++ wire) _
    rw [List.append_assoc]
    exact frames_of_open h.toInPlace h_data (h.decrypt_encrypt _ _ _ _)
      (h.decrypt_encrypt _ _ _ _) ih

/-- Every sequence of slices can be sealed. -/
theorem exists_sealed (A : Aead) (c : AeadCipher) (slices : List (List UInt8)) :
    ∃ wire, Sealed (AeadEncryptedWriter.format A) c slices wire := by
  induction slices generalizing c with
  | nil => exact ⟨[], .nil c⟩
  | cons data slices ih =>
    obtain ⟨wire, h_wire⟩ := ih (encryptedBuffer A c (data.take maxPacketSize)).1
    exact ⟨_, .cons (fun h_ends => (by cases h_ends)) rfl h_wire⟩

/-- How long the chunks of slices are: two tags and the length go with each payload. -/
theorem length_of_sealed (h : A.InPlace) {slices : List (List UInt8)} {wire : List UInt8}
    (h_sealed : Sealed (AeadEncryptedWriter.format A) c slices wire) :
    wire.length = (slices.map fun data => 34 + min maxPacketSize data.length).sum := by
  induction h_sealed with
  | nil => rfl
  | @cons c c' data chunk wire slices not_end chunk_eq rest ih =>
    have h_take : (data.take maxPacketSize).length = min maxPacketSize data.length :=
      List.length_take
    change Except.ok (encryptedBuffer A c (data.take maxPacketSize)) = .ok (c', chunk) at chunk_eq
    rw [List.map_cons, List.sum_cons, List.length_append, ih, ← h_take]
    cases chunk_eq
    show ((c.encrypt A _).1 ++ (c.increaseNonce.encrypt A _).1).length + _ = _
    rw [List.length_append, length_encrypt h, length_encrypt h, length_beBytes]
    show 2 + 16 + (_ + 16) + _ = _
    omega

/-- A reader never panics: what it opens has a tag. -/
theorem not_faults {wire : List UInt8} :
    ¬ FramedReader.Faults (AeadDecryptedReader.format A p) c wire := by
  intro h_faults
  induction h_faults with
  -- a length without its tag would be a panic, but the head has one
  | @head c h wire f head_len head_eq =>
    have h_le : tagSize ≤ h.length := head_len ▸ Nat.le_add_right _ _
    have h_head : ∃ ret m cipher, c.decrypt A p h = .ok (ret, m, cipher) := by
      unfold AeadCipher.decrypt
      rw [Aead.decryptInplace_of_le h_le]
      cases A.decryptInPlace c.kind c.key (c.nonce.take c.nlen) h <;> exact ⟨_, _, _, rfl⟩
    obtain ⟨ret, m, cipher, h_dec⟩ := h_head
    dsimp only [AeadDecryptedReader.format] at head_eq
    unfold decryptLength at head_eq
    rw [h_dec] at head_eq
    cases ret with
    | false => cases head_eq
    | true =>
      dsimp only at head_eq
      split at head_eq <;> cases head_eq
  -- and so has the payload, whose length the head announces with its tag
  | @body c c₁ h b wire f head_len head_eq body_eq =>
    obtain ⟨⟨cipher, plen⟩, -, h_head⟩ := bind_eq_ok.mp head_eq
    have h_b : plen + tagSize = b.length := congrArg Prod.snd (Except.ok.inj h_head)
    have h_le : tagSize ≤ b.length := h_b ▸ Nat.le_add_left _ _
    dsimp only [AeadDecryptedReader.format] at body_eq
    unfold AeadCipher.decrypt at body_eq
    rw [Aead.decryptInplace_of_le h_le] at body_eq
    cases h_open : A.decryptInPlace c₁.kind c₁.key (c₁.nonce.take c₁.nlen) b with
    | none => rw [h_open] at body_eq; cases body_eq
    | some message => rw [h_open] at body_eq; cases body_eq
  | next _ _ _ _ ih => exact ih

/-! ### Nothing but chunks opens -/

/-- What is sealed in a chunk, each under its nonce: nonce, sealed message, message. -/
def sealedBoxes (A : Aead) (chunk : AeadCipher × List UInt8) :
    List (List UInt8 × List UInt8 × List UInt8) :=
  let (c, data) := chunk
  let len := beBytes 2 data.length
  [(c.nonce.take c.nlen, (c.encrypt A len).1, len),
    (c.increaseNonce.nonce.take c.nlen, (c.increaseNonce.encrypt A data).1, data)]

/-- The AEAD is ideal for these chunks: under this key, a nonce opens only what was sealed
under it. -/
def IdealFor (A : Aead) (kind : CipherKind) (key : List UInt8)
    (chunks : List (AeadCipher × List UInt8)) : Prop :=
  ∀ {nonce buffer message : List UInt8}, A.decryptInPlace kind key nonce buffer = some message →
    ∃ chunk ∈ chunks, (nonce, buffer, message) ∈ sealedBoxes A chunk

/-- A chunk takes two nonces. -/
theorem cipher_of_chain {c c' : AeadCipher} {chunks : List (AeadCipher × List UInt8)}
    (h : SealedChain (AeadEncryptedWriter.format A) c chunks c') {k : ℕ}
    {chunk : AeadCipher × List UInt8} (h_k : chunks[k]? = some chunk) :
    chunk.1 = AeadCipher.increaseNonce^[2 * k] c ∧ chunk.2.length ≤ maxPacketSize := by
  induction h generalizing k with
  | nil => cases h_k
  | @cons c c₁ c₂ data bytes chunks le ne_nil chunk_eq rest ih =>
    cases k with
    | zero => cases h_k; exact ⟨rfl, le⟩
    | succ k =>
      obtain ⟨h_cipher, h_len⟩ := ih h_k
      change Except.ok (encryptedBuffer A c data) = .ok (c₁, bytes) at chunk_eq
      cases chunk_eq
      refine ⟨h_cipher.trans ?_, h_len⟩
      rw [Nat.mul_add, Function.iterate_add_apply]
      rfl

section Vouches

variable {kind : CipherKind} {key salt : List UInt8} {chunks : List (AeadCipher × List UInt8)}

/-- The box that a reader opens at its `n`-th nonce is the one that was sealed at it, if the
nonces have not come round. -/
theorem box_of_opened (h_kind : kind ≠ .none)
    (h_chain : SealedChain (AeadEncryptedWriter.format A) (.new A kind key salt) chunks c')
    (h_ideal : IdealFor A kind (AeadCipher.new A kind key salt).key chunks)
    (h_few : chunks.length < 2 ^ 95) {n : ℕ} (h_n : n ≤ 2 * chunks.length + 1)
    {message : List UInt8} (h_c : c = AeadCipher.increaseNonce^[n] (.new A kind key salt))
    (h_open : A.decryptInPlace c.kind c.key (c.nonce.take c.nlen) buffer = some message) :
    ∃ k data, chunks[k]? = some (AeadCipher.increaseNonce^[2 * k] (.new A kind key salt), data) ∧
      data.length ≤ maxPacketSize ∧
      (n = 2 * k ∧ message = beBytes 2 data.length ∨
        n = 2 * k + 1 ∧ message = data ∧ buffer = (c.encrypt A data).1) := by
  have h_counts := AeadCipher.counts_new (A := A) h_kind key salt
  have h_nlen : (AeadCipher.new A kind key salt).nlen = 12 := by
    cases kind with
    | none => exact absurd rfl h_kind
    | aes128Gcm | aes256Gcm | chaCha20Poly1305 => rfl
  have h_zero : (AeadCipher.new A kind key salt).count = 0 := by
    show ofLeBytes ((List.replicate 24 0).take _) = 0
    rw [List.take_replicate]
    exact ofLeBytes_replicate_zero _
  -- counts below `2^96` tell nonces apart
  have h_count (i : ℕ) (h_i : i < 2 ^ 96) :
      (AeadCipher.increaseNonce^[i] (.new A kind key salt)).count = i := by
    rw [(AeadCipher.counts_iterate h_counts i).2.2, h_zero, h_nlen, Nat.zero_add]
    exact Nat.mod_eq_of_lt (Nat.lt_of_lt_of_le h_i (by decide))
  have h_inj {i : ℕ} {nonce : List UInt8} (h_i : i < 2 ^ 96)
      (h_nonce : nonce = (AeadCipher.increaseNonce^[i] (.new A kind key salt)).nonce.take 12)
      (h_eq : c.nonce.take c.nlen = nonce) : n = i := by
    have h_values := congrArg ofLeBytes (h_eq.trans h_nonce)
    have h_i_nlen := (AeadCipher.counts_iterate h_counts i).2.1.trans h_nlen
    rw [← h_i_nlen] at h_values
    change c.count = AeadCipher.count _ at h_values
    rwa [h_c, h_count n (by omega), h_count i h_i] at h_values
  rw [h_c, (AeadCipher.iterate_key _ n).1, (AeadCipher.iterate_key _ n).2, ← h_c] at h_open
  obtain ⟨⟨ck, data⟩, h_mem, h_box⟩ := h_ideal h_open
  obtain ⟨k, h_k⟩ := List.mem_iff_getElem?.mp h_mem
  obtain ⟨rfl, h_len⟩ := cipher_of_chain h_chain h_k
  have h_lt : k < chunks.length := (List.getElem?_eq_some_iff.mp h_k).1
  refine ⟨k, data, h_k, h_len, ?_⟩
  have h_nlen_k := (AeadCipher.counts_iterate h_counts (2 * k)).2.1.trans h_nlen
  simp only [sealedBoxes, List.mem_cons, List.not_mem_nil, or_false, Prod.mk.injEq] at h_box
  rcases h_box with ⟨h_nonce, -, h_message⟩ | ⟨h_nonce, h_buffer, h_message⟩
  · left
    exact ⟨h_inj (by omega) (by rw [h_nlen_k]) h_nonce, h_message⟩
  · right
    have h_n_eq : n = 2 * k + 1 := by
      refine h_inj (by omega) ?_ h_nonce
      rw [h_nlen_k, Function.iterate_succ_apply']
    refine ⟨h_n_eq, h_message, ?_⟩
    rw [h_buffer, h_c, h_n_eq, Function.iterate_succ_apply']

/-- **A reader opens the chunks of its peer only**, each in its place. -/
theorem vouches_format (h_kind : kind ≠ .none)
    (h_chain : SealedChain (AeadEncryptedWriter.format A) (.new A kind key salt) chunks c')
    (h_ideal : IdealFor A kind (AeadCipher.new A kind key salt).key chunks)
    (h_few : chunks.length < 2 ^ 95) :
    (AeadDecryptedReader.format A p).Vouches
      (fun k => AeadCipher.increaseNonce^[2 * k] (.new A kind key salt)) (chunks.map Prod.snd) where
  opened := by
    intro k len c₁ c₂ h b o h_k h_head h_b h_body
    rw [List.length_map] at h_k
    obtain ⟨⟨cipher, plen⟩, h_len, h_head⟩ := bind_eq_ok.mp h_head
    cases h_head
    obtain ⟨rfl, -, -, message, h_open, h_plen⟩ := opened_of_decryptLength h_len
    obtain ⟨rfl, -, payload, h_open', rfl⟩ := AeadCipher.opened_of_decrypt (opened_of_body h_body)
    obtain ⟨j, data, h_data, h_data_len, h_box⟩ :=
      box_of_opened h_kind h_chain h_ideal h_few (by omega) rfl h_open
    obtain ⟨i, data', h_data', -, h_box'⟩ :=
      box_of_opened h_kind h_chain h_ideal h_few (n := 2 * k + 1) (by omega)
        (Function.iterate_succ_apply' _ _ _).symm h_open'
    -- the length is an even box and the payload an odd one
    have h_j : j = k ∧ message = beBytes 2 data.length := by
      rcases h_box with ⟨h_eq, h_message⟩ | ⟨h_eq, -, -⟩
      · exact ⟨by omega, h_message⟩
      · omega
    have h_i : i = k ∧ payload = data' := by
      rcases h_box' with ⟨h_eq, -⟩ | ⟨h_eq, h_payload, -⟩
      · omega
      · exact ⟨by omega, h_payload⟩
    obtain ⟨rfl, rfl⟩ := h_j
    obtain ⟨rfl, rfl⟩ := h_i
    cases h_data.symm.trans h_data'
    have h_two : (beBytes 2 payload.length).length = 2 := length_beBytes 2 _
    have h_plen : plen = payload.length := by
      rw [h_plen, List.take_append_of_le_length (Nat.le_of_eq h_two.symm),
        List.take_of_length_le (Nat.le_of_eq h_two), ofBeBytes_beBytes]
      exact Nat.mod_eq_of_lt (Nat.lt_of_le_of_lt h_data_len (by decide))
    refine ⟨?_, payload, ?_, ?_, List.prefix_append _ _⟩
    · show _ = AeadCipher.increaseNonce^[2 * (i + 1)] _
      rw [Nat.mul_add, Nat.add_comm, Function.iterate_add_apply]
      rfl
    · rw [List.getElem?_map, h_data]
      rfl
    · rw [h_plen]
      rfl

end Vouches

/-- An ideal AEAD for these boxes: it seals like the toy, and opens nothing else. -/
def Aead.ideal (boxes : List (List UInt8 × List UInt8 × List UInt8)) : Aead :=
  { Aead.tagged with
    decryptInPlace := fun _ _ nonce buffer =>
      (boxes.find? fun box => box.1 = nonce ∧ box.2.1 = buffer).map fun box => box.2.2 }

section Ideal

variable {boxes : List (List UInt8 × List UInt8 × List UInt8)} {kind : CipherKind}
  {key nonce buffer message : List UInt8}

/-- The ideal cipher opens nothing that was not sealed. -/
theorem Aead.mem_of_ideal
    (h : (Aead.ideal boxes).decryptInPlace kind key nonce buffer = some message) :
    (nonce, buffer, message) ∈ boxes := by
  obtain ⟨⟨n, b, m⟩, h_find, rfl⟩ := Option.map_eq_some_iff.mp h
  have h_eq := List.find?_some h_find
  dsimp only at h_eq
  obtain ⟨rfl, rfl⟩ := of_decide_eq_true h_eq
  exact List.mem_of_find?_eq_some h_find

/-- Boxes that hold their message and a tag of zeros. -/
def TaggedBoxes (boxes : List (List UInt8 × List UInt8 × List UInt8)) : Prop :=
  ∀ box ∈ boxes, box.2.1 = box.2.2 ++ List.replicate tagSize 0

/-- The ideal cipher opens the boxes that have been sealed. -/
theorem Aead.ideal_of_mem (h_boxes : TaggedBoxes boxes) (h : (nonce, buffer, message) ∈ boxes) :
    (Aead.ideal boxes).decryptInPlace kind key nonce buffer = some message := by
  have h_some : (boxes.find? fun box => box.1 = nonce ∧ box.2.1 = buffer).isSome :=
    List.find?_isSome.mpr ⟨_, h, decide_eq_true ⟨rfl, rfl⟩⟩
  obtain ⟨⟨n, b, m⟩, h_find⟩ := Option.isSome_iff_exists.mp h_some
  have h_eq := List.find?_some h_find
  dsimp only at h_eq
  obtain ⟨rfl, rfl⟩ := of_decide_eq_true h_eq
  have h_m : b = m ++ List.replicate tagSize 0 := h_boxes _ (List.mem_of_find?_eq_some h_find)
  have h_message : b = message ++ List.replicate tagSize 0 := h_boxes _ h
  show (boxes.find? _).map _ = _
  rw [h_find]
  exact congrArg some (List.append_cancel_right (h_m.symm.trans h_message))

theorem Aead.ideal_inPlace (h_boxes : TaggedBoxes boxes) : (Aead.ideal boxes).InPlace where
  length_encrypt := Aead.tagged_lawful.length_encrypt
  length_decrypt {_ _ _ buffer message} h := by
    have h_buffer : buffer = message ++ List.replicate tagSize 0 :=
      h_boxes _ (Aead.mem_of_ideal h)
    rw [h_buffer, List.length_append, List.length_replicate]

theorem taggedBoxes (chunks : List (AeadCipher × List UInt8)) :
    TaggedBoxes (chunks.flatMap (sealedBoxes .tagged)) := by
  intro box h_box
  obtain ⟨chunk, -, h_box⟩ := List.mem_flatMap.mp h_box
  simp only [sealedBoxes, List.mem_cons, List.not_mem_nil, or_false] at h_box
  rcases h_box with rfl | rfl <;> rfl

theorem idealFor_ideal (kind : CipherKind) (key : List UInt8)
    (chunks : List (AeadCipher × List UInt8)) :
    IdealFor (Aead.ideal (chunks.flatMap (sealedBoxes .tagged))) kind key chunks :=
  fun h => List.mem_flatMap.mp (Aead.mem_of_ideal h)

end Ideal

end V2ray

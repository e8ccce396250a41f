import V2rayRust.Lib.ChunkWriter
import V2rayRust.Lib.FramedReader
import V2rayRust.Proxy.Shadowsocks.AeadHelper

/-!
# Chunks of a VMess stream

`proxy/vmess/aead.rs`: a chunk is its length, in clear, and a sealed payload. The nonce is a
16-bit count and the tail of an initial vector.

The length is what the peer says, and it is tested against an upper bound only: a reader panics
on a chunk that is shorter than a tag (`vmess_returns_iff`). The count is bumped with every
chunk, and `2 ^ 16` chunks are more than it holds (`vmess_nonces_iff`).
-/

namespace V2ray

/-- `MAX_SIZE` -/
def maxSize : ℕ := 17 * 1024

/-- `CHUNK_SIZE` -/
def chunkSize : ℕ := 2 ^ 14

/-- `VmessSecurity`, with the key that a cipher was made with. -/
inductive VmessSecurity
  | aes128Gcm (key : List UInt8)
  | chaCha20Poly1305 (key : List UInt8)
  deriving DecidableEq

namespace VmessSecurity

def kind : VmessSecurity → CipherKind
  | aes128Gcm _ => .aes128Gcm
  | chaCha20Poly1305 _ => .chaCha20Poly1305

def key : VmessSecurity → List UInt8
  | aes128Gcm key => key
  | chaCha20Poly1305 key => key

def tagLen (_ : VmessSecurity) : ℕ := 16

end VmessSecurity

/-- What a VMess reader or writer encrypts with: `security`, `iv` and `count`. The initial
vector is always longer than a nonce. -/
structure VmessAead where
  security : VmessSecurity
  iv : List UInt8
  count : ℕ
  iv_len : 12 ≤ iv.length

namespace VmessAead

/-- The nonce that is constructed for a chunk. -/
def nonce (c : VmessAead) : List UInt8 := beBytes 2 c.count ++ (c.iv.drop 2).take 10

/-- `self.count += 1` -/
def bump (p : Profile) (c : VmessAead) : Except Fault VmessAead := do
  let count ← p.add 16 c.count 1
  return { c with count }

end VmessAead

abbrev VmessAeadWriter := ChunkWriter VmessAead

abbrev VmessAeadReader := FramedReader VmessAead

namespace VmessAeadWriter

def new (security : VmessSecurity) (iv : List UInt8) (iv_len : 12 ≤ iv.length) :
    VmessAeadWriter where
  cipher := ⟨security, iv, 0, iv_len⟩
  buffer := []
  pos := 0
  dataLen := 0
  stage := .idle

/-- The bytes that `encrypted_buffer` appends, with the cipher after it. -/
def encryptedBuffer (A : Aead) (p : Profile) (c : VmessAead) (data : List UInt8) :
    Except Fault (VmessAead × List UInt8) := do
  let chunk := beBytes 2 (data.length + c.security.tagLen) ++
    A.encryptInPlace c.security.kind c.security.key c.nonce data
  let c ← c.bump p
  return (c, chunk)

/-- The chunks that `poll_write_encrypted` writes. -/
def format (A : Aead) (p : Profile) : ChunkFormat VmessAead where
  limit := chunkSize - 16
  emptyEnds := true
  chunk := encryptedBuffer A p

end VmessAeadWriter

namespace VmessAeadReader

def new (security : VmessSecurity) (iv : List UInt8) (iv_len : 12 ≤ iv.length) :
    VmessAeadReader where
  cipher := ⟨security, iv, 0, iv_len⟩
  buffer := []
  dataLength := 0
  stage := .head

/-- The frames that `poll_read_decrypted` reads. -/
def format (A : Aead) (p : Profile) : FrameFormat VmessAead where
  headLen := 2
  tagLen := 16
  head c m :=
    let dataLength := ofBeBytes m
    if dataLength > maxSize then .error (.err "buffer size too large!")
    else .ok (c, dataLength)
  body c m :=
    match A.decryptInplaceWithSlice p c.security.kind c.security.key c.nonce m with
    | .error f => .error (.fault f)
    | .ok (false, _) => .error (.err "invalid aead tag")
    | .ok (true, m) =>
      match c.bump p with
      | .error f => .error (.fault f)
      | .ok c => .ok (c, m)

/-- `poll_read_decrypted` -/
def pollReadDecrypted (A : Aead) (p : Profile) :
    VmessAeadReader → List ReadEvent → ℕ → Except Fault (ReadPoll VmessAeadReader) :=
  FramedReader.pollRead p (format A p)

end VmessAeadReader

open VmessAeadWriter VmessAeadReader

variable {A : Aead} {p : Profile} {c c' : VmessAead} {buffer out : List UInt8}

/-! ### The count -/

/-- A count that was bumped is one higher, modulo what it can hold. -/
theorem VmessAead.bump_eq (h : c.bump p = .ok c') :
    c' = { c with count := (c.count + 1) % 2 ^ 16 } := by
  obtain ⟨count, h_add, h⟩ := bind_eq_ok.mp h
  cases h
  unfold Profile.add at h_add
  split at h_add
  · next h_lt =>
    obtain rfl := Except.ok.inj h_add
    rw [Nat.mod_eq_of_lt h_lt]
  · cases p with
    | debug => cases h_add
    | release => rw [← Except.ok.inj h_add]

/-- In a release build the count wraps. -/
theorem VmessAead.bump_release (c : VmessAead) :
    c.bump .release = .ok { c with count := (c.count + 1) % 2 ^ 16 } := by
  unfold VmessAead.bump
  rw [Profile.release_add]
  rfl

/-- A count with room is bumped in every build. -/
theorem VmessAead.bump_of_lt (h : c.count + 1 < 2 ^ 16) :
    c.bump p = .ok { c with count := c.count + 1 } := by
  unfold VmessAead.bump
  rw [Profile.add_of_lt h]
  rfl

/-- With overflow checks a full count panics. -/
theorem VmessAead.bump_debug (h : ¬ c.count + 1 < 2 ^ 16) : c.bump .debug = .error .overflow := by
  unfold VmessAead.bump Profile.add
  rw [if_neg h]
  rfl

/-! ### Reading -/

/-- A body that opened. -/
theorem vmess_body_eq_ok (h : (VmessAeadReader.format A p).body c buffer = .ok (c', out)) :
    c.bump p = .ok c' ∧ tagSize ≤ buffer.length ∧ ∃ message,
      A.decryptInPlace c.security.kind c.security.key c.nonce buffer = some message ∧
        out = message ++ buffer.drop (buffer.length - tagSize) := by
  dsimp only [VmessAeadReader.format] at h
  split at h
  · cases h
  · cases h
  · next m h_dec =>
    split at h
    · cases h
    · next c₁ h_bump =>
      cases h
      obtain ⟨h_le, h_message⟩ := Aead.opened_of_decryptInplace h_dec
      exact ⟨h_bump, h_le, h_message⟩

theorem VmessAeadReader.format_sound (h : A.InPlace) : (VmessAeadReader.format A p).Sound where
  headLen_pos := by show 0 < 2; exact Nat.succ_pos _
  tagLen_le h_body := (vmess_body_eq_ok h_body).2.1
  length_opened := by
    intro c c' b opened h_body
    obtain ⟨-, h_le, message, h_message, rfl⟩ := vmess_body_eq_ok h_body
    have h_len := h.length_decrypt h_message
    rw [List.length_append, List.length_drop]
    omega

/-- A chunk at which a reader panics, after chunks that open. -/
inductive BadChunk (A : Aead) (p : Profile) : VmessAead → List UInt8 → Prop
  /-- its length is less than that of a tag -/
  | short {c : VmessAead} {len body wire : List UInt8} (len_len : len.length = 2)
      (len_eq : ofBeBytes len = body.length) (lt : body.length < 16) :
      BadChunk A p c (len ++ (body ++ wire))
  /-- with overflow checks: it opens, and the count is full -/
  | full {c : VmessAead} {len body wire message : List UInt8} (len_len : len.length = 2)
      (len_eq : ofBeBytes len = body.length) (ge : 16 ≤ body.length) (le : body.length ≤ maxSize)
      (checks : p = .debug)
      (opens : A.decryptInPlace c.security.kind c.security.key c.nonce body = some message)
      (count_eq : c.count = 2 ^ 16 - 1) : BadChunk A p c (len ++ (body ++ wire))
  | next {c : VmessAead} {len body wire message : List UInt8} (len_len : len.length = 2)
      (len_eq : ofBeBytes len = body.length) (ge : 16 ≤ body.length) (le : body.length ≤ maxSize)
      (opens : A.decryptInPlace c.security.kind c.security.key c.nonce body = some message)
      (rest : BadChunk A p { c with count := (c.count + 1) % 2 ^ 16 } wire) :
      BadChunk A p c (len ++ (body ++ wire))

/-- The head of a chunk that is not too large. -/
theorem vmess_head_of_le {len : List UInt8} (h : ofBeBytes len ≤ maxSize) :
    (VmessAeadReader.format A p).head c len = .ok (c, ofBeBytes len) :=
  if_neg (Nat.not_lt_of_le h)

theorem vmess_head_eq_ok {len : List UInt8} {n : ℕ}
    (h : (VmessAeadReader.format A p).head c len = .ok (c', n)) :
    c' = c ∧ n = ofBeBytes len ∧ n ≤ maxSize := by
  dsimp only [VmessAeadReader.format] at h
  split at h
  · cases h
  · next h_le => cases h; exact ⟨rfl, rfl, Nat.le_of_not_lt h_le⟩

/-- A body with a tag that opens, while the count has room. -/
theorem vmess_body_of_open {message : List UInt8} (h_le : tagSize ≤ buffer.length)
    (h_open : A.decryptInPlace c.security.kind c.security.key c.nonce buffer = some message) :
    (VmessAeadReader.format A p).body c buffer =
      match c.bump p with
      | .error f => .error (.fault f)
      | .ok c => .ok (c, message ++ buffer.drop (buffer.length - tagSize)) := by
  dsimp only [VmessAeadReader.format]
  rw [Aead.decryptInplace_of_le h_le, h_open]

/-- A body that stops with a fault is too short, or opens with a full count. -/
theorem vmess_body_eq_fault {f : Fault}
    (h : (VmessAeadReader.format A p).body c buffer = .error (.fault f))
    (h_count : c.count < 2 ^ 16) :
    buffer.length < 16 ∨ 16 ≤ buffer.length ∧ p = .debug ∧ c.count = 2 ^ 16 - 1 ∧ ∃ message,
      A.decryptInPlace c.security.kind c.security.key c.nonce buffer = some message := by
  rcases Nat.lt_or_ge buffer.length tagSize with h_lt | h_le
  · exact Or.inl h_lt
  right
  -- a body that does not open is an error, and no fault
  cases h_open : A.decryptInPlace c.security.kind c.security.key c.nonce buffer with
  | none =>
    dsimp only [VmessAeadReader.format] at h
    rw [Aead.decryptInplace_of_le h_le, h_open] at h
    cases h
  | some message =>
    rw [vmess_body_of_open h_le h_open] at h
    by_cases h_lt : c.count + 1 < 2 ^ 16
    · rw [VmessAead.bump_of_lt h_lt] at h
      cases h
    · cases p with
      | debug => exact ⟨h_le, rfl, by omega, message, rfl⟩
      | release =>
        rw [VmessAead.bump_release] at h
        cases h

/-- **The faults of a reader are its bad chunks.** -/
theorem faults_iff_badChunk {wire : List UInt8} (h_count : c.count < 2 ^ 16) :
    FramedReader.Faults (VmessAeadReader.format A p) c wire ↔ BadChunk A p c wire := by
  constructor
  · intro h
    induction h with
    -- the head alone never fails: its two bytes are a length whatever they are
    | head head_len head_eq =>
      dsimp only [VmessAeadReader.format] at head_eq
      split at head_eq <;> cases head_eq
    | body head_len head_eq body_eq =>
      obtain ⟨rfl, h_len, h_le⟩ := vmess_head_eq_ok head_eq
      rcases vmess_body_eq_fault body_eq h_count with
        h_short | ⟨h_ge, h_debug, h_full, message, h_open⟩
      · exact .short head_len h_len.symm h_short
      · exact .full head_len h_len.symm h_ge h_le h_debug h_open h_full
    | next head_len head_eq body_eq rest ih =>
      obtain ⟨rfl, h_len, h_le⟩ := vmess_head_eq_ok head_eq
      obtain ⟨h_bump, h_ge, message, h_open, -⟩ := vmess_body_eq_ok body_eq
      obtain rfl := VmessAead.bump_eq h_bump
      exact .next head_len h_len.symm h_ge h_le h_open (ih (Nat.mod_lt _ (by decide)))
  · intro h
    induction h with
    | @short c len body wire len_len len_eq lt =>
      have h_max : ofBeBytes len ≤ maxSize := by
        rw [len_eq, maxSize]
        omega
      have h_fault : ∃ f, A.decryptInplaceWithSlice p c.security.kind c.security.key c.nonce body =
          .error f := Aead.decryptInplace_of_lt lt
      obtain ⟨f, h_fault⟩ := h_fault
      refine .body (f := f) len_len (len_eq ▸ vmess_head_of_le h_max) ?_
      dsimp only [VmessAeadReader.format]
      rw [h_fault]
    -- the chunk opens, and it is the count of the next nonce that overflows
    | @full c len body wire message len_len len_eq ge le checks opens count_eq =>
      refine .body (f := .overflow) len_len (len_eq ▸ vmess_head_of_le (len_eq ▸ le)) ?_
      rw [vmess_body_of_open ge opens, checks, VmessAead.bump_debug (by omega)]
    | @next c len body wire message len_len len_eq ge le opens rest ih =>
      have h_head := len_eq ▸ vmess_head_of_le (A := A) (p := p) (c := c) (len_eq ▸ le)
      have h_body := vmess_body_of_open (p := p) ge opens
      -- the chunk opens; whether the reader goes on to the next is up to the count
      cases h_bump : c.bump p with
      | error f =>
        rw [h_bump] at h_body
        exact .body len_len h_head h_body
      | ok c' =>
        rw [h_bump] at h_body
        obtain rfl := VmessAead.bump_eq h_bump
        exact .next len_len h_head h_body (ih (Nat.mod_lt _ (by decide)))

/-- **A VMess reader returns from every poll**, over every segmentation of a stream and all
destinations, if and only if the stream has no bad chunk. -/
theorem vmess_returns_iff (h_inPlace : A.InPlace) (p : Profile) (security : VmessSecurity)
    (iv : List UInt8) (iv_len : 12 ≤ iv.length) (wire : List UInt8) :
    (∀ es rooms, bytesOf es = wire → (∀ room ∈ rooms, 0 < room) →
      ∃ y, readRun (pollReadDecrypted A p) rooms (VmessAeadReader.new security iv iv_len) es =
        .ok y) ↔
      ¬ BadChunk A p ⟨security, iv, 0, iv_len⟩ wire := by
  rw [← faults_iff_badChunk (by show 0 < 2 ^ 16; decide)]
  exact FramedReader.returns_iff (VmessAeadReader.format_sound h_inPlace)

/-- A length field above the bound is refused. -/
theorem vmess_returns_large : ∃ y, readRun (pollReadDecrypted .tagged .debug) [1, 1]
    (VmessAeadReader.new (.aes128Gcm []) (List.replicate 12 0) (by decide))
    [.data [255], .pending, .data [255]] = .ok y := by
  refine (vmess_returns_iff Aead.tagged_lawful.toInPlace .debug _ _ _ [255, 255]).mpr ?_ _ _ rfl
    (by decide)
  intro h
  generalize h_wire : ([255, 255] : List UInt8) = wire at h
  have h_len (len body rest : List UInt8) (h_two : len.length = 2)
      (h_wire : [255, 255] = len ++ (body ++ rest)) : ofBeBytes len ≠ body.length := by
    have h_wire : [255, 255] ++ [] = len ++ (body ++ rest) := h_wire
    obtain ⟨rfl, h_rest⟩ := List.append_inj h_wire h_two.symm
    obtain ⟨rfl, -⟩ := List.append_eq_nil_iff.mp h_rest.symm
    decide
  cases h with
  | short len_len len_eq lt => exact h_len _ _ _ len_len h_wire len_eq
  | full len_len len_eq => exact h_len _ _ _ len_len h_wire len_eq
  | next len_len len_eq => exact h_len _ _ _ len_len h_wire len_eq

/-- A chunk of five bytes panics. -/
theorem vmess_panics :
    ¬ ∀ (A : Aead) (p : Profile) (security : VmessSecurity) (iv : List UInt8)
        (iv_len : 12 ≤ iv.length) (es : List ReadEvent) (rooms : List ℕ),
      A.InPlace → (∀ room ∈ rooms, 0 < room) →
      ∃ y, readRun (pollReadDecrypted A p) rooms (VmessAeadReader.new security iv iv_len) es =
        .ok y := by
  intro h
  obtain ⟨y, h_y⟩ := h .tagged .release (.aes128Gcm (List.replicate 16 0)) (List.replicate 16 0)
    (by decide) [.data [0, 5, 1, 2, 3, 4, 5]] [1] Aead.tagged_lawful.toInPlace (by decide)
  have h_panic : readRun (pollReadDecrypted .tagged .release) [1]
      (VmessAeadReader.new (.aes128Gcm (List.replicate 16 0)) (List.replicate 16 0) (by decide))
      [.data [0, 5, 1, 2, 3, 4, 5]] = .error .outOfBounds := rfl
  cases h_panic.symm.trans h_y

/-! ### Writing -/

/-- The count of a chunk is its number, modulo what a count can hold. -/
theorem cipher_of_vmess_chain {chunks : List (VmessAead × List UInt8)}
    (h : SealedChain (VmessAeadWriter.format A p) c chunks c') (h_count : c.count < 2 ^ 16) {k : ℕ}
    {chunk : VmessAead × List UInt8} (h_k : chunks[k]? = some chunk) :
    chunk.1 = { c with count := (c.count + k) % 2 ^ 16 } := by
  induction h generalizing k with
  | nil => cases h_k
  | @cons c c₁ c₂ data bytes chunks le ne_nil chunk_eq rest ih =>
    cases k with
    | zero =>
      cases h_k
      show c = { c with count := c.count % 2 ^ 16 }
      rw [Nat.mod_eq_of_lt h_count]
    | succ k =>
      obtain ⟨c₃, h_bump, h_eq⟩ := bind_eq_ok.mp chunk_eq
      cases h_eq
      obtain rfl := VmessAead.bump_eq h_bump
      rw [ih (Nat.mod_lt _ (by decide)) h_k, Nat.mod_add_mod, Nat.add_assoc, Nat.add_comm 1 k]

/-- Counts that fit make different nonces. -/
theorem VmessAead.nonce_inj {m n : ℕ} (h_m : m < 2 ^ 16) (h_n : n < 2 ^ 16)
    (h : ({ c with count := m } : VmessAead).nonce = ({ c with count := n } : VmessAead).nonce) :
    m = n := by
  have h_counts := List.append_inj_left h (by rw [length_beBytes, length_beBytes])
  exact beBytes_inj (n := 2) h_m h_n h_counts

/-- What a build with overflow checks makes of a chunk, a release build makes of it; and the
other way round while the count has room. -/
theorem vmess_chunk_congr {data : List UInt8} {r : VmessAead × List UInt8} (p' : Profile)
    (h : (VmessAeadWriter.format A p).chunk c data = .ok r)
    (h_lt : p' = .release ∨ c.count + 1 < 2 ^ 16) :
    (VmessAeadWriter.format A p').chunk c data = .ok r := by
  obtain ⟨c₁, h_bump, h⟩ := bind_eq_ok.mp h
  have h_bump' : c.bump p' = .ok c₁ := by
    rw [VmessAead.bump_eq h_bump]
    rcases h_lt with rfl | h_lt
    · exact c.bump_release
    · rw [VmessAead.bump_of_lt h_lt, Nat.mod_eq_of_lt h_lt]
  show (c.bump p' >>= _) = _
  rw [h_bump']
  exact h

/-- The chunk of a release build. -/
theorem vmess_chunk_release (A : Aead) (c : VmessAead) (data : List UInt8) :
    (VmessAeadWriter.format A .release).chunk c data =
      .ok ({ c with count := (c.count + 1) % 2 ^ 16 }, beBytes 2 (data.length + 16) ++
        A.encryptInPlace c.security.kind c.security.key c.nonce data) := by
  show (c.bump .release >>= _) = _
  rw [VmessAead.bump_release]
  rfl

/-- In a release build, slices that are not empty can all be sealed. -/
theorem exists_vmess_sealed (A : Aead) (c : VmessAead) {slices : List (List UInt8)}
    (h : ∀ data ∈ slices, data ≠ []) :
    ∃ wire, Sealed (VmessAeadWriter.format A .release) c slices wire := by
  induction slices generalizing c with
  | nil => exact ⟨[], .nil c⟩
  | cons data slices ih =>
    obtain ⟨wire, h_wire⟩ := ih { c with count := (c.count + 1) % 2 ^ 16 }
      fun data h_data => h data (List.mem_cons_of_mem _ h_data)
    exact ⟨_, .cons (fun _ => h data List.mem_cons_self) (vmess_chunk_release A c _) h_wire⟩

/-- The bytes of sealed slices. -/
theorem length_of_vmess_sealed (h_inPlace : A.InPlace) {slices : List (List UInt8)}
    {wire : List UInt8} (h : Sealed (VmessAeadWriter.format A .release) c slices wire) :
    wire.length = (slices.map fun data => 18 + min (chunkSize - 16) data.length).sum := by
  induction h with
  | nil => rfl
  | @cons c c' data chunk wire slices not_end chunk_eq rest ih =>
    have h_chunk := Except.ok.inj ((vmess_chunk_release A c _).symm.trans chunk_eq)
    have h_len : chunk.length = 18 + min (chunkSize - 16) data.length := by
      rw [← (Prod.mk.inj h_chunk).2, List.length_append, length_beBytes, h_inPlace.length_encrypt,
        tagSize, Nat.add_comm _ 16, ← Nat.add_assoc]
      show 2 + 16 + (data.take (chunkSize - 16)).length = _
      rw [List.length_take]
    rw [List.length_append, h_len, ih]
    rfl

/-- **The nonces of a VMess writer** are all different, and its counter stays in its type, if
and only if the run seals fewer than `2 ^ 16` chunks (as a release build, which always returns,
seals them). -/
theorem vmess_nonces_iff (A : Aead) (p : Profile) (security : VmessSecurity) (iv : List UInt8)
    (iv_len : 12 ≤ iv.length) (slices : List (List UInt8)) (ws : List WriteEvent) :
    ∃ run, writePolls (VmessAeadWriter.format A .release) slices
        (VmessAeadWriter.new security iv iv_len) ws = .ok run ∧
      ((∃ y, writePolls (VmessAeadWriter.format A p) slices
            (VmessAeadWriter.new security iv iv_len) ws = .ok y ∧
          y.chunks.Pairwise (fun x x' => x.1.nonce ≠ x'.1.nonce) ∧
          ∀ x ∈ y.chunks, x.1.count + 1 < 2 ^ 16) ↔ run.chunks.length < 2 ^ 16) := by
  have h_limit : 0 < (VmessAeadWriter.format A p).limit := by show 0 < chunkSize - 16; decide
  obtain ⟨run, h_run⟩ := writePolls_returns (fun c data => ⟨_, vmess_chunk_release A c data⟩)
    slices (VmessAeadWriter.new security iv iv_len) ws
  refine ⟨run, h_run, ?_, ?_⟩
  · rintro ⟨y, h_y, -, h_counts⟩
    -- the release build has the same run
    have h_same : writePolls (VmessAeadWriter.format A .release) slices
        (VmessAeadWriter.new security iv iv_len) ws = .ok y :=
      writePolls_congr (by rfl) (by rfl) h_y fun _ _ _ h =>
        vmess_chunk_congr .release h (Or.inl rfl)
    cases h_run.symm.trans h_same
    have h_chain := chain_of_writePolls h_limit h_y
    by_contra h_long
    obtain ⟨x, h_x⟩ : ∃ x, run.chunks[2 ^ 16 - 1]? = some x :=
      Option.ne_none_iff_exists'.mp (by rw [Ne, List.getElem?_eq_none_iff]; omega)
    have h_cipher := cipher_of_vmess_chain h_chain (by show 0 < 2 ^ 16; decide) h_x
    have h_count := h_counts x (List.mem_of_getElem? h_x)
    rw [h_cipher] at h_count
    exact absurd h_count (by show ¬ (0 + (2 ^ 16 - 1)) % 2 ^ 16 + 1 < 2 ^ 16; decide)
  · intro h_few
    have h_chain := chain_of_writePolls (by show 0 < chunkSize - 16; decide) h_run
    have h_cipher {k : ℕ} {x : VmessAead × List UInt8} (h_x : run.chunks[k]? = some x) :
        k < run.chunks.length ∧ x.1 = ⟨security, iv, k, iv_len⟩ := by
      have h_k : k < run.chunks.length := (List.getElem?_eq_some_iff.mp h_x).1
      have h_x := cipher_of_vmess_chain h_chain (by show 0 < 2 ^ 16; decide) h_x
      change x.1 = ⟨security, iv, (0 + k) % 2 ^ 16, iv_len⟩ at h_x
      rw [Nat.zero_add, Nat.mod_eq_of_lt (by omega)] at h_x
      exact ⟨h_k, h_x⟩
    have h_room : ∀ x ∈ run.chunks, x.1.count + 1 < 2 ^ 16 := by
      intro x h_x
      obtain ⟨k, h_k⟩ := List.mem_iff_getElem?.mp h_x
      obtain ⟨h_lt, h_cipher⟩ := h_cipher h_k
      rw [h_cipher]
      show k + 1 < 2 ^ 16
      omega
    refine ⟨run, ?_, ?_, h_room⟩
    · exact writePolls_congr (by rfl) (by rfl) h_run fun x h_x _ h =>
        vmess_chunk_congr p h (Or.inr (h_room x h_x))
    · rw [List.pairwise_iff_getElem]
      intro i j h_i h_j h_lt h_eq
      have h_cᵢ := (h_cipher (List.getElem?_eq_getElem h_i)).2
      have h_cⱼ := (h_cipher (List.getElem?_eq_getElem h_j)).2
      rw [h_cᵢ, h_cⱼ] at h_eq
      have h_same := VmessAead.nonce_inj (c := ⟨security, iv, 0, iv_len⟩)
        (Nat.lt_trans h_i h_few) (Nat.lt_trans h_j h_few) h_eq
      exact absurd h_same (Nat.ne_of_lt h_lt)

/-- Two chunks have different nonces. -/
theorem vmess_nonces_iff_two : ∃ y, writePolls (VmessAeadWriter.format .tagged .debug) [[65], [66]]
      (VmessAeadWriter.new (.aes128Gcm []) (List.replicate 12 0) (by decide))
        [.accept 19, .accept 19] =
        .ok y ∧
    y.chunks.Pairwise (fun x x' => x.1.nonce ≠ x'.1.nonce) ∧
      ∀ x ∈ y.chunks, x.1.count + 1 < 2 ^ 16 := by
  obtain ⟨run, h_run, h_iff⟩ := vmess_nonces_iff .tagged .debug (.aes128Gcm [])
    (List.replicate 12 0)
    (by decide) [[65], [66]] [.accept 19, .accept 19]
  refine h_iff.mpr ?_
  cases h_run
  show 2 < 2 ^ 16
  decide

/-- The chunk after `2 ^ 16` others is sealed under the nonce of the first. -/
theorem vmess_nonces_repeat :
    ¬ ∀ (A : Aead) (p : Profile) (security : VmessSecurity) (iv : List UInt8)
        (iv_len : 12 ≤ iv.length) (slices : List (List UInt8)) (ws : List WriteEvent),
      ∃ y, writePolls (VmessAeadWriter.format A p) slices
          (VmessAeadWriter.new security iv iv_len) ws = .ok y ∧
        y.chunks.Pairwise (fun x x' => x.1.nonce ≠ x'.1.nonce) ∧
        ∀ x ∈ y.chunks, x.1.count + 1 < 2 ^ 16 := by
  intro h
  have h_iv : 12 ≤ (List.replicate 16 (0 : UInt8)).length := by decide
  let w := VmessAeadWriter.new (.aes128Gcm (List.replicate 16 0)) (List.replicate 16 0) h_iv
  have h_data : ∀ data ∈ List.replicate (2 ^ 16 + 1) [(65 : UInt8)], data ≠ [] := by
    intro data h_data
    rw [List.eq_of_mem_replicate h_data]
    exact List.cons_ne_nil _ _
  obtain ⟨wire, h_sealed⟩ := exists_vmess_sealed .tagged w.cipher h_data
  obtain ⟨ws, run, -, h_run, h_chunks⟩ := exists_writePolls (w := w) rfl h_sealed
  obtain ⟨y, h_y, h_distinct, -⟩ := h .tagged .release _ _ h_iv
    (List.replicate (2 ^ 16 + 1) [65]) ws
  -- the nonces of the run are those of the counts 0, 1, 2 and so on, taken modulo `2 ^ 16`
  cases h_y.symm.trans h_run
  have h_len := congrArg List.length h_chunks
  rw [List.length_map, List.length_map, List.length_replicate] at h_len
  have h_chain := chain_of_writePolls (by show 0 < chunkSize - 16; decide) h_run
  have h_cipher (k : ℕ) (h_k : k < run.chunks.length) :
      run.chunks[k].1 = { w.cipher with count := (w.cipher.count + k) % 2 ^ 16 } :=
    cipher_of_vmess_chain h_chain (by show 0 < 2 ^ 16; decide) (List.getElem?_eq_getElem h_k)
  have h_first : 0 < run.chunks.length := by omega
  have h_last : 2 ^ 16 < run.chunks.length := by omega
  refine List.pairwise_iff_getElem.mp h_distinct 0 (2 ^ 16) h_first h_last (by decide) ?_
  rw [h_cipher 0 h_first, h_cipher (2 ^ 16) h_last, Nat.add_zero, Nat.add_mod_right]

/-- **The chunks of a writer are frames of a reader with the same cipher**, in a release build. -/
theorem frames_of_vmess_sealed (h : A.Lawful) {slices : List (List UInt8)} {wire : List UInt8}
    (h_sealed : Sealed (VmessAeadWriter.format A .release) c slices wire) :
    Frames (VmessAeadReader.format A .release) c wire
      (slices.map fun data => data.take (chunkSize - 16)).flatten := by
  induction h_sealed with
  | nil c => exact .nil c
  | @cons c c' data chunk wire slices not_end chunk_eq rest ih =>
    have h_data : (data.take (chunkSize - 16)).length ≤ chunkSize - 16 := List.length_take_le _ _
    rw [List.map_cons, List.flatten_cons]
    change encryptedBuffer A .release c (data.take (chunkSize - 16)) = .ok (c', chunk) at chunk_eq
    -- the head names the length of the sealed slice, and so the box is opened whole
    generalize data.take (chunkSize - 16) = payload at h_data chunk_eq ⊢
    obtain ⟨c₁, h_bump, h_eq⟩ := bind_eq_ok.mp chunk_eq
    cases h_eq
    generalize h_box : A.encryptInPlace c.security.kind c.security.key c.nonce payload = box
    have h_open : A.decryptInPlace c.security.kind c.security.key c.nonce box = some payload :=
      h_box ▸ h.decrypt_encrypt _ _ _ _
    have h_len := h.length_decrypt h_open
    have h_value : ofBeBytes (beBytes 2 (payload.length + 16)) = box.length := by
      rw [ofBeBytes_beBytes, ← h_len]
      exact Nat.mod_eq_of_lt (by unfold chunkSize at h_data; omega)
    have h_head : (VmessAeadReader.format A .release).head c (beBytes 2 (payload.length + 16)) =
        .ok (c, box.length) := by
      rw [← h_value]
      refine vmess_head_of_le ?_
      rw [h_value, ← h_len]
      unfold chunkSize at h_data
      unfold maxSize tagSize
      omega
    have h_body : (VmessAeadReader.format A .release).body c box =
        .ok (c', payload ++ box.drop payload.length) := by
      rw [vmess_body_of_open (h_len ▸ Nat.le_add_left _ _) h_open, h_bump, ← h_len,
        Nat.add_sub_cancel]
    show Frames _ c ((beBytes 2 (payload.length + 16) ++ box) ++ wire) _
    rw [List.append_assoc]
    refine .cons (length_beBytes 2 _) h_head h_body ?_ ih
    rw [List.length_drop, ← h_len, Nat.add_sub_cancel_left]
    rfl

end V2ray

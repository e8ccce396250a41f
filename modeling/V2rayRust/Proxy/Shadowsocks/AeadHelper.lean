import Mathlib.Data.List.Basic
import Mathlib.Logic.Function.Iterate
import V2rayRust.Config.Model
import V2rayRust.Lib.Bytes
import V2rayRust.Lib.Fault

/-!
# AEAD ciphers

`common/aead_helper.rs` and `proxy/shadowsocks/aead_helper.rs`: a cipher works in place on a
buffer whose last 16 bytes are the tag, and Shadowsocks counts its calls in the nonce. The
ciphers themselves and the key derivation are outside (`Aead`).
-/

namespace V2ray

/-- The primitives: `ss_hkdf_sha1`, and for each kind `encrypt_in_place_detached`
and `decrypt_in_place_detached` with no associated data, a message and its tag being one list. -/
structure Aead where
  hkdfSha1 : List UInt8 → List UInt8 → List UInt8
  /-- kind, key, nonce, message -/
  encryptInPlace : CipherKind → List UInt8 → List UInt8 → List UInt8 → List UInt8
  /-- kind, key, nonce, sealed message -/
  decryptInPlace : CipherKind → List UInt8 → List UInt8 → List UInt8 → Option (List UInt8)

/-- The length of a tag. -/
def tagSize : ℕ := 16

/-- `decrypt_inplace_with_slice`: the tag is split off the end of the buffer; a message that
opens is in its place afterwards, and else the buffer is as before. -/
def Aead.decryptInplaceWithSlice (A : Aead) (p : Profile) (kind : CipherKind)
    (key nonce buffer : List UInt8) : Except Fault (Bool × List UInt8) := do
  let tagPos ← p.sub 64 buffer.length tagSize
  if buffer.length < tagPos then throw .outOfBounds
  match A.decryptInPlace kind key nonce buffer with
  | some message => return (true, message ++ buffer.drop tagPos)
  | none => return (false, buffer)

/-- Sealing adds a tag to a message, and opening takes it off. -/
structure Aead.InPlace (A : Aead) : Prop where
  length_encrypt : ∀ kind key nonce message,
    (A.encryptInPlace kind key nonce message).length = message.length + tagSize
  length_decrypt : ∀ {kind : CipherKind} {key nonce buffer message : List UInt8},
    A.decryptInPlace kind key nonce buffer = some message →
      message.length + tagSize = buffer.length

/-- Opening inverts sealing under the same key and nonce. -/
structure Aead.Lawful (A : Aead) : Prop extends A.InPlace where
  decrypt_encrypt : ∀ kind key nonce message,
    A.decryptInPlace kind key nonce (A.encryptInPlace kind key nonce message) = some message

namespace Aead

variable {A : Aead} {p : Profile} {kind : CipherKind} {key nonce buffer out message : List UInt8}

/-- A buffer that was opened holds the message and, after it, the tag. -/
theorem opened_of_decryptInplace
    (h : A.decryptInplaceWithSlice p kind key nonce buffer = .ok (true, out)) :
    tagSize ≤ buffer.length ∧ ∃ message, A.decryptInPlace kind key nonce buffer = some message ∧
      out = message ++ buffer.drop (buffer.length - tagSize) := by
  unfold decryptInplaceWithSlice at h
  obtain ⟨tagPos, h_sub, h⟩ := bind_eq_ok.mp h
  -- a buffer that is too short overflows, or wraps to an index behind its end
  have h_le : tagSize ≤ buffer.length := by
    by_contra h_short
    have h_lt : buffer.length < tagPos := by
      unfold Profile.sub at h_sub
      rw [if_neg h_short] at h_sub
      cases p with
      | debug => cases h_sub
      | release =>
        have h_pos := Except.ok.inj h_sub
        unfold tagSize at h_short h_pos
        omega
    rw [if_pos h_lt] at h
    cases h
  rw [Profile.sub_of_le h_le] at h_sub
  cases h_sub
  rw [if_neg (Nat.not_lt_of_le (Nat.sub_le _ _))] at h
  refine ⟨h_le, ?_⟩
  cases h_open : A.decryptInPlace kind key nonce buffer with
  | none => rw [h_open] at h; cases h
  | some message => rw [h_open] at h; cases h; exact ⟨message, rfl, rfl⟩

/-- A buffer that holds a tag is opened or left alone. -/
theorem decryptInplace_of_le (h : tagSize ≤ buffer.length) :
    A.decryptInplaceWithSlice p kind key nonce buffer =
      match A.decryptInPlace kind key nonce buffer with
      | some message => .ok (true, message ++ buffer.drop (buffer.length - tagSize))
      | none => .ok (false, buffer) := by
  unfold decryptInplaceWithSlice
  rw [Profile.sub_of_le h, ok_bind, if_neg (Nat.not_lt_of_le (Nat.sub_le _ _))]
  cases A.decryptInPlace kind key nonce buffer <;> rfl

/-- A buffer that is shorter than a tag panics. -/
theorem decryptInplace_of_lt (h : buffer.length < tagSize) :
    ∃ f, A.decryptInplaceWithSlice p kind key nonce buffer = .error f := by
  cases h_dec : A.decryptInplaceWithSlice p kind key nonce buffer with
  | error f => exact ⟨f, rfl⟩
  | ok r =>
    obtain ⟨ret, out⟩ := r
    exfalso
    unfold decryptInplaceWithSlice Profile.sub at h_dec
    rw [if_neg (Nat.not_le_of_lt h)] at h_dec
    cases p with
    | debug => cases h_dec
    | release =>
      have h_lt : buffer.length < (buffer.length + 2 ^ 64 - tagSize) % 2 ^ 64 := by
        unfold tagSize at h ⊢
        omega
      rw [ok_bind, if_pos h_lt] at h_dec
      cases h_dec

end Aead

/-- A toy AEAD: messages stay as they are, with a tag of zeros. -/
def Aead.tagged : Aead where
  hkdfSha1 _ _ := List.replicate 64 0
  encryptInPlace _ _ _ message := message ++ List.replicate tagSize 0
  decryptInPlace _ _ _ buffer :=
    let message := buffer.take (buffer.length - tagSize)
    if buffer = message ++ List.replicate tagSize 0 then some message else none

/-- A cipher that only adds a tag opens what it has sealed. -/
theorem Aead.tagged_lawful : Aead.tagged.Lawful where
  length_encrypt _ _ _ message := by
    show (message ++ List.replicate tagSize 0).length = _
    rw [List.length_append, List.length_replicate]
  length_decrypt := by
    intro kind key nonce buffer message h
    dsimp only [Aead.tagged] at h
    split at h
    · next h_tag =>
      cases h
      have h_len := congrArg List.length h_tag
      rw [List.length_append, List.length_replicate] at h_len
      exact h_len.symm
    · cases h
  decrypt_encrypt := by
    intro kind key nonce message
    dsimp only [Aead.tagged]
    rw [List.length_append, List.length_replicate, Nat.add_sub_cancel, List.take_left, if_pos rfl]

/-- `shadowsocks::aead_helper::AeadCipher` -/
structure AeadCipher where
  kind : CipherKind
  key : List UInt8
  nonce : List UInt8
  nlen : ℕ
  deriving DecidableEq

namespace AeadCipher

variable (A : Aead)

def new (kind : CipherKind) (key ivOrSalt : List UInt8) : AeadCipher where
  kind := kind
  key := (A.hkdfSha1 ivOrSalt key).take key.length
  nonce := List.replicate 24 0
  nlen := kind.nonceLen

/-- The carry through the bytes of a nonce. -/
def addCarry : UInt16 → List UInt8 → List UInt8
  | _, [] => []
  | c, b :: bs => (c + b.toUInt16).toUInt8 :: addCarry ((c + b.toUInt16) >>> 8) bs

/-- `increase_nonce`: the first byte is counted up whatever `nlen` is. -/
def increaseNonce (c : AeadCipher) : AeadCipher :=
  let n := max 1 c.nlen
  { c with nonce := addCarry 1 (c.nonce.take n) ++ c.nonce.drop n }

/-- `encrypt`, on a buffer of `message` and room for the tag. -/
def encrypt (c : AeadCipher) (message : List UInt8) : List UInt8 × AeadCipher :=
  (A.encryptInPlace c.kind c.key (c.nonce.take c.nlen) message, c.increaseNonce)

def decrypt (p : Profile) (c : AeadCipher) (buffer : List UInt8) :
    Except Fault (Bool × List UInt8 × AeadCipher) := do
  let (ret, buffer) ← A.decryptInplaceWithSlice p c.kind c.key (c.nonce.take c.nlen) buffer
  return (ret, buffer, c.increaseNonce)

/-! ### The count -/

theorem length_addCarry (c : UInt16) (bs : List UInt8) : (addCarry c bs).length = bs.length := by
  induction bs generalizing c with
  | nil => rfl
  | cons b bs ih => rw [addCarry, List.length_cons, List.length_cons, ih]

/-- The carry adds to the value of the bytes. -/
theorem ofLeBytes_addCarry {c : UInt16} (h_c : c.toNat ≤ 1) (bs : List UInt8) :
    ofLeBytes (addCarry c bs) = (ofLeBytes bs + c.toNat) % 256 ^ bs.length := by
  -- on the bytes, from the lowest; the carry stays at most 1
  induction bs generalizing c with
  | nil => rw [List.length_nil, Nat.pow_zero, Nat.mod_one]; rfl
  | cons b bs ih =>
    have h_b : b.toNat < 256 := b.toNat_lt
    have h_sum : (c + b.toUInt16).toNat = c.toNat + b.toNat := by
      rw [UInt16.toNat_add, UInt8.toNat_toUInt16]
      omega
    have h_low : (c + b.toUInt16).toUInt8.toNat = (c.toNat + b.toNat) % 256 := by
      rw [UInt16.toNat_toUInt8, h_sum]
    have h_high : ((c + b.toUInt16) >>> 8).toNat = (c.toNat + b.toNat) / 256 := by
      rw [UInt16.toNat_shiftRight, h_sum]
      show (c.toNat + b.toNat) >>> 8 = _
      rw [Nat.shiftRight_eq_div_pow]
    have h_carry : ((c + b.toUInt16) >>> 8).toNat ≤ 1 := by
      rw [h_high]
      omega
    -- the lowest byte is the remainder, and the carry is added to the others
    rw [addCarry, ofLeBytes, ofLeBytes, ih h_carry, h_low, h_high, List.length_cons, Nat.pow_succ,
      Nat.mul_comm (256 ^ bs.length) 256, Nat.mod_mul]
    have h_div : (b.toNat + 256 * ofLeBytes bs + c.toNat) / 256 =
        ofLeBytes bs + (c.toNat + b.toNat) / 256 := by omega
    have h_mod : (b.toNat + 256 * ofLeBytes bs + c.toNat) % 256 = (c.toNat + b.toNat) % 256 := by
      omega
    rw [h_div, h_mod]

/-- How often the nonce has been counted up, modulo what it can hold. -/
def count (c : AeadCipher) : ℕ := ofLeBytes (c.nonce.take c.nlen)

/-- A cipher whose nonce holds a count. -/
structure Counts (c : AeadCipher) : Prop where
  nlen_pos : 0 < c.nlen
  nlen_le : c.nlen ≤ c.nonce.length

variable {c : AeadCipher}

theorem Counts.length_carry (h : c.Counts) :
    (addCarry 1 (c.nonce.take c.nlen)).length = c.nlen := by
  rw [length_addCarry, List.length_take_of_le h.nlen_le]

/-- The bytes that count are those that are used. -/
theorem Counts.nonce_increaseNonce (h : c.Counts) :
    c.increaseNonce.nonce = addCarry 1 (c.nonce.take c.nlen) ++ c.nonce.drop c.nlen := by
  have h_max : max 1 c.nlen = c.nlen := Nat.max_eq_right h.nlen_pos
  rw [AeadCipher.increaseNonce, h_max]

/-- A count goes up by one, and the nonce still holds a count. -/
theorem Counts.increaseNonce (h : c.Counts) :
    c.increaseNonce.nonce.take c.nlen = addCarry 1 (c.nonce.take c.nlen) ∧
      c.increaseNonce.Counts := by
  refine ⟨?_, h.nlen_pos, ?_⟩
  · rw [h.nonce_increaseNonce]
    exact List.take_left' h.length_carry
  · rw [h.nonce_increaseNonce, List.length_append, h.length_carry]
    exact Nat.le_add_right _ _

/-- The others stay. -/
theorem Counts.drop_increaseNonce (h : c.Counts) :
    c.increaseNonce.nonce.drop c.nlen = c.nonce.drop c.nlen := by
  rw [h.nonce_increaseNonce]
  exact List.drop_left' h.length_carry

theorem Counts.count_increaseNonce (h : c.Counts) :
    c.increaseNonce.count = (c.count + 1) % 256 ^ c.nlen := by
  show ofLeBytes (c.increaseNonce.nonce.take c.nlen) = _
  have h_one : (1 : UInt16).toNat ≤ 1 := Nat.le_refl 1
  rw [h.increaseNonce.1, ofLeBytes_addCarry h_one, List.length_take_of_le h.nlen_le]
  rfl

/-- The nonce after calls is the number of calls, in as many bytes as it has. -/
theorem counts_iterate (h : c.Counts) (n : ℕ) : (increaseNonce^[n] c).Counts ∧
    (increaseNonce^[n] c).nlen = c.nlen ∧
      (increaseNonce^[n] c).count = (c.count + n) % 256 ^ c.nlen := by
  induction n with
  | zero =>
    have h_lt := ofLeBytes_lt (c.nonce.take c.nlen)
    rw [List.length_take_of_le h.nlen_le] at h_lt
    exact ⟨h, rfl, (Nat.mod_eq_of_lt h_lt).symm⟩
  | succ n ih =>
    obtain ⟨h_n, h_nlen, h_count⟩ := ih
    rw [Function.iterate_succ_apply']
    refine ⟨h_n.increaseNonce.2, h_nlen, ?_⟩
    rw [h_n.count_increaseNonce, h_nlen, h_count, Nat.mod_add_mod, Nat.add_assoc]

theorem iterate_key (c : AeadCipher) (n : ℕ) : (increaseNonce^[n] c).kind = c.kind ∧
    (increaseNonce^[n] c).key = c.key := by
  induction n with
  | zero => exact ⟨rfl, rfl⟩
  | succ n ih =>
    rw [Function.iterate_succ_apply']
    exact ih

/-- A new cipher has made no call. -/
theorem counts_new {A : Aead} {kind : CipherKind} (h_kind : kind ≠ .none) (key salt : List UInt8) :
    (AeadCipher.new A kind key salt).Counts := by
  have h_nlen : kind.nonceLen = 12 := by
    cases kind with
    | none => exact absurd rfl h_kind
    | aes128Gcm | aes256Gcm | chaCha20Poly1305 => rfl
  refine ⟨?_, ?_⟩
  · show 0 < kind.nonceLen
    rw [h_nlen]
    decide
  · show kind.nonceLen ≤ (List.replicate 24 (0 : UInt8)).length
    rw [h_nlen, List.length_replicate]
    decide

end AeadCipher

end V2ray

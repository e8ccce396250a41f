import V2rayRust.Lib.Hmac
import V2rayRust.Lib.Sha256
import V2rayRust.Proxy.Vmess.AeadHeader

/-!
# The VMess key derivation

`proxy/vmess/kdf.rs`: `impl_hmac_with_hasher!` makes a hash of a hash and a key, and
`VmessKdf1`, `VmessKdf2` and `VmessKdf3` are made by it over HMAC-SHA256. A level holds two
states of the level below, one of which has been fed the inner key; whatever the level below
stands for, the new one stands for HMAC over that (`HmacWithHasher.computes_new`), and the
levels follow by using this up to three times.
-/

namespace V2ray

/-- `HmacSha256`, which the `hmac` and `sha2` crates provide; `new_from_slice` takes keys of
every length. -/
structure HmacSha256 (σ : Type) where
  hasher : Hasher σ 32
  newFromSlice : List UInt8 → σ

def ipad : UInt8 := 0x36

def opad : UInt8 := 0x5C

def kdfSaltConstVmessAeadKdf : List UInt8 := "VMess AEAD KDF".toUTF8.toList

/-! ### One level -/

/-- What `impl_hmac_with_hasher!` declares over a hasher. `VmessKdf1` is written out in the
source, and is the same. -/
structure HmacWithHasher (σ : Type) where
  okey : List UInt8
  hasher : σ
  hasherOuter : σ

namespace HmacWithHasher

def blockLen : ℕ := 64

def tagLen : ℕ := 32

/-- `dst[..src.len()].copy_from_slice(src)` -/
def copyFromSlice (dst src : List UInt8) : List UInt8 := src ++ dst.drop src.length

variable {σ : Type} (H : Hasher σ 32)

def new (hasher : σ) (key : List UInt8) : HmacWithHasher σ :=
  let zeros := List.replicate blockLen (0 : UInt8)
  let (ikey, okey) :=
    if key.length > blockLen then
      let hkey := H.finalize (H.update hasher key)
      (copyFromSlice zeros (hkey.take tagLen), copyFromSlice zeros (hkey.take tagLen))
    else (copyFromSlice zeros key, copyFromSlice zeros key)
  { okey := okey.map (· ^^^ opad)
    hasher := H.update hasher (ikey.map (· ^^^ ipad))
    hasherOuter := hasher }

def update (s : HmacWithHasher σ) (m : List UInt8) : HmacWithHasher σ :=
  { s with hasher := H.update s.hasher m }

def finalize (s : HmacWithHasher σ) : List UInt8 :=
  let h1 := H.finalize s.hasher
  H.finalize (H.update (H.update s.hasherOuter s.okey) h1)

/-- A level is a hash again. -/
def level : Hasher (HmacWithHasher σ) 32 where
  update := update H
  finalize := finalize H
  length_finalize _ := H.length_finalize _

variable {H} {s : σ} {f : List UInt8 → List UInt8}

/-- Both keys of a level start from the key block of HMAC. -/
theorem new_eq (h : H.Computes s f) (key : List UInt8) : new H s key =
    { okey := (hmacKey 64 f key).map (· ^^^ opad)
      hasher := H.update s ((hmacKey 64 f key).map (· ^^^ ipad))
      hasherOuter := s } := by
  have h_copy (src : List UInt8) : copyFromSlice (List.replicate blockLen 0) src =
      src ++ List.replicate (64 - src.length) 0 := by
    rw [copyFromSlice, List.drop_replicate]
    rfl
  -- a long key is hashed by a clone of the hasher, which computes `f`
  unfold new hmacKey
  by_cases h_key : 64 < key.length
  · have h_long : key.length > blockLen := h_key
    have h_take : (H.finalize (H.update s key)).take tagLen = f key := by
      rw [h.finalize_update key]
      exact List.take_of_length_le (Nat.le_of_eq (h.length key))
    dsimp only
    rw [if_pos h_long, if_pos h_key, h_take, h_copy]
  · have h_short : ¬key.length > blockLen := h_key
    dsimp only
    rw [if_neg h_short, if_neg h_key, h_copy]

theorem level_feed (t : HmacWithHasher σ) (pieces : List (List UInt8)) :
    (level H).feed t pieces = { t with hasher := H.feed t.hasher pieces } := by
  induction pieces generalizing t with
  | nil => rfl
  | cons m pieces ih => exact ih (update H t m)

/-- **A level is HMAC over the level below.** -/
theorem computes_new (h : H.Computes s f) (key : List UInt8) :
    (level H).Computes (new H s key) (hmac 64 f key) := by
  intro pieces
  -- the inner state has been fed the inner key, and then the pieces
  have h_inner : H.finalize (H.feed (H.update s ((hmacKey 64 f key).map (· ^^^ ipad))) pieces) =
      f ((hmacKey 64 f key).map (· ^^^ ipad) ++ pieces.flatten) :=
    h.update _ pieces
  -- the outer one is fed the outer key and the digest of the inner one
  have h_outer (x : List UInt8) :
      H.finalize (H.update (H.update s ((hmacKey 64 f key).map (· ^^^ opad))) x) =
        f ((hmacKey 64 f key).map (· ^^^ opad) ++ x) :=
    (h.update _).finalize_update x
  rw [level_feed, new_eq h]
  show H.finalize (H.update (H.update s _) (H.finalize _)) = _
  rw [h_inner, h_outer]
  rfl

/-- Whatever a level holds, it is incremental if the level below is. -/
theorem level_incremental (h : H.Incremental) : (level H).Incremental := by
  intro t pieces
  have h_inner : H.finalize (H.feed t.hasher pieces) =
      H.finalize (H.update t.hasher pieces.flatten) := h _ _
  rw [level_feed]
  -- the outer state and its key are as they were
  exact congrArg (fun h1 => H.finalize (H.update (H.update t.hasherOuter t.okey) h1)) h_inner

end HmacWithHasher

/-! ### The levels -/

abbrev VmessKdf1 (σ : Type) := HmacWithHasher σ

/-- `impl_hmac_with_hasher!(VmessKdf2, VmessKdf1)` -/
abbrev VmessKdf2 (σ : Type) := HmacWithHasher (VmessKdf1 σ)

/-- `impl_hmac_with_hasher!(VmessKdf3, VmessKdf2)` -/
abbrev VmessKdf3 (σ : Type) := HmacWithHasher (VmessKdf2 σ)

namespace HmacSha256

variable {σ : Type} (S : HmacSha256 σ)

def kdf1 : Hasher (VmessKdf1 σ) 32 := HmacWithHasher.level S.hasher

def kdf2 : Hasher (VmessKdf2 σ) 32 := HmacWithHasher.level S.kdf1

def kdf3 : Hasher (VmessKdf3 σ) 32 := HmacWithHasher.level S.kdf2

def getVmessKdf1 (key1 : List UInt8) : VmessKdf1 σ :=
  HmacWithHasher.new S.hasher (S.newFromSlice kdfSaltConstVmessAeadKdf) key1

def vmessKdf1OneShot (id key1 : List UInt8) : List UInt8 :=
  let h := S.getVmessKdf1 key1
  let h := S.kdf1.update h id
  S.kdf1.finalize h

def getVmessKdf2 (key1 key2 : List UInt8) : VmessKdf2 σ :=
  HmacWithHasher.new S.kdf1 (S.getVmessKdf1 key1) key2

def getVmessKdf3 (key1 key2 key3 : List UInt8) : VmessKdf3 σ :=
  HmacWithHasher.new S.kdf2 (S.getVmessKdf2 key1 key2) key3

def vmessKdf3OneShot (id key1 key2 key3 : List UInt8) : List UInt8 :=
  let h := S.getVmessKdf3 key1 key2 key3
  let h := S.kdf3.update h id
  S.kdf3.finalize h

/-- HMAC-SHA256 keyed with `"VMess AEAD KDF"`. -/
def keyed (m : List UInt8) : List UInt8 :=
  S.hasher.finalize (S.hasher.update (S.newFromSlice kdfSaltConstVmessAeadKdf) m)

variable {S}

theorem computes_getVmessKdf1 (h : S.hasher.Incremental) (key1 : List UInt8) :
    S.kdf1.Computes (S.getVmessKdf1 key1) (nestedHmac 64 S.keyed [key1]) :=
  HmacWithHasher.computes_new (h.computes _) key1

theorem computes_getVmessKdf2 (h : S.hasher.Incremental) (key1 key2 : List UInt8) :
    S.kdf2.Computes (S.getVmessKdf2 key1 key2) (nestedHmac 64 S.keyed [key1, key2]) :=
  HmacWithHasher.computes_new (computes_getVmessKdf1 h key1) key2

theorem computes_getVmessKdf3 (h : S.hasher.Incremental) (key1 key2 key3 : List UInt8) :
    S.kdf3.Computes (S.getVmessKdf3 key1 key2 key3) (nestedHmac 64 S.keyed [key1, key2, key3]) :=
  HmacWithHasher.computes_new (computes_getVmessKdf2 h key1 key2) key3

theorem kdf1_incremental (h : S.hasher.Incremental) : S.kdf1.Incremental :=
  HmacWithHasher.level_incremental h

theorem kdf2_incremental (h : S.hasher.Incremental) : S.kdf2.Incremental :=
  HmacWithHasher.level_incremental (kdf1_incremental h)

theorem kdf3_incremental (h : S.hasher.Incremental) : S.kdf3.Incremental :=
  HmacWithHasher.level_incremental (kdf2_incremental h)

/-! ### The keys of a header reader -/

/-- `vmess_kdf_1_one_shot` with the path as a string. -/
def kdfOfPath (S : HmacSha256 σ) (id : List UInt8) (path : String) : List UInt8 :=
  S.vmessKdf1OneShot id path.toUTF8.toList

theorem length_vmessKdf1OneShot (S : HmacSha256 σ) (id key1 : List UInt8) :
    (S.vmessKdf1OneShot id key1).length = 32 :=
  S.kdf1.length_finalize _

end HmacSha256

/-! ### Over SHA-256 -/

/-- HMAC-SHA256 is a level over SHA-256. -/
def hmacSha256 : HmacSha256 (HmacWithHasher Sha256) where
  hasher := HmacWithHasher.level sha256
  newFromSlice := HmacWithHasher.new sha256 Sha256.new

theorem hmacSha256_incremental : hmacSha256.hasher.Incremental :=
  HmacWithHasher.level_incremental sha256_incremental

/-- **The key derivation is a nested HMAC**: the one shots are the first and the third level of
HMAC over HMAC-SHA256, and no level depends on how it is fed. -/
theorem vmessKdf_eq_nestedHmac {σ : Type} (S : HmacSha256 σ) (h_inc : S.hasher.Incremental) :
    (∀ id key1, S.vmessKdf1OneShot id key1 = nestedHmac 64 S.keyed [key1] id) ∧
      (∀ id key1 key2 key3, S.vmessKdf3OneShot id key1 key2 key3 =
        nestedHmac 64 S.keyed [key1, key2, key3] id) ∧
      S.kdf1.Incremental ∧ S.kdf2.Incremental ∧ S.kdf3.Incremental := by
  refine ⟨?_, ?_, S.kdf1_incremental h_inc, S.kdf2_incremental h_inc, S.kdf3_incremental h_inc⟩
  · intro id key1
    exact (S.computes_getVmessKdf1 h_inc key1).finalize_update id
  · intro id key1 key2 key3
    exact (S.computes_getVmessKdf3 h_inc key1 key2 key3).finalize_update id

/-- A key that is longer than a block, one that fills it, and a short one. -/
theorem vmessKdf_eq_nestedHmac_lengths :
    hmacSha256.vmessKdf3OneShot [1, 2] (List.replicate 65 3) (List.replicate 64 4) [5] =
        nestedHmac 64 hmacSha256.keyed [List.replicate 65 3, List.replicate 64 4, [5]] [1, 2] ∧
      hmacSha256.kdf3.Incremental :=
  have h := vmessKdf_eq_nestedHmac hmacSha256 hmacSha256_incremental
  ⟨h.2.1 _ _ _ _, h.2.2.2.2⟩

-- `test_vmess_kdf`
example :
    hmacSha256.vmessKdf3OneShot "1234567890123456".toUTF8.toList
        "VMess Header AEAD Key_Length".toUTF8.toList "AEAD Resp Header Len IV".toUTF8.toList
        "AEAD Resp Header Len Key".toUTF8.toList =
      [0x27, 0x45, 0x93, 0x4f, 0x3b, 0x98, 0x7d, 0x07, 0x7b, 0x40, 0x82, 0xec, 0x0f, 0x76, 0x06,
        0x0f, 0x33, 0xd7, 0xf4, 0xd8, 0x9d, 0xd1, 0x72, 0xf4, 0x34, 0xc2, 0x75, 0xbf, 0x91, 0xb1,
        0x36, 0x0b] := by
  decide +kernel

end V2ray

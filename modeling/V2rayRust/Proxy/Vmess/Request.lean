import V2rayRust.Proxy.AddressText
import V2rayRust.Proxy.Builder
import V2rayRust.Proxy.Vmess.Kdf
import V2rayRust.Proxy.Vmess.VmessStream

/-!
# The VMess request

`create_auth_id` and `seal_vmess_aead_header` of `proxy/vmess/aead_header.rs`, and
`construct_header_data` of `proxy/vmess/vmess_stream.rs`: what a client sends before its first
chunk. A server that knows the id of the user gets the keys, the command and the address out of it,
whatever was drawn for it and whatever follows it (`openRequest_sealed`).
-/

namespace V2ray

/-! ### The checksum -/

/-- `Fnv1aHasher` -/
structure Fnv1aHasher where
  hash : UInt32

namespace Fnv1aHasher

def default : Fnv1aHasher := ⟨0x811c9dc5⟩

def write (h : Fnv1aHasher) (bytes : List UInt8) : Fnv1aHasher :=
  ⟨bytes.foldl (fun hash byte => (hash ^^^ byte.toUInt32) * 0x01000193) h.hash⟩

def finish (h : Fnv1aHasher) : UInt64 := h.hash.toUInt64

end Fnv1aHasher

-- the test vectors of FNV-1a
example : ((Fnv1aHasher.default.write "foobar".toUTF8.toList).finish = 0xbf9cf968) := by
  decide +kernel

/-! ### Sealing -/

/-- What the crates provide for a header: CRC-32, AES-128 on one block, and AES-128-GCM with the
data that it authenticates besides. Keys and nonces come first. -/
structure HeaderCrypto where
  crc32 : List UInt8 → UInt32
  encryptBlock : List UInt8 → List UInt8 → List UInt8
  decryptBlock : List UInt8 → List UInt8 → List UInt8
  /-- key, nonce, authenticated data, message -/
  encryptInPlace : List UInt8 → List UInt8 → List UInt8 → List UInt8 → List UInt8
  /-- key, nonce, authenticated data, sealed message -/
  decryptInPlace : List UInt8 → List UInt8 → List UInt8 → List UInt8 → Option (List UInt8)

/-- A block is decrypted to what was encrypted, and a message is opened that was sealed. -/
structure HeaderCrypto.Lawful (C : HeaderCrypto) : Prop where
  length_encryptBlock : ∀ key block, block.length = 16 → (C.encryptBlock key block).length = 16
  decrypt_encryptBlock : ∀ key block, key.length = 16 → block.length = 16 →
    C.decryptBlock key (C.encryptBlock key block) = block
  length_encrypt : ∀ key nonce aad message,
    (C.encryptInPlace key nonce aad message).length = message.length + tagSize
  decrypt_encrypt : ∀ key nonce aad message,
    C.decryptInPlace key nonce aad (C.encryptInPlace key nonce aad message) = some message

/-- What a request header is sealed with. -/
structure RequestCrypto (σ : Type) where
  kdf : HmacSha256 σ
  header : HeaderCrypto
  digests : Digests
  kdf1_eq : digests.vmessKdf1 = kdf.kdfOfPath

/-- What is drawn for a header, and the time in seconds. -/
structure HeaderDraws where
  /-- `random::<u8>()` -/
  random : UInt8
  padding : Vector UInt8 16
  time : UInt64
  randomBytes : Vector UInt8 4
  connectionNonce : Vector UInt8 8

namespace RequestCrypto

variable {σ : Type} (K : RequestCrypto σ)

/-- `vmess_kdf_1_one_shot` of the command key -/
def authIdKey (cmdKey : List UInt8) : List UInt8 :=
  (K.kdf.kdfOfPath cmdKey "AES Auth ID Encryption").take 16

/-- `vmess_kdf_3_one_shot`, with the first path as a string -/
def kdf3 (cmdKey : List UInt8) (path : String) (authId nonce : List UInt8) : List UInt8 :=
  K.kdf.vmessKdf3OneShot cmdKey path.toUTF8.toList authId nonce

/-- `create_auth_id`; both callers pass the eight bytes of a time. -/
def createAuthId (cmdKey : List UInt8) (time : UInt64) (randomBytes : Vector UInt8 4) :
    List UInt8 :=
  let buf := beBytes 8 time.toNat ++ randomBytes.toList
  let zero := K.header.crc32 buf
  let buf := buf ++ beBytes 4 zero.toNat
  K.header.encryptBlock (K.authIdKey cmdKey) buf

/-- `seal_vmess_aead_header` -/
def sealVmessAeadHeader (cmdKey data : List UInt8) (d : HeaderDraws) : List UInt8 :=
  let generatedAuthId := K.createAuthId cmdKey d.time d.randomBytes
  let connectionNonce := d.connectionNonce.toList
  let payloadHeaderLengthAeadkey :=
    K.kdf3 cmdKey "VMess Header AEAD Key_Length" generatedAuthId connectionNonce
  let payloadHeaderLengthAeadNonce :=
    K.kdf3 cmdKey "VMess Header AEAD Nonce_Length" generatedAuthId connectionNonce
  let sealedLength := K.header.encryptInPlace (payloadHeaderLengthAeadkey.take 16)
    (payloadHeaderLengthAeadNonce.take 12) generatedAuthId (beBytes 2 data.length)
  let payloadHeaderAeadKey :=
    K.kdf3 cmdKey "VMess Header AEAD Key" generatedAuthId connectionNonce
  let payloadHeaderAeadNonce :=
    K.kdf3 cmdKey "VMess Header AEAD Nonce" generatedAuthId connectionNonce
  let sealedData := K.header.encryptInPlace (payloadHeaderAeadKey.take 16)
    (payloadHeaderAeadNonce.take 12) generatedAuthId data
  generatedAuthId ++ (sealedLength ++ (connectionNonce ++ sealedData))

/-- `md5!(uuid.as_bytes(), b"c48619fe-8f02-49e0-b9e9-edf763e17e21")` -/
def cmdKey (uuid : BitVec 128) : List UInt8 :=
  K.digests.md5 (beBytes 16 uuid.toNat ++ "c48619fe-8f02-49e0-b9e9-edf763e17e21".toUTF8.toList)

end RequestCrypto

/-! ### What is sealed -/

def version : UInt8 := 1

def optChunkStream : UInt8 := 1

def commandUdp : UInt8 := 0x02

def commandTcp : UInt8 := 0x01

/-- `salt[0..16]` -/
def reqBodyIv (salt : Vector UInt8 64) : List UInt8 := salt.toList.take 16

/-- What is behind the keys of a request. -/
def commandBytes (option : VmessOption) (salt : Vector UInt8 64) (d : HeaderDraws) : List UInt8 :=
  let x := d.random % 16
  salt.get 32 :: optChunkStream :: ((x <<< 4) ||| option.securityNum) :: 0 ::
    (if option.isUdp then commandUdp else commandTcp) ::
    (option.addr.writeToBufVmess ++ if 0 < x then d.padding.toList.take x.toNat else [])

/-- The bytes of a request before its checksum. -/
def requestBytes (option : VmessOption) (salt : Vector UInt8 64) (d : HeaderDraws) : List UInt8 :=
  version :: (reqBodyIv salt ++ (reqBodyKey salt ++ commandBytes option salt d))

/-- `construct_header_data`, which makes `header_buffer`. `salt` is what was drawn for the stream,
as `respv` was taken of it before the body keys of the response went over it. -/
def RequestCrypto.constructHeaderData {σ : Type} (K : RequestCrypto σ) (option : VmessOption)
    (salt : Vector UInt8 64) (d : HeaderDraws) : List UInt8 :=
  let buf := requestBytes option salt d
  let hasher := Fnv1aHasher.default.write buf
  let buf := buf ++ beBytes 4 hasher.finish.toUInt32.toNat
  K.sealVmessAeadHeader (K.cmdKey option.uuid) buf d

/-! ### What a server makes of it -/

/-- What a request asks for. -/
structure VmessRequest where
  iv : List UInt8
  key : List UInt8
  respv : UInt8
  opt : UInt8
  security : UInt8
  command : UInt8
  addr : Address
  deriving DecidableEq

/-- A request and the checksum behind it, less the version and the two keys. -/
def parseCommand (data iv key : List UInt8) : List UInt8 → Option VmessRequest
  | respv :: opt :: pad :: _ :: command :: bs =>
    (Address.parseVmess bs).bind fun (addr, tail) =>
      if tail.length = (pad >>> 4).toNat + 4 ∧
          tail.drop (pad >>> 4).toNat = beBytes 4
            (Fnv1aHasher.default.write (data.take (data.length - 4))).hash.toNat then
        some ⟨iv, key, respv, opt, pad &&& 0x0F, command, addr⟩
      else none
  | _ => none

def parseRequest (data : List UInt8) : Option VmessRequest :=
  if data.head? = some version ∧ 33 ≤ data.length then
    parseCommand data ((data.drop 1).take 16) ((data.drop 17).take 16) (data.drop 33)
  else none

namespace RequestCrypto

variable {σ : Type} (K : RequestCrypto σ)

/-- The time in an authentication id, if it is one of the user. -/
def openAuthId (cmdKey authId : List UInt8) : Option ℕ :=
  let block := K.header.decryptBlock (K.authIdKey cmdKey) authId
  if block.drop 12 = beBytes 4 (K.header.crc32 (block.take 12)).toNat then
    some (ofBeBytes (block.take 8))
  else none

/-- The header at the front of some bytes, and what comes after it. -/
def openVmessAeadHeader (cmdKey wire : List UInt8) : Option (List UInt8 × List UInt8) := do
  let authId := wire.take 16
  let _ ← K.openAuthId cmdKey authId
  let connectionNonce := (wire.drop 34).take 8
  let length ← K.header.decryptInPlace
    ((K.kdf3 cmdKey "VMess Header AEAD Key_Length" authId connectionNonce).take 16)
    ((K.kdf3 cmdKey "VMess Header AEAD Nonce_Length" authId connectionNonce).take 12) authId
    ((wire.drop 16).take 18)
  let n := ofBeBytes length + 16
  if wire.length < 42 + n then none
  else
    let data ← K.header.decryptInPlace
      ((K.kdf3 cmdKey "VMess Header AEAD Key" authId connectionNonce).take 16)
      ((K.kdf3 cmdKey "VMess Header AEAD Nonce" authId connectionNonce).take 12) authId
      ((wire.drop 42).take n)
    return (data, wire.drop (42 + n))

/-- The request of the user at the front of some bytes, and what comes after it. -/
def openRequest (uuid : BitVec 128) (wire : List UInt8) : Option (VmessRequest × List UInt8) :=
  (K.openVmessAeadHeader (K.cmdKey uuid) wire).bind fun (data, later) =>
    (parseRequest data).map fun request => (request, later)

end RequestCrypto

/-! ### The round trip -/

/-- The nibbles of the byte that holds the length of the padding and the security. -/
theorem nibbles {x s : UInt8} (h_x : x < 16) (h_s : s < 16) :
    ((x <<< 4) ||| s) >>> 4 = x ∧ ((x <<< 4) ||| s) &&& 0x0F = s := by
  have h_all : ∀ x s : Fin 16,
      ((UInt8.ofNat x <<< 4) ||| UInt8.ofNat s) >>> 4 = UInt8.ofNat x ∧
        ((UInt8.ofNat x <<< 4) ||| UInt8.ofNat s) &&& 0x0F = UInt8.ofNat s := by
    decide +kernel
  have h := h_all ⟨x.toNat, UInt8.lt_iff_toNat_lt.mp h_x⟩ ⟨s.toNat, UInt8.lt_iff_toNat_lt.mp h_s⟩
  rwa [UInt8.ofNat_toNat, UInt8.ofNat_toNat] at h

/-- What a server should get of a request. -/
def requestOf (option : VmessOption) (salt : Vector UInt8 64) : VmessRequest where
  iv := reqBodyIv salt
  key := reqBodyKey salt
  respv := salt.get 32
  opt := optChunkStream
  security := option.securityNum
  command := if option.isUdp then commandUdp else commandTcp
  addr := option.addr.onWire

variable {σ : Type} {K : RequestCrypto σ}

theorem length_createAuthId (h : K.header.Lawful) (cmdKey : List UInt8) (time : UInt64)
    (randomBytes : Vector UInt8 4) : (K.createAuthId cmdKey time randomBytes).length = 16 := by
  apply h.length_encryptBlock
  rw [List.length_append, List.length_append, length_beBytes, length_beBytes,
    Vector.length_toList]

theorem length_authIdKey (K : RequestCrypto σ) (cmdKey : List UInt8) :
    (K.authIdKey cmdKey).length = 16 :=
  List.length_take_of_le
    (Nat.le_trans (by decide) (K.kdf.length_vmessKdf1OneShot _ _).ge)

/-- The server gets the time out of an authentication id. -/
theorem openAuthId_createAuthId (h : K.header.Lawful) (cmdKey : List UInt8) (time : UInt64)
    (randomBytes : Vector UInt8 4) :
    K.openAuthId cmdKey (K.createAuthId cmdKey time randomBytes) = some time.toNat := by
  have h_time : (beBytes 8 time.toNat ++ randomBytes.toList).length = 12 := by
    rw [List.length_append, length_beBytes, Vector.length_toList]
  have h_block := h.decrypt_encryptBlock (K.authIdKey cmdKey)
    (beBytes 8 time.toNat ++ randomBytes.toList ++
      beBytes 4 (K.header.crc32 (beBytes 8 time.toNat ++ randomBytes.toList)).toNat)
    (length_authIdKey K cmdKey) (by rw [List.length_append, h_time, length_beBytes])
  unfold RequestCrypto.openAuthId RequestCrypto.createAuthId
  dsimp only
  rw [h_block, List.drop_left' h_time, List.take_left' h_time, if_pos rfl, List.append_assoc,
    List.take_left' (length_beBytes 8 _), ofBeBytes_beBytes]
  exact congrArg some (Nat.mod_eq_of_lt time.toNat_lt)

/-- **A sealed header** is opened to the data, whatever follows it. -/
theorem openVmessAeadHeader_seal (h : K.header.Lawful) (cmdKey : List UInt8) {data : List UInt8}
    (h_data : data.length < 65536) (d : HeaderDraws) (later : List UInt8) :
    K.openVmessAeadHeader cmdKey (K.sealVmessAeadHeader cmdKey data d ++ later) =
      some (data, later) := by
  have h_id := length_createAuthId h cmdKey d.time d.randomBytes
  have h_open := openAuthId_createAuthId h cmdKey d.time d.randomBytes
  unfold RequestCrypto.sealVmessAeadHeader
  dsimp only
  generalize K.createAuthId cmdKey d.time d.randomBytes = authId at h_id h_open ⊢
  have h_nonce : d.connectionNonce.toList.length = 8 := Vector.length_toList
  generalize d.connectionNonce.toList = nonce at h_nonce ⊢
  generalize h_len : K.header.encryptInPlace
    ((K.kdf3 cmdKey "VMess Header AEAD Key_Length" authId nonce).take 16)
    ((K.kdf3 cmdKey "VMess Header AEAD Nonce_Length" authId nonce).take 12) authId
    (beBytes 2 data.length) = lenBox
  generalize h_box : K.header.encryptInPlace
    ((K.kdf3 cmdKey "VMess Header AEAD Key" authId nonce).take 16)
    ((K.kdf3 cmdKey "VMess Header AEAD Nonce" authId nonce).take 12) authId data = box
  have h_lenBox : lenBox.length = 18 := by
    rw [← h_len, h.length_encrypt, length_beBytes]
    rfl
  have h_dataBox : box.length = data.length + 16 := by
    rw [← h_box, h.length_encrypt]
    rfl
  -- the parts stand at fixed places
  have h_wire : (authId ++ (lenBox ++ (nonce ++ box)) ++ later) =
      authId ++ (lenBox ++ (nonce ++ (box ++ later))) := by
    simp only [List.append_assoc]
  have h_16 : (authId ++ (lenBox ++ (nonce ++ (box ++ later)))).drop 16 =
      lenBox ++ (nonce ++ (box ++ later)) := List.drop_left' h_id
  have h_34 : (authId ++ (lenBox ++ (nonce ++ (box ++ later)))).drop 34 =
      nonce ++ (box ++ later) := by
    rw [show 34 = 16 + 18 from rfl, ← List.drop_drop, h_16, List.drop_left' h_lenBox]
  have h_42 : (authId ++ (lenBox ++ (nonce ++ (box ++ later)))).drop 42 = box ++ later := by
    rw [show 42 = 34 + 8 from rfl, ← List.drop_drop, h_34, List.drop_left' h_nonce]
  have h_n : ofBeBytes (beBytes 2 data.length) + 16 = box.length := by
    rw [ofBeBytes_beBytes, h_dataBox]
    exact congrArg (· + 16) (Nat.mod_eq_of_lt h_data)
  have h_enough : ¬ (authId ++ (lenBox ++ (nonce ++ (box ++ later)))).length < 42 + box.length := by
    simp only [List.length_append]
    omega
  unfold RequestCrypto.openVmessAeadHeader
  rw [h_wire]
  dsimp only
  rw [List.take_left' h_id, h_open, h_34, List.take_left' h_nonce, h_16, List.take_left' h_lenBox,
    ← h_len, h.decrypt_encrypt]
  show (if (authId ++ _).length < 42 + (ofBeBytes (beBytes 2 data.length) + 16) then none
    else _) = _
  rw [h_len, h_n, if_neg h_enough, ← List.drop_drop, h_42, List.take_left' rfl, ← h_box,
    h.decrypt_encrypt, h_box, List.drop_left' rfl]
  rfl

theorem length_reqBodyIv (salt : Vector UInt8 64) : (reqBodyIv salt).length = 16 := by
  unfold reqBodyIv
  rw [List.length_take, Vector.length_toList]
  rfl

theorem length_reqBodyKey (salt : Vector UInt8 64) : (reqBodyKey salt).length = 16 := by
  unfold reqBodyKey
  rw [List.length_take, List.length_drop, Vector.length_toList]
  rfl

/-- The padding is as long as the four bits say. -/
theorem length_padding (d : HeaderDraws) :
    (if 0 < d.random % 16 then d.padding.toList.take (d.random % 16).toNat else []).length =
      (d.random % 16).toNat := by
  have h_x : (d.random % 16).toNat < 16 := by
    rw [UInt8.toNat_mod]
    exact Nat.mod_lt _ (by decide)
  split
  · rw [List.length_take, Vector.length_toList]
    exact Nat.min_eq_left (Nat.le_of_lt h_x)
  · next h_zero =>
    have h_le : (d.random % 16).toNat ≤ 0 :=
      Nat.le_of_not_lt fun h => h_zero (UInt8.lt_iff_toNat_lt.mpr h)
    exact (Nat.le_zero.mp h_le).symm

/-- **A request** is read as what was asked for, with any padding. -/
theorem parseRequest_requestBytes {option : VmessOption} (h_addr : option.addr.Faithful)
    (h_security : option.securityNum < 16) (salt : Vector UInt8 64) (d : HeaderDraws) :
    parseRequest (requestBytes option salt d ++ beBytes 4
      (Fnv1aHasher.default.write (requestBytes option salt d)).hash.toNat) =
      some (requestOf option salt) := by
  have h_iv := length_reqBodyIv salt
  have h_key := length_reqBodyKey salt
  generalize h_sum : beBytes 4 (Fnv1aHasher.default.write (requestBytes option salt d)).hash.toNat =
    sum
  have h_sum_len : sum.length = 4 := by
    rw [← h_sum, length_beBytes]
  -- the checksum is over all that is before it
  have h_body : ((requestBytes option salt d ++ sum).take
      ((requestBytes option salt d ++ sum).length - 4)) = requestBytes option salt d := by
    rw [List.length_append, h_sum_len, Nat.add_sub_cancel, List.take_left' rfl]
  have h_head : (requestBytes option salt d ++ sum).head? = some version := rfl
  have h_1 : (requestBytes option salt d ++ sum).drop 1 =
      reqBodyIv salt ++ (reqBodyKey salt ++ (commandBytes option salt d ++ sum)) := by
    rw [requestBytes, List.cons_append, List.append_assoc, List.append_assoc]
    rfl
  have h_17 : (requestBytes option salt d ++ sum).drop 17 =
      reqBodyKey salt ++ (commandBytes option salt d ++ sum) := by
    rw [show 17 = 1 + 16 from rfl, ← List.drop_drop, h_1, List.drop_left' h_iv]
  have h_33 : (requestBytes option salt d ++ sum).drop 33 = commandBytes option salt d ++ sum := by
    rw [show 33 = 17 + 16 from rfl, ← List.drop_drop, h_17, List.drop_left' h_key]
  have h_len : 33 ≤ (requestBytes option salt d ++ sum).length := by
    rw [requestBytes, List.length_append, List.length_cons, List.length_append,
      List.length_append, h_iv, h_key]
    omega
  have h_x : d.random % 16 < 16 := by
    rw [UInt8.lt_iff_toNat_lt, UInt8.toNat_mod]
    exact Nat.mod_lt _ (by decide)
  obtain ⟨h_pad, h_sec⟩ := nibbles h_x h_security
  have h_padding := length_padding d
  unfold parseRequest
  rw [if_pos ⟨h_head, h_len⟩, h_1, List.take_left' h_iv, h_17, List.take_left' h_key, h_33]
  unfold commandBytes
  dsimp only
  generalize d.random % 16 = x at h_pad h_sec h_padding ⊢
  generalize (if 0 < x then d.padding.toList.take x.toNat else []) = padding at h_padding ⊢
  simp only [List.cons_append, List.append_assoc]
  unfold parseCommand
  dsimp only
  rw [h_addr.parseVmess_eq, Option.bind_some, h_body]
  dsimp only
  rw [h_pad, h_sec, if_pos ⟨by rw [List.length_append, h_padding, h_sum_len],
    by rw [List.drop_left' h_padding, h_sum]⟩]
  rfl

/-- A header fits its length field when its name fits. -/
theorem length_writeToBufVmess_le {a : Address} (h : a.onWire.Encodable) :
    a.writeToBufVmess.length ≤ 259 := by
  cases a with
  | socketAddress addr =>
    cases addr with
    | v4 ip port =>
      show (beBytes 2 port.toNat ++ 1 :: beBytes 4 ip.toNat).length ≤ 259
      rw [List.length_append, List.length_cons, length_beBytes, length_beBytes]
      decide
    | v6 ip port flowinfo scopeId =>
      show (beBytes 2 port.toNat ++ 3 :: beBytes 16 ip.toNat).length ≤ 259
      rw [List.length_append, List.length_cons, length_beBytes, length_beBytes]
      decide
  | domainNameAddress name port =>
    have h_size : name.toUTF8.size ≤ 255 := h
    show (beBytes 2 port.toNat ++
      2 :: UInt8.ofNat name.toUTF8.size :: name.toUTF8.toList).length ≤ 259
    rw [List.length_append, List.length_cons, List.length_cons, length_beBytes,
      length_toUTF8_toList]
    omega

/-- A request has at most 312 bytes. -/
theorem length_requestBytes_le {option : VmessOption} (h_addr : option.addr.onWire.Encodable)
    (salt : Vector UInt8 64) (d : HeaderDraws) : (requestBytes option salt d).length ≤ 312 := by
  have h_x : (d.random % 16).toNat < 16 := by
    rw [UInt8.toNat_mod]
    exact Nat.mod_lt _ (by decide)
  have h_padding := length_padding d
  have h_name := length_writeToBufVmess_le h_addr
  rw [requestBytes, List.length_cons, List.length_append, List.length_append,
    length_reqBodyIv, length_reqBodyKey]
  unfold commandBytes
  dsimp only
  simp only [List.length_cons, List.length_append]
  omega

/-- The bytes that sealing adds. -/
theorem length_sealVmessAeadHeader (h : K.header.Lawful) (cmdKey data : List UInt8)
    (d : HeaderDraws) : (K.sealVmessAeadHeader cmdKey data d).length = data.length + 58 := by
  unfold RequestCrypto.sealVmessAeadHeader
  dsimp only
  rw [List.length_append, List.length_append, List.length_append, length_createAuthId h,
    h.length_encrypt, h.length_encrypt, length_beBytes, Vector.length_toList]
  unfold tagSize
  omega

/-- A request header, padding and tags and all. -/
theorem length_constructHeaderData_le (h : K.header.Lawful) {option : VmessOption}
    (h_addr : option.addr.onWire.Encodable) (salt : Vector UInt8 64) (d : HeaderDraws) :
    (K.constructHeaderData option salt d).length ≤ 374 := by
  have h_len := length_requestBytes_le h_addr salt d
  unfold RequestCrypto.constructHeaderData
  dsimp only
  rw [length_sealVmessAeadHeader h, List.length_append, length_beBytes]
  omega

/-- **The server gets what was asked for**, whatever was drawn and whatever comes after. -/
theorem openRequest_sealed (h : K.header.Lawful) {option : VmessOption}
    (h_addr : option.addr.onWire.Encodable) (h_security : option.securityNum < 16)
    (salt : Vector UInt8 64) (d : HeaderDraws) (later : List UInt8) :
    K.openRequest option.uuid (K.constructHeaderData option salt d ++ later) =
      some (requestOf option salt, later) := by
  have h_faithful := (Address.faithful_iff_encodable option.addr).mpr h_addr
  have h_hash (x : Fnv1aHasher) : x.finish.toUInt32 = x.hash := UInt32.toUInt32_toUInt64 x.hash
  have h_len := length_requestBytes_le h_addr salt d
  unfold RequestCrypto.openRequest RequestCrypto.constructHeaderData
  dsimp only
  rw [h_hash, openVmessAeadHeader_seal h, Option.bind_some,
    parseRequest_requestBytes h_faithful h_security]
  · rfl
  · rw [List.length_append, length_beBytes]
    omega

end V2ray

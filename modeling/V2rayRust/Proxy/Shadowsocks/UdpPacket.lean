import V2rayRust.Proxy.AddressWire
import V2rayRust.Proxy.Shadowsocks.Aead
import V2rayRust.Proxy.Shadowsocks.UdpCryptoIo

/-!
# Packets of a Shadowsocks datagram

`decrypt_payload` of `proxy/shadowsocks/udp_crypto_io.rs`: a packet is opened where it is, its
address is read, and the payload is moved over what came before it. What `encrypt_payload` makes of
an address and a payload comes back as these (`decryptPayload_encryptPayload`).
-/

namespace V2ray

/-- `slice::copy_within(start..stop, dest)` -/
def copyWithin {α : Type} (slice : List α) (start stop dest : ℕ) : Except Fault (List α) :=
  if start ≤ stop ∧ stop ≤ slice.length ∧ dest ≤ slice.length - (stop - start) then
    .ok (slice.take dest ++ (slice.drop start).take (stop - start) ++
      slice.drop (dest + (stop - start)))
  else .error .outOfBounds

/-- A computation on a buffer, which is there also after an error. -/
abbrev OnBuffer := ExceptT Stop (StateM (List UInt8))

namespace OnBuffer

def err {α : Type} (message : String) : OnBuffer α := throw (.err message)

/-- A computation that leaves the buffer as it is. -/
def lift {α : Type} (x : Except Fault α) : OnBuffer α := fun b => (x.mapError Stop.fault, b)

end OnBuffer

section Decrypt

variable (A : Aead) (p : Profile) (method : CipherKind) (key : List UInt8)

/-- `Address::read_from_cursor` on all of `buf`: how far it has come, and the address. -/
def parsePacket (buf : List UInt8) : OnBuffer (ℕ × Address) :=
  match Address.readFromCursor buf with
  | .ok (address, rest) => return (buf.length - rest.length, address)
  | .error (.fault f) => throw (.fault f)
  | .error (.err _) => OnBuffer.err "parse udp packet Address failed"

/-- `decrypt_payload_aead` -/
def decryptPayloadAead : OnBuffer (ℕ × Address) := do
  let payload ← get
  let saltLen := method.saltLen
  if payload.length < saltLen then OnBuffer.err "udp packet too short for salt"
  else
    let (salt, data) := payload.splitAt saltLen
    let cipher := AeadCipher.new A method key salt
    if data.length < method.tagLen then OnBuffer.err "udp packet too short for tag"
    else
      let (opened, data, _) ← OnBuffer.lift (cipher.decrypt A p data)
      set (salt ++ data)
      if opened then
        -- Truncate TAG
        let dataLen := data.length - method.tagLen
        let (dn, addr) ← parsePacket (data.take dataLen)
        let dataLength ← OnBuffer.lift (p.sub 64 dataLen dn)
        let dataStartIdx := saltLen + dn
        let dataEndIdx := dataStartIdx + dataLength
        set (← OnBuffer.lift (copyWithin (salt ++ data) dataStartIdx dataEndIdx 0))
        return (dataLength, addr)
      else OnBuffer.err "invalid tag-in"

/-- `decrypt_payload`: the length of the payload, and its address. -/
def decryptPayload : OnBuffer (ℕ × Address) :=
  match method with
  | .none => do
    let payload ← get
    let (pos, address) ← parsePacket payload
    set (← OnBuffer.lift (copyWithin payload pos payload.length 0))
    return (← OnBuffer.lift (p.sub 64 payload.length pos), address)
  | _ => decryptPayloadAead A p method key

end Decrypt

/-! ### Packets -/

variable {A : Aead} {p : Profile} {method : CipherKind} {key salt payload : List UInt8}
  {addr : Address}

/-- What comes from behind to the front. -/
theorem copyWithin_front {α : Type} (before part after : List α) :
    copyWithin (before ++ part ++ after) before.length (before.length + part.length) 0 =
      .ok (part ++ (before ++ part ++ after).drop part.length) := by
  have h_bound : before.length + part.length ≤ (before ++ part ++ after).length := by
    rw [List.length_append, List.length_append]
    exact Nat.le_add_right _ _
  have h_part : ((before ++ part ++ after).drop before.length).take part.length = part := by
    rw [List.append_assoc, List.drop_left, List.take_left]
  unfold copyWithin
  rw [if_pos ⟨Nat.le_add_right _ _, h_bound, Nat.zero_le _⟩, Nat.add_sub_cancel_left, h_part,
    List.take_zero, List.nil_append, Nat.zero_add]

namespace OnBuffer

variable {α β : Type} {b : List UInt8}

theorem get_bind (f : List UInt8 → OnBuffer β) : (get >>= f : OnBuffer β) b = f b b := rfl

theorem set_bind (b' : List UInt8) (f : PUnit → OnBuffer β) :
    (set b' >>= f : OnBuffer β) b = f ⟨⟩ b' := rfl

theorem lift_bind {x : Except Fault α} {a : α} (h : x = .ok a) (f : α → OnBuffer β) :
    (lift x >>= f) b = f a b := by
  rw [h]
  rfl

theorem bind_of_ok {x : OnBuffer α} {a : α} {b' : List UInt8} (h : x b = (.ok a, b'))
    (f : α → OnBuffer β) : (x >>= f) b = f a b' := by
  show (ExceptT.bindCont f (x b).1) (x b).2 = _
  rw [h]
  rfl

end OnBuffer

/-- An address that can be encoded, and what comes after it. -/
theorem parsePacket_writeToBuf (h : addr.Encodable) (payload b : List UInt8) :
    parsePacket (addr.writeToBuf ++ payload) b = (.ok (addr.writeToBuf.length, addr), b) := by
  unfold parsePacket
  rw [Address.readFromCursor_writeToBuf h]
  dsimp only
  rw [List.length_append, Nat.add_sub_cancel]
  rfl

/-- A packet that is not sealed. -/
theorem decryptPayload_none (h_addr : addr.Encodable) (payload : List UInt8) :
    ∃ rest, decryptPayload A p .none key (addr.writeToBuf ++ payload) =
      (.ok (payload.length, addr), payload ++ rest) := by
  have h_len : (addr.writeToBuf ++ payload).length - addr.writeToBuf.length = payload.length := by
    rw [List.length_append, Nat.add_sub_cancel_left]
  have h_le : addr.writeToBuf.length ≤ (addr.writeToBuf ++ payload).length := by
    rw [List.length_append]
    exact Nat.le_add_right _ _
  have h_copy := copyWithin_front addr.writeToBuf payload []
  rw [List.append_nil, ← List.length_append] at h_copy
  refine ⟨(addr.writeToBuf ++ payload).drop payload.length, ?_⟩
  unfold decryptPayload
  dsimp only
  rw [OnBuffer.get_bind, OnBuffer.bind_of_ok (parsePacket_writeToBuf h_addr payload _)]
  dsimp only
  rw [OnBuffer.lift_bind h_copy, OnBuffer.set_bind,
    OnBuffer.lift_bind (Profile.sub_of_le h_le), h_len]
  rfl

/-- A packet that opens: the address and the payload are before the tag. -/
theorem decryptPayloadAead_of_open (h : A.InPlace) {box : List UInt8}
    (h_salt : salt.length = method.saltLen) (h_addr : addr.Encodable)
    (h_open : A.decryptInPlace (AeadCipher.new A method key salt).kind
      (AeadCipher.new A method key salt).key
      ((AeadCipher.new A method key salt).nonce.take (AeadCipher.new A method key salt).nlen) box =
        some (addr.writeToBuf ++ payload)) :
    ∃ rest, decryptPayloadAead A p method key (salt ++ box) =
      (.ok (payload.length, addr), payload ++ rest) := by
  have h_box := h.length_decrypt h_open
  have h_dec := AeadCipher.decrypt_of_open (p := p) h h_open
  -- the buffer after it: what was sealed, and the tag
  generalize h_tag : box.drop (addr.writeToBuf ++ payload).length = tag at h_dec
  have h_tag_len : tag.length = method.tagLen := by
    rw [← h_tag, List.length_drop, ← h_box, Nat.add_sub_cancel_left]
    rfl
  have h_split : (salt ++ box).splitAt method.saltLen = (salt, box) := by
    rw [List.splitAt_eq, ← h_salt, List.take_left, List.drop_left]
  have h_long : ¬ (salt ++ box).length < method.saltLen := by
    rw [List.length_append, h_salt]
    exact Nat.not_lt_of_le (Nat.le_add_right _ _)
  have h_box_long : ¬ box.length < method.tagLen := by
    rw [← h_box]
    exact Nat.not_lt_of_le (Nat.le_add_left tagSize _)
  have h_data : (addr.writeToBuf ++ payload ++ tag).length - method.tagLen =
      (addr.writeToBuf ++ payload).length := by
    rw [List.length_append, h_tag_len, Nat.add_sub_cancel]
  have h_len : p.sub 64 (addr.writeToBuf ++ payload).length addr.writeToBuf.length =
      .ok payload.length := by
    have h_le : addr.writeToBuf.length ≤ (addr.writeToBuf ++ payload).length := by
      rw [List.length_append]
      exact Nat.le_add_right _ _
    rw [Profile.sub_of_le h_le, List.length_append, Nat.add_sub_cancel_left]
  have h_copy := copyWithin_front (salt ++ addr.writeToBuf) payload tag
  rw [List.length_append, h_salt, List.append_assoc salt, List.append_assoc salt] at h_copy
  refine ⟨(salt ++ (addr.writeToBuf ++ payload ++ tag)).drop payload.length, ?_⟩
  unfold decryptPayloadAead
  rw [OnBuffer.get_bind]
  dsimp only
  rw [if_neg h_long, h_split]
  dsimp only
  rw [if_neg h_box_long, OnBuffer.lift_bind h_dec]
  dsimp only
  rw [OnBuffer.set_bind, if_pos rfl, h_data, List.take_left,
    OnBuffer.bind_of_ok (parsePacket_writeToBuf h_addr payload _)]
  dsimp only
  rw [OnBuffer.lift_bind h_len, OnBuffer.lift_bind h_copy, OnBuffer.set_bind]
  rfl

/-- **Packets.** Whatever the method, the key and the salt, a packet that was made of an address and
a payload is read as these: the payload is at the front of the buffer. -/
theorem decryptPayload_encryptPayload (h : A.Lawful) (p : Profile) (key : List UInt8)
    (h_salt : salt.length = method.saltLen) (h_addr : addr.Encodable) (payload : List UInt8) :
    ∃ rest, decryptPayload A p method key (encryptPayload A method key addr payload salt []) =
      (.ok (payload.length, addr), payload ++ rest) := by
  have h_open := h.decrypt_encrypt (AeadCipher.new A method key salt).kind
    (AeadCipher.new A method key salt).key
    ((AeadCipher.new A method key salt).nonce.take (AeadCipher.new A method key salt).nlen)
    (addr.writeToBuf ++ payload)
  cases method with
  | none => exact decryptPayload_none h_addr payload
  | aes128Gcm => exact decryptPayloadAead_of_open h.toInPlace h_salt h_addr h_open
  | aes256Gcm => exact decryptPayloadAead_of_open h.toInPlace h_salt h_addr h_open
  | chaCha20Poly1305 => exact decryptPayloadAead_of_open h.toInPlace h_salt h_addr h_open

theorem decryptPayload_encryptPayload_domain :
    let addr := Address.domainNameAddress "example.org" 53
    let salt := List.replicate 16 7
    ∃ rest, decryptPayload .tagged .release .aes128Gcm (List.replicate 16 1)
        (encryptPayload .tagged .aes128Gcm (List.replicate 16 1) addr [1, 2, 3] salt []) =
      (.ok (3, addr), [1, 2, 3] ++ rest) :=
  have h_addr : (Address.domainNameAddress "example.org" 53).Encodable := by
    show "example.org".toUTF8.size ≤ 255
    decide
  decryptPayload_encryptPayload Aead.tagged_lawful .release _ rfl h_addr [1, 2, 3]

end V2ray

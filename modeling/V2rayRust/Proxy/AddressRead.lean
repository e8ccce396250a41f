import V2rayRust.Lib.Session
import V2rayRust.Proxy.Chain

/-!
# Reading addresses

The readers of `proxy/address.rs`. A cursor is what is left of the bytes; a `get` that runs
off their end is a fault, so a reader that returns has checked the length first. The reader of a
stream reads with `read_exact` only, so it does not matter how the stream is cut.
-/

namespace V2ray

/-! ### Cursors -/

/-- `Cursor<A>`: what is left of the bytes. -/
abbrev Cursor := StateT (List UInt8) (Except Stop)

namespace Cursor

def remaining : Cursor ℕ := fun bs => .ok (bs.length, bs)

/-- `copy_to_slice` -/
def copyToSlice (n : ℕ) : Cursor (List UInt8) := fun bs =>
  if n ≤ bs.length then .ok (bs.take n, bs.drop n) else .error (.fault .outOfBounds)

/-- The value of the next `n` bytes: `get_u8`, `get_u16`, and so many of them in a row. -/
def getBe (n : ℕ) : Cursor ℕ := do return ofBeBytes (← copyToSlice n)

theorem copyToSlice_of_le {n : ℕ} {bs : List UInt8} (h : n ≤ bs.length) :
    copyToSlice n bs = .ok (bs.take n, bs.drop n) :=
  if_pos h

theorem copyToSlice_append {n : ℕ} {bs : List UInt8} (h : bs.length = n) (rest : List UInt8) :
    copyToSlice n (bs ++ rest) = .ok (bs, rest) := by
  rw [copyToSlice_of_le, List.take_left' h, List.drop_left' h]
  rw [List.length_append, h]
  exact Nat.le_add_right _ _

theorem copyToSlice_eq_ok {n : ℕ} {bs : List UInt8} {x : List UInt8 × List UInt8}
    (h : copyToSlice n bs = .ok x) : n ≤ bs.length ∧ x = (bs.take n, bs.drop n) := by
  unfold copyToSlice at h
  split at h
  · next h_le => cases h; exact ⟨h_le, rfl⟩
  · cases h

theorem getBe_of_le {n : ℕ} {bs : List UInt8} (h : n ≤ bs.length) :
    getBe n bs = .ok (ofBeBytes (bs.take n), bs.drop n) := by
  show (copyToSlice n bs >>= fun x => pure (ofBeBytes x.1, x.2)) = _
  rw [copyToSlice_of_le h]
  rfl

theorem getBe_append {n : ℕ} {bs : List UInt8} (h : bs.length = n) (rest : List UInt8) :
    getBe n (bs ++ rest) = .ok (ofBeBytes bs, rest) := by
  show (copyToSlice n (bs ++ rest) >>= fun x => pure (ofBeBytes x.1, x.2)) = _
  rw [copyToSlice_append h]
  rfl

theorem getBe_of_lt {n : ℕ} {bs : List UInt8} (h : bs.length < n) :
    getBe n bs = .error (.fault .outOfBounds) := by
  show (copyToSlice n bs >>= fun x => pure (ofBeBytes x.1, x.2)) = _
  rw [show copyToSlice n bs = .error (.fault .outOfBounds) from if_neg (Nat.not_le_of_lt h)]
  rfl

/-! What a cursor does with the bytes it has. -/

section Run

variable {α β : Type} (bs : List UInt8)

theorem run_bind (x : Cursor α) (f : α → Cursor β) :
    (x >>= f) bs = (x bs >>= fun p => f p.1 p.2) := rfl

theorem run_pure (a : α) : (pure a : Cursor α) bs = .ok (a, bs) := rfl

theorem run_throw (e : Stop) : (throw e : Cursor α) bs = .error e := rfl

theorem run_remaining : remaining bs = .ok (bs.length, bs) := rfl

theorem run_ite (c : Prop) [Decidable c] (x y : Cursor α) :
    (if c then x else y) bs = if c then x bs else y bs := by
  split <;> rfl

theorem run_byte (b : UInt8) : getBe 1 (b :: bs) = .ok (b.toNat, bs) := by
  rw [getBe_of_le (Nat.le_add_left 1 bs.length)]
  simp [ofBeBytes]

end Run

end Cursor

/-! ### UTF-8 errors -/

/-- The continuation bytes of a character, so many of which are left: the next one is in a
range, and those after it in the usual one. `seen` bytes came before. -/
def utf8Continues (seen : ℕ) : ℕ → UInt8 × UInt8 → List UInt8 → Except (Option ℕ) ℕ
  | 0, _, _ => .ok seen
  | _ + 1, _, [] => .error none
  | left + 1, (lo, hi), b :: bs =>
    if lo ≤ b ∧ b ≤ hi then utf8Continues (seen + 1) left (0x80, 0xBF) bs else .error (some seen)

/-- The length of the first character, or the `error_len` of `std::str::Utf8Error`. -/
def utf8First : List UInt8 → Except (Option ℕ) ℕ
  | [] => .error none
  | b :: bs =>
    if b < 0x80 then .ok 1
    else if b < 0xC2 then .error (some 1)
    else if b < 0xE0 then utf8Continues 1 1 (0x80, 0xBF) bs
    else if b = 0xE0 then utf8Continues 1 2 (0xA0, 0xBF) bs
    else if b = 0xED then utf8Continues 1 2 (0x80, 0x9F) bs
    else if b < 0xF0 then utf8Continues 1 2 (0x80, 0xBF) bs
    else if b = 0xF0 then utf8Continues 1 3 (0x90, 0xBF) bs
    else if b < 0xF4 then utf8Continues 1 3 (0x80, 0xBF) bs
    else if b = 0xF4 then utf8Continues 1 3 (0x80, 0x8F) bs
    else .error (some 1)

/-- The text of a `Utf8Error`; `index` bytes are valid, and `rounds` bounds the characters. -/
def utf8Error : ℕ → ℕ → List UInt8 → String
  | 0, index, _ => "incomplete utf-8 byte sequence from index " ++ toString index
  | rounds + 1, index, bs =>
    match utf8First bs with
    | .ok width => utf8Error rounds (index + width) (bs.drop width)
    | .error (some len) =>
      "invalid utf-8 sequence of " ++ toString len ++ " bytes from index " ++ toString index
    | .error none => "incomplete utf-8 byte sequence from index " ++ toString index

/-! ### Addresses -/

namespace Address

open Cursor

def serializedLen : Address → ℕ
  | socketAddress (.v4 ..) => 1 + 4 + 2
  | socketAddress (.v6 ..) => 1 + 8 * 2 + 2
  | domainNameAddress name _ => 1 + 1 + name.toUTF8.size + 2

def readFromCursor : Cursor Address := do
  if (← remaining) < 1 + 1 then throw (newError "invalid address buffer")
  let addrType ← getBe 1
  if addrType = addrTypeIpv4.toNat then
    if (← remaining) < 4 + 2 then throw (newError "IPv4 address too short")
    let addr ← getBe 4
    let port ← getBe 2
    return .socketAddress (.v4 (BitVec.ofNat 32 addr) (UInt16.ofNat port))
  else if addrType = addrTypeDomainName.toNat then
    let domainLen ← getBe 1
    if (← remaining) < domainLen then throw (newError "Domain name too short")
    let domainName ← copyToSlice domainLen
    -- there may be fewer than two bytes left for the port
    let port ← getBe 2
    match String.fromUTF8? ⟨domainName.toArray⟩ with
    | some name => return .domainNameAddress name (UInt16.ofNat port)
    | none => throw (newError ("invalid utf8 domain name " ++
        utf8Error domainName.length 0 domainName))
  else if addrType = addrTypeIpv6.toNat then
    if (← remaining) < 8 * 2 + 2 then throw (newError "IPv4 address too short")
    let addr ← getBe 16
    let port ← getBe 2
    return .socketAddress (.v6 (BitVec.ofNat 128 addr) (UInt16.ofNat port) 0 0)
  else throw (newError ("unknown address type " ++ toString addrType))

def readFromBuf (buf : List UInt8) : Except Stop Address := readFromCursor.run' buf

/-- The cursor is dropped. -/
theorem readFromBuf_eq (buf : List UInt8) :
    readFromBuf buf = (readFromCursor buf).map Prod.fst := by
  unfold readFromBuf
  rw [StateT.run'_eq]
  rfl

/-- `read_from_stream` -/
def readFromStream {ε : Type} : Session ε Address := do
  let addrType ← Session.readByte
  if addrType = addrTypeIpv4 then
    let buf ← Session.readExact 6
    Session.lift <| StateT.run' (do
      let addr ← getBe 4
      let port ← getBe 2
      return .socketAddress (.v4 (BitVec.ofNat 32 addr) (UInt16.ofNat port))) buf
  else if addrType = addrTypeIpv6 then
    let buf ← Session.readExact 18
    Session.lift <| StateT.run' (do
      let addr ← getBe 16
      let port ← getBe 2
      return .socketAddress (.v6 (BitVec.ofNat 128 addr) (UInt16.ofNat port) 0 0)) buf
  else if addrType = addrTypeDomainName then
    let length := (← Session.readByte).toNat
    let addrBuf ← Session.readExact (length + 2)
    match String.fromUTF8? ⟨(addrBuf.take length).toArray⟩ with
    | some addr =>
      Session.lift <| StateT.run' (do
        let port ← getBe 2
        return .domainNameAddress addr (UInt16.ofNat port)) (addrBuf.drop length)
    | none => throw (.stop (.err "invalid address encoding"))
  else throw (.stop (.err ("not supported address type " ++ hexText addrType)))

/-- The reader of addresses does not see how the bytes are cut. -/
theorem uniform_readFromStream {ε : Type} : Uniform (readFromStream : Session ε Address) := by
  unfold readFromStream
  refine uniform_bind uniform_readByte fun addrType => ?_
  split
  · exact uniform_bind (uniform_readExact _) fun buf => uniform_lift _
  split
  · exact uniform_bind (uniform_readExact _) fun buf => uniform_lift _
  split
  · refine uniform_bind uniform_readByte fun length => ?_
    refine uniform_bind (uniform_readExact _) fun addrBuf => ?_
    split
    · exact uniform_lift _
    · exact uniform_throw _
  · exact uniform_throw _

/-- It keeps what is known of the end of the stream. -/
theorem keepsEnd_readFromStream {ε : Type} : KeepsEnd (readFromStream : Session ε Address) := by
  unfold readFromStream
  refine keepsEnd_bind keepsEnd_readByte fun addrType => ?_
  split
  · exact keepsEnd_bind (keepsEnd_readExact _) fun buf => keepsEnd_lift _
  split
  · exact keepsEnd_bind (keepsEnd_readExact _) fun buf => keepsEnd_lift _
  split
  · refine keepsEnd_bind keepsEnd_readByte fun length => ?_
    refine keepsEnd_bind (keepsEnd_readExact _) fun addrBuf => ?_
    split
    · exact keepsEnd_lift _
    · exact keepsEnd_throw _
  · exact keepsEnd_throw _

/-- It keeps what was done before. -/
theorem keepsDone_readFromStream {ε : Type} : KeepsDone (readFromStream : Session ε Address) := by
  unfold readFromStream
  refine keepsDone_bind keepsDone_readByte fun addrType => ?_
  split
  · exact keepsDone_bind (keepsDone_readExact _) fun buf => keepsDone_lift _
  split
  · exact keepsDone_bind (keepsDone_readExact _) fun buf => keepsDone_lift _
  split
  · refine keepsDone_bind keepsDone_readByte fun length => ?_
    refine keepsDone_bind (keepsDone_readExact _) fun addrBuf => ?_
    split
    · exact keepsDone_lift _
    · exact keepsDone_throw _
  · exact keepsDone_throw _

end Address

end V2ray

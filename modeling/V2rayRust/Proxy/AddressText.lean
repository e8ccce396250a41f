import Mathlib.Data.List.TakeWhile
import V2rayRust.Proxy.AddressWire

/-!
# Addresses in text

`Address::from_str`, through which the addresses of configurations and of the HTTP inbound come,
with the parser of socket addresses of the standard library (`core::net::parser`). Nothing bounds
the length of a domain name, and the encoders write its low byte (`fromText_faithful_iff`).
-/

namespace V2ray

/-! ### Socket addresses -/

/-- `core::net::parser::Parser`: what is left of the text. A parser that returns `None` leaves it
as it was. -/
abbrev Parser := StateT (List Char) Option

namespace Parser

/-- `char::to_digit` -/
def toDigit (radix : ℕ) (c : Char) : Option ℕ :=
  let value :=
    if c.isDigit then some (c.toNat - '0'.toNat)
    else if 'a' ≤ c ∧ c ≤ 'z' then some (c.toNat - 'a'.toNat + 10)
    else if 'A' ≤ c ∧ c ≤ 'Z' then some (c.toNat - 'A'.toNat + 10)
    else none
  value.filter (· < radix)

/-- The value of digits. -/
def ofDigits (radix : ℕ) (digits : List Char) : ℕ :=
  digits.foldl (fun v c => v * radix + (toDigit radix c).getD 0) 0

/-- What the parser finds, if it finds something. -/
def attempt {α : Type} (p : Parser α) : Parser (Option α) := fun s =>
  match p s with
  | some (a, s) => some (some a, s)
  | none => some (none, s)

def readGivenChar (target : Char) : Parser Unit
  | c :: s => if c = target then some ((), s) else none
  | [] => none

/-- `read_separator`, where `first` is for `index == 0` -/
def readSeparator {α : Type} (sep : Char) (first : Bool) (inner : Parser α) : Parser α := do
  if !first then readGivenChar sep
  inner

/-- `read_number` for a type with the maximum `max` -/
def readNumber (radix max : ℕ) (maxDigits : Option ℕ) (allowZeroPrefix : Bool) :
    Parser ℕ := fun s =>
  let digits := s.takeWhile fun c => (toDigit radix c).isSome
  let value := ofDigits radix digits
  if digits = [] then none
  else if maxDigits.any (· < digits.length) then none
  else if !allowZeroPrefix && s.head? = some '0' && 1 < digits.length then none
  else if max < value then none
  else some (value, s.drop digits.length)

/-- The octets from the given one on. -/
def readOctets : ℕ → Bool → Parser (List ℕ)
  | 0, _ => return []
  | left + 1, first => do
    let octet ← readSeparator '.' first (readNumber 10 0xFF (some 3) false)
    return octet :: (← readOctets left false)

def readIpv4Addr : Parser ℕ := do
  return (← readOctets 4 true).foldl (fun v octet => v * 256 + octet) 0

/-- `read_groups` with so many groups left: those that were read, and whether an IPv4 address was
read for the last two. -/
def readGroups : ℕ → Bool → Parser (List ℕ × Bool)
  | 0, _ => return ([], false)
  | left + 1, first => do
    let ipv4 ← if 0 < left then attempt (readSeparator ':' first readIpv4Addr) else pure none
    match ipv4 with
    | some v4 => return ([v4 / 65536, v4 % 65536], true)
    | none =>
      match ← attempt (readSeparator ':' first (readNumber 16 0xFFFF (some 4) true)) with
      | some group =>
        let (groups, v4) ← readGroups left false
        return (group :: groups, v4)
      | none => return ([], false)

def readIpv6Addr : Parser ℕ := do
  let (head, headIpv4) ← readGroups 8 true
  let groups ←
    if head.length = 8 then pure head
    else if headIpv4 then failure
    else do
      readGivenChar ':'
      readGivenChar ':'
      let (tail, _) ← readGroups (8 - (head.length + 1)) true
      pure (head ++ List.replicate (8 - head.length - tail.length) 0 ++ tail)
  return groups.foldl (fun v group => v * 65536 + group) 0

def readPort : Parser ℕ := do
  readGivenChar ':'
  readNumber 10 0xFFFF none true

def readScopeId : Parser ℕ := do
  readGivenChar '%'
  readNumber 10 0xFFFFFFFF none true

def readSocketAddrV4 : Parser SocketAddr := do
  let ip ← readIpv4Addr
  let port ← readPort
  return .v4 (BitVec.ofNat 32 ip) (UInt16.ofNat port)

def readSocketAddrV6 : Parser SocketAddr := do
  readGivenChar '['
  let ip ← readIpv6Addr
  let scopeId := (← attempt readScopeId).getD 0
  readGivenChar ']'
  let port ← readPort
  return .v6 (BitVec.ofNat 128 ip) (UInt16.ofNat port) 0 (UInt32.ofNat scopeId)

end Parser

/-- `s.parse::<SocketAddr>()` -/
def SocketAddr.fromStr (s : String) : Option SocketAddr := do
  let (addr, rest) ← (Parser.readSocketAddrV4 <|> Parser.readSocketAddrV6) s.toList
  if rest = [] then return addr else none

example : SocketAddr.fromStr "[1:2::7:8.9.10.11%5]:080" =
    some (.v6 0x00010002000000000000000708090A0B 80 0 5) := by decide +kernel

/-- `s.parse::<u16>()` -/
def u16FromStr (s : List Char) : Option ℕ :=
  let digits := match s with
    | '+' :: s => s
    | s => s
  if digits ≠ [] ∧ digits.all Char.isDigit ∧ Parser.ofDigits 10 digits < 65536 then
    some (Parser.ofDigits 10 digits)
  else none

namespace Address

/-- The first item of `s.split(':')`. -/
def hostPart (s : String) : List Char := s.toList.takeWhile (· ≠ ':')

/-- The second item, if there is one. -/
def portPart (s : String) : Option (List Char) :=
  match s.toList.dropWhile (· ≠ ':') with
  | [] => none
  | _ :: rest => some (rest.takeWhile (· ≠ ':'))

/-- `from_str`; an error is the message of an `AddressError`. -/
def fromStr (s : String) : Except String Address :=
  match SocketAddr.fromStr s with
  | some addr => .ok (.socketAddress addr)
  | none =>
    match portPart s with
    | some port =>
      match u16FromStr port with
      | some port => .ok (.domainNameAddress (String.ofList (hostPart s)) (UInt16.ofNat port))
      | none => .error s
    | none => .ok (.domainNameAddress (String.ofList (hostPart s)) 80)

/-- `host_addr`, from the authority of the URI -/
def hostAddr (authority : Option String) : Option Address :=
  authority.bind fun auth => (fromStr auth).toOption

/-- `addr.get(addr.find('@').map_or(0, |x| x + 1)..)` -/
def afterUserinfo (addr : String) : String :=
  match addr.toList.dropWhile (· ≠ '@') with
  | [] => addr
  | _ :: rest => String.ofList rest

/-- The address in `Connector::call`, from the authority of the URI. -/
def callAddr (authority : Option String) : Except String Address :=
  fromStr (afterUserinfo (authority.getD ""))

/-! ### Encoding -/

/-- `write_to_buf_vmess` -/
def writeToBufVmess : Address → List UInt8
  | socketAddress (.v4 ip port) => beBytes 2 port.toNat ++ 1 :: beBytes 4 ip.toNat
  | socketAddress (.v6 ip port _ _) => beBytes 2 port.toNat ++ 3 :: beBytes 16 ip.toNat
  | domainNameAddress name port =>
    beBytes 2 port.toNat ++ 2 :: UInt8.ofNat name.toUTF8.size :: name.toUTF8.toList

/-- What a VMess server reads: the address at the front of some bytes, and what comes after it. -/
def parseVmess : List UInt8 → Option (Address × List UInt8)
  | p :: q :: t :: bs =>
    let port := UInt16.ofNat (ofBeBytes [p, q])
    if t = 1 then
      if 4 ≤ bs.length then
        some (.socketAddress (.v4 (BitVec.ofNat 32 (ofBeBytes (bs.take 4))) port), bs.drop 4)
      else none
    else if t = 2 then
      match bs with
      | [] => none
      | n :: bs =>
        if n.toNat ≤ bs.length then
          (String.fromUTF8? ⟨(bs.take n.toNat).toArray⟩).map fun name =>
            (.domainNameAddress name port, bs.drop n.toNat)
        else none
    else if t = 3 then
      if 16 ≤ bs.length then
        some (.socketAddress (.v6 (BitVec.ofNat 128 (ofBeBytes (bs.take 16))) port 0 0),
          bs.drop 16)
      else none
    else none
  | _ => none

/-- After a port and the byte of an IPv4 address come four octets. -/
theorem parseVmess_ipv4 {port : List UInt8} (h : port.length = 2) (bs : List UInt8) :
    parseVmess (port ++ 1 :: bs) =
      if 4 ≤ bs.length then
        some (.socketAddress (.v4 (BitVec.ofNat 32 (ofBeBytes (bs.take 4)))
          (UInt16.ofNat (ofBeBytes port))), bs.drop 4)
      else none := by
  obtain ⟨p, q, rfl⟩ := List.length_eq_two.mp h
  rfl

/-- After a port and the byte of a name come the length of the name and the name, in UTF-8. -/
theorem parseVmess_domainName {port : List UInt8} (h : port.length = 2) (n : UInt8)
    (bs : List UInt8) :
    parseVmess (port ++ 2 :: n :: bs) =
      if n.toNat ≤ bs.length then
        (String.fromUTF8? ⟨(bs.take n.toNat).toArray⟩).map fun name =>
          (.domainNameAddress name (UInt16.ofNat (ofBeBytes port)), bs.drop n.toNat)
      else none := by
  obtain ⟨p, q, rfl⟩ := List.length_eq_two.mp h
  rfl

/-- After a port and the byte of an IPv6 address come sixteen octets. -/
theorem parseVmess_ipv6 {port : List UInt8} (h : port.length = 2) (bs : List UInt8) :
    parseVmess (port ++ 3 :: bs) =
      if 16 ≤ bs.length then
        some (.socketAddress (.v6 (BitVec.ofNat 128 (ofBeBytes (bs.take 16)))
          (UInt16.ofNat (ofBeBytes port)) 0 0), bs.drop 16)
      else none := by
  obtain ⟨p, q, rfl⟩ := List.length_eq_two.mp h
  rfl

/-- The address less its flow info and scope, which neither format has. -/
def onWire : Address → Address
  | socketAddress (.v6 ip port _ _) => .socketAddress (.v6 ip port 0 0)
  | a => a

/-- Both encodings of an address are decoded to it, and the length byte of its domain name counts
the bytes that follow. -/
structure Faithful (a : Address) : Prop where
  length_eq : ∀ name port, a = .domainNameAddress name port →
    (UInt8.ofNat name.toUTF8.size).toNat = name.toUTF8.size
  parse_eq : ∀ r, parse (a.writeToBuf ++ r) = some (a.onWire, r)
  parseVmess_eq : ∀ r, parseVmess (a.writeToBufVmess ++ r) = some (a.onWire, r)

theorem writeToBuf_onWire (a : Address) : a.onWire.writeToBuf = a.writeToBuf := by
  cases a with
  | socketAddress addr => cases addr <;> rfl
  | domainNameAddress name port => rfl

theorem writeToBufVmess_onWire (a : Address) : a.onWire.writeToBufVmess = a.writeToBufVmess := by
  cases a with
  | socketAddress addr => cases addr <;> rfl
  | domainNameAddress name port => rfl

/-- The VMess encoding is read back, with what comes after it. -/
theorem parseVmess_writeToBufVmess {a : Address} (h : a.Encodable) (r : List UInt8) :
    parseVmess (a.writeToBufVmess ++ r) = some (a, r) := by
  -- the port comes first, then the kind of the address, then the address
  cases a with
  | socketAddress addr =>
    cases addr with
    | v4 ip port =>
      have h_host := length_beBytes 4 ip.toNat
      show parseVmess (beBytes 2 port.toNat ++ 1 :: (beBytes 4 ip.toNat ++ r)) = _
      rw [parseVmess_ipv4 (length_beBytes 2 port.toNat), port_eq,
        if_pos (by rw [List.length_append, h_host]; exact Nat.le_add_right 4 _),
        List.take_left' h_host, List.drop_left' h_host, ip_eq 4 rfl]
    | v6 ip port flowinfo scopeId =>
      obtain ⟨rfl, rfl⟩ := h
      have h_host := length_beBytes 16 ip.toNat
      show parseVmess (beBytes 2 port.toNat ++ 3 :: (beBytes 16 ip.toNat ++ r)) = _
      rw [parseVmess_ipv6 (length_beBytes 2 port.toNat), port_eq,
        if_pos (by rw [List.length_append, h_host]; exact Nat.le_add_right 16 _),
        List.take_left' h_host, List.drop_left' h_host, ip_eq 16 rfl]
  | domainNameAddress name port =>
    have h_size : name.toUTF8.size ≤ 255 := h
    have h_n : (UInt8.ofNat name.toUTF8.size).toNat = name.toUTF8.size :=
      UInt8.toNat_ofNat_of_lt' (Nat.lt_succ_of_le h_size)
    have h_host := length_toUTF8_toList name
    show parseVmess (beBytes 2 port.toNat ++
      2 :: UInt8.ofNat name.toUTF8.size :: (name.toUTF8.toList ++ r)) = _
    rw [parseVmess_domainName (length_beBytes 2 port.toNat), port_eq, h_n,
      if_pos (by rw [List.length_append, h_host]; exact Nat.le_add_right _ _),
      List.take_left' h_host, List.drop_left' h_host, fromUTF8?_eq_some.mpr rfl]
    rfl

/-- What is faithful is what the formats can express, and a flow info or a scope beside it. -/
theorem faithful_iff_encodable (a : Address) : a.Faithful ↔ a.onWire.Encodable := by
  constructor
  · intro h
    have h_parse := h.parse_eq []
    exact (of_parse h_parse).2
  · intro h
    refine ⟨?_, fun r => ?_, fun r => ?_⟩
    · rintro name port rfl
      have h_size : name.toUTF8.size ≤ 255 := h
      exact UInt8.toNat_ofNat_of_lt' (Nat.lt_succ_of_le h_size)
    · rw [← writeToBuf_onWire]
      exact parse_writeToBuf h r
    · rw [← writeToBufVmess_onWire]
      exact parseVmess_writeToBufVmess h r

/-! ### What is accepted -/

/-- The text is a socket address, or what is before its first colon fits a domain name. -/
def Fits (s : String) : Prop :=
  (SocketAddr.fromStr s).isSome ∨ (String.ofList (hostPart s)).toUTF8.size ≤ 255

theorem encodable_onWire_socketAddress (addr : SocketAddr) :
    (socketAddress addr).onWire.Encodable := by
  cases addr with
  | v4 _ _ => exact trivial
  | v6 _ _ _ _ => exact ⟨rfl, rfl⟩

/-- What `from_str` returns: a socket address, or the text before the first colon. -/
theorem fromStr_eq_ok {s : String} {a : Address} (h : fromStr s = .ok a) :
    (∃ addr, SocketAddr.fromStr s = some addr ∧ a = .socketAddress addr) ∨
    (SocketAddr.fromStr s = none ∧
      ∃ port, a = .domainNameAddress (String.ofList (hostPart s)) port) := by
  unfold fromStr at h
  split at h
  · next addr h_addr =>
    cases h
    exact .inl ⟨addr, h_addr, rfl⟩
  · next h_addr =>
    refine .inr ⟨h_addr, ?_⟩
    split at h
    · split at h
      · cases h
        exact ⟨_, rfl⟩
      · cases h
    · cases h
      exact ⟨80, rfl⟩

theorem faithful_iff_fits {s : String} {a : Address} (h : fromStr s = .ok a) :
    a.Faithful ↔ Fits s := by
  rw [faithful_iff_encodable]
  rcases fromStr_eq_ok h with ⟨addr, h_addr, rfl⟩ | ⟨h_addr, port, rfl⟩
  · have h_fits : Fits s := .inl (by rw [h_addr]; rfl)
    exact iff_of_true (encodable_onWire_socketAddress addr) h_fits
  · show (String.ofList (hostPart s)).toUTF8.size ≤ 255 ↔ Fits s
    unfold Fits
    rw [h_addr]
    simp

/-- **Addresses from text** are encoded faithfully when they fit, whichever way they come: from a
configuration, from the authority of a CONNECT request, from that of a proxied one. -/
theorem fromText_faithful_iff (s : String) (auth : Option String) (a : Address) :
    (fromStr s = .ok a → (a.Faithful ↔ Fits s)) ∧
    (hostAddr (some s) = some a → (a.Faithful ↔ Fits s)) ∧
    (callAddr auth = .ok a → (a.Faithful ↔ Fits (afterUserinfo (auth.getD "")))) := by
  refine ⟨fun h => faithful_iff_fits h, fun h => ?_, fun h => ?_⟩
  · have h_str : fromStr s = .ok a := by
      unfold hostAddr at h
      cases h_auth : fromStr s with
      | ok b => simpa [h_auth, Except.toOption] using h
      | error _ => simp [h_auth, Except.toOption] at h
    exact faithful_iff_fits h_str
  · exact faithful_iff_fits h

/-- `example.org:443` is encoded faithfully. -/
theorem fromText_faithful_exampleOrg :
    (domainNameAddress "example.org" 443).Faithful :=
  ((fromText_faithful_iff "example.org:443" none _).1 (by decide +kernel)).mpr
    (.inr (by decide +kernel))

/-- A word without a colon is a domain name. -/
theorem fromStr_word {cs : List Char} (h : ∀ c ∈ 'a' :: cs, c ≠ ':') :
    fromStr (String.ofList ('a' :: cs)) =
      .ok (.domainNameAddress (String.ofList ('a' :: cs)) 80) := by
  have h_list : (String.ofList ('a' :: cs)).toList = 'a' :: cs := String.toList_ofList
  have h_addr : SocketAddr.fromStr (String.ofList ('a' :: cs)) = none := by
    -- neither parser gets past the first letter
    unfold SocketAddr.fromStr
    rw [h_list]
    rfl
  have h_port : portPart (String.ofList ('a' :: cs)) = none := by
    unfold portPart
    rw [h_list, List.dropWhile_eq_nil_iff.mpr]
    simpa using h
  have h_host : hostPart (String.ofList ('a' :: cs)) = 'a' :: cs := by
    unfold hostPart
    rw [h_list, List.takeWhile_eq_self_iff]
    simpa using h
  unfold fromStr
  rw [h_addr, h_port, h_host]

/-- 256 letters are accepted, and the length that is written for them is 0. -/
theorem fromText_not_faithful :
    fromStr (String.ofList (List.replicate 256 'a')) =
      .ok (.domainNameAddress (String.ofList (List.replicate 256 'a')) 80) ∧
    ¬ ∀ s a, fromStr s = .ok a → a.Faithful := by
  have h_accepted : fromStr (String.ofList (List.replicate 256 'a')) =
      .ok (.domainNameAddress (String.ofList (List.replicate 256 'a')) 80) := by
    refine @fromStr_word (List.replicate 255 'a') fun c h_c => ?_
    rw [List.eq_of_mem_replicate (n := 256) h_c]
    decide
  refine ⟨h_accepted, fun h => ?_⟩
  have h_len := (h _ _ h_accepted).length_eq _ _ rfl
  have h_size : (String.ofList (List.replicate 256 'a')).toUTF8.size = 256 := by decide +kernel
  rw [h_size] at h_len
  cases h_len

end Address

end V2ray

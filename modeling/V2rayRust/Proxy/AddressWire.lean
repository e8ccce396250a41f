import V2rayRust.Proxy.AddressRead

/-!
# The wire format of addresses

What the two readers of `proxy/address.rs` do is compared with `parse`, the format itself. Both
return what it says (`cursorRun`, `streamRun`), and `parse` is the inverse of `write_to_buf`
(`parse_eq_some`). They differ where it fails: the cursor does not check that a domain name is
followed by a port, and panics if it is not.
-/

namespace V2ray

namespace Address

/-- The address at the front of some bytes, and what comes after it. -/
def parse : List UInt8 → Option (Address × List UInt8)
  | [] => none
  | t :: bs =>
    if t = addrTypeIpv4 then
      if 6 ≤ bs.length then
        some (.socketAddress (.v4 (BitVec.ofNat 32 (ofBeBytes (bs.take 4)))
          (UInt16.ofNat (ofBeBytes ((bs.drop 4).take 2)))), bs.drop 6)
      else none
    else if t = addrTypeDomainName then
      match bs with
      | [] => none
      | n :: bs =>
        if n.toNat + 2 ≤ bs.length then
          (String.fromUTF8? ⟨(bs.take n.toNat).toArray⟩).map fun name =>
            (.domainNameAddress name (UInt16.ofNat (ofBeBytes ((bs.drop n.toNat).take 2))),
              bs.drop (n.toNat + 2))
        else none
    else if t = addrTypeIpv6 then
      if 18 ≤ bs.length then
        some (.socketAddress (.v6 (BitVec.ofNat 128 (ofBeBytes (bs.take 16)))
          (UInt16.ofNat (ofBeBytes ((bs.drop 16).take 2))) 0 0), bs.drop 18)
      else none
    else none

/-- A domain name that is there, followed by less than a port. -/
def Short (bs : List UInt8) : Prop :=
  ∃ n rest, bs = addrTypeDomainName :: n :: rest ∧ n.toNat ≤ rest.length ∧
    rest.length < n.toNat + 2

/-- The addresses that the format can express. -/
def Encodable : Address → Prop
  | socketAddress (.v4 ..) => True
  | socketAddress (.v6 _ _ flowinfo scopeId) => flowinfo = 0 ∧ scopeId = 0
  | domainNameAddress name _ => name.toUTF8.size ≤ 255

/-! ### Writing -/

theorem length_writeToBuf (a : Address) : a.writeToBuf.length = a.serializedLen := by
  cases a with
  | socketAddress addr => cases addr <;> rfl
  | domainNameAddress name port =>
    show (addrTypeDomainName :: UInt8.ofNat name.toUTF8.size :: name.toUTF8.toList ++
      beBytes 2 port.toNat).length = 1 + 1 + name.toUTF8.size + 2
    rw [List.length_append, List.length_cons, List.length_cons, length_toUTF8_toList,
      length_beBytes]
    omega

theorem port_eq (port : UInt16) : UInt16.ofNat (ofBeBytes (beBytes 2 port.toNat)) = port := by
  have h_lt : port.toNat < 256 ^ 2 := port.toNat_lt
  rw [ofBeBytes_beBytes, Nat.mod_eq_of_lt h_lt]
  exact UInt16.ofNat_toNat

theorem port_eq_of_bytes {bs : List UInt8} (h : bs.length = 2) :
    beBytes 2 (UInt16.ofNat (ofBeBytes bs)).toNat = bs := by
  have h_lt : ofBeBytes bs < 2 ^ 16 := by
    have h_bytes := ofBeBytes_lt bs
    rwa [h] at h_bytes
  have h_back := beBytes_ofBeBytes bs
  rw [h] at h_back
  rw [UInt16.toNat_ofNat_of_lt' h_lt, h_back]

theorem ip_eq {w : ℕ} (n : ℕ) (h_w : 2 ^ w = 256 ^ n) (ip : BitVec w) :
    BitVec.ofNat w (ofBeBytes (beBytes n ip.toNat)) = ip := by
  have h_lt : ip.toNat < 256 ^ n := h_w ▸ ip.isLt
  rw [ofBeBytes_beBytes, Nat.mod_eq_of_lt h_lt, BitVec.ofNat_toNat, BitVec.setWidth_eq]

theorem ip_eq_of_bytes {w n : ℕ} (h_w : 2 ^ w = 256 ^ n) {bs : List UInt8} (h : bs.length = n) :
    beBytes n (BitVec.ofNat w (ofBeBytes bs)).toNat = bs := by
  have h_lt : ofBeBytes bs < 2 ^ w := by
    rw [h_w, ← h]
    exact ofBeBytes_lt bs
  rw [BitVec.toNat_ofNat, Nat.mod_eq_of_lt h_lt, ← h, beBytes_ofBeBytes]

/-- The three parts of an address body: host, port, and what comes after it. -/
theorem body_parts {host port r : List UInt8} {n : ℕ} (h_host : host.length = n)
    (h_port : port.length = 2) :
    n + 2 ≤ (host ++ port ++ r).length ∧ (host ++ port ++ r).take n = host ∧
      ((host ++ port ++ r).drop n).take 2 = port ∧ (host ++ port ++ r).drop (n + 2) = r := by
  refine ⟨?_, ?_, ?_, ?_⟩
  · rw [List.length_append, List.length_append, h_host, h_port]
    exact Nat.le_add_right _ _
  · rw [List.append_assoc, List.take_left' h_host]
  · rw [List.append_assoc, List.drop_left' h_host, List.take_left' h_port]
  · exact List.drop_left' (by rw [List.length_append, h_host, h_port])

theorem of_body_parts {bs : List UInt8} {n : ℕ} (h : n + 2 ≤ bs.length) :
    bs = bs.take n ++ (bs.drop n).take 2 ++ bs.drop (n + 2) ∧ (bs.take n).length = n ∧
      ((bs.drop n).take 2).length = 2 := by
  refine ⟨?_, ?_, ?_⟩
  · rw [← List.drop_drop, List.append_assoc, List.take_append_drop, List.take_append_drop]
  · rw [List.length_take, Nat.min_eq_left (by omega)]
  · rw [List.length_take, List.length_drop, Nat.min_eq_left (by omega)]

theorem parse_ipv4 (bs : List UInt8) : parse (addrTypeIpv4 :: bs) =
    if 6 ≤ bs.length then
      some (.socketAddress (.v4 (BitVec.ofNat 32 (ofBeBytes (bs.take 4)))
        (UInt16.ofNat (ofBeBytes ((bs.drop 4).take 2)))), bs.drop 6)
    else none := rfl

theorem parse_ipv6 (bs : List UInt8) : parse (addrTypeIpv6 :: bs) =
    if 18 ≤ bs.length then
      some (.socketAddress (.v6 (BitVec.ofNat 128 (ofBeBytes (bs.take 16)))
        (UInt16.ofNat (ofBeBytes ((bs.drop 16).take 2))) 0 0), bs.drop 18)
    else none := rfl

theorem parse_domainName (n : UInt8) (bs : List UInt8) :
    parse (addrTypeDomainName :: n :: bs) =
      if n.toNat + 2 ≤ bs.length then
        (String.fromUTF8? ⟨(bs.take n.toNat).toArray⟩).map fun name =>
          (.domainNameAddress name (UInt16.ofNat (ofBeBytes ((bs.drop n.toNat).take 2))),
            bs.drop (n.toNat + 2))
      else none := rfl

theorem parse_other {t : UInt8} (h_v4 : t ≠ addrTypeIpv4) (h_dn : t ≠ addrTypeDomainName)
    (h_v6 : t ≠ addrTypeIpv6) (bs : List UInt8) : parse (t :: bs) = none := by
  unfold parse
  dsimp only
  rw [if_neg h_v4, if_neg h_dn, if_neg h_v6]

/-- An address is read back, with what comes after it. -/
theorem parse_writeToBuf {a : Address} (h : a.Encodable) (r : List UInt8) :
    parse (a.writeToBuf ++ r) = some (a, r) := by
  -- each kind of address has its own first byte, and a length that follows from it
  cases a with
  | socketAddress addr =>
    cases addr with
    | v4 ip port =>
      show parse (addrTypeIpv4 :: (beBytes 4 ip.toNat ++ beBytes 2 port.toNat ++ r)) = _
      obtain ⟨h_len, h_host, h_port, h_rest⟩ := body_parts (r := r)
        (length_beBytes 4 ip.toNat) (length_beBytes 2 port.toNat)
      rw [parse_ipv4, if_pos h_len, h_host, h_port, h_rest, ip_eq 4 rfl, port_eq]
    | v6 ip port flowinfo scopeId =>
      obtain ⟨rfl, rfl⟩ := h
      show parse (addrTypeIpv6 :: (beBytes 16 ip.toNat ++ beBytes 2 port.toNat ++ r)) = _
      obtain ⟨h_len, h_host, h_port, h_rest⟩ := body_parts (r := r)
        (length_beBytes 16 ip.toNat) (length_beBytes 2 port.toNat)
      rw [parse_ipv6, if_pos h_len, h_host, h_port, h_rest, ip_eq 16 rfl, port_eq]
  | domainNameAddress name port =>
    have h_size : name.toUTF8.size ≤ 255 := h
    have h_n : (UInt8.ofNat name.toUTF8.size).toNat = name.toUTF8.size :=
      UInt8.toNat_ofNat_of_lt' (Nat.lt_succ_of_le h_size)
    show parse (addrTypeDomainName :: UInt8.ofNat name.toUTF8.size ::
      (name.toUTF8.toList ++ beBytes 2 port.toNat ++ r)) = _
    obtain ⟨h_len, h_host, h_port, h_rest⟩ := body_parts (r := r)
      (length_toUTF8_toList name) (length_beBytes 2 port.toNat)
    rw [parse_domainName, h_n, if_pos h_len, h_host, h_port, h_rest, port_eq,
      fromUTF8?_eq_some.mpr rfl]
    rfl

/-- What is read is what is written. -/
theorem of_parse {bs r : List UInt8} {a : Address} (h : parse bs = some (a, r)) :
    bs = a.writeToBuf ++ r ∧ a.Encodable := by
  match bs with
  | [] => cases h
  | t :: bs =>
    -- the first byte says how long the address is
    by_cases h_v4 : t = addrTypeIpv4
    · subst h_v4
      rw [parse_ipv4] at h
      split at h
      · next h_len =>
        cases h
        obtain ⟨h_bs, h_host, h_port⟩ := of_body_parts h_len
        refine ⟨?_, trivial⟩
        show _ = addrTypeIpv4 :: (beBytes 4 _ ++ beBytes 2 _ ++ bs.drop 6)
        rw [ip_eq_of_bytes rfl h_host, port_eq_of_bytes h_port, ← h_bs]
      · cases h
    by_cases h_dn : t = addrTypeDomainName
    · subst h_dn
      match bs with
      | [] => cases h
      | n :: bs =>
        rw [parse_domainName] at h
        split at h
        · next h_len =>
          obtain ⟨name, h_name, h⟩ := Option.map_eq_some_iff.mp h
          cases h
          have h_name := fromUTF8?_eq_some.mp h_name
          obtain ⟨h_bs, h_host, h_port⟩ := of_body_parts h_len
          -- the length byte is that of the name, since it is UTF-8
          have h_size : name.toUTF8.size = n.toNat := by
            rw [← length_toUTF8_toList, h_name, h_host]
          refine ⟨?_, ?_⟩
          · show _ = addrTypeDomainName :: UInt8.ofNat name.toUTF8.size ::
              (name.toUTF8.toList ++ beBytes 2 _ ++ bs.drop (n.toNat + 2))
            rw [h_size, h_name, port_eq_of_bytes h_port, ← h_bs, UInt8.ofNat_toNat]
          · show name.toUTF8.size ≤ 255
            rw [h_size]
            exact Nat.le_of_lt_succ n.toNat_lt
        · cases h
    by_cases h_v6 : t = addrTypeIpv6
    · subst h_v6
      rw [parse_ipv6] at h
      split at h
      · next h_len =>
        cases h
        obtain ⟨h_bs, h_host, h_port⟩ := of_body_parts h_len
        refine ⟨?_, rfl, rfl⟩
        show _ = addrTypeIpv6 :: (beBytes 16 _ ++ beBytes 2 _ ++ bs.drop 18)
        rw [ip_eq_of_bytes rfl h_host, port_eq_of_bytes h_port, ← h_bs]
      · cases h
    · rw [parse_other h_v4 h_dn h_v6] at h
      cases h

/-! ### The cursor -/

/-- What `read_from_cursor` makes of some bytes. -/
inductive CursorRun (bs : List UInt8) : Except Stop (Address × List UInt8) → Prop
  | ok {x : Address × List UInt8} (parse_eq : parse bs = some x) : CursorRun bs (.ok x)
  | err {message : String} (parse_eq : parse bs = none) (not_short : ¬ Short bs) :
      CursorRun bs (.error (.err message))
  | short (parse_eq : parse bs = none) (short : Short bs) :
      CursorRun bs (.error (.fault .outOfBounds))

open Cursor

/-- The reader by the type of the address and the byte after it. -/
theorem readFromCursor_cons (t b : UInt8) (bs : List UInt8) : readFromCursor (t :: b :: bs) =
    if t.toNat = addrTypeIpv4.toNat then
      if (b :: bs).length < 4 + 2 then .error (newError "IPv4 address too short")
      else do
        let p ← getBe 4 (b :: bs)
        let q ← getBe 2 p.2
        .ok (.socketAddress (.v4 (BitVec.ofNat 32 p.1) (UInt16.ofNat q.1)), q.2)
    else if t.toNat = addrTypeDomainName.toNat then
      if bs.length < b.toNat then .error (newError "Domain name too short")
      else do
        let p ← copyToSlice b.toNat bs
        let q ← getBe 2 p.2
        match String.fromUTF8? ⟨p.1.toArray⟩ with
        | some name => .ok (.domainNameAddress name (UInt16.ofNat q.1), q.2)
        | none => .error (newError ("invalid utf8 domain name " ++ utf8Error p.1.length 0 p.1))
    else if t.toNat = addrTypeIpv6.toNat then
      if (b :: bs).length < 8 * 2 + 2 then .error (newError "IPv4 address too short")
      else do
        let p ← getBe 16 (b :: bs)
        let q ← getBe 2 p.2
        .ok (.socketAddress (.v6 (BitVec.ofNat 128 p.1) (UInt16.ofNat q.1) 0 0), q.2)
    else .error (newError ("unknown address type " ++ toString t.toNat)) := by
  have h_len : ¬ (t :: b :: bs).length < 1 + 1 := by simp
  simp only [readFromCursor, run_bind, run_remaining, run_ite, ok_bind, run_throw, error_bind,
    run_pure, h_len, if_false, run_byte]
  -- the cursor is in the same place on both sides; what is left is how the name is matched
  congr 4
  funext p
  congr 1
  funext q
  cases String.fromUTF8? ⟨p.1.toArray⟩ <;> rfl

/-- Two fields in a row. -/
theorem getBe_getBe {α : Type} {n : ℕ} {bs : List UInt8} (h : n + 2 ≤ bs.length)
    (mk : ℕ → ℕ → α) :
    (do
      let p ← getBe n bs
      let q ← getBe 2 p.2
      .ok (mk p.1 q.1, q.2) : Except Stop (α × List UInt8)) =
    .ok (mk (ofBeBytes (bs.take n)) (ofBeBytes ((bs.drop n).take 2)), bs.drop (n + 2)) := by
  have h_port : 2 ≤ (bs.drop n).length := by
    rw [List.length_drop]
    omega
  rw [getBe_of_le (by omega), ok_bind, getBe_of_le h_port, ok_bind, List.drop_drop]

theorem not_short_of_ne {t : UInt8} (h : t ≠ addrTypeDomainName) (bs : List UInt8) :
    ¬ Short (t :: bs) := by
  rintro ⟨n, rest, h_eq, _⟩
  exact h (List.cons.inj h_eq).1

/-- An IP address and its port, whose length is checked before they are read. -/
theorem cursorRun_fixed {t : UInt8} {n : ℕ} {message : String} (mk : ℕ → ℕ → Address)
    (h_ne : t ≠ addrTypeDomainName)
    (h_parse : ∀ bs, parse (t :: bs) =
      if n + 2 ≤ bs.length then
        some (mk (ofBeBytes (bs.take n)) (ofBeBytes ((bs.drop n).take 2)), bs.drop (n + 2))
      else none)
    (bs : List UInt8) :
    CursorRun (t :: bs) (if bs.length < n + 2 then .error (newError message) else do
      let p ← getBe n bs
      let q ← getBe 2 p.2
      .ok (mk p.1 q.1, q.2)) := by
  by_cases h_len : n + 2 ≤ bs.length
  · rw [if_neg (Nat.not_lt_of_le h_len), getBe_getBe h_len mk]
    exact .ok ((h_parse bs).trans (if_pos h_len))
  · rw [if_pos (Nat.lt_of_not_le h_len)]
    exact .err ((h_parse bs).trans (if_neg h_len)) (not_short_of_ne h_ne bs)

/-- A domain name and its port: the length that is checked is that of the name alone. -/
theorem cursorRun_domainName (b : UInt8) (bs : List UInt8) :
    CursorRun (addrTypeDomainName :: b :: bs)
      (if bs.length < b.toNat then .error (newError "Domain name too short") else do
        let p ← copyToSlice b.toNat bs
        let q ← getBe 2 p.2
        match String.fromUTF8? ⟨p.1.toArray⟩ with
        | some name => .ok (.domainNameAddress name (UInt16.ofNat q.1), q.2)
        | none => .error (newError ("invalid utf8 domain name " ++
            utf8Error p.1.length 0 p.1))) := by
  have h_short (h : ¬ (b.toNat ≤ bs.length ∧ bs.length < b.toNat + 2)) :
      ¬ Short (addrTypeDomainName :: b :: bs) := by
    rintro ⟨_, _, ⟨⟩, h_n⟩
    exact h h_n
  by_cases h_name : bs.length < b.toNat
  · rw [if_pos h_name]
    exact .err ((parse_domainName _ _).trans (if_neg (by omega))) (h_short (by omega))
  rw [if_neg h_name, copyToSlice_of_le (Nat.le_of_not_lt h_name), ok_bind]
  by_cases h_len : b.toNat + 2 ≤ bs.length
  · have h_parse := (parse_domainName b bs).trans (if_pos h_len)
    rw [getBe_of_le (by rw [List.length_drop]; omega), ok_bind]
    dsimp only
    cases h_utf8 : String.fromUTF8? ⟨(bs.take b.toNat).toArray⟩ with
    | some name =>
      rw [h_utf8] at h_parse
      rw [List.drop_drop]
      exact .ok h_parse
    | none =>
      rw [h_utf8] at h_parse
      exact .err h_parse (h_short (by omega))
  · -- the port is not there, and nobody has looked
    rw [getBe_of_lt (by rw [List.length_drop]; omega)]
    exact .short ((parse_domainName b bs).trans (if_neg h_len))
      ⟨b, bs, rfl, Nat.le_of_not_lt h_name, Nat.lt_of_not_le h_len⟩

/-- How the reader over a cursor ends, for any bytes. -/
theorem cursorRun (bs : List UInt8) : CursorRun bs (readFromCursor bs) := by
  match bs with
  | [] => exact .err rfl (by rintro ⟨_, _, h, _⟩; cases h)
  | [t] =>
    refine .err ?_ (by rintro ⟨_, _, h, _⟩; cases h)
    unfold parse
    simp
  | t :: b :: bs =>
    rw [readFromCursor_cons]
    -- in the order of the source
    by_cases h_v4 : t = addrTypeIpv4
    · subst h_v4
      rw [if_pos rfl]
      exact cursorRun_fixed (n := 4)
        (fun addr port => .socketAddress (.v4 (BitVec.ofNat 32 addr) (UInt16.ofNat port)))
        (t := addrTypeIpv4) (by decide) parse_ipv4 (b :: bs)
    by_cases h_dn : t = addrTypeDomainName
    · subst h_dn
      rw [if_neg (by decide), if_pos rfl]
      exact cursorRun_domainName b bs
    rw [if_neg (h_v4 ∘ UInt8.toNat_inj.mp), if_neg (h_dn ∘ UInt8.toNat_inj.mp)]
    by_cases h_v6 : t = addrTypeIpv6
    · subst h_v6
      rw [if_pos rfl]
      exact cursorRun_fixed (n := 16)
        (fun addr port => .socketAddress (.v6 (BitVec.ofNat 128 addr) (UInt16.ofNat port) 0 0))
        (t := addrTypeIpv6) (by decide) parse_ipv6 (b :: bs)
    rw [if_neg (h_v6 ∘ UInt8.toNat_inj.mp)]
    exact .err (parse_other h_v4 h_dn h_v6 _) (not_short_of_ne h_dn _)

/-! ### The stream -/

/-- What `read_from_stream` makes of a connection. -/
inductive StreamRun {ε : Type} (c : Conn ε) : Except Halt Address × Conn ε → Prop
  | ok {a : Address} {d : Conn ε} (parse_eq : parse c.bytes = some (a, d.bytes)) :
      StreamRun c (.ok a, d)
  | err {message : String} {d : Conn ε} (parse_eq : parse c.bytes = none) :
      StreamRun c (.error (.stop (.err message)), d)
  | waits {d : Conn ε} (parse_eq : parse c.bytes = none) (ended_eq : c.ended = false) :
      StreamRun c (.error .waits, d)

/-- The two fields of an array that has been read. -/
theorem getBe_getBe_take {n : ℕ} {bs : List UInt8} (h : n + 2 ≤ bs.length)
    (mk : ℕ → ℕ → Address) :
    (StateT.run' (do
      let addr ← getBe n
      let port ← getBe 2
      return mk addr port : Cursor Address) (bs.take (n + 2)) : Except Stop Address) =
    .ok (mk (ofBeBytes (bs.take n)) (ofBeBytes ((bs.drop n).take 2))) := by
  have h_len : n + 2 ≤ (bs.take (n + 2)).length := by
    rw [List.length_take, Nat.min_eq_left h]
  have h_run := getBe_getBe h_len mk
  show (do
    let p ← getBe n (bs.take (n + 2))
    let q ← getBe 2 p.2
    .ok (mk p.1 q.1, q.2) : Except Stop (Address × List UInt8)).map Prod.fst = _
  rw [h_run, List.take_take, Nat.min_eq_left (Nat.le_add_right n 2), List.drop_take,
    Nat.add_sub_cancel_left, List.take_take, Nat.min_self]
  rfl

/-- A body of fixed length. -/
theorem streamRun_fixed {ε : Type} {c d : Conn ε} {t : UInt8} {n : ℕ} {mk : ℕ → ℕ → Address}
    (h_parse : ∀ bs, parse (t :: bs) =
      if n + 2 ≤ bs.length then
        some (mk (ofBeBytes (bs.take n)) (ofBeBytes ((bs.drop n).take 2)), bs.drop (n + 2))
      else none)
    (h_bytes : c.bytes = t :: d.bytes) (h_ended : d.ended = c.ended) :
    StreamRun c ((Session.readExact (n + 2) >>= fun buf => Session.lift (StateT.run' (do
      let addr ← getBe n
      let port ← getBe 2
      return mk addr port : Cursor Address) buf)) d) := by
  have h_parse := h_parse d.bytes
  rw [← h_bytes] at h_parse
  rw [bind_run_eq]
  have h_buf := readExactly (n + 2) d
  generalize Session.readExact (n + 2) d = r at h_buf ⊢
  -- the body comes whole, or the stream ends or waits within it
  cases h_buf with
  | ok le bytes_eq _ =>
    rw [if_pos le, ← bytes_eq] at h_parse
    dsimp only
    rw [getBe_getBe_take le]
    exact .ok h_parse
  | eof lt =>
    rw [if_neg (Nat.not_le_of_lt lt)] at h_parse
    exact .err h_parse
  | waits lt ended_eq =>
    rw [if_neg (Nat.not_le_of_lt lt)] at h_parse
    exact .waits h_parse (h_ended.symm.trans ended_eq)

/-- The port behind a domain name, in an array that has been read. -/
theorem getBe_take {bs : List UInt8} (h : 2 ≤ (bs.take 2).length) (mk : ℕ → Address) :
    (StateT.run' (do
      let port ← getBe 2
      return mk port : Cursor Address) (bs.take 2) : Except Stop Address) =
    .ok (mk (ofBeBytes (bs.take 2))) := by
  have h_run := getBe_of_le h
  rw [List.take_take, Nat.min_self] at h_run
  show (do
    let q ← getBe 2 (bs.take 2)
    .ok (mk q.1, q.2) : Except Stop (Address × List UInt8)).map Prod.fst = _
  rw [h_run]
  rfl

/-- The body of a domain name, when its length has been read. -/
theorem streamRun_domainName {ε : Type} {c d : Conn ε} {n : UInt8}
    (h_bytes : c.bytes = addrTypeDomainName :: n :: d.bytes) (h_ended : d.ended = c.ended) :
    StreamRun c ((do
      let addrBuf ← Session.readExact (n.toNat + 2)
      match String.fromUTF8? ⟨(addrBuf.take n.toNat).toArray⟩ with
      | some addr =>
        Session.lift <| StateT.run' (do
          let port ← getBe 2
          return .domainNameAddress addr (UInt16.ofNat port)) (addrBuf.drop n.toNat)
      | none => throw (.stop (.err "invalid address encoding")) : Session ε Address) d) := by
  have h_parse := parse_domainName n d.bytes
  rw [← h_bytes] at h_parse
  rw [bind_run_eq]
  have h_buf := readExactly (n.toNat + 2) d
  generalize Session.readExact (n.toNat + 2) d = r at h_buf ⊢
  cases h_buf with
  | ok le bytes_eq _ =>
    -- the name and the port are read in one go, and cut apart
    have h_take : (d.bytes.take (n.toNat + 2)).take n.toNat = d.bytes.take n.toNat := by
      rw [List.take_take, Nat.min_eq_left (Nat.le_add_right _ 2)]
    have h_drop : (d.bytes.take (n.toNat + 2)).drop n.toNat = (d.bytes.drop n.toNat).take 2 := by
      rw [List.drop_take, Nat.add_sub_cancel_left]
    have h_port : 2 ≤ ((d.bytes.drop n.toNat).take 2).length := by
      rw [List.length_take, List.length_drop]
      omega
    rw [if_pos le, ← bytes_eq] at h_parse
    dsimp only
    rw [h_take, h_drop]
    cases h_utf8 : String.fromUTF8? ⟨(d.bytes.take n.toNat).toArray⟩ with
    | some name =>
      rw [h_utf8] at h_parse
      dsimp only
      rw [getBe_take h_port fun port => .domainNameAddress name (UInt16.ofNat port)]
      exact .ok h_parse
    | none =>
      rw [h_utf8] at h_parse
      exact .err h_parse
  | eof lt =>
    rw [if_neg (Nat.not_le_of_lt lt)] at h_parse
    exact .err h_parse
  | waits lt ended_eq =>
    rw [if_neg (Nat.not_le_of_lt lt)] at h_parse
    exact .waits h_parse (h_ended.symm.trans ended_eq)

/-- How the reader over a stream ends, for any bytes. -/
theorem streamRun {ε : Type} (c : Conn ε) : StreamRun c (readFromStream c) := by
  unfold readFromStream
  rw [bind_run_eq]
  have h_type := readsByte c
  generalize Session.readByte c = r at h_type ⊢
  cases h_type with
  | eof bytes_eq => exact .err (by rw [bytes_eq]; rfl)
  | waits bytes_eq ended_eq => exact .waits (by rw [bytes_eq]; rfl) ended_eq
  | @ok t d bytes_eq ended_eq =>
    dsimp only
    -- in the order of the source, which has IPv6 before the domain name here
    by_cases h_v4 : t = addrTypeIpv4
    · subst h_v4
      rw [if_pos rfl]
      exact streamRun_fixed (n := 4) parse_ipv4 bytes_eq ended_eq
    rw [if_neg h_v4]
    by_cases h_v6 : t = addrTypeIpv6
    · subst h_v6
      rw [if_pos rfl]
      exact streamRun_fixed (n := 16) parse_ipv6 bytes_eq ended_eq
    rw [if_neg h_v6]
    by_cases h_dn : t = addrTypeDomainName
    · subst h_dn
      rw [if_pos rfl, bind_run_eq]
      have h_length := readsByte d
      generalize Session.readByte d = r at h_length ⊢
      cases h_length with
      | ok bytes_eq' ended_eq' =>
        rw [bytes_eq'] at bytes_eq
        exact streamRun_domainName bytes_eq (ended_eq'.trans ended_eq)
      | eof bytes_eq' => exact .err (by rw [bytes_eq, bytes_eq']; rfl)
      | waits bytes_eq' ended_eq' =>
        exact .waits (by rw [bytes_eq, bytes_eq']; rfl) (ended_eq.symm.trans ended_eq')
    rw [if_neg h_dn]
    exact .err (by rw [bytes_eq, parse_other h_v4 h_dn h_v6])

/-- The reader of a stream returns when the stream ends. -/
theorem closes_readFromStream {ε : Type} : Closes (readFromStream : Session ε Address) := by
  intro c h_c e h
  have h_run := streamRun c
  generalize readFromStream c = r at h_run h
  cases h_run with
  | ok => cases h
  | err => cases h; exact ⟨_, rfl⟩
  | waits _ ended_eq => rw [ended_eq] at h_c; cases h_c

/-! ### Round trips -/

/-- The cursor reads an address back, and leaves what comes after it. -/
theorem readFromCursor_writeToBuf {a : Address} (h : a.Encodable) (r : List UInt8) :
    readFromCursor (a.writeToBuf ++ r) = .ok (a, r) := by
  have h_run := cursorRun (a.writeToBuf ++ r)
  generalize readFromCursor (a.writeToBuf ++ r) = x at h_run ⊢
  cases h_run with
  | ok parse_eq =>
    rw [parse_writeToBuf h] at parse_eq
    cases parse_eq
    rfl
  | err parse_eq _ | short parse_eq _ =>
    rw [parse_writeToBuf h] at parse_eq
    cases parse_eq

/-- **The wire format.** An address that can be encoded is written in `serialized_len` bytes, and
both readers read it back and leave what comes after it, the stream however it is cut. What the
cursor has consumed is what would be written. -/
theorem wire_roundTrip {ε : Type} :
    (∀ a : Address, a.Encodable → ∀ r, a.writeToBuf.length = a.serializedLen ∧
      readFromCursor (a.writeToBuf ++ r) = .ok (a, r) ∧
      ∀ (cut : Segmentation (a.writeToBuf ++ r)) (ended : Bool), ∃ d : Conn ε,
        readFromStream (cut.conn ended) = (.ok a, d) ∧ d.bytes = r) ∧
    ∀ bs a r, readFromCursor bs = .ok (a, r) → bs = a.writeToBuf ++ r := by
  refine ⟨fun a h r => ⟨length_writeToBuf a, readFromCursor_writeToBuf h r, fun cut ended => ?_⟩,
    fun bs a r h => ?_⟩
  · have h_run := streamRun (cut.conn ended : Conn ε)
    have h_bytes : (cut.conn ended : Conn ε).bytes = a.writeToBuf ++ r := cut.flatten_eq
    generalize readFromStream (cut.conn ended : Conn ε) = x at h_run ⊢
    -- the bytes parse, so neither an error nor a wait is left
    cases h_run with
    | @ok a' d parse_eq =>
      rw [h_bytes, parse_writeToBuf h] at parse_eq
      obtain ⟨h_a, h_d⟩ := Prod.mk.inj (Option.some.inj parse_eq)
      exact ⟨d, by rw [h_a], h_d.symm⟩
    | err parse_eq | waits parse_eq _ =>
      rw [h_bytes, parse_writeToBuf h] at parse_eq
      cases parse_eq
  · have h_run := cursorRun bs
    rw [h] at h_run
    cases h_run with
    | ok parse_eq => exact (of_parse parse_eq).1

/-- `example.org:443`, with two bytes after it. -/
theorem wire_roundTrip_domain :
    readFromCursor ((domainNameAddress "example.org" 443).writeToBuf ++ [1, 2]) =
      .ok (.domainNameAddress "example.org" 443, [1, 2]) :=
  have h : "example.org".toUTF8.size ≤ 255 := by decide
  (@wire_roundTrip Empty).1 (.domainNameAddress "example.org" 443) h [1, 2] |>.2.1

/-! ### The readers compared -/

/-- Both readers return the same address and have consumed the same bytes, or both return an
error. -/
def SameOutcome {ε : Type} :
    Except Stop (Address × List UInt8) → Except Halt Address × Conn ε → Prop
  | .ok (a, rest), (.ok a', d) => a = a' ∧ rest = d.bytes
  | .error (.err _), (.error (.stop (.err _)), _) => True
  | _, _ => False

/-- **The readers agree**, and none of them panics, unless the domain name is there and the port
is not. -/
theorem readers_agree_iff {ε : Type} (bs : List UInt8) :
    (∀ cut : Segmentation bs,
      SameOutcome (readFromCursor bs) (readFromStream (cut.conn true : Conn ε))) ↔ ¬ Short bs := by
  have h_cursor := cursorRun bs
  generalize readFromCursor bs = x at h_cursor ⊢
  constructor
  · intro h h_short
    have h_ne : bs ≠ [] := by
      rintro rfl
      obtain ⟨_, _, ⟨⟩, _⟩ := h_short
    have h_cut := h ⟨[bs], List.append_nil bs, fun s h_s => List.mem_singleton.mp h_s ▸ h_ne⟩
    cases h_cursor with
    | ok parse_eq =>
      -- a short one is not an address
      obtain ⟨n, rest, rfl, _, h_lt⟩ := h_short
      rw [parse_domainName, if_neg (Nat.not_le_of_lt h_lt)] at parse_eq
      cases parse_eq
    | err _ not_short => exact not_short h_short
    | short _ _ => exact h_cut
  · intro h_short cut
    have h_bytes : (cut.conn true : Conn ε).bytes = bs := cut.flatten_eq
    have h_stream := streamRun (cut.conn true : Conn ε)
    generalize readFromStream (cut.conn true : Conn ε) = y at h_stream ⊢
    cases h_stream with
    | ok parse_eq =>
      rw [h_bytes] at parse_eq
      cases h_cursor with
      | ok parse_eq' =>
        cases parse_eq.symm.trans parse_eq'
        exact ⟨rfl, rfl⟩
      | err parse_eq' _ | short parse_eq' _ => cases parse_eq.symm.trans parse_eq'
    | err parse_eq =>
      rw [h_bytes] at parse_eq
      cases h_cursor with
      | ok parse_eq' => cases parse_eq.symm.trans parse_eq'
      | err _ _ => exact trivial
      | short _ short => exact absurd short h_short
    | waits _ ended_eq => cases ended_eq

/-- A domain name of one byte, and the bytes are at their end: the cursor panics. -/
theorem readers_disagree :
    readFromCursor [3, 1, 97] = .error (.fault .outOfBounds) ∧
      ¬ ∀ (bs : List UInt8) (cut : Segmentation bs),
        SameOutcome (readFromCursor bs) (readFromStream (cut.conn true : Conn Empty)) :=
  ⟨rfl, fun h => h [3, 1, 97] ⟨[[3, 1, 97]], rfl, by decide⟩⟩

end Address

end V2ray

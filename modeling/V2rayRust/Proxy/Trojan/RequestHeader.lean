import V2rayRust.Proxy.AddressText
import V2rayRust.Proxy.Builder

/-!
# The Trojan request header

`RequestHeader` of `proxy/trojan/trojan_stream.rs`. A header is read back, and what is after it is
left, if the password is the same and the first read brings all of the hash (`trojan_handshake`). The
reader looks at neither line break, so it accepts more than what is written (`readFrom_iff`).

`Accepted` is the language of the reader, and a header is in it as it is written
(`writeTo_accepted`). The hash is read by one `read_buf`, and not by `read_exact` as all that
follows it: that is why the first segment counts, and the others do not.
-/

namespace V2ray

/-! ### Lossy text -/

/-- `String::from_utf8_lossy`: what is no character is replaced, as far as it could be the beginning
of one. `rounds` bounds the characters. -/
def fromUtf8Lossy : ℕ → List UInt8 → String
  | 0, _ => ""
  | _ + 1, [] => ""
  | rounds + 1, bs =>
    match utf8First bs with
    | .ok width =>
      (String.fromUTF8? ⟨(bs.take width).toArray⟩).getD "" ++
        fromUtf8Lossy rounds (bs.drop width)
    | .error (some len) => "\uFFFD" ++ fromUtf8Lossy rounds (bs.drop len)
    | .error none => "\uFFFD"

example : fromUtf8Lossy 6 [0x61, 0xE2, 0x82, 0x62, 0xFF, 0xC3] = "a\uFFFDb\uFFFD\uFFFD" := by
  decide +kernel

/-! ### The header -/

namespace RequestHeader

def cmdTcpConnect : UInt8 := 0x01

def cmdUdpAssociate : UInt8 := 0x03

def hashStrLen : ℕ := 56

def crlf : List UInt8 := [13, 10]

/-- What `write_to` writes. -/
def writeTo (header : RequestHeader) : List UInt8 :=
  let (hash, addr, cmd) :=
    match header with
    | tcpConnect hash addr => (hash, addr, cmdTcpConnect)
    | udpAssociate hash => (hash, Address.newDummyAddress, cmdUdpAssociate)
  hash ++ (crlf ++ (cmd :: (addr.writeToBuf ++ crlf)))

/-- What `read_from` returns, and what it leaves in `first_packet`. -/
structure Read where
  result : Except String RequestHeader
  firstPacket : List UInt8

/-- `read_from`, after the hash. -/
def readCommand {ε : Type} (hash firstPacket : List UInt8) : Session ε Read := do
  let _ ← Session.readExact 2
  let cmdBuf ← Session.readExact 1
  let addr ← Address.readFromStream
  let _ ← Session.readExact 2
  if cmdBuf = [cmdTcpConnect] then return ⟨.ok (tcpConnect hash addr), firstPacket⟩
  else if cmdBuf = [cmdUdpAssociate] then return ⟨.ok (udpAssociate hash), firstPacket⟩
  else return ⟨.error "Error: invalid command", firstPacket⟩

/-- `read_from`; an error of the stream halts the session. -/
def readFrom {ε : Type} (validHash firstPacket : List UInt8) : Session ε Read := do
  let hashBuf ← Session.readBuf hashStrLen
  if hashBuf.length ≠ hashStrLen then
    return ⟨.error "Error: first packet too short", firstPacket ++ hashBuf⟩
  else if validHash ≠ hashBuf then
    return ⟨.error ("Error: invalid password hash: " ++ fromUtf8Lossy hashStrLen hashBuf),
      firstPacket ++ hashBuf⟩
  else readCommand hashBuf firstPacket

/-- The hash of a password is the text of its digest. -/
def hashOf (digest : List UInt8) : List UInt8 := digest.flatMap HopConfig.hexByte

/-- A header that a builder writes whose password has this digest. -/
def Sent (digest : List UInt8) : RequestHeader → Prop
  | tcpConnect hash addr => hash = hashOf digest ∧ addr.Encodable
  | udpAssociate hash => hash = hashOf digest

/-- A header that is accepted for a hash, with what comes after it: any two bytes will do for a line
break, and any address for a UDP association. -/
inductive Accepted (hash : List UInt8) : List UInt8 → RequestHeader → List UInt8 → Prop
  | tcpConnect {line line' : List UInt8} {addr : Address} (encodable : addr.Encodable)
      (line_len : line.length = 2) (line_len' : line'.length = 2) (rest : List UInt8) :
      Accepted hash (hash ++ (line ++ (cmdTcpConnect :: (addr.writeToBuf ++ (line' ++ rest)))))
        (.tcpConnect hash addr) rest
  | udpAssociate {line line' : List UInt8} {addr : Address} (encodable : addr.Encodable)
      (line_len : line.length = 2) (line_len' : line'.length = 2) (rest : List UInt8) :
      Accepted hash (hash ++ (line ++ (cmdUdpAssociate :: (addr.writeToBuf ++ (line' ++ rest)))))
        (.udpAssociate hash) rest

end RequestHeader

open RequestHeader

section Read

variable {ε : Type} {c d : Conn ε} {hash firstPacket : List UInt8} {header : RequestHeader}

/-- What a read has found. -/
theorem readExact_split {front : List UInt8} {n : ℕ} (h : Session.readExact n c = (.ok front, d)) :
    c.bytes = front ++ d.bytes ∧ front.length = n := by
  obtain ⟨h_le, rfl, rfl⟩ := readExact_eq_ok.mp h
  refine ⟨?_, List.length_take_of_le h_le⟩
  show c.bytes = c.bytes.take n ++ (dropBytes n c.segments).flatten
  rw [flatten_dropBytes]
  exact (List.take_append_drop n c.bytes).symm

/-- An address that is there. -/
theorem readFromStream_append {addr : Address} {rest : List UInt8}
    (h : c.bytes = addr.writeToBuf ++ rest) (h_addr : addr.Encodable) :
    ∃ d, Address.readFromStream c = (.ok addr, d) ∧ d.bytes = rest := by
  have h_parse := Address.parse_writeToBuf h_addr rest
  rw [← h] at h_parse
  have h_run := Address.streamRun c
  generalize Address.readFromStream c = r at h_run ⊢
  cases h_run with
  | @ok a d parse_eq =>
    obtain ⟨rfl, h_rest⟩ := Prod.mk.inj (Option.some.inj (h_parse.symm.trans parse_eq))
    exact ⟨d, rfl, h_rest.symm⟩
  | err parse_eq => cases h_parse.symm.trans parse_eq
  | waits parse_eq ended_eq => cases h_parse.symm.trans parse_eq

theorem readFromStream_split {addr : Address} (h : Address.readFromStream c = (.ok addr, d)) :
    c.bytes = addr.writeToBuf ++ d.bytes ∧ addr.Encodable := by
  have h_run := Address.streamRun c
  rw [h] at h_run
  cases h_run with
  | ok parse_eq => exact Address.of_parse parse_eq

/-- What is read after the hash, whatever command it is. -/
theorem readCommand_append {line line' rest : List UInt8} {cmd : UInt8} {addr : Address}
    (h : c.bytes = line ++ (cmd :: (addr.writeToBuf ++ (line' ++ rest)))) (h_len : line.length = 2)
    (h_addr : addr.Encodable) (h_len' : line'.length = 2) :
    ∃ d, readCommand hash firstPacket c = (.ok ⟨if [cmd] = [cmdTcpConnect] then
        .ok (.tcpConnect hash addr)
      else if [cmd] = [cmdUdpAssociate] then .ok (.udpAssociate hash)
      else .error "Error: invalid command", firstPacket⟩, d) ∧ d.bytes = rest := by
  obtain ⟨c₁, h_line, h, -⟩ := readExact_append h h_len
  have h_front : c₁.bytes = [cmd] ++ (addr.writeToBuf ++ (line' ++ rest)) := h
  obtain ⟨c₂, h_cmd, h, -⟩ := readExact_append h_front rfl
  obtain ⟨c₃, h_addr, h⟩ := readFromStream_append h h_addr
  obtain ⟨d, h_line', h, -⟩ := readExact_append h h_len'
  refine ⟨d, ?_, h⟩
  refine bind_run_eq_ok.mpr ⟨_, _, h_line, bind_run_eq_ok.mpr ⟨_, _, h_cmd,
    bind_run_eq_ok.mpr ⟨_, _, h_addr, bind_run_eq_ok.mpr ⟨_, _, h_line', ?_⟩⟩⟩⟩
  split
  · rfl
  · split <;> rfl

/-- **After the hash.** -/
theorem readCommand_iff {rest : List UInt8} :
    (∃ d, readCommand hash firstPacket c = (.ok ⟨.ok header, firstPacket⟩, d) ∧ d.bytes = rest) ↔
      Accepted hash (hash ++ c.bytes) header rest := by
  constructor
  · rintro ⟨d, h_run, rfl⟩
    obtain ⟨line, c₁, h_line, h_run⟩ := bind_run_eq_ok.mp h_run
    obtain ⟨cmd, c₂, h_cmd, h_run⟩ := bind_run_eq_ok.mp h_run
    obtain ⟨addr, c₃, h_addr, h_run⟩ := bind_run_eq_ok.mp h_run
    obtain ⟨line', c₄, h_line', h_run⟩ := bind_run_eq_ok.mp h_run
    -- each read splits off its bytes
    obtain ⟨h_bytes, h_len⟩ := readExact_split h_line
    obtain ⟨h_bytes₁, -⟩ := readExact_split h_cmd
    obtain ⟨h_bytes₂, h_encodable⟩ := readFromStream_split h_addr
    obtain ⟨h_bytes₃, h_len'⟩ := readExact_split h_line'
    rw [h_bytes, h_bytes₁, h_bytes₂, h_bytes₃]
    by_cases h_tcp : cmd = [cmdTcpConnect]
    · rw [if_pos h_tcp] at h_run
      cases h_run
      rw [h_tcp]
      exact .tcpConnect h_encodable h_len h_len' _
    · rw [if_neg h_tcp] at h_run
      by_cases h_udp : cmd = [cmdUdpAssociate]
      · rw [if_pos h_udp] at h_run
        cases h_run
        rw [h_udp]
        exact .udpAssociate h_encodable h_len h_len' _
      · -- neither command, and the result is an error
        rw [if_neg h_udp] at h_run
        cases h_run
  · generalize h_bytes : hash ++ c.bytes = bytes
    intro h
    cases h with
    | tcpConnect encodable line_len line_len' rest =>
      exact readCommand_append (List.append_cancel_left h_bytes) line_len encodable line_len'
    | udpAssociate encodable line_len line_len' rest =>
      exact readCommand_append (List.append_cancel_left h_bytes) line_len encodable line_len'

/-- What a read into a buffer finds. -/
theorem readBuf_cons {segment : List UInt8} {segments : List (List UInt8)}
    (h : c.segments = segment :: segments) (room : ℕ) :
    ∃ d, Session.readBuf room c = (.ok (segment.take room), d) ∧
      c.bytes = segment.take room ++ d.bytes := by
  have h_bytes : c.bytes = segment ++ segments.flatten := by
    unfold Conn.bytes
    rw [h, List.flatten_cons]
  unfold Session.readBuf
  rw [h, h_bytes]
  dsimp only
  split
  · refine ⟨_, rfl, ?_⟩
    show segment ++ segments.flatten =
      segment.take room ++ (segment.drop room :: segments).flatten
    rw [List.flatten_cons, ← List.append_assoc, List.take_append_drop]
  · next h_le =>
    rw [List.take_of_length_le (Nat.le_of_not_lt h_le)]
    exact ⟨_, rfl, rfl⟩

theorem readBuf_nil {buf : List UInt8} {room : ℕ} (h : c.segments = [])
    (h_run : Session.readBuf room c = (.ok buf, d)) : buf = [] ∧ d = c := by
  unfold Session.readBuf at h_run
  rw [h] at h_run
  dsimp only at h_run
  split at h_run
  · cases h_run
    exact ⟨rfl, rfl⟩
  · cases h_run

theorem RequestHeader.Accepted.starts {bytes rest : List UInt8}
    (h : Accepted hash bytes header rest) : hash <+: bytes := by
  cases h <;> exact List.prefix_append _ _

/-- The hash is in the first segment if that is long enough. -/
theorem take_of_starts {segment : List UInt8} {segments : List (List UInt8)}
    (h : c.segments = segment :: segments) (h_hash : hash.length = hashStrLen)
    (h_start : hash <+: c.bytes) (h_len : hashStrLen ≤ segment.length) :
    segment.take hashStrLen = hash := by
  have h_bytes : c.bytes = segment ++ segments.flatten := by
    unfold Conn.bytes
    rw [h, List.flatten_cons]
  have h_take := List.prefix_iff_eq_take.mp h_start
  rw [h_hash, h_bytes, List.take_append_of_le_length h_len] at h_take
  exact h_take.symm

/-- A first read that brings less than the hash, or another one: the reader gives all of it back. -/
theorem readFrom_refused {segment validHash : List UInt8} {segments : List (List UInt8)}
    (firstPacket : List UInt8) (h : c.segments = segment :: segments)
    (h_refused : ¬ (hashStrLen ≤ segment.length ∧ segment.take hashStrLen = validHash)) :
    ∃ message returned d, readFrom validHash firstPacket c = (.ok ⟨.error message, returned⟩, d) ∧
      returned ++ d.bytes = firstPacket ++ c.bytes := by
  obtain ⟨d, h_run, h_bytes⟩ := readBuf_cons h hashStrLen
  have h_all : (firstPacket ++ segment.take hashStrLen) ++ d.bytes = firstPacket ++ c.bytes := by
    rw [List.append_assoc, ← h_bytes]
  unfold readFrom
  rw [bind_run_eq, h_run]
  dsimp only
  -- all of the length, so it is another hash
  by_cases h_len : (segment.take hashStrLen).length = hashStrLen
  · rw [if_neg (not_not_intro h_len)]
    have h_hash : validHash ≠ segment.take hashStrLen := by
      rintro rfl
      refine h_refused ⟨?_, rfl⟩
      rw [← h_len]
      exact List.length_take_le' hashStrLen segment
    rw [if_pos h_hash]
    exact ⟨_, _, _, rfl, h_all⟩
  · -- too few bytes
    rw [if_pos h_len]
    exact ⟨_, _, _, rfl, h_all⟩

/-- A first read with the whole hash: the reader goes on with the rest. -/
theorem readFrom_known {segment : List UInt8} {segments : List (List UInt8)}
    (firstPacket : List UInt8) (h : c.segments = segment :: segments)
    (h_len : hashStrLen ≤ segment.length)
    (h_hash : segment.take hashStrLen = hash) :
    ∃ c', readFrom hash firstPacket c = readCommand hash firstPacket c' ∧
      c.bytes = hash ++ c'.bytes := by
  obtain ⟨c', h_run, h_bytes⟩ := readBuf_cons h hashStrLen
  have h_taken := List.length_take_of_le h_len
  rw [h_hash] at h_run h_bytes h_taken
  refine ⟨c', ?_, h_bytes⟩
  unfold readFrom
  rw [bind_run_eq, h_run]
  dsimp only
  rw [if_neg (not_not_intro h_taken), if_neg (not_not_intro rfl)]

/-- **What the reader accepts.** It returns a header if and only if the first read has brought all
of the hash and the bytes are those of a header with this hash. -/
theorem readFrom_iff {rest : List UInt8} (h_hash : hash.length = hashStrLen) :
    (∃ d, readFrom hash firstPacket c = (.ok ⟨.ok header, firstPacket⟩, d) ∧ d.bytes = rest) ↔
      (∃ segment segments, c.segments = segment :: segments ∧ hashStrLen ≤ segment.length) ∧
        Accepted hash c.bytes header rest := by
  cases h : c.segments with
  -- nothing comes, so the first read has no bytes
  | nil =>
    refine iff_of_false ?_ ?_
    · rintro ⟨d, h_run, -⟩
      obtain ⟨buf, c', h_buf, h_run⟩ := bind_run_eq_ok.mp h_run
      obtain ⟨rfl, -⟩ := readBuf_nil h h_buf
      rw [if_pos (by decide)] at h_run
      cases h_run
    · rintro ⟨⟨_, _, h_cons, -⟩, -⟩
      cases h_cons
  | cons segment segments =>
    by_cases h_known : hashStrLen ≤ segment.length ∧ segment.take hashStrLen = hash
    · -- the hash is known, and the rest is about what comes after it
      obtain ⟨c', h_run, h_bytes⟩ := readFrom_known firstPacket h h_known.1 h_known.2
      rw [h_run, h_bytes, readCommand_iff]
      exact (and_iff_right ⟨_, _, rfl, h_known.1⟩).symm
    · -- it is not, and the reader has given back what it took
      refine iff_of_false ?_ ?_
      · rintro ⟨d, h_run, -⟩
        obtain ⟨_, _, _, h_refused, -⟩ := readFrom_refused firstPacket h h_known
        cases h_run.symm.trans h_refused
      · rintro ⟨⟨_, _, h_cons, h_len⟩, h_accepted⟩
        cases h_cons
        exact h_known ⟨h_len, take_of_starts h h_hash h_accepted.starts h_len⟩

/-- The line breaks need not be any. -/
theorem readFrom_iff_anyLine :
    let hash := List.replicate hashStrLen (97 : UInt8)
    let addr : Address := .socketAddress (.v4 0x7F000001 80)
    ∃ d : Conn Empty, readFrom hash [] ⟨[hash ++ ([0, 0] ++ (cmdTcpConnect ::
      (addr.writeToBuf ++ ([1, 2] ++ [])))), [7]], true, []⟩ =
        (.ok ⟨.ok (.tcpConnect hash addr), []⟩, d) ∧ d.bytes = [7] := by
  intro hash addr
  refine (readFrom_iff List.length_replicate).mpr ⟨⟨_, _, rfl, by decide⟩, ?_⟩
  have h_addr : addr.Encodable := trivial
  have h_line : ([0, 0] : List UInt8).length = 2 := rfl
  have h_line' : ([1, 2] : List UInt8).length = 2 := rfl
  exact .tcpConnect h_addr h_line h_line' [7]

end Read

/-! ### The text of a digest -/

/-- Bytes are told apart by their digits. -/
theorem hexByte_injective : Function.Injective HopConfig.hexByte := by
  have h_digit : ∀ n m : Fin 16,
      (if n.val < 10 then UInt8.ofNat (48 + n.val) else UInt8.ofNat (87 + n.val)) =
        (if m.val < 10 then UInt8.ofNat (48 + m.val) else UInt8.ofNat (87 + m.val)) → n = m := by
    decide
  intro t t' h
  obtain ⟨h_high, h_low⟩ := List.cons_eq_cons.mp h
  obtain ⟨h_low, -⟩ := List.cons_eq_cons.mp h_low
  have h_div := Fin.mk.inj (h_digit ⟨t.toNat / 16, by have := t.toNat_lt; omega⟩
    ⟨t'.toNat / 16, by have := t'.toNat_lt; omega⟩ h_high)
  have h_mod := Fin.mk.inj (h_digit ⟨t.toNat % 16, Nat.mod_lt _ (by decide)⟩
    ⟨t'.toNat % 16, Nat.mod_lt _ (by decide)⟩ h_low)
  refine UInt8.toNat_inj.mp ?_
  rw [← Nat.div_add_mod t.toNat 16, h_div, h_mod, Nat.div_add_mod]

theorem length_hashOf (digest : List UInt8) : (hashOf digest).length = 2 * digest.length := by
  induction digest with
  | nil => rfl
  | cons t digest ih =>
    show (HopConfig.hexByte t ++ hashOf digest).length = _
    rw [List.length_append, ih, List.length_cons]
    show 2 + _ = _
    omega

/-- So digests are told apart by their hashes. -/
theorem hashOf_injective : Function.Injective hashOf := by
  intro digest digest' h
  have h_len := congrArg List.length h
  rw [length_hashOf, length_hashOf] at h_len
  induction digest generalizing digest' with
  | nil =>
    exact (List.eq_nil_of_length_eq_zero (by rw [List.length_nil] at h_len; omega)).symm
  | cons t digest ih =>
    cases digest' with
    | nil => rw [List.length_nil, List.length_cons] at h_len; omega
    | cons t' digest' =>
      obtain ⟨h_t, h_digest⟩ := List.append_inj
        (show HopConfig.hexByte t ++ hashOf digest = HopConfig.hexByte t' ++ hashOf digest' from h)
        rfl
      rw [List.length_cons, List.length_cons] at h_len
      rw [hexByte_injective h_t, ih h_digest (by omega)]

/-! ### Client and server -/

/-- What is written is accepted, as what it was. -/
theorem writeTo_accepted {digest : List UInt8} {header : RequestHeader} (h : header.Sent digest)
    (rest : List UInt8) : Accepted (hashOf digest) (header.writeTo ++ rest) header rest := by
  have h_written : ∀ (hash : List UInt8) (addr : Address) (cmd : UInt8),
      hash ++ (crlf ++ (cmd :: (addr.writeToBuf ++ crlf))) ++ rest =
        hash ++ (crlf ++ (cmd :: (addr.writeToBuf ++ (crlf ++ rest)))) := by
    intro hash addr cmd
    simp only [List.append_assoc, List.cons_append]
  cases header with
  | tcpConnect hash addr =>
    obtain ⟨rfl, h_addr⟩ := h
    show Accepted _ (hashOf digest ++ (crlf ++ (cmdTcpConnect :: (addr.writeToBuf ++ crlf))) ++
      rest) _ _
    rw [h_written]
    exact .tcpConnect h_addr rfl rfl rest
  | udpAssociate hash =>
    cases (h : hash = hashOf digest)
    show Accepted _ (hashOf digest ++ (crlf ++ (cmdUdpAssociate ::
      (Address.newDummyAddress.writeToBuf ++ crlf))) ++ rest) _ _
    rw [h_written]
    have h_addr : Address.newDummyAddress.Encodable := trivial
    exact .udpAssociate h_addr rfl rfl rest

/-- **Client and server.** A header, cut anyhow, is read back with what is after it in the stream if
the passwords have one digest and the first read brings the whole hash; else the reader gives back
all that it took. -/
theorem trojan_handshake {ε : Type} {digest digest' : List UInt8} (h_digest : digest.length = 28)
    (h_digest' : digest'.length = 28) {header : RequestHeader} (h_sent : header.Sent digest)
    {rest : List UInt8} (cut : Segmentation (header.writeTo ++ rest)) (ended : Bool)
    (firstPacket : List UInt8) :
    let r := readFrom (hashOf digest') firstPacket (cut.conn ended : Conn ε)
    let known := digest = digest' ∧ hashStrLen ≤ (cut.segments.headD []).length
    (known → r.1 = .ok ⟨.ok header, firstPacket⟩ ∧ r.2.bytes = rest) ∧
      (¬ known → ∃ message returned, r.1 = .ok ⟨.error message, returned⟩ ∧
        returned ++ r.2.bytes = firstPacket ++ (header.writeTo ++ rest)) := by
  have h_len : (hashOf digest).length = hashStrLen := by rw [length_hashOf, h_digest]; rfl
  have h_accepted := writeTo_accepted h_sent rest
  have h_bytes : (cut.conn ended : Conn ε).bytes = header.writeTo ++ rest := cut.flatten_eq
  rw [← h_bytes] at h_accepted
  intro r known
  cases h : cut.segments with
  -- the header is not empty, so something comes
  | nil =>
    have h_nil : header.writeTo ++ rest = [] := by rw [← cut.flatten_eq, h, List.flatten_nil]
    have h_start := h_accepted.starts
    rw [h_bytes, h_nil] at h_start
    rw [List.prefix_nil.mp h_start] at h_len
    cases h_len
  | cons segment segments =>
    have h_segments : (cut.conn ended : Conn ε).segments = segment :: segments := h
    -- the first read is the hash exactly if it is long enough and the digests are the same
    have h_known : known ↔ hashStrLen ≤ segment.length ∧
        segment.take hashStrLen = hashOf digest' := by
      show digest = digest' ∧ hashStrLen ≤ (cut.segments.headD []).length ↔ _
      rw [h]
      constructor
      · rintro ⟨rfl, h_first⟩
        exact ⟨h_first, take_of_starts h_segments h_len h_accepted.starts h_first⟩
      · rintro ⟨h_first, h_take⟩
        rw [take_of_starts h_segments h_len h_accepted.starts h_first] at h_take
        exact ⟨hashOf_injective h_take, h_first⟩
    constructor
    · -- the reader accepts what has been written
      intro h_this
      obtain rfl : digest = digest' := h_this.1
      obtain ⟨d, h_run, h_rest⟩ := (readFrom_iff h_len).mpr
        ⟨⟨segment, segments, h_segments, (h_known.mp h_this).1⟩, h_accepted⟩
      rw [show r = _ from h_run]
      exact ⟨rfl, h_rest⟩
    · -- it gives back the first read, whatever it is
      intro h_unknown
      obtain ⟨message, returned, d, h_run, h_all⟩ :=
        readFrom_refused firstPacket h_segments (h_known.not.mp h_unknown)
      rw [h_bytes] at h_all
      exact ⟨message, returned, by rw [show r = _ from h_run], by rw [show r = _ from h_run, h_all]⟩

/-- A header that is cut after the hash is read, and one that is cut before its last byte is given
back. -/
theorem trojan_handshake_cut :
    let digest := List.replicate 28 (0xAB : UInt8)
    let header : RequestHeader := .udpAssociate (hashOf digest)
    ∃ cut cut' : Segmentation (header.writeTo ++ [7]),
      (readFrom (hashOf digest) [] (cut.conn true : Conn Empty)).1 = .ok ⟨.ok header, []⟩ ∧
        ∃ message returned, (readFrom (hashOf digest) [] (cut'.conn true : Conn Empty)).1 =
          .ok ⟨.error message, returned⟩ := by
  intro digest header
  have h_digest : digest.length = 28 := rfl
  have h_sent : header.Sent digest := rfl
  let cut (n : ℕ) (h : header.writeTo.take n ≠ []) : Segmentation (header.writeTo ++ [7]) :=
    ⟨[header.writeTo.take n, header.writeTo.drop n ++ [7]], by simp [← List.append_assoc],
      by simpa using h⟩
  have h_56 : header.writeTo.take 56 ≠ [] := by simp [header, writeTo]
  have h_55 : header.writeTo.take 55 ≠ [] := by simp [header, writeTo]
  refine ⟨cut 56 h_56, cut 55 h_55, ?_, ?_⟩
  · exact ((trojan_handshake h_digest h_digest h_sent (cut 56 h_56) true []).1 ⟨rfl, by rfl⟩).1
  · obtain ⟨message, returned, h_run, -⟩ :=
      (trojan_handshake h_digest h_digest h_sent (cut 55 h_55) true []).2
        (fun h => absurd (show 56 ≤ 55 from h.2) (by decide))
    exact ⟨message, returned, h_run⟩

end V2ray

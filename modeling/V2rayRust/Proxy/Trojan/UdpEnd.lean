import V2rayRust.Proxy.Trojan.TrojanUdp

/-!
# The end of a Trojan stream

Wherever `TrojanUdpReader` waits for bytes, it answers the end of the stream with `Ok(())`, and
`poll_recv_from` makes an address of that: the one of a frame without its payload, an old one, or
the default. The task `read_handle` of `Socks5UdpDatagram::run` cannot tell such an answer from a
datagram, and sends it to the client.

So every `Ok` is a datagram of the stream if and only if the reader does not listen until the end
of the stream, that is, if before it there is a head that the reader rejects
(`TrojanUdpReader.noPhantom_iff`).
-/

namespace V2ray

namespace Datagram

/-- The head of a frame at the front of some bytes: the address, the length of the payload, and
what comes after `\r\n`. Nobody looks at these two bytes. -/
def parseHead (bs : List UInt8) : Option ((Address × ℕ) × List UInt8) :=
  match Address.parse bs with
  | some (addr, bs) =>
    if 4 ≤ bs.length then some ((addr, ofBeBytes (bs.take 2)), bs.drop 4) else none
  | none => none

/-- The frame at the front of some bytes, and what comes after it. -/
def parse (bs : List UInt8) : Option (Datagram × List UInt8) :=
  match parseHead bs with
  | some ((addr, n), bs) =>
    if n ≤ bs.length then some (⟨addr, bs.take n⟩, bs.drop n) else none
  | none => none

/-- What the first frames of some bytes carry, and what comes after these frames. A frame without
a payload carries no datagram. -/
inductive Carries : List UInt8 → List Datagram → List UInt8 → Prop
  | nil {bs : List UInt8} : Carries bs [] bs
  | skip {bs bs' rest : List UInt8} {d : Datagram} {ds : List Datagram}
      (parse_eq : parse bs = some (d, bs')) (nothing : d.payload = [])
      (more : Carries bs' ds rest) : Carries bs ds rest
  | datagram {bs bs' rest : List UInt8} {d : Datagram} {ds : List Datagram}
      (parse_eq : parse bs = some (d, bs')) (payload : d.payload ≠ [])
      (more : Carries bs' ds rest) : Carries bs (d :: ds) rest

/-- A head without an address: its type is not known, or it is all there, and its domain name is
not UTF-8. -/
inductive BadHead : List UInt8 → Prop
  | kind {t n : UInt8} {bs : List UInt8} (not_v4 : t ≠ Address.addrTypeIpv4)
      (not_name : t ≠ Address.addrTypeDomainName) (not_v6 : t ≠ Address.addrTypeIpv6) :
      BadHead (t :: n :: bs)
  | name {n : UInt8} {bs : List UInt8} (le : n.toNat + 6 ≤ bs.length)
      (not_utf8 : String.fromUTF8? ⟨(bs.take n.toNat).toArray⟩ = none) :
      BadHead (Address.addrTypeDomainName :: n :: bs)

/-- After some frames there is a bad head. -/
inductive Rejected : List UInt8 → Prop
  | head {bs : List UInt8} (bad : BadHead bs) : Rejected bs
  | frame {bs bs' : List UInt8} {d : Datagram} (parse_eq : parse bs = some (d, bs'))
      (later : Rejected bs') : Rejected bs

end Datagram

namespace TrojanUdpReader

open Datagram

/-- The datagrams among the results of `poll_recv_from`. -/
def oks (results : List (Except String Datagram)) : List Datagram :=
  results.filterMap Except.toOption

/-- The task `read_handle` of `Socks5UdpDatagram::run`: what it has sent to the client after so many
polls of `recv_from`. The destinations are those of `recvRun`. -/
def readHandle (room : ℕ → ℕ → ℕ) :
    ℕ → ℕ → TrojanUdpReader → List ReadEvent → Except Fault (List Datagram)
  | 0, _, _, _ => .ok []
  | n + 1, k, r, es => do
    let x ← r.pollRecvFrom es (room n k)
    match x.result with
    | .pending => readHandle room n k x.state x.events
    | .ready (.ok addr) =>
      let forwarded ← readHandle room n (k + 1) x.state x.events
      return ⟨addr, x.put⟩ :: forwarded
    -- `?` ends the task
    | .ready (.error _) => return []

/-- **No phantom datagrams**: with destinations that have room for every payload, each `Ok` of
`poll_recv_from`, and all that is sent to the client, is what the next frame that is complete
carries. -/
def NoPhantom (es : List ReadEvent) : Prop :=
  ∀ room : ℕ → ℕ → ℕ, (∀ n k, 65535 ≤ room n k) → ∀ polls, ∃ results forwarded,
    recvRun room polls 0 .new es = .ok results ∧
    (∃ rest, Carries (bytesToEnd es) (oks results) rest) ∧
    readHandle room polls 0 .new es = .ok forwarded ∧
    ∃ rest, Carries (bytesToEnd es) forwarded rest

end TrojanUdpReader

namespace Datagram

variable {bs bs' rest : List UInt8} {d : Datagram} {ds : List Datagram} {addr : Address} {n : ℕ}

/-! ### Frames -/

/-- A head is an address, a length and two bytes that nobody looks at. -/
theorem parseHead_eq_some (h : parseHead bs = some ((addr, n), rest)) :
    ∃ r, Address.parse bs = some (addr, r) ∧ 4 ≤ r.length ∧ n = ofBeBytes (r.take 2) ∧
      rest = r.drop 4 := by
  unfold parseHead at h
  split at h
  · next addr' r h_addr =>
    split at h
    · next h_le => cases h; exact ⟨r, h_addr, h_le, rfl, rfl⟩
    · cases h
  · cases h

/-- A frame is a head and as many bytes as its length says. -/
theorem parse_eq_some (h : parse bs = some (d, rest)) :
    ∃ n r, parseHead bs = some ((d.addr, n), r) ∧ n ≤ r.length ∧ d.payload = r.take n ∧
      rest = r.drop n := by
  unfold parse at h
  split at h
  · next addr n r h_head =>
    split at h
    · next h_le => cases h; exact ⟨n, r, h_head, h_le, rfl, rfl⟩
    · cases h
  · cases h

theorem parse_of_parseHead (h : parseHead bs = some ((addr, n), rest)) (h_le : n ≤ rest.length) :
    parse bs = some (⟨addr, rest.take n⟩, rest.drop n) := by
  unfold parse
  rw [h]
  exact if_pos h_le

/-- A head can be read off as soon as it is there. -/
theorem parseHead_append (h : parseHead bs = some ((addr, n), rest)) (more : List UInt8) :
    parseHead (bs ++ more) = some ((addr, n), rest ++ more) := by
  obtain ⟨r, h_addr, h_le, rfl, rfl⟩ := parseHead_eq_some h
  obtain ⟨rfl, h_encodable⟩ := Address.of_parse h_addr
  unfold parseHead
  rw [List.append_assoc, Address.parse_writeToBuf h_encodable]
  dsimp only
  rw [if_pos (Nat.le_trans h_le (by simp)), List.take_append_of_le_length (by omega),
    List.drop_append_of_le_length h_le]

/-- The first two bytes tell how long the head is. -/
theorem headLength_of_parseHead (h : parseHead bs = some ((addr, n), rest)) :
    TrojanUdpReader.headLength bs = .ok (addr.serializedLen + 4) ∧
      bs.length = addr.serializedLen + 4 + rest.length := by
  obtain ⟨r, h_addr, h_le, -, rfl⟩ := parseHead_eq_some h
  obtain ⟨rfl, h_encodable⟩ := Address.of_parse h_addr
  refine ⟨TrojanUdpReader.headLength_writeToBuf h_encodable r, ?_⟩
  rw [List.length_append, Address.length_writeToBuf, List.length_drop]
  omega

/-- No payload is longer than two bytes can tell. -/
theorem length_le_of_parseHead (h : parseHead bs = some ((addr, n), rest)) : n ≤ 65535 := by
  obtain ⟨r, -, h_le, rfl, -⟩ := parseHead_eq_some h
  have h_lt := ofBeBytes_lt (r.take 2)
  rw [List.length_take_of_le (by omega)] at h_lt
  omega

theorem length_lt_of_parse (h : parse bs = some (d, rest)) : rest.length < bs.length := by
  obtain ⟨n, r, h_head, -, -, rfl⟩ := parse_eq_some h
  have h_len := (headLength_of_parseHead h_head).2
  rw [List.length_drop]
  omega

theorem BadHead.parseHead_eq_none (h : BadHead bs) : parseHead bs = none := by
  unfold parseHead
  cases h with
  | kind not_v4 not_name not_v6 => rw [Address.parse_other not_v4 not_name not_v6]
  | name le not_utf8 =>
    rw [Address.parse_domainName, if_pos (by omega), not_utf8]
    rfl

theorem BadHead.parse_eq_none (h : BadHead bs) : parse bs = none := by
  unfold parse
  rw [h.parseHead_eq_none]

/-- Frames come off the front of what is rejected. -/
theorem rejected_of_parse (h : parse bs = some (d, rest)) : Rejected bs ↔ Rejected rest := by
  constructor
  · intro h_rejected
    cases h_rejected with
    | head bad => rw [bad.parse_eq_none] at h; cases h
    | frame parse_eq later => rw [parse_eq] at h; cases h; exact later
  · exact .frame h

theorem not_rejected (h_bad : ¬ BadHead bs) (h : parse bs = none) : ¬ Rejected bs := by
  intro h_rejected
  cases h_rejected with
  | head bad => exact h_bad bad
  | frame parse_eq => rw [h] at parse_eq; cases parse_eq

namespace Carries

theorem trans {ds' : List Datagram} (h : Carries bs ds bs') (h' : Carries bs' ds' rest) :
    Carries bs (ds ++ ds') rest := by
  induction h with
  | nil => exact h'
  | skip parse_eq nothing _ ih => exact .skip parse_eq nothing (ih h')
  | datagram parse_eq payload _ ih => exact .datagram parse_eq payload (ih h')

theorem rejected_iff (h : Carries bs ds rest) : Rejected bs ↔ Rejected rest := by
  induction h with
  | nil => exact Iff.rfl
  | skip parse_eq _ _ ih | datagram parse_eq _ _ ih => exact (rejected_of_parse parse_eq).trans ih

theorem length_le (h : Carries bs ds rest) : rest.length ≤ bs.length := by
  induction h with
  | nil => exact Nat.le_refl _
  | skip parse_eq _ _ ih | datagram parse_eq _ _ ih =>
    exact Nat.le_trans ih (Nat.le_of_lt (length_lt_of_parse parse_eq))

theorem length_lt (h : Carries bs (d :: ds) rest) : rest.length < bs.length := by
  generalize h_ds : d :: ds = ds' at h
  induction h with
  | nil => cases h_ds
  | skip parse_eq _ _ ih => exact Nat.lt_trans (ih h_ds) (length_lt_of_parse parse_eq)
  | datagram parse_eq _ more =>
    exact Nat.lt_of_le_of_lt more.length_le (length_lt_of_parse parse_eq)

theorem payload_ne_nil (h : Carries bs ds rest) : ∀ d ∈ ds, d.payload ≠ [] := by
  induction h with
  | nil => exact fun d h_d => (by cases h_d)
  | skip _ _ _ ih => exact ih
  | datagram _ payload _ ih => exact List.forall_mem_cons.mpr ⟨payload, ih⟩

end Carries

end Datagram

namespace TrojanUdpReader

open Datagram

variable {r r' : TrojanUdpReader} {es es' : List ReadEvent} {room : ℕ} {buffer t t' : List UInt8}
  {n : ℕ}

/-! ### Heads -/

/-- Two bytes are the beginning of a head, or the reader rejects them. -/
theorem headLength_cases (h : 2 ≤ buffer.length) :
    (∃ n, headLength buffer = .ok n ∧ 2 ≤ n) ∨
      ∃ message, headLength buffer = .error (.err message) ∧ ∀ more, BadHead (buffer ++ more) := by
  match buffer with
  | [] => cases h
  | [_] => exact absurd h (Nat.not_succ_le_self 1)
  | t :: b :: bs =>
    by_cases h_v4 : t = 0x01
    · exact Or.inl ⟨1 + 4 + 2 + 4, if_pos h_v4, by decide⟩
    by_cases h_v6 : t = 0x4
    · exact Or.inl ⟨1 + 16 + 2 + 4, (if_neg h_v4).trans (if_pos h_v6), by decide⟩
    by_cases h_name : t = 0x3
    · exact Or.inl ⟨2 + b.toNat + 2 + 4,
        (if_neg h_v4).trans ((if_neg h_v6).trans (if_pos h_name)), by omega⟩
    · exact Or.inr ⟨_, (if_neg h_v4).trans ((if_neg h_v6).trans (if_neg h_name)),
        fun more => .kind h_v4 h_name h_v6⟩

/-- A bad head whose length the first two bytes tell is all there. -/
theorem length_le_of_badHead (h : BadHead t) (h_length : headLength t = .ok n) : n ≤ t.length := by
  cases h with
  | @kind k b bs not_v4 not_name not_v6 =>
    have h_err : headLength (k :: b :: bs) =
        .error (.err ("not supported address type " ++ hexText k)) :=
      (if_neg not_v4).trans ((if_neg not_v6).trans (if_neg not_name))
    rw [h_err] at h_length
    cases h_length
  | @name b bs le not_utf8 =>
    cases h_length
    rw [List.length_cons, List.length_cons]
    omega

/-- A head of the length that its first two bytes tell has an address, or it is bad. -/
theorem badHead_of_parse (h_length : headLength t = .ok n) (h_le : n ≤ t.length)
    (h : Address.parse t = none) (more : List UInt8) : BadHead (t ++ more) := by
  match t with
  | [] | [_] => cases h_length
  | k :: b :: bs =>
    by_cases h_v4 : k = 0x01
    · -- all of an IPv4 address is there
      subst h_v4
      cases h_length
      have h_none := (Address.parse_ipv4 (b :: bs)).symm.trans h
      rw [if_pos (by rw [List.length_cons] at h_le; omega)] at h_none
      cases h_none
    by_cases h_v6 : k = 0x4
    · subst h_v6
      cases h_length
      have h_none := (Address.parse_ipv6 (b :: bs)).symm.trans h
      rw [if_pos (by rw [List.length_cons] at h_le; omega)] at h_none
      cases h_none
    by_cases h_name : k = 0x3
    · -- and all of a domain name, so it is not UTF-8
      subst h_name
      cases h_length
      rw [List.length_cons, List.length_cons] at h_le
      have h_none := (Address.parse_domainName b bs).symm.trans h
      rw [if_pos (by omega)] at h_none
      show BadHead (Address.addrTypeDomainName :: b :: (bs ++ more))
      refine .name (by rw [List.length_append]; omega) ?_
      rw [List.take_append_of_le_length (by omega)]
      exact Option.map_eq_none_iff.mp h_none
    · exact .kind h_v4 h_name h_v6

/-- A whole head is read, or rejected with an error. -/
theorem readHead_cases (h_length : headLength buffer = .ok n) (h_le : n ≤ buffer.length) :
    (∃ x, readHead buffer = .ok x ∧ parseHead buffer = some x) ∨
      ∃ message, readHead buffer = .error (.err message) ∧ ∀ more, BadHead (buffer ++ more) := by
  have h_run := Address.cursorRun buffer
  generalize h_cursor : Address.readFromCursor buffer = x at h_run
  cases h_run with
  | @ok x parse_eq =>
    obtain ⟨addr, r⟩ := x
    obtain ⟨rfl, h_encodable⟩ := Address.of_parse parse_eq
    -- the length and `\r\n` are there as well
    have h_four : 4 ≤ r.length := by
      rw [headLength_writeToBuf h_encodable] at h_length
      cases h_length
      rw [List.length_append, Address.length_writeToBuf] at h_le
      omega
    refine Or.inl ⟨((addr, ofBeBytes (r.take 2)), r.drop 4), ?_, ?_⟩
    · have h_addr : Address.readFromBuf (addr.writeToBuf ++ r) = .ok addr := by
        rw [Address.readFromBuf_eq, h_cursor]
        rfl
      have h_two : 2 ≤ (r.drop 2).length := by
        rw [List.length_drop]
        omega
      unfold readHead
      rw [h_addr, ok_bind]
      show (do
          let x ← Cursor.copyToSlice addr.serializedLen (addr.writeToBuf ++ r)
          let y ← Cursor.getBe 2 x.2
          let z ← Cursor.copyToSlice 2 y.2
          .ok ((addr, y.1), z.2) : Except Stop ((Address × ℕ) × List UInt8)) = _
      rw [Cursor.copyToSlice_append (Address.length_writeToBuf _), ok_bind,
        Cursor.getBe_of_le (Nat.le_trans (by decide) h_four), ok_bind,
        Cursor.copyToSlice_of_le h_two, ok_bind, List.drop_drop]
    · unfold parseHead
      rw [parse_eq]
      exact if_pos h_four
  | @err message parse_eq not_short =>
    refine Or.inr ⟨message, ?_, badHead_of_parse h_length h_le parse_eq⟩
    unfold readHead
    rw [Address.readFromBuf_eq, h_cursor]
    rfl
  | short parse_eq short =>
    -- the two bytes after the name are there
    obtain ⟨b, bs, rfl, -, h_lt⟩ := short
    cases h_length
    rw [List.length_cons, List.length_cons] at h_le
    omega

/-! ### One poll -/

/-- These bytes begin with the frame that the reader is at: where it is within the frame, and what
it knows of it. -/
inductive At (r : TrojanUdpReader) (es : List ReadEvent) (t : List UInt8) : Prop
  | kind (stage_eq : r.stage = .kind) (bytes_eq : r.buffer ++ bytesToEnd es = t)
  | head (stage_eq : r.stage = .head) (length_eq : headLength t = .ok r.dataLength)
      (two_le : 2 ≤ r.dataLength) (bytes_eq : r.buffer ++ bytesToEnd es = t)
  | payload (stage_eq : r.stage = .payload)
      (head_eq : parseHead t = some ((r.addr, r.dataLength), r.buffer ++ bytesToEnd es))
  | put (stage_eq : r.stage = .put)
      (head_eq : parseHead t = some ((r.addr, r.dataLength), r.buffer ++ bytesToEnd es))
      (full : r.dataLength ≤ r.buffer.length)
  | after (stage_eq : r.stage = .put) (nothing : r.dataLength = 0)
      (bytes_eq : r.buffer ++ bytesToEnd es = t)

/-- What is known between two rounds of a poll: the frames that have been passed over carry
nothing. -/
inductive Between (es : List ReadEvent) (t : List UInt8) (r : TrojanUdpReader)
    (es' : List ReadEvent) : Prop
  | intro {t' : List UInt8} (carries : Carries t [] t') (at_frame : At r es' t')
      (ends_eq : ends es' = ends es) (length_le : es'.length ≤ es.length)

/-- What a poll leaves: the next datagram is put, or the poll is pending, or it fails, because the
stream does or because the reader rejects what is to come, or it is `Ok` at the end of the stream
with nothing put. -/
inductive Polled (es : List ReadEvent) (t : List UInt8) (x : ReadPoll TrojanUdpReader) : Prop
  | datagram {d : Datagram} {t' : List UInt8} (carries : Carries t [d] t')
      (result_eq : x.result = .ready (.ok ())) (addr_eq : x.state.addr = d.addr)
      (put_eq : x.put = d.payload) (stage_eq : x.state.stage = .put)
      (nothing : x.state.dataLength = 0) (bytes_eq : x.state.buffer ++ bytesToEnd x.events = t')
      (ends_eq : ends x.events = ends es) (length_le : x.events.length ≤ es.length)
  | pending (result_eq : x.result = .pending) (between : Between es t x.state x.events)
      (spent : x.events.length < es.length ∨ ends es = false)
  | failed {message : String} (result_eq : x.result = .ready (.error message))
      (done : x.state.stage = .done) (reason : ends es = false ∨ Rejected t)
  | ended (result_eq : x.result = .ready (.ok ())) (done : x.state.stage = .done)
      (put_eq : x.put = []) (ends_eq : ends es = true) (not_rejected : ¬ Rejected t)

/-- What holds of the rest of a poll holds of the whole poll. -/
theorem Polled.of_carries {x : ReadPoll TrojanUdpReader} (h : Carries t [] t')
    (h_ends : ends es' = ends es) (h_le : es'.length ≤ es.length) (h_x : Polled es' t' x) :
    Polled es t x := by
  cases h_x with
  | datagram carries result_eq addr_eq put_eq stage_eq nothing bytes_eq ends_eq length_le =>
    exact .datagram (h.trans carries) result_eq addr_eq put_eq stage_eq nothing bytes_eq
      (ends_eq.trans h_ends) (Nat.le_trans length_le h_le)
  | pending result_eq between spent =>
    obtain ⟨carries, at_frame, ends_eq, length_le⟩ := between
    exact .pending result_eq
      ⟨h.trans carries, at_frame, ends_eq.trans h_ends, Nat.le_trans length_le h_le⟩
      (spent.imp (fun h_lt => Nat.lt_of_lt_of_le h_lt h_le) h_ends.symm.trans)
  | failed result_eq done reason =>
    exact .failed result_eq done (reason.imp h_ends.symm.trans h.rejected_iff.mpr)
  | ended result_eq done put_eq ends_eq not_rejected =>
    exact .ended result_eq done put_eq (h_ends.symm.trans ends_eq)
      fun h_rejected => not_rejected (h.rejected_iff.mp h_rejected)

/-- A round that does not end with a datagram or a wait. -/
inductive Filling (r : TrojanUdpReader) (es : List ReadEvent) (room : ℕ) (es' : List ReadEvent)
    (t : List UInt8) : Prop
  | next {r' : TrojanUdpReader} (next : Next r es room r' es') (at_frame : At r' es' t)
  | rejects {x : ReadPoll TrojanUdpReader} {message : String}
      (round_eq : r.round es room = .ok (.leave x)) (result_eq : x.result = .ready (.error message))
      (done : x.state.stage = .done) (rejected : Rejected t)

/-- **A round that waits** for `n` bytes. If the stream ends before they are there, then the frame
is not complete. -/
theorem round_waits (h_wants : r.wants = some n)
    (h_at : ∀ buffer es', buffer ++ bytesToEnd es' = r.buffer ++ bytesToEnd es →
      At { r with buffer } es' t)
    (h_short : (r.buffer ++ bytesToEnd es).length < n → ¬ Rejected t)
    (h_full : ∀ buffer es', readAtLeast n r.buffer es = (.full, buffer, es') →
      buffer ++ bytesToEnd es' = r.buffer ++ bytesToEnd es → n ≤ buffer.length →
        Filling r es room es' t) :
    (∃ r' es', r.round es room = .ok (.next r' es') ∧ Between es t r' es') ∨
      ∃ x, r.round es room = .ok (.leave x) ∧ Polled es t x := by
  rcases h_read : readAtLeast n r.buffer es with ⟨f, buffer, es'⟩
  have h_le := (readAtLeast_cases h_read).2.1.length_le
  have h_cases := readToEnd h_read
  cases h_cases with
  -- the bytes are there, and the round is decided by them
  | full le bytes_eq ends_eq =>
    have h_filling := h_full buffer es' h_read bytes_eq le
    cases h_filling with
    | next next at_frame =>
      exact Or.inl ⟨_, es', round_of_next next, .nil, at_frame, ends_eq, h_le⟩
    | rejects round_eq result_eq done rejected =>
      exact Or.inr ⟨_, round_eq, .failed result_eq done (Or.inr rejected)⟩
  -- the stream is pending: the frame goes on in a later call
  | pending bytes_eq ends_eq =>
    have h_spent : es'.length < es.length ∨ ends es = false :=
      (readAtLeast_pending h_read).imp id fun h_nil => by rw [h_nil]; rfl
    exact Or.inr ⟨_, round_of_wait h_wants h_read (fun h => (by cases h)),
      .pending rfl ⟨.nil, h_at buffer es' bytes_eq, ends_eq, h_le⟩ h_spent⟩
  -- the stream has ended before the frame has
  | ended ends_eq lt =>
    exact Or.inr ⟨_, round_of_wait h_wants h_read (fun h => (by cases h)),
      .ended rfl rfl rfl ends_eq (h_short lt)⟩
  | err ends_eq =>
    exact Or.inr ⟨_, round_of_wait h_wants h_read (fun h => (by cases h)),
      .failed rfl rfl (Or.inl ends_eq)⟩

/-- A kind of address that is none ends the reader. -/
theorem round_rejects_kind {message : String} (stage_eq : r.stage = .kind)
    (h_read : readAtLeast 2 r.buffer es = (.full, buffer, es'))
    (h : headLength buffer = .error (.err message)) : r.round es room =
      .ok (.leave ⟨{ r with buffer, stage := .done }, es', .ready (.error message), []⟩) := by
  obtain ⟨stage, addr, buffer₀, dataLength⟩ := r
  cases stage_eq
  unfold round
  dsimp only at h_read ⊢
  rw [h_read]
  dsimp only
  rw [h]
  rfl

/-- So does a head that cannot be read. -/
theorem round_rejects_head {message : String} (stage_eq : r.stage = .head)
    (h_read : readAtLeast r.dataLength r.buffer es = (.full, buffer, es'))
    (h : readHead buffer = .error (.err message)) : r.round es room =
      .ok (.leave ⟨{ r with buffer, stage := .done }, es', .ready (.error message), []⟩) := by
  obtain ⟨stage, addr, buffer₀, dataLength⟩ := r
  cases stage_eq
  unfold round
  dsimp only at h_read ⊢
  rw [h_read]
  dsimp only
  rw [h]
  rfl

theorem two_le_of_headLength (h : headLength t = .ok n) : 2 ≤ t.length := by
  match t with
  | [] | [_] => cases h
  | _ :: _ :: t => exact Nat.le_add_left 2 t.length

/-- A frame that is complete has the head that its first two bytes tell. -/
theorem headLength_of_parse {d : Datagram} (h : Datagram.parse t = some (d, t')) :
    ∃ n, headLength t = .ok n ∧ n ≤ t.length := by
  obtain ⟨k, rest, h_head, -, -, -⟩ := parse_eq_some h
  obtain ⟨h_length, h_len⟩ := headLength_of_parseHead h_head
  exact ⟨_, h_length, by omega⟩

/-- Less than two bytes are neither a frame nor a bad head. -/
theorem not_rejected_of_kind (h : t.length < 2) : ¬ Rejected t := by
  refine not_rejected (fun h_bad => ?_) (Option.eq_none_iff_forall_ne_some.mpr fun x h_parse => ?_)
  · cases h_bad with
    | kind | name =>
      rw [List.length_cons, List.length_cons] at h
      omega
  · obtain ⟨k, h_length, -⟩ := headLength_of_parse h_parse
    exact Nat.not_le_of_lt h (two_le_of_headLength h_length)

/-- Less than the whole head is neither a frame nor a bad head. -/
theorem not_rejected_of_head (h_length : headLength t = .ok n) (h : t.length < n) :
    ¬ Rejected t := by
  refine not_rejected (fun h_bad => ?_) (Option.eq_none_iff_forall_ne_some.mpr fun x h_parse => ?_)
  · exact Nat.not_le_of_lt h (length_le_of_badHead h_bad h_length)
  · obtain ⟨k, h_length', h_le⟩ := headLength_of_parse h_parse
    rw [h_length] at h_length'
    cases h_length'
    exact Nat.not_le_of_lt h h_le

/-- A head with less than its payload is not a frame. -/
theorem not_rejected_of_payload {addr : Address} {rest : List UInt8}
    (h_head : parseHead t = some ((addr, n), rest)) (h : rest.length < n) : ¬ Rejected t := by
  refine not_rejected (fun h_bad => ?_) ?_
  · rw [h_bad.parseHead_eq_none] at h_head
    cases h_head
  · unfold Datagram.parse
    rw [h_head]
    exact if_neg (Nat.not_le_of_lt h)

/-- **One round.** -/
theorem round_of_at (h : At r es t) (h_room : 65535 ≤ room) :
    (∃ r' es', r.round es room = .ok (.next r' es') ∧ Between es t r' es') ∨
      ∃ x, r.round es room = .ok (.leave x) ∧ Polled es t x := by
  cases h with
  | kind stage_eq bytes_eq =>
    have h_wants : r.wants = some 2 := by
      unfold wants
      rw [stage_eq]
    refine round_waits h_wants (fun buffer es' h_bytes => .kind stage_eq (h_bytes.trans bytes_eq))
      (fun h_lt => not_rejected_of_kind (bytes_eq ▸ h_lt)) fun buffer es' h_read h_bytes h_two => ?_
    rw [bytes_eq] at h_bytes
    rcases headLength_cases h_two with ⟨n, h_length, h_le⟩ | ⟨message, h_length, h_bad⟩
    · have h_t : headLength t = .ok n := by
        rw [← h_bytes, headLength_append h_two, h_length]
      exact .next (.kind stage_eq h_read h_length) (.head rfl h_t h_le h_bytes)
    · exact .rejects (round_rejects_kind stage_eq h_read h_length) rfl rfl
        (.head (h_bytes ▸ h_bad (bytesToEnd es')))
  | head stage_eq length_eq two_le bytes_eq =>
    have h_wants : r.wants = some r.dataLength := by
      unfold wants
      rw [stage_eq]
    refine round_waits h_wants
      (fun buffer es' h_bytes => .head stage_eq length_eq two_le (h_bytes.trans bytes_eq))
      (fun h_lt => not_rejected_of_head length_eq (bytes_eq ▸ h_lt))
      fun buffer es' h_read h_bytes h_le => ?_
    rw [bytes_eq] at h_bytes
    -- the first two bytes of the head are in the buffer
    have h_length : headLength buffer = .ok r.dataLength := by
      rw [← headLength_append (Nat.le_trans two_le h_le) (bytesToEnd es'), h_bytes, length_eq]
    rcases readHead_cases h_length h_le with ⟨⟨⟨addr, n⟩, rest⟩, h_head, h_parse⟩ |
      ⟨message, h_head, h_bad⟩
    · exact .next (.head stage_eq h_read h_head)
        (.payload rfl (h_bytes ▸ parseHead_append h_parse (bytesToEnd es')))
    · exact .rejects (round_rejects_head stage_eq h_read h_head) rfl rfl
        (.head (h_bytes ▸ h_bad (bytesToEnd es')))
  | payload stage_eq head_eq =>
    have h_wants : r.wants = some r.dataLength := by
      unfold wants
      rw [stage_eq]
    refine round_waits h_wants
      (fun buffer es' h_bytes => .payload stage_eq (head_eq.trans (by rw [← h_bytes])))
      (not_rejected_of_payload head_eq) fun buffer es' h_read h_bytes h_le => ?_
    exact .next (.payload stage_eq h_read) (.put rfl (head_eq.trans (by rw [← h_bytes])) h_le)
  | put stage_eq head_eq full =>
    have h_parse := parse_of_parseHead head_eq
      (by rw [List.length_append]; exact Nat.le_trans full (Nat.le_add_right _ _))
    rw [List.take_append_of_le_length full, List.drop_append_of_le_length full] at h_parse
    by_cases h_zero : r.dataLength = 0
    · -- a frame without a payload is passed over
      rw [h_zero, List.take_zero, List.drop_zero] at h_parse
      exact Or.inl ⟨_, es, round_of_next (.put stage_eq (by rw [h_zero, Nat.zero_min])),
        .skip h_parse rfl .nil, .kind rfl rfl, rfl, Nat.le_refl _⟩
    · have h_min : min r.dataLength room = r.dataLength :=
        Nat.min_eq_left (Nat.le_trans (length_le_of_parseHead head_eq) h_room)
      have h_payload : r.buffer.take r.dataLength ≠ [] := by
        intro h_nil
        have h_len := congrArg List.length h_nil
        rw [List.length_take_of_le full] at h_len
        exact h_zero h_len
      refine Or.inr ⟨⟨{ r with buffer := r.buffer.drop r.dataLength, dataLength := 0 }, es,
        .ready (.ok ()), r.buffer.take r.dataLength⟩, ?_,
        .datagram (.datagram h_parse h_payload .nil)
          rfl rfl rfl stage_eq rfl rfl rfl (Nat.le_refl _)⟩
      obtain ⟨stage, addr, buffer, dataLength⟩ := r
      cases stage_eq
      unfold round
      dsimp only at h_min h_zero full ⊢
      rw [h_min, if_pos h_zero, splitTo_of_le full, ok_bind, Nat.sub_self]
      rfl
  | after stage_eq nothing bytes_eq =>
    exact Or.inl ⟨_, es, round_of_next (.put stage_eq (by rw [nothing, Nat.zero_min])),
      .nil, .kind rfl bytes_eq, rfl, Nat.le_refl _⟩

/-- A poll in the middle of a frame, with room for the longest datagram. -/
theorem privPollRead_polled (h : At r es t) (h_room : 65535 ≤ room) :
    ∃ x, r.privPollRead es room = .ok x ∧ Polled es t x := by
  have h_between : Between es t r es := ⟨.nil, h, rfl, Nat.le_refl _⟩
  refine privPollRead_of_rounds (fun r' es' h' => ?_) h_between
  obtain ⟨h_carries, h_at, h_ends, h_le⟩ := h'
  rcases round_of_at h_at h_room with ⟨r'', es'', h_eq, h''⟩ | ⟨x, h_eq, h_x⟩
  · obtain ⟨h_carries', h_at', h_ends', h_le'⟩ := h''
    exact Or.inl ⟨r'', es'', h_eq, h_carries.trans h_carries', h_at', h_ends'.trans h_ends,
      Nat.le_trans h_le' h_le⟩
  · exact Or.inr ⟨x, h_eq, h_x.of_carries h_carries h_ends h_le⟩

/-- What a poll of `poll_recv_from` leaves; at the end of the stream it is `Ok` with an address. -/
inductive Recvd (es : List ReadEvent) (t : List UInt8) (x : Recv) : Prop
  | datagram {d : Datagram} {t' : List UInt8} (carries : Carries t [d] t')
      (result_eq : x.result = .ready (.ok d.addr)) (put_eq : x.put = d.payload)
      (at_frame : At x.state x.events t') (ends_eq : ends x.events = ends es)
      (length_le : x.events.length ≤ es.length)
  | pending (result_eq : x.result = .pending) (between : Between es t x.state x.events)
      (spent : x.events.length < es.length ∨ ends es = false)
  | failed {message : String} (result_eq : x.result = .ready (.error message))
      (done : x.state.stage = .done) (reason : ends es = false ∨ Rejected t)
  | ended {addr : Address} (result_eq : x.result = .ready (.ok addr)) (put_eq : x.put = [])
      (ends_eq : ends es = true) (not_rejected : ¬ Rejected t)

/-- A poll with enough room, on any bytes. -/
theorem pollRecvFrom_recvd (h : At r es t) (h_room : 65535 ≤ room) :
    ∃ x, r.pollRecvFrom es room = .ok x ∧ Recvd es t x := by
  obtain ⟨x, h_poll, h_x⟩ := privPollRead_polled h h_room
  unfold pollRecvFrom
  rw [h_poll, ok_bind]
  cases h_x with
  | datagram carries result_eq addr_eq put_eq stage_eq nothing bytes_eq ends_eq length_le =>
    rw [result_eq]
    exact ⟨_, rfl, .datagram carries (congrArg (fun a => Poll.ready (Except.ok a)) addr_eq) put_eq
      (.after stage_eq nothing bytes_eq) ends_eq length_le⟩
  | pending result_eq between spent =>
    rw [result_eq]
    exact ⟨_, rfl, .pending rfl between spent⟩
  | failed result_eq done reason =>
    rw [result_eq]
    exact ⟨_, rfl, .failed rfl done reason⟩
  | ended result_eq done put_eq ends_eq not_rejected =>
    rw [result_eq]
    exact ⟨_, rfl, .ended rfl put_eq ends_eq not_rejected⟩

/-! ### Runs -/

/-- After an error nothing is `Ok` any more. -/
theorem oks_recvRun_done {room : ℕ → ℕ → ℕ} (k : ℕ) (h : r.stage = .done) :
    ∃ results, recvRun room n k r es = .ok results ∧ oks results = [] := by
  induction n generalizing k with
  | zero => exact ⟨[], rfl, rfl⟩
  | succ n ih =>
    obtain ⟨results, h_rest, h_oks⟩ := ih (k + 1)
    rw [recvRun, pollRecvFrom_done h, ok_bind]
    dsimp only
    rw [h_rest]
    exact ⟨_, rfl, h_oks⟩

/-- **A run that does not listen to the end of the stream** has no `Ok` but those of the datagrams
that the stream carries. -/
theorem run_carries {room : ℕ → ℕ → ℕ} (h_room : ∀ n k, 65535 ≤ room n k) (k : ℕ) (h : At r es t)
    (h_rejected : ends es = true → Rejected t) :
    ∃ results rest, recvRun room n k r es = .ok results ∧ Carries t (oks results) rest ∧
      readHandle room n k r es = .ok (oks results) := by
  induction n generalizing k r es t with
  | zero => exact ⟨[], t, rfl, .nil, rfl⟩
  | succ n ih =>
    obtain ⟨x, h_poll, h_x⟩ := pollRecvFrom_recvd h (h_room n k)
    -- the induction is on the polls; a poll is a datagram, a wait, a failure or the end
    rw [recvRun, readHandle, h_poll, ok_bind, ok_bind]
    cases h_x with
    | @datagram d t' carries result_eq put_eq at_frame ends_eq length_le =>
      obtain ⟨results, rest, h_run, h_rest, h_handle⟩ := ih (k + 1) at_frame
        fun h_ends => carries.rejected_iff.mp (h_rejected (ends_eq.symm.trans h_ends))
      rw [result_eq]
      dsimp only
      rw [h_run, h_handle, put_eq]
      exact ⟨.ok d :: results, rest, rfl, carries.trans h_rest, rfl⟩
    -- a poll that is pending is not counted among the datagrams
    | pending result_eq between spent =>
      obtain ⟨carries, at_frame, ends_eq, length_le⟩ := between
      obtain ⟨results, rest, h_run, h_rest, h_handle⟩ := ih k at_frame
        fun h_ends => carries.rejected_iff.mp (h_rejected (ends_eq.symm.trans h_ends))
      rw [result_eq]
      exact ⟨results, rest, h_run, carries.trans h_rest, h_handle⟩
    | @failed message result_eq done reason =>
      obtain ⟨results, h_run, h_oks⟩ := @oks_recvRun_done x.state x.events n room (k + 1) done
      rw [result_eq]
      dsimp only
      rw [h_run]
      refine ⟨.error message :: results, t, rfl, ?_, ?_⟩
      · show Carries t (oks results) t
        rw [h_oks]
        exact .nil
      · exact congrArg Except.ok h_oks.symm
    -- and the end is not heard, as the stream is rejected before it
    | ended result_eq put_eq ends_eq not_rejected =>
      exact absurd (h_rejected ends_eq) not_rejected

/-- **A run that listens to the end of the stream** gets a phantom there: enough polls spend every
event and pass over every frame before. -/
theorem phantom_at_end (h : At r es t) (h_ends : ends es = true) (h_rejected : ¬ Rejected t)
    (k : ℕ) : ∃ n forwarded, readHandle (fun _ _ => 65535) n k r es = .ok forwarded ∧
      ∃ d ∈ forwarded, d.payload = [] := by
  -- on the events and the bytes that are left
  induction h_left : es.length + t.length using Nat.strong_induction_on generalizing r es t k with
  | h left ih =>
    subst h_left
    obtain ⟨x, h_poll, h_x⟩ := pollRecvFrom_recvd h (Nat.le_refl 65535)
    cases h_x with
    | @datagram d t' carries result_eq put_eq at_frame ends_eq length_le =>
      have h_less := carries.length_lt
      obtain ⟨n, forwarded, h_run, d', h_mem, h_nil⟩ := ih (x.events.length + t'.length) (by omega)
        at_frame (ends_eq.trans h_ends) (fun h' => h_rejected (carries.rejected_iff.mpr h')) (k + 1)
        rfl
      refine ⟨n + 1, d :: forwarded, ?_, d', List.mem_cons_of_mem _ h_mem, h_nil⟩
      rw [readHandle, h_poll, ok_bind, result_eq]
      dsimp only
      rw [h_run, put_eq]
      rfl
    | pending result_eq between spent =>
      obtain ⟨carries, at_frame, ends_eq, length_le⟩ := between
      have h_le := carries.length_le
      have h_lt : x.events.length < es.length :=
        spent.resolve_right fun h_false => (by rw [h_ends] at h_false; cases h_false)
      obtain ⟨n, forwarded, h_run, h_phantom⟩ := ih _ (by omega)
        at_frame (ends_eq.trans h_ends) (fun h' => h_rejected (carries.rejected_iff.mpr h')) k rfl
      refine ⟨n + 1, forwarded, ?_, h_phantom⟩
      rw [readHandle, h_poll, ok_bind, result_eq]
      exact h_run
    | failed result_eq done reason =>
      rcases reason with h_false | h_bad
      · rw [h_ends] at h_false
        cases h_false
      · exact absurd h_bad h_rejected
    | @ended addr result_eq put_eq ends_eq not_rejected =>
      refine ⟨1, [⟨addr, []⟩], ?_, ⟨addr, []⟩, List.mem_singleton_self _, rfl⟩
      rw [readHandle, h_poll, ok_bind, result_eq]
      dsimp only
      rw [put_eq]
      rfl

/-- **When there are no phantom datagrams**: if and only if the stream does not end, or there is a
head before its end that the reader rejects. -/
theorem noPhantom_iff (es : List ReadEvent) :
    NoPhantom es ↔ (ends es = true → Rejected (bytesToEnd es)) := by
  have h_at : At .new es (bytesToEnd es) := .kind rfl rfl
  constructor
  · intro h h_ends
    by_contra h_rejected
    obtain ⟨n, forwarded, h_run, d, h_mem, h_nil⟩ := phantom_at_end h_at h_ends h_rejected 0
    obtain ⟨_, forwarded', -, -, h_run', rest, h_carries⟩ :=
      h (fun _ _ => 65535) (fun _ _ => Nat.le_refl _) n
    rw [h_run] at h_run'
    cases h_run'
    exact h_carries.payload_ne_nil d h_mem h_nil
  · intro h_rejected room h_room polls
    obtain ⟨results, rest, h_run, h_carries, h_handle⟩ := run_carries h_room 0 h_at h_rejected
    exact ⟨results, oks results, h_run, ⟨rest, h_carries⟩, h_handle, rest, h_carries⟩

/-- The stream ends after the head of a datagram of three bytes from `1.2.3.4:53`: the client is
sent an empty one. -/
theorem noPhantom_truncated :
    let es : List ReadEvent := [.data [1, 1, 2, 3, 4, 0, 53, 0, 3, 13, 10], .data []]
    readHandle (fun _ _ => 65535) 2 0 .new es =
        .ok [⟨.socketAddress (.v4 0x01020304 53), []⟩] ∧ ¬ ∀ es, NoPhantom es := by
  intro es
  have h_run : readHandle (fun _ _ => 65535) 2 0 .new es =
      .ok [⟨.socketAddress (.v4 0x01020304 53), []⟩] := by
    rfl
  refine ⟨h_run, fun h => ?_⟩
  obtain ⟨_, forwarded, -, -, h_run', rest, h_carries⟩ :=
    h es (fun _ _ => 65535) (fun _ _ => Nat.le_refl _) 2
  rw [h_run] at h_run'
  cases h_run'
  exact h_carries.payload_ne_nil _ (List.mem_singleton_self _) rfl

end TrojanUdpReader

end V2ray

import V2rayRust.Common.Net.CopyWithCapacity
import V2rayRust.Proxy.AddressRead

/-!
# The SOCKS5 handshake

`Socks5Stream::init` of `proxy/socks/socks5.rs`. Everything is read with `read_exact`, but for the
list of methods: that is read with `read_buf` into a buffer of `LW_BUFFER_SIZE` bytes, until it has
at least as many bytes as the client has announced. So what comes of a handshake depends on the
segments in which the client's bytes come: not at all if no segment goes on after the end of the
list (`Unbroken`), and otherwise the bytes that do are taken for methods and lost
(`init_segmentation_iff`).
-/

namespace V2ray

/-! ### The handshake -/

/-- What `init` does besides reading. -/
inductive SocksEvent
  | write (bytes : List UInt8)
  | shutdown
  | bind (ip : IpAddr)
  deriving DecidableEq

namespace Socks

/-- `SOCKS_VERSION` -/
def version : UInt8 := 5

/-- `auth_methods::NO_AUTH` -/
def noAuth : UInt8 := 0

/-- `auth_methods::USER_PASS` -/
def userPass : UInt8 := 2

/-- `auth_methods::NO_METHODS` -/
def noMethods : UInt8 := 0xFF

/-- `response_code::SUCCESS` -/
def success : UInt8 := 0

/-- `response_code::FAILURE` -/
def failure : UInt8 := 1

/-- `response_code::COMMAND_NOT_SUPPORTED` -/
def commandNotSupported : UInt8 := 7

/-- `socks_command::CONNECT` -/
def connect : UInt8 := 1

/-- `socks_command::UDP_ASSOSIATE` -/
def udpAssosiate : UInt8 := 3

end Socks

def SocketAddr.ip : SocketAddr → IpAddr
  | .v4 ip _ => .v4 ip
  | .v6 ip .. => .v6 ip

/-- `Socks5Stream`, less its stream and its buffer, the argument of `init`, and the outcomes of
what it does, each given all that has been done. -/
structure Socks5Stream where
  authedUsers : AList fun _ : List UInt8 => List UInt8
  localAddr : Address
  udpAddr : Option SocketAddr
  written : List SocksEvent → Except String Unit
  bound : List SocksEvent → Except String SocketAddr

namespace Socks5Stream

open Socks

/-- `Socks5Stream::new`: nobody is authorised. -/
def new (localAddr : SocketAddr) (udpAddr : Option SocketAddr)
    (written : List SocksEvent → Except String Unit)
    (bound : List SocksEvent → Except String SocketAddr) : Socks5Stream :=
  ⟨∅, .socketAddress localAddr, udpAddr, written, bound⟩

variable (S : Socks5Stream)

def writeAll (bytes : List UInt8) : Session SocksEvent Unit := Session.act S.written (.write bytes)

def shutdown : Session SocksEvent Unit := Session.act S.written .shutdown

/-- `Err(Error::new(ErrorKind::Other, message))` -/
def err {α : Type} (message : String) : Session SocksEvent α := throw (.stop (.err message))

def versionError {α : Type} (v : UInt8) : Session SocksEvent α :=
  err ("socks version " ++ hexText v ++ " is not supported")

/-- The loop of `read_buf`, while there are fewer than `n` bytes in `readBuf`. A read brings a byte
or is the end, after which the loop goes on forever, so `n` rounds are enough. -/
def readMethodsLoop (n : ℕ) : ℕ → List UInt8 → Session SocksEvent (List UInt8)
  | 0, readBuf => return readBuf
  | rounds + 1, readBuf => do
    if readBuf.length < n then
      let bytes ← Session.readBuf (lwBufferSize - readBuf.length)
      if bytes = [] then throw (.stop (.fault .diverge))
      else readMethodsLoop n rounds (readBuf ++ bytes)
    else return readBuf

def readMethods (n : ℕ) : Session SocksEvent (List UInt8) := readMethodsLoop n n []

/-- The number of methods. -/
def readHeader : Session SocksEvent ℕ := do
  let header ← Session.readExact 2
  if header.getD 0 0 = version then return (header.getD 1 0).toNat
  else
    S.shutdown
    versionError (header.getD 0 0)

def authFailure : Session SocksEvent Unit := do
  S.shutdown
  err "socks5 client auth failure"

/-- The user and the password, in one buffer. -/
def readUser : Session SocksEvent (List UInt8) := do
  let header ← Session.readExact 2
  let username ← Session.readExact (header.getD 1 0).toNat
  let passwordLen ← Session.readByte
  let password ← Session.readExact passwordLen.toNat
  return username ++ password

def authenticate (methods : List UInt8) : Session SocksEvent Unit := do
  if userPass ∈ methods then
    S.writeAll [version, userPass]
    let readBuf ← readUser
    -- `split_at(self.read_buf.len())`: all of it is the user, and the password is empty
    let split := readBuf.splitAt readBuf.length
    if split.1 = [] ∧ split.2 = [] then S.writeAll [1, success]
    else if S.authedUsers.lookup split.1 = some split.2 then S.writeAll [1, success]
    else
      S.writeAll [1, failure]
      S.authFailure
  else if noAuth ∈ methods then S.writeAll [version, noAuth]
  else
    S.writeAll [version, noMethods]
    S.authFailure

/-- The answer to a command. -/
def reply (code : UInt8) (addr : Address) : Session SocksEvent Unit :=
  S.writeAll ([version, code, 0x00] ++ addr.writeToBuf)

/-- What comes after the authentication. -/
def request : Session SocksEvent Address := do
  let buf ← Session.readExact 3
  if buf.getD 0 0 ≠ version then versionError (buf.getD 0 0)
  else
    let address ← Address.readFromStream
    if buf.getD 1 0 = connect then
      S.reply success S.localAddr
      return address
    else match S.udpAddr, decide (buf.getD 1 0 = udpAssosiate) with
      | some udpAddr, true =>
        let addr ← Session.act S.bound (.bind udpAddr.ip)
        S.reply success (.socketAddress addr)
        return .socketAddress addr
      | _, _ =>
        S.reply commandNotSupported address
        err ("socks command " ++ hexText (buf.getD 1 0) ++ " is not supported")

/-- `Socks5Stream::init`: the address; the stream is what the connection has left. -/
def init : Session SocksEvent Address := do
  let n ← S.readHeader
  let methods ← readMethods n
  S.authenticate methods
  S.request

/-! ### Segments -/

variable {S} {c c' : Conn SocksEvent}

theorem uniform_err {α : Type} (message : String) : Uniform (err message : Session SocksEvent α) :=
  uniform_throw _

theorem uniform_readHeader : Uniform S.readHeader := by
  unfold readHeader
  refine uniform_bind (uniform_readExact 2) fun header => ?_
  split
  · exact uniform_pure _
  · exact uniform_bind (uniform_act _ _) fun _ => uniform_err _

theorem uniform_authFailure : Uniform S.authFailure :=
  uniform_bind (uniform_act _ _) fun _ => uniform_err _

theorem uniform_readUser : Uniform readUser :=
  uniform_bind (uniform_readExact 2) fun _ => uniform_bind (uniform_readExact _) fun _ =>
    uniform_bind uniform_readByte fun _ => uniform_bind (uniform_readExact _) fun _ =>
      uniform_pure _

/-- Negotiation does not see how the bytes are cut. -/
theorem uniform_authenticate (methods : List UInt8) : Uniform (S.authenticate methods) := by
  unfold authenticate
  split
  · refine uniform_bind (uniform_act _ _) fun _ => uniform_bind uniform_readUser fun readBuf => ?_
    dsimp only
    split
    · exact uniform_act _ _
    split
    · exact uniform_act _ _
    · exact uniform_bind (uniform_act _ _) fun _ => uniform_authFailure
  split
  · exact uniform_act _ _
  · exact uniform_bind (uniform_act _ _) fun _ => uniform_authFailure

/-- Neither does the reader of requests. -/
theorem uniform_request : Uniform S.request := by
  unfold request
  refine uniform_bind (uniform_readExact 3) fun buf => ?_
  split
  · exact uniform_err _
  refine uniform_bind Address.uniform_readFromStream fun address => ?_
  split
  · exact uniform_bind (uniform_act _ _) fun _ => uniform_pure _
  split
  · exact uniform_bind (uniform_act _ _) fun addr =>
      uniform_bind (uniform_act _ _) fun _ => uniform_pure _
  · exact uniform_bind (uniform_act _ _) fun _ => uniform_err _

/-- What the loop should read: the next `n` bytes, and no more. -/
def readListed (n : ℕ) : Session SocksEvent (List UInt8) := fun c =>
  if n ≤ c.bytes.length then (.ok (c.bytes.take n), { c with segments := dropBytes n c.segments })
  else if c.ended then (.error (.stop (.fault .diverge)), { c with segments := [] })
  else (.error .waits, { c with segments := [] })

theorem uniform_readListed (n : ℕ) : Uniform (readListed n) := uniform_take n _

theorem readListed_of_le {n : ℕ} (h : n ≤ c.bytes.length) :
    readListed n c = (.ok (c.bytes.take n), { c with segments := dropBytes n c.segments }) :=
  if_pos h

theorem readListed_of_lt {n : ℕ} (h : ¬ n ≤ c.bytes.length) : readListed n c =
    (.error (if c.ended then .stop (.fault .diverge) else .waits), { c with segments := [] }) := by
  unfold readListed
  rw [if_neg h]
  split <;> rfl

/-- A segment that is not longer than the list comes first. -/
theorem readListed_cons {n : ℕ} {segment : List UInt8} {segments : List (List UInt8)}
    (h : segment.length ≤ n) (ended : Bool) (done : List SocksEvent) :
    readListed n ⟨segment :: segments, ended, done⟩ =
      (do return segment ++ (← readListed (n - segment.length)) : Session SocksEvent _)
        ⟨segments, ended, done⟩ := by
  have h_bytes : (⟨segment :: segments, ended, done⟩ : Conn SocksEvent).bytes =
      segment ++ (⟨segments, ended, done⟩ : Conn SocksEvent).bytes := List.flatten_cons
  have h_drop : dropBytes n (segment :: segments) = dropBytes (n - segment.length) segments := by
    rw [dropBytes, if_neg (Nat.not_lt_of_le h)]
  have h_len := congrArg List.length h_bytes
  rw [List.length_append] at h_len
  rw [bind_run_eq]
  by_cases h_enough : n - segment.length ≤ (⟨segments, ended, done⟩ : Conn SocksEvent).bytes.length
  · rw [readListed_of_le h_enough, readListed_of_le (by omega), h_bytes, List.take_append,
      List.take_of_length_le h, h_drop]
    rfl
  · rw [readListed_of_lt h_enough, readListed_of_lt (by omega)]

/-- A segment that fits into the buffer is read as a whole. -/
theorem readBuf_cons {room : ℕ} {segment : List UInt8} {segments : List (List UInt8)}
    (h : segment.length ≤ room) (ended : Bool) (done : List SocksEvent) :
    Session.readBuf room ⟨segment :: segments, ended, done⟩ =
      (.ok segment, ⟨segments, ended, done⟩) :=
  if_neg (Nat.not_lt_of_le h)

/-- The loop has enough. -/
theorem readMethodsLoop_of_le {n rounds : ℕ} {readBuf : List UInt8} (h : n ≤ readBuf.length) :
    readMethodsLoop n rounds readBuf = pure readBuf := by
  cases rounds with
  | zero => rfl
  | succ rounds => exact if_neg (Nat.not_lt_of_le h)

/-- A round of the loop, when it brings something. -/
theorem readMethodsLoop_succ {n rounds : ℕ} {readBuf bytes : List UInt8}
    (h : readBuf.length < n)
    (h_read : Session.readBuf (lwBufferSize - readBuf.length) c = (.ok bytes, c'))
    (h_ne : bytes ≠ []) :
    readMethodsLoop n (rounds + 1) readBuf c = readMethodsLoop n rounds (readBuf ++ bytes) c' := by
  rw [readMethodsLoop, if_pos h, bind_run_eq, h_read]
  dsimp only
  rw [if_neg h_ne]

/-- **The loop, where the list ends with a segment**: it reads `k` bytes. -/
theorem readMethodsLoop_endsAt {n k rounds : ℕ} {readBuf : List UInt8}
    {segments : List (List UInt8)} {ended : Bool} {done : List SocksEvent}
    (h_n : n < 256) (h_len : readBuf.length + k = n) (h_rounds : k ≤ rounds)
    (h_ne : ∀ segment ∈ segments, segment ≠ []) (h_ends : EndsAt k segments) :
    Agree (readMethodsLoop n rounds readBuf ⟨segments, ended, done⟩)
      ((do return readBuf ++ (← readListed k)) ⟨segments, ended, done⟩) := by
  rw [bind_run_eq]
  -- on the segments; `k` bytes of the list are missing
  induction segments generalizing k rounds readBuf with
  | nil =>
    cases k with
    | zero =>
      rw [readMethodsLoop_of_le (Nat.le_of_eq h_len.symm)]
      show Agree (.ok readBuf, _) (.ok (readBuf ++ []), _)
      rw [List.append_nil]
      exact ⟨rfl, .refl _⟩
    | succ k =>
      obtain ⟨rounds, rfl⟩ := Nat.exists_eq_add_of_le' (Nat.le_trans (Nat.succ_pos k) h_rounds)
      have h_lt : readBuf.length < n := by omega
      -- nothing is left to read: both stop as the end of the connection makes them
      rw [readMethodsLoop, if_pos h_lt, bind_run_eq]
      cases ended <;> exact ⟨rfl, .refl _⟩
  | cons segment segments ih =>
    cases k with
    | zero =>
      rw [readMethodsLoop_of_le (Nat.le_of_eq h_len.symm)]
      show Agree (.ok readBuf, _) (.ok (readBuf ++ []), _)
      rw [List.append_nil]
      refine ⟨rfl, ?_, rfl, rfl⟩
      exact (flatten_dropBytes 0 _).symm
    | succ k =>
      obtain ⟨rounds, rfl⟩ := Nat.exists_eq_add_of_le' (Nat.le_trans (Nat.succ_pos k) h_rounds)
      obtain ⟨h_seg, h_ends⟩ := (endsAt_cons (Nat.succ_pos k) _ _).mp h_ends
      -- there are at most 255 methods, so a segment of the list fits
      have h_room : segment.length ≤ lwBufferSize - readBuf.length := by
        unfold lwBufferSize
        omega
      have h_pos := List.length_pos_of_ne_nil (h_ne segment List.mem_cons_self)
      rw [readMethodsLoop_succ (by omega) (readBuf_cons h_room ended done)
        (h_ne segment List.mem_cons_self)]
      have h_sum : (readBuf ++ segment).length + (k + 1 - segment.length) = n := by
        rw [List.length_append]
        omega
      have h_fuel : k + 1 - segment.length ≤ rounds := by omega
      have h_rest := ih h_sum h_fuel (fun s h_s => h_ne s (List.mem_cons_of_mem _ h_s)) h_ends
      rw [readListed_cons h_seg, bind_run_eq]
      generalize readListed (k + 1 - segment.length) ⟨segments, ended, done⟩ = r at h_rest ⊢
      obtain ⟨r, c⟩ := r
      cases r with
      | error e => exact h_rest
      | ok bytes =>
        refine h_rest.trans ⟨?_, .refl _⟩
        exact congrArg Except.ok (List.append_assoc _ _ _)

/-- **The loop, where a segment goes on after the list**: it takes bytes that are not listed. -/
theorem readMethodsLoop_over {n k rounds : ℕ} {readBuf : List UInt8}
    {segments : List (List UInt8)} {ended : Bool} {done : List SocksEvent}
    (h_n : n < 256) (h_len : readBuf.length + k = n) (h_rounds : k ≤ rounds)
    (h_ne : ∀ segment ∈ segments, segment ≠ []) (h_over : ¬ EndsAt k segments) :
    ∃ methods c, readMethodsLoop n rounds readBuf ⟨segments, ended, done⟩ = (.ok methods, c) ∧
      n < methods.length := by
  induction segments generalizing k rounds readBuf with
  | nil => exact absurd (endsAt_nil k) h_over
  | cons segment segments ih =>
    cases k with
    | zero => exact absurd trivial h_over
    | succ k =>
      obtain ⟨rounds, rfl⟩ := Nat.exists_eq_add_of_le' (Nat.le_trans (Nat.succ_pos k) h_rounds)
      have h_lt : readBuf.length < n := by omega
      -- only the last segment can go on after the list
      by_cases h_seg : segment.length ≤ k + 1
      · -- the segment is in the list
        have h_room : segment.length ≤ lwBufferSize - readBuf.length := by
          unfold lwBufferSize
          omega
        have h_pos := List.length_pos_of_ne_nil (h_ne segment List.mem_cons_self)
        have h_sum : (readBuf ++ segment).length + (k + 1 - segment.length) = n := by
          rw [List.length_append]
          omega
        rw [readMethodsLoop_succ h_lt (readBuf_cons h_room ended done)
          (h_ne segment List.mem_cons_self)]
        have h_fuel : k + 1 - segment.length ≤ rounds := by omega
        refine ih h_sum h_fuel (fun s h_s => h_ne s (List.mem_cons_of_mem _ h_s)) fun h => ?_
        exact h_over ((endsAt_cons (Nat.succ_pos k) _ _).mpr ⟨h_seg, h⟩)
      · -- it is longer than what is missing, and so is the room
        obtain ⟨bytes, c, h_read, h_bytes⟩ : ∃ bytes c,
            Session.readBuf (lwBufferSize - readBuf.length) ⟨segment :: segments, ended, done⟩ =
              (.ok bytes, c) ∧ k + 1 < bytes.length := by
          by_cases h_room : segment.length ≤ lwBufferSize - readBuf.length
          · exact ⟨_, _, readBuf_cons h_room ended done, Nat.lt_of_not_le h_seg⟩
          · refine ⟨_, _, if_pos (Nat.lt_of_not_le h_room), ?_⟩
            rw [List.length_take]
            unfold lwBufferSize at h_room ⊢
            omega
        have h_more : n < (readBuf ++ bytes).length := by
          rw [List.length_append]
          omega
        refine ⟨_, c, ?_, h_more⟩
        have h_pos : 0 < bytes.length := Nat.lt_of_le_of_lt (Nat.zero_le _) h_bytes
        rw [readMethodsLoop_succ h_lt h_read (List.ne_nil_of_length_pos h_pos),
          readMethodsLoop_of_le (Nat.le_of_lt h_more)]
        rfl

/-! ### Handshakes -/

/-- What is known of a header that was read. -/
theorem of_readHeader {n : ℕ} (h : S.readHeader c = (.ok n, c')) :
    ∃ m rest, c.bytes = version :: m :: rest ∧ n = m.toNat ∧
      c' = { c with segments := dropBytes 2 c.segments } := by
  unfold readHeader at h
  obtain ⟨header, d, h_read, h⟩ := bind_run_eq_ok.mp h
  obtain ⟨h_len, rfl, rfl⟩ := readExact_eq_ok.mp h_read
  obtain ⟨v, m, rest, h_bytes⟩ : ∃ v m rest, c.bytes = v :: m :: rest := by
    match c.bytes, h_len with
    | v :: m :: rest, _ => exact ⟨v, m, rest, rfl⟩
  rw [h_bytes] at h
  by_cases h_v : v = version
  · rw [if_pos (show (List.take 2 (v :: m :: rest)).getD 0 0 = version from h_v)] at h
    cases h
    exact ⟨m, rest, by rw [h_bytes, h_v], rfl, rfl⟩
  · rw [if_neg (show ¬ (List.take 2 (v :: m :: rest)).getD 0 0 = version from h_v)] at h
    -- after the shutdown comes an error
    obtain ⟨_, _, _, h⟩ := bind_run_eq_ok.mp h
    cases h

theorem readHeader_of_bytes {m : UInt8} {rest : List UInt8} (h : c.bytes = version :: m :: rest) :
    S.readHeader c = (.ok m.toNat, { c with segments := dropBytes 2 c.segments }) := by
  refine bind_run_eq_ok.mpr ⟨[version, m], { c with segments := dropBytes 2 c.segments },
    readExact_eq_ok.mpr ?_, rfl⟩
  rw [h]
  exact ⟨Nat.le_add_left 2 rest.length, rfl, rfl⟩

/-- The methods are the bytes that the client has listed, and no later byte is consumed. -/
def ListsExactly (S : Socks5Stream) (c : Conn SocksEvent) : Prop :=
  ∀ n c', S.readHeader c = (.ok n, c') → ∀ methods c'', readMethods n c' = (.ok methods, c'') →
    methods = c'.bytes.take n ∧ c''.bytes = c'.bytes.drop n

/-- No segment goes on after the list of methods. -/
def Unbroken {bytes : List UInt8} (cut : Segmentation bytes) : Prop :=
  ∀ n rest, bytes = version :: n :: rest → 0 < n.toNat → EndsAt (2 + n.toNat) cut.segments

/-- What comes after the header. -/
def afterHeader (S : Socks5Stream) (methods : List UInt8) : Session SocksEvent Address := do
  S.authenticate methods
  S.request

theorem uniform_afterHeader (methods : List UInt8) : Uniform (S.afterHeader methods) :=
  uniform_bind (uniform_authenticate methods) fun _ => uniform_request

/-- The loop reads the list and no more, when a segment ends with it. -/
theorem agree_readMethods {n : ℕ} (h_n : n < 256) (h_ne : ∀ segment ∈ c.segments, segment ≠ [])
    (h_ends : EndsAt n c.segments) : Agree (readMethods n c) (readListed n c) := by
  have h_sum : ([] : List UInt8).length + n = n := Nat.zero_add n
  refine (readMethodsLoop_endsAt h_n h_sum (Nat.le_refl n) h_ne h_ends).trans ?_
  obtain ⟨segments, ended, done⟩ := c
  rw [bind_run_eq]
  generalize readListed n ⟨segments, ended, done⟩ = r
  obtain ⟨r, c'⟩ := r
  cases r <;> exact ⟨rfl, .refl _⟩

variable {bytes : List UInt8} {cut cut' : Segmentation bytes} {ended : Bool}

/-- What is left after the header ends with the list exactly if the cut does. -/
theorem endsAt_of_readHeader {n : ℕ} (h : S.readHeader (cut.conn ended) = (.ok n, c)) :
    n < 256 ∧ (∀ segment ∈ c.segments, segment ≠ []) ∧
      (Unbroken cut ↔ EndsAt n c.segments) := by
  obtain ⟨m, rest, h_bytes, rfl, rfl⟩ := of_readHeader h
  have h_eq : bytes = version :: m :: rest := cut.flatten_eq.symm.trans h_bytes
  refine ⟨m.toNat_lt, ne_nil_of_dropBytes cut.ne_nil, ?_⟩
  -- a list of no methods is not broken, and is read by nothing
  rcases Nat.eq_zero_or_pos m.toNat with h_zero | h_pos
  · refine iff_of_true ?_ (by rw [h_zero]; exact endsAt_zero _)
    intro n rest' h_bytes' h_pos
    cases h_eq.symm.trans h_bytes'
    exact absurd h_zero (Nat.ne_of_gt h_pos)
  · refine Iff.trans ?_ (endsAt_dropBytes 2 h_pos cut.segments).symm
    constructor
    · exact fun h => h m rest h_eq h_pos
    · intro h n rest' h_bytes' _
      cases h_eq.symm.trans h_bytes'
      exact h

/-- The methods are read as they are listed exactly if no segment goes on after them. -/
theorem listsExactly_iff : S.ListsExactly (cut.conn ended) ↔ Unbroken cut := by
  constructor
  · intro h n rest h_bytes h_pos
    have h_header := readHeader_of_bytes (S := S) (c := cut.conn ended)
      (cut.flatten_eq.trans h_bytes)
    obtain ⟨h_n, h_ne, h_iff⟩ := endsAt_of_readHeader h_header
    refine h_iff.mpr ?_ n rest h_bytes h_pos
    by_contra h_over
    have h_sum : ([] : List UInt8).length + n.toNat = n.toNat := Nat.zero_add _
    obtain ⟨methods, c, h_methods, h_len⟩ :=
      readMethodsLoop_over h_n h_sum (Nat.le_refl _) h_ne h_over
    -- it has taken more than was listed
    have h_take := (h _ _ h_header _ _ h_methods).1
    rw [h_take, List.length_take] at h_len
    exact Nat.not_lt_of_le (Nat.min_le_left _ _) h_len
  · intro h n c h_header methods c' h_methods
    obtain ⟨h_n, h_ne, h_iff⟩ := endsAt_of_readHeader h_header
    have h_agree := agree_readMethods h_n h_ne (h_iff.mp h)
    rw [h_methods] at h_agree
    obtain ⟨h_result, h_same⟩ := h_agree
    by_cases h_len : n ≤ c.bytes.length
    · rw [readListed_of_le h_len] at h_result h_same
      cases h_result
      exact ⟨rfl, h_same.bytes_eq.trans (flatten_dropBytes n _)⟩
    · rw [readListed_of_lt h_len] at h_result
      cases h_result

/-- Where the list ends with a segment, `init` does what it would do if it read the list only. -/
theorem agree_init (h : Unbroken cut) : Agree (S.init (cut.conn ended))
    ((do S.afterHeader (← readListed (← S.readHeader))) (cut.conn ended)) := by
  have h_init : S.init = S.readHeader >>= fun n => readMethods n >>= S.afterHeader := rfl
  rw [h_init, bind_run_eq, bind_run_eq]
  match h_header : S.readHeader (cut.conn ended) with
  | (.error _, _) => exact ⟨rfl, .refl _⟩
  | (.ok n, c) =>
    obtain ⟨h_n, h_ne, h_iff⟩ := endsAt_of_readHeader h_header
    exact (agree_readMethods h_n h_ne (h_iff.mp h)).bind uniform_afterHeader

/-- **Segmentation.** Two ways of cutting the bytes of a client make no difference, and in both the
methods are exactly those that the client has listed, if and only if in neither a segment goes on
after the list. -/
theorem init_segmentation_iff (S : Socks5Stream) {bytes : List UInt8}
    (cut cut' : Segmentation bytes) (ended : Bool) :
    (Agree (S.init (cut.conn ended)) (S.init (cut'.conn ended)) ∧
      S.ListsExactly (cut.conn ended) ∧ S.ListsExactly (cut'.conn ended)) ↔
    Unbroken cut ∧ Unbroken cut' := by
  rw [listsExactly_iff, listsExactly_iff]
  refine and_iff_right_of_imp ?_
  rintro ⟨h, h'⟩
  have h_uniform : Uniform (do S.afterHeader (← readListed (← S.readHeader))) :=
    uniform_bind uniform_readHeader fun n =>
      uniform_bind (uniform_readListed n) uniform_afterHeader
  exact (agree_init h).trans ((h_uniform _ _ (cut.same cut' ended)).trans (agree_init h').symm)

/-- A client that sends its request right after the methods: in two reads it is served. -/
def eager : List UInt8 := [5, 1, 0, 5, 1, 0, 1, 10, 0, 0, 1, 0, 80]

/-- In one read the request is lost, and the server waits for it. -/
theorem init_segmentation_eager :
    ¬ ∀ (S : Socks5Stream) (bytes : List UInt8) (cut cut' : Segmentation bytes) (ended : Bool),
      Agree (S.init (cut.conn ended)) (S.init (cut'.conn ended)) := by
  intro h
  have h_eager := h (.new (.v4 0 1080) none (fun _ => .ok ()) (fun _ => .error "")) eager
    ⟨[eager], rfl, by decide⟩ ⟨[eager.take 3, eager.drop 3], rfl, by decide⟩ false
  have h_result := h_eager.result_eq
  revert h_result
  decide

end Socks5Stream

end V2ray

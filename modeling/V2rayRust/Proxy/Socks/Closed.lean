import V2rayRust.Proxy.AddressWire
import V2rayRust.Proxy.Socks.Socks5

/-!
# Clients that close during the handshake

The loop of `Socks5Stream::init` that reads the methods ends only when it has as many bytes as the
client has announced: a read of no bytes, at the end of the stream, does not end it. Every other
read of the handshake is `read_exact`. So `init` returns to every client that closes, but for one
that announces more methods than it sends bytes, and there it reads on forever (`init_returns_iff`).
-/

namespace V2ray

namespace Socks5Stream

open Socks

/-- The loop of `read_buf` with at most so many reads. -/
def methodsReads (n : ℕ) : ℕ → List UInt8 → Session SocksEvent (List UInt8)
  | 0, readBuf =>
    if readBuf.length < n then throw (.stop (.fault .diverge)) else return readBuf
  | reads + 1, readBuf => do
    if readBuf.length < n then
      let bytes ← Session.readBuf (lwBufferSize - readBuf.length)
      methodsReads n reads (readBuf ++ bytes)
    else return readBuf

/-- `Socks5Stream::init` with at most so many reads of methods. -/
def initReads (S : Socks5Stream) (reads : ℕ) : Session SocksEvent Address := do
  let n ← S.readHeader
  let methods ← methodsReads n reads []
  S.afterHeader methods

/-- Finitely many reads are enough for `init` to return, with `Ok` or with `Err`. -/
def Returns (S : Socks5Stream) (c : Conn SocksEvent) : Prop :=
  ∃ reads, (∃ address, (S.initReads reads c).1 = .ok address) ∨
    ∃ message, (S.initReads reads c).1 = .error (.stop (.err message))

variable {S : Socks5Stream} {c c' : Conn SocksEvent} {n reads : ℕ} {readBuf : List UInt8}

/-! ### The loop -/

/-- A read of a stream that has ended: some bytes, and none only if there are none. -/
inductive ReadsSome (c : Conn SocksEvent) :
    Except Halt (List UInt8) × Conn SocksEvent → Prop
  | some {bytes : List UInt8} {c' : Conn SocksEvent} (bytes_eq : c.bytes = bytes ++ c'.bytes)
      (ended_eq : c'.ended = true) (ne_nil : ∀ segment ∈ c'.segments, segment ≠ [])
      (at_end : bytes = [] → c.bytes = []) : ReadsSome c (.ok bytes, c')

/-- A read of a stream that has ended. -/
theorem readsSome {room : ℕ} (h_room : 0 < room) (h_ended : c.ended = true)
    (h_ne : ∀ segment ∈ c.segments, segment ≠ []) : ReadsSome c (Session.readBuf room c) := by
  obtain ⟨segments, ended, done⟩ := c
  cases segments with
  | nil =>
    cases h_ended
    exact .some rfl rfl h_ne fun _ => rfl
  | cons segment segments =>
    obtain ⟨h_segment, h_rest⟩ := List.forall_mem_cons.mp h_ne
    unfold Session.readBuf
    dsimp only
    split
    · next h_long =>
      -- the rest of the segment stays, and is not empty
      have h_left : segment.drop room ≠ [] := by
        rw [Ne, List.drop_eq_nil_iff]
        exact Nat.not_le_of_lt h_long
      refine .some ?_ h_ended (List.forall_mem_cons.mpr ⟨h_left, h_rest⟩) fun h_nil => ?_
      · show segment ++ segments.flatten = segment.take room ++
          (segment.drop room ++ segments.flatten)
        rw [← List.append_assoc, List.take_append_drop]
      · rcases List.take_eq_nil_iff.mp h_nil with h_zero | h_zero
        · exact absurd h_zero (Nat.ne_of_gt h_room)
        · exact absurd h_zero h_segment
    · exact .some rfl h_ended h_rest fun h_nil => absurd h_nil h_segment

/-- There is room in the buffer, as long as methods are missing. -/
theorem room_pos (h_n : n < 256) (h : readBuf.length < n) : 0 < lwBufferSize - readBuf.length := by
  unfold lwBufferSize
  omega

theorem methodsReads_of_le (h : n ≤ readBuf.length) :
    methodsReads n reads readBuf = pure readBuf := by
  cases reads with
  | zero => exact if_neg (Nat.not_lt_of_le h)
  | succ reads => exact if_neg (Nat.not_lt_of_le h)

/-- **Too few bytes**: no number of reads is enough. -/
theorem methodsReads_diverges (h_n : n < 256) (h_ended : c.ended = true)
    (h_ne : ∀ segment ∈ c.segments, segment ≠ [])
    (h_few : readBuf.length + c.bytes.length < n) :
    (methodsReads n reads readBuf c).1 = .error (.stop (.fault .diverge)) := by
  have h_lt : readBuf.length < n := by omega
  induction reads generalizing readBuf c with
  | zero =>
    rw [methodsReads, if_pos h_lt]
    rfl
  | succ reads ih =>
    rw [methodsReads, if_pos h_lt, bind_run_eq]
    have h_read := readsSome (room_pos h_n h_lt) h_ended h_ne
    generalize Session.readBuf (lwBufferSize - readBuf.length) c = r at h_read ⊢
    cases h_read with
    | @some bytes c' bytes_eq ended_eq ne_nil at_end =>
      -- what has been read and what is left are as many bytes as before
      have h_sum : (readBuf ++ bytes).length + c'.bytes.length < n := by
        rw [bytes_eq, List.length_append] at h_few
        rw [List.length_append]
        omega
      exact ih ended_eq ne_nil h_sum (by omega)

/-- **Enough bytes**: each read brings one, until there are `n`. -/
theorem methodsReads_returns (h_n : n < 256) (h_ended : c.ended = true)
    (h_ne : ∀ segment ∈ c.segments, segment ≠ [])
    (h_enough : n ≤ readBuf.length + c.bytes.length) (h_reads : n ≤ readBuf.length + reads) :
    ∃ methods c', methodsReads n reads readBuf c = (.ok methods, c') ∧ c'.ended = true := by
  -- on the reads; each of them brings a byte as long as one is missing
  induction reads generalizing readBuf c with
  | zero =>
    rw [methodsReads_of_le h_reads]
    exact ⟨readBuf, c, rfl, h_ended⟩
  | succ reads ih =>
    by_cases h_lt : readBuf.length < n
    · rw [methodsReads, if_pos h_lt, bind_run_eq]
      have h_read := readsSome (room_pos h_n h_lt) h_ended h_ne
      generalize Session.readBuf (lwBufferSize - readBuf.length) c = r at h_read ⊢
      cases h_read with
      | @some bytes c' bytes_eq ended_eq ne_nil at_end =>
        -- at the end of the stream nothing would be missing
        have h_pos : 0 < bytes.length := by
          refine List.length_pos_of_ne_nil fun h_nil => ?_
          rw [at_end h_nil, List.length_nil] at h_enough
          omega
        refine ih ended_eq ne_nil ?_ ?_
        · rw [bytes_eq, List.length_append] at h_enough
          rw [List.length_append]
          omega
        · rw [List.length_append]
          omega
    · rw [methodsReads_of_le (Nat.le_of_not_lt h_lt)]
      exact ⟨readBuf, c, rfl, h_ended⟩

/-- At the end of the stream the loop goes on without reading anything. -/
theorem methodsReads_at_end {done : List SocksEvent} (h : readBuf.length < n) :
    methodsReads n reads readBuf ⟨[], true, done⟩ =
      (.error (.stop (.fault .diverge)), ⟨[], true, done⟩) := by
  have h_end (room : ℕ) : Session.readBuf room (⟨[], true, done⟩ : Conn SocksEvent) =
      (.ok [], ⟨[], true, done⟩) := rfl
  induction reads with
  | zero =>
    rw [methodsReads, if_pos h]
    rfl
  | succ reads ih =>
    rw [methodsReads, if_pos h, bind_run_eq, h_end]
    dsimp only
    rw [List.append_nil]
    exact ih

/-- The loop of `readMethods` stops at the read of no bytes, after which this one reads on. -/
theorem methodsReads_eq_loop {rounds : ℕ} (h_n : n < 256) (h_ended : c.ended = true)
    (h_ne : ∀ segment ∈ c.segments, segment ≠ []) (h_reads : n ≤ readBuf.length + reads)
    (h_rounds : n ≤ readBuf.length + rounds) :
    methodsReads n reads readBuf c = readMethodsLoop n rounds readBuf c := by
  -- on the rounds of the other loop, which are enough for every byte
  induction rounds generalizing readBuf c reads with
  | zero => rw [methodsReads_of_le h_rounds, readMethodsLoop_of_le h_rounds]
  | succ rounds ih =>
    by_cases h_lt : readBuf.length < n
    · obtain ⟨reads, rfl⟩ := Nat.exists_eq_add_of_le' (show 1 ≤ reads by omega)
      obtain ⟨segments, ended, done⟩ := c
      cases h_ended
      cases segments with
      | nil =>
        -- both have read all there is
        rw [methodsReads_at_end h_lt, readMethodsLoop, if_pos h_lt]
        rfl
      | cons segment segments =>
        have h_bytes : segment ≠ [] := h_ne segment List.mem_cons_self
        rw [methodsReads, readMethodsLoop, if_pos h_lt, if_pos h_lt, bind_run_eq, bind_run_eq]
        have h_read := readsSome (room_pos h_n h_lt) rfl h_ne
        generalize Session.readBuf (lwBufferSize - readBuf.length) _ = r at h_read ⊢
        cases h_read with
        | @some bytes c' bytes_eq ended_eq ne_nil at_end =>
          have h_some : bytes ≠ [] := fun h_nil =>
            h_bytes (List.append_eq_nil_iff.mp (at_end h_nil)).1
          have h_pos := List.length_pos_of_ne_nil h_some
          dsimp only
          rw [if_neg h_some]
          refine ih ended_eq ne_nil ?_ ?_
          · rw [List.length_append]
            omega
          · rw [List.length_append]
            omega
    · rw [methodsReads_of_le (Nat.le_of_not_lt h_lt), readMethodsLoop_of_le (Nat.le_of_not_lt h_lt)]

/-! ### Everything else is `read_exact` -/

theorem keepsEnd_err {α : Type} (message : String) :
    KeepsEnd (err message : Session SocksEvent α) := keepsEnd_throw _

theorem keepsEnd_authFailure : KeepsEnd S.authFailure :=
  keepsEnd_bind (keepsEnd_act _ _) fun _ => keepsEnd_err _

theorem closes_authFailure : Closes S.authFailure :=
  closes_bind (closes_act _ _) (keepsEnd_act _ _) fun _ => closes_err _

theorem closes_readHeader : Closes S.readHeader := by
  unfold readHeader
  refine closes_bind (closes_readExact 2) (keepsEnd_readExact 2) fun header => ?_
  split
  · exact closes_pure _
  · exact closes_bind (closes_act _ _) (keepsEnd_act _ _) fun _ => closes_err _

theorem keepsEnd_readUser : KeepsEnd readUser :=
  keepsEnd_bind (keepsEnd_readExact 2) fun _ => keepsEnd_bind (keepsEnd_readExact _) fun _ =>
    keepsEnd_bind keepsEnd_readByte fun _ => keepsEnd_bind (keepsEnd_readExact _) fun _ =>
      keepsEnd_pure _

theorem closes_readUser : Closes readUser :=
  closes_bind (closes_readExact 2) (keepsEnd_readExact 2) fun _ =>
    closes_bind (closes_readExact _) (keepsEnd_readExact _) fun _ =>
      closes_bind closes_readByte keepsEnd_readByte fun _ =>
        closes_bind (closes_readExact _) (keepsEnd_readExact _) fun _ => closes_pure _

/-- Negotiation keeps what is known of the end of the stream. -/
theorem keepsEnd_authenticate (methods : List UInt8) : KeepsEnd (S.authenticate methods) := by
  unfold authenticate
  split
  · refine keepsEnd_bind (keepsEnd_act _ _) fun _ =>
      keepsEnd_bind keepsEnd_readUser fun readBuf => ?_
    dsimp only
    split
    · exact keepsEnd_act _ _
    split
    · exact keepsEnd_act _ _
    · exact keepsEnd_bind (keepsEnd_act _ _) fun _ => keepsEnd_authFailure
  split
  · exact keepsEnd_act _ _
  · exact keepsEnd_bind (keepsEnd_act _ _) fun _ => keepsEnd_authFailure

/-- It returns on every stream that has ended. -/
theorem closes_authenticate (methods : List UInt8) : Closes (S.authenticate methods) := by
  unfold authenticate
  split
  · refine closes_bind (closes_act _ _) (keepsEnd_act _ _) fun _ =>
      closes_bind closes_readUser keepsEnd_readUser fun readBuf => ?_
    dsimp only
    split
    · exact closes_act _ _
    split
    · exact closes_act _ _
    · exact closes_bind (closes_act _ _) (keepsEnd_act _ _) fun _ => closes_authFailure
  split
  · exact closes_act _ _
  · exact closes_bind (closes_act _ _) (keepsEnd_act _ _) fun _ => closes_authFailure

/-- So does the reader of requests. -/
theorem closes_request : Closes S.request := by
  unfold request
  refine closes_bind (closes_readExact 3) (keepsEnd_readExact 3) fun buf => ?_
  split
  · exact closes_err _
  refine closes_bind Address.closes_readFromStream Address.keepsEnd_readFromStream fun address => ?_
  split
  · exact closes_bind (closes_act _ _) (keepsEnd_act _ _) fun _ => closes_pure _
  split
  · exact closes_bind (closes_act _ _) (keepsEnd_act _ _) fun addr =>
      closes_bind (closes_act _ _) (keepsEnd_act _ _) fun _ => closes_pure _
  · exact closes_bind (closes_act _ _) (keepsEnd_act _ _) fun _ => closes_err _

theorem closes_afterHeader (methods : List UInt8) : Closes (S.afterHeader methods) :=
  closes_bind (closes_authenticate methods) (keepsEnd_authenticate methods) fun _ => closes_request

/-! ### The handshake -/

variable {bytes : List UInt8} {cut : Segmentation bytes}

/-- What is known of the connection after the header. -/
theorem of_readHeader_closed {n : ℕ} (h : S.readHeader (cut.conn true) = (.ok n, c)) :
    n < 256 ∧ c.ended = true ∧ (∀ segment ∈ c.segments, segment ≠ []) ∧
      ∃ m rest, bytes = version :: m :: rest ∧ n = m.toNat ∧ c.bytes = rest := by
  obtain ⟨m, rest, h_bytes, rfl, rfl⟩ := of_readHeader h
  refine ⟨m.toNat_lt, rfl, ne_nil_of_dropBytes cut.ne_nil, m, rest, ?_, rfl, ?_⟩
  · exact cut.flatten_eq.symm.trans h_bytes
  · refine (flatten_dropBytes 2 cut.segments).trans ?_
    exact congrArg (List.drop 2) h_bytes

/-- As many reads as there may be methods are all that `init` does on a closed connection. -/
theorem initReads_eq_init : S.initReads 256 (cut.conn true) = S.init (cut.conn true) := by
  have h_init : S.init = S.readHeader >>= fun n => readMethods n >>= S.afterHeader := rfl
  rw [h_init, initReads, bind_run_eq, bind_run_eq]
  match h_header : S.readHeader (cut.conn true) with
  | (.error _, _) => rfl
  | (.ok n, c) =>
    obtain ⟨h_n, h_ended, h_ne, -⟩ := of_readHeader_closed h_header
    have h_loop : methodsReads n 256 [] c = readMethods n c :=
      methodsReads_eq_loop h_n h_ended h_ne (by omega) (Nat.le_add_left n _)
    dsimp only
    rw [bind_run_eq, bind_run_eq, h_loop]

/-- The client announces more methods than it sends bytes. -/
def ClosesInMethods (bytes : List UInt8) : Prop :=
  ∃ n rest, bytes = version :: n :: rest ∧ rest.length < n.toNat

/-- What a task that closes comes to. -/
theorem of_closes {x : Session SocksEvent Address} (h : Closes x) (h_c : c.ended = true) :
    (∃ address, (x c).1 = .ok address) ∨ ∃ message, (x c).1 = .error (.stop (.err message)) := by
  have h_x := h c h_c
  generalize (x c).1 = r at h_x ⊢
  cases r with
  | ok address => exact .inl ⟨address, rfl⟩
  | error e =>
    obtain ⟨message, rfl⟩ := h_x e rfl
    exact .inr ⟨message, rfl⟩

/-- A client that closes in its list: the header is read, and then no number of reads is enough. -/
theorem initReads_diverges (h : ClosesInMethods bytes) (reads : ℕ) :
    (S.initReads reads (cut.conn true)).1 = .error (.stop (.fault .diverge)) := by
  obtain ⟨m, rest, h_bytes, h_few⟩ := h
  obtain ⟨c, h_header⟩ : ∃ c, S.readHeader (cut.conn true) = (.ok m.toNat, c) :=
    ⟨_, readHeader_of_bytes (cut.flatten_eq.trans h_bytes)⟩
  obtain ⟨h_n, h_ended, h_ne, m', rest', h_eq, -, h_rest⟩ := of_readHeader_closed h_header
  cases h_bytes.symm.trans h_eq
  have h_sum : ([] : List UInt8).length + c.bytes.length < m.toNat := by
    rw [h_rest, List.length_nil, Nat.zero_add]
    exact h_few
  have h_loop : (methodsReads m.toNat reads [] c).1 = .error (.stop (.fault .diverge)) :=
    methodsReads_diverges h_n h_ended h_ne h_sum
  rw [initReads, bind_run_eq, h_header]
  dsimp only
  rw [bind_run_eq]
  generalize methodsReads m.toNat reads [] c = r at h_loop ⊢
  obtain ⟨r, c'⟩ := r
  cases h_loop
  rfl

/-- **Closed clients.** `init` returns after finitely many reads if and only if the client has not
closed before it has sent as many bytes as it has announced methods. -/
theorem init_returns_iff (S : Socks5Stream) {bytes : List UInt8} (cut : Segmentation bytes) :
    S.Returns (cut.conn true) ↔ ¬ ClosesInMethods bytes := by
  constructor
  · rintro ⟨reads, h_returns⟩ h_closes
    rw [initReads_diverges h_closes] at h_returns
    rcases h_returns with ⟨address, h⟩ | ⟨message, h⟩
    · cases h
    · cases h
  · intro h
    refine ⟨256, ?_⟩
    rw [initReads, bind_run_eq]
    -- the version and the number of methods are read with `read_exact`
    have h_error := closes_readHeader (S := S) (cut.conn true) rfl
    match h_header : S.readHeader (cut.conn true) with
    | (.error e, c) =>
      obtain ⟨message, rfl⟩ := h_error e (congrArg Prod.fst h_header)
      exact .inr ⟨message, rfl⟩
    | (.ok n, c) =>
      obtain ⟨h_n, h_ended, h_ne, m, rest, h_bytes, rfl, rfl⟩ := of_readHeader_closed h_header
      -- the client has sent as many methods as it has announced
      have h_enough : ([] : List UInt8).length + c.bytes.length ≥ m.toNat := by
        by_contra h_few
        rw [List.length_nil, Nat.zero_add] at h_few
        exact h ⟨m, c.bytes, h_bytes, Nat.lt_of_not_le h_few⟩
      have h_reads : m.toNat ≤ ([] : List UInt8).length + 256 := by omega
      obtain ⟨methods, c', h_methods, h_ended⟩ :=
        methodsReads_returns h_n h_ended h_ne h_enough h_reads
      have h_closes := of_closes (closes_afterHeader (S := S) methods) h_ended
      dsimp only
      rw [bind_run_eq, h_methods]
      exact h_closes

/-- A client that announces one method and closes. -/
theorem init_returns_short :
    ¬ ∀ (S : Socks5Stream) (bytes : List UInt8) (cut : Segmentation bytes),
      S.Returns (cut.conn true) := by
  intro h
  let S : Socks5Stream := .new (.v4 0 1080) none (fun _ => .ok ()) (fun _ => .error "")
  let cut : Segmentation [5, 1] := ⟨[[5, 1]], rfl, by decide⟩
  obtain ⟨reads, h_returns⟩ := h S [5, 1] cut
  have h_diverges : (S.initReads reads (cut.conn true)).1 = .error (.stop (.fault .diverge)) :=
    initReads_diverges ⟨1, [], rfl, by decide⟩ reads
  rw [h_diverges] at h_returns
  rcases h_returns with ⟨address, h⟩ | ⟨message, h⟩
  · cases h
  · cases h

end Socks5Stream

end V2ray

import Mathlib.Data.List.Infix
import V2rayRust.Proxy.ChainTcp
import V2rayRust.Proxy.Shadowsocks.Layered

/-!
# Chains of Shadowsocks hops

A chain makes a stream to its first server, writes the address of the second through it, makes a
stream over it, and so on; what its owner writes in the end goes through all of them. Each server
takes one layer off, reads where the rest is to go, and passes it on; so the last one gets the
target of the owner and all of its bytes, and what it answers comes back through the same layers
(`ss_chain`).

A chain is a tower of streams, each of which writes to the one below. `Standing` is the invariant of
a tower that is being built: it owes, for any slices that its owner may write later, what the chain
makes of them, less what is out. A hop that is added to it keeps it (`Built.standing`), and when all
hops are there the tower is a stream of two directions, to which the rules for runs apply
(`Standing.inUse`). The condition that the fuel is more than a chunk and than all that comes is one
on the model, whose loops over the stream below are bounded; any number that is large enough will do.
-/

namespace V2ray

open CryptoStream HopConfig

/-- A server of a chain: the address that is written to it first, and the salt that is drawn. -/
structure SsHop where
  method : CipherKind
  key : List UInt8
  target : Address
  iv : List UInt8

namespace SsHop

def cipher (A : Aead) (hop : SsHop) : AeadCipher := .new A hop.method hop.key hop.iv

/-- The stream that `build_tcp` makes. -/
def stream (A : Aead) (hop : SsHop) : CryptoStream := .new A hop.key hop.method hop.iv

structure Valid (hop : SsHop) : Prop where
  is_aead : hop.method ≠ .none
  iv_len : hop.iv.length = hop.method.saltLen
  target : hop.target.onWire.Encodable

end SsHop

/-! ### What the bytes are -/

/-- What is taken of slices. -/
def payload (slices : List (List UInt8)) : List UInt8 :=
  (slices.map fun data => data.take maxPacketSize).flatten

/-- The chunks of slices. -/
def sealAll (A : Aead) : AeadCipher → List (List UInt8) → List (List UInt8)
  | _, [] => []
  | c, data :: slices =>
    let x := AeadEncryptedWriter.encryptedBuffer A c (data.take maxPacketSize)
    x.2 :: sealAll A x.1 slices

/-- The chunks of a hop: the salt goes with the first one, and the target is in it. -/
def SsHop.chunks (A : Aead) (hop : SsHop) (slices : List (List UInt8)) : List (List UInt8) :=
  match sealAll A (hop.cipher A) (hop.target.writeToBuf :: slices) with
  | [] => []
  | chunk :: chunks => (hop.iv ++ chunk) :: chunks

/-- The bytes that the network gets of slices through a chain, the last hop first: the chunks of a
hop are the slices of the hop before it, in the pieces that it takes. -/
def chainWire (A : Aead) : List SsHop → List (List UInt8) → List UInt8
  | [], slices => payload slices
  | hop :: hops, slices => chainWire A hops ((hop.chunks A slices).flatMap (cut taken))

/-- A server with the key reads the target and `plain` out of these bytes, in whatever pieces they
come. -/
def SsHop.Opens (A : Aead) (p : Profile) (hop : SsHop) (wire plain : List UInt8) : Prop :=
  ∀ (salt : List UInt8) (checkNonceAndSet : List UInt8 → Bool) (es : List ReadEvent)
    (rooms : List ℕ), checkNonceAndSet hop.iv = false → Clean es → bytesOf es = wire →
    (∀ room ∈ rooms, 0 < room) →
    ∃ y, readRun (privPollRead A p checkNonceAndSet) rooms
        (CryptoStream.new A hop.key hop.method salt) es = .ok y ∧
      y.put <+: hop.target.writeToBuf ++ plain ∧ (∀ e, y.how ≠ .failed e) ∧
      (pendings es + (hop.target.writeToBuf ++ plain).length ≤ rooms.length →
        Address.parse y.put = some (hop.target.onWire, plain))

/-- The servers of a chain, the last one first, get `plain` out of `wire`: each passes on what the
one before it read. -/
def Relayed (A : Aead) (p : Profile) : List SsHop → List UInt8 → List UInt8 → Prop
  | [], wire, plain => wire = plain
  | hop :: hops, wire, plain => ∃ inner, Relayed A p hops wire inner ∧ hop.Opens A p inner plain

/-- A server answers `plain`, under a salt of its own that is new to us. -/
def SsHop.Answers (A : Aead) (checkNonceAndSet : List UInt8 → Bool) (hop : SsHop)
    (wire plain : List UInt8) : Prop :=
  ∃ salt replies down, salt.length = hop.method.saltLen ∧ checkNonceAndSet salt = false ∧
    Sealed (AeadEncryptedWriter.format A) (.new A hop.method hop.key salt) replies down ∧
    wire = salt ++ down ∧ plain = payload replies

/-- The servers of a chain, the last one first, make `wire` out of `plain` on the way back. -/
def Answered (A : Aead) (checkNonceAndSet : List UInt8 → Bool) :
    List SsHop → List UInt8 → List UInt8 → Prop
  | [], wire, plain => wire = plain
  | hop :: hops, wire, plain =>
    ∃ inner, Answered A checkNonceAndSet hops wire inner ∧
      hop.Answers A checkNonceAndSet inner plain

section Bytes

variable {A : Aead} {p : Profile} {checkNonceAndSet : List UInt8 → Bool} {hop : SsHop}
  {hops : List SsHop} {slices slices' : List (List UInt8)} {wire plain : List UInt8}

theorem sealedEach_sealAll (A : Aead) (c : AeadCipher) (slices : List (List UInt8)) :
    SealedEach (AeadEncryptedWriter.format A) c slices (sealAll A c slices) := by
  induction slices generalizing c with
  | nil => exact .nil c
  | cons data slices ih => exact .cons (fun h => (by cases h)) rfl (ih _)

theorem chunks_eq (A : Aead) (hop : SsHop) (slices : List (List UInt8)) :
    ∃ chunk chunks, hop.chunks A slices = (hop.iv ++ chunk) :: chunks ∧
      SealedEach (AeadEncryptedWriter.format A) (hop.cipher A)
        (hop.target.writeToBuf :: slices) (chunk :: chunks) :=
  ⟨_, _, rfl, sealedEach_sealAll A (hop.cipher A) (hop.target.writeToBuf :: slices)⟩

/-- What the slices of the hop before take is the salt and the chunks. -/
theorem payload_cut (chunks : List (List UInt8)) :
    payload (chunks.flatMap (cut taken)) = chunks.flatten := by
  have h_take (data : List UInt8) : data.take maxPacketSize = data.take (taken data) :=
    List.take_eq_take_min
  unfold payload
  rw [List.map_congr_left fun data _ => h_take data]
  exact flatten_cuts takesPart_taken chunks

/-- A server opens what its hop seals. -/
theorem opens_chunks (h_aead : A.Lawful) (h : hop.Valid) (slices : List (List UInt8)) :
    hop.Opens A p (hop.chunks A slices).flatten (payload slices) := by
  intro salt peerCheck es rooms h_new h_clean h_bytes h_rooms
  obtain ⟨chunk, chunks, h_chunks, h_each⟩ := chunks_eq A hop slices
  rw [h_chunks, List.flatten_cons, List.append_assoc, ← List.flatten_cons] at h_bytes
  have h_ahead := hears (p := p) h_aead h.is_aead salt h.iv_len h_new h_each.sealed h_clean h_bytes
  rw [List.map_cons, List.flatten_cons, take_writeToBuf h.target] at h_ahead
  obtain ⟨y, h_y, h_pre, h_ok, -, h_all⟩ :=
    run_of_delivers (delivers_privPollRead peerCheck h_aead.toInPlace) h_ahead h_rooms
  refine ⟨y, h_y, h_pre, h_ok, fun h_enough => ?_⟩
  rw [h_all h_enough, ← Address.writeToBuf_onWire]
  exact Address.parse_writeToBuf h.target _

/-- **The servers of a chain take off what the hops put on.** -/
theorem relayed_chainWire (h_aead : A.Lawful) (h : ∀ hop ∈ hops, hop.Valid)
    (slices : List (List UInt8)) : Relayed A p hops (chainWire A hops slices) (payload slices) := by
  induction hops generalizing slices with
  | nil => rfl
  | cons hop hops ih =>
    have h_valid := h hop List.mem_cons_self
    refine ⟨(hop.chunks A slices).flatten, ?_, opens_chunks h_aead h_valid slices⟩
    rw [← payload_cut]
    exact ih (fun hop h_hop => h hop (List.mem_cons_of_mem _ h_hop)) _

/-- Servers can answer anything. -/
theorem exists_answered (A : Aead) (hops : List SsHop) (plain : List UInt8) :
    ∃ wire, Answered A (fun _ => false) hops wire plain := by
  induction hops generalizing plain with
  | nil => exact ⟨plain, rfl⟩
  | cons hop hops ih =>
    obtain ⟨down, h_down⟩ := exists_sealed A
      (.new A hop.method hop.key (List.replicate hop.method.saltLen 0)) (cut taken plain)
    obtain ⟨wire, h_wire⟩ := ih (List.replicate hop.method.saltLen 0 ++ down)
    refine ⟨wire, _, h_wire, _, cut taken plain, down, List.length_replicate, rfl, h_down, rfl, ?_⟩
    have h_all := payload_cut [plain]
    rwa [List.flatMap_singleton, List.flatten_singleton, eq_comm] at h_all

/-- More slices only add bytes. -/
theorem payload_mono (h : slices <+: slices') : payload slices <+: payload slices' :=
  (h.map _).flatten

theorem sealAll_mono (A : Aead) (c : AeadCipher) (h : slices <+: slices') :
    sealAll A c slices <+: sealAll A c slices' := by
  obtain ⟨more, rfl⟩ := h
  induction slices generalizing c with
  | nil => exact List.nil_prefix
  | cons data slices ih => exact List.cons_prefix_cons.mpr ⟨rfl, ih _⟩

theorem chunks_mono (A : Aead) (hop : SsHop) (h : slices <+: slices') :
    hop.chunks A slices <+: hop.chunks A slices' := by
  have h_seal := sealAll_mono A (hop.cipher A)
    (List.cons_prefix_cons.mpr ⟨rfl, h⟩ : hop.target.writeToBuf :: slices <+: _)
  -- the first chunk, which gets the salt, is the target, so it is the same in both
  exact List.cons_prefix_cons.mpr ⟨rfl, (List.cons_prefix_cons.mp h_seal).2⟩

theorem chainWire_mono (A : Aead) (hops : List SsHop) (h : slices <+: slices') :
    chainWire A hops slices <+: chainWire A hops slices' := by
  induction hops generalizing slices slices' with
  | nil => exact payload_mono h
  | cons hop hops ih => exact ih ((chunks_mono A hop h).flatMap _)

/-- What is taken of a slice is not longer than the slice. -/
theorem length_payload_le (slices : List (List UInt8)) :
    (payload slices).length ≤ (slices.map fun data => 34 + min maxPacketSize data.length).sum := by
  induction slices with
  | nil => exact Nat.le_refl 0
  | cons data slices ih =>
    unfold payload at ih ⊢
    rw [List.map_cons, List.map_cons, List.flatten_cons, List.length_append, List.length_take,
      List.sum_cons]
    omega

/-- A layer is longer than what is in it. -/
theorem length_le_of_answered (h_inPlace : A.InPlace)
    (h : Answered A checkNonceAndSet hops wire plain) : plain.length ≤ wire.length := by
  induction hops generalizing plain with
  | nil => exact Nat.le_of_eq (congrArg List.length h.symm)
  | cons hop hops ih =>
    obtain ⟨inner, h_inner, salt, replies, down, -, -, h_sealed, rfl, rfl⟩ := h
    refine Nat.le_trans ?_ (ih h_inner)
    rw [List.length_append, length_of_sealed h_inPlace h_sealed]
    exact Nat.le_trans (length_payload_le replies) (Nat.le_add_left _ _)

end Bytes

/-! ### The streams -/

/-- So many streams over another, the last one outside. -/
def Tower : ℕ → Type
  | 0 => CryptoStream
  | n + 1 => CryptoStream × Tower n

section Tower

variable (A : Aead) (p : Profile) (checkNonceAndSet : List UInt8 → Bool)
  (spare : AeadDecryptedReader → ℕ) (fuel : ℕ)

def tower : (n : ℕ) → TwoWay (Tower n)
  | 0 => twoWay A p checkNonceAndSet
  | n + 1 => (overlay A p checkNonceAndSet spare).streamOver (tower n) fuel

/-- `build_tcp` of one hop after the other: the address is written before the next stream is made.
The last hop is the first of the list. -/
inductive Built (es : List ReadEvent) (ws : List WriteEvent) :
    List SsHop → (n : ℕ) → TwoWayRun (Tower n) → Prop
  | first {hop : SsHop} {d : TwoWayRun (Tower 0)} (polls : ℕ)
      (run_eq : (tower A p checkNonceAndSet spare fuel 0).run (List.replicate polls .write)
        (TwoWay.start (hop.stream A) [hop.target.writeToBuf] es ws) = .ok d)
      (left_eq : d.left = []) : Built es ws [hop] 0 d
  | next {hop : SsHop} {hops : List SsHop} {n : ℕ} {d : TwoWayRun (Tower n)}
      {d' : TwoWayRun (Tower (n + 1))} (polls : ℕ) (built : Built es ws hops n d)
      (run_eq : (tower A p checkNonceAndSet spare fuel (n + 1)).run (List.replicate polls .write)
        { TwoWay.start (hop.stream A, d.state) [hop.target.writeToBuf] d.reads d.writes with
          out := d.out } = .ok d')
      (left_eq : d'.left = []) : Built es ws (hop :: hops) (n + 1) d'

def TowerAhead : (n : ℕ) → Tower n → List ReadEvent → List UInt8 → Prop
  | 0 => CryptoAhead A p checkNonceAndSet
  | n + 1 => Overlay.Ahead (Coming A p checkNonceAndSet) (TowerAhead n) fuel

def TowerOwes : (n : ℕ) → Tower n → List (List UInt8) → List UInt8 → Prop
  | 0 => CryptoStream.Owes A
  | n + 1 => Overlay.OwesOver (OwesEach A) (TowerOwes n) taken fuel

end Tower

section Run

variable {A : Aead} {p : Profile} {checkNonceAndSet : List UInt8 → Bool}
  {spare : AeadDecryptedReader → ℕ} {fuel : ℕ}

theorem fits_tower (n : ℕ) : (tower A p checkNonceAndSet spare fuel n).Fits := by
  cases n with
  | zero => exact fits_twoWay
  | succ n => exact Overlay.fits_streamOver fits_twoWay _ fuel

/-- **Streams over streams work.** -/
theorem tower_works (h_inPlace : A.InPlace) (h_spare : ∀ r, 0 < spare r) (n : ℕ) :
    (tower A p checkNonceAndSet spare fuel n).Works (TowerAhead A p checkNonceAndSet fuel n)
      (TowerOwes A fuel n) (fun _ => 0) taken := by
  induction n with
  | zero => exact twoWay_works h_inPlace
  | succ n ih => exact (sits h_inPlace h_spare).works (fits_tower n) ih takesPart_taken fuel

/-- Nothing is owed when no slice is left. -/
theorem eq_nil_of_towerOwes {n : ℕ} {t : Tower n} {owed : List UInt8}
    (h : TowerOwes A fuel n t [] owed) : owed = [] := by
  induction n generalizing owed with
  | zero =>
    obtain ⟨w, -, h_owes⟩ := h
    cases h_owes
    rfl
  | succ n ih =>
    obtain ⟨chunks, ⟨w, -, h_each⟩, h_below, -⟩ := h
    cases h_each
    exact ih h_below

variable {es : List ReadEvent} {ws : List WriteEvent} {hop : SsHop} {hops : List SsHop} {n : ℕ}

/-- The most bytes of a chunk, with a salt before it. -/
def longestChunk : ℕ := 32 + (34 + maxPacketSize)

/-- A chunk has 34 bytes more than what is sealed in it. -/
theorem length_le_of_mem_sealAll (h_inPlace : A.InPlace) (c : AeadCipher)
    {slices : List (List UInt8)} {chunk : List UInt8} (h : chunk ∈ sealAll A c slices) :
    chunk.length ≤ 34 + maxPacketSize := by
  induction slices generalizing c with
  | nil => cases h
  | cons data slices ih =>
    rcases List.mem_cons.mp h with rfl | h
    · have h_take : (data.take maxPacketSize).length ≤ maxPacketSize := List.length_take_le _ _
      show ((c.encrypt A _).1 ++ (c.increaseNonce.encrypt A _).1).length ≤ _
      rw [List.length_append, length_encrypt h_inPlace, length_encrypt h_inPlace, length_beBytes]
      show 2 + 16 + (_ + 16) ≤ _
      omega
    · exact ih _ h

/-- So every chunk of a hop is shorter than the longest chunk. -/
theorem length_le_of_mem_chunks (h_inPlace : A.InPlace) (h : hop.Valid)
    {slices : List (List UInt8)} {chunk : List UInt8} (h_chunk : chunk ∈ hop.chunks A slices) :
    chunk.length ≤ longestChunk := by
  have h_salt : hop.iv.length ≤ 32 := by
    rw [h.iv_len]
    cases hop.method <;> decide
  have h_each {c : List UInt8}
      (h_c : c ∈ sealAll A (hop.cipher A) (hop.target.writeToBuf :: slices)) :
      c.length ≤ 34 + maxPacketSize := length_le_of_mem_sealAll h_inPlace _ h_c
  unfold longestChunk
  rcases List.mem_cons.mp h_chunk with rfl | h_chunk
  · have h_first := h_each List.mem_cons_self
    rw [List.length_append]
    omega
  · have h_later := h_each (List.mem_cons_of_mem _ h_chunk)
    omega

/-- A new stream hears what its server answers. -/
theorem coming_stream (h_aead : A.Lawful) (h : hop.Valid) {wire plain : List UInt8}
    (h_answers : hop.Answers A checkNonceAndSet wire plain) :
    Coming A p checkNonceAndSet (hop.stream A) wire plain := by
  obtain ⟨salt, replies, down, h_salt, h_new, h_sealed, rfl, rfl⟩ := h_answers
  have h_ahead := hears (p := p) h_aead h.is_aead hop.iv h_salt h_new h_sealed
    (clean_oneByOne (salt ++ down)) (bytesOf_oneByOne _)
  have h_coming := (cryptoAhead_iff.mp h_ahead).2
  rwa [bytesOf_oneByOne] at h_coming

theorem enc_stream (h : hop.Valid) :
    (hop.stream A).enc = .aead (.new A hop.method hop.key hop.iv) := by
  unfold SsHop.stream
  rw [new_of_aead h.is_aead]

/-- A chain that is built: nothing has been read, and of what slices will be on the wire, the rest
is owed. -/
structure Standing (A : Aead) (p : Profile) (checkNonceAndSet : List UInt8 → Bool) (fuel : ℕ)
    (es : List ReadEvent) (ws : List WriteEvent) (hops : List SsHop) (n : ℕ)
    (d : TwoWayRun (Tower n)) (plain : List UInt8) : Prop where
  how_eq : d.how = .more
  got_eq : d.got = []
  reads_eq : d.reads = es
  working : Working d.writes
  ahead : TowerAhead A p checkNonceAndSet fuel n d.state es plain
  owes : ∀ slices, ∃ owed, TowerOwes A fuel n d.state slices owed ∧
    d.out ++ owed = chainWire A hops slices
  accepts_le : accepts ws ≤ d.out.length + accepts d.writes

/-- What a hop owes that is to be built next. -/
theorem owes_next (h_inPlace : A.InPlace) (h : hop.Valid) (h_fuel : longestChunk < fuel)
    {d : TwoWayRun (Tower n)} {plain : List UInt8}
    (h_standing : Standing A p checkNonceAndSet fuel es ws hops n d plain)
    (slices : List (List UInt8)) :
    ∃ owed, TowerOwes A fuel (n + 1) (hop.stream A, d.state)
        (hop.target.writeToBuf :: slices) owed ∧
      d.out ++ owed = chainWire A (hop :: hops) slices := by
  obtain ⟨owed, h_owes, h_out⟩ :=
    h_standing.owes ((hop.chunks A slices).flatMap (cut taken))
  obtain ⟨chunk, chunks, h_chunks, h_each⟩ := chunks_eq A hop slices
  refine ⟨owed, ⟨hop.chunks A slices, ⟨_, enc_stream h, ?_⟩, h_owes, fun c h_c => ?_⟩, h_out⟩
  · rw [h_chunks]
    exact .idle rfl h_each
  · exact Nat.lt_of_le_of_lt (length_le_of_mem_chunks h_inPlace h h_c) h_fuel

/-- The stream over the connection owes the bytes of its target address and of the slices. -/
theorem owes_first (h : hop.Valid) (slices : List (List UInt8)) :
    TowerOwes A fuel 0 (hop.stream A) (hop.target.writeToBuf :: slices)
      (chainWire A [hop] slices) := by
  obtain ⟨chunk, chunks, h_chunks, h_each⟩ := chunks_eq A hop slices
  have h_wire : chainWire A [hop] slices = hop.iv ++ (chunk :: chunks).flatten := by
    show payload ((hop.chunks A slices).flatMap (cut taken)) = _
    rw [payload_cut, h_chunks, List.flatten_cons, List.flatten_cons, List.append_assoc]
  rw [h_wire]
  exact ⟨_, enc_stream h, .idle rfl h_each.sealed⟩

/-- **A chain that is built stands.** -/
theorem Built.standing (h_aead : A.Lawful) (h_spare : ∀ r, 0 < spare r)
    (h_fuel : longestChunk < fuel) (h_bytes : (bytesOf es).length < fuel) (h_clean : Clean es)
    (h_working : Working ws) {d : TwoWayRun (Tower n)}
    (h : Built A p checkNonceAndSet spare fuel es ws hops n d) (h_hops : ∀ hop ∈ hops, hop.Valid)
    {plain : List UInt8} (h_answered : Answered A checkNonceAndSet hops (bytesOf es) plain) :
    Standing A p checkNonceAndSet fuel es ws hops n d plain := by
  have h_works (n : ℕ) : (tower A p checkNonceAndSet spare fuel n).Works
      (TowerAhead A p checkNonceAndSet fuel n) (TowerOwes A fuel n) (fun _ => 0) taken :=
    tower_works h_aead.toInPlace h_spare n
  induction h generalizing plain with
  -- one hop over the network: what is owed before its target is out depends on the slices
  | @first hop d polls run_eq left_eq =>
    obtain ⟨inner, rfl, h_answers⟩ := h_answered
    have h_valid := h_hops hop List.mem_cons_self
    have h_ahead : TowerAhead A p checkNonceAndSet fuel 0 (hop.stream A) es plain :=
      cryptoAhead_iff.mpr ⟨h_clean, coming_stream h_aead h_valid h_answers⟩
    -- the run does not know the slices that will follow, so the rule holds for each of them
    have h_first (slices : List (List UInt8)) :=
      (h_works 0).wroteFirst rfl rfl run_eq left_eq h_working h_ahead (owes_first h_valid slices)
    obtain ⟨_, h_d⟩ := h_first []
    refine ⟨h_d.how_eq, h_d.got_eq, h_d.reads_eq, h_d.working, ?_, fun slices => ?_, ?_⟩
    · have h_later := h_d.ahead
      rwa [h_d.reads_eq] at h_later
    · obtain ⟨owed, h_slices⟩ := h_first slices
      exact ⟨owed, h_slices.owes, h_slices.out_eq⟩
    · have h_le := h_d.accepts_le
      change 0 + accepts ws ≤ _ at h_le
      rwa [Nat.zero_add] at h_le
  -- a hop over a chain that stands already
  | @next hop hops n d d' polls built run_eq left_eq ih =>
    obtain ⟨inner, h_inner, h_answers⟩ := h_answered
    have h_valid := h_hops hop List.mem_cons_self
    have h_standing := ih (fun hop h_hop => h_hops hop (List.mem_cons_of_mem _ h_hop)) h_inner
    have h_len := length_le_of_answered h_aead.toInPlace h_inner
    have h_ahead : TowerAhead A p checkNonceAndSet fuel (n + 1) (hop.stream A, d.state) d.reads
        plain := by
      rw [h_standing.reads_eq]
      exact ⟨inner, h_standing.ahead, coming_stream h_aead h_valid h_answers, by omega⟩
    -- what this hop owes is owed by the chain below for its chunks
    have h_next (slices : List (List UInt8)) : ∃ owed owed',
        TwoWay.WroteFirst (TowerAhead A p checkNonceAndSet fuel (n + 1))
          (TowerOwes A fuel (n + 1)) { TwoWay.start (hop.stream A, d.state)
            [hop.target.writeToBuf] d.reads d.writes with out := d.out } d' slices owed owed'
          plain ∧ d.out ++ owed = chainWire A (hop :: hops) slices := by
      obtain ⟨owed, h_owes, h_out⟩ :=
        owes_next h_aead.toInPlace h_valid h_fuel h_standing slices
      obtain ⟨owed', h_d'⟩ := (h_works (n + 1)).wroteFirst rfl rfl run_eq left_eq
        h_standing.working h_ahead h_owes
      exact ⟨owed, owed', h_d', h_out⟩
    obtain ⟨_, _, h_d', -⟩ := h_next []
    have h_reads : d'.reads = es := h_d'.reads_eq.trans h_standing.reads_eq
    refine ⟨h_d'.how_eq, h_d'.got_eq, h_reads, h_d'.working, ?_, fun slices => ?_, ?_⟩
    · have h_later := h_d'.ahead
      rwa [h_reads] at h_later
    · obtain ⟨owed, owed', h_slices, h_out⟩ := h_next slices
      exact ⟨owed', h_slices.owes, h_slices.out_eq.trans h_out⟩
    · exact Nat.le_trans h_standing.accepts_le h_d'.accepts_le

/-- **A chain can be built** over a stream that takes enough. -/
theorem exists_built (h_aead : A.Lawful) (h_spare : ∀ r, 0 < spare r)
    (h_fuel : longestChunk < fuel) (h_bytes : (bytesOf es).length < fuel) (h_clean : Clean es)
    (h_working : Working ws) (h_ne : hops ≠ []) (h_hops : ∀ hop ∈ hops, hop.Valid)
    {plain : List UInt8} (h_answered : Answered A checkNonceAndSet hops (bytesOf es) plain)
    (h_accepts : (chainWire A hops []).length ≤ accepts ws) :
    ∃ n d, Built A p checkNonceAndSet spare fuel es ws hops n d := by
  have h_works (n : ℕ) : (tower A p checkNonceAndSet spare fuel n).Works
      (TowerAhead A p checkNonceAndSet fuel n) (TowerOwes A fuel n) (fun _ => 0) taken :=
    tower_works h_aead.toInPlace h_spare n
  induction hops generalizing plain with
  | nil => exact absurd rfl h_ne
  | cons hop hops ih =>
    obtain ⟨inner, h_inner, h_answers⟩ := h_answered
    have h_valid := h_hops hop List.mem_cons_self
    by_cases h_last : hops = []
    · subst h_last
      cases h_inner
      have h_ahead : TowerAhead A p checkNonceAndSet fuel 0 (hop.stream A) es plain :=
        cryptoAhead_iff.mpr ⟨h_clean, coming_stream h_aead h_valid h_answers⟩
      obtain ⟨polls, d, h_run, h_left⟩ :=
        -- as many polls as the first target may need
        (h_works 0).exists_writes
          (d := TwoWay.start (hop.stream A) [hop.target.writeToBuf] es ws) rfl rfl h_working h_ahead
          (owes_first h_valid []) h_accepts
      exact ⟨0, d, .first polls h_run h_left⟩
    · have h_before : (chainWire A hops []).length ≤ (chainWire A (hop :: hops) []).length :=
        (chainWire_mono A hops List.nil_prefix).length_le
      have h_hops' : ∀ hop ∈ hops, hop.Valid := fun x h_x => h_hops x (List.mem_cons_of_mem _ h_x)
      obtain ⟨n, d, h_built⟩ :=
        ih h_last h_hops' h_inner (Nat.le_trans h_before h_accepts)
      have h_standing := h_built.standing h_aead h_spare h_fuel h_bytes h_clean h_working h_hops'
        h_inner
      obtain ⟨owed, h_owes, h_out⟩ := owes_next h_aead.toInPlace h_valid h_fuel h_standing []
      have h_len := length_le_of_answered h_aead.toInPlace h_inner
      have h_ahead : TowerAhead A p checkNonceAndSet fuel (n + 1) (hop.stream A, d.state) d.reads
          plain := by
        rw [h_standing.reads_eq]
        exact ⟨inner, h_standing.ahead, coming_stream h_aead h_valid h_answers, by omega⟩
      -- what is still owed is taken: what is out has used up no more of the stream below
      have h_owed : owed.length ≤ accepts d.writes := by
        have h_sum := congrArg List.length h_out
        have h_le := h_standing.accepts_le
        rw [List.length_append] at h_sum
        omega
      obtain ⟨polls, d', h_run, h_left⟩ :=
        (h_works (n + 1)).exists_writes
          (d := { TwoWay.start (hop.stream A, d.state) [hop.target.writeToBuf] d.reads d.writes with
            out := d.out }) rfl rfl h_standing.working h_ahead h_owes h_owed
      exact ⟨n + 1, d', .next polls h_built h_run h_left⟩

/-- A chain that is built, in use. -/
structure InUse (A : Aead) (p : Profile) (checkNonceAndSet : List UInt8 → Bool)
    (spare : AeadDecryptedReader → ℕ) (fuel : ℕ) (es : List ReadEvent) (ws : List WriteEvent)
    (hops : List SsHop) (n : ℕ) (d : TwoWayRun (Tower n)) (reply : List UInt8) : Prop where
  /-- only the targets are on the wire -/
  out_eq : d.out = chainWire A hops []
  accepts_le : accepts ws ≤ d.out.length + accepts d.writes
  /-- the wire leads to the target of the owner, with all that is written -/
  relayed : ∀ slices, Relayed A p hops (chainWire A hops slices) (payload slices)
  /-- What the network gets is what the slices are through the chain, in order; what the last
  server answers is what is read, in order; and enough polls write and read all of it. -/
  runs : ∀ slices ops, TwoWay.Roomy ops →
    ∃ run, (tower A p checkNonceAndSet spare fuel n).run ops
        { d with left := slices, returned := [] } = .ok run ∧
      run.out <+: chainWire A hops slices ∧
      (run.left = [] → run.out = chainWire A hops slices) ∧
      run.got <+: reply ∧ (∀ e, run.how ≠ .failed e) ∧ (run.how = .ended → run.got = reply) ∧
      (pendings es + reply.length ≤ TwoWay.readsOf ops → run.got = reply) ∧
      (writePendings d.writes + slices.length ≤ TwoWay.writesOf ops →
        (chainWire A hops slices).length ≤ d.out.length + accepts d.writes →
        run.left = [])

/-- **A chain that stands can be used.** -/
theorem Standing.inUse (h_aead : A.Lawful) (h_spare : ∀ r, 0 < spare r)
    (h_hops : ∀ hop ∈ hops, hop.Valid) {d : TwoWayRun (Tower n)} {reply : List UInt8}
    (h : Standing A p checkNonceAndSet fuel es ws hops n d reply) :
    InUse A p checkNonceAndSet spare fuel es ws hops n d reply := by
  refine ⟨?_, h.accepts_le, fun slices => relayed_chainWire h_aead h_hops slices,
    fun slices ops h_ops => ?_⟩
  · -- nothing is owed but the slices, so without any the wire has the targets
    obtain ⟨owed, h_owes, h_out⟩ := h.owes []
    rw [eq_nil_of_towerOwes h_owes, List.append_nil] at h_out
    exact h_out
  · -- with slices the chain is a stream of two directions that works
    obtain ⟨owed, h_owes, h_out⟩ := h.owes slices
    have h_goes : TwoWay.Goes (TowerAhead A p checkNonceAndSet fuel n) (TowerOwes A fuel n)
        { d with left := slices, returned := [] } owed reply := by
      refine ⟨h_owes, h.working, fun _ => ?_, ?_, ?_⟩
      · rw [h.reads_eq]
        exact h.ahead
      · exact fun h_ended => ReadEnd.noConfusion (h.how_eq.symm.trans h_ended)
      · exact fun e h_failed => ReadEnd.noConfusion (h.how_eq.symm.trans h_failed)
    obtain ⟨run, owed', rest, h_run, h_r⟩ :=
      TwoWay.stepped_run (tower_works h_aead.toInPlace h_spare n) h_goes h_ops
    have h_all : run.out ++ owed' = chainWire A hops slices := h_r.out_eq.trans h_out
    have h_got : run.got ++ rest = reply := by
      have h_both := h_r.got_eq
      change run.got ++ rest = d.got ++ reply at h_both
      rwa [h.got_eq, List.nil_append] at h_both
    refine ⟨run, h_run, ⟨owed', h_all⟩, fun h_left => ?_, ⟨rest, h_got⟩, h_r.goes.not_failed,
      fun h_ended => ?_, fun h_enough => ?_, fun h_enough h_accepts => ?_⟩
    · -- all slices are done
      have h_owes' := h_r.goes.owes
      rw [h_left] at h_owes'
      rw [← h_all, eq_nil_of_towerOwes h_owes', List.append_nil]
    · -- the end of the answer
      rw [← h_got, h_r.goes.ended h_ended, List.append_nil]
    · -- enough reads
      have h_in := h_r.reads_in 0 (.inr (by
        show pendings d.reads + reply.length ≤ _
        rw [h.reads_eq, Nat.zero_add]
        exact h_enough))
      have h_rest : rest = [] := h_in.elim id fun h_le => List.length_eq_zero_iff.mp (by omega)
      rw [← h_got, h_rest, List.append_nil]
    · -- enough writes: what is owed is what the wire is longer than what is out
      have h_owed := congrArg List.length h_out
      rw [List.length_append] at h_owed
      have h_in := h_r.writes_in 0 (.inr ⟨by
        show 0 + writePendings d.writes + slices.length ≤ _
        omega, by
        show owed.length ≤ accepts d.writes
        omega⟩)
      exact h_in.elim id fun ⟨h_le, _⟩ => List.length_eq_zero_iff.mp (by omega)

end Run

/-! ### From the configuration -/

/-- The hops of a chain of servers to `D`, in the order of the chain, with the salts that are drawn
for them: each is told the address of the next one, and the last one `D`. -/
def hopsTo (W : World) (D : Address) : List (ShadowsocksConfig × List UInt8) → List SsHop
  | [] => []
  | (c, iv) :: cs =>
    { method := c.method
      key := opensslBytesToKey W c.password.toUTF8.toList c.method.keyLen
      target := (cs.head?.map (·.1.addr)).getD D
      iv } :: hopsTo W D cs

/-- The layer of a hop. -/
def SsHop.layer (hop : SsHop) : Layer := .cryptoStream hop.method hop.key hop.target

section Config

variable {W : World} {c : Config} {out : Outbounds} {b : ChainStreamBuilder} {D : Address}

theorem nextAddr_ss (cs : List (ShadowsocksConfig × List UInt8)) :
    nextAddr (cs.map fun x => .ss x.1) = cs.head?.map (·.1.addr) := by
  cases cs <;> rfl

/-- Every hop has an address: nothing comes after the last one that has. -/
theorem afterLastAddr_ss (cs : List (ShadowsocksConfig × List UInt8)) :
    afterLastAddr (cs.map fun x => .ss x.1) = [] := by
  induction cs with
  | nil => rfl
  | cons x cs ih =>
    rw [List.map_cons, afterLastAddr, ih, nextAddr_ss]
    cases cs <;> rfl

/-- The layers of the builders are those of the hops. -/
theorem tcpLayers_of_makes {cs : List (ShadowsocksConfig × List UInt8)} {bs : List StreamBuilder}
    (h : Makes W (some D) (cs.map fun x => .ss x.1) bs) :
    bs.flatMap (StreamBuilder.tcpLayers W) = (hopsTo W D cs).map SsHop.layer := by
  induction cs generalizing bs with
  | nil =>
    cases h
    rfl
  | cons x cs ih =>
    obtain ⟨conf, iv⟩ := x
    cases h with
    -- the next hop is the next server, or the target of the chain
    | @cons _ _ y bs head tail =>
      have h_next : (nextAddr (cs.map fun x => .ss x.1)).or (some D) =
          some ((cs.head?.map (·.1.addr)).getD D) := by
        rw [nextAddr_ss]
        cases cs.head? <;> rfl
      rw [h_next] at head
      cases head
      rw [List.flatMap_cons, ih tail]
      rfl

/-- What `build_tcp` returns for a chain of servers. -/
theorem stream_of_ss (h : Accepts W c out b) {cs : List (ShadowsocksConfig × List UInt8)}
    (h_res : Resolves c out.chain (cs.map fun x => .ss x.1)) {s : Stream}
    (h_run : (b.buildTcp W D).result = .ok s) :
    s = (Stream.tcp ((cs.head?.map (·.1.addr)).getD D)).overAll
      ((hopsTo W D cs).map SsHop.layer) := by
  have h_chain := h.chainOf h_res
  obtain ⟨fs, ls, ts, h_plan⟩ := h_chain.assembled.tcpPlan D
  have h_tcp := ChainStreamBuilder.tcpRun (isBlackHole_of_ok h_run) h_plan.lastFor
  obtain ⟨h_s, -⟩ := h_tcp.of_ok s h_run
  -- each server has an address, so no builder comes after the last of them
  have h_ts : ts = [] := by
    have h_types := h_plan.types_eq
    rw [afterLastAddr_ss] at h_types
    exact List.map_eq_nil_iff.mp h_types
  have h_builders := h_plan.builders_eq
  have h_makes := h_plan.makes
  rw [h_ts, List.append_nil] at h_builders h_makes
  rw [h_s, h_chain.tcpBase_eq, nextAddr_ss, h_builders, tcpLayers_of_makes h_makes]

theorem hopsTo_ne_nil {cs : List (ShadowsocksConfig × List UInt8)} (h : cs ≠ []) :
    hopsTo W D cs ≠ [] := by
  cases cs with
  | nil => exact absurd rfl h
  | cons x cs => exact List.cons_ne_nil _ _

/-- **Chains of Shadowsocks servers.** The stream that `build_tcp` returns for a chain of servers
of an accepted configuration has one layer for each of them, over a connection to the first, and
each is told the address of the next, the last one `D`. Over a stream that works such a stream can
be built, if it takes the targets; and however it was built, it can be used: each server reads
where the rest is to go, and passes it on; the last one gets `D` and all that is written; and its
answer comes back through all of them. The methods are AEAD methods, the salts are of their length
and the names have at most 255 bytes (`SsHop.Valid`); of a slice that is longer than a chunk only
its first bytes are sent. -/
theorem ss_chain {A : Aead} (h_aead : A.Lawful) (p : Profile) {W : World} {c : Config}
    {out : Outbounds} {b : ChainStreamBuilder} (h : Accepts W c out b)
    {cs : List (ShadowsocksConfig × List UInt8)} (h_ne : cs ≠ [])
    (h_res : Resolves c out.chain (cs.map fun x => .ss x.1)) {D : Address} {s : Stream}
    (h_run : (b.buildTcp W D).result = .ok s) (h_hops : ∀ hop ∈ hopsTo W D cs, hop.Valid)
    (checkNonceAndSet : List UInt8 → Bool) {spare : AeadDecryptedReader → ℕ}
    (h_spare : ∀ r, 0 < spare r) {es : List ReadEvent} (h_clean : Clean es)
    {ws : List WriteEvent} (h_working : Working ws) {reply : List UInt8}
    (h_answered : Answered A checkNonceAndSet (hopsTo W D cs).reverse (bytesOf es) reply)
    {fuel : ℕ} (h_fuel : longestChunk < fuel) (h_bytes : (bytesOf es).length < fuel) :
    s = (Stream.tcp ((cs.head?.map (·.1.addr)).getD D)).overAll
        ((hopsTo W D cs).map SsHop.layer) ∧
      ((chainWire A (hopsTo W D cs).reverse []).length ≤ accepts ws →
        ∃ n d, Built A p checkNonceAndSet spare fuel es ws (hopsTo W D cs).reverse n d) ∧
      ∀ n d, Built A p checkNonceAndSet spare fuel es ws (hopsTo W D cs).reverse n d →
        InUse A p checkNonceAndSet spare fuel es ws (hopsTo W D cs).reverse n d reply := by
  have h_valid : ∀ hop ∈ (hopsTo W D cs).reverse, hop.Valid :=
    fun hop h_hop => h_hops hop (List.mem_reverse.mp h_hop)
  -- the run of a chain goes from the last hop down, so the hops are reversed
  have h_some : (hopsTo W D cs).reverse ≠ [] :=
    fun h_nil => hopsTo_ne_nil h_ne (List.reverse_eq_nil_iff.mp h_nil)
  refine ⟨stream_of_ss h h_res h_run, ?_, fun n d h_built => ?_⟩
  · exact exists_built h_aead h_spare h_fuel h_bytes h_clean h_working h_some h_valid h_answered
  · exact (h_built.standing h_aead h_spare h_fuel h_bytes h_clean h_working h_valid
      h_answered).inUse h_aead h_spare h_valid

end Config

/-- Two servers, one after the other. -/
def Config.ssPair : Config where
  ss := [⟨server 8388, "pw", .aes128Gcm, "s"⟩, ⟨server 8389, "pw", .chaCha20Poly1305, "s2"⟩]
  defaultOutbound := "pair"
  outbounds := [⟨["s", "s2"], "pair"⟩]

/-- Two bytes go out through two servers, one comes back. -/
theorem ss_chain_pair : ∃ b s hops es ws fuel n d ops run,
    Accepts .calm .ssPair ⟨["s", "s2"], "pair"⟩ b ∧
    (b.buildTcp .calm (Config.server 80)).result = .ok s ∧
    Built .tagged .release (fun _ => false) (fun _ => 1) fuel es ws hops n d ∧
    (tower .tagged .release (fun _ => false) (fun _ => 1) fuel n).run ops
      { d with left := [[104, 105]], returned := [] } = .ok run ∧
    run.out = chainWire .tagged hops [[104, 105]] ∧ run.got = [33] := by
  obtain ⟨b, h⟩ : ∃ b, Accepts .calm .ssPair ⟨["s", "s2"], "pair"⟩ b :=
    exists_accepts rfl (by decide)
  have h_built := h.built
  cases h_built
  let cs : List (ShadowsocksConfig × List UInt8) :=
    [(⟨Config.server 8388, "pw", .aes128Gcm, "s"⟩, List.replicate 16 9),
      (⟨Config.server 8389, "pw", .chaCha20Poly1305, "s2"⟩, List.replicate 32 9)]
  have h_res : Resolves .ssPair ["s", "s2"] (cs.map fun x => .ss x.1) :=
    .cons ⟨_, rfl, rfl⟩ (.cons ⟨_, rfl, rfl⟩ .nil)
  have h_hops : ∀ hop ∈ hopsTo .calm (Config.server 80) cs, hop.Valid := by
    intro hop h_hop
    rcases List.mem_cons.mp h_hop with rfl | h_hop
    · exact ⟨by decide, rfl, trivial⟩
    · obtain rfl := List.mem_singleton.mp h_hop
      exact ⟨by decide, rfl, trivial⟩
  -- the wire takes the bytes one by one, as many as there are
  let hops := (hopsTo .calm (Config.server 80) cs).reverse
  obtain ⟨wire, h_wire⟩ := exists_answered .tagged hops [33]
  let ws := List.replicate (chainWire .tagged hops [[104, 105]]).length (WriteEvent.accept 1)
  have h_ws : accepts ws = (chainWire .tagged hops [[104, 105]]).length := accepts_replicate _ 1
  have h_answered : Answered .tagged (fun _ => false) hops (bytesOf (oneByOne wire)) [33] := by
    rwa [bytesOf_oneByOne]
  have h_fuel : longestChunk < longestChunk + (bytesOf (oneByOne wire)).length + 1 := by omega
  obtain ⟨-, h_exists, h_use⟩ := ss_chain Aead.tagged_lawful .release h (List.cons_ne_nil _ _)
    h_res rfl h_hops (fun _ => false) (fun _ => Nat.one_pos) (clean_oneByOne wire)
    (working_replicate _ Nat.one_pos : Working ws) h_answered h_fuel (by omega)
  obtain ⟨n, d, h_d⟩ := h_exists (by
    rw [h_ws]
    exact (chainWire_mono .tagged hops List.nil_prefix).length_le)
  obtain ⟨-, h_accepts, -, h_runs⟩ := h_use n d h_d
  let ops := List.replicate (writePendings d.writes + 1) TwoWayOp.write ++ [.read 1]
  obtain ⟨run, h_run, -, h_out, -, -, -, h_got, h_left⟩ := h_runs [[104, 105]] ops (by
    intro room h_room
    have h_one : room = 1 := by simpa [ops] using h_room
    rw [h_one]
    exact Nat.one_pos)
  refine ⟨_, _, hops, _, ws, _, n, d, ops, run, h, rfl, h_d, h_run, h_out (h_left ?_ ?_),
    h_got ?_⟩
  · simp [TwoWay.writesOf, ops, List.countP_append, List.countP_replicate]
  · rwa [← h_ws]
  · simp [TwoWay.readsOf, ops, List.countP_append]

end V2ray

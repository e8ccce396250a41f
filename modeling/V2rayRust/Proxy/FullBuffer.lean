import V2rayRust.Lib.FullBuffer
import V2rayRust.Proxy.Shadowsocks.Aead
import V2rayRust.Proxy.Trojan.TrojanUdp
import V2rayRust.Proxy.Vmess.Aead

/-!
# Full destinations

`calc_data_to_put` is 0 when the payload has been put and when the destination is full, and the
readers of Shadowsocks, VMess and Trojan take the one for the other: none of them survives a poll
with a full destination while it has something to put (`losesNothing_never`).

The argument is made once, for readers that go round (`Lib/FullBuffer`). Those of Shadowsocks and
VMess are readers of frames, and that of Trojan has rounds of its own
(`TrojanUdpReader.rounder_lawful`). What is left to prove here is that in every state that polls
lead to the payload is in the buffer (`TrojanUdpReader.Reads.inBuffer`).
-/

namespace V2ray

namespace TrojanUdpReader

variable {r r' : TrojanUdpReader} {es es' : List ReadEvent} {room n : ℕ}
  {x : ReadPoll TrojanUdpReader}

/-- The readers that polls lead to; `poll_recv_from` takes the address of what it has read. -/
inductive Reads : TrojanUdpReader → Prop
  | new : Reads .new
  | poll {r : TrojanUdpReader} {es : List ReadEvent} {room : ℕ} {x : ReadPoll TrojanUdpReader}
      (before : Reads r) (poll_eq : r.privPollRead es room = .ok x) : Reads x.state
  | takeAddr {r : TrojanUdpReader} (before : Reads r) : Reads r.takeAddr.2

/-- Some of a payload has been read and not delivered. -/
def Undelivered (r : TrojanUdpReader) : Prop := r.stage = .put ∧ 0 < r.dataLength

/-- The reader, as it goes round. -/
def rounder : RoundReader TrojanUdpReader where
  poll := privPollRead
  Next room r es := Next r es room
  standing r := match r.stage with
    | .kind => .waits 2
    | .head | .payload => .waits r.dataLength
    | .put => .puts
    | .done => .done
  buffer := TrojanUdpReader.buffer
  dataLength := TrojanUdpReader.dataLength

theorem standing_of_wants (h : r.wants = some n) : rounder.standing r = .waits n := by
  obtain ⟨stage, addr, buffer₀, dataLength⟩ := r
  cases stage with
  | kind | head | payload =>
    cases h
    rfl
  | put | done => cases h

/-- What a round that leaves the poll does. -/
inductive Leave (r : TrojanUdpReader) (es : List ReadEvent) (room : ℕ) :
    ReadPoll TrojanUdpReader → Prop
  | unfilled {n : ℕ} {f : Filled} {buffer : List UInt8} {es' : List ReadEvent}
      (wants_eq : r.wants = some n) (not_full : f ≠ .full)
      (read_eq : readAtLeast n r.buffer es = (f, buffer, es')) :
      Leave r es room (unfilled { r with buffer } es' f)
  | failed {buffer : List UInt8} {es' : List ReadEvent} {message : String} :
      Leave r es room ⟨{ r with buffer, stage := .done }, es', .ready (.error message), []⟩
  | put (stage_eq : r.stage = .put) (ne_zero : min r.dataLength room ≠ 0) :
      Leave r es room
        ⟨{ r with buffer := r.buffer.drop (min r.dataLength room),
                  dataLength := r.dataLength - min r.dataLength room }, es,
          .ready (.ok ()), r.buffer.take (min r.dataLength room)⟩
  | done (stage_eq : r.stage = .done) :
      Leave r es room ⟨r, es, .ready (.error "unexpected end of file"), []⟩

theorem leave_of_fail {buffer : List UInt8} {e : Stop}
    (h : fail { r with buffer } es' e = .ok (.leave x)) : Leave r es room x := by
  cases e with
  | err message =>
    cases h
    exact .failed
  | fault f => cases h

/-- With all that it waits for, a round that leaves has found a head that is not well formed. -/
theorem leave_of_full {buffer : List UInt8} (h_wants : r.wants = some n)
    (h_read : readAtLeast n r.buffer es = (.full, buffer, es'))
    (h : r.round es room = .ok (.leave x)) : Leave r es room x := by
  obtain ⟨stage, addr, buffer₀, dataLength⟩ := r
  cases stage with
  | kind | head =>
    cases h_wants
    unfold round at h
    dsimp only at h h_read
    rw [h_read] at h
    dsimp only at h
    split at h
    · cases h
    · exact leave_of_fail h
  | payload =>
    cases h_wants
    unfold round at h
    dsimp only at h h_read
    rw [h_read] at h
    cases h
  | put | done => cases h_wants

/-- A round that leaves is one of `Leave`. -/
theorem leave_of_round (h : r.round es room = .ok (.leave x)) : Leave r es room x := by
  -- only these stages wait for bytes; the others leave on their own
  cases h_wants : r.wants with
  | some n =>
    rcases h_read : readAtLeast n r.buffer es with ⟨f, buffer, es₁⟩
    by_cases h_full : f = .full
    · subst h_full
      exact leave_of_full h_wants h_read h
    · rw [round_of_wait h_wants h_read h_full] at h
      cases h
      exact .unfilled h_wants h_full h_read
  | none =>
    obtain ⟨stage, addr, buffer₀, dataLength⟩ := r
    cases stage with
    | kind | head | payload => cases h_wants
    | put =>
      unfold round at h
      dsimp only at h
      split at h
      · next h_ne =>
        obtain ⟨y, h_split, h⟩ := bind_eq_ok.mp h
        unfold splitTo at h_split
        split at h_split <;> cases h_split
        cases h
        exact .put rfl h_ne
      · cases h
    | done =>
      cases h
      exact .done rfl

theorem privPollRead_leave (h : r.round es room = .ok (.leave x)) :
    r.privPollRead es room = .ok x := by
  unfold privPollRead
  rw [pollLoop, h, ok_bind]
  rfl

/-- A poll that returned left from a state that its rounds lead to. -/
theorem leave_of_privPollRead {I : TrojanUdpReader → List ReadEvent → Prop}
    (h_next : ∀ r es r' es', I r es → Next r es room r' es' → I r' es') (h : I r es)
    (h_poll : r.privPollRead es room = .ok x) : ∃ r' es', I r' es' ∧ Leave r' es' room x := by
  suffices h_loop : ∀ n r es, I r es → pollLoop room n r es = .ok x →
      ∃ r' es', I r' es' ∧ Leave r' es' room x from h_loop _ r es h h_poll
  -- by induction on the rounds that are left
  intro n
  induction n with
  | zero => exact fun _ _ _ h_loop => (by cases h_loop)
  | succ n ih =>
    intro r es h h_loop
    rw [pollLoop] at h_loop
    obtain ⟨z, h_z, h_loop⟩ := bind_eq_ok.mp h_loop
    cases z with
    | leave y =>
      cases h_loop
      exact ⟨r, es, h, leave_of_round h_z⟩
    | next r' es' => exact ih r' es' (h_next r es r' es' h (next_of_round h_z)) h_loop

/-- A round that goes on has read what the reader waits for, or is past its payload. -/
theorem Next.read (h : Next r es room r' es') :
    (∃ n buffer, r.wants = some n ∧ readAtLeast n r.buffer es = (.full, buffer, es')) ∨
      r.stage = .put ∧ es' = es := by
  obtain ⟨stage, addr, buffer₀, dataLength⟩ := r
  cases h with
  | kind stage_eq read_eq _ =>
    cases stage_eq
    exact Or.inl ⟨_, _, rfl, read_eq⟩
  | head stage_eq read_eq _ =>
    cases stage_eq
    exact Or.inl ⟨_, _, rfl, read_eq⟩
  | payload stage_eq read_eq =>
    cases stage_eq
    exact Or.inl ⟨_, _, rfl, read_eq⟩
  | put stage_eq _ => exact Or.inr ⟨stage_eq, rfl⟩

/-- The ways to leave of the Trojan reader are those of a reader that goes round. -/
theorem leaves_of_leave (h : Leave r es room x) : rounder.Leaves room r es x := by
  cases h with
  | @unfilled n f buffer es' wants_eq not_full read_eq =>
    have h_standing := standing_of_wants wants_eq
    cases f with
    | full => exact absurd rfl not_full
    | pending => exact .unfilled h_standing not_full read_eq rfl (.inl ⟨h_standing, rfl⟩)
    | ended | err =>
      exact .unfilled h_standing not_full read_eq rfl (.inr ⟨Filled.noConfusion, rfl⟩)
  | failed => exact .ended rfl rfl
  | put stage_eq ne_zero =>
    obtain ⟨stage, addr, buffer₀, dataLength⟩ := r
    cases stage_eq
    exact .put rfl ne_zero rfl rfl rfl
  | done stage_eq =>
    obtain ⟨stage, addr, buffer₀, dataLength⟩ := r
    cases stage_eq
    exact .ended rfl rfl

/-- The Trojan reader goes round as the rules ask. -/
theorem rounder_lawful : rounder.Lawful where
  leaves_of_poll h_next h h_poll := by
    obtain ⟨r', es', h', h_leave⟩ := leave_of_privPollRead h_next h h_poll
    exact ⟨r', es', h', leaves_of_leave h_leave⟩
  -- a round reads, or it is at the end of a payload
  next_reads {_ r _ _ _} h := by
    rcases h.read with ⟨n, buffer, h_wants, h_read⟩ | ⟨h_stage, h_es⟩
    · exact .inl ⟨n, buffer, standing_of_wants h_wants, h_read⟩
    · obtain ⟨stage, addr, buffer₀, dataLength⟩ := r
      cases h_stage
      exact .inr ⟨rfl, h_es⟩
  -- only a payload that has been read is put
  next_inBuffer h := by
    cases h with
    | kind | head => exact fun h_puts => (by cases h_puts)
    | payload stage_eq read_eq => exact fun _ => (readAtLeast_cases read_eq).2.2 rfl
    | put => exact fun h_puts => (by cases h_puts)
  -- with room for all of it the payload is put in one round
  poll_puts {r} h_puts h_le h_pos := by
    obtain ⟨stage, addr, buffer₀, dataLength⟩ := r
    cases stage with
    | kind | head | payload | done => cases h_puts
    | put =>
      have h_le : dataLength ≤ buffer₀.length := h_le
      have h_pos : 0 < dataLength := h_pos
      have h_round : round ⟨.put, addr, buffer₀, dataLength⟩ [] dataLength = .ok (.leave
          ⟨⟨.put, addr, buffer₀.drop dataLength, 0⟩, [], .ready (.ok ()),
            buffer₀.take dataLength⟩) := by
        unfold round
        dsimp only
        rw [Nat.min_self, if_pos (Nat.ne_of_gt h_pos), splitTo_of_le h_le, ok_bind, Nat.sub_self]
        rfl
      exact ⟨_, privPollRead_leave h_round, rfl⟩

theorem Reads.inBuffer (h : Reads r) : rounder.InBuffer r := by
  induction h with
  | new => exact fun h_puts => (by cases h_puts)
  | poll before poll_eq ih => exact rounder_lawful.inBuffer_poll ih poll_eq
  | takeAddr before ih => exact ih

/-- **A read into a full buffer loses the payload**, whenever some of one is left. -/
theorem not_losesNothing (h : Reads r) (h_undelivered : r.Undelivered) :
    ¬ LosesNothing privPollRead r := by
  have h_inBuffer := h.inBuffer
  obtain ⟨stage, addr, buffer₀, dataLength⟩ := r
  obtain ⟨h_stage, h_pos⟩ := h_undelivered
  cases h_stage
  exact rounder_lawful.not_losesNothing h_inBuffer rfl h_pos

end TrojanUdpReader

/-- **Full destinations.** Whenever a reader of Shadowsocks, VMess or Trojan has some of a payload
left to put, there are polls that deliver something else after a poll with a full destination. -/
theorem losesNothing_never {A : Aead} (h_inPlace : A.InPlace) (p : Profile) :
    (∀ r : AeadDecryptedReader, r.Reads p (AeadDecryptedReader.format A p) → r.Undelivered →
      ¬ LosesNothing (AeadDecryptedReader.pollReadDecrypted A p) r) ∧
    (∀ r : VmessAeadReader, r.Reads p (VmessAeadReader.format A p) → r.Undelivered →
      ¬ LosesNothing (VmessAeadReader.pollReadDecrypted A p) r) ∧
    (∀ r : TrojanUdpReader, r.Reads → r.Undelivered →
      ¬ LosesNothing TrojanUdpReader.privPollRead r) :=
  ⟨fun _ => FramedReader.not_losesNothing (AeadDecryptedReader.format_sound h_inPlace),
    fun _ => FramedReader.not_losesNothing (VmessAeadReader.format_sound h_inPlace),
    fun _ => TrojanUdpReader.not_losesNothing⟩

/-- Each of the three readers, with one byte of two delivered. -/
theorem losesNothing_never_parts :
    (∃ r : AeadDecryptedReader, r.Undelivered ∧
      ¬ LosesNothing (AeadDecryptedReader.pollReadDecrypted .tagged .debug) r) ∧
    (∃ r : VmessAeadReader, r.Undelivered ∧
      ¬ LosesNothing (VmessAeadReader.pollReadDecrypted .tagged .debug) r) ∧
    ∃ r : TrojanUdpReader, r.Undelivered ∧ ¬ LosesNothing TrojanUdpReader.privPollRead r := by
  obtain ⟨h_shadowsocks, h_vmess, h_trojan⟩ :=
    losesNothing_never Aead.tagged_lawful.toInPlace .debug
  -- a payload of two bytes comes, and one of them is put
  have h_first : ∃ x, AeadDecryptedReader.pollReadDecrypted .tagged .debug
      (.new .tagged .aes128Gcm [] [])
      [.data (([0, 2] ++ List.replicate 16 0) ++ ([7, 8] ++ List.replicate 16 0))] 1 = .ok x ∧
      x.state.stage = .put ∧ x.state.dataLength = 1 := ⟨_, rfl, rfl, rfl⟩
  have h_second : ∃ x, VmessAeadReader.pollReadDecrypted .tagged .debug
      (.new (.aes128Gcm []) (List.replicate 12 0) (by decide))
      [.data ([0, 18] ++ ([7, 8] ++ List.replicate 16 0))] 1 = .ok x ∧
      x.state.stage = .put ∧ x.state.dataLength = 1 := ⟨_, rfl, rfl, rfl⟩
  have h_third : ∃ x, TrojanUdpReader.privPollRead .new
      [.data [1, 1, 2, 3, 4, 0, 53, 0, 2, 13, 10, 7, 8]] 1 = .ok x ∧
      x.state.stage = .put ∧ x.state.dataLength = 1 := ⟨_, rfl, rfl, rfl⟩
  obtain ⟨x, h_x, h_x_put, h_x_one⟩ := h_first
  obtain ⟨y, h_y, h_y_put, h_y_one⟩ := h_second
  obtain ⟨z, h_z, h_z_put, h_z_one⟩ := h_third
  have h_x_left : x.state.Undelivered := ⟨h_x_put, h_x_one ▸ Nat.one_pos⟩
  have h_y_left : y.state.Undelivered := ⟨h_y_put, h_y_one ▸ Nat.one_pos⟩
  have h_z_left : z.state.Undelivered := ⟨h_z_put, h_z_one ▸ Nat.one_pos⟩
  -- each of the three has one byte left
  exact ⟨⟨_, h_x_left, h_shadowsocks _ (.poll (.start rfl) h_x) h_x_left⟩,
    ⟨_, h_y_left, h_vmess _ (.poll (.start rfl) h_y) h_y_left⟩,
    ⟨_, h_z_left, h_trojan _ (.poll .new h_z) h_z_left⟩⟩

/-- Of three bytes two are left, and after a poll with a full destination nothing of them comes. -/
theorem losesNothing_trojan : ∃ r : TrojanUdpReader, r.Reads ∧ r.Undelivered ∧
    delivered TrojanUdpReader.privPollRead [2] r [] = .ok [2, 3] ∧
    delivered TrojanUdpReader.privPollRead [0, 2] r [] = .ok [] ∧
    ¬ LosesNothing TrojanUdpReader.privPollRead r := by
  let r : TrojanUdpReader := ⟨.put, .socketAddress (.v4 0x01020304 53), [2, 3], 2⟩
  have h_poll : ∃ x, TrojanUdpReader.privPollRead .new
      [.data [1, 1, 2, 3, 4, 0, 53, 0, 3, 13, 10, 1, 2, 3]] 1 = .ok x ∧ x.state = r := ⟨_, rfl, rfl⟩
  obtain ⟨x, h_x, h_state⟩ := h_poll
  have h_with : delivered TrojanUdpReader.privPollRead [0, 2] r [] = .ok [] := rfl
  have h_without : delivered TrojanUdpReader.privPollRead [2] r [] = .ok [2, 3] := rfl
  refine ⟨r, h_state ▸ .poll .new h_x, ⟨rfl, Nat.two_pos⟩, h_without, h_with, fun h_loses => ?_⟩
  cases h_with.symm.trans (((h_loses []).2 [2]).trans h_without)

end V2ray

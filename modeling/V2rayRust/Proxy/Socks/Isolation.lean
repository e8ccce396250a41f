import V2rayRust.Proxy.Socks.Uplink

/-!
# Datagrams that cannot be handled

Each error of the loop in `local_recv_handle` is passed on with `?`, so a datagram that cannot
be handled ends the receive task, and with it every other task of the association. A datagram
that can be handled is given to its outbound exactly if none before it was of that kind, the
thread is not blocked, and the write task of its outbound is there to take it
(`udp_handed_iff`).

`handed_of_recv` decides it at the step in which the datagram comes, one case of `Stepped` at a time.
What it has become there is what it stays (`handed_iff_of_run`): no later step takes a datagram back
(`handed_of_step`) or hands over one that came earlier (`not_handed_of_step`).
-/

namespace V2ray

namespace Action

def isRecv : Action → Bool
  | recv .. => true
  | _ => false

end Action

namespace Socks5UdpDatagram

variable {D : Socks5UdpDatagram} {s s' : Association} {as : List Action} {a : Action}
  {ob : String} {packet : Packet} {i : ℕ}

/-- The datagrams of a schedule. -/
def datagrams (as : List Action) : ℕ := as.countP Action.isRecv

/-- Datagram `i` has been given to the outbound, or it is the one for which the stream of the
outbound is being built. -/
def Handed (s : Association) (i : ℕ) (ob : String) (packet : Packet) : Prop :=
  (i, ob, packet) ∈ s.handed ∨
    ∃ builder W, s.recv = .building ob builder packet W ∧ s.received = i

/-- The number of datagrams that were received is that of the actions that receive one. -/
theorem received_of_run (h : D.run as = some s) : s.received = datagrams as := by
  refine run_induction (P := fun as s => s.received = datagrams as) rfl ?_ h
  intro as m a m' _ ih h_step
  unfold datagrams at ih ⊢
  rw [List.countP_append]
  cases stepped_of_step h_step with
  | skipped | refused | missing | opened | queued | dropped | blocked | unread =>
    exact congrArg (· + 1) ih
  | entered | failed | wrote | closed => exact ih

theorem received_le_of_step (h : D.Stepped s a s') : s.received ≤ s'.received := by
  cases h with
  | skipped | refused | missing | opened | queued | dropped | blocked | unread =>
    exact Nat.le_succ _
  | entered | failed | wrote | closed => exact Nat.le_refl _

/-- Only datagrams that have come are given to outbounds. -/
theorem le_received_of_run (h : D.run as = some s) (h_mem : (i, ob, packet) ∈ s.handed) :
    i ≤ s.received := by
  refine run_induction (P := fun _ s => ∀ x ∈ s.handed, x.1 ≤ s.received) ?_ ?_ h _ h_mem
  · intro x h_x
    cases h_x
  intro as m a m' _ ih h_step x h_x
  -- only two steps add to what is handed, and both with the number of the last datagram
  cases stepped_of_step h_step with
  | skipped | refused | missing | opened | dropped | blocked | unread =>
    exact Nat.le_succ_of_le (ih x h_x)
  | failed | wrote | closed => exact ih x h_x
  | queued =>
    rcases List.mem_append.mp h_x with h_x | h_x
    · exact Nat.le_succ_of_le (ih x h_x)
    · obtain rfl := List.mem_singleton.mp h_x
      exact Nat.le_refl _
  | entered =>
    rcases List.mem_append.mp h_x with h_x | h_x
    · exact ih x h_x
    · obtain rfl := List.mem_singleton.mp h_x
      exact Nat.le_refl _

/-- A closed association stays closed. -/
theorem not_closed_of_step (h : D.Stepped s a s') (h_open : s'.recv ≠ .closed) :
    s.recv ≠ .closed := by
  intro h_closed
  cases h with
  | skipped listening | refused listening | missing listening | opened listening
  | queued listening | dropped listening | blocked listening => cases listening.symm.trans h_closed
  | unread | wrote => exact h_open h_closed
  | entered building | failed building => cases building.symm.trans h_closed
  | closed _ opened => exact opened h_closed

/-! ### What becomes of a datagram -/

theorem not_building_of_listening {builder : ChainStreamBuilder} {W : World}
    (h_listening : s.recv = .listening) : s.recv ≠ .building ob builder packet W := by
  intro h_recv
  cases h_listening.symm.trans h_recv

theorem not_building_of_dead {builder : ChainStreamBuilder} {W : World}
    (h_dead : s.recv = .stopped ∨ ∃ ob, s.recv = .blocked ob) :
    s.recv ≠ .building ob builder packet W := by
  intro h_recv
  rcases h_dead with h | ⟨_, h⟩ <;> cases h.symm.trans h_recv

theorem not_handed (h_mem : (i, ob, packet) ∉ s.handed)
    (h_recv : ∀ builder W, s.recv ≠ .building ob builder packet W) : ¬ Handed s i ob packet := by
  rintro (h | ⟨builder, W, h, _⟩)
  · exact h_mem h
  · exact h_recv builder W h

/-- The stream that is being built for datagram `i`, if one is, can be built. -/
def Succeeds (D : Socks5UdpDatagram) (s : Association) (i : ℕ) (ob : String) (packet : Packet) :
    Prop :=
  ∀ builder W, s.recv = .building ob builder packet W → s.received = i →
    ∃ stream, D.buildFor builder W packet.1 = .ok stream

/-- A step does not undo that a stream can be built for a datagram that was received. -/
theorem succeeds_of_step (h : D.Stepped s a s') (h_le : i ≤ s.received)
    (h_build : D.Succeeds s i ob packet) : D.Succeeds s' i ob packet := by
  intro builder W h_recv h_received
  cases h with
  | skipped listening | queued listening | dropped listening =>
    exact absurd h_recv (not_building_of_listening listening)
  | refused | missing | blocked | entered | failed | closed => cases h_recv
  | opened => exact absurd h_le (by rw [← h_received]; exact Nat.not_succ_le_self _)
  | unread dead => exact absurd h_recv (not_building_of_dead dead)
  | wrote => exact h_build builder W h_recv h_received

/-- A datagram that is handed over stays so, if its stream can be built. -/
theorem handed_of_step (h : D.Stepped s a s') (h_open : s'.recv ≠ .closed)
    (h_build : D.Succeeds s i ob packet) (h_handed : Handed s i ob packet) :
    Handed s' i ob packet := by
  rcases h_handed with h_mem | ⟨builder, W, h_recv, h_received⟩
  · refine Or.inl ?_
    -- only the two steps that queue change what is handed over, and they add to it
    cases h with
    | skipped | refused | missing | opened | dropped | blocked | unread | failed | wrote
    | closed => exact h_mem
    | queued | entered => exact List.mem_append_left _ h_mem
  · cases h with
    | skipped listening | refused listening | missing listening | opened listening
    | queued listening | dropped listening | blocked listening =>
      exact absurd h_recv (not_building_of_listening listening)
    | unread dead => exact absurd h_recv (not_building_of_dead dead)
    -- the datagram that waits for its stream is the first of the queue
    | entered building =>
      cases building.symm.trans h_recv
      exact Or.inl (List.mem_append_right _ (List.mem_singleton.mpr (by rw [h_received])))
    | failed building build_eq =>
      cases building.symm.trans h_recv
      obtain ⟨stream, h_stream⟩ := h_build builder W h_recv h_received
      cases build_eq.symm.trans h_stream
    | wrote => exact Or.inr ⟨builder, W, h_recv, h_received⟩
    | closed => exact (h_open rfl).elim

/-- A datagram that has come and is not handed over never will be. -/
theorem not_handed_of_step (h : D.Stepped s a s') (h_le : i ≤ s.received)
    (h_not : ¬ Handed s i ob packet) : i ≤ s'.received ∧ ¬ Handed s' i ob packet := by
  refine ⟨Nat.le_trans h_le (received_le_of_step h), ?_⟩
  obtain ⟨h_mem, h_building⟩ := not_or.mp h_not
  -- a datagram that comes now has a later number
  have h_ne : s.received + 1 ≠ i := fun h => absurd h_le (by rw [← h]; exact Nat.not_succ_le_self _)
  cases h with
  | skipped listening | dropped listening =>
    exact not_handed h_mem fun _ _ => not_building_of_listening listening
  | refused | missing | failed | closed =>
    exact not_handed h_mem fun _ _ h_recv => (by cases h_recv)
  | blocked => exact not_handed h_mem fun _ _ => not_building_of_dead (Or.inr ⟨_, rfl⟩)
  | unread dead => exact not_handed h_mem fun _ _ => not_building_of_dead dead
  | opened =>
    rintro (h | ⟨_, _, _, h_received⟩)
    · exact h_mem h
    · exact h_ne h_received
  | queued listening =>
    refine not_handed (fun h => ?_) fun _ _ => not_building_of_listening listening
    rcases List.mem_append.mp h with h | h
    · exact h_mem h
    · exact h_ne (congrArg Prod.fst (List.mem_singleton.mp h)).symm
  | @entered ob' builder packet' W stream building =>
    -- what enters is the datagram that its stream was built for
    refine not_handed (fun h => ?_) fun _ _ h_recv => (by cases h_recv)
    rcases List.mem_append.mp h with h | h
    · exact h_mem h
    · obtain ⟨h_i, h⟩ := Prod.mk.inj (List.mem_singleton.mp h)
      obtain ⟨rfl, rfl⟩ := Prod.mk.inj h
      exact h_building ⟨builder, W, building, h_i.symm⟩
  | wrote => exact h_not

/-- What a datagram has become right after it came is what it stays. -/
theorem handed_iff_of_run {as' : List Action} (h_le : i ≤ s.received)
    (h_build : D.Succeeds s i ob packet) (h_later : runFrom D.step s as' = some s')
    (h_open : s'.recv ≠ .closed) : Handed s' i ob packet ↔ Handed s i ob packet := by
  refine (run_induction (P := fun _ s' => s'.recv ≠ .closed → i ≤ s'.received ∧
    D.Succeeds s' i ob packet ∧ (Handed s' i ob packet ↔ Handed s i ob packet)) ?_ ?_ h_later
      h_open).2.2
  · -- nothing has happened yet
    exact fun _ => ⟨h_le, h_build, Iff.rfl⟩
  intro as m a m' _ ih h_step h_open
  have h_stepped := stepped_of_step h_step
  obtain ⟨h_le, h_build, h_iff⟩ := ih (not_closed_of_step h_stepped h_open)
  have h_build' := succeeds_of_step h_stepped h_le h_build
  -- a step neither takes a datagram back nor hands one that came earlier
  by_cases h_handed : Handed m i ob packet
  · have h_handed' := handed_of_step h_stepped h_open h_build h_handed
    refine ⟨?_, h_build', iff_of_true h_handed' (h_iff.mp h_handed)⟩
    exact Nat.le_trans h_le (received_le_of_step h_stepped)
  · obtain ⟨h_le', h_not⟩ := not_handed_of_step h_stepped h_le h_handed
    exact ⟨h_le', h_build', iff_of_false h_not fun h => h_handed (h_iff.mpr h)⟩

/-- The write task of the outbound can take a packet: it has not ended, and it is not suspended
in `send_to`. -/
def Ready (D : Socks5UdpDatagram) (ob : String) (as : List Action) : Prop :=
  D.lastAnswer ob as ≠ some .pending ∧ ∀ e, D.lastAnswer ob as ≠ some (.ready (.error e))

/-- The state right after a datagram has come. -/
theorem handed_of_recv {item : Received} {W : World} (h_run : D.run as = some s)
    (h_step : D.Stepped s (.recv item W) s') (h_route : D.route item = .ok (some (ob, packet)))
    (h_build : D.Buildable ob packet W) :
    D.Succeeds s' (s.received + 1) ob packet ∧
      (Handed s' (s.received + 1) ob packet ↔
        D.Unharmed as ∧ D.Unhurried as ∧ D.Ready ob as) := by
  -- the numbers of what has been handed over are at most `s.received`
  have h_fresh : (s.received + 1, ob, packet) ∉ s.handed := fun h_mem =>
    Nat.not_succ_le_self _ (le_received_of_run h_run h_mem)
  have h_reception := reception_of_run h_run
  cases h_step with
  -- it is routed, so it has not been left out, and no error of `?` has met it
  | skipped _ route_eq => cases route_eq.symm.trans h_route
  | refused _ route_eq => cases route_eq.symm.trans h_route
  -- it has an entry, so the `unwrap` that finds none is not its step
  | missing _ route_eq _ innerMap_eq =>
    cases route_eq.symm.trans h_route
    obtain ⟨builder, stream, h_map, _⟩ := h_build
    cases innerMap_eq.symm.trans h_map
  -- a new outbound: the task is not there yet, and no `send_to` of it has answered
  | @opened _ _ _ _ builder listening route_eq nat_eq innerMap_eq =>
    cases route_eq.symm.trans h_route
    obtain ⟨h_unharmed, h_unhurried⟩ := h_reception.of_listening listening
    obtain ⟨_, h_last⟩ := knows_absent h_run listening nat_eq
    refine ⟨?_, iff_of_true (Or.inr ⟨builder, W, rfl, rfl⟩) ⟨h_unharmed, h_unhurried, ?_, ?_⟩⟩
    · intro builder' W' h_recv _
      cases h_recv
      exact (buildable_iff innerMap_eq).mp h_build
    · exact h_last ▸ fun h => by cases h
    · exact fun e => h_last ▸ fun h => by cases h
  -- its task waits in `recv`, so the last `send_to` is neither suspended nor has it failed
  | @queued _ _ _ _ o listening route_eq nat_eq stage_eq =>
    cases route_eq.symm.trans h_route
    obtain ⟨h_unharmed, h_unhurried⟩ := h_reception.of_listening listening
    obtain ⟨h_stage, _⟩ := knows_lookup h_run listening nat_eq
    refine ⟨?_, iff_of_true ?_ ⟨h_unharmed, h_unhurried, ?_, ?_⟩⟩
    · exact fun builder' W' h_recv _ => absurd h_recv (not_building_of_listening listening)
    · exact Or.inl (List.mem_append_right _ (List.mem_singleton.mpr rfl))
    · -- it is suspended
      intro h
      rw [h_stage, h] at stage_eq
      rcases stage_eq with h | h <;> cases h
    · -- it has failed
      intro e h
      rw [h_stage, h] at stage_eq
      rcases stage_eq with h | h <;> cases h
  | @dropped _ _ _ _ o listening route_eq nat_eq stage_eq =>
    cases route_eq.symm.trans h_route
    obtain ⟨h_stage, _⟩ := knows_lookup h_run listening nat_eq
    refine ⟨?_, iff_of_false ?_ ?_⟩
    · exact fun builder' W' h_recv _ => absurd h_recv (not_building_of_listening listening)
    · exact not_handed h_fresh fun _ _ => not_building_of_listening listening
    · -- `send_to` has failed, and the task has ended
      rintro ⟨_, _, _, h_error⟩
      rw [stage_eq] at h_stage
      obtain ⟨e, h_e⟩ := stageAfter_eq_finished h_stage.symm
      exact h_error e h_e
  | @blocked _ _ _ _ o listening route_eq nat_eq stage_eq =>
    cases route_eq.symm.trans h_route
    obtain ⟨h_stage, _⟩ := knows_lookup h_run listening nat_eq
    refine ⟨fun builder' W' h_recv _ => (by cases h_recv), iff_of_false ?_ ?_⟩
    · exact not_handed h_fresh fun _ _ => not_building_of_dead (Or.inr ⟨_, rfl⟩)
    · -- the thread waits for the task that only it can run
      rintro ⟨_, _, h_pending, _⟩
      exact h_pending (stageAfter_eq_sending.mp (h_stage.symm.trans stage_eq))
  -- nobody takes the datagram from the socket any more
  | unread dead =>
    refine ⟨fun builder' W' h_recv _ => (not_building_of_dead dead h_recv).elim, iff_of_false ?_ ?_⟩
    · exact not_handed h_fresh fun _ _ => not_building_of_dead dead
    · rintro ⟨h_unharmed, h_unhurried, _⟩
      -- the task has stopped, or its thread is blocked: one for each of the first two conditions
      cases h_reception with
      | listening recv_eq | building recv_eq | closed recv_eq =>
        rcases dead with h | ⟨_, h⟩ <;> cases recv_eq.symm.trans h
      | stopped _ harmed => exact harmed h_unharmed
      | blocked _ hurried => exact hurried h_unhurried

/-- **Isolation.** A datagram for which there is, or can be, a stream is given to its outbound
exactly if no datagram before it has ended the receive task, the thread has not deadlocked, and
the write task of the outbound can take it. -/
theorem udp_handed_iff {before after : List Action} {item : Received} {W : World}
    (h_run : D.run (before ++ .recv item W :: after) = some s)
    (h_route : D.route item = .ok (some (ob, packet))) (h_build : D.Buildable ob packet W)
    (h_open : s.recv ≠ .closed) :
    Handed s (datagrams before + 1) ob packet ↔
      D.Unharmed before ∧ D.Unhurried before ∧ D.Ready ob before := by
  obtain ⟨m, h_before, h_rest⟩ := runFrom_append.mp h_run
  obtain ⟨m', h_step, h_after⟩ := Option.bind_eq_some_iff.mp h_rest
  have h_run' : D.run (before ++ [.recv item W]) = some m' :=
    runFrom_concat.mpr ⟨m, h_before, h_step⟩
  -- it has come when the step is over
  have h_le : datagrams before + 1 ≤ m'.received := by
    rw [received_of_run h_run']
    unfold datagrams
    rw [List.countP_append]
    exact Nat.le_refl _
  obtain ⟨h_succeeds, h_now⟩ := handed_of_recv h_before (stepped_of_step h_step) h_route h_build
  -- the datagram is the next one that comes
  rw [received_of_run h_before] at h_succeeds h_now
  exact (handed_iff_of_run h_le h_succeeds h_after h_open).trans h_now

theorem udp_handed_iff_inTurn :
    directOnly.Unharmed (inTurn.take 4) ∧ directOnly.Unhurried (inTurn.take 4) ∧
      directOnly.Ready "direct" (inTurn.take 4) :=
  (@udp_handed_iff directOnly _ "direct" (packetTo 2 [8]) (inTurn.take 4) [] (datagramTo 2 [8])
    .calm rfl rfl ⟨_, _, rfl, rfl⟩ (fun h => by cases h)).mp (Or.inl (by decide))

/-- A datagram with `FRAG` set, and then one for an outbound that would take it. -/
theorem udp_not_handed :
    ∃ s, directOnly.run [.recv (.ok [0, 0, 1, 1, 10, 0, 0, 1, 0, 53]) .calm,
        .recv (datagramTo 2 [8]) .calm] = some s ∧
      directOnly.route (datagramTo 2 [8]) = .ok (some ("direct", packetTo 2 [8])) ∧
      directOnly.Buildable "direct" (packetTo 2 [8]) .calm ∧
      ¬ Handed s 2 "direct" (packetTo 2 [8]) := by
  refine ⟨_, rfl, rfl, ⟨_, _, rfl, rfl⟩, ?_⟩
  rintro (h_mem | ⟨_, _, h_recv, _⟩)
  · cases h_mem
  · cases h_recv

end Socks5UdpDatagram

end V2ray

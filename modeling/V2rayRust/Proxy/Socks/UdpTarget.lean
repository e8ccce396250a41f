import Mathlib.Data.List.Chain
import V2rayRust.Proxy.Shadowsocks.UdpCryptoIo
import V2rayRust.Proxy.Socks.Uplink
import V2rayRust.Proxy.Trojan.TrojanStream

/-!
# Where the datagrams of an association go

The polls of `send_to` that an association makes at an outbound of a single hop, run on the
stream that was built for it (`Serves`). The packets are those that have come, and a call keeps
its packet (`polled_of_run`); the stream was built for the target that came first
(`built_of_run`). A `ConnectedUdpSocket` does not look at the target it is given, so a direct hop
sends every datagram to the first target (`udp_target_iff`).

A call of `send_to` is a row of polls of one packet, and its trail is what they have handed to the
sockets and streams below. For each of the three kinds of hop, what a poll makes true of its trail
is true of the whole call when it has returned; and a run of the association makes such calls and no
others.
-/

namespace V2ray

open HopConfig

/-! ### The write half of a stream -/

/-- `lookup_host` for an address, with `resolve` for what it finds for a name. -/
def Address.lookupHost (resolve : String → UInt16 → List SocketAddr) : Address → List SocketAddr
  | socketAddress addr => [addr]
  | domainNameAddress name port => resolve name port

/-- The address that the `ConnectedUdpSocket` below Shadowsocks layers was connected to. -/
def Stream.udpBase : Stream → Option Address
  | .udp addr => some addr
  | .layered (.shadowSocksUdpStream ..) io => io.udpBase
  | _ => none

/-- A stream that takes datagrams, as its `poll_send_to` sees it. -/
inductive UdpWriter
  /-- Shadowsocks layers over `ConnectedUdpSocket(_, peer)` -/
  | socket (layers : List ShadowSocksUdpStream) (peer : SocketAddr)
  | trojan (writer : TrojanUdpWriter)

/-- What the network does in a poll: the answer of `UdpSocket::poll_send_to`, what is drawn for
salts, and the answers of `poll_write` below Trojan. -/
structure NetPoll where
  answer : Poll (Except String ℕ)
  salts : ℕ → List UInt8
  writes : List WriteEvent

/-- What a poll of `poll_send_to` leaves: the datagrams that the socket has sent, the bytes that
have been written below Trojan, and the answers that nothing has asked for. -/
structure UdpPoll where
  writer : UdpWriter
  result : Poll (Except String ℕ)
  sent : List (SocketAddr × List UInt8)
  written : List UInt8
  unused : List WriteEvent

namespace UdpWriter

/-- The stream of `build_udp`: Trojan over any stream, or a socket connected to the first address
that `lookup_host` finds. -/
def new (resolve : String → UInt16 → List SocketAddr) : Stream → Option UdpWriter
  | .layered .trojanUdpStream _ => some (.trojan .new)
  | s => do
    let peer ← ((← s.udpBase).lookupHost resolve).head?
    return .socket s.udpStack peer

/-- `poll_send_to` -/
def pollSendTo (A : Aead) (net : NetPoll) (packet : Packet) : UdpWriter → UdpPoll
  | socket layers peer =>
    let x := V2ray.pollSendTo A net.answer layers net.salts packet.2 packet.1
    -- what the innermost layer hands down; the target that comes with it is not looked at
    let buf := (x.handed.getLast?.map Prod.fst).getD packet.2
    let sent := match x.result with
      | .ready (.ok _) => [(peer, buf)]
      | _ => []
    ⟨socket x.layers peer, x.result, sent, [], net.writes⟩
  | trojan writer =>
    let x := writer.privPollWrite net.writes packet.2 packet.1
    ⟨trojan x.state, x.result, [], x.out, x.events⟩

end UdpWriter

/-- What a call of `send_to` has done so far. -/
structure Trail where
  sent : List (SocketAddr × List UInt8)
  written : List UInt8
  writes : List WriteEvent

namespace Trail

def start : Trail := ⟨[], [], []⟩

def poll (t : Trail) (net : NetPoll) (x : UdpPoll) : Trail :=
  ⟨t.sent ++ x.sent, t.written ++ x.written, t.writes ++ net.writes⟩

end Trail

/-- A call of `send_to` that has returned. -/
structure SendTo where
  packet : Packet
  trail : Trail
  result : Except String ℕ

/-- A stream answers a list of polls, and makes these calls return; the call in progress has done
`t` so far. -/
inductive Serves (A : Aead) : UdpWriter → Trail → List (Packet × Poll (Except String ℕ)) →
    List SendTo → Prop
  | nil (w : UdpWriter) (t : Trail) : Serves A w t [] []
  | pending {w : UdpWriter} {t : Trail} {packet : Packet}
      {polls : List (Packet × Poll (Except String ℕ))} {calls : List SendTo} (net : NetPoll)
      (result_eq : (w.pollSendTo A net packet).result = .pending)
      (unused_eq : (w.pollSendTo A net packet).unused = [])
      (rest : Serves A (w.pollSendTo A net packet).writer
        (t.poll net (w.pollSendTo A net packet)) polls calls) :
      Serves A w t ((packet, .pending) :: polls) calls
  | ready {w : UdpWriter} {t : Trail} {packet : Packet}
      {polls : List (Packet × Poll (Except String ℕ))} {calls : List SendTo} (net : NetPoll)
      {r : Except String ℕ} (result_eq : (w.pollSendTo A net packet).result = .ready r)
      (unused_eq : (w.pollSendTo A net packet).unused = [])
      (rest : Serves A (w.pollSendTo A net packet).writer .start polls calls) :
      Serves A w t ((packet, .ready r) :: polls)
        (⟨packet, t.poll net (w.pollSendTo A net packet), r⟩ :: calls)

/-- A call that is not done keeps its packet. -/
def Steady (polls : List (Packet × Poll (Except String ℕ))) : Prop :=
  polls.IsChain fun x y => x.2 = .pending → x.1 = y.1

/-- What a poll leaves, where `At` describes a stream within a call, or between two, and `Done` a
call that has returned `Ok`. -/
def After (At : Option Packet → UdpWriter → Trail → Prop) (Done : Packet → Trail → Prop)
    (packet : Packet) (t : Trail) (net : NetPoll) (x : UdpPoll) : Prop :=
  match x.result with
  | .pending => At (some packet) x.writer (t.poll net x)
  | .ready r => At none x.writer .start ∧ ((∃ n, r = .ok n) → Done packet (t.poll net x))

/-- **Calls**: what every poll of a packet makes true, every call is when it has returned. -/
theorem Serves.done {A : Aead} {At : Option Packet → UdpWriter → Trail → Prop}
    {Done : Packet → Trail → Prop}
    (h_after : ∀ {now w t packet} (net : NetPoll), At now w t → (∀ p ∈ now, p = packet) →
      (w.pollSendTo A net packet).unused = [] →
      After At Done packet t net (w.pollSendTo A net packet))
    {w : UdpWriter} {t : Trail} {now : Option Packet}
    {polls : List (Packet × Poll (Except String ℕ))} {calls : List SendTo}
    (h_serves : Serves A w t polls calls) (h_steady : Steady polls) (h_at : At now w t)
    (h_now : ∀ p ∈ now, ∀ x ∈ polls.head?, p = x.1) :
    ∀ call ∈ calls, (∃ n, call.result = .ok n) → Done call.packet call.trail := by
  -- on the polls; a call ends with the first poll that is ready
  induction h_serves generalizing now with
  | nil w t => exact fun call h_call => (by cases h_call)
  | pending net result_eq unused_eq rest ih =>
    have h_poll := h_after net h_at (fun p h_p => h_now p h_p _ rfl) unused_eq
    unfold After at h_poll
    rw [result_eq] at h_poll
    -- the next poll is for the same packet
    obtain ⟨h_next, h_steady⟩ := List.isChain_cons.mp h_steady
    refine ih h_steady h_poll fun p h_p x h_x => ?_
    cases h_p
    exact h_next x h_x rfl
  | ready net result_eq unused_eq rest ih =>
    have h_poll := h_after net h_at (fun p h_p => h_now p h_p _ rfl) unused_eq
    unfold After at h_poll
    rw [result_eq] at h_poll
    obtain ⟨h_rest, h_done⟩ := h_poll
    -- the call that has returned, and those that come after it
    intro call h_call h_ok
    rcases List.mem_cons.mp h_call with rfl | h_call
    · exact h_done h_ok
    · exact ih (List.isChain_cons.mp h_steady).2 h_rest
        (fun p h_p => (by cases h_p)) call h_call h_ok

/-! ### Sockets -/

/-- A socket between two calls, or within one for `packet`. -/
inductive SocketAt (A : Aead) (layers : List ShadowSocksUdpStream) (peer : SocketAddr) :
    Option Packet → UdpWriter → Trail → Prop
  | rest {t : Trail} (sent_eq : t.sent = []) :
      SocketAt A layers peer none (.socket layers peer) t
  | within {t : Trail} {packet : Packet} {handed : List (List UInt8 × Address)}
      (sent_eq : t.sent = []) (handing : Handing A layers packet.1 packet.2 handed) :
      SocketAt A layers peer (some packet) (.socket (sendingOf layers handed) peer) t

/-- What the layers of a socket make of a packet, sent to its peer. -/
def Sent (A : Aead) (layers : List ShadowSocksUdpStream) (peer : SocketAddr) (packet : Packet)
    (t : Trail) : Prop :=
  ∃ handed, Handing A layers packet.1 packet.2 handed ∧
    t.sent = [(peer, (handed.getLast?.map Prod.fst).getD packet.2)]

section Socket

variable {A : Aead} {layers : List ShadowSocksUdpStream} {peer : SocketAddr} {w : UdpWriter}
  {t : Trail} {packet : Packet} {now : Option Packet}

/-- A poll of a socket: the same packet is on its way, or it has been sent. -/
theorem SocketAt.after (h_idle : Idle layers) (net : NetPoll) (h : SocketAt A layers peer now w t)
    (h_now : ∀ p ∈ now, p = packet) :
    After (SocketAt A layers peer) (Sent A layers peer) packet t net
      (w.pollSendTo A net packet) := by
  -- at rest the poll hands the packet to the layers, and within a call they have it already
  obtain ⟨ls, handed, rfl, h_sent, h_handing, h_poll⟩ : ∃ ls handed, w = .socket ls peer ∧
      t.sent = [] ∧ Handing A layers packet.1 packet.2 handed ∧
      V2ray.pollSendTo A net.answer ls net.salts packet.2 packet.1 =
        .of layers handed net.answer := by
    cases h with
    | rest sent_eq =>
      obtain ⟨handed, h_handing, h_poll⟩ :=
        pollSendTo_idle (A := A) h_idle net.answer net.salts packet.2 packet.1
      exact ⟨layers, handed, rfl, sent_eq, h_handing, h_poll⟩
    | within sent_eq handing =>
      obtain rfl := h_now _ rfl
      exact ⟨_, _, rfl, sent_eq, handing,
        pollSendTo_sending h_idle handing net.answer net.salts _ _⟩
  unfold After UdpWriter.pollSendTo
  dsimp only
  rw [h_poll]
  cases net.answer with
  | pending =>
    refine .within ?_ h_handing
    show t.sent ++ [] = []
    rw [h_sent, List.append_nil]
  | ready r =>
    refine ⟨.rest rfl, ?_⟩
    rintro ⟨n, rfl⟩
    refine ⟨handed, h_handing, ?_⟩
    show t.sent ++ _ = _
    rw [h_sent]
    rfl

end Socket

/-! ### Trojan -/

/-- A Trojan stream between two calls, or within one for `packet`. -/
inductive TrojanAt : Option Packet → UdpWriter → Trail → Prop
  | rest {t : Trail} {w : TrojanUdpWriter} (rest : w.AtRest) (start_eq : t = .start) :
      TrojanAt none (.trojan w) t
  | within {t : Trail} {packet : Packet} {w : TrojanUdpWriter} (ne : packet.2 ≠ [])
      (within : TrojanUdpWriter.Within packet.1 packet.2 w t.written (∃ e ∈ t.writes, ¬ e.Works)) :
      TrojanAt (some packet) (.trojan w) t

/-- What a call has written for a packet: nothing if there is nothing to send, and otherwise a
head and the payload, and the head is whole exactly if no write has failed. -/
def Framed (packet : Packet) (t : Trail) : Prop :=
  packet.2 = [] ∧ t.written = [] ∧ t.writes = [] ∨
  packet.2 ≠ [] ∧ ∃ head, t.written = head ++ packet.2 ∧
    (head = trojanHead packet.1 packet.2 ↔ ¬ ∃ e ∈ t.writes, ¬ e.Works)

section Trojan

variable {A : Aead} {w : UdpWriter} {t : Trail} {packet : Packet} {now : Option Packet}

/-- What a poll makes of a call for a packet with a payload. -/
theorem after_of_progress {net : NetPoll} {x : TrojanPoll} (h_ne : packet.2 ≠ [])
    (h_unused : x.events = [])
    (h : TrojanUdpWriter.Progress packet.1 packet.2 t.written (∃ e ∈ t.writes, ¬ e.Works)
      net.writes x) :
    After TrojanAt Framed packet t net ⟨.trojan x.state, x.result, [], x.out, x.events⟩ := by
  have h_failed {used : List WriteEvent} (h_used : net.writes = used ++ x.events) :
      ((∃ e ∈ t.writes, ¬ e.Works) ∨ ∃ e ∈ used, ¬ e.Works) ↔
        ∃ e ∈ t.writes ++ net.writes, ¬ e.Works := by
    rw [h_used, h_unused, List.append_nil]
    simp only [List.mem_append, or_and_right, exists_or]
  unfold After
  dsimp only
  -- what the writer makes of it is what the call makes of it
  cases h with
  | pending ws_eq result_eq within =>
    rw [result_eq]
    exact .within h_ne (propext (h_failed ws_eq) ▸ within)
  | sent head ws_eq result_eq rest out_eq head_eq =>
    rw [result_eq]
    exact ⟨.rest rest rfl, fun _ =>
      Or.inr ⟨h_ne, head, out_eq, head_eq.trans (not_congr (h_failed ws_eq))⟩⟩
  | failed result_eq rest =>
    rw [result_eq]
    refine ⟨.rest rest rfl, ?_⟩
    rintro ⟨n, h_n⟩
    cases h_n

/-- A poll of the Trojan writer with its packet goes on where the last one was. -/
theorem TrojanAt.after (net : NetPoll) (h : TrojanAt now w t) (h_now : ∀ p ∈ now, p = packet)
    (h_unused : (w.pollSendTo A net packet).unused = []) :
    After TrojanAt Framed packet t net (w.pollSendTo A net packet) := by
  cases h with
  | @within _ p w ne within =>
    obtain rfl := h_now p rfl
    exact after_of_progress ne h_unused (TrojanUdpWriter.progress_of_within within)
  | @rest _ w rest start_eq =>
    subst start_eq
    by_cases h_data : packet.2 = []
    · -- nothing is written for an empty payload
      have h_poll : w.privPollWrite net.writes packet.2 packet.1 =
          ⟨{ w with dataLen := 0, stage := .done }, net.writes, .ready (.ok 0), []⟩ ∨
          w.privPollWrite net.writes packet.2 packet.1 =
            ⟨w, net.writes, .ready (.error "unexpected end of file"), []⟩ := by
        unfold TrojanUdpWriter.privPollWrite
        rcases rest with h_stage | ⟨h_stage, _, _⟩
        · rw [h_stage]
          exact Or.inr rfl
        · rw [h_stage]
          exact Or.inl (if_pos h_data)
      unfold UdpWriter.pollSendTo at h_unused ⊢
      unfold After
      dsimp only at h_unused ⊢
      rcases h_poll with h_poll | h_poll
      · rw [h_poll] at h_unused ⊢
        refine ⟨.rest (Or.inl rfl) rfl, fun _ => Or.inl ⟨h_data, rfl, ?_⟩⟩
        show [] ++ net.writes = []
        rw [List.nil_append]
        exact h_unused
      · rw [h_poll]
        refine ⟨.rest rest rfl, ?_⟩
        rintro ⟨n, h_n⟩
        cases h_n
    · refine after_of_progress h_data h_unused ?_
      have h_none : (∃ e ∈ Trail.start.writes, ¬ e.Works) ↔ False := by
        simp only [Trail.start, List.not_mem_nil, false_and, exists_false]
      rw [propext h_none]
      exact TrojanUdpWriter.progress_of_rest rest h_data

end Trojan

namespace Socks5UdpDatagram

variable {D : Socks5UdpDatagram} {s s' : Association} {as : List Action} {a : Action} {ob : String}

/-! ### What the write task asks for -/

/-- The last poll of an outbound, as its slot knows it: a task within `send_to` polls it with what
is in its cell, and else the last poll has returned. -/
inductive LastPoll : Slot → Option (Packet × Poll (Except String ℕ)) → Prop
  | sending {o : Outbound} (stage_eq : o.stage = .sending) :
      LastPoll (.held o) (some (o.cell.value, .pending))
  | returned {slot : Slot} {last : Option (Packet × Poll (Except String ℕ))}
      (stage_ne : ∀ o, slot = .held o → o.stage ≠ .sending)
      (last_ne : ∀ x ∈ last, x.2 ≠ .pending) : LastPoll slot last

/-- The polls of an outbound keep the packet of a call, and their packets have come for it. -/
structure Polled (D : Socks5UdpDatagram) (ob : String) (as : List Action) (s : Association) :
    Prop where
  steady : Steady (entriesAt s.polls ob)
  mem : ∀ x ∈ entriesAt s.polls ob, x.1 ∈ D.arrivals ob as
  last : Live s → LastPoll (s.slot ob) (entriesAt s.polls ob).getLast?

theorem lastPoll_answered {o : Outbound} (answer : Poll (Except String ℕ)) :
    LastPoll (.held (o.answered answer)) (some (o.cell.value, answer)) := by
  cases answer with
  | pending => exact .sending (o := o.answered .pending) rfl
  | ready r =>
    refine .returned ?_ ?_
    · rintro _ ⟨⟩
      cases r <;> simp [Outbound.answered]
    · rintro _ ⟨⟩
      simp

/-- A step with no poll, from a slot that is not sending to one that is not. -/
theorem LastPoll.quiet {slot slot' : Slot} {last : Option (Packet × Poll (Except String ℕ))}
    (h : LastPoll slot last) (h_ne : ∀ o, slot = .held o → o.stage ≠ .sending)
    (h_ne' : ∀ o, slot' = .held o → o.stage ≠ .sending) : LastPoll slot' last := by
  cases h with
  | sending stage_eq => exact absurd stage_eq (h_ne _ rfl)
  | returned _ last_ne => exact .returned h_ne' last_ne

/-- The poll of a task that is within `send_to` is for the packet of the poll before. -/
theorem LastPoll.value {o : Outbound} {last : Option (Packet × Poll (Except String ℕ))}
    (h : LastPoll (.held o) last) :
    ∀ x ∈ last, x.2 = .pending → x.1 = o.cell.value := by
  intro x h_x h_pending
  cases h with
  | sending _ =>
    cases h_x
    rfl
  | returned _ last_ne => exact absurd h_pending (last_ne x h_x)

/-- After a step the slot of an outbound still knows its last poll. -/
theorem lastPoll_of_change {m : Option Mark} {calls : List Packet}
    {polls : List (Packet × Poll (Except String ℕ))} (h_change : Change ob s s' m calls polls)
    (h_live : Live s') {before : List (Packet × Poll (Except String ℕ))}
    (h : LastPoll (s.slot ob) before.getLast?) :
    LastPoll (s'.slot ob) (before ++ polls).getLast? := by
  -- an outbound is replaced by one that has not been polled, or polled and answered
  cases h_change with
  | died dead => exact absurd h_live dead
  | kept _ slot_eq =>
    rw [List.append_nil, slot_eq]
    exact h
  | opened _ slot_eq slot_eq' | entered _ slot_eq slot_eq' =>
    rw [List.append_nil, slot_eq']
    rw [slot_eq] at h
    refine h.quiet (fun o h_o => (by cases h_o)) fun o h_o => ?_
    cases h_o <;> simp [Outbound.new]
  | queued _ slot_eq stage_eq slot_eq' =>
    rw [List.append_nil, slot_eq']
    rw [slot_eq] at h
    refine h.quiet ?_ ?_
    · rintro _ ⟨⟩
      rcases stage_eq with h_stage | h_stage <;> simp [h_stage]
    · rintro _ ⟨⟩
      rcases stage_eq with h_stage | h_stage <;> simp [h_stage]
  | dropped _ slot_eq stage_eq slot_eq' =>
    rw [List.append_nil, slot_eq', ← slot_eq]
    exact h
  | wrote _ slot_eq _ slot_eq' =>
    rw [slot_eq', List.getLast?_append_of_ne_nil _ (List.cons_ne_nil _ _)]
    exact lastPoll_answered _

/-- A step polls `send_to` with what is in the cell, if it polls it. -/
theorem Change.poll {m : Option Mark} {calls : List Packet}
    {polls : List (Packet × Poll (Except String ℕ))} (h : Change ob s s' m calls polls) :
    polls = [] ∨ ∃ o answer, s.slot ob = .held o ∧ polls = [(o.cell.value, answer)] := by
  cases h with
  | wrote _ slot_eq borrow_eq _ => exact Or.inr ⟨_, _, slot_eq, by rw [cell_of_borrow borrow_eq]⟩
  | died _ | kept _ _ | opened _ _ _ | entered _ _ _ | queued _ _ _ _ | dropped _ _ _ _ =>
    exact Or.inl rfl

/-- **Polls in a run.** -/
theorem polled_of_run (h_run : D.run as = some s) (ob : String) : Polled D ob as s := by
  refine run_induction (P := fun as s => Polled D ob as s) ?_ ?_ h_run
  · exact ⟨List.isChain_nil, fun x h_x => (by cases h_x),
      fun _ => .returned (fun o h_o => (by cases h_o)) (fun x h_x => (by cases h_x))⟩
  intro as m a m' h_run ih h_step
  obtain ⟨calls, polls, h_change, _, h_polls⟩ := change_of_step h_run h_step ob
  have h_arrivals : ∀ p ∈ D.arrivals ob as, p ∈ D.arrivals ob (as ++ [a]) := fun p h_p =>
    arrivals_concat ▸ List.mem_append_left _ h_p
  rcases h_change.live_or with ⟨h_live, h_live'⟩ | ⟨h_dead, _, rfl⟩
  · have h_last := lastPoll_of_change h_change h_live' (ih.last h_live)
    -- the outbound lives on: at most one poll was made, for the packet in its cell
    rw [← h_polls] at h_last
    rcases h_change.poll with rfl | ⟨o, answer, h_slot, rfl⟩
    · rw [List.append_nil] at h_polls
      exact ⟨h_polls ▸ ih.steady, fun x h_x => h_arrivals _ (ih.mem x (h_polls ▸ h_x)),
        fun _ => h_last⟩
    · refine ⟨?_, ?_, fun _ => h_last⟩
      · -- the poll before was for the same packet, if it was pending
        rw [h_polls]
        refine List.isChain_append.mpr ⟨ih.steady, List.isChain_singleton _, ?_⟩
        rintro x h_x y ⟨⟩ h_pending
        exact (h_slot ▸ ih.last h_live).value x h_x h_pending
      · -- the cell holds a packet that has come
        intro x h_x
        rw [h_polls] at h_x
        rcases List.mem_append.mp h_x with h_x | h_x
        · exact h_arrivals _ (ih.mem x h_x)
        · obtain rfl := List.mem_singleton.mp h_x
          have h_knows := knows_of_run h_run h_live ob
          rw [h_slot] at h_knows
          cases h_knows with
          | held _ mem => exact h_arrivals _ mem
  · rw [List.append_nil] at h_polls
    exact ⟨h_polls ▸ ih.steady, fun x h_x => h_arrivals _ (ih.mem x (h_polls ▸ h_x)),
      fun h_live => absurd h_live h_dead⟩

/-! ### What the stream was built for -/

/-- The stream of an outbound was built by its chain for the target that came first, and a stream
that is being built is. -/
structure Builds (D : Socks5UdpDatagram) (as : List Action) (s : Association) : Prop where
  building : ∀ {ob : String} {b : ChainStreamBuilder} {packet : Packet} {W : World},
    s.recv = .building ob b packet W → D.innerMap.lookup ob = some b
  built : ∀ {ob : String} {target : Address} {stream : Stream}, (ob, target, stream) ∈ s.built →
    (∃ data, (D.arrivals ob as).head? = some (target, data)) ∧
      ∃ b W, D.innerMap.lookup ob = some b ∧ D.buildFor b W target = .ok stream

/-- Each stream of a run has been built by its chain for the target that came first. -/
theorem builds_of_run (h_run : D.run as = some s) : Builds D as s := by
  refine run_induction (P := fun as s => Builds D as s) ?_ ?_ h_run
  · exact ⟨fun h => (by cases h), fun h => (by cases h)⟩
  intro as m a m' h_run ih h_step
  have h_first {ob : String} {packet : Packet} (h : (D.arrivals ob as).head? = some packet) :
      (D.arrivals ob (as ++ [a])).head? = some packet := by
    rw [arrivals_concat, List.head?_append, h]
    rfl
  have h_built {ob : String} {target : Address} {stream : Stream}
      (h : (ob, target, stream) ∈ m.built) :
      (∃ data, (D.arrivals ob (as ++ [a])).head? = some (target, data)) ∧
        ∃ b W, D.innerMap.lookup ob = some b ∧ D.buildFor b W target = .ok stream := by
    obtain ⟨⟨data, h_data⟩, h_build⟩ := ih.built h
    exact ⟨⟨data, h_first h_data⟩, h_build⟩
  cases stepped_of_step h_step with
  | skipped _ _ | queued _ _ _ _ | dropped _ _ _ _ | unread _ | wrote _ _ _ =>
    exact ⟨ih.building, h_built⟩
  | refused _ _ | missing _ _ _ _ | failed _ _ | closed _ _ | blocked _ _ _ _ =>
    exact ⟨fun h => (by cases h), h_built⟩
  | opened _ _ _ innerMap_eq =>
    refine ⟨fun h => ?_, h_built⟩
    cases h
    exact innerMap_eq
  | @entered ob b packet W stream building build_eq =>
    refine ⟨fun h => (by cases h), fun h => ?_⟩
    rcases List.mem_append.mp h with h | h
    · exact h_built h
    · cases List.mem_singleton.mp h
      refine ⟨⟨packet.2, h_first ?_⟩, b, W, ih.building building, build_eq⟩
      -- no other packet has come for it
      have h_knows := knows_of_run h_run (Or.inr ⟨_, _, _, _, building⟩) ob
      have h_slot : m.slot ob = .opening packet := by
        unfold Association.slot
        simp only [lookup_of_building h_run building, building, if_true]
      rw [h_slot] at h_knows
      generalize D.arrivals ob as = packets at h_knows ⊢
      generalize D.lastAnswer ob as = last at h_knows
      cases h_knows
      rfl

end Socks5UdpDatagram

/-! ### Chains of one hop -/

/-- The stream of a chain of one hop for a target. -/
def HopConfig.UdpStream (W : World) (target : Address) (s : Stream) : HopConfig → Prop
  | direct _ => s = .udp target
  | ss c => s = .layered (.shadowSocksUdpStream c.addr c.method
      (opensslBytesToKey W c.password.toUTF8.toList c.method.keyLen)) (.udp c.addr)
  | trojan c => ∃ header, s = .layered .trojanUdpStream
      (.layered (.trojanHeader header) (.udp c.addr))
  | _ => True

theorem udpStream_of_bind {W : World} {base : Address} {ip : IpAddr} {s : Stream}
    (h : (ChainStreamBuilder.bindConnectUdp W base ip).result = .ok s) : s = .udp base := by
  obtain ⟨_, _, h⟩ := Trace.bind_result_eq_ok.mp h
  obtain ⟨_, _, h⟩ := Trace.bind_result_eq_ok.mp h
  cases h
  rfl

section OneHop

variable {W₀ W : World} {hop : HopConfig} {b : ChainStreamBuilder} {target : Address} {ip : IpAddr}
  {s : Stream}

/-- `build_udp` of a chain of one hop puts its builder on a socket. -/
theorem udpLayer_of_one (h : ChainOf W₀ [hop] b) {x : StreamBuilder} {ls : List StreamBuilder}
    (h_last : b.LastForUdp W target ls) (h_one : b.builders ++ ls = [x])
    (h_build : (b.buildUdp W target ip).result = .ok s) :
    ∃ call, x.udpLayer W call (.udp (hop.getAddr.getD target)) false = .ok s := by
  -- the one layer has no stream below it, so its flag is false
  have h_types : b.layerTypes = [hop.getProtocolType] :=
    List.perm_singleton.mp h.assembled.layerTypes_perm
  have h_marker : b.buildUdpMarker = false :: [] := by
    rw [h.marker_eq, h_types]
    rfl
  have h_base : b.tcpBase target = hop.getAddr.getD target := by
    unfold ChainStreamBuilder.tcpBase
    rw [h.remoteAddr_eq, nextAddr_cons, nextAddr_nil, Option.or_none]
  have h_black : b.isBlackHole = false := by
    by_contra h_black
    have h_true : b.isBlackHole = true := by simpa using h_black
    unfold ChainStreamBuilder.buildUdp at h_build
    rw [h_true] at h_build
    cases h_build
  rw [ChainStreamBuilder.buildUdp_eq h_black h_last h.marker_eq h_marker, h_one, h_marker,
    h_base] at h_build
  obtain ⟨io, h_io, h_fold⟩ := Trace.bind_result_eq_ok.mp h_build
  obtain rfl := udpStream_of_bind h_io
  have h_run := foldRun_udpFold (W := W) [(x, false)] (.udp (hop.getAddr.getD target))
  rw [show ([x].zip [false]) = [(x, false)] from rfl] at h_fold
  rw [h_fold] at h_run
  generalize (udpFold W [(x, false)] (.udp (hop.getAddr.getD target))).calls = calls at h_run
  cases h_run with
  | step succeeds rest =>
    cases rest
    exact ⟨_, succeeds⟩

/-- **The stream of one hop.** -/
theorem udpStream_of_buildUdp (h : ChainOf W₀ [hop] b)
    (h_build : (b.buildUdp W target ip).result = .ok s) : hop.UdpStream W target s := by
  cases h.assembled with
  | plain no_addr makes last_eq =>
    have h_last : b.LastForUdp W target [] := by
      unfold ChainStreamBuilder.LastForUdp
      rw [last_eq]
    generalize h_builders : b.builders = bs at makes
    cases makes with
    | cons head tail =>
      cases tail
      obtain ⟨call, h_layer⟩ := udpLayer_of_one h h_last
        (by rw [h_builders, List.append_nil]) h_build
      cases hop with
      | direct _ =>
        cases head
        cases h_layer
        rfl
      | vmess _ | trojan _ | ss _ => cases no_addr _ List.mem_cons_self
      | tls _ | ws _ | blackhole _ | grpc _ | simpleObfs _ | h2 _ => trivial
  | addressed front last tail fs ts own hops_eq last_addr no_addr makes_front makes_tail
      builders_eq last_eq =>
    obtain ⟨rfl, rfl, rfl⟩ : front = [] ∧ hop = last ∧ tail = [] := by
      cases front with
      | nil => simpa using hops_eq
      | cons x front => simp at hops_eq
    cases makes_front
    cases makes_tail
    have h_layer {x : StreamBuilder}
        (h_x : hop.toChainableStreamBuilder W (if hop.isUot then some target else b.lastUdpAddr) =
          .ok x) :
        ∃ call, x.udpLayer W call (.udp (hop.getAddr.getD target)) false = .ok s := by
      have h_last : b.LastForUdp W target [x] := by
        unfold ChainStreamBuilder.LastForUdp
        rw [last_eq]
        exact ⟨x, h_x, rfl⟩
      exact udpLayer_of_one h h_last (by rw [builders_eq]; rfl) h_build
    cases hop with
    | ss c =>
      -- the first address of the chain is that of the hop itself
      have h_udp : b.lastUdpAddr = some c.addr := by
        have h_addr := h.lastUdpAddr_eq
        rw [show b.protocolTypeIter.findIdx? ProtocolType.isUot = none by
          unfold ChainStreamBuilder.protocolTypeIter
          rw [last_eq, builders_eq]
          rfl] at h_addr
        exact h_addr
      obtain ⟨call, h_layer⟩ := h_layer (x := .shadowsocks c.addr c.method
        (opensslBytesToKey W c.password.toUTF8.toList c.method.keyLen)) (by rw [h_udp]; rfl)
      cases h_layer
      rfl
    | trojan c =>
      obtain ⟨call, h_layer⟩ := h_layer rfl
      obtain ⟨_, _, h_layer⟩ := bind_eq_ok.mp h_layer
      cases h_layer
      exact ⟨_, rfl⟩
    | vmess _ => trivial
    | tls _ | ws _ | blackhole _ | direct _ | grpc _ | simpleObfs _ | h2 _ => cases last_addr

end OneHop

/-! ### Targets -/

/-- What has left for a packet is addressed to the target of the packet: to its first socket
address from a direct hop, and as the encoded target from the others. -/
def HopConfig.Addressed (W : World) (A : Aead) (resolve : String → UInt16 → List SocketAddr)
    (packet : Packet) (t : Trail) : HopConfig → Prop
  | direct _ => ∃ dest, (packet.1.lookupHost resolve).head? = some dest ∧
      t.sent = [(dest, packet.2)]
  | ss c => ∃ server salt, (c.addr.lookupHost resolve).head? = some server ∧
      t.sent = [(server, encryptPayload A c.method
        (opensslBytesToKey W c.password.toUTF8.toList c.method.keyLen) packet.1 packet.2 salt [])]
  | trojan _ =>
    t.written = if packet.2 = [] then [] else trojanHead packet.1 packet.2 ++ packet.2
  | _ => False

/-- When a hop sends a packet to its target: from a direct hop it must resolve to where the target
that came first does, and below Trojan no write may fail. -/
def HopConfig.KeepsTarget (resolve : String → UInt16 → List SocketAddr) (first : Address)
    (packet : Packet) (writes : List WriteEvent) : HopConfig → Prop
  | direct _ => (packet.1.lookupHost resolve).head? = (first.lookupHost resolve).head?
  | ss _ => True
  | trojan _ => ∀ e ∈ writes, e.Works
  | _ => False

/-- A call that has returned is one of the polls. -/
theorem Serves.mem {A : Aead} {w : UdpWriter} {t : Trail}
    {polls : List (Packet × Poll (Except String ℕ))} {calls : List SendTo}
    (h : Serves A w t polls calls) :
    ∀ call ∈ calls, (call.packet, .ready call.result) ∈ polls := by
  induction h with
  | nil w t => exact fun call h_call => (by cases h_call)
  | pending net _ _ _ ih => exact fun call h_call => List.mem_cons_of_mem _ (ih call h_call)
  | ready net _ _ _ ih =>
    intro call h_call
    rcases List.mem_cons.mp h_call with rfl | h_call
    · exact List.mem_cons_self
    · exact List.mem_cons_of_mem _ (ih call h_call)

/-- A frame names the target of its packet exactly if its head is whole. -/
theorem framed_iff {packet : Packet} {t : Trail} (h : Framed packet t) :
    t.written = (if packet.2 = [] then [] else trojanHead packet.1 packet.2 ++ packet.2) ↔
      ∀ e ∈ t.writes, e.Works := by
  rcases h with ⟨h_data, h_written, h_writes⟩ | ⟨h_data, head, h_written, h_head⟩
  · rw [if_pos h_data, h_written, h_writes]
    exact iff_of_true rfl (fun e h_e => (by cases h_e))
  · rw [if_neg h_data, h_written, List.append_left_inj, h_head]
    simp only [not_exists, not_and, not_not]

namespace Socks5UdpDatagram

variable {D : Socks5UdpDatagram} {s : Association} {as : List Action} {ob : String}

/-- **Targets.** For an outbound of one hop that is direct, Shadowsocks or Trojan, every packet that
is sent has come for the outbound, and it leaves for its own target exactly if the hop keeps
targets. -/
theorem udp_target_iff (h_run : D.run as = some s) {W₀ : World} {c : Config} {out : Outbounds}
    {b : ChainStreamBuilder} {hop : HopConfig} (h_accepts : Accepts W₀ c out b)
    (h_res : Resolves c out.chain [hop])
    (h_kind : hop.getProtocolType ∈ [.direct, .ss, .trojan])
    (h_map : D.innerMap.lookup ob = some b) {target : Address} {stream : Stream}
    (h_built : (ob, target, stream) ∈ s.built) {A : Aead}
    {resolve : String → UInt16 → List SocketAddr} {w : UdpWriter}
    (h_new : UdpWriter.new resolve stream = some w) {calls : List SendTo}
    (h_serves : Serves A w .start (entriesAt s.polls ob) calls) :
    ∃ W first, D.buildFor b W target = .ok stream ∧ (D.arrivals ob as).head? = some first ∧
      ∀ call ∈ calls, (∃ n, call.result = .ok n) → call.packet ∈ D.arrivals ob as ∧
        (hop.Addressed W A resolve call.packet call.trail ↔
          hop.KeepsTarget resolve first.1 call.packet call.trail.writes) := by
  obtain ⟨⟨data, h_first⟩, b', W, h_map', h_build⟩ := (builds_of_run h_run).built h_built
  cases h_map.symm.trans h_map'
  have h_polled := polled_of_run h_run ob
  have h_stream := udpStream_of_buildUdp (h_accepts.chainOf h_res) h_build
  refine ⟨W, (target, data), h_build, h_first, fun call h_call h_ok =>
    ⟨h_polled.mem _ (h_serves.mem call h_call), ?_⟩⟩
  cases hop with
  | direct _ =>
    obtain rfl : stream = .udp target := h_stream
    obtain ⟨peer, h_peer, h_w⟩ := Option.bind_eq_some_iff.mp h_new
    cases h_w
    have h_idle : Idle [] := fun l h_l => (by cases h_l)
    obtain ⟨handed, h_handing, h_sent⟩ := h_serves.done
      (fun net h_at h_now _ => h_at.after h_idle net h_now) h_polled.steady
      (.rest rfl : SocketAt A [] peer none _ _) (fun p h_p => (by cases h_p)) call h_call h_ok
    cases h_handing
    show (∃ dest, _ = some dest ∧ call.trail.sent = [(dest, call.packet.2)]) ↔
      _ = (target.lookupHost resolve).head?
    rw [h_sent, h_peer]
    -- the datagram goes to the peer of the socket
    constructor
    · rintro ⟨dest, h_dest, h_eq⟩
      cases h_eq
      exact h_dest
    · intro h_dest
      exact ⟨peer, h_dest, rfl⟩
  | ss c =>
    obtain rfl := h_stream
    obtain ⟨peer, h_peer, h_w⟩ := Option.bind_eq_some_iff.mp h_new
    cases h_w
    have h_idle : Idle [ShadowSocksUdpStream.new c.addr c.method
        (opensslBytesToKey W c.password.toUTF8.toList c.method.keyLen)] := by
      intro l h_l
      rw [List.mem_singleton.mp h_l]
      exact ⟨rfl, rfl⟩
    obtain ⟨handed, h_handing, h_sent⟩ := h_serves.done
      (fun net h_at h_now _ => h_at.after h_idle net h_now) h_polled.steady
      (.rest rfl : SocketAt A _ peer none _ _) (fun p h_p => (by cases h_p)) call h_call h_ok
    cases h_handing with
    | cons salt below =>
      cases below
      exact iff_of_true ⟨peer, salt, h_peer, h_sent⟩ trivial
  | trojan _ =>
    obtain ⟨header, rfl⟩ := h_stream
    cases h_new
    exact framed_iff (h_serves.done
      (fun net h_at h_now h_unused => TrojanAt.after net h_at h_now h_unused) h_polled.steady
      (TrojanAt.rest (Or.inr ⟨rfl, rfl, rfl⟩) rfl) (fun p h_p => (by cases h_p)) call h_call h_ok)
  | vmess _ | tls _ | ws _ | blackhole _ | grpc _ | simpleObfs _ | h2 _ =>
    exact absurd h_kind (by simp [HopConfig.getProtocolType])

/-- The configuration of `directOnly`. -/
def directConfig : Config where
  direct := [⟨"direct"⟩]
  defaultOutbound := "direct"
  outbounds := [⟨["direct"], "direct"⟩]

/-- Two datagrams with different targets, each sent at once. -/
def twoTargets : List Action :=
  [.recv (datagramTo 1 [7]) .calm, .built, .write "direct" (.ready (.ok 1)),
    .recv (datagramTo 2 [8]) .calm, .write "direct" (.ready (.ok 1))]

/-- The calls of `twoTargets`, over a socket for `10.0.0.1`. -/
def twoCalls : List SendTo :=
  [⟨packetTo 1 [7], ⟨[(.v4 0x0A000001 53, [7])], [], []⟩, .ok 1⟩,
    ⟨packetTo 2 [8], ⟨[(.v4 0x0A000001 53, [8])], [], []⟩, .ok 1⟩]

theorem serves_twoCalls : Serves .plain (.socket [] (.v4 0x0A000001 53)) .start
    [(packetTo 1 [7], .ready (.ok 1)), (packetTo 2 [8], .ready (.ok 1))] twoCalls :=
  .ready ⟨.ready (.ok 1), fun _ => [], []⟩ rfl rfl
    (.ready ⟨.ready (.ok 1), fun _ => [], []⟩ rfl rfl (.nil _ _))

theorem accepts_directConfig : Accepts .calm directConfig ⟨["direct"], "direct"⟩
    ⟨[.direct], none, none, [false], none, false⟩ :=
  ⟨⟨_, rfl⟩, List.mem_cons_self, rfl⟩

theorem resolves_directConfig : Resolves directConfig ["direct"] [.direct ⟨"direct"⟩] :=
  .cons ⟨_, rfl, rfl⟩ .nil

/-- Two datagrams of one association to two targets, over a direct outbound. -/
theorem udp_target_iff_twoTargets :
    ∃ s, directOnly.run twoTargets = some s ∧ ∃ W, ∀ call ∈ twoCalls,
      (HopConfig.direct ⟨"direct"⟩).Addressed W .plain (fun _ _ => []) call.packet call.trail ↔
        call.packet.1 = (packetTo 1 []).1 := by
  refine ⟨_, rfl, ?_⟩
  have h_new : UdpWriter.new (fun _ _ => []) (.udp (packetTo 1 []).1) =
      some (.socket [] (.v4 0x0A000001 53)) := rfl
  have h_run : directOnly.run twoTargets = some _ := rfl
  obtain ⟨W, first, _, h_first, h_calls⟩ := udp_target_iff h_run accepts_directConfig
    resolves_directConfig (by decide) rfl List.mem_cons_self h_new serves_twoCalls
  cases h_first
  refine ⟨W, fun call h_call => ?_⟩
  rcases List.mem_cons.mp h_call with rfl | h_call'
  · exact (h_calls _ h_call ⟨1, rfl⟩).2.trans (iff_of_true rfl rfl)
  · obtain rfl := List.mem_singleton.mp h_call'
    exact (h_calls _ h_call ⟨1, rfl⟩).2.trans
      (iff_of_false (by intro h; cases h) (by decide))

/-- The second datagram goes to the target of the first. -/
theorem udp_target_first :
    ¬ ∀ (D : Socks5UdpDatagram) (as : List Action) (s : Association) (ob : String) (W₀ W : World)
        (c : Config) (out : Outbounds) (b : ChainStreamBuilder) (hop : HopConfig)
        (target : Address) (stream : Stream) (A : Aead)
        (resolve : String → UInt16 → List SocketAddr) (w : UdpWriter) (calls : List SendTo),
      D.run as = some s → Accepts W₀ c out b → Resolves c out.chain [hop] →
      hop.getProtocolType ∈ [.direct, .ss, .trojan] → D.innerMap.lookup ob = some b →
      (ob, target, stream) ∈ s.built → D.buildFor b W target = .ok stream →
      UdpWriter.new resolve stream = some w →
      Serves A w .start (entriesAt s.polls ob) calls →
      ∀ call ∈ calls, (∃ n, call.result = .ok n) →
        hop.Addressed W A resolve call.packet call.trail := by
  intro h
  obtain ⟨dest, h_dest, h_sent⟩ := h directOnly twoTargets _ "direct" .calm .calm directConfig _ _
    (.direct ⟨"direct"⟩) _ _ .plain (fun _ _ => []) _ twoCalls rfl accepts_directConfig
    resolves_directConfig (by decide) rfl List.mem_cons_self rfl rfl serves_twoCalls
    ⟨packetTo 2 [8], ⟨[(.v4 0x0A000001 53, [8])], [], []⟩, .ok 1⟩
    (List.mem_cons_of_mem _ List.mem_cons_self) ⟨1, rfl⟩
  obtain rfl := Option.some.inj h_dest
  revert h_sent
  decide

end Socks5UdpDatagram

end V2ray

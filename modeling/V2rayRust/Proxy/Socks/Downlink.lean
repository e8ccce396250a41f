import V2rayRust.Proxy.AddressWire
import V2rayRust.Proxy.Socks.Uplink
import V2rayRust.Proxy.Split

/-!
# The way down of an association

`Socks5UdpDatagram::run` on the way to the client: for each outbound a task reads datagrams from
its stream and sends them into one channel of 32 places, and another task takes them out and sends
them, encoded, to the address that the first datagram came from. A run interleaves these tasks
with those of `Association`, which say which read tasks there are.

No datagram is lost, doubled or overtaken by a later one of the same outbound while the tasks
live (`delivers_of_run`), and none waits for something that does not come (`drains`). But a read
task that has failed is never replaced: the outbound is silent for the rest of the association
(`silent_of_run`).
-/

namespace V2ray

open Address

namespace Socks5UdpCodec

/-- `Socks5UdpCodec::encode` -/
def encode (item : List UInt8 × Address) : List UInt8 := [0, 0, 0] ++ item.2.writeToBuf ++ item.1

theorem decode_of_readFromBuf {src : List UInt8} {a : Address} (h : readFromBuf src = .ok a)
    (h_len : a.serializedLen ≤ src.length) (x y : UInt8) :
    decode (x :: y :: 0 :: src) = .ok (some (a, src.drop a.serializedLen), []) := by
  unfold decode
  dsimp only
  rw [if_neg (fun h_frag => h_frag rfl), h, ok_bind, if_neg (Nat.not_lt.mpr h_len)]
  rfl

/-- What is encoded is decoded to the same, and nothing is left. -/
theorem decode_encode {item : List UInt8 × Address} (h : item.2.Encodable) :
    decode (encode item) = .ok (some (item.2, item.1), []) := by
  have h_read : readFromBuf (item.2.writeToBuf ++ item.1) = .ok item.2 := by
    rw [readFromBuf_eq, readFromCursor_writeToBuf h]
    rfl
  have h_len : item.2.serializedLen ≤ (item.2.writeToBuf ++ item.1).length := by
    rw [List.length_append, length_writeToBuf]
    exact Nat.le_add_right _ _
  have h_drop : (item.2.writeToBuf ++ item.1).drop item.2.serializedLen = item.1 :=
    List.drop_left' (length_writeToBuf item.2)
  calc decode (encode item)
      = .ok (some (item.2, (item.2.writeToBuf ++ item.1).drop item.2.serializedLen), []) :=
        decode_of_readFromBuf h_read h_len 0 0
    _ = .ok (some (item.2, item.1), []) := by rw [h_drop]

end Socks5UdpCodec

/-! ### The tasks -/

/-- What `recv_from` yields: a payload, and where it came from. -/
abbrev Reply := List UInt8 × Address

/-- `UdpReadHalf::poll`: what a poll of `poll_recv_from` puts into `buf`, and the answer. -/
def udpReadHalfPoll (buf : List UInt8) (answer : Poll (Except String Reply)) :
    List UInt8 × Poll (Except String (ℕ × Address)) :=
  match answer with
  | .pending => (buf, .pending)
  | .ready (.error message) => (buf, .ready (.error message))
  | .ready (.ok (bytes, addr)) => (buf ++ bytes, .ready (.ok (bytes.length, addr)))

/-- Where the read task of an outbound is. -/
inductive ReadStage
  /-- in `recv_from`, its buffer cleared -/
  | receiving
  /-- in `tx_remote_packet.send` -/
  | sending (reply : Reply)
  /-- `recv_from` has failed -/
  | ended
  deriving DecidableEq

/-- What a read task has in its hand. -/
def ReadStage.reply : ReadStage → Option Reply
  | sending reply => some reply
  | _ => none

/-- Where `local_send_handle` is. -/
inductive SendStage
  /-- in `local_addr_receiver` -/
  | waiting
  /-- in `rx_remote_packet.recv` -/
  | receiving (localAddr : SocketAddr)
  /-- it has ended, and the channel is closed -/
  | ended
  deriving DecidableEq

/-- The places of the channel. -/
def channelSize : ℕ := 32

/-- An association with both ways, and the logs of the way down. The send task takes a reply off the
channel, encodes it and sends it in one action (`DownAction.deliver`): its `recv`, `feed` and `flush`
are merged. The code frees the place in the channel before the reply is sent, and the model with
it. -/
structure Duplex where
  assoc : Association
  /-- what `local_addr_sender` has sent -/
  localAddr : Option SocketAddr
  /-- the read tasks, of the outbounds that are in `nat` -/
  reads : String → ReadStage
  sender : SendStage
  queue : List (String × Reply)
  /-- what `recv_from` has returned -/
  fetched : List (String × Reply)
  /-- what has been sent to the client -/
  sent : List (String × Reply)
  datagrams : List (SocketAddr × List UInt8)

inductive DownAction
  /-- `recv_from` is ready. -/
  | recvFrom (ob : String) (answer : Except String Reply)
  /-- `tx_remote_packet.send` returns. -/
  | push (ob : String)
  /-- `local_addr_receiver` is ready. -/
  | learn
  /-- `rx_remote_packet.recv` is ready, and what it yields is fed and flushed. -/
  | deliver (answer : Except String Unit)

inductive DuplexAction
  /-- An action of the way up; a datagram that is received comes from `source`. -/
  | up (a : Action) (source : SocketAddr)
  | down (a : DownAction)

namespace Duplex

def new : Duplex := ⟨.new, none, fun _ => .receiving, .waiting, [], [], [], []⟩

/-- A read task of `ob` exists. -/
def Reads (s : Duplex) (ob : String) : Prop := s.assoc.nat.lookup ob ≠ none

instance (s : Duplex) (ob : String) : Decidable (s.Reads ob) :=
  inferInstanceAs (Decidable (_ ≠ _))

def setRead (s : Duplex) (ob : String) (stage : ReadStage) : Duplex :=
  { s with reads := Function.update s.reads ob stage }

/-- `recv_from(&mut buf).await?`, and `buf.clone()` on its way into the channel. -/
def recvFrom (s : Duplex) (ob : String) (answer : Except String Reply) : Duplex :=
  match udpReadHalfPoll [] (.ready answer) with
  | (buf, .ready (.ok (_, addr))) =>
    { s.setRead ob (.sending (buf, addr)) with fetched := s.fetched ++ [(ob, (buf, addr))] }
  | _ => s.setRead ob .ended

/-- The end of `local_send_handle`, which closes the channel. -/
def endSender (s : Duplex) : Duplex := { s with sender := .ended, queue := [] }

def down (s : Duplex) : DownAction → Option Duplex
  | .recvFrom ob answer =>
    match s.reads ob with
    | .receiving => if s.Reads ob then some (s.recvFrom ob answer) else none
    | _ => none
  | .push ob =>
    match s.reads ob with
    | .sending reply =>
      if s.Reads ob then
        -- `let _ = tx_remote_packet.send(..).await;` fails if the channel is closed
        if s.sender = .ended then some (s.setRead ob .receiving)
        else if s.queue.length < channelSize then
          some { s.setRead ob .receiving with queue := s.queue ++ [(ob, reply)] }
        else none
      else none
    | _ => none
  | .learn =>
    match s.sender, s.localAddr, s.assoc.recv with
    | .waiting, some localAddr, _ => some { s with sender := .receiving localAddr }
    -- `local_addr_sender` was dropped
    | .waiting, none, .stopped => some s.endSender
    | _, _, _ => none
  | .deliver answer =>
    match s.sender, s.queue with
    | .receiving localAddr, (ob, reply) :: queue =>
      match answer with
      | .ok () =>
        some { s with
          queue
          sent := s.sent ++ [(ob, reply)]
          datagrams := s.datagrams ++ [(localAddr, Socks5UdpCodec.encode reply)] }
      | .error _ => some s.endSender
    | _, _ => none

end Duplex

namespace Socks5UdpDatagram

variable (D : Socks5UdpDatagram)

/-- The address that `local_addr_sender` sends: where the first datagram that is decoded came
from. -/
def localAddrAfter (s : Duplex) (a : Action) (source : SocketAddr) : Option SocketAddr :=
  match a with
  | .recv item _ =>
    match s.assoc.recv, D.next item with
    | .listening, .ok (some _) => some (s.localAddr.getD source)
    | _, _ => s.localAddr
  | _ => s.localAddr

def up (s : Duplex) (a : Action) (source : SocketAddr) : Option Duplex := do
  let assoc ← D.step s.assoc a
  let s := { s with assoc, localAddr := D.localAddrAfter s a source }
  match a with
  -- `local_send_handle.abort()`
  | .close => return s.endSender
  | _ => return s

def duplexStep (s : Duplex) : DuplexAction → Option Duplex
  | .up a source => D.up s a source
  | .down a =>
    match s.assoc.recv with
    -- the thread is blocked in `tx.send`
    | .blocked _ => none
    | _ => s.down a

/-- `Socks5UdpDatagram::run` under a schedule, with both ways. -/
def duplexRun (as : List DuplexAction) : Option Duplex := runFrom D.duplexStep .new as

/-! ### What a step does -/

/-- Every way in which an action changes the state. -/
inductive DuplexStepped (s : Duplex) : DuplexAction → Duplex → Prop
  | up {a : Action} {source : SocketAddr} {assoc : Association}
      (step_eq : D.step s.assoc a = some assoc) (goes_on : a ≠ .close) :
      DuplexStepped s (.up a source)
        { s with assoc, localAddr := D.localAddrAfter s a source }
  | closed {source : SocketAddr} {assoc : Association}
      (step_eq : D.step s.assoc .close = some assoc) :
      DuplexStepped s (.up .close source) { s with assoc, sender := .ended, queue := [] }
  | fetched {ob : String} {reply : Reply} (reads : s.Reads ob)
      (stage_eq : s.reads ob = .receiving) :
      DuplexStepped s (.down (.recvFrom ob (.ok reply)))
        { s.setRead ob (.sending reply) with fetched := s.fetched ++ [(ob, reply)] }
  | failed {ob message : String} (reads : s.Reads ob) (stage_eq : s.reads ob = .receiving) :
      DuplexStepped s (.down (.recvFrom ob (.error message))) (s.setRead ob .ended)
  | pushed {ob : String} {reply : Reply} (reads : s.Reads ob)
      (stage_eq : s.reads ob = .sending reply) (opened : s.sender ≠ .ended)
      (room : s.queue.length < channelSize) :
      DuplexStepped s (.down (.push ob))
        { s.setRead ob .receiving with queue := s.queue ++ [(ob, reply)] }
  | discarded {ob : String} {reply : Reply} (reads : s.Reads ob)
      (stage_eq : s.reads ob = .sending reply) (ended : s.sender = .ended) :
      DuplexStepped s (.down (.push ob)) (s.setRead ob .receiving)
  | learned {localAddr : SocketAddr} (waiting : s.sender = .waiting)
      (addr_eq : s.localAddr = some localAddr) :
      DuplexStepped s (.down .learn) { s with sender := .receiving localAddr }
  | unheard (waiting : s.sender = .waiting) (addr_eq : s.localAddr = none) :
      DuplexStepped s (.down .learn) s.endSender
  | delivered {localAddr : SocketAddr} {ob : String} {reply : Reply}
      {queue : List (String × Reply)} (receiving : s.sender = .receiving localAddr)
      (queue_eq : s.queue = (ob, reply) :: queue) :
      DuplexStepped s (.down (.deliver (.ok ())))
        { s with
          queue
          sent := s.sent ++ [(ob, reply)]
          datagrams := s.datagrams ++ [(localAddr, Socks5UdpCodec.encode reply)] }
  | refused {localAddr : SocketAddr} {message : String}
      (receiving : s.sender = .receiving localAddr) :
      DuplexStepped s (.down (.deliver (.error message))) s.endSender

variable {D} {s s' : Duplex} {a : DuplexAction}

theorem duplexStepped_up {a : Action} {source : SocketAddr} (h : D.up s a source = some s') :
    D.DuplexStepped s (.up a source) s' := by
  obtain ⟨assoc, h_step, h⟩ := Option.bind_eq_some_iff.mp h
  cases a with
  | close =>
    cases h
    exact .closed h_step
  | recv _ _ | built | write _ _ =>
    cases h
    exact .up h_step (fun h_a => by cases h_a)

/-- A step of the way down is one of `DuplexStepped`. -/
theorem duplexStepped_down {a : DownAction} (h : s.down a = some s') :
    D.DuplexStepped s (.down a) s' := by
  cases a with
  | recvFrom ob answer =>
    unfold Duplex.down at h
    dsimp only at h
    split at h
    · next h_stage =>
      split at h
      · next h_reads =>
        cases h
        cases answer with
        | ok reply => exact .fetched h_reads h_stage
        | error message => exact .failed h_reads h_stage
      · cases h
    · cases h
  | push ob =>
    unfold Duplex.down at h
    dsimp only at h
    split at h
    · next reply h_stage =>
      split at h
      · next h_reads =>
        -- the channel is closed, or it has room, or the task waits
        split at h
        · next h_ended =>
          cases h
          exact .discarded h_reads h_stage h_ended
        · next h_opened =>
          split at h
          · next h_room =>
            cases h
            exact .pushed h_reads h_stage h_opened h_room
          · cases h
      · cases h
    · cases h
  | learn =>
    unfold Duplex.down at h
    dsimp only at h
    split at h
    · next h_waiting h_addr =>
      cases h
      exact .learned h_waiting h_addr
    · next h_waiting h_addr _ =>
      cases h
      exact .unheard h_waiting h_addr
    · cases h
  | deliver answer =>
    unfold Duplex.down at h
    dsimp only at h
    split at h
    · next localAddr ob reply queue h_receiving h_queue =>
      cases answer with
      | ok u =>
        cases h
        exact .delivered h_receiving h_queue
      | error message =>
        cases h
        exact .refused h_receiving
    · cases h

/-- **Inversion of a step.** -/
theorem duplexStepped_of_step (h : D.duplexStep s a = some s') : D.DuplexStepped s a s' := by
  cases a with
  | up a source => exact duplexStepped_up h
  | down a =>
    unfold duplexStep at h
    dsimp only at h
    split at h
    · cases h
    · exact duplexStepped_down h

/-! ### Nothing is lost on the way -/

/-- A dead association does not come to life again. -/
theorem live_of_step {s s' : Association} {a : Action} (h : D.step s a = some s')
    (h_live : Live s') : Live s := by
  cases stepped_of_step h with
  | skipped listening _ | refused listening _ | missing listening _ _ _ | opened listening _ _ _
  | queued listening _ _ _ | dropped listening _ _ _ | blocked listening _ _ _ =>
    exact Or.inl listening
  | unread _ | wrote _ _ _ => exact h_live
  | entered building _ | failed building _ => exact Or.inr ⟨_, _, _, _, building⟩
  | closed _ _ =>
    rcases h_live with h_l | ⟨_, _, _, _, h_b⟩
    · cases h_l
    · cases h_b

/-- Entries of `NatMap` stay, or all of them are dropped; and only a live association makes
new ones. -/
theorem lookup_of_step {s s' : Association} {a : Action} (h : D.step s a = some s') (ob : String) :
    (s'.nat = ∅ ∧ ¬Live s') ∨ (s.nat.lookup ob ≠ none → s'.nat.lookup ob ≠ none) ∧
      (s.nat.lookup ob = none → s'.nat.lookup ob ≠ none → Live s) := by
  have h_insert {nat : AList fun _ : String => Outbound} {ob' : String} {o : Outbound}
      (h : nat.lookup ob ≠ none) : (nat.insert ob' o).lookup ob ≠ none := by
    by_cases h_ob : ob = ob'
    · subst h_ob
      rw [AList.lookup_insert]
      exact Option.some_ne_none o
    · rw [AList.lookup_insert_ne h_ob]
      exact h
  have h_same (h_live : Live s) {nat : AList fun _ : String => Outbound}
      (h : s.nat.lookup ob ≠ none → nat.lookup ob ≠ none) :
      (s.nat.lookup ob ≠ none → nat.lookup ob ≠ none) ∧
        (s.nat.lookup ob = none → nat.lookup ob ≠ none → Live s) := ⟨h, fun _ _ => h_live⟩
  cases stepped_of_step h with
  | skipped _ _ | opened _ _ _ _ | dropped _ _ _ _ | blocked _ _ _ _ | unread _ =>
    exact Or.inr ⟨id, fun h_none h_some => (h_some h_none).elim⟩
  | refused _ _ | missing _ _ _ _ | failed _ _ => exact Or.inl ⟨rfl, not_live_of_stopped rfl⟩
  | closed _ _ => exact Or.inl ⟨rfl, not_live_of_closed rfl⟩
  | queued listening _ _ _ => exact Or.inr (h_same (Or.inl listening) h_insert)
  | entered building _ => exact Or.inr (h_same (Or.inr ⟨_, _, _, _, building⟩) h_insert)
  | @wrote ob' _ o _ _ _ nat_eq _ =>
    refine Or.inr ⟨h_insert, fun h_none h_some => ?_⟩
    -- a task that is polled has its entry already
    by_cases h_ob : ob = ob'
    · subst h_ob
      cases nat_eq.symm.trans h_none
    · exact (h_some ((AList.lookup_insert_ne h_ob).trans h_none)).elim

end Socks5UdpDatagram

namespace Duplex

/-- What the way down has done with the replies. -/
structure Delivers (s : Duplex) : Prop where
  queue_le : s.queue.length ≤ channelSize
  /-- nothing comes from a stream before it is there -/
  unopened : Socks5UdpDatagram.Live s.assoc → ∀ ob, ¬s.Reads ob →
    s.reads ob = .receiving ∧ entriesAt s.fetched ob = []
  /-- the replies of an outbound are passed on in order, each of them once -/
  isPrefix : ∀ ob, entriesAt (s.sent ++ s.queue) ob <+: entriesAt s.fetched ob
  /-- and all of them, but for the one that its task has in its hand -/
  kept : s.sender ≠ .ended → ∀ ob, s.Reads ob →
    entriesAt s.fetched ob = entriesAt (s.sent ++ s.queue) ob ++ (s.reads ob).reply.toList
  encoded : s.datagrams.map Prod.snd = s.sent.map fun x => Socks5UdpCodec.encode x.2
  addressed : ∀ d ∈ s.datagrams, s.localAddr = some d.1
  sender_eq : ∀ localAddr, s.sender = .receiving localAddr → s.localAddr = some localAddr

variable {s : Duplex}

theorem delivers_new : Delivers .new where
  queue_le := Nat.zero_le _
  unopened _ _ _ := ⟨rfl, rfl⟩
  isPrefix _ := List.prefix_rfl
  kept _ _ h := (h rfl).elim
  encoded := rfl
  addressed _ h := by cases h
  sender_eq _ h := by cases h

/-- The end of the send task keeps what has been sent. -/
theorem Delivers.endSender (h : s.Delivers) : s.endSender.Delivers where
  queue_le := Nat.zero_le _
  unopened := h.unopened
  isPrefix ob := by
    -- the queue is lost
    refine List.IsPrefix.trans ?_ (h.isPrefix ob)
    show entriesAt (s.sent ++ []) ob <+: _
    rw [List.append_nil, entriesAt_append]
    exact List.prefix_append _ _
  kept h_sender := (h_sender rfl).elim
  encoded := h.encoded
  addressed := h.addressed
  sender_eq _ h_eq := by cases h_eq

theorem reads_setRead_self (s : Duplex) (ob : String) (stage : ReadStage) :
    (s.setRead ob stage).reads ob = stage := Function.update_self _ _ _

theorem reads_setRead_of_ne (s : Duplex) {ob ob' : String} (h : ob' ≠ ob) (stage : ReadStage) :
    (s.setRead ob stage).reads ob' = s.reads ob' := Function.update_of_ne h _ _

/-- A task that is there moves on without a reply in its hand, before or after. -/
theorem Delivers.setRead (h : s.Delivers) {ob : String} {stage : ReadStage} (h_reads : s.Reads ob)
    (h_reply : s.sender ≠ .ended → (s.reads ob).reply = stage.reply) :
    (s.setRead ob stage).Delivers where
  queue_le := h.queue_le
  -- only a task that is there has a hand
  unopened h_live ob' h_ob' := by
    have h_ne : ob' ≠ ob := by
      rintro rfl
      exact h_ob' h_reads
    rw [reads_setRead_of_ne s h_ne]
    exact h.unopened h_live ob' h_ob'
  isPrefix := h.isPrefix
  kept h_sender ob' h_ob' := by
    by_cases h_eq : ob' = ob
    · subst h_eq
      rw [reads_setRead_self, ← h_reply h_sender]
      exact h.kept h_sender ob' h_reads
    · rw [reads_setRead_of_ne s h_eq]
      exact h.kept h_sender ob' h_ob'
  encoded := h.encoded
  addressed := h.addressed
  sender_eq := h.sender_eq

/-- `recv_from` has returned a reply. -/
theorem Delivers.fetch (h : s.Delivers) {ob : String} (h_reads : s.Reads ob)
    (h_stage : s.reads ob = .receiving) (reply : Reply) :
    Delivers { s.setRead ob (.sending reply) with fetched := s.fetched ++ [(ob, reply)] } where
  queue_le := h.queue_le
  unopened h_live ob' h_ob' := by
    have h_ne : ob' ≠ ob := by
      rintro rfl
      exact h_ob' h_reads
    obtain ⟨h_stage', h_nil⟩ := h.unopened h_live ob' h_ob'
    exact ⟨(reads_setRead_of_ne s h_ne _).trans h_stage',
      (entriesAt_concat_of_ne _ h_ne _).trans h_nil⟩
  -- what has been read grows at its end
  isPrefix ob' := by
    show entriesAt (s.sent ++ s.queue) ob' <+: entriesAt (s.fetched ++ [(ob, reply)]) ob'
    rw [entriesAt_append s.fetched]
    exact (h.isPrefix ob').trans (List.prefix_append _ _)
  kept h_sender ob' h_ob' := by
    have h_kept := h.kept h_sender ob' h_ob'
    by_cases h_eq : ob' = ob
    · -- the hand of the task was empty
      subst h_eq
      have h_hand : (s.reads ob').reply.toList = [] := by
        rw [h_stage]
        rfl
      rw [h_hand, List.append_nil] at h_kept
      calc entriesAt (s.fetched ++ [(ob', reply)]) ob'
          = entriesAt (s.sent ++ s.queue) ob' ++ [reply] := by rw [entriesAt_concat_self, h_kept]
        _ = entriesAt (s.sent ++ s.queue) ob' ++
              ((s.setRead ob' (.sending reply)).reads ob').reply.toList := by
            rw [reads_setRead_self]
            rfl
    · -- the other outbounds are where they were
      calc entriesAt (s.fetched ++ [(ob, reply)]) ob'
          = entriesAt s.fetched ob' := entriesAt_concat_of_ne _ h_eq _
        _ = entriesAt (s.sent ++ s.queue) ob' ++ (s.reads ob').reply.toList := h_kept
        _ = entriesAt (s.sent ++ s.queue) ob' ++
              ((s.setRead ob (.sending reply)).reads ob').reply.toList := by
            rw [reads_setRead_of_ne s h_eq]
  encoded := h.encoded
  addressed := h.addressed
  sender_eq := h.sender_eq

/-- A reply goes from the hand of its task into the channel. -/
theorem Delivers.push (h : s.Delivers) {ob : String} {reply : Reply} (h_reads : s.Reads ob)
    (h_stage : s.reads ob = .sending reply) (h_opened : s.sender ≠ .ended)
    (h_room : s.queue.length < channelSize) :
    Delivers { s.setRead ob .receiving with queue := s.queue ++ [(ob, reply)] } where
  -- there was room for one more
  queue_le := by
    show (s.queue ++ [(ob, reply)]).length ≤ channelSize
    rw [List.length_append]
    exact h_room
  unopened h_live ob' h_ob' := by
    have h_ne : ob' ≠ ob := by
      rintro rfl
      exact h_ob' h_reads
    obtain ⟨h_stage', h_nil⟩ := h.unopened h_live ob' h_ob'
    exact ⟨(reads_setRead_of_ne s h_ne _).trans h_stage', h_nil⟩
  isPrefix ob' := by
    show entriesAt (s.sent ++ (s.queue ++ [(ob, reply)])) ob' <+: entriesAt s.fetched ob'
    rw [← List.append_assoc]
    -- in order: what is in the hand has been read after all that is on its way
    by_cases h_eq : ob' = ob
    · subst h_eq
      rw [entriesAt_concat_self, h.kept h_opened ob' h_reads, h_stage]
      exact List.prefix_rfl
    · rw [entriesAt_concat_of_ne _ h_eq]
      exact h.isPrefix ob'
  kept h_sender ob' h_ob' := by
    have h_kept := h.kept h_sender ob' h_ob'
    show entriesAt s.fetched ob' = entriesAt (s.sent ++ (s.queue ++ [(ob, reply)])) ob' ++
      ((s.setRead ob .receiving).reads ob').reply.toList
    rw [← List.append_assoc]
    -- the hand is empty, and the channel has one more
    by_cases h_eq : ob' = ob
    · subst h_eq
      rw [h_stage] at h_kept
      rw [entriesAt_concat_self, reads_setRead_self, h_kept]
      exact (List.append_nil _).symm
    · rw [entriesAt_concat_of_ne _ h_eq, reads_setRead_of_ne s h_eq]
      exact h_kept
  encoded := h.encoded
  addressed := h.addressed
  sender_eq := h.sender_eq

/-- The head of the channel is sent to the client. -/
theorem Delivers.deliver (h : s.Delivers) {localAddr : SocketAddr} {ob : String} {reply : Reply}
    {queue : List (String × Reply)} (h_sender : s.sender = .receiving localAddr)
    (h_queue : s.queue = (ob, reply) :: queue) :
    Delivers { s with
      queue
      sent := s.sent ++ [(ob, reply)]
      datagrams := s.datagrams ++ [(localAddr, Socks5UdpCodec.encode reply)] } := by
  -- what has been sent, and what is in the channel, stay the same together
  have h_both : s.sent ++ [(ob, reply)] ++ queue = s.sent ++ s.queue := by
    rw [h_queue, List.append_assoc]
    rfl
  refine ⟨?_, h.unopened, ?_, ?_, ?_, ?_, h.sender_eq⟩
  · have h_le := h.queue_le
    rw [h_queue] at h_le
    exact (Nat.le_succ _).trans h_le
  · intro ob'
    show entriesAt (s.sent ++ [(ob, reply)] ++ queue) ob' <+: _
    rw [h_both]
    exact h.isPrefix ob'
  · intro h_open ob' h_ob'
    show _ = entriesAt (s.sent ++ [(ob, reply)] ++ queue) ob' ++ _
    rw [h_both]
    exact h.kept h_open ob' h_ob'
  · rw [List.map_append, List.map_append, h.encoded]
    rfl
  · intro d h_d
    rcases List.mem_append.mp h_d with h_d | h_d
    · exact h.addressed d h_d
    · rw [List.mem_singleton.mp h_d]
      exact h.sender_eq localAddr h_sender

/-- `local_send_handle` has been told the address. -/
theorem Delivers.learn (h : s.Delivers) {localAddr : SocketAddr} (h_sender : s.sender = .waiting)
    (h_addr : s.localAddr = some localAddr) :
    Delivers { s with sender := .receiving localAddr } where
  queue_le := h.queue_le
  unopened := h.unopened
  isPrefix := h.isPrefix
  kept _ := h.kept (by rw [h_sender]; exact fun h_eq => by cases h_eq)
  encoded := h.encoded
  addressed := h.addressed
  sender_eq _ h_eq := by
    cases h_eq
    exact h_addr

end Duplex

namespace Socks5UdpDatagram

variable {D : Socks5UdpDatagram} {s s' : Duplex} {a : DuplexAction}

/-- The address is sent once. -/
theorem localAddrAfter_of_some {a : Action} {source localAddr : SocketAddr}
    (h : s.localAddr = some localAddr) : D.localAddrAfter s a source = some localAddr := by
  cases a with
  | recv item W =>
    unfold localAddrAfter
    dsimp only
    split
    · rw [h]
      rfl
    · exact h
  | built | write _ _ | close => exact h

/-- An action of the way up: streams are opened, or all of them are dropped. -/
theorem delivers_up (h : s.Delivers) {a : Action} {source : SocketAddr}
    {assoc : Association} (h_step : D.step s.assoc a = some assoc) :
    Duplex.Delivers { s with assoc, localAddr := D.localAddrAfter s a source } where
  queue_le := h.queue_le
  unopened h_live ob h_ob := by
    apply h.unopened (live_of_step h_step h_live) ob
    intro h_reads
    -- an entry stays, unless all of them are dropped
    rcases lookup_of_step h_step ob with ⟨_, h_dead⟩ | ⟨h_stays, _⟩
    · exact h_dead h_live
    · exact h_ob (h_stays h_reads)
  isPrefix := h.isPrefix
  kept h_sender ob h_ob := by
    -- an entry that is there was there before, or is new
    rcases lookup_of_step h_step ob with ⟨h_nat, _⟩ | ⟨_, h_new⟩
    · exact (h_ob (by rw [h_nat]; rfl)).elim
    · by_cases h_reads : s.Reads ob
      · exact h.kept h_sender ob h_reads
      · -- the stream has just been built
        have h_none : s.assoc.nat.lookup ob = none := not_not.mp h_reads
        obtain ⟨h_stage, h_nil⟩ := h.unopened (h_new h_none h_ob) ob h_reads
        have h_start := h.isPrefix ob
        rw [h_nil, List.prefix_nil] at h_start
        show entriesAt s.fetched ob = entriesAt (s.sent ++ s.queue) ob ++ (s.reads ob).reply.toList
        rw [h_nil, h_start, h_stage]
        rfl
  encoded := h.encoded
  addressed d h_d := localAddrAfter_of_some (h.addressed d h_d)
  sender_eq localAddr h_eq := localAddrAfter_of_some (h.sender_eq localAddr h_eq)

/-- **Every step keeps the replies.** -/
theorem delivers_of_step (h : s.Delivers) (h_step : D.duplexStep s a = some s') : s'.Delivers := by
  -- what each task does to the replies is one lemma of the above
  cases duplexStepped_of_step h_step with
  | up step_eq _ => exact delivers_up h step_eq
  | @closed source assoc step_eq => exact (delivers_up h step_eq : Duplex.Delivers
      { s with assoc, localAddr := D.localAddrAfter s .close source }).endSender
  | fetched reads stage_eq => exact h.fetch reads stage_eq _
  | failed reads stage_eq =>
    apply h.setRead reads
    intro _
    rw [stage_eq]
    rfl
  | pushed reads stage_eq opened room => exact h.push reads stage_eq opened room
  | discarded reads stage_eq ended => exact h.setRead reads fun h_sender => (h_sender ended).elim
  | learned waiting addr_eq => exact h.learn waiting addr_eq
  | unheard _ _ | refused _ => exact h.endSender
  | delivered receiving queue_eq => exact h.deliver receiving queue_eq

theorem delivers_of_run {as : List DuplexAction} (h : D.duplexRun as = some s) : s.Delivers :=
  run_induction (P := fun _ s => s.Delivers) Duplex.delivers_new
    (fun _ _ _ _ _ ih h_step => delivers_of_step ih h_step) h

/-! ### Where replies go -/

/-- Where a datagram came from that the codec decodes. -/
def heard (D : Socks5UdpDatagram) : DuplexAction → Option SocketAddr
  | .up (.recv item _) source =>
    match D.next item with
    | .ok (some _) => some source
    | _ => none
  | _ => none

/-- The address is set by a datagram that is received while the task listens. -/
theorem localAddrAfter_cases (s : Duplex) (a : Action) (source : SocketAddr) :
    D.localAddrAfter s a source = s.localAddr ∧
        (Live s.assoc → D.step s.assoc a ≠ none → D.heard (.up a source) = none) ∨
      -- what is set by the first datagram is kept by the others
      s.assoc.recv = .listening ∧ D.heard (.up a source) = some source ∧
        D.localAddrAfter s a source = some (s.localAddr.getD source) := by
  cases a with
  | recv item W =>
    unfold localAddrAfter heard
    dsimp only
    split
    · next h_recv h_next =>
      -- the task listens, and the codec decodes: the address is there from now on
      rw [h_next]
      exact Or.inr ⟨h_recv, rfl, rfl⟩
    · next h_not =>
      -- it is not, so nothing is heard while the task listens
      refine Or.inl ⟨rfl, ?_⟩
      rintro (h_listening | ⟨ob, builder, packet, W', h_building⟩) h_step
      · split
        · next packet h_next => exact (h_not packet h_listening h_next).elim
        · rfl
      · -- while a stream is built, nothing is received
        refine (h_step ?_).elim
        unfold step
        dsimp only
        rw [h_building]
  | built | write _ _ | close => exact Or.inl ⟨rfl, fun _ _ => rfl⟩

/-- The address of the client is where the first datagram came from. -/
theorem localAddr_of_run {as : List DuplexAction} (h : D.duplexRun as = some s) :
    (Live s.assoc → s.localAddr = as.findSome? D.heard) ∧
      ∀ localAddr, s.localAddr = some localAddr → as.findSome? D.heard = some localAddr := by
  refine run_induction (P := fun as s => (Live s.assoc → s.localAddr = as.findSome? D.heard) ∧
    ∀ localAddr, s.localAddr = some localAddr → as.findSome? D.heard = some localAddr)
    ⟨fun _ => rfl, fun _ h_addr => (by cases h_addr)⟩ ?_ h
  rintro as m a m' - ⟨ih_live, ih_some⟩ h_step
  rw [List.findSome?_append]
  -- what is known already does not change
  have h_same (h_addr : m'.localAddr = m.localAddr)
      (h_none : Live m'.assoc → Live m.assoc ∧ D.heard a = none) :
      (Live m'.assoc → m'.localAddr = (as.findSome? D.heard).or ([a].findSome? D.heard)) ∧
        ∀ localAddr, m'.localAddr = some localAddr →
          (as.findSome? D.heard).or ([a].findSome? D.heard) = some localAddr := by
    rw [h_addr]
    constructor
    · intro h_live
      obtain ⟨h_live, h_heard⟩ := h_none h_live
      rw [ih_live h_live, List.findSome?_cons, h_heard]
      exact (Option.or_none).symm
    · intro localAddr h_some
      rw [ih_some localAddr h_some]
      rfl
  cases duplexStepped_of_step h_step with
  | fetched _ _ | failed _ _ | pushed _ _ _ _ | discarded _ _ _ | learned _ _ | unheard _ _
  | delivered _ _ | refused _ => exact h_same rfl fun h_live => ⟨h_live, rfl⟩
  | closed step_eq => exact h_same rfl fun h_live => ⟨live_of_step step_eq h_live, rfl⟩
  | @up a source assoc step_eq _ =>
    rcases localAddrAfter_cases m a source with ⟨h_addr, h_none⟩ | ⟨h_recv, h_heard, h_addr⟩
    · refine h_same h_addr fun h_live => ?_
      have h_live := live_of_step step_eq h_live
      exact ⟨h_live, h_none h_live (by rw [step_eq]; exact Option.some_ne_none _)⟩
    · -- the first datagram of all, or a later one
      have h_eq : D.localAddrAfter m a source =
          (as.findSome? D.heard).or ([.up a source].findSome? D.heard) := by
        rw [h_addr, ih_live (Or.inl h_recv), List.findSome?_cons, h_heard]
        cases as.findSome? D.heard <;> rfl
      exact ⟨fun _ => h_eq, fun localAddr h_some => h_eq.symm.trans h_some⟩

/-! ### The two ways together -/

/-- The actions of a run on the way up. -/
def ups (as : List DuplexAction) : List Action :=
  as.filterMap fun
    | .up a _ => some a
    | .down _ => none

/-- **The way up does not notice the way down**: it is a run of the association. -/
theorem run_of_duplexRun {as : List DuplexAction} (h : D.duplexRun as = some s) :
    D.run (ups as) = some s.assoc := by
  refine run_induction (P := fun as s => D.run (ups as) = some s.assoc) rfl ?_ h
  intro as m a m' _ ih h_step
  have h_ups : ups (as ++ [a]) = ups as ++ ups [a] := List.filterMap_append
  have h_down (h_nil : ups [a] = []) (h_assoc : m'.assoc = m.assoc) :
      D.run (ups (as ++ [a])) = some m'.assoc := by
    rw [h_ups, h_nil, List.append_nil, h_assoc]
    exact ih
  cases duplexStepped_of_step h_step with
  | fetched _ _ | failed _ _ | pushed _ _ _ _ | discarded _ _ _ | learned _ _ | unheard _ _
  | delivered _ _ | refused _ => exact h_down rfl rfl
  | up step_eq _ | closed step_eq =>
    rw [h_ups]
    exact runFrom_concat.mpr ⟨m.assoc, ih, step_eq⟩

/-- **The way down**: in every run the replies of each outbound reach the client in the order in
which they were read, each of them once, and none is lost while the tasks live; they go to where
the first datagram came from, and a reply whose address can be encoded is decoded there as it
was read. -/
theorem downlink_of_run {as : List DuplexAction} (h : D.duplexRun as = some s) :
    s.Delivers ∧ (∀ d ∈ s.datagrams, as.findSome? D.heard = some d.1) ∧
      ∀ x ∈ s.sent, x.2.2.Encodable →
        Socks5UdpCodec.decode (Socks5UdpCodec.encode x.2) = .ok (some (x.2.2, x.2.1), []) := by
  have h_delivers := delivers_of_run h
  refine ⟨h_delivers, ?_, fun x _ h_x => Socks5UdpCodec.decode_encode h_x⟩
  intro d h_d
  exact (localAddr_of_run h).2 d.1 (h_delivers.addressed d h_d)

/-- Where a client is. -/
def client : SocketAddr := .v4 (BitVec.ofNat 32 0x7F000001) 5000

/-- A datagram of it, and a reply. -/
def oneReply : List DuplexAction :=
  [.up (.recv (datagramTo 1 [7]) .calm) client, .up .built client,
    .down (.recvFrom "direct" (.ok ([9], (packetTo 1 []).1)))]

theorem downlink_of_run_reply :
    ∃ s, directOnly.duplexRun (oneReply ++
        [.down (.push "direct"), .down .learn, .down (.deliver (.ok ()))]) = some s ∧
      s.datagrams = [(client, [0, 0, 0, 1, 10, 0, 0, 1, 0, 53, 9])] ∧ s.Delivers :=
  have h : directOnly.duplexRun (oneReply ++
      [.down (.push "direct"), .down .learn, .down (.deliver (.ok ()))]) = some _ := rfl
  ⟨_, h, rfl, (downlink_of_run h).1⟩

/-! ### Nothing waits for ever -/

/-- The actions that only pass replies on. -/
inductive Forward : DuplexAction → Prop
  | push (ob : String) : Forward (.down (.push ob))
  | learn : Forward (.down .learn)
  | deliver : Forward (.down (.deliver (.ok ())))

/-- The replies of `s` are passed on until `s'`. -/
structure Forwards (D : Socks5UdpDatagram) (s s' : Duplex) : Prop where
  run : ∃ as, (∀ a ∈ as, Forward a) ∧ runFrom D.duplexStep s as = some s'
  assoc_eq : s'.assoc = s.assoc
  fetched_eq : s'.fetched = s.fetched
  /-- no hand is filled -/
  hands : ∀ ob, (s'.reads ob).reply ≠ none → (s.reads ob).reply ≠ none

theorem Forwards.refl (s : Duplex) : Forwards D s s :=
  ⟨⟨[], fun _ h => (by cases h), rfl⟩, rfl, rfl, fun _ => id⟩

/-- Replies can be passed on in stretches. -/
theorem Forwards.trans {m : Duplex} (h : Forwards D s m) (h' : Forwards D m s') :
    Forwards D s s' := by
  obtain ⟨as, h_as, h_run⟩ := h.run
  obtain ⟨as', h_as', h_run'⟩ := h'.run
  refine ⟨⟨as ++ as', ?_, runFrom_append.mpr ⟨m, h_run, h_run'⟩⟩, h'.assoc_eq.trans h.assoc_eq,
    h'.fetched_eq.trans h.fetched_eq, fun ob h_ob => h.hands ob (h'.hands ob h_ob)⟩
  intro a h_a
  rcases List.mem_append.mp h_a with h_a | h_a
  · exact h_as a h_a
  · exact h_as' a h_a

/-- A step that passes replies on. -/
theorem Forwards.of_step {a : DownAction} (h_a : Forward (.down a))
    (h_runs : ∀ ob, s.assoc.recv ≠ .blocked ob) (h : s.down a = some s')
    (h_assoc : s'.assoc = s.assoc) (h_fetched : s'.fetched = s.fetched)
    (h_hands : ∀ ob, (s'.reads ob).reply ≠ none → (s.reads ob).reply ≠ none) :
    Forwards D s s' := by
  refine ⟨⟨[.down a], ?_, ?_⟩, h_assoc, h_fetched, h_hands⟩
  · intro a' h_a'
    rw [List.mem_singleton.mp h_a']
    exact h_a
  · refine runFrom_cons.mpr ⟨s', ?_, rfl⟩
    unfold duplexStep
    dsimp only
    split
    · next ob h_recv => exact (h_runs ob h_recv).elim
    · exact h

/-- A delivery takes the oldest reply of the queue, and it is sent. -/
theorem down_deliver {localAddr : SocketAddr} {ob : String} {reply : Reply}
    {queue : List (String × Reply)} (h_sender : s.sender = .receiving localAddr)
    (h_queue : s.queue = (ob, reply) :: queue) :
    s.down (.deliver (.ok ())) = some { s with
      queue
      sent := s.sent ++ [(ob, reply)]
      datagrams := s.datagrams ++ [(localAddr, Socks5UdpCodec.encode reply)] } := by
  obtain ⟨_, _, _, sender, _, _, _, _⟩ := s
  cases h_sender
  cases h_queue
  rfl

/-- The channel empties. -/
theorem exists_flush {localAddr : SocketAddr} (h_runs : ∀ ob, s.assoc.recv ≠ .blocked ob)
    (h_sender : s.sender = .receiving localAddr) :
    ∃ s', Forwards D s s' ∧ s'.sender = .receiving localAddr ∧ s'.queue = [] ∧
      s'.reads = s.reads := by
  -- on what is in the channel, from its head
  induction h_queue : s.queue generalizing s with
  | nil => exact ⟨s, .refl s, h_sender, h_queue, rfl⟩
  | cons x queue ih =>
    obtain ⟨ob, reply⟩ := x
    let m : Duplex := { s with
      queue
      sent := s.sent ++ [(ob, reply)]
      datagrams := s.datagrams ++ [(localAddr, Socks5UdpCodec.encode reply)] }
    have h_step : s.down (.deliver (.ok ())) = some m := down_deliver h_sender h_queue
    obtain ⟨s', h_forwards, h_sender', h_queue', h_reads'⟩ := ih (s := m) h_runs h_sender rfl
    exact ⟨s', (Forwards.of_step .deliver h_runs h_step rfl rfl fun _ => id).trans h_forwards,
      h_sender', h_queue', h_reads'⟩

/-- The hand of a task empties. -/
theorem exists_pass {localAddr : SocketAddr} (h_runs : ∀ ob, s.assoc.recv ≠ .blocked ob)
    (h_sender : s.sender = .receiving localAddr) (h_queue : s.queue = []) (ob : String) :
    ∃ s', Forwards D s s' ∧ s'.sender = .receiving localAddr ∧ s'.queue = [] ∧
      (s.Reads ob → (s'.reads ob).reply = none) := by
  cases h_stage : s.reads ob with
  -- its hand is empty
  | receiving | ended =>
    refine ⟨s, .refl s, h_sender, h_queue, fun _ => ?_⟩
    rw [h_stage]
    rfl
  | sending reply =>
    by_cases h_reads : s.Reads ob
    · -- the hand goes into the channel, and from there to the client
      let m : Duplex := { s.setRead ob .receiving with queue := s.queue ++ [(ob, reply)] }
      have h_step : s.down (.push ob) = some m := by
        unfold Duplex.down
        dsimp only
        rw [h_stage]
        dsimp only
        rw [if_pos h_reads, if_neg (by rw [h_sender]; exact fun h_eq => by cases h_eq),
          if_pos (by rw [h_queue]; decide)]
      have h_self : m.reads ob = .receiving := Duplex.reads_setRead_self s ob _
      -- no other hand fills
      have h_hands : ∀ ob', (m.reads ob').reply ≠ none → (s.reads ob').reply ≠ none := by
        intro ob' h_ob'
        by_cases h_eq : ob' = ob
        · subst h_eq
          rw [h_self] at h_ob'
          exact (h_ob' rfl).elim
        · rwa [show m.reads ob' = s.reads ob' from Duplex.reads_setRead_of_ne s h_eq _] at h_ob'
      obtain ⟨s', h_forwards, h_sender', h_queue', h_reads'⟩ :=
        exists_flush (D := D) (s := m) h_runs h_sender
      refine ⟨s', (Forwards.of_step (.push ob) h_runs h_step rfl rfl h_hands).trans h_forwards,
        h_sender', h_queue', fun _ => ?_⟩
      rw [h_reads', h_self]
      rfl
    · -- no task has this hand
      exact ⟨s, .refl s, h_sender, h_queue, fun h => (h_reads h).elim⟩

/-- The hands of a list of tasks empty, one after the other. -/
theorem exists_passAll {localAddr : SocketAddr} (h_runs : ∀ ob, s.assoc.recv ≠ .blocked ob)
    (h_sender : s.sender = .receiving localAddr) (h_queue : s.queue = []) (obs : List String) :
    ∃ s', Forwards D s s' ∧ s'.sender = .receiving localAddr ∧ s'.queue = [] ∧
      ∀ ob ∈ obs, s.Reads ob → (s'.reads ob).reply = none := by
  induction obs generalizing s with
  | nil => exact ⟨s, .refl s, h_sender, h_queue, fun _ h => (by cases h)⟩
  -- the first one, then the others
  | cons ob obs ih =>
    obtain ⟨m, h_m, h_sender_m, h_queue_m, h_ob⟩ :=
      exists_pass (D := D) h_runs h_sender h_queue ob
    have h_runs_m : ∀ ob, m.assoc.recv ≠ .blocked ob := by
      rw [h_m.assoc_eq]
      exact h_runs
    obtain ⟨s', h_s', h_sender', h_queue', h_obs⟩ := ih h_runs_m h_sender_m h_queue_m
    refine ⟨s', h_m.trans h_s', h_sender', h_queue', ?_⟩
    intro ob' h_mem h_reads
    rcases List.mem_cons.mp h_mem with rfl | h_mem
    · -- what was emptied first is still empty
      by_contra h_full
      exact h_s'.hands ob' h_full (h_ob h_reads)
    · apply h_obs ob' h_mem
      unfold Duplex.Reads at h_reads ⊢
      rw [h_m.assoc_eq]
      exact h_reads

/-- **Everything that was read can be sent**: while the tasks live, and the thread is not blocked,
passing replies on is all it takes for each of them to reach the client. -/
theorem drains {as : List DuplexAction} (h : D.duplexRun as = some s) {localAddr : SocketAddr}
    (h_runs : ∀ ob, s.assoc.recv ≠ .blocked ob) (h_addr : s.localAddr = some localAddr)
    (h_sender : s.sender ≠ .ended) :
    ∃ s', Forwards D s s' ∧
      ∀ ob, s.Reads ob → entriesAt s'.sent ob = entriesAt s.fetched ob := by
  -- the sender learns the address if it has not yet
  obtain ⟨m, h_m, h_sender_m⟩ : ∃ m, Forwards D s m ∧ m.sender = .receiving localAddr := by
    cases h_stage : s.sender with
    | waiting =>
      have h_step : s.down .learn = some { s with sender := .receiving localAddr } := by
        unfold Duplex.down
        dsimp only
        rw [h_stage, h_addr]
      exact ⟨_, .of_step .learn h_runs h_step rfl rfl fun _ => id, rfl⟩
    | receiving localAddr' =>
      have h_eq := (delivers_of_run h).sender_eq localAddr' h_stage
      cases h_addr.symm.trans h_eq
      exact ⟨s, .refl s, h_stage⟩
    | ended => exact (h_sender h_stage).elim
  have h_runs_m : ∀ ob, m.assoc.recv ≠ .blocked ob := by
    rw [h_m.assoc_eq]
    exact h_runs
  obtain ⟨m', h_m', h_sender_m', h_queue, -⟩ := exists_flush (D := D) h_runs_m h_sender_m
  have h_runs_m' : ∀ ob, m'.assoc.recv ≠ .blocked ob := by
    rw [h_m'.assoc_eq]
    exact h_runs_m
  obtain ⟨s', h_s', h_sender', h_queue', h_hands⟩ :=
    exists_passAll (D := D) h_runs_m' h_sender_m' h_queue s.assoc.nat.keys
  have h_all := (h_m.trans h_m').trans h_s'
  refine ⟨s', h_all, ?_⟩
  intro ob h_reads
  have h_reads_m' : m'.Reads ob := by
    unfold Duplex.Reads
    rw [(h_m.trans h_m').assoc_eq]
    exact h_reads
  have h_reads' : s'.Reads ob := by
    unfold Duplex.Reads
    rw [h_all.assoc_eq]
    exact h_reads
  have h_mem : ob ∈ s.assoc.nat.keys := by
    by_contra h_not
    exact h_reads (AList.lookup_eq_none.mpr h_not)
  -- nothing is on the way any more, so all that was read has been sent
  obtain ⟨as', -, h_run'⟩ := h_all.run
  have h_kept := (delivers_of_run (runFrom_append.mpr ⟨s, h, h_run'⟩)).kept
    (by rw [h_sender']; exact fun h_eq => by cases h_eq) ob h_reads'
  rw [h_queue', List.append_nil, h_hands ob h_mem h_reads_m', h_all.fetched_eq] at h_kept
  rw [h_kept]
  exact (List.append_nil _).symm

theorem drains_reply :
    ∃ s s', directOnly.duplexRun oneReply = some s ∧ Forwards directOnly s s' ∧
      entriesAt s'.sent "direct" = [([9], (packetTo 1 []).1)] := by
  have h : directOnly.duplexRun oneReply = some _ := rfl
  obtain ⟨s', h_forwards, h_sent⟩ := drains h (fun _ h_eq => by cases h_eq)
    (show _ = some client from rfl) (fun h_eq => by cases h_eq)
  refine ⟨_, s', h, h_forwards, (h_sent "direct" ?_).trans rfl⟩
  exact Option.some_ne_none (Outbound.new (packetTo 1 [7]))

/-! ### What has failed is not tried again -/

/-- A stream is not built twice. -/
theorem built_of_step {as : List Action} {s s' : Association} {a : Action} {ob : String}
    (h_run : D.run as = some s) (h : D.step s a = some s')
    (h_there : s.nat.lookup ob ≠ none ∨ ¬Live s) :
    entriesAt s'.built ob = entriesAt s.built ob := by
  cases stepped_of_step h with
  | @entered ob' builder packet W stream building _ =>
    have h_ne : ob ≠ ob' := by
      rintro rfl
      rcases h_there with h_some | h_dead
      · exact h_some (lookup_of_building h_run building)
      · exact h_dead (Or.inr ⟨_, _, _, _, building⟩)
    exact entriesAt_concat_of_ne _ h_ne _
  | skipped _ _ | opened _ _ _ _ | dropped _ _ _ _ | blocked _ _ _ _ | unread _ | refused _ _
  | missing _ _ _ _ | failed _ _ | closed _ _ | queued _ _ _ _ | wrote _ _ _ => rfl

/-- An outbound whose read task has failed, and what it had done by then. -/
structure Silent (s₀ s : Duplex) (ob : String) : Prop where
  ended : s.reads ob = .ended
  there : s.Reads ob ∨ ¬Live s.assoc
  fetched_eq : entriesAt s.fetched ob = entriesAt s₀.fetched ob
  built_eq : entriesAt s.assoc.built ob = entriesAt s₀.assoc.built ob

/-- A step keeps a silent outbound silent. -/
theorem Silent.step {s₀ : Duplex} {as : List DuplexAction} {ob : String}
    (h_run : D.duplexRun as = some s) (h : Silent s₀ s ob) (h_step : D.duplexStep s a = some s') :
    Silent s₀ s' ob := by
  -- only tasks that have not failed move
  have h_read {ob' : String} (stage : ReadStage) (h_ne : s.reads ob' ≠ .ended) :
      ob ≠ ob' ∧ (s.setRead ob' stage).reads ob = .ended := by
    have h_ob : ob ≠ ob' := by
      rintro rfl
      exact h_ne h.ended
    exact ⟨h_ob, (Duplex.reads_setRead_of_ne s h_ob stage).trans h.ended⟩
  have h_up {a : Action} {assoc : Association} (h_assoc : D.step s.assoc a = some assoc) :
      (assoc.nat.lookup ob ≠ none ∨ ¬Live assoc) ∧
        entriesAt assoc.built ob = entriesAt s₀.assoc.built ob := by
    refine ⟨?_, (built_of_step (run_of_duplexRun h_run) h_assoc h.there).trans h.built_eq⟩
    rcases lookup_of_step h_assoc ob with ⟨_, h_dead⟩ | ⟨h_stays, _⟩
    · exact Or.inr h_dead
    · rcases h.there with h_there | h_dead
      · exact Or.inl (h_stays h_there)
      · exact Or.inr fun h_live => h_dead (live_of_step h_assoc h_live)
  cases duplexStepped_of_step h_step with
  | up step_eq _ | closed step_eq =>
    exact ⟨h.ended, (h_up step_eq).1, h.fetched_eq, (h_up step_eq).2⟩
  | @fetched ob' reply reads stage_eq =>
    obtain ⟨h_ne, h_stage⟩ := h_read (.sending reply)
      (by rw [stage_eq]; exact fun h_eq => by cases h_eq)
    exact ⟨h_stage, h.there, (entriesAt_concat_of_ne _ h_ne _).trans h.fetched_eq, h.built_eq⟩
  | failed reads stage_eq =>
    obtain ⟨_, h_stage⟩ := h_read .ended
      (by rw [stage_eq]; exact fun h_eq => by cases h_eq)
    exact ⟨h_stage, h.there, h.fetched_eq, h.built_eq⟩
  | pushed reads stage_eq _ _ | discarded reads stage_eq _ =>
    obtain ⟨_, h_stage⟩ := h_read .receiving
      (by rw [stage_eq]; exact fun h_eq => by cases h_eq)
    exact ⟨h_stage, h.there, h.fetched_eq, h.built_eq⟩
  | learned _ _ | unheard _ _ | delivered _ _ | refused _ =>
    exact ⟨h.ended, h.there, h.fetched_eq, h.built_eq⟩

/-- **A failed read silences the outbound**: whatever comes later, no reply of it is read any more
in this association, and no other stream is built for it. -/
theorem silent_of_run {as as' : List DuplexAction} {ob : String} (h : D.duplexRun as = some s)
    (h_ended : s.reads ob = .ended) (h' : runFrom D.duplexStep s as' = some s') :
    entriesAt s'.fetched ob = entriesAt s.fetched ob ∧
      entriesAt s'.sent ob <+: entriesAt s.fetched ob ∧
      entriesAt s'.assoc.built ob = entriesAt s.assoc.built ob := by
  have h_there : s.Reads ob ∨ ¬Live s.assoc := by
    by_contra h_not
    obtain ⟨h_reads, h_live⟩ := not_or.mp h_not
    have h_stage := ((delivers_of_run h).unopened (not_not.mp h_live) ob h_reads).1
    cases h_ended.symm.trans h_stage
  have h_silent : Silent s s' ob := by
    refine run_induction (P := fun _ s' => Silent s s' ob) ⟨h_ended, h_there, rfl, rfl⟩ ?_ h'
    intro as'' m a m' h_run ih h_step
    exact ih.step (runFrom_append.mpr ⟨s, h, h_run⟩) h_step
  have h_start := (delivers_of_run (runFrom_append.mpr ⟨s, h, h'⟩)).isPrefix ob
  rw [h_silent.fetched_eq, entriesAt_append] at h_start
  exact ⟨h_silent.fetched_eq, (List.prefix_append _ _).trans h_start, h_silent.built_eq⟩

/-- A read that fails, and then another datagram of the client. -/
theorem silent_of_run_failed :
    ∃ s s', directOnly.duplexRun
        [.up (.recv (datagramTo 1 [7]) .calm) client, .up .built client,
          .down (.recvFrom "direct" (.error "aead failed"))] = some s ∧
      runFrom directOnly.duplexStep s [.up (.recv (datagramTo 1 [8]) .calm) client] = some s' ∧
      entriesAt s'.fetched "direct" = [] :=
  have h : directOnly.duplexRun
      [.up (.recv (datagramTo 1 [7]) .calm) client, .up .built client,
        .down (.recvFrom "direct" (.error "aead failed"))] = some _ := rfl
  have h' : runFrom directOnly.duplexStep _
      [.up (.recv (datagramTo 1 [8]) .calm) client] = some _ := rfl
  ⟨_, _, h, h', (silent_of_run h rfl h').1⟩

end Socks5UdpDatagram

end V2ray

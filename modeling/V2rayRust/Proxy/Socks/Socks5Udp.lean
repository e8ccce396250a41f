import V2rayRust.Config.Route
import V2rayRust.Lib.Grouped
import V2rayRust.Lib.Poll
import V2rayRust.Lib.Tasks
import V2rayRust.Proxy.AddressRead

/-!
# SOCKS5 UDP associations

`Socks5UdpDatagram::run` of `proxy/socks/socks5.rs`, on the way from the client: one task
receives datagrams, and for each outbound there is a task that writes what it finds in its
watch cell. All tasks are on one thread; an action of the model takes a task from one `await`
to the next, and the receive task may be suspended in `build_udp`. A `send_to` is polled with
the guard of `rx.borrow()` held, and `tx.send` waits for the guard by blocking the thread.

What a schedule does to one outbound is the list of its `marks`, and every condition on
schedules is one on marks.
-/

namespace V2ray

open Address

/-! ### The codec -/

namespace Socks5UdpCodec

/-- `Socks5UdpCodec::decode`: the frame, and what it leaves in `src`. -/
def decode (src : List UInt8) :
    Except Stop (Option (Address × List UInt8) × List UInt8) :=
  match src with
  | _ :: _ :: frag :: src =>
    if frag ≠ 0 then .error (newError "socks5 frag packet is not supported!")
    else do
      let dstAddr ← readFromBuf src
      if src.length < dstAddr.serializedLen then throw (.fault .outOfBounds)
      return (some (dstAddr, src.drop dstAddr.serializedLen), [])
  | src => .ok (none, src)

end Socks5UdpCodec

/-- A target, and what is to be sent there. -/
abbrev Packet := Address × List UInt8

/-! ### The tasks -/

/-- Where the write task of an outbound is suspended. -/
inductive WriteStage
  /-- before its first poll -/
  | start
  /-- in `send_to`, with the guard of `rx.borrow()` -/
  | sending
  /-- in `rx.changed()` -/
  | waiting
  /-- `send_to` has failed, and `rx` is dropped -/
  | finished
  deriving DecidableEq, Repr

/-- An entry of `NatMap`: the cell that `tx` and `rx` share, the version that `rx` has seen, and
the write task. -/
structure Outbound where
  cell : Watch Packet
  seen : ℕ
  stage : WriteStage
  deriving DecidableEq

namespace Outbound

def new (first : Packet) : Outbound := ⟨.channel first, 0, .start⟩

/-- A poll of the write task up to its poll of `send_to`, and the packet if that is a new call;
`none` if the task stays suspended in `changed`. -/
def borrow (o : Outbound) : Option (Outbound × Option Packet) :=
  match o.stage with
  | .start => some (o, some o.cell.value)
  | .sending => some (o, none)
  | .waiting =>
    if o.seen < o.cell.version then some ({ o with seen := o.cell.version }, some o.cell.value)
    else none
  | .finished => none

/-- Where a poll of `send_to` leaves the task. -/
def answered (o : Outbound) : Poll (Except String ℕ) → Outbound
  | .pending => { o with stage := .sending }
  | .ready (.ok _) => { o with stage := .waiting }
  | .ready (.error _) => { o with stage := .finished }

end Outbound

/-- Where the receive task is. -/
inductive RecvStage
  /-- in `r.next()` -/
  | listening
  /-- in `build_udp`, for the packet that came first -/
  | building (ob : String) (builder : ChainStreamBuilder) (packet : Packet) (W : World)
  /-- it blocks the thread in `tx.send` -/
  | blocked (ob : String)
  /-- it has ended -/
  | stopped
  /-- the TCP stream of the association has ended, and with it every task -/
  | closed

/-- What the socket yields to `UdpFramed`. -/
abbrev Received := Except String (List UInt8)

/-- The arguments of `run`, and what `UdpFramed` makes of bytes that `decode` leaves: the error
it yields, or nothing. -/
structure Socks5UdpDatagram where
  R : RouteWorld
  router : Router
  innerMap : Config.InnerMap
  peerIp : IpAddr
  leftover : List UInt8 → Option String

/-- The state of an association, with the logs of what it has done. -/
structure Association where
  recv : RecvStage
  nat : AList fun _ : String => Outbound
  /-- the datagrams that the receive task has been woken for -/
  received : ℕ
  /-- which of them were given to an outbound -/
  handed : List (ℕ × String × Packet)
  /-- the streams that were built, and for which target -/
  built : List (String × Address × Stream)
  /-- the calls of `send_to` -/
  sends : List (String × Packet)
  /-- its polls -/
  polls : List (String × Packet × Poll (Except String ℕ))

inductive Action
  /-- The socket yields; a stream that is built for the datagram is built in `W`. -/
  | recv (item : Received) (W : World)
  /-- `build_udp` returns. -/
  | built
  /-- The write task of an outbound is polled, and `send_to` answers. -/
  | write (ob : String) (answer : Poll (Except String ℕ))
  /-- `stream.read` returns. -/
  | close

namespace Association

def new : Association := ⟨.listening, ∅, 0, [], [], [], []⟩

/-- The receive task ends, and `NatMap` is dropped, which aborts the other tasks. -/
def stop (s : Association) : Association := { s with recv := .stopped, nat := ∅ }

/-- A packet for an outbound that exists: `let _ = tx.send(..)`. -/
def send (s : Association) (ob : String) (o : Outbound) (packet : Packet) : Association :=
  match o.stage with
  | .sending => { s with recv := .blocked ob }
  | .finished => s
  | _ =>
    { s with nat := s.nat.insert ob { o with cell := o.cell.send packet }
             handed := s.handed ++ [(s.received, ob, packet)] }

/-- A poll of the write task of `ob`. -/
def write (s : Association) (ob : String) (answer : Poll (Except String ℕ)) :
    Option Association := do
  let o ← s.nat.lookup ob
  let (o, call) ← o.borrow
  return { s with nat := s.nat.insert ob (o.answered answer)
                  sends := s.sends ++ call.toList.map (ob, ·)
                  polls := s.polls ++ [(ob, o.cell.value, answer)] }

end Association

namespace Socks5UdpDatagram

variable (D : Socks5UdpDatagram)

/-- What `r.next()` yields, if it yields. -/
def next : Received → Except Stop (Option Packet)
  | .error message => .error (.err message)
  | .ok datagram => do
    match ← Socks5UdpCodec.decode datagram with
    | (some frame, _) => return some frame
    | (none, rest) =>
      match D.leftover rest with
      | some message => throw (.err message)
      | none => return none

/-- The packet of a datagram, and the outbound for it. -/
def route (item : Received) : Except Stop (Option (String × Packet)) := do
  match ← D.next item with
  | some packet => return some (← Stop.ofFault (D.router.matchAddr D.R packet.1), packet)
  | none => return none

/-- A round of the loop in `local_recv_handle`, up to its next `await`. -/
def receive (s : Association) (item : Received) (W : World) : Association :=
  match D.route item with
  | .error _ => s.stop
  | .ok none => s
  | .ok (some (ob, packet)) =>
    match s.nat.lookup ob with
    | some o => s.send ob o packet
    | none =>
      match D.innerMap.lookup ob with
      | some builder => { s with recv := .building ob builder packet W }
      | none => s.stop

/-- `build_udp(target_addr.clone(), peer_ip)` -/
def buildFor (builder : ChainStreamBuilder) (W : World) (target : Address) : Except Stop Stream :=
  (builder.buildUdp W target D.peerIp).result

/-- The rest of that round, when `build_udp` has returned. -/
def enter (s : Association) (ob : String) (builder : ChainStreamBuilder) (packet : Packet)
    (W : World) : Association :=
  match D.buildFor builder W packet.1 with
  | .error _ => s.stop
  | .ok stream =>
    { s with recv := .listening
             nat := s.nat.insert ob (.new packet)
             handed := s.handed ++ [(s.received, ob, packet)]
             built := s.built ++ [(ob, packet.1, stream)] }

def step (s : Association) : Action → Option Association
  | .recv item W =>
    match s.recv with
    | .listening => some (D.receive { s with received := s.received + 1 } item W)
    -- the datagram comes, and nobody receives it
    | .stopped | .blocked _ => some { s with received := s.received + 1 }
    | .building .. | .closed => none
  | .built =>
    match s.recv with
    | .building ob builder packet W => some (D.enter s ob builder packet W)
    | _ => none
  | .write ob answer =>
    match s.recv with
    | .blocked _ => none
    | _ => s.write ob answer
  | .close =>
    match s.recv with
    | .blocked _ | .closed => none
    | _ => some { s with recv := .closed, nat := ∅ }

/-- `Socks5UdpDatagram::run` under a schedule. -/
def run (as : List Action) : Option Association := runFrom D.step .new as

/-! ### What a step does -/

/-- The receive task serves the association. -/
def Live (s : Association) : Prop := s.recv = .listening ∨ ∃ ob b p W, s.recv = .building ob b p W

/-- Every way in which an action changes the state. -/
inductive Stepped (s : Association) : Action → Association → Prop
  | skipped {item : Received} {W : World} (listening : s.recv = .listening)
      (route_eq : D.route item = .ok none) :
      Stepped s (.recv item W) { s with received := s.received + 1 }
  | refused {item : Received} {W : World} {e : Stop} (listening : s.recv = .listening)
      (route_eq : D.route item = .error e) :
      Stepped s (.recv item W) { s with received := s.received + 1, recv := .stopped, nat := ∅ }
  | missing {item : Received} {W : World} {ob : String} {packet : Packet}
      (listening : s.recv = .listening) (route_eq : D.route item = .ok (some (ob, packet)))
      (nat_eq : s.nat.lookup ob = none) (innerMap_eq : D.innerMap.lookup ob = none) :
      Stepped s (.recv item W) { s with received := s.received + 1, recv := .stopped, nat := ∅ }
  | opened {item : Received} {W : World} {ob : String} {packet : Packet}
      {builder : ChainStreamBuilder} (listening : s.recv = .listening)
      (route_eq : D.route item = .ok (some (ob, packet))) (nat_eq : s.nat.lookup ob = none)
      (innerMap_eq : D.innerMap.lookup ob = some builder) :
      Stepped s (.recv item W)
        { s with received := s.received + 1, recv := .building ob builder packet W }
  | queued {item : Received} {W : World} {ob : String} {packet : Packet} {o : Outbound}
      (listening : s.recv = .listening) (route_eq : D.route item = .ok (some (ob, packet)))
      (nat_eq : s.nat.lookup ob = some o) (stage_eq : o.stage = .start ∨ o.stage = .waiting) :
      Stepped s (.recv item W)
        { s with received := s.received + 1
                 nat := s.nat.insert ob { o with cell := o.cell.send packet }
                 handed := s.handed ++ [(s.received + 1, ob, packet)] }
  | dropped {item : Received} {W : World} {ob : String} {packet : Packet} {o : Outbound}
      (listening : s.recv = .listening) (route_eq : D.route item = .ok (some (ob, packet)))
      (nat_eq : s.nat.lookup ob = some o) (stage_eq : o.stage = .finished) :
      Stepped s (.recv item W) { s with received := s.received + 1 }
  | blocked {item : Received} {W : World} {ob : String} {packet : Packet} {o : Outbound}
      (listening : s.recv = .listening) (route_eq : D.route item = .ok (some (ob, packet)))
      (nat_eq : s.nat.lookup ob = some o) (stage_eq : o.stage = .sending) :
      Stepped s (.recv item W) { s with received := s.received + 1, recv := .blocked ob }
  | unread {item : Received} {W : World} (dead : s.recv = .stopped ∨ ∃ ob, s.recv = .blocked ob) :
      Stepped s (.recv item W) { s with received := s.received + 1 }
  | entered {ob : String} {builder : ChainStreamBuilder} {packet : Packet} {W : World}
      {stream : Stream} (building : s.recv = .building ob builder packet W)
      (build_eq : D.buildFor builder W packet.1 = .ok stream) :
      Stepped s .built
        { s with recv := .listening
                 nat := s.nat.insert ob (.new packet)
                 handed := s.handed ++ [(s.received, ob, packet)]
                 built := s.built ++ [(ob, packet.1, stream)] }
  | failed {ob : String} {builder : ChainStreamBuilder} {packet : Packet} {W : World} {e : Stop}
      (building : s.recv = .building ob builder packet W)
      (build_eq : D.buildFor builder W packet.1 = .error e) :
      Stepped s .built { s with recv := .stopped, nat := ∅ }
  | wrote {ob : String} {answer : Poll (Except String ℕ)} {o o' : Outbound}
      {call : Option Packet} (runs : ∀ ob, s.recv ≠ .blocked ob)
      (nat_eq : s.nat.lookup ob = some o) (borrow_eq : o.borrow = some (o', call)) :
      Stepped s (.write ob answer)
        { s with nat := s.nat.insert ob (o'.answered answer)
                 sends := s.sends ++ call.toList.map (ob, ·)
                 polls := s.polls ++ [(ob, o'.cell.value, answer)] }
  | closed (runs : ∀ ob, s.recv ≠ .blocked ob) (opened : s.recv ≠ .closed) :
      Stepped s .close { s with recv := .closed, nat := ∅ }

variable {D} {s s' : Association} {a : Action}

/-- What the receive task does with a datagram is one of the steps. -/
theorem stepped_receive {item : Received} {W : World} (h : s.recv = .listening) :
    D.Stepped s (.recv item W) (D.receive { s with received := s.received + 1 } item W) := by
  -- one kind of step for each branch of the source
  unfold receive
  split
  · next h_route => exact .refused h h_route
  · next h_route => exact .skipped h h_route
  · next ob packet h_route =>
    split
    · next o h_nat =>
      unfold Association.send
      split
      · next h_stage => exact .blocked h h_route h_nat h_stage
      · next h_stage => exact .dropped h h_route h_nat h_stage
      · next h_sending h_finished =>
        refine .queued h h_route h_nat ?_
        cases h_stage : o.stage with
        | start => exact Or.inl rfl
        | waiting => exact Or.inr rfl
        | sending => exact (h_sending h_stage).elim
        | finished => exact (h_finished h_stage).elim
    · next h_nat =>
      split
      · next builder h_map => exact .opened h h_route h_nat h_map
      · next h_map => exact .missing h h_route h_nat h_map

theorem stepped_write {ob : String} {answer : Poll (Except String ℕ)}
    (h_runs : ∀ ob, s.recv ≠ .blocked ob) (h : s.write ob answer = some s') :
    D.Stepped s (.write ob answer) s' := by
  obtain ⟨o, h_nat, h⟩ := Option.bind_eq_some_iff.mp h
  obtain ⟨⟨o', call⟩, h_borrow, h⟩ := Option.bind_eq_some_iff.mp h
  obtain rfl := Option.some.inj h
  exact .wrote h_runs h_nat h_borrow

/-- **Inversion of a step.** -/
theorem stepped_of_step (h : D.step s a = some s') : D.Stepped s a s' := by
  cases a with
  | recv item W =>
    unfold step at h
    dsimp only at h
    -- a datagram comes: the task listens, or it has ended, or it is blocked
    split at h
    · next h_recv =>
      obtain rfl := Option.some.inj h
      exact stepped_receive h_recv
    · next h_recv =>
      obtain rfl := Option.some.inj h
      exact .unread (Or.inl h_recv)
    · next ob h_recv =>
      obtain rfl := Option.some.inj h
      exact .unread (Or.inr ⟨ob, h_recv⟩)
    · cases h
    · cases h
  | built =>
    unfold step at h
    dsimp only at h
    -- the stream is built only while the task waits for it
    split at h
    · next ob builder packet W h_recv =>
      obtain rfl := Option.some.inj h
      unfold enter
      split
      · next h_build => exact .failed h_recv h_build
      · next h_build => exact .entered h_recv h_build
    · cases h
  | write ob answer =>
    unfold step at h
    dsimp only at h
    split at h
    · cases h
    · next h_runs => exact stepped_write h_runs h
  | close =>
    unfold step at h
    dsimp only at h
    split at h
    · cases h
    · cases h
    · next h_runs h_open =>
      obtain rfl := Option.some.inj h
      exact .closed h_runs h_open

end Socks5UdpDatagram

end V2ray

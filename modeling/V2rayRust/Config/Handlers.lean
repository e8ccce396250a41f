import V2rayRust.Config.Stats
import V2rayRust.Proxy.AddressText
import V2rayRust.Proxy.ChainPanic

/-!
# Handlers

What a server does with what its clients ask for: the closures of `run` in
`config/server_builder.rs`, the CONNECT and the plain requests of `proxy/http`, and the datagrams of
a SOCKS5 association. Each of them routes an address, takes the chain of the outbound by `unwrap`,
and builds a stream through it; each has its own way with a black hole. `answer` is a handler up to
that stream, and the relay that follows is not part of it. For the network the handlers are all the
same (`answer_of_dest`), and what can panic in them before the relay is decided by the rules and the
chains (`answer_panicFree_iff`).
-/

namespace V2ray

open Stats

/-- What the handlers of a server share. -/
structure Handlers where
  server : ConfigServerBuilder
  /-- `COUNTER_MAP`, if the API server is enabled -/
  counters : Option CounterMap

/-- What a client asks for, and of which handler. -/
inductive Asked
  /-- a SOCKS5 client, by CONNECT -/
  | socks (addr : Address)
  /-- a datagram of a SOCKS5 client, the first one for its outbound -/
  | datagram (targetAddr : Address) (peerIp : IpAddr)
  /-- an HTTP client, by CONNECT -/
  | connect (authority : Option String)
  /-- an HTTP client, by another request -/
  | request (uri : Uri)
  /-- a client of a dokodemo door, which may have a target -/
  | door (targetAddr : Option Address) (localAddr : SocketAddr)

namespace Handlers

variable (W : World) (R : RouteWorld) (H : Handlers)

/-- `router.match_addr(&addr)`, and `inner_map.get(ob).unwrap()` -/
def outbound (addr : Address) : Except Stop (String × ChainStreamBuilder) := do
  let ob ← Stop.ofFault (H.server.router.matchAddr R addr)
  return (ob, ← unwrap "inner_map.get(ob)" (H.server.innerMap.lookup ob))

/-- The `unwrap`s of the counters before a relay. -/
def relayCounters (inTag ob : String) : Except Stop Unit :=
  -- `run` takes those of an inbound before it binds it; no name is removed from the map
  match H.counters with
  | none => .ok ()
  | some map => do
    let _ ← unwrap "out_down" (map.lookup (counterName .outbound ob .downlink))
    let _ ← unwrap "out_up" (map.lookup (counterName .outbound ob .uplink))
    let _ ← unwrap "in_up" (map.lookup (counterName .inbound inTag .uplink))
    let _ ← unwrap "in_down" (map.lookup (counterName .inbound inTag .downlink))
    return ()

/-- The handler of a SOCKS5 client, after `init`: the stream that it relays to. -/
def socksConnect (inTag : String) (addr : Address) : Trace Call Stop Stream := do
  let (ob, streamBuilder) ← .lift (H.outbound R addr)
  let outStream ← streamBuilder.buildTcp W addr
  .lift (H.relayCounters inTag ob)
  return outStream

/-- `local_recv_handle` of `Socks5UdpDatagram::run`, where the outbound has no sender yet. -/
def associate (targetAddr : Address) (peerIp : IpAddr) : Trace Call Stop Stream := do
  let (_, streamBuilder) ← .lift (H.outbound R targetAddr)
  streamBuilder.buildUdp W targetAddr peerIp

/-- `tunnel` -/
def tunnel (inTag : String) (addr : Address) : Trace Call Stop (Option Stream) := do
  let (ob, streamBuilder) ← .lift (H.outbound R addr)
  if streamBuilder.isBlackHole then return none
  else
    let server ← streamBuilder.buildTcp W addr
    .lift (H.relayCounters inTag ob)
    return some server

/-- `proxy_connect`: without an address the answer is a bad request, and nothing else is done. -/
def proxyConnect (inTag : String) (authority : Option String) : Trace Call Stop (Option Stream) :=
  match Address.hostAddr authority with
  | some addr => H.tunnel W R inTag addr
  | none => return none

/-- `is_tls_scheme` -/
def isTlsScheme (uri : Uri) : Bool := uri.scheme = some "https" || uri.scheme = some "wss"

/-- `Connector::call` -/
def call (uri : Uri) : Trace Call Stop Stream :=
  match Address.callAddr uri.authority with
  | .ok addr =>
    if isTlsScheme uri then
      .lift (.error (.err ("HTTP inbound target URI is tls and the client is not using CONNECT " ++
        "method.")))
    else do
      let (_, streamBuilder) ← .lift (H.outbound R addr)
      if streamBuilder.isBlackHole then
        .lift (.error (.err "HTTP inbound target URI is in blackhole"))
      else streamBuilder.buildTcp W addr
  | .error _ => .lift (.error (.err "URI must be a valid Address"))

/-- The handler of a dokodemo door. -/
def dokodemo (targetAddr : Option Address) (dokodemoDoorAddr : SocketAddr) :
    Trace Call Stop Stream :=
  match targetAddr with
  | some addr => ChainStreamBuilder.connectTcp W addr
  | none => do
    let ob ← .lift (Stop.ofFault (H.server.router.matchSocketAddr dokodemoDoorAddr))
    let streamBuilder ← .lift (unwrap "inner_map.get(ob)" (H.server.innerMap.lookup ob))
    let outStream ← streamBuilder.buildTcp W (.socketAddress dokodemoDoorAddr)
    .lift (H.relayCounters "dokodemo" ob)
    return outStream

/-- The stream that a handler relays to, if it does. -/
def answer (inTag : String) : Asked → Trace Call Stop (Option Stream)
  | .socks addr => some <$> H.socksConnect W R inTag addr
  | .datagram targetAddr peerIp => some <$> H.associate W R targetAddr peerIp
  | .connect authority => H.proxyConnect W R inTag authority
  | .request uri => some <$> H.call W R uri
  | .door targetAddr localAddr => some <$> H.dokodemo W targetAddr localAddr

/-- A stream to an address, through the outbound that is decided for it. -/
def reach (addr : Address) : Trace Call Stop Stream := do
  let (_, streamBuilder) ← .lift (H.outbound R addr)
  streamBuilder.buildTcp W addr

end Handlers

/-- The address that a TCP client wants to be connected to through an outbound. -/
def Asked.dest : Asked → Option Address
  | .socks addr => some addr
  | .datagram .. => none
  | .connect authority => Address.hostAddr authority
  | .request uri =>
    if Handlers.isTlsScheme uri then none else (Address.callAddr uri.authority).toOption
  | .door (some _) _ => none
  | .door none localAddr => some (.socketAddress localAddr)

namespace Trace

variable {ε σ α β : Type}

@[simp] theorem calls_map (f : α → β) (x : Trace ε σ α) : (f <$> x).calls = x.calls := by
  cases h : x.result with
  | ok a =>
    rw [← bind_pure_comp, bind_of_ok h]
    exact List.append_nil _
  | error e => rw [← bind_pure_comp, bind_of_error h]

theorem result_map_eq_ok {f : α → β} {x : Trace ε σ α} {b : β} :
    (f <$> x).result = .ok b ↔ ∃ a, x.result = .ok a ∧ f a = b := by
  rw [← bind_pure_comp, bind_result_eq_ok]
  refine exists_congr fun a => and_congr_right fun _ => ?_
  show (Except.ok (f a) : Except σ β) = .ok b ↔ _
  rw [Except.ok.injEq]

theorem result_map_eq_error {f : α → β} {x : Trace ε σ α} {e : σ} :
    (f <$> x).result = .error e ↔ x.result = .error e := by
  rw [← bind_pure_comp, bind_result_eq_error]
  refine or_iff_left ?_
  rintro ⟨a, -, h⟩
  cases h

/-- A step that makes no call and succeeds is none. -/
theorem lift_ok_bind (a : α) (f : α → Trace ε σ β) : (lift (.ok a) >>= f) = f a := rfl

theorem lift_error_bind (e : σ) (f : α → Trace ε σ β) :
    (lift (.error e) >>= f) = ⟨[], .error e⟩ := rfl

end Trace

/-! ### For the network -/

/-- The same calls, the same stream if there is one, and the same panic. -/
structure SameStream (x : Trace Call Stop (Option Stream)) (y : Trace Call Stop Stream) :
    Prop where
  calls_eq : x.calls = y.calls
  stream_iff : ∀ stream, x.result = .ok (some stream) ↔ y.result = .ok stream
  fault_iff : ∀ f, x.result = .error (.fault f) ↔ y.result = .error (.fault f)

theorem sameStream_some (y : Trace Call Stop Stream) : SameStream (some <$> y) y where
  calls_eq := Trace.calls_map some y
  stream_iff stream := by
    rw [Trace.result_map_eq_ok]
    simp
  fault_iff f := Trace.result_map_eq_error

/-- Nothing is done for a stream that is blocked, however that is said. -/
theorem sameStream_blocked {x : Trace Call Stop (Option Stream)} {message : String}
    (h : x = ⟨[], .ok none⟩ ∨ ∃ m, x = ⟨[], .error (.err m)⟩) :
    SameStream x ⟨[], .error (newError message)⟩ := by
  rcases h with rfl | ⟨m, rfl⟩ <;> exact
    ⟨rfl, fun _ => ⟨fun h => (by cases h), fun h => (by cases h)⟩,
      fun _ => ⟨fun h => (by cases h), fun h => (by cases h)⟩⟩

namespace Handlers

variable {W : World} {R : RouteWorld} {H : Handlers} {inbounds : List String} {inTag ob : String}
variable {addr : Address} {b : ChainStreamBuilder}

/-- With an API server, the counters are those that were made when the server began. -/
def Counts (H : Handlers) (inbounds : List String) : Prop :=
  ∀ map, H.counters = some map → (CounterMap.new H.server.innerMap.keys inbounds).SameNames map

/-- The builder that a handler gets is the one of the tag that `match_addr` gives. -/
theorem mem_of_outbound (h : H.outbound R addr = .ok (ob, b)) :
    H.server.router.matchAddr R addr = .ok ob ∧ H.server.innerMap.lookup ob = some b := by
  obtain ⟨ob', h_ob, h⟩ := bind_eq_ok.mp h
  obtain ⟨b', h_b, h⟩ := bind_eq_ok.mp h
  cases h
  refine ⟨ofFault_eq_ok.mp h_ob, ?_⟩
  unfold unwrap at h_b
  split at h_b
  · next h_look => rw [h_look, Except.ok.inj h_b]
  · cases h_b

/-- No `unwrap` of a counter fails. -/
theorem Counts.relayCounters_eq (h : H.Counts inbounds) (h_in : inTag ∈ "dokodemo" :: inbounds)
    (h_ob : H.server.innerMap.lookup ob = some b) : H.relayCounters inTag ob = .ok () := by
  unfold relayCounters
  cases h_map : H.counters with
  | none => rfl
  | some map =>
    have h_keys : ob ∈ H.server.innerMap.keys := by
      rw [AList.mem_keys.symm, ← AList.lookup_isSome, h_ob]
      rfl
    have h_look (e : Endpoint) (tag : String) (w : Way)
        (h_tag : tag ∈ Traffic.tags H.server.innerMap.keys inbounds e) :
        ∃ v, map.lookup (counterName e tag w) = some v := by
      have h_mem := (h map h_map _).mp (Traffic.mem_new_iff.mpr ⟨e, tag, h_tag, w, rfl⟩)
      exact Option.isSome_iff_exists.mp (AList.lookup_isSome.mpr h_mem)
    obtain ⟨v₁, h₁⟩ := h_look .outbound ob .downlink h_keys
    obtain ⟨v₂, h₂⟩ := h_look .outbound ob .uplink h_keys
    obtain ⟨v₃, h₃⟩ := h_look .inbound inTag .uplink h_in
    obtain ⟨v₄, h₄⟩ := h_look .inbound inTag .downlink h_in
    dsimp only
    rw [h₁, h₂, h₃, h₄]
    rfl

/-- A relay comes after the counters. -/
theorem relay_eq {α : Type} (h : H.relayCounters inTag ob = .ok ()) (x : Trace Call Stop Stream)
    (f : Stream → α) :
    (do let stream ← x; Trace.lift (H.relayCounters inTag ob); return f stream) = f <$> x := by
  rw [← bind_pure_comp, h]
  rfl

theorem reach_of_outbound (h : H.outbound R addr = .ok (ob, b)) :
    H.reach W R addr = b.buildTcp W addr := by
  unfold reach
  rw [h]
  rfl

theorem reach_of_error {e : Stop} (h : H.outbound R addr = .error e) :
    H.reach W R addr = ⟨[], .error e⟩ := by
  unfold reach
  rw [h]
  rfl

/-- The handler of a SOCKS5 client does what the others do. -/
theorem socksConnect_eq (h : H.Counts inbounds) (h_in : inTag ∈ "dokodemo" :: inbounds) :
    H.socksConnect W R inTag addr = H.reach W R addr := by
  unfold socksConnect
  cases h_out : H.outbound R addr with
  | error e => rw [reach_of_error h_out, Trace.lift_error_bind]
  | ok x =>
    obtain ⟨ob, b⟩ := x
    rw [reach_of_outbound h_out, Trace.lift_ok_bind]
    have h_counters := h.relayCounters_eq h_in (mem_of_outbound h_out).2
    exact (relay_eq h_counters _ id).trans (id_map _)

/-- **A tunnel** says nothing of a black hole. -/
theorem sameStream_tunnel (h : H.Counts inbounds) (h_in : inTag ∈ "dokodemo" :: inbounds) :
    SameStream (H.tunnel W R inTag addr) (H.reach W R addr) := by
  unfold tunnel
  cases h_out : H.outbound R addr with
  | error e =>
    rw [reach_of_error h_out, Trace.lift_error_bind]
    exact ⟨rfl, fun _ => ⟨fun h => (by cases h), fun h => (by cases h)⟩, fun _ =>
      ⟨fun h => congrArg _ (Except.error.inj h), fun h => congrArg _ (Except.error.inj h)⟩⟩
  | ok x =>
    obtain ⟨ob, b⟩ := x
    rw [reach_of_outbound h_out, Trace.lift_ok_bind]
    dsimp only
    by_cases h_black : b.isBlackHole = true
    · rw [if_pos h_black, ChainStreamBuilder.buildTcp_of_blackhole h_black]
      exact sameStream_blocked (.inl rfl)
    · rw [if_neg h_black, relay_eq (h.relayCounters_eq h_in (mem_of_outbound h_out).2)]
      exact sameStream_some _

/-- **A plain request** fails at a black hole. -/
theorem sameStream_call {uri : Uri} (h_uri : (Asked.request uri).dest = some addr) :
    SameStream (some <$> H.call W R uri) (H.reach W R addr) := by
  unfold Asked.dest at h_uri
  dsimp only at h_uri
  split at h_uri
  · -- an HTTPS request goes nowhere, so it has no address
    cases h_uri
  · next h_tls =>
    unfold call
    -- the authority says the address, and only then is it routed
    cases h_addr : Address.callAddr uri.authority with
    | error e =>
      rw [h_addr] at h_uri
      cases h_uri
    | ok a =>
      rw [h_addr] at h_uri
      obtain rfl : a = addr := Option.some.inj h_uri
      dsimp only
      rw [if_neg h_tls]
      -- no outbound: the call fails as the stream does
      cases h_out : H.outbound R a with
      | error e =>
        rw [reach_of_error h_out, Trace.lift_error_bind]
        exact sameStream_some _
      | ok x =>
        obtain ⟨ob, b⟩ := x
        rw [reach_of_outbound h_out, Trace.lift_ok_bind]
        dsimp only
        -- the handler asks for a black hole itself, and `build_tcp` refuses it
        by_cases h_black : b.isBlackHole = true
        · rw [if_pos h_black, ChainStreamBuilder.buildTcp_of_blackhole h_black]
          exact sameStream_blocked (.inr ⟨_, rfl⟩)
        · rw [if_neg h_black]
          exact sameStream_some _

/-- The handler of a door without a target routes the address that its client connected to. -/
theorem dokodemo_eq (h : H.Counts inbounds) {localAddr : SocketAddr} :
    H.dokodemo W none localAddr = H.reach W R (.socketAddress localAddr) := by
  have h_in : "dokodemo" ∈ "dokodemo" :: inbounds := List.mem_cons_self
  rw [← socksConnect_eq h h_in]
  unfold dokodemo socksConnect outbound
  rw [Router.matchSocketAddr_eq (R := R)]
  cases Stop.ofFault (H.server.router.matchAddr R (.socketAddress localAddr)) with
  | error e => rfl
  | ok ob =>
    dsimp only
    rw [Trace.lift_ok_bind, ok_bind]
    cases H.server.innerMap.lookup ob <;> rfl

/-- Every TCP handler does what a stream to the address takes. -/
theorem sameStream_answer (h : H.Counts inbounds) (h_in : inTag ∈ inbounds) {asked : Asked}
    (h_dest : asked.dest = some addr) :
    SameStream (H.answer W R inTag asked) (H.reach W R addr) := by
  have h_in' : inTag ∈ "dokodemo" :: inbounds := List.mem_cons_of_mem _ h_in
  cases asked with
  -- each way in has its address, and does with it what `reach` does
  | socks a =>
    obtain rfl : a = addr := Option.some.inj h_dest
    exact socksConnect_eq h h_in' ▸ sameStream_some _
  -- a datagram does not end in a TCP stream
  | datagram a ip => cases h_dest
  | connect authority =>
    have h_host : Address.hostAddr authority = some addr := h_dest
    show SameStream (H.proxyConnect W R inTag authority) _
    unfold proxyConnect
    rw [h_host]
    exact sameStream_tunnel h h_in'
  | request uri => exact sameStream_call h_dest
  | door target localAddr =>
    cases target with
    -- a door with a target does not look at the address of its client
    | some a => cases h_dest
    | none =>
      obtain rfl : Address.socketAddress localAddr = addr := Option.some.inj h_dest
      show SameStream (some <$> H.dokodemo W none localAddr) _
      rw [dokodemo_eq h]
      exact sameStream_some _

/-- **All ways in are one for the network.** Whichever way a client asks for a stream to an address,
by SOCKS5, by CONNECT, by a plain request or through a door: the same calls are made, and the
stream, if there is one, is that of the outbound that is decided for the address. No counter is
missing. At a black hole no call is made. -/
theorem answer_of_dest (W : World) (R : RouteWorld) {H : Handlers} {inbounds : List String}
    (h : H.Counts inbounds) {inTag : String} (h_in : inTag ∈ inbounds) {asked : Asked}
    {addr : Address} (h_dest : asked.dest = some addr) :
    SameStream (H.answer W R inTag asked) (H.reach W R addr) ∧
      ∀ ob b, H.outbound R addr = .ok (ob, b) → b.isBlackHole = true →
        (H.answer W R inTag asked).calls = [] ∧
        ∀ stream, (H.answer W R inTag asked).result ≠ .ok (some stream) := by
  have h_same : SameStream (H.answer W R inTag asked) (H.reach W R addr) :=
    sameStream_answer h h_in h_dest
  refine ⟨h_same, fun ob b h_out h_black => ?_⟩
  have h_reach := reach_of_outbound (W := W) h_out
  rw [ChainStreamBuilder.buildTcp_of_blackhole h_black] at h_reach
  refine ⟨h_same.calls_eq.trans (congrArg Trace.calls h_reach), fun stream h_stream => ?_⟩
  have h_ok := (h_same.stream_iff stream).mp h_stream
  rw [h_reach] at h_ok
  cases h_ok

/-- A door without a target and SOCKS5 get the same stream to one address. -/
theorem answer_of_dest_door :
    ∃ s, (Config.tenTo "direct").buildServer .calm .offline .debug = .ok s ∧
      let H : Handlers := ⟨s, some (CounterMap.new s.innerMap.keys ["in"])⟩
      let addr : Address := .socketAddress (.v4 0x0A000001 80)
      SameStream (H.answer .calm .offline "in" (.door none (.v4 0x0A000001 80)))
        (H.reach .calm .offline addr) ∧
      SameStream (H.answer .calm .offline "in" (.socks addr)) (H.reach .calm .offline addr) := by
  have h : ∃ s, (Config.tenTo "direct").buildServer .calm .offline .debug = .ok s := ⟨_, rfl⟩
  obtain ⟨s, h⟩ := h
  have h_counts : Counts ⟨s, some (CounterMap.new s.innerMap.keys ["in"])⟩ ["in"] := by
    intro map h_map
    cases h_map
    exact fun _ => Iff.rfl
  exact ⟨s, h, (answer_of_dest .calm .offline h_counts List.mem_cons_self rfl).1,
    (answer_of_dest .calm .offline h_counts List.mem_cons_self rfl).1⟩

/-- What every datagram of an outbound without a sender does. -/
theorem associate_of_outbound (h : H.outbound R addr = .ok (ob, b)) (peerIp : IpAddr) :
    H.associate W R addr peerIp = b.buildUdp W addr peerIp := by
  unfold associate
  rw [h]
  rfl

end Handlers

/-! ### Panics -/

/-- Nothing panics, but for a request with a header that is refused. -/
def OnlyRequest {α : Type} (r : Except Stop α) : Prop :=
  ∀ f, r = .error (.fault f) → f = .unwrapNone "request"

theorem OnlyRequest.unpanicked {α : Type} {r : Except Stop α} (h : OnlyRequest r) :
    Unpanicked r := by
  intro f h_f
  rw [h f h_f]
  decide

/-- What is no panic of the configuration is one of the request. -/
theorem eq_request_of_mem {f : Fault} (h : f ∈ .outOfBounds :: StreamBuilder.layerFaults)
    (h_config : f ∉ configPanics) : f = .unwrapNone "request" := by
  have h_cases : f = .outOfBounds ∨ f = .unimplemented ∨ f = .remByZero ∨
      f = .unwrapNone "authority" ∨ f = .unwrapNone "request" := by
    simpa [StreamBuilder.layerFaults] using h
  revert h_config
  rcases h_cases with rfl | rfl | rfl | rfl | rfl <;> decide

namespace ChainOf

variable {W : World} {hops : List HopConfig} {b : ChainStreamBuilder}

/-- The faults of a chain are those of its layers, and the first marker. -/
theorem fault_mem (h : ChainOf W hops b) (W' : World) (D : Address) (udpBindIp : IpAddr) (f : Fault)
    (h_f : (b.buildTcp W' D).result = .error (.fault f) ∨
      (b.buildUdp W' D udpBindIp).result = .error (.fault f)) :
    f ∈ .outOfBounds :: StreamBuilder.layerFaults := by
  cases h_black : b.isBlackHole with
  -- a black hole is refused without a fault
  | true =>
    rw [ChainStreamBuilder.buildTcp_of_blackhole h_black,
      ChainStreamBuilder.buildUdp_of_blackhole h_black] at h_f
    rcases h_f with h_f | h_f <;> cases h_f
  | false =>
    obtain ⟨⟨ls, h_last, -⟩, us, h_last', -⟩ := h.lastFor W' D
    rcases h_f with h_f | h_f
    · -- over TCP only a layer can fault
      obtain ⟨x, -, call, io, h_x⟩ := (ChainStreamBuilder.tcpRun h_black h_last).of_fault f h_f
      exact List.mem_cons_of_mem _ (StreamBuilder.tcpLayer_fault h_x)
    · -- over UDP it is the marker to look at first, if there is none
      cases h_marker : b.buildUdpMarker with
      | nil =>
        rw [ChainStreamBuilder.buildUdp_of_no_marker h_black h_marker] at h_f
        cases h_f
        exact List.mem_cons_self
      | cons tcp ms =>
        rw [ChainStreamBuilder.buildUdp_eq h_black h_last' h.marker_eq h_marker] at h_f
        rcases Trace.bind_result_eq_error.mp h_f with h_base | ⟨io, -, h_fold⟩
        · -- the base of the chain is a call of the network, which does not panic
          obtain ⟨e, h_e, -⟩ | ⟨io, h_io, -⟩ :=
            connectBase_run (W := W') tcp (b.tcpBase D) udpBindIp
          · rw [h_e] at h_base
            cases h_base
          · rw [h_io] at h_base
            cases h_base
        · -- or one of its layers, as over TCP
          exact List.mem_cons_of_mem _ ((foldUdp _ io).of_fault f h_fold)

/-- **Panics on the way to one destination**: there are none exactly if the chain has a black hole,
or it has hops and each of them has what it needs. -/
theorem onlyRequest_iff (h : ChainOf W hops b)
    (h_vmess : ∀ v, .vmess v ∈ hops → v.securityNum = 3 ∨ v.securityNum = 4) (D : Address) :
    (∀ W' udpBindIp, OnlyRequest (b.buildTcp W' D).result ∧
      OnlyRequest (b.buildUdp W' D udpBindIp).result) ↔
    (∃ hop ∈ hops, hop.getProtocolType = .blackhole) ∨
      hops ≠ [] ∧ ∀ hop ∈ hops, hop.Complete := by
  constructor
  · -- from a quiet network to the hops
    intro h_calm
    cases h_black : b.isBlackHole with
    | true =>
      rw [h.isBlackHole_eq] at h_black
      exact .inl (by simpa using h_black)
    | false =>
      obtain ⟨h_tcp, h_udp⟩ := h_calm .calm (.v4 0)
      refine .inr ⟨?_, fun hop h_hop => ?_⟩
      · -- a chain without hops has no marker
        rintro rfl
        have h_marker : b.buildUdpMarker = [] := by
          rw [h.marker_eq, h.assembled.layerTypes_perm.eq_nil]
          rfl
        have h_fault := ChainStreamBuilder.buildUdp_of_no_marker (W := .calm) h_black h_marker D
          (.v4 0)
        cases h_udp _ h_fault
      · -- a hop with an address is complete, and the others are made of what they need
        cases h_addr : hop.getAddr with
        | some own => exact HopConfig.complete_of_getAddr h_addr
        | none =>
          obtain ⟨⟨ls, h_last, -⟩, -⟩ := h.lastFor .calm D
          obtain ⟨x, hx, h_made⟩ := h.assembled.stock.of_hop hop h_hop h_addr
          have h_sound := ChainStreamBuilder.sound_of_unpanicked h_black h_last h_tcp.unpanicked x
            (List.mem_append_left _ hx)
          exact complete_of_madeFrom h_made h_sound
  · -- from the hops to any network, as for chains on their own
    intro h_cond W' udpBindIp
    have h_never := (h.panicFree_iff h_vmess).mpr h_cond W' D udpBindIp
    exact ⟨fun f h_f => eq_request_of_mem (h.fault_mem W' D udpBindIp f (.inl h_f))
        (h_never.1 f h_f),
      fun f h_f => eq_request_of_mem (h.fault_mem W' D udpBindIp f (.inr h_f)) (h_never.2 f h_f)⟩

end ChainOf

/-- The hops of the last outbound with this tag: the chain of the server under it. -/
def Config.ServesHops (c : Config) (tag : String) (hops : List HopConfig) : Prop :=
  ∃ out, c.outbounds.reverse.find? (·.tag = tag) = some out ∧ Resolves c out.chain hops

/-- The ways in that end in a stream to an address, by TCP or by UDP. -/
def Asked.GoesTo (asked : Asked) (addr : Address) : Prop :=
  asked.dest = some addr ∨ ∃ peerIp, asked = .datagram addr peerIp

namespace Handlers

open Config

variable {W : World} {R : RouteWorld} {H : Handlers} {inbounds : List String} {inTag ob : String}
variable {addr : Address} {b : ChainStreamBuilder}

/-- What can panic in the handlers is what can panic in the chain. -/
theorem onlyRequest_answer_iff (h : H.Counts inbounds) (h_in : inTag ∈ inbounds)
    (h_out : H.outbound R addr = .ok (ob, b)) :
    (∀ W' asked, asked.GoesTo addr → OnlyRequest (H.answer W' R inTag asked).result) ↔
      ∀ W' peerIp, OnlyRequest (b.buildTcp W' addr).result ∧
        OnlyRequest (b.buildUdp W' addr peerIp).result := by
  -- the TCP handlers fault as the chain does
  have h_tcp {W' : World} {asked : Asked} (h_dest : asked.dest = some addr) (f : Fault) :
      (H.answer W' R inTag asked).result = .error (.fault f) ↔
        (b.buildTcp W' addr).result = .error (.fault f) := by
    rw [(sameStream_answer h h_in h_dest).fault_iff f, reach_of_outbound h_out]
  -- and so does a datagram
  have h_udp (W' : World) (peerIp : IpAddr) (f : Fault) :
      (H.answer W' R inTag (.datagram addr peerIp)).result = .error (.fault f) ↔
        (b.buildUdp W' addr peerIp).result = .error (.fault f) := by
    rw [← associate_of_outbound h_out]
    exact Trace.result_map_eq_error
  constructor
  · -- one of the ways in is enough
    intro h_calm W' peerIp
    refine ⟨fun f h_f => ?_, fun f h_f => ?_⟩
    · have h_socks : (Asked.socks addr).dest = some addr := rfl
      exact h_calm W' (.socks addr) (.inl h_socks) f ((h_tcp h_socks f).mpr h_f)
    · exact h_calm W' (.datagram addr peerIp) (.inr ⟨peerIp, rfl⟩) f ((h_udp W' peerIp f).mpr h_f)
  · rintro h_chain W' asked (h_dest | ⟨peerIp, rfl⟩) f h_f
    · exact (h_chain W' (.v4 0)).1 f ((h_tcp h_dest f).mp h_f)
    · exact (h_chain W' peerIp).2 f ((h_udp W' peerIp f).mp h_f)

/-- **Panics of a server**, however its clients come in. For an accepted configuration, whose tries
have room for its rules: whatever the network does, no client that wants to get to an address makes
a handler panic before it has the stream that it relays to, if and only if the address is routed to
an outbound that exists, and whose chain has a black hole, or has hops that have what they need.
What the handler does with the stream comes after `answer`: the relay reads what the network sends,
and some readers panic at some of it, however complete the hops are. -/
theorem answer_panicFree_iff {W : World} {R : RouteWorld} {p : Profile} {c : Config}
    {s : ConfigServerBuilder} (h : c.buildServer W R p = .ok s) (h_c : c.Deserialized)
    (h_fit : RunFits p (fun m call => Fits4 m call ∧ Fits6 m call) GeoIPMatcher.new
      (putsOf (R.ruleCalls c).calls))
    {counters : Option CounterMap} {inbounds : List String}
    (h_counts : Handlers.Counts ⟨s, counters⟩ inbounds) {inTag : String} (h_in : inTag ∈ inbounds)
    (addr : Address) :
    (∀ W' asked, asked.GoesTo addr →
      OnlyRequest (answer W' R ⟨s, counters⟩ inTag asked).result) ↔
      ∃ hops, c.ServesHops (decides R (R.ruleCalls c).calls c.defaultTag addr) hops ∧
        ((∃ hop ∈ hops, hop.getProtocolType = .blackhole) ∨
          hops ≠ [] ∧ ∀ hop ∈ hops, hop.Complete) := by
  -- the outbound is the one that the rules decide, and its chain that of the last outbound so named
  obtain ⟨rb, h_serves⟩ := serves_of_buildServer h
  have h_match := h_serves.matchAddr_eq h_fit addr
  have h_find := find_of_lookup_innerMap (innerMap_of_buildServer h)
    (decides R (R.ruleCalls c).calls c.defaultTag addr)
  generalize decides R (R.ruleCalls c).calls c.defaultTag addr = ob at h_match h_find ⊢
  cases h_look : s.innerMap.lookup ob with
  | none =>
    -- the `unwrap` of the lookup panics on every way in
    rw [h_look] at h_find
    have h_out : outbound R ⟨s, counters⟩ addr =
        .error (.fault (.unwrapNone "inner_map.get(ob)")) := by
      unfold outbound
      rw [h_match]
      show (do return (ob, ← unwrap "inner_map.get(ob)" (s.innerMap.lookup ob)) : Except _ _) = _
      rw [h_look]
      rfl
    refine iff_of_false (fun h_calm => ?_) ?_
    · -- SOCKS5 is one of the ways in, and it panics there
      have h_socks : (Asked.socks addr).dest = some addr := rfl
      have h_fault := ((sameStream_answer (W := .calm) (R := R) h_counts h_in h_socks).fault_iff
        (.unwrapNone "inner_map.get(ob)")).mpr (by rw [reach_of_error h_out])
      have h_eq := h_calm .calm (.socks addr) (.inl h_socks) _ h_fault
      revert h_eq
      decide
    · -- no outbound of the configuration has the tag
      rintro ⟨hops, ⟨out, h_some, -⟩, -⟩
      have h_none : none = some out := h_find.symm.trans h_some
      cases h_none
  | some b =>
    rw [h_look] at h_find
    obtain ⟨out, h_some, h_built⟩ := h_find
    obtain ⟨hops, h_res, h_chain⟩ := chainOf_of_buildOutbound h_built
    have h_res' : Resolves c out.chain hops := h_res
    have h_out : outbound R ⟨s, counters⟩ addr = .ok (ob, b) := by
      unfold outbound
      rw [h_match]
      show (do return (ob, ← unwrap "inner_map.get(ob)" (s.innerMap.lookup ob)) : Except _ _) = _
      rw [h_look]
      rfl
    rw [onlyRequest_answer_iff h_counts h_in h_out,
      h_chain.onlyRequest_iff (fun v => securityNum_of_resolves h_c h_res') addr]
    constructor
    · intro h_cond
      exact ⟨hops, ⟨out, h_some, h_res'⟩, h_cond⟩
    · rintro ⟨hops', ⟨out', h_some', h_res''⟩, h_cond⟩
      obtain rfl : out = out' := Option.some.inj (h_some.symm.trans h_some')
      obtain rfl := h_res'.unique h_res''
      exact h_cond

/-- One direct outbound: no handler panics on the way to an address. -/
theorem answer_panicFree_iff_direct :
    ∃ s, (Config.tenTo "direct").buildServer .calm .offline .debug = .ok s ∧
      ∀ W' asked, asked.GoesTo (.socketAddress (.v4 0x0A000001 80)) →
        OnlyRequest (answer W' .offline ⟨s, none⟩ "in" asked).result := by
  have h : ∃ s, (Config.tenTo "direct").buildServer .calm .offline .debug = .ok s := ⟨_, rfl⟩
  obtain ⟨s, h⟩ := h
  have h_counts : Counts ⟨s, none⟩ ["in"] := fun map h_map => (by cases h_map)
  refine ⟨s, h, (answer_panicFree_iff h (fun v h_v => (by cases h_v))
    (runFits_of_short GeoIPMatcher.valid_new (by decide) (by decide) (by decide)) h_counts
    List.mem_cons_self _).mpr ?_⟩
  have h_direct : Resolves (Config.tenTo "direct") ["direct"] [.direct ⟨"direct"⟩] :=
    .cons ⟨_, rfl, rfl⟩ .nil
  refine ⟨_, ⟨⟨["direct"], "direct"⟩, rfl, h_direct⟩, .inr ⟨by simp, fun hop h_hop => ?_⟩⟩
  rw [List.mem_singleton.mp h_hop]
  exact trivial

end Handlers

end V2ray

import V2rayRust.Config.Routing
import V2rayRust.Proxy.ChainUdp

/-!
# Panics of accepted chains

The partial operations of `build_tcp` and `build_udp`, and what a configuration has to be like
for them. `build_inner_map` checks that the tags of a chain exist and hands every addressed hop an
address, and a chain with a black hole is never built; but it takes a chain of no hops, which has
no marker to look at, a list of no hosts and a websocket URI without an authority. A chain panics
in some run exactly if it is of this kind (`neverPanics_iff`).
-/

namespace V2ray

open HopConfig

variable {W : World} {c : Config}

/-! ### What configurations say -/

/-- `from_str_to_security_num`; `auto` depends on the processor. -/
def fromStrToSecurityNum (hardwareAes : Bool) (security : String) : Option UInt8 :=
  if security = "aes-128-gcm" then some 3
  else if security = "chacha20-poly1305" then some 4
  else if security = "none" ∨ security = "zero" then none
  else if security = "auto" then if hardwareAes then some 3 else some 4
  else none

theorem securityNum_of_fromStr {hardwareAes : Bool} {security : String} {n : UInt8}
    (h : fromStrToSecurityNum hardwareAes security = some n) : n = 3 ∨ n = 4 := by
  unfold fromStrToSecurityNum at h
  grind

/-- The configuration has been deserialized, as far as the type of a field does not say it. -/
def Config.Deserialized (c : Config) : Prop :=
  ∀ v ∈ c.vmess, ∃ hardwareAes security,
    fromStrToSecurityNum hardwareAes security = some v.securityNum

/-- What a hop needs beyond its addresses: an authority to name in the request, or a host to
choose. -/
def HopConfig.Complete : HopConfig → Prop
  | ws c => c.uri.uri.authority ≠ none
  | h2 c => c.hosts ≠ []
  | _ => True

/-- The panics of the partial operations: `build_udp_marker[0]`, `last().unwrap()`,
`addr.unwrap()`, `% self.hosts.len()`, `uri.authority().unwrap()` and `unimplemented!()`. -/
def configPanics : List Fault :=
  [.outOfBounds, .unwrapNone "build_udp_marker", .unwrapNone "addr", .remByZero,
    .unwrapNone "authority", .unimplemented]

/-- What stopped a run, if something did, is none of them. -/
def Unpanicked {α : Type} (r : Except Stop α) : Prop :=
  ∀ f, r = .error (.fault f) → f ∉ configPanics

/-- No run of the chain panics so, whatever the destination and whatever the network, the
libraries and the random numbers do. -/
def ChainStreamBuilder.NeverPanics (b : ChainStreamBuilder) : Prop :=
  ∀ (W : World) (D : Address) (udpBindIp : IpAddr),
    Unpanicked (b.buildTcp W D).result ∧ Unpanicked (b.buildUdp W D udpBindIp).result

/-! ### One builder -/

namespace StreamBuilder

/-- The builder gets as far as the network. -/
def Sound : StreamBuilder → Prop
  | vmess o => o.securityNum = 3 ∨ o.securityNum = 4
  | ws uri _ _ _ => uri.authority ≠ none
  | h2 hosts _ _ _ => hosts ≠ []
  | blackhole => False
  | _ => True

theorem body_eq_fault {req : Request} {f : Fault} (h : W.body req = .error (.fault f)) :
    f = .unwrapNone "request" := by
  unfold World.body at h
  split at h
  · cases h
  · exact (Stop.fault.inj (Except.error.inj h)).symm

theorem wsReq_of_some {uri : Uri} (h : uri.authority ≠ none) (headers : List (String × String))
    (m : ℕ) (name : String) : ∃ req, wsReq W uri headers m name = W.body req := by
  obtain ⟨authority, h_some⟩ := Option.ne_none_iff_exists'.mp h
  unfold wsReq
  rw [h_some]
  exact ⟨_, rfl⟩

theorem wsReq_of_none {uri : Uri} {headers : List (String × String)} {m : ℕ} {name : String}
    (h : uri.authority = none) :
    wsReq W uri headers m name = .error (.fault (.unwrapNone "authority")) := by
  unfold wsReq
  rw [h]

/-- With at least one host, the request is made for one of the hosts. -/
theorem h2Req_of_ne_nil {hosts : List String} (h : hosts ≠ [])
    (headers : List (String × String)) (method path : String) : ∃ host ∈ hosts,
      h2Req W hosts headers method path =
        (do
          let uri ← httpsUri W host path
          W.body ⟨method, uri, headers.filter (fun h => h.1 ≠ "Host")⟩) := by
  have h_len : hosts.length ≠ 0 := h ∘ List.length_eq_zero_iff.mp
  have h_lt : W.random % hosts.length < hosts.length := Nat.mod_lt _ (Nat.pos_of_ne_zero h_len)
  refine ⟨hosts[W.random % hosts.length], List.getElem_mem h_lt, ?_⟩
  unfold h2Req
  rw [if_neg h_len, List.getElem?_eq_getElem h_lt]

/-- The request of a sound builder can only be refused by the `http` crate. -/
theorem request_eq_fault {b : StreamBuilder} (h : b.Sound) {call : Call} {io : Stream} {f : Fault}
    (h_run : b.transportLayer W call io = .error (.fault f)) : f = .unwrapNone "request" := by
  cases b with
  | ws uri headers m name =>
    obtain ⟨req, h_req⟩ := wsReq_of_some (W := W) h headers m name
    rcases bind_eq_error.mp h_run with h_run | ⟨_, _, h_run⟩
    · rw [h_req] at h_run
      exact body_eq_fault h_run
    · -- with early data the handshake is left for later
      by_cases hm : 0 < m
      · rw [if_pos hm] at h_run
        cases h_run
      · rw [if_neg hm] at h_run
        rcases bind_eq_error.mp h_run with h_run | ⟨_, _, h_run⟩
        · exact absurd h_run (attempt_ne_fault _ _)
        · cases h_run
  | h2 hosts headers method path =>
    obtain ⟨host, _, h_req⟩ := h2Req_of_ne_nil (W := W) h headers method path
    rcases bind_eq_error.mp h_run with h_run | ⟨_, _, h_run⟩
    · -- the handshake of HTTP/2 comes first, and the request after it
      exact absurd h_run (attempt_ne_fault _ _)
    · rcases bind_eq_error.mp h_run with h_run | ⟨_, _, h_run⟩
      · rw [h_req] at h_run
        rcases bind_eq_error.mp h_run with h_run | ⟨_, _, h_run⟩
        · exact absurd h_run (httpsUri_ne_fault _ _ _)
        · exact body_eq_fault h_run
      · cases h_run
  | tls _ _ _ _ =>
    rcases bind_eq_error.mp h_run with h_run | ⟨_, _, h_run⟩
    · exact absurd h_run (attempt_ne_fault _ _)
    · cases h_run
  | grpc host path =>
    rcases bind_eq_error.mp h_run with h_run | ⟨_, _, h_run⟩
    · exact absurd h_run (attempt_ne_fault _ _)
    · rcases bind_eq_error.mp h_run with h_run | ⟨_, _, h_run⟩
      · rcases bind_eq_error.mp h_run with h_run | ⟨_, _, h_run⟩
        · exact absurd h_run (httpsUri_ne_fault _ _ _)
        · cases h_run
      · cases h_run
  | vmess _ | trojan _ _ | shadowsocks _ _ _ | simpleObfs _ | direct | blackhole => cases h_run

/-- The builders that are not transports make no request. -/
theorem layer_eq_fault {b : StreamBuilder} (h : b.Sound) {call : Call} {io : Stream} {f : Fault} :
    (b.tcpLayer W call io = .error (.fault f) → f = .unwrapNone "request") ∧
    ∀ tcpInside, b.udpLayer W call io tcpInside = .error (.fault f) →
      f = .unwrapNone "request" := by
  have h_transport (h_run : b.transportLayer W call io = .error (.fault f)) :=
    request_eq_fault h h_run
  -- a call to the outside fails with an error, never with a panic
  have h_attempt {g : Unit → Except Stop Stream} (h_g : ∀ u e, g u ≠ .error e)
      (h_run : (W.attempt call >>= g) = .error (.fault f)) : f = .unwrapNone "request" := by
    rcases bind_eq_error.mp h_run with h_run | ⟨u, _, h_run⟩
    · exact absurd h_run (attempt_ne_fault _ _)
    · exact absurd h_run (h_g u _)
  have h_vmess {o : VmessOption} (h_o : o.securityNum = 3 ∨ o.securityNum = 4)
      (h_run : newVmessStream o io = .error (.fault f)) : f = .unwrapNone "request" := by
    unfold newVmessStream at h_run
    rw [if_pos h_o] at h_run
    cases h_run
  cases b with
  | vmess o => exact ⟨h_vmess h, fun _ => h_vmess h⟩
  | trojan password addr =>
    refine ⟨h_attempt fun _ _ h => (by cases h), fun tcpInside => h_attempt fun _ _ h => ?_⟩
    cases tcpInside <;> cases h
  | shadowsocks addr method key =>
    refine ⟨h_attempt fun _ _ h => (by cases h), fun tcpInside => ?_⟩
    cases tcpInside with
    | true => exact h_attempt fun _ _ h => (by cases h)
    | false => exact fun h_run => (by cases h_run)
  | direct => exact ⟨fun h_run => (by cases h_run), fun _ h_run => (by cases h_run)⟩
  | blackhole => exact absurd h id
  | tls _ _ _ _ | ws _ _ _ _ | grpc _ _ | h2 _ _ _ _ | simpleObfs _ =>
    refine ⟨h_transport, fun tcpInside => ?_⟩
    cases tcpInside with
    | true => exact h_transport
    | false => exact fun h_run => (by cases h_run)

theorem body_calm (req : Request) : World.calm.body req = .ok req :=
  if_pos (List.all_eq_true.mpr fun _ _ => rfl)

/-- Where nothing else fails, a builder returns if it is sound, and panics if not. -/
theorem tcpLayer_calm (b : StreamBuilder) (call : Call) (io : Stream) :
    (b.Sound ∧ ∃ s, b.tcpLayer .calm call io = .ok s) ∨
      ∃ f ∈ configPanics, b.tcpLayer .calm call io = .error (.fault f) := by
  cases b with
  | vmess o =>
    by_cases h : o.securityNum = 3 ∨ o.securityNum = 4
    · exact .inl ⟨h, _, if_pos h⟩
    · exact .inr ⟨.unimplemented, by decide, if_neg h⟩
  | ws uri headers m name =>
    by_cases h : uri.authority = none
    · refine .inr ⟨.unwrapNone "authority", by decide, ?_⟩
      show (wsReq .calm uri headers m name >>= _) = _
      rw [wsReq_of_none h]
      rfl
    · obtain ⟨req, h_req⟩ := wsReq_of_some (W := .calm) h headers m name
      refine .inl ⟨h, ?_⟩
      show ∃ s, (wsReq .calm uri headers m name >>= _) = .ok s
      rw [h_req, body_calm, ok_bind]
      split
      · -- the authority is there, so the request is made, and nothing refuses it
        exact ⟨_, rfl⟩
      · exact ⟨_, rfl⟩
  | h2 hosts headers method path =>
    by_cases h : hosts = []
    · subst h
      exact .inr ⟨.remByZero, by decide, rfl⟩
    · obtain ⟨host, _, h_req⟩ := h2Req_of_ne_nil (W := .calm) h headers method path
      refine .inl ⟨h, ?_⟩
      show ∃ s, (h2Req .calm hosts headers method path >>= _) = .ok s
      rw [h_req]
      show ∃ s, (World.calm.body _ >>= _) = .ok s
      rw [body_calm]
      exact ⟨_, rfl⟩
  | blackhole => exact .inr ⟨.unimplemented, by decide, rfl⟩
  | trojan _ _ | shadowsocks _ _ _ | grpc _ _ | simpleObfs _ | direct | tls _ _ _ _ =>
    exact .inl ⟨trivial, _, rfl⟩

end StreamBuilder

/-! ### The builders of a chain -/

/-- A complete hop has a sound builder. -/
theorem sound_of_madeFrom {hop : HopConfig} {x : StreamBuilder} (h : MadeFrom W hop x)
    (h_open : hop.getProtocolType ≠ .blackhole)
    (h_vmess : ∀ v, hop = .vmess v → v.securityNum = 3 ∨ v.securityNum = 4)
    (h_complete : hop.Complete) : x.Sound := by
  obtain ⟨a, h_x⟩ := h
  -- only VMess, WebSocket and HTTP/2 builders have something to be sound about
  cases hop with
  | vmess v =>
    obtain ⟨_, _, h_x⟩ := bind_eq_ok.mp h_x
    cases h_x
    exact h_vmess v rfl
  | trojan _ | ss _ =>
    obtain ⟨_, _, h_x⟩ := bind_eq_ok.mp h_x
    cases h_x
    exact trivial
  | tls c =>
    replace h_x : newTlsBuilder W c = .ok x := h_x
    unfold newTlsBuilder at h_x
    split at h_x
    · cases h_x
      exact trivial
    · cases h_x
  | ws c =>
    cases h_x
    unfold newWsBuilder
    split
    · exact h_complete
    · split <;> exact h_complete
  | blackhole _ => exact absurd rfl h_open
  | direct _ | grpc _ | simpleObfs _ =>
    cases h_x
    exact trivial
  | h2 c =>
    cases h_x
    exact h_complete

/-- A hop with a sound builder is complete. -/
theorem complete_of_madeFrom {hop : HopConfig} {x : StreamBuilder} (h : MadeFrom W hop x)
    (h_x : x.Sound) : hop.Complete := by
  obtain ⟨a, h_made⟩ := h
  cases hop with
  | ws c =>
    cases h_made
    unfold newWsBuilder at h_x
    split at h_x
    · exact h_x
    · split at h_x <;> exact h_x
  | h2 c =>
    cases h_made
    exact h_x
  | vmess _ | trojan _ | ss _ | tls _ | blackhole _ | direct _ | grpc _ | simpleObfs _ =>
    exact trivial

theorem HopConfig.complete_of_getAddr {hop : HopConfig} {a : Address} (h : hop.getAddr = some a) :
    hop.Complete := by
  cases hop with
  | vmess _ | trojan _ | ss _ => exact trivial
  | ws _ | h2 _ | tls _ | blackhole _ | direct _ | grpc _ | simpleObfs _ => cases h

/-- The hops of a chain and what was made of them. The last builder is made anew for every
destination. -/
structure Stock (W : World) (hops : List HopConfig) (b : ChainStreamBuilder) : Prop where
  of_builder : ∀ x ∈ b.builders, ∃ hop ∈ hops, MadeFrom W hop x
  of_last : ∀ last, b.lastBuilder = some last → last ∈ hops ∧ ∃ own, last.getAddr = some own
  of_hop : ∀ hop ∈ hops, hop.getAddr = none → ∃ x ∈ b.builders, MadeFrom W hop x

/-- What has been made of the hops of a chain that is assembled. -/
theorem Assembled.stock {hops : List HopConfig} {b : ChainStreamBuilder}
    (h : Assembled W hops b) : Stock W hops b := by
  cases h with
  | plain no_addr makes last_eq =>
    refine ⟨exists_mem_of_forall₂ makes.forall₂.flip, fun last h_last => ?_,
      fun hop h_hop _ => exists_mem_of_forall₂ makes.forall₂ hop h_hop⟩
    rw [last_eq] at h_last
    cases h_last
  | addressed front last tail fs ts own hops_eq last_addr no_addr makes_front makes_tail
      builders_eq last_eq =>
    -- the builder with its own address stands between the others, and is kept apart
    have h_made : List.Forall₂ (MadeFrom W) (front ++ tail) b.builders := by
      rw [builders_eq]
      exact List.rel_append makes_front.forall₂ makes_tail.forall₂
    refine ⟨fun x hx => ?_, fun hop h_hop => ?_, fun hop h_hop h_addr => ?_⟩
    · obtain ⟨hop, h_hop, h_x⟩ := exists_mem_of_forall₂ h_made.flip x hx
      refine ⟨hop, ?_, h_x⟩
      rw [hops_eq]
      exact (List.mem_append.mp h_hop).elim (List.mem_append_left _)
        fun h => List.mem_append_right _ (List.mem_cons_of_mem _ h)
    · rw [last_eq] at h_hop
      obtain rfl := Option.some.inj h_hop
      refine ⟨?_, own, last_addr⟩
      rw [hops_eq]
      exact List.mem_append_right _ List.mem_cons_self
    · refine exists_mem_of_forall₂ h_made hop ?_
      rw [hops_eq] at h_hop
      rcases List.mem_append.mp h_hop with h_front | h_rest
      · exact List.mem_append_left _ h_front
      · rcases List.mem_cons.mp h_rest with rfl | h_tail
        · rw [last_addr] at h_addr
          cases h_addr
        · exact List.mem_append_right _ h_tail

/-- The last builder can be made in every world, for TCP and for UDP. -/
theorem ChainOf.lastFor {hops : List HopConfig} {b : ChainStreamBuilder} (h : ChainOf W hops b)
    (W' : World) (D : Address) :
    (∃ ls, b.LastFor W' D ls ∧ ∀ x ∈ ls, ∃ hop ∈ hops, MadeFrom W' hop x) ∧
    ∃ ls, b.LastForUdp W' D ls ∧ ∀ x ∈ ls, ∃ hop ∈ hops, MadeFrom W' hop x := by
  obtain ⟨_, _, _, _, ls, _, h_plan⟩ := h.udpPlan D
  have h_for := h_plan.lastFor
  unfold ChainStreamBuilder.LastForUdp at h_for
  unfold ChainStreamBuilder.LastFor ChainStreamBuilder.LastForUdp
  cases h_last : b.lastBuilder with
  | none => exact ⟨⟨[], rfl, fun _ hx => (by cases hx)⟩, [], rfl, fun _ hx => (by cases hx)⟩
  | some last =>
    rw [h_last] at h_for
    obtain ⟨x, h_x, _⟩ := h_for
    obtain ⟨h_mem, own, h_own⟩ := h.assembled.stock.of_last last h_last
    have h_make (a : Address) := toChainableStreamBuilder_of_getAddr_some (W := W') h_own a
    -- an addressed hop has been made, so there was an address
    obtain ⟨a, h_a⟩ : ∃ a, (if last.isUot then some D else b.lastUdpAddr) = some a := by
      cases h_addr : (if last.isUot then some D else b.lastUdpAddr) with
      | some a => exact ⟨a, rfl⟩
      | none =>
        rw [h_addr] at h_x
        cases last with
        | vmess _ | trojan _ | ss _ => cases h_x
        | ws _ | h2 _ | tls _ | blackhole _ | direct _ | grpc _ | simpleObfs _ => cases h_own
    obtain ⟨y, h_y, _⟩ := h_make D
    obtain ⟨z, h_z, _⟩ := h_make a
    refine ⟨⟨[y], ⟨y, h_y, rfl⟩, fun x hx => ⟨last, h_mem, some D, ?_⟩⟩,
      [z], ⟨z, by rw [h_a]; exact h_z, rfl⟩, fun x hx => ⟨last, h_mem, some a, ?_⟩⟩
    · rw [List.mem_singleton.mp hx]
      exact h_y
    · rw [List.mem_singleton.mp hx]
      exact h_z

/-! ### Runs -/

/-- In a calm run that does not panic every builder is sound. -/
theorem sound_of_calm {ev : StreamBuilder → Stream → Call} {xs : List StreamBuilder} {io : Stream}
    {cs : List Call} {r : Except Stop Stream}
    (h : Trace.FoldRun ev (fun x io => x.tcpLayer .calm (ev x io) io) xs io cs r)
    (h_r : Unpanicked r) : ∀ x ∈ xs, x.Sound := by
  induction h with
  | nil io => exact fun _ hx => (by cases hx)
  | @stop x xs io e fails =>
    rcases x.tcpLayer_calm (ev x io) io with ⟨_, s, h_ok⟩ | ⟨f, h_f, h_error⟩
    · rw [fails] at h_ok
      cases h_ok
    · rw [fails] at h_error
      exact absurd h_f (h_r f h_error)
  | @step x xs io io' cs r succeeds _ ih =>
    intro y hy
    rcases List.mem_cons.mp hy with rfl | hy
    · rcases y.tcpLayer_calm (ev y io) io with ⟨h_y, _⟩ | ⟨f, _, h_error⟩
      · exact h_y
      · rw [succeeds] at h_error
        cases h_error
    · exact ih h_r y hy

theorem unpanicked_err {α : Type} (e : String) : Unpanicked (.error (.err e) : Except Stop α) := by
  intro f h
  cases h

theorem unpanicked_tcp {b : ChainStreamBuilder} (h_black : b.isBlackHole = false) {D : Address}
    {ls : List StreamBuilder} (h_last : b.LastFor W D ls)
    (h_sound : ∀ x ∈ b.builders ++ ls, x.Sound) : Unpanicked (b.buildTcp W D).result := by
  intro f h_f
  obtain ⟨x, hx, call, io, h_x⟩ := (ChainStreamBuilder.tcpRun h_black h_last).of_fault f h_f
  rw [(StreamBuilder.layer_eq_fault (h_sound x hx)).1 h_x]
  decide

/-- A chain of sound builders does not panic over UDP. -/
theorem unpanicked_udp {b : ChainStreamBuilder} (h_black : b.isBlackHole = false) {D : Address}
    {ls : List StreamBuilder} (h_last : b.LastForUdp W D ls)
    (h_marker : b.buildUdpMarker = uotRight b.layerTypes) (h_ne : b.layerTypes ≠ [])
    (h_sound : ∀ x ∈ b.builders ++ ls, x.Sound) (udpBindIp : IpAddr) :
    Unpanicked (b.buildUdp W D udpBindIp).result := by
  obtain ⟨tcp, ms, h_cons⟩ : ∃ tcp ms, b.buildUdpMarker = tcp :: ms := by
    rw [h_marker]
    cases h_types : b.layerTypes with
    | nil => exact absurd h_types h_ne
    | cons ty types => exact ⟨_, _, rfl⟩
  rw [ChainStreamBuilder.buildUdp_eq h_black h_last h_marker h_cons]
  intro f h_f
  -- a connection fails with an error, so the panic would be that of a layer
  rcases Trace.bind_result_eq_error.mp h_f with h_base | ⟨io, _, h_fold⟩
  · rcases connectBase_run (W := W) tcp (b.tcpBase D) udpBindIp with ⟨e, h_e, _⟩ | ⟨io, h_io, _⟩
    · rw [h_e] at h_base
      cases h_base
    · rw [h_io] at h_base
      cases h_base
  · have h_run := foldRun_udpFold (W := W) ((b.builders ++ ls).zip b.buildUdpMarker) io
    rw [h_fold] at h_run
    obtain ⟨p, hp, io', h_p⟩ := h_run.exists_of_error
    have h_mem := (List.of_mem_zip (a := p.1) (b := p.2) hp).1
    rw [(StreamBuilder.layer_eq_fault (h_sound p.1 h_mem)).2 p.2 h_p]
    decide

theorem ChainStreamBuilder.buildUdp_of_blackhole {b : ChainStreamBuilder}
    (h : b.isBlackHole = true) (D : Address) (udpBindIp : IpAddr) :
    b.buildUdp W D udpBindIp = ⟨[], .error (newError "block connection")⟩ := by
  unfold buildUdp
  rw [h]
  rfl

/-- A chain of no hops has no marker to look at. -/
theorem ChainStreamBuilder.buildUdp_of_no_marker {b : ChainStreamBuilder}
    (h : b.isBlackHole = false) (h_marker : b.buildUdpMarker = []) (D : Address)
    (udpBindIp : IpAddr) :
    (b.buildUdp W D udpBindIp).result = .error (.fault .outOfBounds) := by
  unfold buildUdp
  rw [h, h_marker]
  rfl

/-- In the calm world the run over the builders is all of `build_tcp` that can fail. -/
theorem ChainStreamBuilder.sound_of_unpanicked {b : ChainStreamBuilder} {D : Address}
    {ls : List StreamBuilder} (h_black : b.isBlackHole = false) (h_last : b.LastFor .calm D ls)
    (h : Unpanicked (b.buildTcp .calm D).result) : ∀ x ∈ b.builders ++ ls, x.Sound := by
  have h_fold := Trace.foldRun_foldlM (fun (x : StreamBuilder) io => Call.buildTcp x io)
    (fun (x : StreamBuilder) io => x.tcpLayer .calm (.buildTcp x io) io) (b.builders ++ ls)
    (.tcp (b.tcpBase D))
  rw [buildTcp_eq h_black h_last] at h
  exact sound_of_calm h_fold h

/-- **Panics of a chain**: there are none exactly if it has a black hole, or it has hops and each of
them has what it needs. -/
theorem ChainOf.panicFree_iff {hops : List HopConfig} {b : ChainStreamBuilder}
    (h : ChainOf W hops b)
    (h_vmess : ∀ v, .vmess v ∈ hops → v.securityNum = 3 ∨ v.securityNum = 4) :
    b.NeverPanics ↔ (∃ hop ∈ hops, hop.getProtocolType = .blackhole) ∨
      hops ≠ [] ∧ ∀ hop ∈ hops, hop.Complete := by
  have h_iff : (∃ hop ∈ hops, hop.getProtocolType = .blackhole) ↔ b.isBlackHole = true := by
    rw [h.isBlackHole_eq]
    simp
  have h_perm := h.assembled.layerTypes_perm
  have h_stock := h.assembled.stock
  rw [h_iff]
  constructor
  · intro h_never
    cases h_black : b.isBlackHole with
    | true => exact .inl rfl
    | false =>
      have h_calm := h_never .calm (Config.server 80) (.v4 0)
      refine .inr ⟨?_, fun hop h_hop => ?_⟩
      · rintro rfl
        have h_marker : b.buildUdpMarker = [] := by
          rw [h.marker_eq, h_perm.eq_nil]
          rfl
        have h_fault := ChainStreamBuilder.buildUdp_of_no_marker (W := .calm) h_black h_marker
          (Config.server 80) (.v4 0)
        exact h_calm.2 .outOfBounds h_fault (by decide)
      · cases h_addr : hop.getAddr with
        | some own => exact HopConfig.complete_of_getAddr h_addr
        | none =>
          obtain ⟨⟨ls, h_last, _⟩, _⟩ := h.lastFor .calm (Config.server 80)
          obtain ⟨x, hx, h_made⟩ := h_stock.of_hop hop h_hop h_addr
          have h_sound := ChainStreamBuilder.sound_of_unpanicked h_black h_last h_calm.1 x
            (List.mem_append_left _ hx)
          exact complete_of_madeFrom h_made h_sound
  · intro h_cond W' D udpBindIp
    cases h_black : b.isBlackHole with
    | true =>
      rw [ChainStreamBuilder.buildTcp_of_blackhole h_black,
        ChainStreamBuilder.buildUdp_of_blackhole h_black]
      exact ⟨unpanicked_err _, unpanicked_err _⟩
    | false =>
      have h_open (hop : HopConfig) (h_hop : hop ∈ hops) : hop.getProtocolType ≠ .blackhole := by
        intro h_eq
        have h_true := h_iff.mp ⟨hop, h_hop, h_eq⟩
        rw [h_black] at h_true
        cases h_true
      obtain ⟨h_ne, h_complete⟩ := h_cond.resolve_left (by simp [h_black])
      have h_types : b.layerTypes ≠ [] := by
        intro h_nil
        rw [h_nil] at h_perm
        exact h_ne (List.map_eq_nil_iff.mp h_perm.nil_eq.symm)
      -- whatever was made of a hop is sound, in this world or in the other
      have h_sound {V : World} {x : StreamBuilder} (h_x : ∃ hop ∈ hops, MadeFrom V hop x) :
          x.Sound := by
        obtain ⟨hop, h_hop, h_made⟩ := h_x
        exact sound_of_madeFrom h_made (h_open hop h_hop) (fun v h_v => h_vmess v (h_v ▸ h_hop))
          (h_complete hop h_hop)
      have h_all {ls : List StreamBuilder} (h_ls : ∀ x ∈ ls, ∃ hop ∈ hops, MadeFrom W' hop x) :
          ∀ x ∈ b.builders ++ ls, x.Sound := by
        intro x hx
        rcases List.mem_append.mp hx with hx | hx
        · exact h_sound (h_stock.of_builder x hx)
        · exact h_sound (h_ls x hx)
      obtain ⟨⟨ls, h_last, h_ls⟩, us, h_last', h_us⟩ := h.lastFor W' D
      exact ⟨unpanicked_tcp h_black h_last (h_all h_ls),
        unpanicked_udp h_black h_last' h.marker_eq h_types (h_all h_us) udpBindIp⟩

/-! ### Accepted configurations -/

namespace Config

/-- The default outbound is not part of the chains. -/
theorem innerMap_of_buildServer {R : RouteWorld} {p : Profile} {s : ConfigServerBuilder}
    (h : c.buildServer W R p = .ok s) :
    ({ c with defaultOutbound := c.defaultTag } : Config).buildInnerMap W = .ok s.innerMap := by
  unfold buildServer at h
  rw [withDefaultOutbound_eq] at h
  obtain ⟨map, h_map, h⟩ := bind_eq_ok.mp h
  dsimp only at h
  split at h
  · cases h
  · obtain ⟨router, -, h⟩ := bind_eq_ok.mp h
    cases h
    exact h_map

/-- The chain under a tag of the inner map is that of the last outbound with this tag. -/
theorem find_of_lookup_innerMap {map : InnerMap} (h : c.buildInnerMap W = .ok map) (tag : String) :
    match map.lookup tag with
    | some b => ∃ out, c.outbounds.reverse.find? (·.tag = tag) = some out ∧
        c.buildOutbound W c.configMap out = .ok b
    | none => c.outbounds.reverse.find? (·.tag = tag) = none := by
  refine innerMap_induction (P := fun outs map => match map.lookup tag with
    | some b => ∃ out, outs.reverse.find? (·.tag = tag) = some out ∧
        c.buildOutbound W c.configMap out = .ok b
    | none => outs.reverse.find? (·.tag = tag) = none) rfl ?_ h
  intro outs m out b ih h_b
  rw [List.reverse_append, List.reverse_singleton, List.singleton_append]
  by_cases h_tag : tag = out.tag
  · -- the outbound has replaced what was under its tag
    rw [h_tag, AList.lookup_insert]
    exact ⟨out, List.find?_cons_of_pos (by simp), h_b⟩
  · rw [AList.lookup_insert_ne h_tag, List.find?_cons_of_neg (by simpa using Ne.symm h_tag)]
    exact ih

/-- A builder in the map is the one of an outbound with its tag. -/
theorem exists_of_lookup_innerMap {map : InnerMap} (h : c.buildInnerMap W = .ok map) {tag : String}
    {b : ChainStreamBuilder} (h_tag : map.lookup tag = some b) :
    ∃ out ∈ c.outbounds, out.tag = tag ∧ c.buildOutbound W c.configMap out = .ok b := by
  have h_find := find_of_lookup_innerMap h tag
  rw [h_tag] at h_find
  obtain ⟨out, h_out, h_built⟩ := h_find
  have h_mem := List.mem_reverse.mp (List.mem_of_find?_eq_some h_out)
  have h_eq : out.tag = tag := by simpa using List.find?_some h_out
  exact ⟨out, h_mem, h_eq, h_built⟩

/-- The security of a VMess hop is one of the two that the configuration can name. -/
theorem securityNum_of_resolves (h : c.Deserialized) {chain : List String}
    {hops : List HopConfig} (h_res : Resolves c chain hops) {v : VmessConfig}
    (h_v : .vmess v ∈ hops) : v.securityNum = 3 ∨ v.securityNum = 4 := by
  obtain ⟨t, _, ⟨ty, i⟩, _, h_at⟩ := exists_mem_of_forall₂ h_res.flip _ h_v
  have h_ty := getProtocolType_eq_of_hopAt h_at
  obtain rfl : ProtocolType.vmess = ty := h_ty
  obtain ⟨v', h_v', h_eq⟩ := bind_eq_ok.mp h_at
  cases h_eq
  obtain ⟨hardwareAes, security, h_num⟩ := h v (List.mem_of_getElem? (getElem?_of_index h_v'))
  exact securityNum_of_fromStr h_num

/-- The server is built of these hops under this tag. -/
def Chains (c : Config) (tag : String) (hops : List HopConfig) : Prop :=
  ∃ out ∈ c.outbounds, out.tag = tag ∧ Resolves c out.chain hops

/-- **Panics of an accepted configuration.** A chain of the inner map never panics, in TCP or UDP
and for any destination, exactly if it has a black hole, or it has hops and each of them has what
it needs. -/
theorem neverPanics_iff {R : RouteWorld} {p : Profile} {s : ConfigServerBuilder}
    (h : c.buildServer W R p = .ok s) (h_c : c.Deserialized) {tag : String}
    {b : ChainStreamBuilder} (h_b : s.innerMap.lookup tag = some b) :
    ∃ hops, c.Chains tag hops ∧
      (b.NeverPanics ↔ (∃ hop ∈ hops, hop.getProtocolType = .blackhole) ∨
        hops ≠ [] ∧ ∀ hop ∈ hops, hop.Complete) := by
  obtain ⟨out, h_out, h_tag, h_built⟩ :=
    exists_of_lookup_innerMap (innerMap_of_buildServer h) h_b
  obtain ⟨hops, h_res, h_chain⟩ := chainOf_of_buildOutbound h_built
  have h_res : Resolves c out.chain hops := h_res
  exact ⟨hops, ⟨out, h_out, h_tag, h_res⟩,
    h_chain.panicFree_iff fun v => securityNum_of_resolves h_c h_res⟩

/-- One direct outbound never panics. -/
theorem neverPanics_direct :
    ∃ s b, (Config.tenTo "direct").buildServer .calm .offline .debug = .ok s ∧
      s.innerMap.lookup "direct" = some b ∧ b.NeverPanics := by
  have h : ∃ s, (Config.tenTo "direct").buildServer .calm .offline .debug = .ok s ∧
      ∃ b, s.innerMap.lookup "direct" = some b := ⟨_, rfl, _, rfl⟩
  obtain ⟨s, h_s, b, h_b⟩ := h
  obtain ⟨hops, ⟨out, h_out, _, h_res⟩, h_iff⟩ :=
    neverPanics_iff h_s (fun v h_v => (by cases h_v)) h_b
  refine ⟨s, b, h_s, h_b, h_iff.mpr (.inr ?_)⟩
  obtain rfl := List.mem_singleton.mp h_out
  have h_direct : Resolves (tenTo "direct") ["direct"] [.direct ⟨"direct"⟩] :=
    .cons ⟨_, rfl, rfl⟩ .nil
  rw [h_res.unique h_direct]
  refine ⟨by simp, fun hop h_hop => ?_⟩
  rw [List.mem_singleton.mp h_hop]
  exact trivial

/-- An outbound with an empty chain is accepted, and its first UDP association panics. -/
theorem panics_emptyChain :
    ∃ s b, Config.buildServer .calm .offline .debug { outbounds := [⟨[], "empty"⟩] } = .ok s ∧
      s.innerMap.lookup "empty" = some b ∧
      (b.buildUdp .calm (Config.server 53) (.v4 0)).result = .error (.fault .outOfBounds) ∧
      ¬ b.NeverPanics := by
  refine ⟨_, _, rfl, rfl, rfl, fun h => ?_⟩
  exact (h .calm (Config.server 53) (.v4 0)).2 .outOfBounds rfl (by decide)

end Config

end V2ray

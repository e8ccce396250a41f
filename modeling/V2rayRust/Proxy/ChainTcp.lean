import Mathlib.Data.List.AList
import Mathlib.Tactic.Common
import V2rayRust.Config.InnerMap

/-!
# TCP chains

What `build_tcp` does with the chain of an accepted outbound: which address it connects to,
which address each header names, and in which order the layers lie. The builders and the
last builder are run as one list (`layersTcp_eq`), and a run over a list makes its calls in
order and stacks the layers of its builders (`FoldTcp`).
-/

namespace V2ray

open HopConfig

variable {W : World} {c : Config}

/-! ### Layers of a stream -/

namespace Stream

/-- The layers from the inside out. -/
def layers : Stream → List Layer
  | layered l io => io.layers ++ [l]
  | _ => []

/-- Put layers on a stream, the first one innermost. -/
def overAll (io : Stream) (ls : List Layer) : Stream := ls.foldl (fun io l => .layered l io) io

@[simp] theorem overAll_nil (io : Stream) : io.overAll [] = io := rfl

theorem overAll_append (io : Stream) (ls ls' : List Layer) :
    io.overAll (ls ++ ls') = (io.overAll ls).overAll ls' :=
  List.foldl_append

theorem layers_overAll (io : Stream) (ls : List Layer) :
    (io.overAll ls).layers = io.layers ++ ls := by
  induction ls generalizing io with
  | nil => exact (List.append_nil _).symm
  | cons l ls ih =>
    have h_cons : io.overAll (l :: ls) = (Stream.layered l io).overAll ls := rfl
    rw [h_cons, ih, layers, List.append_assoc]
    rfl

/-- The layers on a stream can be read back. -/
theorem overAll_inj {io : Stream} {ls ls' : List Layer} :
    io.overAll ls = io.overAll ls' ↔ ls = ls' := by
  constructor
  · intro h
    have h_layers := congrArg layers h
    rw [layers_overAll, layers_overAll] at h_layers
    exact List.append_cancel_left h_layers
  · exact congrArg io.overAll

end Stream

/-- The address that the header written with a layer names. -/
def Layer.headerAddr : Layer → Option Address
  | cryptoStream _ _ header => some header
  | vmessStream option => some option.addr
  | trojanHeader (.tcpConnect _ addr) => some addr
  | _ => none

theorem World.attempt_eq_error {call : Call} {e : Stop} (h : W.attempt call = .error e) :
    ∃ m, e = .err m := by
  unfold attempt at h
  split at h
  · cases h
    exact ⟨_, rfl⟩
  · cases h

namespace StreamBuilder

/-- The layer that `build_tcp` of a builder adds, if it succeeds: one, or none for
`DirectStreamBuilder`. -/
def tcpLayers (W : World) : StreamBuilder → List Layer
  | vmess o => [.vmessStream o]
  | trojan password addr => [.trojanHeader (.tcpConnect password addr)]
  | shadowsocks addr method key => [.cryptoStream method key addr]
  | tls certFile sni verifyHostname verifySni => [.tls certFile sni verifyHostname verifySni]
  | ws uri headers maxEarlyData earlyDataHeaderName =>
    match wsReq W uri headers maxEarlyData earlyDataHeaderName with
    | .ok req =>
      if 0 < maxEarlyData then
        [.binaryWsStreamWithEarlyData req earlyDataHeaderName maxEarlyData]
      else [.binaryWsStream req]
    | .error _ => []
  | grpc host path =>
    match grpcReq W host path with
    | .ok req => [.grpcStream req]
    | .error _ => []
  | h2 hosts headers method path =>
    match h2Req W hosts headers method path with
    | .ok req => [.http2Stream req]
    | .error _ => []
  | simpleObfs host => [.httpObfs host]
  | direct => []
  | blackhole => []

/-- **What `build_tcp` of one builder makes of a stream.** -/
theorem tcpLayer_eq_ok {b : StreamBuilder} {call : Call} {io s : Stream}
    (h : b.tcpLayer W call io = .ok s) :
    s = io.overAll (b.tcpLayers W) ∧ (b.tcpLayers W = [] ↔ b.protocolType = .direct) := by
  cases b with
  | vmess o =>
    replace h : newVmessStream o io = .ok s := h
    unfold newVmessStream at h
    split at h <;> cases h
    exact ⟨rfl, fun h => (by cases h), fun h => (by cases h)⟩
  | trojan _ _ | shadowsocks _ _ _ | tls _ _ _ _ =>
    obtain ⟨_, _, h⟩ := bind_eq_ok.mp h
    cases h
    exact ⟨rfl, fun h => (by cases h), fun h => (by cases h)⟩
  | ws uri headers m name =>
    obtain ⟨req, h_req, h⟩ := bind_eq_ok.mp h
    rw [tcpLayers, h_req]
    dsimp only at h ⊢
    -- with early data the handshake is left to the first write
    by_cases hm : 0 < m
    · rw [if_pos hm] at h ⊢
      cases h
      exact ⟨rfl, fun h => (by cases h), fun h => (by cases h)⟩
    · rw [if_neg hm] at h ⊢
      obtain ⟨_, _, h⟩ := bind_eq_ok.mp h
      cases h
      exact ⟨rfl, fun h => (by cases h), fun h => (by cases h)⟩
  | grpc _ _ | h2 _ _ _ _ =>
    obtain ⟨_, _, h⟩ := bind_eq_ok.mp h
    obtain ⟨req, h_req, h⟩ := bind_eq_ok.mp h
    cases h
    rw [tcpLayers, h_req]
    exact ⟨rfl, fun h => (by cases h), fun h => (by cases h)⟩
  | simpleObfs _ =>
    cases h
    exact ⟨rfl, fun h => (by cases h), fun h => (by cases h)⟩
  | direct =>
    cases h
    exact ⟨rfl, fun _ => rfl, fun _ => rfl⟩
  | blackhole => cases h

/-- The faults that a layer can stop with; none is of an address or of an index. -/
def layerFaults : List Fault :=
  [.unimplemented, .remByZero, .unwrapNone "authority", .unwrapNone "request"]

theorem attempt_ne_fault (call : Call) (f : Fault) : W.attempt call ≠ .error (.fault f) := by
  intro h
  obtain ⟨_, h⟩ := World.attempt_eq_error h
  cases h

theorem body_fault {req : Request} {f : Fault} (h : W.body req = .error (.fault f)) :
    f ∈ layerFaults := by
  unfold World.body at h
  split at h
  · cases h
  · obtain rfl : Fault.unwrapNone "request" = f := by simpa using h
    decide

theorem httpsUri_ne_fault (authority path : String) (f : Fault) :
    httpsUri W authority path ≠ .error (.fault f) := by
  unfold httpsUri
  split <;> simp

theorem wsReq_fault {uri : Uri} {headers : List (String × String)} {m : ℕ} {name : String}
    {f : Fault} (h : wsReq W uri headers m name = .error (.fault f)) : f ∈ layerFaults := by
  unfold wsReq at h
  split at h
  · obtain rfl : Fault.unwrapNone "authority" = f := by simpa using h
    decide
  · exact body_fault h

/-- A fault of an HTTP/2 request is one that a layer can have. -/
theorem h2Req_fault {hosts : List String} {headers : List (String × String)}
    {method path : String} {f : Fault}
    (h : h2Req W hosts headers method path = .error (.fault f)) : f ∈ layerFaults := by
  unfold h2Req at h
  by_cases h_hosts : hosts.length = 0
  · rw [if_pos h_hosts] at h
    cases h
    decide
  · rw [if_neg h_hosts] at h
    -- the index is a remainder by the length
    have h_lt : W.random % hosts.length < hosts.length :=
      Nat.mod_lt _ (Nat.pos_of_ne_zero h_hosts)
    rw [List.getElem?_eq_getElem h_lt] at h
    rcases bind_eq_error.mp h with h | ⟨_, _, h⟩
    · exact absurd h (httpsUri_ne_fault _ _ _)
    · exact body_fault h

/-- So is a fault of the transport. -/
theorem transportLayer_fault {b : StreamBuilder} {call : Call} {io : Stream} {f : Fault}
    (h : b.transportLayer W call io = .error (.fault f)) : f ∈ layerFaults := by
  cases b with
  | tls _ _ _ _ =>
    rcases bind_eq_error.mp h with h | ⟨_, _, h⟩
    · exact absurd h (attempt_ne_fault _ _)
    · cases h
  -- the request is made first, and with early data nothing else is
  | ws uri headers m name =>
    rcases bind_eq_error.mp h with h | ⟨req, _, h⟩
    · exact wsReq_fault h
    · by_cases hm : 0 < m
      · rw [if_pos hm] at h
        cases h
      · rw [if_neg hm] at h
        rcases bind_eq_error.mp h with h | ⟨_, _, h⟩
        · exact absurd h (attempt_ne_fault _ _)
        · cases h
  | grpc host path =>
    rcases bind_eq_error.mp h with h | ⟨_, _, h⟩
    · exact absurd h (attempt_ne_fault _ _)
    · rcases bind_eq_error.mp h with h | ⟨_, _, h⟩
      · rcases bind_eq_error.mp h with h | ⟨_, _, h⟩
        · exact absurd h (httpsUri_ne_fault _ _ _)
        · cases h
      · cases h
  | h2 hosts headers method path =>
    rcases bind_eq_error.mp h with h | ⟨_, _, h⟩
    · exact absurd h (attempt_ne_fault _ _)
    · rcases bind_eq_error.mp h with h | ⟨_, _, h⟩
      · exact h2Req_fault h
      · cases h
  | vmess _ | trojan _ _ | shadowsocks _ _ _ | simpleObfs _ | direct | blackhole => cases h

theorem newVmessStream_fault {o : VmessOption} {io : Stream} {f : Fault}
    (h : newVmessStream o io = .error (.fault f)) : f ∈ layerFaults := by
  unfold newVmessStream at h
  split at h
  · cases h
  · obtain rfl : Fault.unimplemented = f := by simpa using h
    decide

/-- The faults of a builder over TCP. -/
theorem tcpLayer_fault {b : StreamBuilder} {call : Call} {io : Stream} {f : Fault}
    (h : b.tcpLayer W call io = .error (.fault f)) : f ∈ layerFaults := by
  cases b with
  | vmess o => exact newVmessStream_fault h
  | trojan _ _ | shadowsocks _ _ _ =>
    rcases bind_eq_error.mp h with h | ⟨_, _, h⟩
    · exact absurd h (attempt_ne_fault _ _)
    · cases h
  | direct => cases h
  | blackhole =>
    cases h
    decide
  | tls f n v w => exact transportLayer_fault (b := .tls f n v w) h
  | ws u hs m n => exact transportLayer_fault (b := .ws u hs m n) h
  | grpc host path => exact transportLayer_fault (b := .grpc host path) h
  | h2 hs fs m path => exact transportLayer_fault (b := .h2 hs fs m path) h
  | simpleObfs _ => cases h

/-- The faults of a builder over UDP. -/
theorem udpLayer_fault {b : StreamBuilder} {call : Call} {io : Stream} {tcpInside : Bool}
    {f : Fault} (h : b.udpLayer W call io tcpInside = .error (.fault f)) : f ∈ layerFaults := by
  cases b with
  | vmess o => exact newVmessStream_fault h
  | trojan _ _ =>
    rcases bind_eq_error.mp h with h | ⟨_, _, h⟩
    · exact absurd h (attempt_ne_fault _ _)
    · cases tcpInside <;> cases h
  | shadowsocks _ _ _ =>
    cases tcpInside with
    | false => cases h
    -- inside a TCP part the stream is made over what is below
    | true =>
      rcases bind_eq_error.mp h with h | ⟨_, _, h⟩
      · exact absurd h (attempt_ne_fault _ _)
      · cases h
  | direct => cases h
  | blackhole =>
    cases h
    decide
  | tls g n v w =>
    cases tcpInside with
    | false => cases h
    | true => exact transportLayer_fault (b := .tls g n v w) h
  | ws u hs m n =>
    cases tcpInside with
    | false => cases h
    | true => exact transportLayer_fault (b := .ws u hs m n) h
  | grpc host path =>
    cases tcpInside with
    | false => cases h
    | true => exact transportLayer_fault (b := .grpc host path) h
  | h2 hs fs m path =>
    cases tcpInside with
    | false => cases h
    | true => exact transportLayer_fault (b := .h2 hs fs m path) h
  | simpleObfs _ => cases tcpInside <;> cases h

/-- A builder with an address adds one layer, whose header names it. -/
theorem tcpLayers_of_getAddr {b : StreamBuilder} {a : Address} (h : b.getAddr = some a) :
    ∃ l, b.tcpLayers W = [l] ∧ l.headerAddr = some a := by
  cases b with
  | vmess _ | trojan _ _ | shadowsocks _ _ _ => exact ⟨_, rfl, h⟩
  | tls _ _ _ _ | ws _ _ _ _ | grpc _ _ | h2 _ _ _ _ | simpleObfs _ | direct | blackhole =>
    cases h

/-- The other layers write no header of ours. -/
theorem headerAddr_of_no_addr {b : StreamBuilder} (h : b.getAddr = none) :
    ∀ l ∈ b.tcpLayers W, l.headerAddr = none := by
  intro l hl
  cases b with
  | vmess _ | trojan _ _ | shadowsocks _ _ _ => cases h
  | tls _ _ _ _ | simpleObfs _ =>
    rw [List.mem_singleton.mp hl]
    rfl
  | ws uri headers m name =>
    rw [tcpLayers] at hl
    split at hl
    · split at hl <;> rw [List.mem_singleton.mp hl] <;> rfl
    · cases hl
  | grpc _ _ | h2 _ _ _ _ =>
    rw [tcpLayers] at hl
    split at hl
    · rw [List.mem_singleton.mp hl]
      rfl
    · cases hl
  | direct | blackhole => cases hl

end StreamBuilder

/-! ### A run over builders -/

/-- The builder of a `build_tcp` call. -/
def Call.tcpBuilder : Call → Option StreamBuilder
  | buildTcp b _ => some b
  | _ => none

/-- What a run of `build_tcp`s over `bs` leaves: it calls the builders in order, as far as
it gets, and a run that returns has put the layers of all of them on the stream. -/
structure FoldTcp (W : World) (bs : List StreamBuilder) (io : Stream)
    (run : Trace Call Stop Stream) : Prop where
  calls_prefix : run.calls.map Call.tcpBuilder <+: bs.map some
  of_ok : ∀ s, run.result = .ok s → run.calls.map Call.tcpBuilder = bs.map some ∧
    s = io.overAll (bs.flatMap (StreamBuilder.tcpLayers W)) ∧
    ∀ b ∈ bs, b.tcpLayers W = [] ↔ b.protocolType = .direct
  of_error : ∀ e, run.result = .error e → ∃ b ∈ bs, ∃ call io', b.tcpLayer W call io' = .error e

/-- How the builders of a chain end, one over the other. -/
theorem foldTcp (bs : List StreamBuilder) (io : Stream) :
    FoldTcp W bs io (bs.foldlM (fun io b => StreamBuilder.buildTcp W b io) io) := by
  have h_run : Trace.FoldRun _ _ _ _ _ _ := Trace.foldRun_foldlM
    (fun (b : StreamBuilder) io => Call.buildTcp b io)
    (fun (b : StreamBuilder) io => b.tcpLayer W (.buildTcp b io) io) bs io
  change Trace.FoldRun _ _ bs io (bs.foldlM (fun io b => StreamBuilder.buildTcp W b io) io).calls
    (bs.foldlM (fun io b => StreamBuilder.buildTcp W b io) io).result at h_run
  generalize bs.foldlM (fun io b => StreamBuilder.buildTcp W b io) io = run at h_run
  obtain ⟨calls, result⟩ := run
  dsimp only at h_run
  induction h_run with
  | nil io =>
    refine ⟨List.prefix_refl _, fun s hs => ?_, fun e he => (by cases he)⟩
    cases hs
    exact ⟨rfl, rfl, fun _ h => (by cases h)⟩
  | @stop b bs io e fails =>
    refine ⟨List.prefix_append [some b] _, fun s hs => (by cases hs), fun e' he => ?_⟩
    cases he
    exact ⟨b, List.mem_cons_self, _, _, fails⟩
  | @step b bs io io' cs r succeeds _ ih =>
    -- this builder has put its layers on `io`; the rest of the run starts over them
    obtain ⟨rfl, h_own⟩ := StreamBuilder.tcpLayer_eq_ok succeeds
    refine ⟨(List.prefix_cons_inj _).mpr ih.calls_prefix, fun s hs => ?_, fun e he => ?_⟩
    · obtain ⟨h_calls, h_s, h_bs⟩ := ih.of_ok s hs
      refine ⟨congrArg (some b :: ·) h_calls, ?_, ?_⟩
      · rw [h_s, List.flatMap_cons, Stream.overAll_append]
      · intro x hx
        rcases List.mem_cons.mp hx with rfl | hx
        · exact h_own
        · exact h_bs x hx
    · obtain ⟨x, hx, h_x⟩ := ih.of_error e he
      exact ⟨x, List.mem_cons_of_mem _ hx, h_x⟩

namespace ChainStreamBuilder

/-- The builder that `build_tcp` makes of the last builder. -/
def LastFor (W : World) (b : ChainStreamBuilder) (D : Address) (ls : List StreamBuilder) :
    Prop :=
  match b.lastBuilder with
  | some last => ∃ x, last.toChainableStreamBuilder W (some D) = .ok x ∧ ls = [x]
  | none => ls = []

/-- The last builder is run like the others. -/
theorem layersTcp_eq {b : ChainStreamBuilder} {D : Address} {ls : List StreamBuilder}
    (h : b.LastFor W D ls) (io : Stream) :
    b.layersTcp W D io = (b.builders ++ ls).foldlM (fun io x => x.buildTcp W io) io := by
  unfold layersTcp
  unfold LastFor at h
  rw [List.foldlM_append]
  cases h_last : b.lastBuilder with
  | none =>
    rw [h_last] at h
    rw [h]
    rfl
  | some last =>
    rw [h_last] at h
    obtain ⟨x, h_x, rfl⟩ := h
    refine bind_congr fun io' => ?_
    dsimp only
    rw [h_x]
    exact (bind_pure _).symm

/-- The connection that `build_tcp` opens. -/
def tcpBase (b : ChainStreamBuilder) (D : Address) : Address := b.remoteAddr.getD D

theorem buildTcp_eq {b : ChainStreamBuilder} (h : b.isBlackHole = false) {D : Address}
    {ls : List StreamBuilder} (h_last : b.LastFor W D ls) :
    b.buildTcp W D = connectTcp W (b.tcpBase D) >>= fun io =>
      (b.builders ++ ls).foldlM (fun io x => x.buildTcp W io) io := by
  unfold buildTcp tcpBase
  rw [h, if_neg Bool.false_ne_true]
  cases b.remoteAddr <;> exact bind_congr fun io => layersTcp_eq h_last io

theorem buildTcp_of_blackhole {b : ChainStreamBuilder} (h : b.isBlackHole = true) (D : Address) :
    b.buildTcp W D = ⟨[], .error (newError "block connection")⟩ := by
  unfold buildTcp
  rw [h]
  rfl

/-- What a run of `build_tcp` leaves. -/
structure TcpRun (W : World) (base : Address) (bs : List StreamBuilder)
    (run : Trace Call Stop Stream) : Prop where
  /-- the first call connects to `base`, the others build -/
  calls_eq : ∃ rest, run.calls = .connectTcp base :: rest ∧
    rest.map Call.tcpBuilder <+: bs.map some ∧
    ∀ s, run.result = .ok s → rest.map Call.tcpBuilder = bs.map some
  of_ok : ∀ s, run.result = .ok s →
    s = (Stream.tcp base).overAll (bs.flatMap (StreamBuilder.tcpLayers W)) ∧
    ∀ b ∈ bs, b.tcpLayers W = [] ↔ b.protocolType = .direct
  of_fault : ∀ f, run.result = .error (.fault f) →
    ∃ b ∈ bs, ∃ call io, b.tcpLayer W call io = .error (.fault f)

/-- How `build_tcp` ends: the base of the chain, and then its builders. -/
theorem tcpRun {b : ChainStreamBuilder} (h : b.isBlackHole = false) {D : Address}
    {ls : List StreamBuilder} (h_last : b.LastFor W D ls) :
    TcpRun W (b.tcpBase D) (b.builders ++ ls) (b.buildTcp W D) := by
  rw [buildTcp_eq h h_last]
  unfold connectTcp
  cases h_io : W.attempt (.connectTcp (b.tcpBase D)) with
  | error e =>
    refine ⟨⟨[], rfl, List.nil_prefix, ?_⟩, ?_, ?_⟩
    · intro s hs
      cases hs
    · intro s hs
      cases hs
    · intro f hf
      obtain ⟨m, rfl⟩ := World.attempt_eq_error h_io
      cases hf
  | ok u =>
    have h_fold := foldTcp (W := W) (b.builders ++ ls) (.tcp (b.tcpBase D))
    exact ⟨⟨_, rfl, h_fold.calls_prefix, fun s hs => (h_fold.of_ok s hs).1⟩,
      fun s hs => (h_fold.of_ok s hs).2, fun f hf => h_fold.of_error _ hf⟩

end ChainStreamBuilder

/-! ### Chain and run -/

namespace HopConfig

/-- The hops that carry an address. -/
def addressed (hops : List HopConfig) : List HopConfig := hops.filter (·.getAddr.isSome)

/-- What the headers of the addressed hops are to name: each the address of the next one, and
the last one `D`. -/
def headerAddrs (hops : List HopConfig) (D : Address) : List Address :=
  match hops.filterMap getAddr with
  | [] => []
  | _ :: rest => rest ++ [D]

theorem headerAddrs_cons_of_none {hop : HopConfig} (h : hop.getAddr = none)
    (hops : List HopConfig) (D : Address) : headerAddrs (hop :: hops) D = headerAddrs hops D := by
  unfold headerAddrs
  rw [List.filterMap_cons_none h]

theorem headerAddrs_cons_of_some {hop : HopConfig} {own : Address} (h : hop.getAddr = some own)
    (hops : List HopConfig) (D : Address) :
    headerAddrs (hop :: hops) D = (nextAddr hops).getD D :: headerAddrs hops D := by
  unfold headerAddrs
  rw [List.filterMap_cons_some h, nextAddr_eq_head?]
  cases hops.filterMap getAddr <;> rfl

/-- The hops after the last addressed one; none if no hop is addressed. -/
def afterLastAddr : List HopConfig → List HopConfig
  | [] => []
  | hop :: hops =>
    if (nextAddr hops).isSome then afterLastAddr hops
    else if hop.getAddr.isSome then hops
    else []

theorem afterLastAddr_of_no_addr {hops : List HopConfig} (h : ∀ x ∈ hops, x.getAddr = none) :
    afterLastAddr hops = [] := by
  cases hops with
  | nil => rfl
  | cons hop hops =>
    rw [afterLastAddr, nextAddr_eq_none fun x hx => h x (List.mem_cons_of_mem _ hx),
      h hop List.mem_cons_self]
    rfl

/-- Hops without an address are after the last hop that has one. -/
theorem afterLastAddr_append {last : HopConfig} {own : Address} {tail : List HopConfig}
    (front : List HopConfig) (h_last : last.getAddr = some own)
    (h_tail : ∀ x ∈ tail, x.getAddr = none) :
    afterLastAddr (front ++ last :: tail) = tail := by
  induction front with
  | nil => rw [List.nil_append, afterLastAddr, nextAddr_eq_none h_tail, h_last]; rfl
  | cons hop front ih =>
    have h_next : (nextAddr (front ++ last :: tail)).isSome = true := by
      rw [nextAddr_append, nextAddr_cons, h_last]
      cases nextAddr front <;> rfl
    rw [List.cons_append, afterLastAddr, if_pos h_next, ih]

end HopConfig

/-- The builders of a chain for the destination `D`: those pushed before the last addressed
hop was met, that hop's own (`ls`, at most one), and those pushed after it. -/
structure TcpPlan (W : World) (hops : List HopConfig) (b : ChainStreamBuilder) (D : Address)
    (fs ls ts : List StreamBuilder) : Prop where
  builders_eq : b.builders = fs ++ ts
  lastFor : b.LastFor W D ls
  makes : Makes W (some D) hops (fs ++ (ls ++ ts))
  last_addr : ls = [] ∧ ts = [] ∨ ∃ x, ls = [x] ∧ x.getAddr = some D
  no_addr : ∀ x ∈ ts, x.getAddr = none
  types_eq : ts.map StreamBuilder.protocolType = (afterLastAddr hops).map getProtocolType

/-- The addressed hops of a chain are made once each, in order, for the addresses that their
headers are to name. -/
theorem Makes.addressed {hops : List HopConfig} {bs : List StreamBuilder} {D : Address}
    (h : Makes W (some D) hops bs) :
    List.Forall₂ (fun hop x => hop.toChainableStreamBuilder W x.getAddr = .ok x)
        (HopConfig.addressed hops) (bs.filter (·.getAddr.isSome)) ∧
      bs.filterMap StreamBuilder.getAddr = headerAddrs hops D := by
  induction h with
  | nil => exact ⟨List.Forall₂.nil, rfl⟩
  | @cons hop hops x bs head _ ih =>
    obtain ⟨ih_made, ih_addrs⟩ := ih
    unfold HopConfig.addressed at ih_made ⊢
    cases h_addr : hop.getAddr with
    | none =>
      have h_x : x.getAddr = none := by
        simpa [h_addr] using getAddr_isSome_eq head
      rw [List.filter_cons_of_neg (by simp [h_addr]), List.filter_cons_of_neg (by simp [h_x]),
        List.filterMap_cons_none h_x, headerAddrs_cons_of_none h_addr]
      exact ⟨ih_made, ih_addrs⟩
    | some own =>
      -- the next address, or `D` if there is none
      have h_next : (nextAddr hops).or (some D) = some ((nextAddr hops).getD D) := by
        cases nextAddr hops <;> rfl
      rw [h_next] at head
      obtain ⟨x', h_x', h_own⟩ :=
        toChainableStreamBuilder_of_getAddr_some (W := W) h_addr ((nextAddr hops).getD D)
      obtain rfl : x = x' := by simpa [h_x'] using head.symm
      rw [List.filter_cons_of_pos (by simp [h_addr]), List.filter_cons_of_pos (by simp [h_own]),
        List.filterMap_cons_some h_own, headerAddrs_cons_of_some h_addr, ih_addrs]
      refine ⟨List.Forall₂.cons ?_ ih_made, rfl⟩
      rw [h_own]
      exact head

/-- An assembled chain has a plan: the hops with an address first, each with the address of the
next, and then those without. -/
theorem Assembled.tcpPlan {hops : List HopConfig} {b : ChainStreamBuilder}
    (h : Assembled W hops b) (D : Address) : ∃ fs ls ts, TcpPlan W hops b D fs ls ts := by
  cases h with
  | plain no_addr makes last_eq =>
    refine ⟨b.builders, [], [], (List.append_nil _).symm, ?_, ?_, Or.inl ⟨rfl, rfl⟩,
      fun _ h => (by cases h), ?_⟩
    · unfold ChainStreamBuilder.LastFor
      rw [last_eq]
    · rw [List.append_nil, List.append_nil]
      exact makes.of_no_addr no_addr _
    · rw [afterLastAddr_of_no_addr no_addr]
      rfl
  | addressed front last tail fs ts own hops_eq last_addr no_addr makes_front makes_tail
      builders_eq last_eq =>
    -- the last builder with an address is made anew for each target
    obtain ⟨x, h_x, h_addr⟩ := toChainableStreamBuilder_of_getAddr_some (W := W) last_addr D
    have h_tail := makes_tail.of_no_addr no_addr (some D)
    refine ⟨fs, [x], ts, builders_eq, ?_, ?_, Or.inr ⟨x, rfl, h_addr⟩, ?_, ?_⟩
    · unfold ChainStreamBuilder.LastFor
      rw [last_eq]
      exact ⟨x, h_x, rfl⟩
    · rw [hops_eq]
      refine Makes.append ?_ (Makes.cons ?_ h_tail)
      · rw [nextAddr_cons, last_addr]
        exact makes_front
      · rw [nextAddr_eq_none no_addr]
        exact h_x
    · exact makes_tail.getAddr_eq_none no_addr
    · rw [makes_tail.protocolTypes, hops_eq, afterLastAddr_append front last_addr no_addr]

/-! ### A configuration to try -/

namespace Config

/-- The address of a server. -/
def server (port : UInt16) : Address := .socketAddress (.v4 0x0a000001#32 port)

/-- Shadowsocks and TLS in both orders, a Shadowsocks pair, VMess alone and over TLS, and a
black hole. -/
def sample : Config where
  ss := [⟨server 8388, "pw", .none, "s"⟩, ⟨server 8389, "pw", .none, "s2"⟩]
  tls := [⟨"example.org", none, true, true, "t"⟩]
  vmess := [⟨server 443, 0, 3, "v"⟩]
  blackhole := [⟨"b"⟩]
  defaultOutbound := "pair"
  outbounds := [⟨["t", "s", "s2"], "pair"⟩, ⟨["s", "t"], "late"⟩, ⟨["v"], "alone"⟩,
    ⟨["t", "v"], "secure"⟩, ⟨["b"], "block"⟩]

def sampleSs : HopConfig := .ss ⟨server 8388, "pw", .none, "s"⟩
def sampleSs2 : HopConfig := .ss ⟨server 8389, "pw", .none, "s2"⟩
def sampleTls : HopConfig := .tls ⟨"example.org", none, true, true, "t"⟩

def sampleVmess : HopConfig := .vmess ⟨server 443, 0, 3, "v"⟩

theorem sample_pair : ∃ b, Accepts .calm sample ⟨["t", "s", "s2"], "pair"⟩ b :=
  exists_accepts rfl (by decide)

theorem sample_pair_resolves :
    Resolves sample ["t", "s", "s2"] [sampleTls, sampleSs, sampleSs2] :=
  .cons ⟨_, rfl, rfl⟩ (.cons ⟨_, rfl, rfl⟩ (.cons ⟨_, rfl, rfl⟩ .nil))

end Config

section Accepted

variable {out : Outbounds} {b : ChainStreamBuilder} {hops : List HopConfig}

theorem ChainOf.tcpBase_eq (h : ChainOf W hops b) (D : Address) :
    b.tcpBase D = (nextAddr hops).getD D :=
  congrArg (Option.getD · D) h.remoteAddr_eq

/-- A chain that returned a stream is not closed. -/
theorem isBlackHole_of_ok {D : Address} {s : Stream}
    (h : (b.buildTcp W D).result = .ok s) : b.isBlackHole = false := by
  by_contra h_black
  rw [ChainStreamBuilder.buildTcp_of_blackhole (by simpa using h_black)] at h
  cases h

/-- The last addressed hop, which is built last, is at its place only if nothing that was
built before it belongs over it. -/
theorem TcpPlan.layers_eq_iff {D : Address} {fs ls ts : List StreamBuilder}
    (h : TcpPlan W hops b D fs ls ts) :
    (b.builders ++ ls).flatMap (StreamBuilder.tcpLayers W) =
        (fs ++ (ls ++ ts)).flatMap (StreamBuilder.tcpLayers W) ↔
      ∀ x ∈ ts, x.tcpLayers W = [] := by
  rw [h.builders_eq, List.append_assoc]
  simp only [List.flatMap_append, List.append_cancel_left_eq]
  rcases h.last_addr with ⟨rfl, rfl⟩ | ⟨x, rfl, h_x⟩
  · simp
  · obtain ⟨l, h_l, h_addr⟩ := StreamBuilder.tcpLayers_of_getAddr (W := W) h_x
    have h_single : [x].flatMap (StreamBuilder.tcpLayers W) = [l] := by simp [h_l]
    rw [h_single]
    constructor
    · intro h_eq
      -- the layers after the last addressed hop name no address, `l` does
      apply List.flatMap_eq_nil_iff.mp
      cases h_ts : ts.flatMap (StreamBuilder.tcpLayers W) with
      | nil => rfl
      | cons l' _ =>
        rw [h_ts] at h_eq
        obtain ⟨y, hy, h_mem⟩ : ∃ y ∈ ts, l' ∈ y.tcpLayers W := by
          apply List.mem_flatMap.mp
          rw [h_ts]
          exact List.mem_cons_self
        have h_none := StreamBuilder.headerAddr_of_no_addr (h.no_addr y hy) l' h_mem
        rw [List.head_eq_of_cons_eq h_eq, h_addr] at h_none
        cases h_none
    · intro h_nil
      rw [List.flatMap_eq_nil_iff.mpr h_nil]
      rfl

/-- **The order of the layers.** The stream of a chain has the layers of its hops in chain
order, each over the one before, exactly if every hop after the last addressed one is
direct (and adds no layer). -/
theorem buildTcp_order_iff (h : Accepts W c out b) (h_res : Resolves c out.chain hops)
    (D : Address) (s : Stream) (h_run : (b.buildTcp W D).result = .ok s) :
    ∃ bs, Makes W (some D) hops bs ∧
      (s = (Stream.tcp ((nextAddr hops).getD D)).overAll
          (bs.flatMap (StreamBuilder.tcpLayers W)) ↔
        ∀ hop ∈ afterLastAddr hops, hop.getProtocolType = .direct) := by
  have h_chain := h.chainOf h_res
  obtain ⟨fs, ls, ts, h_plan⟩ := h_chain.assembled.tcpPlan D
  have h_tcp := ChainStreamBuilder.tcpRun (isBlackHole_of_ok h_run) h_plan.lastFor
  obtain ⟨h_s, h_own⟩ := h_tcp.of_ok s h_run
  refine ⟨fs ++ (ls ++ ts), h_plan.makes, ?_⟩
  rw [h_s, h_chain.tcpBase_eq, Stream.overAll_inj, h_plan.layers_eq_iff]
  have h_direct : (∀ x ∈ ts, x.tcpLayers W = []) ↔ ∀ x ∈ ts, x.protocolType = .direct := by
    refine forall₂_congr fun x hx => h_own x ?_
    rw [h_plan.builders_eq]
    exact List.mem_append_left _ (List.mem_append_right _ hx)
  have h_types : (∀ x ∈ ts, x.protocolType = .direct) ↔
      ∀ ty ∈ ts.map StreamBuilder.protocolType, ty = .direct := by
    simp
  rw [h_direct, h_types, h_plan.types_eq]
  simp

/-- Three hops in the order of the configuration. -/
theorem buildTcp_order_pair : ∃ b bs s, Accepts .calm .sample ⟨["t", "s", "s2"], "pair"⟩ b ∧
    (b.buildTcp .calm (Config.server 80)).result = .ok s ∧
    Makes .calm (some (Config.server 80))
      [Config.sampleTls, Config.sampleSs, Config.sampleSs2] bs ∧
    s = (Stream.tcp (Config.server 8388)).overAll (bs.flatMap (StreamBuilder.tcpLayers .calm)) := by
  obtain ⟨b, h⟩ := Config.sample_pair
  have h_built := h.built
  cases h_built
  obtain ⟨bs, h_makes, h_iff⟩ :=
    buildTcp_order_iff h Config.sample_pair_resolves (Config.server 80) _ rfl
  refine ⟨_, bs, _, h, rfl, h_makes, h_iff.mpr ?_⟩
  decide

/-- A transport that follows the last addressed hop is put under it. -/
theorem buildTcp_order_late :
    ¬ ∀ (W : World) (c : Config) (out : Outbounds) (b : ChainStreamBuilder)
        (hops : List HopConfig) (bs : List StreamBuilder) (D : Address) (s : Stream),
      Accepts W c out b → Resolves c out.chain hops → Makes W (some D) hops bs →
      (b.buildTcp W D).result = .ok s →
      s = (Stream.tcp ((nextAddr hops).getD D)).overAll
        (bs.flatMap (StreamBuilder.tcpLayers W)) := by
  intro h
  have h_accepts : ∃ b, Accepts .calm .sample ⟨["s", "t"], "late"⟩ b :=
    exists_accepts rfl (by decide)
  obtain ⟨b, h_b⟩ := h_accepts
  have h_built := h_b.built
  cases h_built
  have h_s := h .calm .sample _ _ [Config.sampleSs, Config.sampleTls] _ (Config.server 80) _ h_b
    (.cons ⟨_, rfl, rfl⟩ (.cons ⟨_, rfl, rfl⟩ .nil)) (.cons rfl (.cons rfl .nil)) rfl
  revert h_s
  decide

/-- The addressed builders among the calls of a run. -/
def addressedCalls (calls : List Call) : List StreamBuilder :=
  (calls.filterMap Call.tcpBuilder).filter (·.getAddr.isSome)

/-- In the run as in the chain, the addressed builders come in the same order. -/
theorem TcpPlan.filter_eq {D : Address} {fs ls ts : List StreamBuilder}
    (h : TcpPlan W hops b D fs ls ts) :
    (b.builders ++ ls).filter (·.getAddr.isSome) =
      (fs ++ (ls ++ ts)).filter (·.getAddr.isSome) := by
  have h_ts : ts.filter (·.getAddr.isSome) = [] := by
    apply List.filter_eq_nil_iff.mpr
    intro x hx
    simp [h.no_addr x hx]
  rw [h.builders_eq]
  simp [h_ts]

theorem map_getAddr_filter (bs : List StreamBuilder) :
    (bs.filter (·.getAddr.isSome)).map StreamBuilder.getAddr =
      (bs.filterMap StreamBuilder.getAddr).map some := by
  induction bs with
  | nil => rfl
  | cons x bs ih => cases h_x : x.getAddr <;> simp [h_x, ih]

/-- The addresses in the headers are those of the builders. -/
theorem filterMap_headerAddr (bs : List StreamBuilder) :
    (bs.flatMap (StreamBuilder.tcpLayers W)).filterMap Layer.headerAddr =
      bs.filterMap StreamBuilder.getAddr := by
  induction bs with
  | nil => rfl
  | cons x bs ih =>
    rw [List.flatMap_cons, List.filterMap_append, ih]
    cases h_x : x.getAddr with
    | none =>
      have h_nil : (x.tcpLayers W).filterMap Layer.headerAddr = [] :=
        List.filterMap_eq_nil_iff.mpr (StreamBuilder.headerAddr_of_no_addr h_x)
      rw [h_nil, List.filterMap_cons_none h_x]
      rfl
    | some a =>
      obtain ⟨l, h_l, h_addr⟩ := StreamBuilder.tcpLayers_of_getAddr (W := W) h_x
      rw [h_l, List.filterMap_cons_some h_x]
      simp [h_addr]

/-- The header addresses in the order of the run are those in the order of the chain. -/
theorem TcpPlan.filterMap_getAddr {D : Address} {fs ls ts : List StreamBuilder}
    (h : TcpPlan W hops b D fs ls ts) :
    (b.builders ++ ls).filterMap StreamBuilder.getAddr = headerAddrs hops D := by
  rw [← h.makes.addressed.2]
  apply List.map_injective_iff.mpr fun _ _ => Option.some.inj
  rw [← map_getAddr_filter, ← map_getAddr_filter, h.filter_eq]

theorem filterMap_tcpBuilder {calls : List Call} {bs : List StreamBuilder}
    (h : calls.map Call.tcpBuilder <+: bs.map some) : calls.filterMap Call.tcpBuilder <+: bs := by
  have h_id : ∀ xs : List (Option StreamBuilder), xs <+: bs.map some →
      xs.filterMap id <+: bs := by
    intro xs h_xs
    simpa [List.filterMap_map] using h_xs.filterMap id
  simpa [List.filterMap_map] using h_id _ h

/-- **The addresses of a TCP chain.** Unless a hop is a black hole, `build_tcp` first
connects to the address of the first addressed hop, and to nothing else; it builds the
addressed hops once each and in order, as far as it gets, each for the address of the next
one and the last for `D`; these are the addresses of the headers that are written; and no
`unwrap` of an address fails. -/
theorem buildTcp_addresses (h : Accepts W c out b) (h_res : Resolves c out.chain hops)
    (h_open : ∀ hop ∈ hops, hop.getProtocolType ≠ .blackhole) (D : Address) :
    (∃ rest, (b.buildTcp W D).calls = .connectTcp ((nextAddr hops).getD D) :: rest ∧
      ∀ call ∈ rest, ∃ x io, call = .buildTcp x io) ∧
    (∃ made : List StreamBuilder,
      List.Forall₂ (fun hop x => hop.toChainableStreamBuilder W x.getAddr = .ok x)
        (HopConfig.addressed hops) made ∧
      made.map StreamBuilder.getAddr = (headerAddrs hops D).map some ∧
      addressedCalls (b.buildTcp W D).calls <+: made ∧
      ∀ s, (b.buildTcp W D).result = .ok s →
        addressedCalls (b.buildTcp W D).calls = made ∧
        s.layers.filterMap Layer.headerAddr = headerAddrs hops D) ∧
    (b.buildTcp W D).result ≠ .error (.fault (.unwrapNone "addr")) := by
  have h_chain := h.chainOf h_res
  obtain ⟨fs, ls, ts, h_plan⟩ := h_chain.assembled.tcpPlan D
  have h_black : b.isBlackHole = false := by
    rw [h_chain.isBlackHole_eq]
    simpa using h_open
  have h_tcp := ChainStreamBuilder.tcpRun h_black h_plan.lastFor
  obtain ⟨rest, h_calls, h_prefix, h_all⟩ := h_tcp.calls_eq
  obtain ⟨h_made, h_addrs⟩ := h_plan.makes.addressed
  -- the calls after the connection are those of the builders
  have h_addressed : addressedCalls (b.buildTcp W D).calls =
      (rest.filterMap Call.tcpBuilder).filter (·.getAddr.isSome) := by
    rw [h_calls]
    rfl
  refine ⟨⟨rest, ?_, ?_⟩, ⟨_, h_made, ?_, ?_, ?_⟩, ?_⟩
  · rw [h_calls, h_chain.tcpBase_eq]
  · intro call h_mem
    have h_some := h_prefix.subset (List.mem_map_of_mem h_mem)
    obtain ⟨x, _, h_x⟩ := List.mem_map.mp h_some
    cases call with
    | buildTcp y io => exact ⟨y, io, rfl⟩
    | connectTcp _ | bindUdp _ | connectUdp _ | buildUdp _ _ _ => cases h_x
  · rw [map_getAddr_filter, h_addrs]
  · rw [h_addressed, ← h_plan.filter_eq]
    exact (filterMap_tcpBuilder h_prefix).filter _
  · intro s h_run
    have h_rest : rest.filterMap Call.tcpBuilder = b.builders ++ ls := by
      simpa [List.filterMap_map] using congrArg (List.filterMap id) (h_all s h_run)
    refine ⟨by rw [h_addressed, h_rest, h_plan.filter_eq], ?_⟩
    rw [(h_tcp.of_ok s h_run).1, Stream.layers_overAll, ← h_plan.filterMap_getAddr]
    exact filterMap_headerAddr _
  · intro h_unwrap
    obtain ⟨x, _, call, io, h_x⟩ := h_tcp.of_fault _ h_unwrap
    have h_mem := StreamBuilder.tcpLayer_fault h_x
    revert h_mem
    decide

theorem buildTcp_addresses_pair : ∃ b s, Accepts .calm .sample ⟨["t", "s", "s2"], "pair"⟩ b ∧
    (∃ rest, (b.buildTcp .calm (Config.server 80)).calls =
      .connectTcp (Config.server 8388) :: rest) ∧
    (b.buildTcp .calm (Config.server 80)).result = .ok s ∧
    s.layers.filterMap Layer.headerAddr = [Config.server 8389, Config.server 80] := by
  obtain ⟨b, h⟩ := Config.sample_pair
  have h_built := h.built
  cases h_built
  obtain ⟨⟨rest, h_calls, _⟩, ⟨_, _, _, _, h_ok⟩, _⟩ :=
    buildTcp_addresses h Config.sample_pair_resolves (by decide) (Config.server 80)
  exact ⟨_, _, h, ⟨rest, h_calls⟩, rfl, (h_ok _ rfl).2⟩

/-- A chain with a black hole connects to nothing. -/
theorem buildTcp_addresses_blocked :
    ¬ ∀ (W : World) (c : Config) (out : Outbounds) (b : ChainStreamBuilder)
        (hops : List HopConfig) (D : Address),
      Accepts W c out b → Resolves c out.chain hops →
      ∃ rest, (b.buildTcp W D).calls = .connectTcp ((nextAddr hops).getD D) :: rest := by
  intro h
  have h_accepts : ∃ b, Accepts .calm .sample ⟨["b"], "block"⟩ b :=
    exists_accepts rfl (by decide)
  obtain ⟨b, h_b⟩ := h_accepts
  have h_built := h_b.built
  cases h_built
  obtain ⟨rest, h_calls⟩ := h .calm .sample _ _ [.blackhole ⟨"b"⟩] (Config.server 80) h_b
    (.cons ⟨_, rfl, rfl⟩ .nil)
  cases h_calls

end Accepted

end V2ray

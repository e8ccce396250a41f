import Mathlib.Data.List.AList
import Mathlib.Tactic.Common
import V2rayRust.Lib.Search
import V2rayRust.Proxy.ChainTcp

/-!
# UDP chains: the kinds of the layers

What `build_udp` gives the layers of an accepted chain. The layers to the left of the
rightmost UoT layer are built over a stream, that layer turns the stream into datagrams, and
the ones to its right are built over datagrams: this is what the markers say of the layers
in the order in which they are built, if the connection at the bottom is of the right kind
(`kindRun`). Whether it also is what the chain asks for depends on two things the markers do
not see: `marker[0]` speaks of the layers after the first, and the last addressed hop is
built after the hops that follow it (`UdpKindsHold`).
-/

namespace V2ray

open HopConfig

variable {W : World} {c : Config}

/-! ### Transports -/

/-- What a part of a chain runs over: streams, as long as a UoT hop is still to come. -/
def Transport.below (uot : Bool) : Transport := if uot then .stream else .datagram

namespace StreamBuilder

/-- A layer built inside a TCP part leaves a stream. -/
theorem transportLayer_stream {b : StreamBuilder} {call : Call} {io s : Stream}
    (h : b.transportLayer W call io = .ok s) (h_io : io.transport = .stream) :
    s.transport = .stream := by
  -- a layer that is not a transport hands the stream on
  cases b with
  | tls _ _ _ _ =>
    obtain ⟨_, _, h⟩ := bind_eq_ok.mp h
    cases h
    rfl
  | ws uri headers m name =>
    obtain ⟨req, _, h⟩ := bind_eq_ok.mp h
    by_cases hm : 0 < m
    · rw [if_pos hm] at h
      cases h
      rfl
    · rw [if_neg hm] at h
      obtain ⟨_, _, h⟩ := bind_eq_ok.mp h
      cases h
      rfl
  | grpc _ _ | h2 _ _ _ _ =>
    obtain ⟨_, _, h⟩ := bind_eq_ok.mp h
    obtain ⟨_, _, h⟩ := bind_eq_ok.mp h
    cases h
    rfl
  | simpleObfs _ =>
    cases h
    rfl
  | vmess _ | trojan _ _ | shadowsocks _ _ _ | direct | blackhole =>
    cases h
    exact h_io

theorem newVmessStream_transport {o : VmessOption} {io s : Stream}
    (h : newVmessStream o io = .ok s) :
    s.transport = if o.isUdp then .datagram else .stream := by
  unfold newVmessStream at h
  split at h <;> cases h
  rfl

/-- A layer over TCP keeps a stream a stream. -/
theorem udpLayer_inside {b : StreamBuilder} {call : Call} {io s : Stream}
    (h : b.udpLayer W call io true = .ok s) (h_io : io.transport = .stream) :
    s.transport = .stream := by
  cases b with
  | vmess o => exact newVmessStream_transport h
  | trojan _ _ | shadowsocks _ _ _ =>
    obtain ⟨_, _, h⟩ := bind_eq_ok.mp h
    cases h
    rfl
  | direct =>
    cases h
    exact h_io
  | blackhole => cases h
  | tls f n v w => exact transportLayer_stream (b := .tls f n v w) h h_io
  | ws u hs m n => exact transportLayer_stream (b := .ws u hs m n) h h_io
  | grpc host path => exact transportLayer_stream (b := .grpc host path) h h_io
  | h2 hs fs m path => exact transportLayer_stream (b := .h2 hs fs m path) h h_io
  | simpleObfs _ =>
    cases h
    rfl

/-- A UoT layer outside a TCP part yields datagrams, whatever it is built over. -/
theorem udpLayer_exit {b : StreamBuilder} {call : Call} {io s : Stream}
    (h : b.udpLayer W call io false = .ok s) (h_uot : b.protocolType.isUot = true) :
    s.transport = .datagram := by
  cases b with
  | vmess o => exact newVmessStream_transport h
  | trojan _ _ =>
    obtain ⟨_, _, h⟩ := bind_eq_ok.mp h
    cases h
    rfl
  | shadowsocks _ _ _ | tls _ _ _ _ | ws _ _ _ _ | grpc _ _ | h2 _ _ _ _ | simpleObfs _
  | direct | blackhole => cases h_uot

/-- A layer over UDP keeps datagrams datagrams, unless it is one that puts them into TCP. -/
theorem udpLayer_outside {b : StreamBuilder} {call : Call} {io s : Stream}
    (h : b.udpLayer W call io false = .ok s) (h_uot : b.protocolType.isUot = false)
    (h_io : io.transport = .datagram) : s.transport = .datagram := by
  cases b with
  | vmess _ | trojan _ _ => cases h_uot
  | shadowsocks _ _ _ =>
    cases h
    rfl
  | blackhole => cases h
  | tls _ _ _ _ | ws _ _ _ _ | grpc _ _ | h2 _ _ _ _ | simpleObfs _ | direct =>
    cases h
    exact h_io

/-- **One layer.** Over what the layers from it on need, a layer leaves what the layers
after it need. -/
theorem udpLayer_below {b : StreamBuilder} {call : Call} {io s : Stream} {right : Bool}
    (h : b.udpLayer W call io right = .ok s)
    (h_io : io.transport = .below (b.protocolType.isUot || right)) :
    s.transport = .below right := by
  cases right with
  | true =>
    rw [Bool.or_true] at h_io
    exact udpLayer_inside h h_io
  | false =>
    cases h_uot : b.protocolType.isUot with
    | true => exact udpLayer_exit h h_uot
    | false =>
      rw [h_uot] at h_io
      exact udpLayer_outside h h_uot h_io

end StreamBuilder

/-! ### What the chain asks for -/

/-- Where a hop stands: left of the rightmost UoT hop, this hop, or right of it. -/
inductive Kind
  | inside
  | exit
  | outside
  deriving DecidableEq

namespace HopConfig

def isUot (hop : HopConfig) : Bool := hop.getProtocolType.isUot

/-- The kinds of the hops of a chain. -/
def kinds : List HopConfig → List Kind
  | [] => []
  | hop :: hops =>
    (if hops.any isUot then .inside else if hop.isUot then .exit else .outside) :: kinds hops

/-- The hops after the rightmost UoT hop, or all hops if there is none. -/
def datagramPart : List HopConfig → List HopConfig
  | [] => []
  | hop :: hops =>
    if hops.any isUot then datagramPart hops
    else if hop.isUot then hops
    else hop :: hops

theorem isUot_of_getAddr_none {hop : HopConfig} (h : hop.getAddr = none) : hop.isUot = false := by
  cases hop with
  | vmess _ | trojan _ | ss _ => cases h
  | tls _ | ws _ | blackhole _ | direct _ | grpc _ | simpleObfs _ | h2 _ => rfl

/-- A UoT hop has the address that it is given. -/
theorem getAddr_of_isUot {hop : HopConfig} (h : hop.isUot = true) {a : Address}
    {x : StreamBuilder} (h_x : hop.toChainableStreamBuilder W (some a) = .ok x) :
    x.getAddr = some a := by
  cases h_own : hop.getAddr with
  | none => rw [isUot_of_getAddr_none h_own] at h; cases h
  | some own =>
    obtain ⟨y, h_y, h_addr⟩ := toChainableStreamBuilder_of_getAddr_some (W := W) h_own a
    obtain rfl : x = y := by simpa [h_x] using h_y
    exact h_addr

theorem length_kinds (hops : List HopConfig) : (kinds hops).length = hops.length := by
  induction hops with
  | nil => rfl
  | cons _ _ ih => exact congrArg Nat.succ ih

/-- Hops that are not UoT do not change the kinds to their left. -/
theorem kinds_append {hops' : List HopConfig} (h : ∀ x ∈ hops', x.isUot = false)
    (hops : List HopConfig) :
    kinds (hops ++ hops') = kinds hops ++ hops'.map fun _ => .outside := by
  have h_any : ∀ xs : List HopConfig, (∀ x ∈ xs, x.isUot = false) → xs.any isUot = false := by
    intro xs h_xs
    simpa using h_xs
  induction hops with
  | nil =>
    induction hops' with
    | nil => rfl
    | cons x xs ih =>
      have h_xs : ∀ y ∈ xs, y.isUot = false := fun y hy => h y (List.mem_cons_of_mem _ hy)
      simp only [List.nil_append, kinds, List.map_cons, h_any xs h_xs, h x List.mem_cons_self,
        Bool.false_eq_true, if_false] at ih ⊢
      exact congrArg _ (ih h_xs)
  | cons hop hops ih =>
    simp only [List.cons_append, kinds, List.any_append, h_any hops' h, Bool.or_false, ih]

end HopConfig

/-- A `build_udp` call is what a hop of kind `k` needs. -/
def Kind.Fits (W : World) (k : Kind) (hop : HopConfig) : Call → Prop
  | .buildUdp x io tcpInside =>
    (∃ a, hop.toChainableStreamBuilder W a = .ok x) ∧
    match k with
    | .inside => tcpInside = true ∧ io.transport = .stream
    | .exit => io.transport = .stream ∧
        ∀ s, x.udpLayer W (.buildUdp x io tcpInside) io tcpInside = .ok s →
          s.transport = .datagram
    | .outside => tcpInside = false ∧ io.transport = .datagram
  | _ => False

/-- The calls that open the connection at the bottom, a TCP stream or a UDP socket. -/
def baseCalls (tcp : Bool) (base : Address) (udpBindIp : IpAddr) : List Call :=
  if tcp then [.connectTcp base] else [.bindUdp udpBindIp, .connectUdp base]

/-- A run gives the hops what they need: it stops at no index, opens a TCP connection if a
hop is UoT and a UDP socket if none is, and each layer it builds is that of a hop of the chain,
over the right transport and with the right flag; a run that returns has built all of them. -/
structure KindCorrect (W : World) (hops : List HopConfig) (base : Address) (udpBindIp : IpAddr)
    (run : Trace Call Stop Stream) : Prop where
  in_bounds : run.result ≠ .error (.fault .outOfBounds)
  calls : run.calls <+: baseCalls (hops.any isUot) base udpBindIp ∧ (∀ s, run.result ≠ .ok s) ∨
    ∃ order built layers, order.Perm (hops.zip (kinds hops)) ∧ built <+: order ∧
      run.calls = baseCalls (hops.any isUot) base udpBindIp ++ layers ∧
      List.Forall₂ (fun p call => p.2.Fits W p.1 call) built layers ∧
      ∀ s, run.result = .ok s → built = order

/-- The condition under which `build_udp` does so: the chain has a hop; if a hop is UoT, one
that is not the first is; and the rightmost UoT hop is the last hop or has an addressed one
after it. -/
structure UdpKindsHold (hops : List HopConfig) : Prop where
  nonempty : hops ≠ []
  not_first : hops.any isUot → hops.tail.any isUot
  not_behind : hops.any isUot → datagramPart hops ≠ [] →
    ∃ hop ∈ datagramPart hops, hop.getAddr.isSome

/-! ### A run over builders -/

/-- The builder and the flag of a `build_udp` call. -/
def Call.udpBuilder : Call → Option (StreamBuilder × Bool)
  | buildUdp b _ tcpInside => some (b, tcpInside)
  | _ => none

/-- The run of `build_udp` over builders with their flags. -/
def udpFold (W : World) (ps : List (StreamBuilder × Bool)) (io : Stream) :
    Trace Call Stop Stream :=
  ps.foldlM (fun io p => StreamBuilder.buildUdp W p.1 io p.2) io

theorem foldRun_udpFold (ps : List (StreamBuilder × Bool)) (io : Stream) :
    Trace.FoldRun (fun (p : StreamBuilder × Bool) io => Call.buildUdp p.1 io p.2)
      (fun p io => p.1.udpLayer W (.buildUdp p.1 io p.2) io p.2) ps io
      (udpFold W ps io).calls (udpFold W ps io).result :=
  Trace.foldRun_foldlM (fun (p : StreamBuilder × Bool) io => Call.buildUdp p.1 io p.2)
    (fun p io => p.1.udpLayer W (.buildUdp p.1 io p.2) io p.2) ps io

/-- What any run over builders leaves. -/
structure FoldUdp (ps : List (StreamBuilder × Bool)) (run : Trace Call Stop Stream) : Prop where
  calls_prefix : run.calls.map Call.udpBuilder <+: ps.map some
  of_ok : ∀ s, run.result = .ok s → run.calls.map Call.udpBuilder = ps.map some
  of_fault : ∀ f, run.result = .error (.fault f) → f ∈ StreamBuilder.layerFaults

/-- How the layers end, one over the other. -/
theorem foldUdp (ps : List (StreamBuilder × Bool)) (io : Stream) :
    FoldUdp ps (udpFold W ps io) := by
  have h_run := foldRun_udpFold (W := W) ps io
  generalize udpFold W ps io = run at h_run
  obtain ⟨calls, result⟩ := run
  dsimp only at h_run
  -- on the run over the layers; it stops at the first that fails
  induction h_run with
  | nil io =>
    refine ⟨List.prefix_refl _, fun _ _ => rfl, ?_⟩
    intro f hf
    cases hf
  | @stop p ps io e fails =>
    refine ⟨List.prefix_append [some p] _, ?_, ?_⟩
    · intro s hs
      cases hs
    · intro f hf
      cases hf
      exact StreamBuilder.udpLayer_fault fails
  | @step p ps io io' cs r _ _ ih =>
    refine ⟨(List.prefix_cons_inj _).mpr ih.calls_prefix, ?_, ih.of_fault⟩
    intro s hs
    exact congrArg (some p :: ·) (ih.of_ok s hs)

/-- `x` is what some destination makes of `hop`. -/
def MadeFrom (W : World) (hop : HopConfig) (x : StreamBuilder) : Prop :=
  ∃ a, hop.toChainableStreamBuilder W a = .ok x

/-- The flags of a list of hops. -/
def markers (hops : List HopConfig) : List Bool := uotRight (hops.map getProtocolType)

theorem markers_cons (hop : HopConfig) (hops : List HopConfig) :
    markers (hop :: hops) = hops.any isUot :: markers hops := by
  unfold markers
  rw [List.map_cons, uotRight, List.any_map]
  rfl

/-- **The kinds of a run.** Layers in the order in which they are built, over what they
need, are built as their kinds ask for, as far as the run gets. -/
theorem kindRun {hops : List HopConfig} {xs : List StreamBuilder}
    (h : List.Forall₂ (MadeFrom W) hops xs) {io : Stream}
    (h_io : io.transport = .below (hops.any isUot)) :
    ∃ built, built <+: hops.zip (kinds hops) ∧
      List.Forall₂ (fun p call => p.2.Fits W p.1 call) built
        (udpFold W (xs.zip (markers hops)) io).calls ∧
      ∀ s, (udpFold W (xs.zip (markers hops)) io).result = .ok s →
        built = hops.zip (kinds hops) := by
  have h_run := foldRun_udpFold (W := W) (xs.zip (markers hops)) io
  generalize udpFold W (xs.zip (markers hops)) io = run at h_run ⊢
  obtain ⟨calls, result⟩ := run
  dsimp only at h_run ⊢
  induction h generalizing io calls with
  | nil =>
    cases h_run
    exact ⟨[], List.nil_prefix, List.Forall₂.nil, fun _ _ => rfl⟩
  | @cons hop x hops xs h_made _ ih =>
    obtain ⟨a, h_x⟩ := h_made
    rw [markers_cons, List.zip_cons_cons] at h_run
    rw [List.any_cons] at h_io
    have h_type : x.protocolType.isUot = hop.isUot := by
      unfold HopConfig.isUot
      rw [protocolType_eq h_x]
    -- this call is what the kind of `hop` asks for
    have h_fits : ∀ k ks, kinds (hop :: hops) = k :: ks →
        k.Fits W hop (.buildUdp x io (hops.any isUot)) := by
      intro k ks h_k
      rw [kinds] at h_k
      cases h_k
      refine ⟨⟨a, h_x⟩, ?_⟩
      cases h_right : hops.any isUot with
      | true =>
        rw [h_right, Bool.or_true] at h_io
        exact ⟨rfl, h_io⟩
      | false =>
        rw [h_right, Bool.or_false] at h_io
        cases h_uot : hop.isUot with
        | true =>
          rw [h_uot] at h_io
          exact ⟨h_io, fun s h_s => StreamBuilder.udpLayer_exit h_s (h_type.trans h_uot)⟩
        | false =>
          rw [h_uot] at h_io
          exact ⟨rfl, h_io⟩
    cases h_run with
    | stop _ =>
      refine ⟨[(hop, _)], ?_, List.Forall₂.cons (h_fits _ _ rfl) .nil, ?_⟩
      · exact (List.prefix_cons_inj _).mpr List.nil_prefix
      · intro s hs
        cases hs
    | @step _ _ _ io' cs _ succeeds rest =>
      have h_io' : io'.transport = .below (hops.any isUot) := by
        refine StreamBuilder.udpLayer_below succeeds ?_
        rw [h_type]
        exact h_io
      obtain ⟨built, h_prefix, h_all, h_ok⟩ := ih h_io' cs rest
      refine ⟨(hop, _) :: built, (List.prefix_cons_inj _).mpr h_prefix,
        List.Forall₂.cons (h_fits _ _ rfl) h_all, ?_⟩
      intro s hs
      rw [h_ok s hs]
      rfl

/-! ### The run of a chain -/

namespace ChainStreamBuilder

variable {b : ChainStreamBuilder} {D : Address} {ls : List StreamBuilder}

/-- The builder that `build_udp` makes of the last builder. -/
def LastForUdp (W : World) (b : ChainStreamBuilder) (D : Address) (ls : List StreamBuilder) :
    Prop :=
  match b.lastBuilder with
  | some last => ∃ x, last.toChainableStreamBuilder W
      (if last.isUot then some D else b.lastUdpAddr) = .ok x ∧ ls = [x]
  | none => ls = []

/-- The last builder is run like the others, with the last flag. -/
theorem layersUdp_eq (h : b.LastForUdp W D ls) (h_marker : b.buildUdpMarker = uotRight b.layerTypes)
    (io : Stream) :
    b.layersUdp W D io = udpFold W ((b.builders ++ ls).zip b.buildUdpMarker) io := by
  have h_len := congrArg List.length h_marker
  rw [length_uotRight] at h_len
  unfold layersUdp udpFold
  unfold LastForUdp at h
  unfold layerTypes at h_len
  cases h_last : b.lastBuilder with
  | none =>
    -- there is no builder apart, so the loop goes over all of them
    rw [h_last] at h
    rw [h, List.append_nil]
    exact bind_pure _
  | some last =>
    rw [h_last] at h h_len
    obtain ⟨x, h_x, rfl⟩ := h
    -- the marker is as long as the layers, so its last flag is the one of the last builder
    rcases List.eq_nil_or_concat b.buildUdpMarker with h_nil | ⟨front, z, h_concat⟩
    · rw [h_nil] at h_len
      simp at h_len
    · have h_front : b.builders.length = front.length := by
        rw [h_concat] at h_len
        simpa using h_len.symm
      have h_zip : (b.builders ++ []).zip (front ++ [z]) = b.builders.zip front ++ [].zip [z] :=
        List.zip_append h_front
      rw [List.append_nil, List.zip_nil_left, List.append_nil] at h_zip
      rw [h_concat, List.concat_eq_append, h_zip, List.zip_append h_front, List.foldlM_append]
      refine bind_congr fun io' => ?_
      dsimp only
      unfold HopConfig.isUot at h_x
      rw [h_x, List.getLast?_concat]
      exact (bind_pure _).symm

/-- What opens the connection at the bottom. -/
def connectBase (W : World) (base : Address) (udpBindIp : IpAddr) (tcp : Bool) :
    Trace Call Stop Stream :=
  if tcp then connectTcp W base else bindConnectUdp W base udpBindIp

/-- `build_udp`, when no black hole is in the chain: the connection of the kind of the first marker,
and the builders over it, each with its marker. -/
theorem buildUdp_eq (h : b.isBlackHole = false) (h_last : b.LastForUdp W D ls)
    (h_marker : b.buildUdpMarker = uotRight b.layerTypes) {tcp : Bool} {ms : List Bool}
    (h_cons : b.buildUdpMarker = tcp :: ms) (udpBindIp : IpAddr) :
    b.buildUdp W D udpBindIp = connectBase W (b.tcpBase D) udpBindIp tcp >>= fun io =>
      udpFold W ((b.builders ++ ls).zip b.buildUdpMarker) io := by
  have h_index : Stop.ofFault (index b.buildUdpMarker 0) = .ok tcp := by
    rw [h_cons]
    rfl
  unfold buildUdp tcpBase connectBase
  rw [h, if_neg Bool.false_ne_true, h_index]
  cases tcp <;> exact bind_congr fun io => layersUdp_eq h_last h_marker io

end ChainStreamBuilder

/-! ### The rightmost UoT hop -/

namespace HopConfig

theorem any_isUot_eq_false {hops : List HopConfig} (h : ∀ x ∈ hops, x.isUot = false) :
    hops.any isUot = false := by
  simpa using h

/-- A list of hops has no UoT hop, or a rightmost one. -/
theorem rightmost_uot (hops : List HopConfig) :
    (∀ x ∈ hops, x.isUot = false) ∨ ∃ pre u post, hops = pre ++ u :: post ∧ u.isUot = true ∧
      ∀ x ∈ post, x.isUot = false :=
  rightmost_split isUot hops

theorem datagramPart_of_no_uot {hops : List HopConfig} (h : ∀ x ∈ hops, x.isUot = false) :
    datagramPart hops = hops := by
  cases hops with
  | nil => rfl
  | cons hop hops =>
    rw [datagramPart, any_isUot_eq_false fun x hx => h x (List.mem_cons_of_mem _ hx),
      h hop List.mem_cons_self]
    rfl

/-- The datagram part is what follows the last UoT hop. -/
theorem datagramPart_append {u : HopConfig} {post : List HopConfig} (pre : List HopConfig)
    (h_u : u.isUot = true) (h_post : ∀ x ∈ post, x.isUot = false) :
    datagramPart (pre ++ u :: post) = post := by
  induction pre with
  | nil => rw [List.nil_append, datagramPart, any_isUot_eq_false h_post, h_u]; rfl
  | cons hop pre ih =>
    have h_any : (pre ++ u :: post).any isUot = true := by simp [h_u]
    rw [List.cons_append, datagramPart, if_pos h_any, ih]

end HopConfig

/-- A last addressed hop that is not UoT lies in the datagram part. -/
theorem HopConfig.nextAddr_datagramPart {hops front tail : List HopConfig} {last : HopConfig}
    {own : Address} (h_eq : hops = front ++ last :: tail) (h_own : last.getAddr = some own)
    (h_tail : ∀ x ∈ tail, x.getAddr = none) (h_uot : last.isUot = false) :
    ∃ a, nextAddr (datagramPart hops) = some a := by
  have h_rest : ∀ x ∈ last :: tail, x.isUot = false := by
    intro x hx
    rcases List.mem_cons.mp hx with rfl | hx
    · exact h_uot
    · exact isUot_of_getAddr_none (h_tail x hx)
  have h_next : ∀ xs : List HopConfig, ∃ a, nextAddr (xs ++ last :: tail) = some a := by
    intro xs
    rw [nextAddr_append, nextAddr_cons, h_own]
    cases nextAddr xs <;> exact ⟨_, rfl⟩
  -- a hop that is UoT, if there is one, comes before the last address
  rcases rightmost_uot front with h_none | ⟨pre, u, post, rfl, h_u, h_post⟩
  · have h_all : ∀ x ∈ hops, x.isUot = false := by
      intro x hx
      rw [h_eq] at hx
      rcases List.mem_append.mp hx with hx | hx
      · exact h_none x hx
      · exact h_rest x hx
    rw [datagramPart_of_no_uot h_all, h_eq]
    exact h_next front
  · have h_right : ∀ y ∈ post ++ last :: tail, y.isUot = false := by
      -- what comes after it is the datagram part, with the address in it
      intro y hy
      rcases List.mem_append.mp hy with hy | hy
      · exact h_post y hy
      · exact h_rest y hy
    rw [h_eq, List.append_assoc, List.cons_append, datagramPart_append pre h_u h_right]
    exact h_next post

/-- The builders of a chain, taken apart at one of its hops. -/
theorem Makes.split {dest : Option Address} {pre post : List HopConfig} {u : HopConfig}
    {bs : List StreamBuilder} (h : Makes W dest (pre ++ u :: post) bs) :
    ∃ b₁ x b₂, bs = b₁ ++ x :: b₂ ∧ b₁.length = pre.length ∧
      u.toChainableStreamBuilder W ((nextAddr post).or dest) = .ok x ∧ Makes W dest post b₂ := by
  induction pre generalizing bs with
  | nil =>
    cases h with
    | cons head tail => exact ⟨[], _, _, rfl, rfl, head, tail⟩
  | cons hop pre ih =>
    cases h with
    | @cons _ _ y ys head tail =>
      obtain ⟨b₁, x, b₂, h_eq, h_len, h_x, h_post⟩ := ih tail
      exact ⟨y :: b₁, x, b₂, by rw [h_eq]; rfl, congrArg Nat.succ h_len, h_x, h_post⟩

theorem Makes.forall₂ {dest : Option Address} {hops : List HopConfig} {bs : List StreamBuilder}
    (h : Makes W dest hops bs) : List.Forall₂ (MadeFrom W) hops bs := by
  induction h with
  | nil => exact List.Forall₂.nil
  | cons head _ ih => exact List.Forall₂.cons ⟨_, head⟩ ih

/-- The hops in the order of the chain and in that of the layers: the last addressed hop is
built last. -/
structure LayerOrder (hops lhops front last tail : List HopConfig) : Prop where
  hops_eq : hops = front ++ (last ++ tail)
  lhops_eq : lhops = front ++ (tail ++ last)
  no_addr : ∀ x ∈ tail, x.getAddr = none
  last_addr : last = [] ∧ tail = [] ∧ (∀ x ∈ front, x.getAddr = none) ∨
    ∃ x own, last = [x] ∧ x.getAddr = some own

/-- For a last builder that is not UoT, `last_udp_addr` is the address of the first addressed
hop of the datagram part. -/
theorem ChainOf.lastUdpAddr {hops front tail : List HopConfig} {last : HopConfig}
    {b : ChainStreamBuilder} {own : Address} {fs ts : List StreamBuilder}
    (h : ChainOf W hops b) (h_eq : hops = front ++ last :: tail)
    (h_own : last.getAddr = some own) (h_tail : ∀ x ∈ tail, x.getAddr = none)
    (h_fs : Makes W (some own) front fs) (h_ts : Makes W none tail ts)
    (h_builders : b.builders = fs ++ ts) (h_last : b.lastBuilder = some last)
    (h_uot : last.isUot = false) :
    b.lastUdpAddr = nextAddr (datagramPart hops) := by
  have h_rest : ∀ x ∈ last :: tail, x.isUot = false := by
    intro x hx
    rcases List.mem_cons.mp hx with rfl | hx
    · exact h_uot
    · exact isUot_of_getAddr_none (h_tail x hx)
  have h_iter : b.protocolTypeIter.findIdx? ProtocolType.isUot =
      (front ++ (tail ++ [last])).reverse.findIdx? isUot := by
    have h_map : b.protocolTypeIter =
        (front ++ (tail ++ [last])).reverse.map getProtocolType := by
      unfold ChainStreamBuilder.protocolTypeIter
      rw [h_last, h_builders, List.map_append, h_fs.protocolTypes, h_ts.protocolTypes]
      simp
    rw [h_map, List.findIdx?_map]
    rfl
  have h_addr := h.lastUdpAddr_eq
  rw [h_iter] at h_addr
  rcases rightmost_uot front with h_none | ⟨pre, u, post, h_front, h_u, h_post⟩
  · -- no hop is UoT
    have h_find : (front ++ (tail ++ [last])).reverse.findIdx? isUot = none := by
      apply List.findIdx?_eq_none_iff.mpr
      intro x hx
      rcases List.mem_append.mp (List.mem_reverse.mp hx) with hx | hx
      · exact h_none x hx
      · exact h_rest x (by simpa [or_comm] using hx)
    have h_all : ∀ x ∈ hops, x.isUot = false := by
      intro x hx
      rw [h_eq] at hx
      rcases List.mem_append.mp hx with hx | hx
      · exact h_none x hx
      · exact h_rest x hx
    rw [h_find] at h_addr
    rw [h_addr, datagramPart_of_no_uot h_all]
  · -- `u` is the rightmost one
    obtain ⟨b₁, x, b₂, h_split, _, h_x, h_b₂⟩ := (h_front ▸ h_fs).split
    have h_right : ∀ y ∈ post ++ last :: tail, y.isUot = false := by
      intro y hy
      rcases List.mem_append.mp hy with hy | hy
      · exact h_post y hy
      · exact h_rest y hy
    have h_find : (front ++ (tail ++ [last])).reverse.findIdx? isUot =
        some (post.length + tail.length + 1) := by
      have h_back : ∀ y ∈ post ++ (tail ++ [last]), y.isUot = false := fun y hy =>
        h_right y (by simpa [or_comm] using hy)
      have h_len : (post ++ (tail ++ [last])).length = post.length + tail.length + 1 := by
        rw [List.length_append, List.length_append, List.length_singleton, Nat.add_assoc]
      rw [h_front, List.append_assoc, List.cons_append, findIdx?_reverse_split h_u h_back, h_len]
    have h_len : b.builders.length = b₁.length + (post.length + tail.length + 1) := by
      have h_post_len := h_b₂.forall₂.length_eq
      have h_tail_len := h_ts.forall₂.length_eq
      rw [h_builders, h_split]
      simp only [List.length_append, List.length_cons]
      omega
    rw [h_find] at h_addr
    obtain ⟨y, h_y, h_addr⟩ := h_addr
    rw [h_len, Nat.add_sub_cancel, h_builders, h_split] at h_y
    obtain rfl : x = y := by simpa using h_y
    have h_part : datagramPart hops = post ++ last :: tail := by
      rw [h_eq, h_front, List.append_assoc, List.cons_append, datagramPart_append pre h_u h_right]
    rw [h_addr, h_part, nextAddr_append, nextAddr_cons, h_own]
    -- `u` was made for the address that the first addressed hop after it has
    obtain ⟨a, h_a⟩ : ∃ a, (nextAddr post).or (some own) = some a := by
      cases nextAddr post <;> exact ⟨_, rfl⟩
    rw [h_a] at h_x
    calc x.getAddr = some a := getAddr_of_isUot h_u h_x
      _ = (nextAddr post).or (some own) := h_a.symm

/-- The builders of a chain for the destination `D`, as `build_udp` runs them. -/
structure UdpPlan (W : World) (b : ChainStreamBuilder) (D : Address) (lhops : List HopConfig)
    (ls : List StreamBuilder) : Prop where
  lastFor : b.LastForUdp W D ls
  made : List.Forall₂ (MadeFrom W) lhops (b.builders ++ ls)
  marker_eq : b.buildUdpMarker = markers lhops

/-- The plan of a chain with a last addressed hop. -/
theorem ChainOf.udpPlan_addressed {hops front tail : List HopConfig} {last : HopConfig}
    {b : ChainStreamBuilder} {own D : Address} {fs ts : List StreamBuilder} {x : StreamBuilder}
    (h : ChainOf W hops b) (h_fs : Makes W (some own) front fs) (h_ts : Makes W none tail ts)
    (h_builders : b.builders = fs ++ ts) (h_last : b.lastBuilder = some last)
    (h_x : last.toChainableStreamBuilder W (if last.isUot then some D else b.lastUdpAddr) =
      .ok x) : UdpPlan W b D (front ++ (tail ++ [last])) [x] := by
  have h_marker := h.marker_eq
  unfold ChainStreamBuilder.layerTypes at h_marker
  refine ⟨?_, ?_, ?_⟩
  · unfold ChainStreamBuilder.LastForUdp
    rw [h_last]
    exact ⟨x, h_x, rfl⟩
  · rw [h_builders, List.append_assoc]
    refine List.rel_append h_fs.forall₂ (List.rel_append h_ts.forall₂ ?_)
    exact List.Forall₂.cons ⟨_, h_x⟩ .nil
  · rw [h_marker, h_last, h_builders, List.map_append, h_fs.protocolTypes, h_ts.protocolTypes]
    simp [markers]

/-- A chain of hops has its layers in an order of them. -/
theorem ChainOf.udpPlan {hops : List HopConfig} {b : ChainStreamBuilder} (h : ChainOf W hops b)
    (D : Address) : ∃ lhops front last tail ls, LayerOrder hops lhops front last tail ∧
      UdpPlan W b D lhops ls := by
  have h_marker := h.marker_eq
  unfold ChainStreamBuilder.layerTypes at h_marker
  cases h.assembled with
  | plain no_addr makes last_eq =>
    refine ⟨hops, hops, [], [], [], ⟨?_, ?_, ?_, Or.inl ⟨rfl, rfl, no_addr⟩⟩, ?_, ?_, ?_⟩
    · simp
    · simp
    · intro x hx
      cases hx
    · unfold ChainStreamBuilder.LastForUdp
      rw [last_eq]
    · rw [List.append_nil]
      exact makes.forall₂
    · rw [h_marker, last_eq, makes.protocolTypes]
      simp [markers]
  | addressed front last tail fs ts own hops_eq last_addr no_addr makes_front makes_tail
      builders_eq last_eq =>
    obtain ⟨x, h_x⟩ : ∃ x, last.toChainableStreamBuilder W
        (if last.isUot then some D else b.lastUdpAddr) = .ok x := by
      cases h_uot : last.isUot with
      | true =>
        obtain ⟨x, h_x, _⟩ := toChainableStreamBuilder_of_getAddr_some (W := W) last_addr D
        exact ⟨x, h_x⟩
      | false =>
        -- the last addressed hop is in the datagram part, so that has an address
        have h_last := h.lastUdpAddr hops_eq last_addr no_addr makes_front makes_tail builders_eq
          last_eq h_uot
        obtain ⟨a, h_a⟩ := nextAddr_datagramPart hops_eq last_addr no_addr h_uot
        obtain ⟨x, h_x, _⟩ := toChainableStreamBuilder_of_getAddr_some (W := W) last_addr a
        refine ⟨x, ?_⟩
        rw [h_last, h_a]
        exact h_x
    exact ⟨front ++ (tail ++ [last]), front, [last], tail, [x],
      ⟨hops_eq, rfl, no_addr, Or.inr ⟨last, own, rfl, last_addr⟩⟩,
      h.udpPlan_addressed makes_front makes_tail builders_eq last_eq h_x⟩

/-! ### Chain order and layer order -/

namespace LayerOrder

variable {hops lhops front last tail : List HopConfig}

theorem perm (h : LayerOrder hops lhops front last tail) : lhops.Perm hops := by
  rw [h.lhops_eq, h.hops_eq]
  exact List.Perm.append_left _ List.perm_append_comm

theorem tail_not_uot (h : LayerOrder hops lhops front last tail) : ∀ x ∈ tail, x.isUot = false :=
  fun x hx => isUot_of_getAddr_none (h.no_addr x hx)

/-- Either the orders agree, or the last addressed hop is not UoT. -/
theorem eq_or_not_uot (h : LayerOrder hops lhops front last tail) (h_holds : UdpKindsHold hops) :
    lhops = hops ∨ ∃ x, last = [x] ∧ x.isUot = false := by
  rcases h.last_addr with ⟨h_last, h_tail, _⟩ | ⟨x, own, h_last, _⟩
  · exact Or.inl (by rw [h.lhops_eq, h.hops_eq, h_last, h_tail])
  · cases h_uot : x.isUot with
    | false => exact Or.inr ⟨x, h_last, h_uot⟩
    | true =>
      -- only hops without an address follow, so none does
      left
      have h_eq : hops = front ++ x :: tail := by rw [h.hops_eq, h_last]; rfl
      have h_part : datagramPart hops = tail := by
        rw [h_eq]
        exact datagramPart_append front h_uot h.tail_not_uot
      have h_any : hops.any isUot = true := by
        rw [h_eq]
        simp [h_uot]
      have h_tail : tail = [] := by
        by_contra h_ne
        obtain ⟨y, hy, h_y⟩ := h_holds.not_behind h_any (by rw [h_part]; exact h_ne)
        rw [h_part] at hy
        rw [h.no_addr y hy] at h_y
        cases h_y
      rw [h.lhops_eq, h.hops_eq, h_tail, List.nil_append, List.append_nil]

/-- If the kinds hold, they go with the same hops in the order of the layers. -/
theorem kinds_perm (h : LayerOrder hops lhops front last tail) (h_holds : UdpKindsHold hops) :
    (lhops.zip (kinds lhops)).Perm (hops.zip (kinds hops)) := by
  rcases h.eq_or_not_uot h_holds with h_eq | ⟨x, h_last, h_uot⟩
  · rw [h_eq]
  · have h_tail := h.tail_not_uot
    have h_both : ∀ xs : List HopConfig, xs.Perm (x :: tail) → ∀ y ∈ xs, y.isUot = false := by
      intro xs h_perm y hy
      rcases List.mem_cons.mp (h_perm.mem_iff.mp hy) with rfl | hy
      · exact h_uot
      · exact h_tail y hy
    have h_zip : ∀ xs : List HopConfig, xs.Perm (x :: tail) →
        (front ++ xs).zip (kinds (front ++ xs)) =
          front.zip (kinds front) ++ xs.map fun y => (y, Kind.outside) := by
      intro xs h_perm
      rw [kinds_append (h_both xs h_perm), List.zip_append (length_kinds front).symm]
      exact congrArg _ List.map_prod_left_eq_zip.symm
    rw [h.lhops_eq, h.hops_eq, h_last, List.singleton_append,
      h_zip _ (List.perm_append_singleton _ _), h_zip _ (List.Perm.refl _)]
    exact List.Perm.append_left _ ((List.perm_append_singleton _ _).map _)

/-- A UoT hop after the first is one after the first layer. -/
theorem any_tail (h : LayerOrder hops lhops front last tail) (h_holds : UdpKindsHold hops) :
    lhops.tail.any isUot = hops.any isUot := by
  have h_le : lhops.tail.any isUot = true → hops.any isUot = true := by
    intro h_any
    rw [← h.perm.any_eq]
    obtain ⟨x, hx, h_x⟩ := List.any_eq_true.mp h_any
    exact List.any_eq_true.mpr ⟨x, List.mem_of_mem_tail hx, h_x⟩
  refine Bool.eq_iff_iff.mpr ⟨h_le, fun h_any => ?_⟩
  have h_first := h_holds.not_first h_any
  rcases h.eq_or_not_uot h_holds with h_eq | ⟨x, h_last, h_uot⟩
  · rw [h_eq]
    exact h_first
  · -- the UoT hops are all in `front`
    have h_tail : tail.any isUot = false := any_isUot_eq_false h.tail_not_uot
    rw [h.hops_eq, h_last] at h_first
    rw [h.lhops_eq, h_last]
    cases front with
    | nil => simp [h_tail] at h_first
    | cons f front => simpa [h_tail, h_uot] using h_first

end LayerOrder

/-! ### The run of an accepted chain -/

/-- The base of a chain is a connection or a socket, or the error that the network has answered. -/
theorem connectBase_run (tcp : Bool) (base : Address) (udpBindIp : IpAddr) :
    (∃ e, (ChainStreamBuilder.connectBase W base udpBindIp tcp).result = .error (.err e) ∧
      (ChainStreamBuilder.connectBase W base udpBindIp tcp).calls <+:
        baseCalls tcp base udpBindIp) ∨
    ∃ io, ChainStreamBuilder.connectBase W base udpBindIp tcp =
      ⟨baseCalls tcp base udpBindIp, .ok io⟩ ∧ io.transport = .below tcp := by
  -- a UDP base takes two calls, and the first may fail before the second is made
  cases tcp with
  | true =>
    change (∃ e, (ChainStreamBuilder.connectTcp W base).result = _ ∧
      (ChainStreamBuilder.connectTcp W base).calls <+: [.connectTcp base]) ∨
      ∃ io, ChainStreamBuilder.connectTcp W base = ⟨[.connectTcp base], _⟩ ∧ _
    unfold ChainStreamBuilder.connectTcp
    cases h_io : W.attempt (.connectTcp base) with
    | error e =>
      obtain ⟨m, rfl⟩ := World.attempt_eq_error h_io
      exact Or.inl ⟨m, rfl, List.prefix_refl _⟩
    | ok _ => exact Or.inr ⟨.tcp base, rfl, rfl⟩
  | false =>
    change (∃ e, (ChainStreamBuilder.bindConnectUdp W base udpBindIp).result = _ ∧
      (ChainStreamBuilder.bindConnectUdp W base udpBindIp).calls <+:
        [.bindUdp udpBindIp, .connectUdp base]) ∨
      ∃ io, ChainStreamBuilder.bindConnectUdp W base udpBindIp =
        ⟨[.bindUdp udpBindIp, .connectUdp base], _⟩ ∧ _
    unfold ChainStreamBuilder.bindConnectUdp
    cases h_bind : W.attempt (.bindUdp udpBindIp) with
    | error e =>
      obtain ⟨m, rfl⟩ := World.attempt_eq_error h_bind
      exact Or.inl ⟨m, rfl, List.prefix_append [_] [_]⟩
    | ok _ =>
      cases h_io : W.attempt (.connectUdp base) with
      | error e =>
        obtain ⟨m, rfl⟩ := World.attempt_eq_error h_io
        exact Or.inl ⟨m, rfl, List.prefix_refl _⟩
      | ok _ => exact Or.inr ⟨.udp base, rfl, rfl⟩

/-- The run of a chain whose kinds hold. -/
theorem kindCorrect_of_holds {hops lhops front last tail : List HopConfig}
    {b : ChainStreamBuilder} {D : Address} {ls : List StreamBuilder} (h : ChainOf W hops b)
    (h_black : b.isBlackHole = false) (h_order : LayerOrder hops lhops front last tail)
    (h_plan : UdpPlan W b D lhops ls) (h_holds : UdpKindsHold hops) (udpBindIp : IpAddr) :
    KindCorrect W hops (b.tcpBase D) udpBindIp (b.buildUdp W D udpBindIp) := by
  obtain ⟨hop, hops', rfl⟩ : ∃ hop hops', lhops = hop :: hops' := by
    cases lhops with
    | nil => exact absurd h_order.perm.nil_eq.symm h_holds.nonempty
    | cons hop hops' => exact ⟨hop, hops', rfl⟩
  have h_tcp : hops'.any isUot = hops.any isUot := h_order.any_tail h_holds
  have h_below : (hop :: hops').any isUot = hops'.any isUot := by
    rw [h_order.perm.any_eq, h_tcp]
  have h_cons : b.buildUdpMarker = hops'.any isUot :: markers hops' := by
    rw [h_plan.marker_eq, markers_cons]
  rw [ChainStreamBuilder.buildUdp_eq h_black h_plan.lastFor h.marker_eq h_cons, h_plan.marker_eq]
  rw [h_tcp] at h_below ⊢
  rcases connectBase_run (W := W) (hops.any isUot) (b.tcpBase D) udpBindIp with
    ⟨e, h_err, h_calls⟩ | ⟨io, h_ok, h_io⟩
  · rw [Trace.bind_of_error h_err]
    -- the connection fails, and no layer is built
    refine ⟨fun h_bounds => (by cases h_bounds), Or.inl ⟨h_calls, fun s hs => ?_⟩⟩
    cases hs
  · rw [h_ok, Trace.bind_of_ok rfl]
    obtain ⟨built, h_prefix, h_all, h_done⟩ := kindRun h_plan.made (h_io.trans (by rw [h_below]))
    refine ⟨fun h_bounds => ?_, Or.inr ⟨_, built, _, h_order.kinds_perm h_holds, h_prefix, rfl,
      h_all, h_done⟩⟩
    have h_mem := (foldUdp _ io).of_fault _ h_bounds
    revert h_mem
    decide

/-- In a list of layers that ends with a UoT one, only that one is built with the flag off. -/
theorem madeFrom_of_marker_false {hops : List HopConfig} {xs : List StreamBuilder}
    (h : List.Forall₂ (MadeFrom W) hops xs) {front : List HopConfig} {u : HopConfig}
    (h_eq : hops = front ++ [u]) (h_u : u.isUot = true) {y : StreamBuilder}
    (hy : (y, false) ∈ xs.zip (markers hops)) : MadeFrom W u y := by
  induction h generalizing front with
  | nil => cases hy
  | @cons hop x hops xs h_made _ ih =>
    rw [markers_cons, List.zip_cons_cons] at hy
    cases front with
    | nil =>
      cases h_eq
      rcases List.mem_cons.mp hy with h_head | hy
      · cases h_head
        exact h_made
      · simp [markers, uotRight] at hy
    | cons f front =>
      obtain ⟨rfl, rfl⟩ : hop = f ∧ hops = front ++ [u] := by simpa using h_eq
      rcases List.mem_cons.mp hy with h_head | hy
      · -- `u` is still to come, so this flag is on
        simp [h_u] at h_head
      · exact ih rfl hy

/-- What is related element by element has a partner for each. -/
theorem exists_mem_of_forall₂ {α β : Type} {R : α → β → Prop} {xs : List α} {ys : List β}
    (h : List.Forall₂ R xs ys) : ∀ x ∈ xs, ∃ y ∈ ys, R x y := by
  induction h with
  | nil =>
    intro x hx
    cases hx
  | @cons x y _ _ h_xy _ ih =>
    intro z hz
    rcases List.mem_cons.mp hz with rfl | hz
    · exact ⟨y, List.mem_cons_self, h_xy⟩
    · obtain ⟨w, hw, h_w⟩ := ih z hz
      exact ⟨w, List.mem_cons_of_mem _ hw, h_w⟩

/-- The layers that a run is said to build are among its `build_udp` calls. -/
theorem mem_of_layers {layers calls : List Call} {ps : List (StreamBuilder × Bool)}
    {tcp tcp' : Bool} {base : Address} {udpBindIp : IpAddr}
    (h_calls : calls.map Call.udpBuilder = ps.map some)
    (h_eq : baseCalls tcp base udpBindIp ++ calls = baseCalls tcp' base udpBindIp ++ layers)
    {y : StreamBuilder} {io : Stream} {m : Bool} (hy : .buildUdp y io m ∈ layers) :
    (y, m) ∈ ps := by
  have h_mem : .buildUdp y io m ∈ baseCalls tcp base udpBindIp ++ calls := by
    rw [h_eq]
    exact List.mem_append_right _ hy
  rcases List.mem_append.mp h_mem with h_mem | h_mem
  · cases tcp <;> simp [baseCalls] at h_mem
  · have h_map : some (y, m) ∈ calls.map Call.udpBuilder :=
      List.mem_map.mpr ⟨_, h_mem, rfl⟩
    rw [h_calls] at h_map
    simpa using h_map

/-- A hop of the tail cannot be built as the chain asks if the last addressed hop is UoT. -/
theorem LayerOrder.tail_eq_nil {hops lhops front tail : List HopConfig} {u : HopConfig}
    (h : LayerOrder hops lhops front [u] tail) (h_u : u.isUot = true) {xs : List StreamBuilder}
    (h_made : List.Forall₂ (MadeFrom W) lhops xs) {order : List (HopConfig × Kind)}
    {layers : List Call} (h_order : order.Perm (hops.zip (kinds hops)))
    (h_fits : List.Forall₂ (fun p call => p.2.Fits W p.1 call) order layers)
    (h_mem : ∀ y io m, .buildUdp y io m ∈ layers → (y, m) ∈ xs.zip (markers lhops)) :
    tail = [] := by
  by_contra h_ne
  obtain ⟨t, ts, h_tail⟩ := List.exists_cons_of_ne_nil h_ne
  have h_t : t ∈ tail := by
    rw [h_tail]
    exact List.mem_cons_self
  -- the chain asks for `t` to be built with the flag off
  have h_kind : (t, Kind.outside) ∈ hops.zip (kinds hops) := by
    have h_hops : hops = (front ++ [u]) ++ tail := by
      rw [h.hops_eq, List.append_assoc]
    rw [h_hops, kinds_append h.tail_not_uot, List.zip_append (length_kinds _).symm,
      ← List.map_prod_left_eq_zip]
    exact List.mem_append_right _ (List.mem_map.mpr ⟨t, h_t, rfl⟩)
  obtain ⟨call, h_call, h_fit⟩ := exists_mem_of_forall₂ h_fits _ (h_order.mem_iff.mpr h_kind)
  cases call with
  | connectTcp _ | bindUdp _ | connectUdp _ | buildTcp _ _ => cases h_fit
  | buildUdp y io m =>
    obtain ⟨⟨_, h_y⟩, rfl, _⟩ := h_fit
    -- but only the builder of `u` is
    have h_lhops : lhops = (front ++ tail) ++ [u] := by
      rw [h.lhops_eq, List.append_assoc]
    obtain ⟨_, h_y'⟩ := madeFrom_of_marker_false h_made h_lhops h_u (h_mem y io false h_call)
    have h_type : t.getProtocolType = u.getProtocolType := by
      rw [← protocolType_eq h_y, protocolType_eq h_y']
    have h_uot : t.isUot = u.isUot := congrArg ProtocolType.isUot h_type
    rw [h.tail_not_uot t h_t, h_u] at h_uot
    cases h_uot

/-- The kinds hold, if the first layer is not the only UoT one, and no hop without an address comes
after a UoT hop at the end. -/
theorem LayerOrder.holds {hops hops' front last tail : List HopConfig} {hop : HopConfig}
    (h : LayerOrder hops (hop :: hops') front last tail) (h_nonempty : hops ≠ [])
    (h_first : hops.any isUot = true → hops'.any isUot = true)
    (h_tail : ∀ u, last = [u] → u.isUot = true → tail = []) : UdpKindsHold hops := by
  rcases h.last_addr with ⟨h_last, h_nil, h_none⟩ | ⟨u, own, h_last, h_own⟩
  · -- no hop has an address, let alone is UoT
    have h_any : hops.any isUot = false := by
      apply any_isUot_eq_false
      intro x hx
      rw [h.hops_eq, h_last, h_nil, List.append_nil] at hx
      exact isUot_of_getAddr_none (h_none x (by simpa using hx))
    refine ⟨h_nonempty, fun h_uot => ?_, fun h_uot => ?_⟩
    · rw [h_any] at h_uot
      cases h_uot
    · rw [h_any] at h_uot
      cases h_uot
  · cases h_u : u.isUot with
    | true =>
      have h_nil := h_tail u h_last h_u
      have h_eq : hops = hop :: hops' := by
        rw [h.lhops_eq, h.hops_eq, h_nil, List.nil_append, List.append_nil]
      refine ⟨h_nonempty, ?_, fun _ h_part => absurd ?_ h_part⟩
      · intro h_any
        rw [h_eq]
        exact h_first h_any
      · have h_hops : hops = front ++ u :: [] := by
          rw [h.hops_eq, h_last, h_nil]
          rfl
        -- nothing comes after the hop that is UoT, so the part of datagrams is empty
        rw [h_hops]
        exact datagramPart_append front h_u fun x hx => (by cases hx)
    | false =>
      have h_hops : hops = front ++ u :: tail := by
        rw [h.hops_eq, h_last]
        rfl
      refine ⟨h_nonempty, ?_, fun _ _ => ?_⟩
      · intro h_any
        have h_right := h_first h_any
        have h_none : tail.any isUot = false := any_isUot_eq_false h.tail_not_uot
        have h_lhops := h.lhops_eq
        rw [h_last] at h_lhops
        cases front with
        | nil =>
          rw [h_hops] at h_any
          simp [h_u, h_none] at h_any
        | cons f front =>
          obtain ⟨_, h_hops'⟩ := List.cons.inj h_lhops
          rw [h_hops'] at h_right
          rw [h_hops]
          simpa [h_u, h_none] using h_right
      · obtain ⟨a, h_a⟩ := nextAddr_datagramPart h_hops h_own h.no_addr h_u
        obtain ⟨x, hx, h_x⟩ := List.exists_of_findSome?_eq_some h_a
        exact ⟨x, hx, by rw [h_x]; rfl⟩

/-- What the chain of a run with the right kinds satisfies. -/
theorem holds_of_kindCorrect {hops lhops front last tail : List HopConfig}
    {b : ChainStreamBuilder} {D : Address} {ls : List StreamBuilder} (h : ChainOf W hops b)
    (h_black : b.isBlackHole = false) (h_order : LayerOrder hops lhops front last tail)
    (h_plan : UdpPlan W b D lhops ls) {udpBindIp : IpAddr}
    (h_kinds : KindCorrect W hops (b.tcpBase D) udpBindIp (b.buildUdp W D udpBindIp))
    (h_end : hops = [] ∨ ∃ s, (b.buildUdp W D udpBindIp).result = .ok s) :
    UdpKindsHold hops := by
  cases lhops with
  | nil =>
    -- without a layer there is no first flag
    exfalso
    refine h_kinds.in_bounds ?_
    have h_nil : b.buildUdpMarker = [] := h_plan.marker_eq
    unfold ChainStreamBuilder.buildUdp
    rw [h_black, h_nil]
    rfl
  | cons hop hops' =>
    have h_nonempty : hops ≠ [] := by
      rintro rfl
      cases h_order.perm.eq_nil
    obtain ⟨s, h_s⟩ := h_end.resolve_left h_nonempty
    have h_cons : b.buildUdpMarker = hops'.any isUot :: markers hops' := by
      rw [h_plan.marker_eq, markers_cons]
    have h_run := ChainStreamBuilder.buildUdp_eq h_black h_plan.lastFor h.marker_eq h_cons
      udpBindIp
    rw [h_run] at h_s
    obtain ⟨io, h_io, h_fold⟩ := Trace.bind_result_eq_ok.mp h_s
    have h_ok := (foldUdp (W := W) _ io).of_ok s h_fold
    rcases connectBase_run (W := W) (hops'.any isUot) (b.tcpBase D) udpBindIp with
      ⟨e, h_err, _⟩ | ⟨io', h_base, _⟩
    · rw [h_err] at h_io
      cases h_io
    · rw [h_base] at h_io
      cases h_io
      rw [h_base, Trace.bind_of_ok rfl] at h_run
      rcases h_kinds.calls with ⟨_, h_none⟩ |
        ⟨order, built, layers, h_perm, _, h_calls, h_fits, h_built⟩
      · exact absurd (h_run ▸ h_fold) (h_none s)
      · obtain rfl : built = order := h_built s (h_run ▸ h_fold)
        rw [h_run] at h_calls
        have h_tcp : hops.any isUot = true → hops'.any isUot = true := by
          intro h_any
          cases h_first : hops'.any isUot with
          | true => rfl
          | false =>
            rw [h_first, h_any] at h_calls
            cases h_calls
        have h_mem : ∀ y io m, .buildUdp y io m ∈ layers →
            (y, m) ∈ (b.builders ++ ls).zip (markers (hop :: hops')) := by
          intro y io m h_layer
          rw [← h_plan.marker_eq]
          exact mem_of_layers h_ok h_calls h_layer
        exact h_order.holds h_nonempty h_tcp fun u h_last h_u =>
          (h_last ▸ h_order).tail_eq_nil h_u h_plan.made h_perm h_fits h_mem

/-- **The kinds of a UDP chain.** In every run, `build_udp` gives the hops of an accepted
chain what they need if the chain is refused for a black hole or `UdpKindsHold`; and of the
runs that build the whole stream, and of the chain without hops, which panics, only if
so. -/
theorem buildUdp_kinds_iff {out : Outbounds} {b : ChainStreamBuilder} {hops : List HopConfig}
    (h : Accepts W c out b) (h_res : Resolves c out.chain hops) (D : Address)
    (udpBindIp : IpAddr) :
    ((∃ hop ∈ hops, hop.getProtocolType = .blackhole) ∨ UdpKindsHold hops →
      KindCorrect W hops ((nextAddr hops).getD D) udpBindIp (b.buildUdp W D udpBindIp)) ∧
    (hops = [] ∨ (∃ s, (b.buildUdp W D udpBindIp).result = .ok s) →
      (KindCorrect W hops ((nextAddr hops).getD D) udpBindIp (b.buildUdp W D udpBindIp) ↔
        (∃ hop ∈ hops, hop.getProtocolType = .blackhole) ∨ UdpKindsHold hops)) := by
  have h_chain := h.chainOf h_res
  obtain ⟨lhops, front, last, tail, ls, h_order, h_plan⟩ := h_chain.udpPlan D
  rw [← h_chain.tcpBase_eq D]
  have h_iff : (∃ hop ∈ hops, hop.getProtocolType = .blackhole) ↔ b.isBlackHole = true := by
    rw [h_chain.isBlackHole_eq]
    simp
  rw [h_iff]
  have h_if : b.isBlackHole = true ∨ UdpKindsHold hops →
      KindCorrect W hops (b.tcpBase D) udpBindIp (b.buildUdp W D udpBindIp) := by
    cases h_black : b.isBlackHole with
    | true =>
      -- the guard: nothing is called
      intro _
      have h_run : b.buildUdp W D udpBindIp = ⟨[], .error (newError "block connection")⟩ := by
        unfold ChainStreamBuilder.buildUdp
        rw [h_black]
        rfl
      rw [h_run]
      exact ⟨fun h_bounds => (by cases h_bounds),
        Or.inl ⟨List.nil_prefix, fun s hs => (by cases hs)⟩⟩
    | false =>
      rintro (h_true | h_holds)
      · cases h_true
      · exact kindCorrect_of_holds h_chain h_black h_order h_plan h_holds udpBindIp
  refine ⟨h_if, fun h_end => ⟨fun h_kinds => ?_, h_if⟩⟩
  cases h_black : b.isBlackHole with
  | true => exact Or.inl rfl
  | false =>
    exact Or.inr (holds_of_kindCorrect h_chain h_black h_order h_plan h_kinds h_end)

theorem buildUdp_kinds_secure : ∃ b, Accepts .calm .sample ⟨["t", "v"], "secure"⟩ b ∧
    KindCorrect .calm [Config.sampleTls, Config.sampleVmess] (Config.server 443) (.v4 0)
      (b.buildUdp .calm (Config.server 53) (.v4 0)) := by
  have h_accepts : ∃ b, Accepts .calm .sample ⟨["t", "v"], "secure"⟩ b :=
    exists_accepts rfl (by decide)
  obtain ⟨b, h⟩ := h_accepts
  have h_holds : UdpKindsHold [Config.sampleTls, Config.sampleVmess] :=
    ⟨by decide, by decide, by decide⟩
  exact ⟨b, h, (buildUdp_kinds_iff h (.cons ⟨_, rfl, rfl⟩ (.cons ⟨_, rfl, rfl⟩ .nil))
    (Config.server 53) (.v4 0)).1 (Or.inr h_holds)⟩

/-- VMess alone is built over a UDP socket. -/
theorem buildUdp_kinds_alone :
    ¬ ∀ (W : World) (c : Config) (out : Outbounds) (b : ChainStreamBuilder)
        (hops : List HopConfig) (D : Address) (udpBindIp : IpAddr),
      Accepts W c out b → Resolves c out.chain hops →
      KindCorrect W hops ((nextAddr hops).getD D) udpBindIp (b.buildUdp W D udpBindIp) := by
  intro h
  have h_accepts : ∃ b, Accepts .calm .sample ⟨["v"], "alone"⟩ b :=
    exists_accepts rfl (by decide)
  obtain ⟨b, h_b⟩ := h_accepts
  have h_built := h_b.built
  cases h_built
  have h_kinds := h .calm .sample _ _ [Config.sampleVmess] (Config.server 53) (.v4 0) h_b
    (.cons ⟨_, rfl, rfl⟩ .nil)
  rcases h_kinds.calls with ⟨_, h_none⟩ | ⟨_, _, _, _, _, h_calls, _⟩
  · exact h_none _ rfl
  · -- the run binds a socket where the chain asks for a TCP connection
    cases h_calls

end V2ray

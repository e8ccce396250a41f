import Mathlib.Data.List.AList
import V2rayRust.Common.Basic
import V2rayRust.Proxy.Builder

/-!
# Outbound chains

`ChainStreamBuilder` of `proxy/mod.rs` and `Config::build_inner_map` of `config/mod.rs`: how
a list of tags becomes a chain of builders, and how the chain builds a stream.
-/

namespace V2ray

/-- A fault as what stops a computation. -/
def Stop.ofFault {α : Type} (x : Except Fault α) : Except Stop α := x.mapError Stop.fault

/-! ### The chain -/

structure ChainStreamBuilder where
  builders : List StreamBuilder
  remoteAddr : Option Address
  lastUdpAddr : Option Address
  buildUdpMarker : List Bool
  lastBuilder : Option HopConfig
  isBlackHole : Bool
  deriving DecidableEq

namespace ChainStreamBuilder

def new : ChainStreamBuilder where
  builders := []
  remoteAddr := none
  lastUdpAddr := none
  buildUdpMarker := []
  lastBuilder := none
  isBlackHole := false

/-- The items of `ChainStreamBuilderProtocolTypeIter`: the last builder, then the builders
from right to left. -/
def protocolTypeIter (b : ChainStreamBuilder) : List ProtocolType :=
  (b.lastBuilder.map HopConfig.getProtocolType).toList ++
    (b.builders.map StreamBuilder.protocolType).reverse

/-- The loop of `build_udp_marker_impl`. -/
def buildUdpMarkerLoop : List ProtocolType → Bool → List Bool → List Bool
  | [], _, bitVec => bitVec
  | ty :: iter, isUot, bitVec =>
    if ty.isUot && !isUot then buildUdpMarkerLoop iter true (bitVec ++ [false])
    else buildUdpMarkerLoop iter isUot (bitVec ++ [isUot])

def buildUdpMarkerImpl (bitVec : List Bool) (iter : List ProtocolType) : List Bool :=
  (buildUdpMarkerLoop iter false bitVec).reverse

def buildInnerMarkers (b : ChainStreamBuilder) : Except Fault ChainStreamBuilder := do
  let isBlackHole := b.protocolTypeIter.any (· = .blackhole)
  let buildUdpMarker := buildUdpMarkerImpl b.buildUdpMarker b.protocolTypeIter
  let b := { b with isBlackHole, buildUdpMarker }
  match b.protocolTypeIter.findIdx? ProtocolType.isUot with
  | some idx =>
    if idx = 0 then return b
    else return { b with lastUdpAddr := (← index b.builders (b.builders.length - idx)).getAddr }
  | none => return { b with lastUdpAddr := b.remoteAddr }

def pushRemoteAddr (b : ChainStreamBuilder) (addr : Address) : ChainStreamBuilder :=
  { b with remoteAddr := some addr }

def pushLastBuilder (b : ChainStreamBuilder) (builder : HopConfig) : ChainStreamBuilder :=
  { b with lastBuilder := some builder }

def push (b : ChainStreamBuilder) (builder : StreamBuilder) : ChainStreamBuilder :=
  { b with builders := b.builders ++ [builder] }

variable (W : World)

/-- `addr.connect_tcp()` -/
def connectTcp (addr : Address) : Trace Call Stop Stream := do
  .call (.connectTcp addr) (W.attempt (.connectTcp addr))
  return .tcp addr

/-- `UdpSocket::bind`, and `addr.connect_udp(socket)` -/
def bindConnectUdp (addr : Address) (udpBindIp : IpAddr) : Trace Call Stop Stream := do
  .call (.bindUdp udpBindIp) (W.attempt (.bindUdp udpBindIp))
  .call (.connectUdp addr) (W.attempt (.connectUdp addr))
  return .udp addr

/-- The layers of `build_tcp`: the builders in turn, then the last builder, made for
`proxyAddr`. -/
def layersTcp (b : ChainStreamBuilder) (proxyAddr : Address) (outerStream : Stream) :
    Trace Call Stop Stream := do
  let outerStream ← b.builders.foldlM (fun io builder => builder.buildTcp W io) outerStream
  match b.lastBuilder with
  | some last =>
    let builder ← .lift (last.toChainableStreamBuilder W (some proxyAddr))
    builder.buildTcp W outerStream
  | none => return outerStream

def buildTcp (b : ChainStreamBuilder) (proxyAddr : Address) : Trace Call Stop Stream := do
  if b.isBlackHole then .lift (.error (newError "block connection"))
  else
    match b.remoteAddr with
    | some remoteAddr => b.layersTcp W proxyAddr (← connectTcp W remoteAddr)
    | none => b.layersTcp W proxyAddr (← connectTcp W proxyAddr)

/-- The layers of `build_udp`. -/
def layersUdp (b : ChainStreamBuilder) (proxyAddr : Address) (outerStream : Stream) :
    Trace Call Stop Stream := do
  let outerStream ← (b.builders.zip b.buildUdpMarker).foldlM
    (fun io x => x.1.buildUdp W io x.2) outerStream
  match b.lastBuilder with
  | some last =>
    let addr := if last.getProtocolType.isUot then some proxyAddr else b.lastUdpAddr
    let builder ← .lift (last.toChainableStreamBuilder W addr)
    let inside ← .lift (unwrap "build_udp_marker" b.buildUdpMarker.getLast?)
    builder.buildUdp W outerStream inside
  | none => return outerStream

def buildUdp (b : ChainStreamBuilder) (proxyAddr : Address) (udpBindIp : IpAddr) :
    Trace Call Stop Stream := do
  if b.isBlackHole then .lift (.error (newError "block connection"))
  else
    let base := b.remoteAddr.getD proxyAddr
    if ← .lift (Stop.ofFault (index b.buildUdpMarker 0)) then
      b.layersUdp W proxyAddr (← connectTcp W base)
    else b.layersUdp W proxyAddr (← bindConnectUdp W base udpBindIp)

end ChainStreamBuilder

/-! ### From tags to chains -/

namespace Config

/-- `config_map`: where the configuration of a tag is. -/
abbrev ConfigMap := AList fun _ : String => ProtocolType × ℕ

/-- `insert_config_map!`: a tag that is there already is replaced. -/
def insertConfigMap {α : Type} (tag : α → String) (ty : ProtocolType) (name : List α)
    (map : ConfigMap) : ConfigMap :=
  name.zipIdx.foldl (fun map s => map.insert (tag s.1) (ty, s.2)) map

def configMap (c : Config) : ConfigMap :=
  (∅ : ConfigMap)
  |> insertConfigMap ShadowsocksConfig.tag .ss c.ss
  |> insertConfigMap TlsConfig.tag .tls c.tls
  |> insertConfigMap VmessConfig.tag .vmess c.vmess
  |> insertConfigMap WebsocketConfig.tag .ws c.ws
  |> insertConfigMap TrojanConfig.tag .trojan c.trojan
  |> insertConfigMap DirectConfig.tag .direct c.direct
  |> insertConfigMap Http2Config.tag .h2 c.h2
  |> insertConfigMap GrpcConfig.tag .grpc c.grpc
  |> insertConfigMap BlackHoleConfig.tag .blackhole c.blackhole
  |> insertConfigMap SimpleObfsConfig.tag .simpleObfs c.simpleobfs

/-- `config[(protocol, index)]` -/
def hopAt (c : Config) : ProtocolType × ℕ → Except Fault HopConfig
  | (.ss, i) => HopConfig.ss <$> index c.ss i
  | (.tls, i) => HopConfig.tls <$> index c.tls i
  | (.vmess, i) => HopConfig.vmess <$> index c.vmess i
  | (.ws, i) => HopConfig.ws <$> index c.ws i
  | (.trojan, i) => HopConfig.trojan <$> index c.trojan i
  | (.direct, i) => HopConfig.direct <$> index c.direct i
  | (.h2, i) => HopConfig.h2 <$> index c.h2 i
  | (.grpc, i) => HopConfig.grpc <$> index c.grpc i
  | (.blackhole, i) => HopConfig.blackhole <$> index c.blackhole i
  | (.simpleObfs, i) => HopConfig.simpleObfs <$> index c.simpleobfs i

variable (W : World)

/-- The first pass over a chain: the first address becomes the remote address, the others
are collected. -/
def collectAddrs (c : Config) (configMap : ConfigMap) (outTag : String) :
    List String → ChainStreamBuilder → List Address →
      Except Stop (ChainStreamBuilder × List Address)
  | [], builder, addrs => .ok (builder, addrs)
  | tag :: chain, builder, addrs =>
    match configMap.lookup tag with
    | some p => do
      match (← Stop.ofFault (c.hopAt p)).getAddr with
      | some tmpAddr =>
        if builder.remoteAddr.isNone then
          collectAddrs c configMap outTag chain (builder.pushRemoteAddr tmpAddr) addrs
        else collectAddrs c configMap outTag chain builder (addrs ++ [tmpAddr])
      | none => collectAddrs c configMap outTag chain builder addrs
    | none =>
      .error (newError ("config parse failed, can't find chain tag `" ++ tag ++
        "` in outbound `" ++ outTag ++ "`"))

/-- The second pass: an addressed hop is made for the next address, and the one for which
there is none becomes the last builder. -/
def pushBuilders (c : Config) (configMap : ConfigMap) :
    List String → ChainStreamBuilder → List Address → Except Stop ChainStreamBuilder
  | [], builder, _ => .ok builder
  | t :: chain, builder, addrIter =>
    match configMap.lookup t with
    | some p => do
      let hop ← Stop.ofFault (c.hopAt p)
      match p.1 with
      | .trojan | .ss | .vmess =>
        match addrIter with
        | [] => pushBuilders c configMap chain (builder.pushLastBuilder hop) []
        | nextAddr :: addrIter =>
          let b ← hop.toChainableStreamBuilder W (some nextAddr)
          pushBuilders c configMap chain (builder.push b) addrIter
      | _ =>
        let b ← hop.toChainableStreamBuilder W none
        pushBuilders c configMap chain (builder.push b) addrIter
    | none => pushBuilders c configMap chain builder addrIter

/-- The body of the loop over `outbounds`: the chain of one outbound. -/
def buildOutbound (c : Config) (configMap : ConfigMap) (out : Outbounds) :
    Except Stop ChainStreamBuilder := do
  let (builder, addrs) ← c.collectAddrs configMap out.tag out.chain .new []
  let builder ← c.pushBuilders W configMap out.chain builder addrs
  Stop.ofFault builder.buildInnerMarkers

abbrev InnerMap := AList fun _ : String => ChainStreamBuilder

def buildInnerMap (c : Config) : Except Stop InnerMap :=
  c.outbounds.foldlM
    (fun innerMap out => do return innerMap.insert out.tag (← c.buildOutbound W c.configMap out)) ∅

end Config

end V2ray

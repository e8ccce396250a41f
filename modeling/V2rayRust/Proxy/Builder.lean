import Mathlib.Data.List.Basic
import V2rayRust.Config.Model
import V2rayRust.Lib.Trace

/-!
# Stream builders

The implementations of `ChainableStreamBuilder` (`proxy/*/mod.rs`) and of
`ToChainableStreamBuilder` (`config/to_chainable_builder.rs`): trait objects are sum types
with one constructor for each implementation. A stream is what was built: a base connection
and the layers put on it, each with the data its constructor was given. What a handshake or
a write does on the network is the world's answer; what the configuration alone decides (a
request that cannot be formed, an `unwrap`) is computed here.
-/

namespace V2ray

/-- `o.unwrap()` -/
def unwrap {α : Type} (value : String) : Option α → Except Stop α
  | some a => .ok a
  | none => .error (.fault (.unwrapNone value))

/-! ### Layers and streams -/

structure VmessOption where
  uuid : BitVec 128
  alterId : UInt16
  addr : Address
  securityNum : UInt8
  isUdp : Bool
  deriving DecidableEq

/-- `trojan_stream::RequestHeader` -/
inductive RequestHeader
  | tcpConnect (hash : List UInt8) (addr : Address)
  | udpAssociate (hash : List UInt8)
  deriving DecidableEq

/-- `http::Request<()>`: what the request builders of `websocket`, `h2` and `grpc` fill in. -/
structure Request where
  method : String
  uri : Uri
  headers : List (String × String)
  deriving DecidableEq

/-- What a builder puts on a stream. -/
inductive Layer
  /-- `CryptoStream::new`, and the address written through it -/
  | cryptoStream (method : CipherKind) (key : List UInt8) (header : Address)
  /-- `ShadowSocksUdpStream::new` -/
  | shadowSocksUdpStream (addr : Address) (method : CipherKind) (key : List UInt8)
  /-- `VmessStream::new`, whose first write carries the option's address -/
  | vmessStream (option : VmessOption)
  /-- `RequestHeader::write_to` the stream itself -/
  | trojanHeader (header : RequestHeader)
  /-- `TrojanUdpStream::new` -/
  | trojanUdpStream
  | tls (certFile : Option String) (sni : String) (verifyHostname verifySni : Bool)
  | binaryWsStream (req : Request)
  | binaryWsStreamWithEarlyData (req : Request) (earlyDataHeaderName : String)
      (maxEarlyData : ℕ)
  | grpcStream (req : Request)
  | http2Stream (req : Request)
  | httpObfs (host : Address)
  deriving DecidableEq

/-- A stream: the connection it runs over, and the layers from the inside out. -/
inductive Stream
  | tcp (addr : Address)
  /-- `ConnectedUdpSocket` -/
  | udp (addr : Address)
  | layered (layer : Layer) (io : Stream)
  deriving DecidableEq

/-- What a stream carries. -/
inductive Transport
  | stream
  | datagram
  deriving DecidableEq, Repr

/-- The transport that a stream offers. -/
def Stream.transport : Stream → Transport
  | tcp _ => .stream
  | udp _ => .datagram
  | layered (.shadowSocksUdpStream ..) _ => .datagram
  | layered .trojanUdpStream _ => .datagram
  | layered (.vmessStream o) _ => if o.isUdp then .datagram else .stream
  | layered _ _ => .stream

/-! ### Builders -/

/-- `Box<dyn ChainableStreamBuilder>` -/
inductive StreamBuilder
  | vmess (vmessOption : VmessOption)
  | trojan (password : List UInt8) (addr : Address)
  | shadowsocks (addr : Address) (method : CipherKind) (key : List UInt8)
  | tls (certFile : Option String) (sni : String) (verifyHostname verifySni : Bool)
  | ws (uri : Uri) (headers : List (String × String)) (maxEarlyData : ℕ)
      (earlyDataHeaderName : String)
  | grpc (host path : String)
  | h2 (hosts : List String) (headers : List (String × String)) (method path : String)
  | simpleObfs (host : Address)
  | direct
  | blackhole
  deriving DecidableEq

/-- The calls that building a stream makes. -/
inductive Call
  | connectTcp (addr : Address)
  /-- `UdpSocket::bind(SocketAddr::new(udp_bind_ip, 0))` -/
  | bindUdp (ip : IpAddr)
  | connectUdp (addr : Address)
  | buildTcp (builder : StreamBuilder) (io : Stream)
  | buildUdp (builder : StreamBuilder) (io : Stream) (buildTcpInside : Bool)
  deriving DecidableEq

/-- What is not decided under this roof: digests, the TLS library, the `http` crate's
checks, random draws, and the outcome of each call. -/
structure World where
  md5 : List UInt8 → List UInt8
  sha224 : List UInt8 → List UInt8
  /-- a connector can be made with this CA file -/
  tlsConnectorOk : Option String → Bool
  /-- the `http` crate takes this header -/
  headerOk : String → String → Bool
  /-- the `http` crate builds a URI from this authority and this path -/
  uriOk : String → String → Bool
  generateKey : String
  random : ℕ
  /-- the I/O error of a call, if it fails -/
  io : Call → Option String

/-- A world in which nothing fails. -/
def World.calm : World where
  md5 _ := List.replicate 16 0
  sha224 _ := List.replicate 28 0
  tlsConnectorOk certFile := certFile.isNone
  headerOk _ _ := true
  uriOk _ _ := true
  generateKey := "AAAAAAAAAAAAAAAAAAAAAA=="
  random := 0
  io _ := none

namespace World

variable (W : World)

/-- The I/O of a call. -/
def attempt (c : Call) : Except Stop Unit :=
  match W.io c with
  | some e => .error (.err e)
  | none => .ok ()

/-- `request.body(()).unwrap()`: a header that was refused surfaces here. -/
def body (req : Request) : Except Stop Request :=
  if req.headers.all fun h => W.headerOk h.1 h.2 then .ok req
  else .error (.fault (.unwrapNone "request"))

end World

namespace StreamBuilder

def protocolType : StreamBuilder → ProtocolType
  | vmess _ => .vmess
  | trojan .. => .trojan
  | shadowsocks .. => .ss
  | tls .. => .tls
  | ws .. => .ws
  | grpc .. => .grpc
  | h2 .. => .h2
  | simpleObfs _ => .simpleObfs
  | direct => .direct
  | blackhole => .blackhole

def getAddr : StreamBuilder → Option Address
  | vmess o => some o.addr
  | trojan _ addr => some addr
  | shadowsocks addr _ _ => some addr
  | _ => none

variable (W : World)

/-- The part of `authority` after its first `@`. -/
def hostOf (authority : String) : String :=
  match authority.toList.dropWhile (· ≠ '@') with
  | [] => authority
  | _ :: host => String.ofList host

/-- `BinaryWsStreamBuilder::req` -/
def wsReq (uri : Uri) (headers : List (String × String)) (maxEarlyData : ℕ)
    (earlyDataHeaderName : String) : Except Stop Request :=
  match uri.authority with
  | none => .error (.fault (.unwrapNone "authority"))
  | some authority =>
    W.body
      { method := "GET"
        uri := uri
        headers :=
          [("Host", hostOf authority), ("Connection", "Upgrade"), ("Upgrade", "websocket"),
            ("Sec-WebSocket-Version", "13"), ("Sec-WebSocket-Key", W.generateKey)] ++
          headers.filter (fun h => h.1 ≠ "Host") ++
          if 0 < maxEarlyData then [(earlyDataHeaderName, "s")] else [] }

/-- `Uri::builder().scheme("https").authority(..).path_and_query(..).build()` -/
def httpsUri (authority path : String) : Except Stop Uri :=
  if W.uriOk authority path then .ok ⟨some "https", some authority, path⟩
  else .error (.err "Error: invalid uri")

/-- `GrpcStreamBuilder::req` -/
def grpcReq (host path : String) : Except Stop Request := do
  let uri ← httpsUri W host path
  return ⟨"POST", uri, [("content-type", "application/grpc"), ("user-agent", "grpc-go/1.46.0")]⟩

/-- `Http2StreamBuilder::req` -/
def h2Req (hosts : List String) (headers : List (String × String)) (method path : String) :
    Except Stop Request := do
  if hosts.length = 0 then throw (.fault .remByZero)
  match hosts[W.random % hosts.length]? with
  | none => throw (.fault .outOfBounds)
  | some host =>
    let uri ← httpsUri W host path
    W.body ⟨method, uri, headers.filter (fun h => h.1 ≠ "Host")⟩

/-- `VmessStream::new` -/
def newVmessStream (o : VmessOption) (io : Stream) : Except Stop Stream :=
  if o.securityNum = 3 ∨ o.securityNum = 4 then .ok (.layered (.vmessStream o) io)
  else .error (.fault .unimplemented)

/-- What the transports make of a stream: the bodies that `build_tcp` shares with
`build_udp` when it builds a TCP layer inside. `c` is the call being answered. -/
def transportLayer (c : Call) (io : Stream) : StreamBuilder → Except Stop Stream
  | tls certFile sni verifyHostname verifySni => do
    W.attempt c
    return .layered (.tls certFile sni verifyHostname verifySni) io
  | ws uri headers maxEarlyData earlyDataHeaderName => do
    let req ← wsReq W uri headers maxEarlyData earlyDataHeaderName
    if 0 < maxEarlyData then
      return .layered (.binaryWsStreamWithEarlyData req earlyDataHeaderName maxEarlyData) io
    W.attempt c
    return .layered (.binaryWsStream req) io
  | grpc host path => do
    W.attempt c
    let req ← grpcReq W host path
    return .layered (.grpcStream req) io
  | h2 hosts headers method path => do
    W.attempt c
    let req ← h2Req W hosts headers method path
    return .layered (.http2Stream req) io
  | simpleObfs host => return .layered (.httpObfs host) io
  | _ => return io

/-- `build_tcp` of each builder. -/
def tcpLayer (c : Call) (io : Stream) : StreamBuilder → Except Stop Stream
  | vmess o => newVmessStream o io
  | trojan password addr => do
    W.attempt c
    return .layered (.trojanHeader (.tcpConnect password addr)) io
  | shadowsocks addr method key => do
    W.attempt c
    return .layered (.cryptoStream method key addr) io
  | direct => return io
  | blackhole => throw (.fault .unimplemented)
  | b => b.transportLayer W c io

/-- `build_udp` of each builder. -/
def udpLayer (c : Call) (io : Stream) (buildTcpInside : Bool) :
    StreamBuilder → Except Stop Stream
  | vmess o => newVmessStream { o with isUdp := !buildTcpInside } io
  | trojan password addr => do
    W.attempt c
    if buildTcpInside then
      return .layered (.trojanHeader (.tcpConnect password addr)) io
    return .layered .trojanUdpStream (.layered (.trojanHeader (.udpAssociate password)) io)
  | shadowsocks addr method key =>
    if buildTcpInside then do
      W.attempt c
      return .layered (.cryptoStream method key addr) io
    else return .layered (.shadowSocksUdpStream addr method key) io
  | direct => return io
  | blackhole => throw (.fault .unimplemented)
  | b => if buildTcpInside then b.transportLayer W c io else return io

def buildTcp (b : StreamBuilder) (io : Stream) : Trace Call Stop Stream :=
  .call (.buildTcp b io) (b.tcpLayer W (.buildTcp b io) io)

def buildUdp (b : StreamBuilder) (io : Stream) (buildTcpInside : Bool) :
    Trace Call Stop Stream :=
  .call (.buildUdp b io buildTcpInside)
    (b.udpLayer W (.buildUdp b io buildTcpInside) io buildTcpInside)

end StreamBuilder

/-! ### Configurations of hops -/

/-- `Box<dyn ToChainableStreamBuilder>`, and what `config[(protocol, index)]` refers to. -/
inductive HopConfig
  | vmess (c : VmessConfig)
  | trojan (c : TrojanConfig)
  | tls (c : TlsConfig)
  | ws (c : WebsocketConfig)
  | blackhole (c : BlackHoleConfig)
  | direct (c : DirectConfig)
  | ss (c : ShadowsocksConfig)
  | grpc (c : GrpcConfig)
  | simpleObfs (c : SimpleObfsConfig)
  | h2 (c : Http2Config)
  deriving DecidableEq

namespace HopConfig

def getProtocolType : HopConfig → ProtocolType
  | vmess _ => .vmess
  | trojan _ => .trojan
  | tls _ => .tls
  | ws _ => .ws
  | blackhole _ => .blackhole
  | direct _ => .direct
  | ss _ => .ss
  | grpc _ => .grpc
  | simpleObfs _ => .simpleObfs
  | h2 _ => .h2

def getAddr : HopConfig → Option Address
  | vmess c => some c.addr
  | trojan c => some c.addr
  | ss c => some c.addr
  | _ => none

variable (W : World)

/-- The two lower-case hex digits of a byte. -/
def hexByte (t : UInt8) : List UInt8 :=
  let digit : ℕ → UInt8 := fun n => if n < 10 then UInt8.ofNat (48 + n) else UInt8.ofNat (87 + n)
  [digit (t.toNat / 16), digit (t.toNat % 16)]

/-- The loop of `openssl_bytes_to_key`, one digest a round. -/
def bytesToKeyLoop (password : List UInt8) : ℕ → ℕ → List UInt8 → List UInt8
  | 0, _, _ => []
  | rounds + 1, left, last =>
    let digest := W.md5 (last ++ password)
    digest.take (min left 16) ++ bytesToKeyLoop password rounds (left - 16) digest

/-- `common::openssl_bytes_to_key` -/
def opensslBytesToKey (password : List UInt8) (keyLen : ℕ) : List UInt8 :=
  bytesToKeyLoop W password ((keyLen + 15) / 16) keyLen []

/-- `TlsStreamBuilder::new_from_config`: the connector is made here, by `unwrap`s. -/
def newTlsBuilder (c : TlsConfig) : Except Stop StreamBuilder :=
  if W.tlsConnectorOk c.certFile then
    .ok (.tls c.certFile c.sni c.verifyHostname c.verifySni)
  else .error (.fault (.unwrapNone "connector"))

/-- The early-data settings of a websocket: those of the URI query first. -/
def newWsBuilder (c : WebsocketConfig) : StreamBuilder :=
  if 0 < c.uri.maxEarlyData then
    .ws c.uri.uri c.headers c.uri.maxEarlyData c.uri.earlyDataHeaderName
  else if 0 < c.maxEarlyData ∧ c.earlyDataHeaderName ≠ "" then
    .ws c.uri.uri c.headers c.maxEarlyData c.earlyDataHeaderName
  else .ws c.uri.uri c.headers 0 ""

def toChainableStreamBuilder (addr : Option Address) : HopConfig → Except Stop StreamBuilder
  | vmess c => do
    return .vmess
      { uuid := c.uuid, alterId := 0, addr := ← unwrap "addr" addr, securityNum := c.securityNum,
        isUdp := false }
  | trojan c => do
    let addr ← unwrap "addr" addr
    return .trojan ((W.sha224 c.password.toUTF8.toList).flatMap hexByte) addr
  | tls c => newTlsBuilder W c
  | ws c => return newWsBuilder c
  | blackhole _ => return .blackhole
  | direct _ => return .direct
  | ss c => do
    let addr ← unwrap "addr" addr
    return .shadowsocks addr c.method
      (opensslBytesToKey W c.password.toUTF8.toList c.method.keyLen)
  | grpc c => return .grpc c.host c.path
  | simpleObfs c => return .simpleObfs c.host
  | h2 c => return .h2 c.hosts c.headers c.method c.path

end HopConfig

end V2ray

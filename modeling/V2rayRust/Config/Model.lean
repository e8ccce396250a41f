import Mathlib.Data.List.Basic
import V2rayRust.Proxy.Address

/-!
# Configuration data

`config/mod.rs`: what a configuration file deserialises to. A `HashMap` that is only
iterated is the list of its entries.
-/

namespace V2ray

/-- `proxy::ProtocolType` -/
inductive ProtocolType
  | ss
  | tls
  | vmess
  | grpc
  | ws
  | trojan
  | direct
  | h2
  | blackhole
  | simpleObfs
  deriving DecidableEq, Repr

namespace ProtocolType

def isUot : ProtocolType → Bool
  | vmess | trojan => true
  | _ => false

end ProtocolType

inductive CipherKind
  | none
  | aes128Gcm
  | aes256Gcm
  | chaCha20Poly1305
  deriving DecidableEq, Repr

namespace CipherKind

def keyLen : CipherKind → ℕ
  | none => 0
  | aes128Gcm => 16
  | aes256Gcm => 32
  | chaCha20Poly1305 => 32

def saltLen (k : CipherKind) : ℕ := k.keyLen

def nonceLen : CipherKind → ℕ
  | none => 0
  | aes128Gcm => 12
  | aes256Gcm => 12
  | chaCha20Poly1305 => 12

def tagLen (_ : CipherKind) : ℕ := 16

end CipherKind

/-- `http::Uri`, in the parts that are read. -/
structure Uri where
  scheme : Option String
  authority : Option String
  pathAndQuery : String
  deriving DecidableEq

structure VmessConfig where
  addr : Address
  uuid : BitVec 128
  securityNum : UInt8
  tag : String
  deriving DecidableEq

structure TrojanConfig where
  password : String
  addr : Address
  tag : String
  deriving DecidableEq

structure TlsConfig where
  sni : String
  certFile : Option String
  verifyHostname : Bool
  verifySni : Bool
  tag : String
  deriving DecidableEq

structure EarlyDataUri where
  uri : Uri
  earlyDataHeaderName : String
  maxEarlyData : ℕ
  deriving DecidableEq

structure WebsocketConfig where
  uri : EarlyDataUri
  earlyDataHeaderName : String
  maxEarlyData : ℕ
  headers : List (String × String)
  tag : String
  deriving DecidableEq

structure ShadowsocksConfig where
  addr : Address
  password : String
  method : CipherKind
  tag : String
  deriving DecidableEq

structure BlackHoleConfig where
  tag : String
  deriving DecidableEq

structure DirectConfig where
  tag : String
  deriving DecidableEq

structure Http2Config where
  tag : String
  hosts : List String
  headers : List (String × String)
  method : String
  path : String
  deriving DecidableEq

structure SimpleObfsConfig where
  tag : String
  host : Address
  deriving DecidableEq

structure GrpcConfig where
  tag : String
  host : String
  path : String
  deriving DecidableEq

structure Outbounds where
  chain : List String
  tag : String
  deriving DecidableEq

structure GeoSiteRules where
  tag : String
  filePath : String
  rules : List String
  useMph : Bool
  deriving DecidableEq

structure GeoIpRules where
  tag : String
  filePath : String
  rules : List String
  deriving DecidableEq

structure IpRoutingRules where
  tag : String
  cidrRules : List String
  deriving DecidableEq

structure DomainRoutingRules where
  tag : String
  fullRules : List String
  domainRules : List String
  regexRules : List String
  substrRules : List String
  useMph : Bool
  deriving DecidableEq

/-- The fields that `build_inner_map` and `build_router` read. -/
structure Config where
  ss : List ShadowsocksConfig := []
  tls : List TlsConfig := []
  vmess : List VmessConfig := []
  ws : List WebsocketConfig := []
  trojan : List TrojanConfig := []
  direct : List DirectConfig := []
  blackhole : List BlackHoleConfig := []
  simpleobfs : List SimpleObfsConfig := []
  domainRoutingRules : List DomainRoutingRules := []
  ipRoutingRules : List IpRoutingRules := []
  h2 : List Http2Config := []
  grpc : List GrpcConfig := []
  geositeRules : List GeoSiteRules := []
  geoipRules : List GeoIpRules := []
  defaultOutbound : String := ""
  outbounds : List Outbounds := []

end V2ray

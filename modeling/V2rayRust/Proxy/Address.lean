import Mathlib.Data.List.Basic
import V2rayRust.Lib.Bytes

/-!
# Addresses

`proxy/address.rs`: the address type that configurations, headers and routing share.
-/

namespace V2ray

/-- `std::net::IpAddr` -/
inductive IpAddr
  | v4 (ip : BitVec 32)
  | v6 (ip : BitVec 128)
  deriving DecidableEq, Repr

/-- `std::net::SocketAddr` -/
inductive SocketAddr
  | v4 (ip : BitVec 32) (port : UInt16)
  | v6 (ip : BitVec 128) (port : UInt16) (flowinfo scopeId : UInt32)
  deriving DecidableEq, Repr

inductive Address
  | socketAddress (addr : SocketAddr)
  | domainNameAddress (name : String) (port : UInt16)
  deriving DecidableEq, Repr

namespace Address

def newDummyAddress : Address := .socketAddress (.v4 0 0)

/-- `ADDR_TYPE_IPV4` -/
def addrTypeIpv4 : UInt8 := 1

/-- `ADDR_TYPE_DOMAIN_NAME` -/
def addrTypeDomainName : UInt8 := 3

/-- `ADDR_TYPE_IPV6` -/
def addrTypeIpv6 : UInt8 := 4

/-- The bytes that `write_to_buf` appends. -/
def writeToBuf : Address → List UInt8
  | socketAddress (.v4 ip port) => addrTypeIpv4 :: beBytes 4 ip.toNat ++ beBytes 2 port.toNat
  | socketAddress (.v6 ip port _ _) =>
    addrTypeIpv6 :: beBytes 16 ip.toNat ++ beBytes 2 port.toNat
  | domainNameAddress name port =>
    addrTypeDomainName :: UInt8.ofNat name.toUTF8.size :: name.toUTF8.toList ++
      beBytes 2 port.toNat

end Address

end V2ray

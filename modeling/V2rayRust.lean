import V2rayRust.Config.IpMatch
import V2rayRust.Proxy.Shadowsocks.UdpCryptoIo
import V2rayRust.Config.Routing
import V2rayRust.Proxy.Shadowsocks.CryptoIo
import V2rayRust.Proxy.Vmess.VmessStream
import V2rayRust.Proxy.Vmess.AeadHeader
import V2rayRust.Proxy.Grpc
import V2rayRust.Proxy.Socks.Socks5Udp
import V2rayRust.Proxy.Socks.Uplink
import V2rayRust.Proxy.Socks.Isolation
import V2rayRust.Proxy.Trojan.TrojanStream
import V2rayRust.Proxy.Socks.UdpTarget
import V2rayRust.Proxy.Socks.Socks5
import V2rayRust.Proxy.AddressWire
import V2rayRust.Proxy.AddressText
import V2rayRust.Proxy.ChainPanic
import V2rayRust.Config.DomainOrder
import V2rayRust.Config.GeoFile
import V2rayRust.Config.Geoip
import V2rayRust.Config.Geosite
import V2rayRust.Lib.Search
import V2rayRust.Proxy.SimpleObfs.Http
import V2rayRust.Common.Net.CopyWithCapacity
import V2rayRust.Common.Net.Relay
import V2rayRust.Proxy.Trojan.TrojanUdp
import V2rayRust.Proxy.H2
import V2rayRust.Proxy.Shadowsocks.Context
import V2rayRust.Proxy.SimpleObfs.Closed
import V2rayRust.Proxy.Socks.Closed
import V2rayRust.Proxy.WebSocket
import V2rayRust.Lib.Base64
import V2rayRust.Proxy.WebSocket.WsEarlyData
import V2rayRust.Proxy.Shadowsocks.UdpPacket
import V2rayRust.Proxy.Vmess.WriteHeader
import V2rayRust.Proxy.Trojan.UdpEnd
import V2rayRust.Config.DnsId
import V2rayRust.Proxy.Socks.UserPass
import V2rayRust.Lib.WriteFault
import V2rayRust.Proxy.Trojan.SendTo
import V2rayRust.Proxy.AddressCanonical
import V2rayRust.Lib.ChunkSlice
import V2rayRust.Proxy.SimpleObfs.Write
import V2rayRust.Proxy.Vmess.SendTo
import V2rayRust.Lib.FullBuffer
import V2rayRust.Proxy.FullBuffer
import V2rayRust.Config.CidrWidth
import V2rayRust.Config.EarlyData
import V2rayRust.Lib.Hmac
import V2rayRust.Lib.Sha256
import V2rayRust.Proxy.Vmess.Kdf
import V2rayRust.Proxy.Shadowsocks.NonceCount
import V2rayRust.Config.UdpMarkers
import V2rayRust.Proxy.Socks.Downlink
import V2rayRust.Lib.TwoWay
import V2rayRust.Proxy.Vmess.Request
import V2rayRust.Proxy.Vmess.Session
import V2rayRust.Proxy.Shadowsocks.Session
import V2rayRust.Proxy.Trojan.RequestHeader
import V2rayRust.Config.Stats
import V2rayRust.Proxy.Shadowsocks.Salts
import V2rayRust.Lib.Credit
import V2rayRust.Proxy.H2Window
import V2rayRust.Config.Handlers
import V2rayRust.Lib.FramedOverlay
import V2rayRust.Proxy.Shadowsocks.Layered
import V2rayRust.Proxy.Shadowsocks.Chain

import ZeroTierNode.InetAddress
import ZeroTierNode.Credentials

/-!
The network configuration a controller issues. Each counted array is a list whose
length is the count; character arrays are their whole contents.
-/

namespace ZeroTierNode
open Library.Bytes

/-- A pushed route; `target` and `via` keep their prefix bits in the port field. -/
structure Route where
  target : InetAddress
  via : InetAddress
  flags : BitVec 16
  metric : BitVec 16
deriving DecidableEq, Repr

/-- `ZT_VirtualNetworkDNS`: a 128 byte domain and `ZT_MAX_DNS_SERVERS` addresses. -/
structure VirtualNetworkDNS where
  domain : List Byte
  serverAddr : List InetAddress
deriving DecidableEq, Repr

/-- The bytes of an ASCII string literal of the source. -/
def ascii (text : String) : List Byte := text.toList.map (fun c => BitVec.ofNat 8 c.toNat)

/-- A character array of `size` bytes filled by `strncpy`. -/
def charArray (size : Nat) (text : List Byte) : List Byte :=
  (text ++ List.replicate size 0).take size

structure NetworkConfig where
  networkId : BitVec 64
  timestamp : BitVec 64
  credentialTimeMaxDelta : BitVec 64
  revision : BitVec 64
  issuedTo : Address
  remoteTraceTarget : Address
  flags : BitVec 64
  remoteTraceLevel : BitVec 32
  mtu : BitVec 32
  multicastLimit : BitVec 32
  specialists : List (BitVec 64)
  routes : List Route
  staticIps : List InetAddress
  rules : List Rule
  capabilities : List Capability
  tags : List Tag
  certificatesOfOwnership : List CertificateOfOwnership
  type : BitVec 32
  name : List Byte
  com : CertificateOfMembership
  dns : VirtualNetworkDNS
  ssoEnabled : Bool
  ssoVersion : BitVec 64
  authenticationURL : List Byte
  authenticationExpiryTime : BitVec 64
  issuerURL : List Byte
  centralAuthURL : List Byte
  ssoNonce : List Byte
  ssoState : List Byte
  ssoClientID : List Byte
  ssoProvider : List Byte
deriving DecidableEq, Repr

namespace NetworkConfig

/-- `NetworkConfig()`: the private network type is 0 and the trace level `LEVEL_NORMAL` is 0. -/
def nil : NetworkConfig where
  networkId := 0
  timestamp := 0
  credentialTimeMaxDelta := 0
  revision := 0
  issuedTo := 0
  remoteTraceTarget := 0
  flags := 0
  remoteTraceLevel := 0
  mtu := 0
  multicastLimit := 0
  specialists := []
  routes := []
  staticIps := []
  rules := []
  capabilities := []
  tags := []
  certificatesOfOwnership := []
  type := 0
  name := charArray 128 []
  com := .nil
  dns := ⟨charArray 128 [], List.replicate 4 .nil⟩
  ssoEnabled := false
  ssoVersion := 0
  authenticationURL := charArray 2048 []
  authenticationExpiryTime := 0
  issuerURL := charArray 2048 []
  centralAuthURL := charArray 2048 []
  ssoNonce := charArray 128 []
  ssoState := charArray 256 []
  ssoClientID := charArray 256 []
  ssoProvider := charArray 64 (ascii "default")

/-- `operator bool`. -/
def isSet (nconf : NetworkConfig) : Bool := nconf.networkId ≠ 0

/-- `ZT_NETWORK_TYPE_PUBLIC` is 1. -/
def isPublic (nconf : NetworkConfig) : Bool := nconf.type = 1

/-- Flag `ZT_NETWORKCONFIG_FLAG_ENABLE_IPV6_NDP_EMULATION`. -/
def ndpEmulation (nconf : NetworkConfig) : Bool := nconf.flags &&& 0x4 ≠ 0

end NetworkConfig

end ZeroTierNode

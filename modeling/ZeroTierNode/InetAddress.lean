import ZeroTierNode.Buffer

/-! IP addresses with a port, or with prefix bits in the port field, and their wire form. -/

namespace ZeroTierNode
open Library.Bytes Buffer

/-- `InetAddress`: family nil, `AF_INET` or `AF_INET6`; addresses are in network byte order. -/
inductive InetAddress
  | nil
  | v4 (ip : BitVec 32) (port : BitVec 16)
  | v6 (ip : BitVec 128) (port : BitVec 16)
deriving DecidableEq, Repr

namespace InetAddress

def serialize : InetAddress → List Byte
  | .v4 ip port => wordBytes 1 (0x04 : Byte) ++ wordBytes 4 ip ++ wordBytes 2 port
  | .v6 ip port => wordBytes 1 (0x06 : Byte) ++ wordBytes 16 ip ++ wordBytes 2 port
  | .nil => wordBytes 1 (0 : Byte)

/-- The address and the length it reports; types 1 to 3 are accepted and skipped. -/
def deserialize (b : List Byte) (startAt : Nat) : Option (InetAddress × Nat) := do
  let type ← at8 b startAt
  match type.toNat with
  | 0 => return (.nil, 1)
  | 1 => return (.nil, 7)
  | 2 => return (.nil, 7)
  | 3 => do
      let len ← at16 b (startAt + 1)
      return (.nil, len.toNat + 3)
  | 4 => do
      let ip ← atWord 32 4 b (startAt + 1)
      let port ← at16 b (startAt + 5)
      return (.v4 ip port, 7)
  | 6 => do
      let ip ← atWord 128 16 b (startAt + 1)
      let port ← at16 b (startAt + 17)
      return (.v6 ip port, 19)
  | _ => none

/-- `operator bool`. -/
def isSet (addr : InetAddress) : Bool := addr ≠ .nil

def isV6 : InetAddress → Bool
  | .v6 _ _ => true
  | _ => false

/-- The IPv6 netmask of a prefix length, as `netmask` computes it. -/
def netmask6 (bits : Nat) : BitVec 128 :=
  let ones : BitVec 64 := BitVec.allOnes 64
  if bits = 0 then 0
  else (if 64 ≤ bits then ones else ones <<< (64 - bits)) ++ (if bits ≤ 64 then 0 else ones <<< (128 - bits))

/-- `containsAddress`, the prefix length being in the port field. A length beyond the width of the
address is a negative shift count in the source, which has no meaning there. -/
def containsAddress (net addr : InetAddress) : Bool :=
  match net, addr with
  | .v4 net bits, .v4 ip _ =>
      bits = 0 ∨ ip >>> (32 - bits.toNat) = net >>> (32 - bits.toNat)
  | .v6 net bits, .v6 ip _ => ip &&& netmask6 bits.toNat = net
  | _, _ => false

def ipsEqual : InetAddress → InetAddress → Bool
  | .v4 first _, .v4 second _ => first = second
  | .v6 first _, .v6 second _ => first = second
  | .nil, .nil => true
  | _, _ => false

/-- `ipsEqual2`: of IPv6 addresses only the first 64 bits are compared. -/
def ipsEqual2 : InetAddress → InetAddress → Bool
  | .v4 first _, .v4 second _ => first = second
  | .v6 first _, .v6 second _ => first >>> 64 = second >>> 64
  | .nil, .nil => true
  | _, _ => false

/-- `ss_family`. -/
inductive Family
  | unset
  | inet
  | inet6
deriving DecidableEq, Repr

def family : InetAddress → Family
  | .nil => .unset
  | .v4 _ _ => .inet
  | .v6 _ _ => .inet6

/-- `IpScope`. -/
inductive IpScope
  | none
  | multicast
  | loopback
  | pseudoprivate
  | global
  | linkLocal
  | shared
  | privateUse
deriving DecidableEq, Repr

def IpScope.code : IpScope → Nat
  | .none => 0
  | .multicast => 1
  | .loopback => 2
  | .pseudoprivate => 3
  | .global => 4
  | .linkLocal => 5
  | .shared => 6
  | .privateUse => 7

/-- The blocks of 2^28 IPv4 addresses. -/
def wideScope (ip : BitVec 32) : IpScope :=
  match (ip >>> 28).toNat with
  | 0xe => .multicast
  | 0xf => .pseudoprivate
  | _ => .global

def ipScope4 (ip : BitVec 32) : IpScope :=
  match (ip >>> 24).toNat with
  | 0x00 | 0xff => .none
  | 0x06 | 0x0b | 0x15 | 0x16 | 0x19 | 0x1a | 0x1c | 0x1d | 0x1e | 0x33 | 0x37 | 0x38 => .pseudoprivate
  | 0x0a => .privateUse
  | 0x7f => .loopback
  | 0x64 => if ip &&& 0xffc00000 = 0x64400000 then .privateUse else wideScope ip
  | 0xa9 => if ip &&& 0xffff0000 = 0xa9fe0000 then .linkLocal else wideScope ip
  | 0xac => if ip &&& 0xfff00000 = 0xac100000 then .privateUse else wideScope ip
  | 0xc0 =>
      if ip &&& 0xffff0000 = 0xc0a80000 ∨ ip &&& 0xffffff00 = 0xc0000200 then .privateUse else wideScope ip
  | 0xc6 =>
      if ip &&& 0xfffe0000 = 0xc6120000 ∨ ip &&& 0xffffff00 = 0xc6336400 then .privateUse else wideScope ip
  | 0xcb => if ip &&& 0xffffff00 = 0xcb007100 then .privateUse else wideScope ip
  | _ => wideScope ip

/-- Byte `i` of an IPv6 address. -/
def byte6 (ip : BitVec 128) (i : Nat) : Byte := (ip >>> (8 * (15 - i))).setWidth 8

/-- The bytes from `first` up to `stop` are zero. -/
def zeros6 (ip : BitVec 128) (first stop : Nat) : Bool :=
  (List.range' first (stop - first)).all fun i => byte6 ip i = 0

def ipScope6 (ip : BitVec 128) : IpScope :=
  if byte6 ip 0 = 0xff then .multicast
  else if byte6 ip 0 = 0xfe ∧ byte6 ip 1 &&& 0xc0 = 0x80 then
    if zeros6 ip 2 15 ∧ byte6 ip 15 = 0x01 then .loopback else .linkLocal
  else if byte6 ip 0 &&& 0xfe = 0xfc then .privateUse
  -- byte 9 of a mapped address is not looked at
  else if zeros6 ip 0 9 ∧ byte6 ip 10 = 0xff ∧ byte6 ip 11 = 0xff ∧ byte6 ip 12 = 0x7f then .loopback
  else if zeros6 ip 0 15 ∧ byte6 ip 15 = 0x01 then .loopback
  else if zeros6 ip 0 15 ∧ byte6 ip 15 = 0x00 then .none
  else .global

def ipScope : InetAddress → IpScope
  | .nil => .none
  | .v4 ip _ => ipScope4 ip
  | .v6 ip _ => ipScope6 ip

def makeIpv6rfc4193 (nwid zeroTierAddress : BitVec 64) : InetAddress :=
  .v6 (wordOf 128 ([0xfd] ++ wordBytes 8 nwid ++ [0x99, 0x93] ++
    wordBytes 5 (zeroTierAddress.setWidth 40))) 88

def makeIpv66plane (nwid zeroTierAddress : BitVec 64) : InetAddress :=
  let nwid := nwid ^^^ (nwid >>> 32)
  .v6 (wordOf 128 ([0xfc] ++ wordBytes 4 (nwid.setWidth 32) ++ wordBytes 5 (zeroTierAddress.setWidth 40) ++
    [0, 0, 0, 0, 0, 0x01])) 40

/-- The first `bytes` bytes of two IPv6 addresses agree. -/
def samePrefix (bytes : Nat) : InetAddress → InetAddress → Bool
  | .v6 first _, .v6 second _ => first >>> (128 - 8 * bytes) = second >>> (128 - 8 * bytes)
  | _, _ => false

end InetAddress

end ZeroTierNode

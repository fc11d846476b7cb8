import ZeroTierNode.Address

/-!
Network flow rules and their wire form (`Capability::serializeRules` and
`Capability::deserializeRules`). The union of `ZT_VirtualNetworkRule` is a record
whose members do not overlap: only the members of the rule's own type are read.
-/

namespace ZeroTierNode
open Library.Bytes Buffer

inductive RuleType
  | actionDrop | actionAccept | actionTee | actionWatch | actionRedirect | actionBreak | actionPriority
  | matchSourceZeroTierAddress | matchDestZeroTierAddress
  | matchVlanId | matchVlanPcp | matchVlanDei | matchMacSource | matchMacDest
  | matchIpv4Source | matchIpv4Dest | matchIpv6Source | matchIpv6Dest
  | matchIpTos | matchIpProtocol | matchEtherType | matchIcmp
  | matchIpSourcePortRange | matchIpDestPortRange | matchCharacteristics | matchFrameSizeRange
  | matchRandom
  | matchTagsDifference | matchTagsBitwiseAnd | matchTagsBitwiseOr | matchTagsBitwiseXor
  | matchTagsEqual | matchTagSender | matchTagReceiver | matchIntegerRange
  | unknown
deriving DecidableEq, Repr

/-- The type codes of `ZT_VirtualNetworkRuleType`. -/
def RuleType.ofCode : Nat → RuleType
  | 0 => .actionDrop | 1 => .actionAccept | 2 => .actionTee | 3 => .actionWatch
  | 4 => .actionRedirect | 5 => .actionBreak | 6 => .actionPriority
  | 24 => .matchSourceZeroTierAddress | 25 => .matchDestZeroTierAddress
  | 26 => .matchVlanId | 27 => .matchVlanPcp | 28 => .matchVlanDei
  | 29 => .matchMacSource | 30 => .matchMacDest
  | 31 => .matchIpv4Source | 32 => .matchIpv4Dest | 33 => .matchIpv6Source | 34 => .matchIpv6Dest
  | 35 => .matchIpTos | 36 => .matchIpProtocol | 37 => .matchEtherType | 38 => .matchIcmp
  | 39 => .matchIpSourcePortRange | 40 => .matchIpDestPortRange
  | 41 => .matchCharacteristics | 42 => .matchFrameSizeRange | 43 => .matchRandom
  | 44 => .matchTagsDifference | 45 => .matchTagsBitwiseAnd | 46 => .matchTagsBitwiseOr
  | 47 => .matchTagsBitwiseXor | 48 => .matchTagsEqual | 49 => .matchTagSender
  | 50 => .matchTagReceiver | 51 => .matchIntegerRange
  | _ => .unknown

/-- The union `v` of a rule; arrays of bytes are words in network byte order. -/
structure RuleValue where
  ipv6Ip : BitVec 128 := 0
  ipv6Mask : Byte := 0
  ipv4Ip : BitVec 32 := 0
  ipv4Mask : Byte := 0
  intRangeStart : BitVec 64 := 0
  intRangeEnd : BitVec 32 := 0
  intRangeIdx : BitVec 16 := 0
  intRangeFormat : Byte := 0
  characteristics : BitVec 64 := 0
  port0 : BitVec 16 := 0
  port1 : BitVec 16 := 0
  zt : BitVec 64 := 0
  randomProbability : BitVec 32 := 0
  mac : BitVec 48 := 0
  vlanId : BitVec 16 := 0
  vlanPcp : Byte := 0
  vlanDei : Byte := 0
  etherType : BitVec 16 := 0
  ipProtocol : Byte := 0
  ipTosMask : Byte := 0
  ipTosValue0 : Byte := 0
  ipTosValue1 : Byte := 0
  frameSize0 : BitVec 16 := 0
  frameSize1 : BitVec 16 := 0
  icmpType : Byte := 0
  icmpCode : Byte := 0
  icmpFlags : Byte := 0
  tagId : BitVec 32 := 0
  tagValue : BitVec 32 := 0
  fwdAddress : BitVec 64 := 0
  fwdFlags : BitVec 32 := 0
  fwdLength : BitVec 16 := 0
  qosBucket : Byte := 0
deriving DecidableEq, Repr

/-- `ZT_VirtualNetworkRule`: bits `NOTTTTTT` and the value. -/
structure Rule where
  t : Byte
  v : RuleValue
deriving DecidableEq, Repr

namespace Rule

/-- `t & 0x3f`. -/
def code (rule : Rule) : Nat := (rule.t &&& 0x3f).toNat

def ruleType (rule : Rule) : RuleType := RuleType.ofCode rule.code

end Rule

/-- The field data that `serializeRules` writes for one rule type. -/
def ruleFieldBytes (v : RuleValue) : RuleType → List Byte
  | .actionTee | .actionWatch | .actionRedirect =>
      wordBytes 8 v.fwdAddress ++ wordBytes 4 v.fwdFlags ++ wordBytes 2 v.fwdLength
  | .matchSourceZeroTierAddress | .matchDestZeroTierAddress => (Address.ofInt v.zt).appendTo
  | .matchVlanId => wordBytes 2 v.vlanId
  | .matchVlanPcp => wordBytes 1 v.vlanPcp
  | .matchVlanDei => wordBytes 1 v.vlanDei
  | .matchMacSource | .matchMacDest => wordBytes 6 v.mac
  | .matchIpv4Source | .matchIpv4Dest => wordBytes 4 v.ipv4Ip ++ wordBytes 1 v.ipv4Mask
  | .matchIpv6Source | .matchIpv6Dest => wordBytes 16 v.ipv6Ip ++ wordBytes 1 v.ipv6Mask
  | .matchIpTos => wordBytes 1 v.ipTosMask ++ wordBytes 1 v.ipTosValue0 ++ wordBytes 1 v.ipTosValue1
  | .matchIpProtocol => wordBytes 1 v.ipProtocol
  | .matchEtherType => wordBytes 2 v.etherType
  | .matchIcmp => wordBytes 1 v.icmpType ++ wordBytes 1 v.icmpCode ++ wordBytes 1 v.icmpFlags
  | .matchIpSourcePortRange | .matchIpDestPortRange => wordBytes 2 v.port0 ++ wordBytes 2 v.port1
  | .matchCharacteristics => wordBytes 8 v.characteristics
  | .matchFrameSizeRange => wordBytes 2 v.frameSize0 ++ wordBytes 2 v.frameSize1
  | .matchRandom => wordBytes 4 v.randomProbability
  | .matchTagsDifference | .matchTagsBitwiseAnd | .matchTagsBitwiseOr | .matchTagsBitwiseXor
  | .matchTagsEqual | .matchTagSender | .matchTagReceiver => wordBytes 4 v.tagId ++ wordBytes 4 v.tagValue
  | .matchIntegerRange =>
      wordBytes 8 v.intRangeStart ++ wordBytes 8 (v.intRangeStart + v.intRangeEnd.setWidth 64) ++
        wordBytes 2 v.intRangeIdx ++ wordBytes 1 v.intRangeFormat
  | .actionDrop | .actionAccept | .actionBreak | .actionPriority | .unknown => []

/-- The length octet that precedes the field data. -/
def ruleFieldLen : RuleType → Nat
  | .actionTee | .actionWatch | .actionRedirect => 14
  | .matchSourceZeroTierAddress | .matchDestZeroTierAddress => 5
  | .matchVlanId => 2
  | .matchVlanPcp | .matchVlanDei => 1
  | .matchMacSource | .matchMacDest => 6
  | .matchIpv4Source | .matchIpv4Dest => 5
  | .matchIpv6Source | .matchIpv6Dest => 17
  | .matchIpTos => 3
  | .matchIpProtocol => 1
  | .matchEtherType => 2
  | .matchIcmp => 3
  | .matchIpSourcePortRange | .matchIpDestPortRange => 4
  | .matchCharacteristics => 8
  | .matchFrameSizeRange => 4
  | .matchRandom => 4
  | .matchTagsDifference | .matchTagsBitwiseAnd | .matchTagsBitwiseOr | .matchTagsBitwiseXor
  | .matchTagsEqual | .matchTagSender | .matchTagReceiver => 8
  | .matchIntegerRange => 19
  | .actionDrop | .actionAccept | .actionBreak | .actionPriority | .unknown => 0

def serializeRule (rule : Rule) : List Byte :=
  wordBytes 1 rule.t ++ wordBytes 1 (BitVec.ofNat 8 (ruleFieldLen rule.ruleType)) ++
    ruleFieldBytes rule.v rule.ruleType

/-- `Capability::serializeRules`. -/
def serializeRules (rules : List Rule) : List Byte := rules.flatMap serializeRule

/-- The field data that `deserializeRules` reads for one rule type at position `p`. -/
def readRuleField (b : List Byte) (p : Nat) : RuleType → Option RuleValue
  | .actionTee | .actionWatch | .actionRedirect => do
      let address ← at64 b p
      let flags ← at32 b (p + 8)
      let length ← at16 b (p + 12)
      return { fwdAddress := address, fwdFlags := flags, fwdLength := length }
  | .matchSourceZeroTierAddress | .matchDestZeroTierAddress => do
      let zt ← Address.readAt b p
      return { zt := zt.toInt }
  | .matchVlanId => do return { vlanId := ← at16 b p }
  | .matchVlanPcp => do return { vlanPcp := ← at8 b p }
  | .matchVlanDei => do return { vlanDei := ← at8 b p }
  | .matchMacSource | .matchMacDest => do return { mac := ← atWord 48 6 b p }
  | .matchIpv4Source | .matchIpv4Dest => do
      let ip ← atWord 32 4 b p
      let mask ← at8 b (p + 4)
      return { ipv4Ip := ip, ipv4Mask := mask }
  | .matchIpv6Source | .matchIpv6Dest => do
      let ip ← atWord 128 16 b p
      let mask ← at8 b (p + 16)
      return { ipv6Ip := ip, ipv6Mask := mask }
  | .matchIpTos => do
      let mask ← at8 b p
      let value0 ← at8 b (p + 1)
      let value1 ← at8 b (p + 2)
      return { ipTosMask := mask, ipTosValue0 := value0, ipTosValue1 := value1 }
  | .matchIpProtocol => do return { ipProtocol := ← at8 b p }
  | .matchEtherType => do return { etherType := ← at16 b p }
  | .matchIcmp => do
      let type ← at8 b p
      let code ← at8 b (p + 1)
      let flags ← at8 b (p + 2)
      return { icmpType := type, icmpCode := code, icmpFlags := flags }
  | .matchIpSourcePortRange | .matchIpDestPortRange => do
      let port0 ← at16 b p
      let port1 ← at16 b (p + 2)
      return { port0 := port0, port1 := port1 }
  | .matchCharacteristics => do return { characteristics := ← at64 b p }
  | .matchFrameSizeRange => do
      let frameSize0 ← at16 b p
      let frameSize1 ← at16 b (p + 2)
      return { frameSize0 := frameSize0, frameSize1 := frameSize1 }
  | .matchRandom => do return { randomProbability := ← at32 b p }
  | .matchTagsDifference | .matchTagsBitwiseAnd | .matchTagsBitwiseOr | .matchTagsBitwiseXor
  | .matchTagsEqual | .matchTagSender | .matchTagReceiver => do
      let id ← at32 b p
      let value ← at32 b (p + 4)
      return { tagId := id, tagValue := value }
  | .matchIntegerRange => do
      let start ← at64 b p
      let stop ← at64 b (p + 8)
      let idx ← at16 b (p + 16)
      let format ← at8 b (p + 18)
      return { intRangeStart := start, intRangeEnd := (stop - start).setWidth 32,
               intRangeIdx := idx, intRangeFormat := format }
  | .actionDrop | .actionAccept | .actionBreak | .actionPriority | .unknown => some {}

/-- One turn of the loop of `deserializeRules`. -/
def deserializeRule (b : List Byte) (p : Nat) : Option (Rule × Nat) := do
  let t ← at8 b p
  let fieldLen ← at8 b (p + 1)
  let v ← readRuleField b (p + 2) (RuleType.ofCode (t &&& 0x3f).toNat)
  return (⟨t, v⟩, p + 2 + fieldLen.toNat)

/-- `Capability::deserializeRules` into an array with room for `room` more rules. -/
def deserializeRules (b : List Byte) : Nat → Nat → Option (List Rule × Nat)
  | p, 0 => some ([], p)
  | p, room + 1 =>
      if p < b.length then do
        let (rule, next) ← deserializeRule b p
        let (rules, stop) ← deserializeRules b next room
        return (rule :: rules, stop)
      else some ([], p)

end ZeroTierNode

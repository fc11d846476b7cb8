import ZeroTierNode.Membership

/-!
The rule engine: `_doZtFilter` and the helpers it calls. The frame is memory from
its first byte on, because some matches read behind its end. What is drawn from
the random generator for a rule is given by the rule's index.
-/

namespace ZeroTierNode.Filter
open Library.Bytes

inductive FilterResult
  | noMatch
  | drop
  | redirect
  | accept
  | superAccept
deriving DecidableEq, Repr

/-- The arguments that `_doZtFilter` only reads. -/
structure FilterInput where
  /-- Our own address. -/
  identity : Address
  nconf : NetworkConfig
  membership : Option Membership
  inbound : Bool
  ztSource : Address
  macSource : BitVec 48
  macDest : BitVec 48
  frameData : Nat → Byte
  frameLen : Nat
  etherType : BitVec 32
  vlanId : BitVec 32
  prng : Nat → BitVec 64

/-- The arguments that it may change. -/
structure FilterOutput where
  ztDest : Address
  cc : Address
  ccLength : Nat
  ccWatch : Bool
  qosBucket : Byte
deriving DecidableEq, Repr

end ZeroTierNode.Filter

namespace ZeroTierNode.Rule

/-- The OR bit. -/
def isOr (rule : Rule) : Bool := rule.t &&& 0x40 ≠ 0

/-- The NOT bit. -/
def isNot (rule : Rule) : Bool := rule.t &&& 0x80 ≠ 0

/-- `ZT_NETWORK_RULE_ACTION__MAX_ID` is 15. -/
def isAction (rule : Rule) : Bool := rule.code ≤ 15

/-- True, and false, whatever the NOT bit makes of it. -/
def hardYes (rule : Rule) : Bool := !rule.isNot

def hardNo (rule : Rule) : Bool := rule.isNot

end ZeroTierNode.Rule

namespace ZeroTierNode.Filter
open Library.Bytes

abbrev etherTypeIpv4 : BitVec 32 := 0x0800

abbrev etherTypeArp : BitVec 32 := 0x0806

abbrev etherTypeIpv6 : BitVec 32 := 0x86dd

/-- The header walk of `_ipv6GetPayload`: position and protocol of the payload. -/
def ipv6Walk (frameData : Nat → Byte) (frameLen pos : Nat) (proto : Byte) : Option (Nat × Byte) :=
  if frameLen < pos then none
  else if proto = 0 ∨ proto = 43 ∨ proto = 60 ∨ proto = 135 then
    if frameLen < pos + 8 then none
    else ipv6Walk frameData frameLen (pos + ((frameData (pos + 1)).toNat * 8 + 8)) (frameData pos)
  else some (pos, proto)
termination_by frameLen + 1 - pos

def ipv6GetPayload (frameData : Nat → Byte) (frameLen : Nat) : Option (Nat × Byte) :=
  if frameLen < 40 then none else ipv6Walk frameData frameLen 40 (frameData 6)

/-- `std::lower_bound` over the tags of the config, which are sorted by id: the first tag whose id
is not less, if it is the one asked for. -/
def localTag (nconf : NetworkConfig) (id : BitVec 32) : Option Tag :=
  (nconf.tags.find? (fun tag => ¬ tag.id < id)).filter (fun tag => tag.id = id)

section Matches

variable (q : FilterInput)

namespace FilterInput

/-- `(etherType == ZT_ETHERTYPE_IPV4) && (frameLen >= 20)`. -/
def isIpv4 : Bool := q.etherType = etherTypeIpv4 ∧ 20 ≤ q.frameLen

/-- `(etherType == ZT_ETHERTYPE_IPV6) && (frameLen >= 40)`. -/
def isIpv6 : Bool := q.etherType = etherTypeIpv6 ∧ 40 ≤ q.frameLen

/-- `count` bytes of the frame as a word. -/
def word (width count position : Nat) : BitVec width :=
  wordOf width ((List.range count).map (fun i => q.frameData (position + i)))

def ip4At (position : Nat) : InetAddress := .v4 (q.word 32 4 position) 0

def ip6At (position : Nat) : InetAddress := .v6 (q.word 128 16 position) 0

def remoteTag (id : BitVec 32) : Option Tag := q.membership.bind (fun m => m.getTag q.nconf id)

/-- The headers of `ihl` words in front of the payload of an IPv4 frame. -/
def ipv4HeaderLen : Nat := 4 * (q.frameData 0 &&& 0xf).toNat

end FilterInput

/-- `MATCH_IP_TOS`. -/
def matchIpTos (rule : Rule) : Bool :=
  let inRange (tos : Byte) : Bool :=
    let tosMasked := tos &&& rule.v.ipTosMask
    rule.v.ipTosValue0 ≤ tosMasked ∧ tosMasked ≤ rule.v.ipTosValue1
  if q.isIpv4 then inRange (q.frameData 1)
  else if q.isIpv6 then
    inRange (((q.frameData 0 <<< 4) &&& 0xf0) ||| ((q.frameData 1 >>> 4) &&& 0x0f))
  else rule.hardNo

/-- `MATCH_IP_PROTOCOL`. -/
def matchIpProtocol (rule : Rule) : Bool :=
  if q.isIpv4 then rule.v.ipProtocol = q.frameData 9
  else if q.etherType = etherTypeIpv6 then
    match ipv6GetPayload q.frameData q.frameLen with
    | some (_, proto) => rule.v.ipProtocol = proto
    | none => rule.hardNo
  else rule.hardNo

/-- `MATCH_ICMP`. -/
def matchIcmp (rule : Rule) : Bool :=
  let typeAndCode (pos : Nat) : Bool :=
    if rule.v.icmpType = q.frameData pos then
      if rule.v.icmpFlags &&& 0x01 ≠ 0 then q.frameData (pos + 1) = rule.v.icmpCode else rule.hardYes
    else rule.hardNo
  if q.isIpv4 then
    if q.frameData 9 = 0x01 then
      let ihl := q.ipv4HeaderLen
      if ihl + 2 ≤ q.frameLen then typeAndCode ihl else rule.hardNo
    else rule.hardNo
  else if q.etherType = etherTypeIpv6 then
    match ipv6GetPayload q.frameData q.frameLen with
    | some (pos, proto) => if proto = 0x3a ∧ pos + 2 ≤ q.frameLen then typeAndCode pos else rule.hardNo
    | none => rule.hardNo
  else rule.hardNo

/-- TCP, UDP, SCTP and UDPLite start with their ports. -/
def hasPorts (proto : Byte) : Bool := proto = 0x06 ∨ proto = 0x11 ∨ proto = 0x84 ∨ proto = 0x88

/-- `MATCH_IP_SOURCE_PORT_RANGE` and `MATCH_IP_DEST_PORT_RANGE`; port 0 counts over IPv4 only. -/
def matchPortRange (rule : Rule) (dest : Bool) : Bool :=
  let offset := if dest then 2 else 0
  let port (pos : Nat) : Nat := (q.word 16 2 (pos + offset)).toNat
  let inRange (p : Nat) : Bool := rule.v.port0.toNat ≤ p ∧ p ≤ rule.v.port1.toNat
  if q.isIpv4 then
    let headerLen := q.ipv4HeaderLen
    hasPorts (q.frameData 9) ∧ headerLen + 4 < q.frameLen ∧ inRange (port headerLen)
  else if q.etherType = etherTypeIpv6 then
    match ipv6GetPayload q.frameData q.frameLen with
    | some (pos, proto) => hasPorts proto ∧ pos + 4 < q.frameLen ∧ 0 < port pos ∧ inRange (port pos)
    | none => rule.hardNo
  else rule.hardNo

/-- The source IP whose ownership is looked at, and whether it needs no certificate: neighbor
solicitations contain no reliable source address and count as authenticated. -/
def ownershipSource : InetAddress × Bool :=
  if q.isIpv4 then (q.ip4At 12, false)
  else if q.isIpv6 then
    if 40 + 8 + 16 ≤ q.frameLen ∧ q.frameData 6 = 0x3a ∧ (q.frameData 40 = 0x87 ∨ q.frameData 40 = 0x88) then
      if q.frameData 40 = 0x87 then (.nil, true) else (q.ip6At (40 + 8), false)
    else (q.ip6At 8, false)
  else if q.etherType = etherTypeArp ∧ 28 ≤ q.frameLen then (q.ip4At 14, false)
  else (.nil, false)

/-- Bits `SENDER_IP_AUTHENTICATED` and `SENDER_MAC_AUTHENTICATED`. -/
def ownershipVerificationMask : BitVec 64 :=
  let (src, solicitation) := ownershipSource q
  let ip := if q.inbound then
      q.membership.any (fun m => src.isSet && m.hasCooForIp q.nconf src)
    else q.nconf.certificatesOfOwnership.any (fun coo => src.isSet && coo.ownsIp src)
  let mac := if q.inbound then q.membership.any (fun m => m.hasCooForMac q.nconf q.macSource)
    else q.nconf.certificatesOfOwnership.any (fun coo => coo.ownsMac q.macSource)
  (if solicitation || ip then 0x1000000000000000 else 0) ||| (if mac then 0x0800000000000000 else 0)

/-- The TCP flags of a segment as characteristics bits. -/
def tcpFlags (pos : Nat) : BitVec 64 :=
  (q.frameData (pos + 13)).setWidth 64 ||| ((q.frameData (pos + 12) &&& 0x0f).setWidth 64 <<< 8)

/-- `MATCH_CHARACTERISTICS`. -/
def matchCharacteristics (rule : Rule) : Bool :=
  let cf : BitVec 64 :=
    (if q.inbound then 0x8000000000000000 else 0) |||
    (if q.macDest &&& 0x010000000000 ≠ 0 then 0x4000000000000000 else 0) |||
    (if q.macDest = 0xffffffffffff then 0x2000000000000000 else 0) ||| ownershipVerificationMask q
  let tcp : BitVec 64 :=
    if q.isIpv4 ∧ q.frameData 9 = 0x06 then tcpFlags q q.ipv4HeaderLen
    else if q.etherType = etherTypeIpv6 then
      match ipv6GetPayload q.frameData q.frameLen with
      | some (pos, proto) => if proto = 0x06 ∧ pos + 14 < q.frameLen then tcpFlags q pos else 0
      | none => 0
    else 0
  (cf ||| tcp) &&& rule.v.characteristics ≠ 0

/-- The integer of `MATCH_INTEGER_RANGE`; 0 when it does not lie inside the frame. -/
def frameInteger (rule : Rule) : BitVec 64 :=
  let bits := (rule.v.intRangeFormat &&& 63).toNat + 1
  let bytes := (bits + 8 - 1) / 8
  if rule.v.intRangeFormat &&& 0x80 = 0 then
    let idx := rule.v.intRangeIdx.toNat + (8 - bytes)
    let integer : BitVec 64 := if idx + bytes ≤ q.frameLen then
        (List.range bytes).foldl (fun integer i => (integer <<< 8) ||| (q.frameData (idx + i)).setWidth 64) 0
      else 0
    integer &&& (BitVec.allOnes 64 >>> (64 - bits))
  else
    let idx := rule.v.intRangeIdx.toNat
    let integer : BitVec 64 := if idx + bytes ≤ q.frameLen then
        (List.range bytes).foldl
          (fun integer i => (integer >>> 8) ||| ((q.frameData (idx + i)).setWidth 64 <<< 56)) 0
      else 0
    integer >>> (64 - bits)

/-- `MATCH_INTEGER_RANGE`; the end of the range wraps around. -/
def matchIntegerRange (rule : Rule) : Bool :=
  rule.v.intRangeStart ≤ frameInteger q rule ∧
    frameInteger q rule ≤ rule.v.intRangeStart + rule.v.intRangeEnd.setWidth 64

/-- The comparison of two known tags. -/
def compareTags (rule : Rule) (ltv rtv : BitVec 32) : Bool :=
  match rule.ruleType with
  | .matchTagsDifference => (if rtv < ltv then ltv - rtv else rtv - ltv) ≤ rule.v.tagValue
  | .matchTagsBitwiseAnd => ltv &&& rtv = rule.v.tagValue
  | .matchTagsBitwiseOr => ltv ||| rtv = rule.v.tagValue
  | .matchTagsBitwiseXor => ltv ^^^ rtv = rule.v.tagValue
  | .matchTagsEqual => ltv = rule.v.tagValue ∧ rtv = rule.v.tagValue
  | _ => rule.hardNo

/-- The matches of two tags: whether the rule matches, and whether it does so because the remote
tag is unknown, in which case a later DROP is skipped. -/
def matchTags (rule : Rule) (superAccept : Bool) : Bool × Bool :=
  match localTag q.nconf rule.v.tagId with
  | none => (rule.hardNo, false)
  | some ltag =>
      match q.remoteTag rule.v.tagId with
      | some rtag => (compareTags rule ltag.value rtag.value, false)
      | none => if q.inbound ∧ ¬ superAccept then (rule.hardNo, false) else (rule.hardYes, true)

/-- `MATCH_TAG_SENDER` and `MATCH_TAG_RECEIVER`. -/
def matchTagOf (rule : Rule) (receiver : Bool) (superAccept : Bool) : Bool × Bool :=
  if superAccept then (rule.hardYes, true)
  else if (!receiver && q.inbound) || (receiver && !q.inbound) then
    match q.remoteTag rule.v.tagId with
    | some rtag => (decide (rtag.value = rule.v.tagValue), false)
    | none => if receiver then (rule.hardYes, true) else (rule.hardNo, false)
  else
    match localTag q.nconf rule.v.tagId with
    | some ltag => (decide (ltag.value = rule.v.tagValue), false)
    | none => (rule.hardNo, false)

/-- The `switch` over match types: `thisRuleMatches`, and whether `skipDrop` is raised. -/
def matchRule (ztDest : Address) (superAccept : Bool) (rn : Nat) (rule : Rule) : Bool × Bool :=
  match rule.ruleType with
  | .matchSourceZeroTierAddress => (decide (rule.v.zt = q.ztSource.toInt), false)
  | .matchDestZeroTierAddress => (decide (rule.v.zt = ztDest.toInt), false)
  | .matchVlanId => (decide (rule.v.vlanId = q.vlanId.setWidth 16), false)
  | .matchVlanPcp => (decide (rule.v.vlanPcp = 0), false)
  | .matchVlanDei => (decide (rule.v.vlanDei = 0), false)
  | .matchMacSource => (decide (rule.v.mac = q.macSource), false)
  | .matchMacDest => (decide (rule.v.mac = q.macDest), false)
  | .matchIpv4Source => (if q.isIpv4 then
      (InetAddress.v4 rule.v.ipv4Ip (rule.v.ipv4Mask.setWidth 16)).containsAddress (q.ip4At 12)
      else rule.hardNo, false)
  | .matchIpv4Dest => (if q.isIpv4 then
      (InetAddress.v4 rule.v.ipv4Ip (rule.v.ipv4Mask.setWidth 16)).containsAddress (q.ip4At 16)
      else rule.hardNo, false)
  | .matchIpv6Source => (if q.isIpv6 then
      (InetAddress.v6 rule.v.ipv6Ip (rule.v.ipv6Mask.setWidth 16)).containsAddress (q.ip6At 8)
      else rule.hardNo, false)
  | .matchIpv6Dest => (if q.isIpv6 then
      (InetAddress.v6 rule.v.ipv6Ip (rule.v.ipv6Mask.setWidth 16)).containsAddress (q.ip6At 24)
      else rule.hardNo, false)
  | .matchIpTos => (matchIpTos q rule, false)
  | .matchIpProtocol => (matchIpProtocol q rule, false)
  | .matchEtherType => (decide (rule.v.etherType = q.etherType.setWidth 16), false)
  | .matchIcmp => (matchIcmp q rule, false)
  | .matchIpSourcePortRange => (matchPortRange q rule false, false)
  | .matchIpDestPortRange => (matchPortRange q rule true, false)
  | .matchCharacteristics => (matchCharacteristics q rule, false)
  | .matchFrameSizeRange =>
      (decide (rule.v.frameSize0.toNat ≤ q.frameLen ∧ q.frameLen ≤ rule.v.frameSize1.toNat), false)
  | .matchRandom => (decide ((q.prng rn).setWidth 32 ≤ rule.v.randomProbability), false)
  | .matchTagsDifference | .matchTagsBitwiseAnd | .matchTagsBitwiseOr | .matchTagsBitwiseXor
  | .matchTagsEqual => matchTags q rule superAccept
  | .matchTagSender => matchTagOf q rule false superAccept
  | .matchTagReceiver => matchTagOf q rule true superAccept
  | .matchIntegerRange => (matchIntegerRange q rule, false)
  -- the flag `ZT_NETWORKCONFIG_FLAG_RULES_RESULT_OF_UNSUPPORTED_MATCH`
  | _ => (decide (q.nconf.flags &&& 0x8 ≠ 0), false)

end Matches

/-- The variables of the loop. -/
structure FilterState where
  superAccept : Bool
  thisSetMatches : Bool
  skipDrop : Bool
  out : FilterOutput
deriving DecidableEq, Repr

def isForward (rule : Rule) : Bool :=
  rule.ruleType = .actionTee ∨ rule.ruleType = .actionWatch ∨ rule.ruleType = .actionRedirect

/-- TEE, WATCH and REDIRECT of a set that matches. -/
def forward (q : FilterInput) (rule : Rule) (st : FilterState) : (FilterResult × FilterOutput) ⊕ FilterState :=
  let fwdAddr := Address.ofInt rule.v.fwdAddress
  if fwdAddr = q.ztSource then .inr st
  else if fwdAddr = q.identity then
    if q.inbound then .inl (.superAccept, st.out) else .inr st
  else if fwdAddr = st.out.ztDest then .inr st
  else if rule.ruleType = .actionRedirect then .inl (.redirect, { st.out with ztDest := fwdAddr })
  else
    let length := rule.v.fwdLength.toNat
    .inr { st with out := { st.out with
      cc := fwdAddr
      ccLength := if length ≠ 0 then (if q.frameLen < length then q.frameLen else length) else q.frameLen
      ccWatch := decide (rule.ruleType = .actionWatch) } }

/-- The action of a set that matches: return, or go on with the next rule. -/
def takeAction (q : FilterInput) (rule : Rule) (st : FilterState) : (FilterResult × FilterOutput) ⊕ FilterState :=
  match rule.ruleType with
  | .actionPriority =>
      .inl (.accept, { st.out with qosBucket := if rule.v.qosBucket ≤ 8 then rule.v.qosBucket else 4 })
  | .actionDrop => if st.skipDrop then .inr { st with skipDrop := false } else .inl (.drop, st.out)
  | .actionAccept => .inl (if st.superAccept then .superAccept else .accept, st.out)
  | .actionTee | .actionWatch | .actionRedirect => forward q rule st
  | .actionBreak => .inl (.noMatch, st.out)
  | _ => .inr st

/-- The action of a set that does not match: a target of an inbound frame will super-accept. -/
def passAction (q : FilterInput) (rule : Rule) (st : FilterState) : FilterState :=
  { st with
    superAccept := st.superAccept ||
      (q.inbound && isForward rule && decide (q.identity = Address.ofInt rule.v.fwdAddress))
    thisSetMatches := true }

/-- One turn of the loop. -/
def filterStep (q : FilterInput) (rn : Nat) (rule : Rule) (st : FilterState) :
    (FilterResult × FilterOutput) ⊕ FilterState :=
  if rule.isAction then
    if st.thisSetMatches then takeAction q rule st else .inr (passAction q rule st)
  else if !st.thisSetMatches && !rule.isOr then .inr st
  else
    let (thisRuleMatches, skip) := matchRule q st.out.ztDest st.superAccept rn rule
    let result := thisRuleMatches ^^ rule.isNot
    .inr { st with
      thisSetMatches := if rule.isOr then st.thisSetMatches || result else st.thisSetMatches && result
      skipDrop := st.skipDrop || skip }

def filterFrom (q : FilterInput) : Nat → FilterState → List Rule → FilterResult × FilterOutput
  | _, st, [] => (.noMatch, st.out)
  | rn, st, rule :: rules =>
      match filterStep q rn rule st with
      | .inl result => result
      | .inr st => filterFrom q (rn + 1) st rules

def initialState (out : FilterOutput) : FilterState := ⟨false, true, false, out⟩

/-- `_doZtFilter`. -/
def doZtFilter (q : FilterInput) (out : FilterOutput) (rules : List Rule) : FilterResult × FilterOutput :=
  filterFrom q 0 (initialState out) rules

end ZeroTierNode.Filter

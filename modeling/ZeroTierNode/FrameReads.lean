import ZeroTierNode.Filter
import ZeroTierNode.Library.Readings

/-!
What `_doZtFilter` reads of a frame. The matches are written once more as programs
that ask for one byte of the frame after the other; they compute what those of
`Filter` compute, and stay inside the frame wherever the length is checked. Frames are
far shorter than 2^32 bytes, so that positions are exact.
-/

namespace ZeroTierNode.FrameReads
open Library.Bytes Library.Readings ZeroTierNode.Filter

def ipv6Walk (frameLen pos : Nat) (proto : Byte) : ByteReader (Option (Nat × Byte)) :=
  if frameLen < pos then return none
  else if proto = 0 ∨ proto = 43 ∨ proto = 60 ∨ proto = 135 then
    if frameLen < pos + 8 then return none
    else
      byteAt pos >>= fun next =>
        byteAt (pos + 1) >>= fun units => ipv6Walk frameLen (pos + (units.toNat * 8 + 8)) next
  else return some (pos, proto)
termination_by frameLen + 1 - pos

def ipv6GetPayload (frameLen : Nat) : ByteReader (Option (Nat × Byte)) :=
  if frameLen < 40 then return none else do
    let proto ← byteAt 6
    ipv6Walk frameLen 40 proto

section Matches

variable (q : FilterInput)

def word (width count position : Nat) : ByteReader (BitVec width) := do
  let bytes ← bytesFrom position count
  return wordOf width bytes

def ip4At (position : Nat) : ByteReader InetAddress := do
  let ip ← word 32 4 position
  return .v4 ip 0

def ip6At (position : Nat) : ByteReader InetAddress := do
  let ip ← word 128 16 position
  return .v6 ip 0

def ipv4HeaderLen : ByteReader Nat := do
  let first ← byteAt 0
  return 4 * (first &&& 0xf).toNat

/-- The four matches of an IP address. -/
def matchAddress (present : Bool) (address : ByteReader InetAddress) (net : InetAddress) (rule : Rule) :
    ByteReader Bool :=
  if present then do
    let ip ← address
    return net.containsAddress ip
  else return rule.hardNo

def matchIpTos (rule : Rule) : ByteReader Bool :=
  let inRange (tos : Byte) : Bool :=
    let tosMasked := tos &&& rule.v.ipTosMask
    rule.v.ipTosValue0 ≤ tosMasked ∧ tosMasked ≤ rule.v.ipTosValue1
  if q.isIpv4 then do
    let tos ← byteAt 1
    return inRange tos
  else if q.isIpv6 then do
    let first ← byteAt 0
    let second ← byteAt 1
    return inRange (((first <<< 4) &&& 0xf0) ||| ((second >>> 4) &&& 0x0f))
  else return rule.hardNo

def matchIpProtocol (rule : Rule) : ByteReader Bool :=
  if q.isIpv4 then do
    let proto ← byteAt 9
    return rule.v.ipProtocol = proto
  else if q.etherType = etherTypeIpv6 then do
    match ← ipv6GetPayload q.frameLen with
    | some (_, proto) => return rule.v.ipProtocol = proto
    | none => return rule.hardNo
  else return rule.hardNo

/-- Type and code of an ICMP packet at a position. -/
def typeAndCode (rule : Rule) (pos : Nat) : ByteReader Bool := do
  let type ← byteAt pos
  if rule.v.icmpType = type then
    if rule.v.icmpFlags &&& 0x01 ≠ 0 then do
      let code ← byteAt (pos + 1)
      return code = rule.v.icmpCode
    else return rule.hardYes
  else return rule.hardNo

def matchIcmp (rule : Rule) : ByteReader Bool :=
  if q.isIpv4 then do
    let proto ← byteAt 9
    if proto = 0x01 then do
      let ihl ← ipv4HeaderLen
      if ihl + 2 ≤ q.frameLen then typeAndCode rule ihl else return rule.hardNo
    else return rule.hardNo
  else if q.etherType = etherTypeIpv6 then do
    match ← ipv6GetPayload q.frameLen with
    | some (pos, proto) =>
        if proto = 0x3a ∧ pos + 2 ≤ q.frameLen then typeAndCode rule pos else return rule.hardNo
    | none => return rule.hardNo
  else return rule.hardNo

def matchPortRange (rule : Rule) (dest : Bool) : ByteReader Bool :=
  let offset := if dest then 2 else 0
  let inRange (p : Nat) : Bool := rule.v.port0.toNat ≤ p ∧ p ≤ rule.v.port1.toNat
  if q.isIpv4 then do
    let headerLen ← ipv4HeaderLen
    let proto ← byteAt 9
    if hasPorts proto ∧ headerLen + 4 < q.frameLen then do
      let p ← word 16 2 (headerLen + offset)
      return inRange p.toNat
    else return false
  else if q.etherType = etherTypeIpv6 then do
    match ← ipv6GetPayload q.frameLen with
    | some (pos, proto) =>
        if hasPorts proto ∧ pos + 4 < q.frameLen then do
          let p ← word 16 2 (pos + offset)
          return decide (0 < p.toNat) && inRange p.toNat
        else return false
    | none => return rule.hardNo
  else return rule.hardNo

def ownershipSource : ByteReader (InetAddress × Bool) :=
  if q.isIpv4 then do
    let ip ← ip4At 12
    return (ip, false)
  else if q.isIpv6 then
    if 40 + 8 + 16 ≤ q.frameLen then do
      let proto ← byteAt 6
      if proto = 0x3a then do
        let type ← byteAt 40
        if type = 0x87 then return (.nil, true)
        else if type = 0x88 then do
          let ip ← ip6At (40 + 8)
          return (ip, false)
        else do
          let ip ← ip6At 8
          return (ip, false)
      else do
        let ip ← ip6At 8
        return (ip, false)
    else do
      let ip ← ip6At 8
      return (ip, false)
  else if q.etherType = etherTypeArp ∧ 28 ≤ q.frameLen then do
    let ip ← ip4At 14
    return (ip, false)
  else return (.nil, false)

/-- The ownership bits for a source. -/
def ownershipMask (src : InetAddress) (solicitation : Bool) : BitVec 64 :=
  let ip := if q.inbound then
      q.membership.any (fun m => src.isSet && m.hasCooForIp q.nconf src)
    else q.nconf.certificatesOfOwnership.any (fun coo => src.isSet && coo.ownsIp src)
  let mac := if q.inbound then q.membership.any (fun m => m.hasCooForMac q.nconf q.macSource)
    else q.nconf.certificatesOfOwnership.any (fun coo => coo.ownsMac q.macSource)
  (if solicitation || ip then 0x1000000000000000 else 0) ||| (if mac then 0x0800000000000000 else 0)

/-- The characteristics that do not come from the frame. -/
def cast : BitVec 64 :=
  (if q.inbound then 0x8000000000000000 else 0) |||
  (if q.macDest &&& 0x010000000000 ≠ 0 then 0x4000000000000000 else 0) |||
  (if q.macDest = 0xffffffffffff then 0x2000000000000000 else 0)

def tcpFlags (pos : Nat) : ByteReader (BitVec 64) := do
  let flags ← byteAt (pos + 13)
  let reserved ← byteAt (pos + 12)
  return flags.setWidth 64 ||| ((reserved &&& 0x0f).setWidth 64 <<< 8)

/-- `(etherType == ZT_ETHERTYPE_IPV4) && (frameLen >= 20) && (frameData[9] == 0x06)`. -/
def isTcpOverIpv4 : ByteReader Bool :=
  if q.isIpv4 then do
    let proto ← byteAt 9
    return proto = 0x06
  else return false

/-- The flags of a TCP segment; over IPv4 nothing checks that the frame has them. -/
def frameTcpFlags : ByteReader (BitVec 64) := do
  let overIpv4 ← isTcpOverIpv4 q
  if overIpv4 then do
    let headerLen ← ipv4HeaderLen
    tcpFlags headerLen
  else if q.etherType = etherTypeIpv6 then do
    match ← ipv6GetPayload q.frameLen with
    | some (pos, proto) => if proto = 0x06 ∧ pos + 14 < q.frameLen then tcpFlags pos else return 0
    | none => return 0
  else return 0

def matchCharacteristics (rule : Rule) : ByteReader Bool := do
  let source ← ownershipSource q
  let tcp ← frameTcpFlags q
  return ((cast q ||| ownershipMask q source.1 source.2) ||| tcp) &&& rule.v.characteristics ≠ 0

/-- The big-endian loop: every byte is shifted in from below. -/
def shiftIn (bytes : List Byte) : BitVec 64 :=
  bytes.foldl (fun (integer : BitVec 64) (byte : Byte) => (integer <<< 8) ||| byte.setWidth 64) 0

/-- The little-endian loop: every byte is shifted in from above. -/
def shiftDown (bytes : List Byte) : BitVec 64 :=
  bytes.foldl (fun (integer : BitVec 64) (byte : Byte) => (integer >>> 8) ||| (byte.setWidth 64 <<< 56)) 0

def frameInteger (rule : Rule) : ByteReader (BitVec 64) :=
  let bits := (rule.v.intRangeFormat &&& 63).toNat + 1
  let bytes := (bits + 8 - 1) / 8
  if rule.v.intRangeFormat &&& 0x80 = 0 then
    let idx := rule.v.intRangeIdx.toNat + (8 - bytes)
    if idx + bytes ≤ q.frameLen then do
      let read ← bytesFrom idx bytes
      return shiftIn read &&& (BitVec.allOnes 64 >>> (64 - bits))
    else return 0
  else
    let idx := rule.v.intRangeIdx.toNat
    if idx + bytes ≤ q.frameLen then do
      let read ← bytesFrom idx bytes
      return shiftDown read >>> (64 - bits)
    else return 0

def matchIntegerRange (rule : Rule) : ByteReader Bool := do
  let integer ← frameInteger q rule
  return rule.v.intRangeStart ≤ integer ∧ integer ≤ rule.v.intRangeStart + rule.v.intRangeEnd.setWidth 64

/-- The `switch` over match types; the other types do not look at the frame. -/
def matchRule (ztDest : Address) (superAccept : Bool) (rn : Nat) (rule : Rule) : ByteReader (Bool × Bool) :=
  let only (program : ByteReader Bool) : ByteReader (Bool × Bool) := program >>= fun result => pure (result, false)
  match rule.ruleType with
  | .matchIpv4Source => only
      (matchAddress q.isIpv4 (ip4At 12) (.v4 rule.v.ipv4Ip (rule.v.ipv4Mask.setWidth 16)) rule)
  | .matchIpv4Dest => only
      (matchAddress q.isIpv4 (ip4At 16) (.v4 rule.v.ipv4Ip (rule.v.ipv4Mask.setWidth 16)) rule)
  | .matchIpv6Source => only
      (matchAddress q.isIpv6 (ip6At 8) (.v6 rule.v.ipv6Ip (rule.v.ipv6Mask.setWidth 16)) rule)
  | .matchIpv6Dest => only
      (matchAddress q.isIpv6 (ip6At 24) (.v6 rule.v.ipv6Ip (rule.v.ipv6Mask.setWidth 16)) rule)
  | .matchIpTos => only (matchIpTos q rule)
  | .matchIpProtocol => only (matchIpProtocol q rule)
  | .matchIcmp => only (matchIcmp q rule)
  | .matchIpSourcePortRange => only (matchPortRange q rule false)
  | .matchIpDestPortRange => only (matchPortRange q rule true)
  | .matchCharacteristics => only (matchCharacteristics q rule)
  | .matchIntegerRange => only (matchIntegerRange q rule)
  | _ => return Filter.matchRule q ztDest superAccept rn rule

end Matches

def filterStep (q : FilterInput) (rn : Nat) (rule : Rule) (st : FilterState) :
    ByteReader ((FilterResult × FilterOutput) ⊕ FilterState) :=
  if rule.isAction then
    return if st.thisSetMatches then takeAction q rule st else .inr (passAction q rule st)
  else if !st.thisSetMatches && !rule.isOr then return .inr st
  else do
    let found ← matchRule q st.out.ztDest st.superAccept rn rule
    let result := found.1 ^^ rule.isNot
    return .inr { st with
      thisSetMatches := if rule.isOr then st.thisSetMatches || result else st.thisSetMatches && result
      skipDrop := st.skipDrop || found.2 }

def filterFrom (q : FilterInput) : Nat → FilterState → List Rule → ByteReader (FilterResult × FilterOutput)
  | _, st, [] => return (.noMatch, st.out)
  | rn, st, rule :: rules => do
      match ← filterStep q rn rule st with
      | .inl result => return result
      | .inr st => filterFrom q (rn + 1) st rules

/-- `_doZtFilter`. -/
def doZtFilter (q : FilterInput) (out : FilterOutput) (rules : List Rule) : ByteReader (FilterResult × FilterOutput) :=
  filterFrom q 0 (initialState out) rules

section Values

variable (q : FilterInput)

theorem ipv6Walk_value (memory : Nat → Byte) (frameLen pos : Nat) (proto : Byte) :
    (ipv6Walk frameLen pos proto).value memory = Filter.ipv6Walk memory frameLen pos proto := by
  induction pos, proto using Filter.ipv6Walk.induct memory frameLen with
  | case1 pos proto outside =>
      rw [ipv6Walk, Filter.ipv6Walk, if_pos outside, if_pos outside, value_pure]
  | case2 pos proto inside header cut =>
      rw [ipv6Walk, Filter.ipv6Walk, if_neg inside, if_neg inside, if_pos header, if_pos header, if_pos cut, if_pos cut,
        value_pure]
  | case3 pos proto inside header whole ih =>
      rw [ipv6Walk, Filter.ipv6Walk, if_neg inside, if_neg inside, if_pos header, if_pos header, if_neg whole,
        if_neg whole, value_bind, value_bind, value_byteAt, value_byteAt]
      exact ih
  | case4 pos proto inside payload =>
      rw [ipv6Walk, Filter.ipv6Walk, if_neg inside, if_neg inside, if_neg payload, if_neg payload, value_pure]

theorem ipv6GetPayload_value (memory : Nat → Byte) (frameLen : Nat) :
    (ipv6GetPayload frameLen).value memory = Filter.ipv6GetPayload memory frameLen := by
  unfold ipv6GetPayload Filter.ipv6GetPayload
  simp [ipv6Walk_value]

theorem word_value (width count position : Nat) :
    (word width count position).value q.frameData = q.word width count position :=
  value_bind_eq (value_bytesFrom q.frameData position count) _

theorem ip4At_value (position : Nat) : (ip4At position).value q.frameData = q.ip4At position :=
  value_bind_eq (word_value q 32 4 position) _

theorem ip6At_value (position : Nat) : (ip6At position).value q.frameData = q.ip6At position :=
  value_bind_eq (word_value q 128 16 position) _

theorem ipv4HeaderLen_value : ipv4HeaderLen.value q.frameData = q.ipv4HeaderLen := rfl

theorem tcpFlags_value (pos : Nat) : (tcpFlags pos).value q.frameData = Filter.tcpFlags q pos := rfl

theorem matchAddress_value (present : Bool) {address : ByteReader InetAddress} {ip : InetAddress}
    (found : address.value q.frameData = ip) (net : InetAddress) (rule : Rule) :
    (matchAddress present address net rule).value q.frameData =
      if present then net.containsAddress ip else rule.hardNo := by
  simp [matchAddress, value_bind_eq found]

theorem matchIpTos_value (rule : Rule) : (matchIpTos q rule).value q.frameData = Filter.matchIpTos q rule := by
  simp [matchIpTos, Filter.matchIpTos]

theorem matchIpProtocol_value (rule : Rule) :
    (matchIpProtocol q rule).value q.frameData = Filter.matchIpProtocol q rule := by
  unfold matchIpProtocol Filter.matchIpProtocol
  simp only [value_ite, value_byteAt_bind, value_pure, value_bind_eq (ipv6GetPayload_value q.frameData q.frameLen)]
  cases Filter.ipv6GetPayload q.frameData q.frameLen <;> rfl

theorem typeAndCode_value (rule : Rule) (pos : Nat) :
    (typeAndCode rule pos).value q.frameData =
      if rule.v.icmpType = q.frameData pos then
        if rule.v.icmpFlags &&& 0x01 ≠ 0 then decide (q.frameData (pos + 1) = rule.v.icmpCode) else rule.hardYes
      else rule.hardNo := by
  simp only [typeAndCode, value_ite, value_byteAt_bind, value_pure]

theorem matchIcmp_value (rule : Rule) : (matchIcmp q rule).value q.frameData = Filter.matchIcmp q rule := by
  unfold matchIcmp Filter.matchIcmp
  simp only [value_ite, value_byteAt_bind, value_pure, value_bind_eq (ipv4HeaderLen_value q), typeAndCode_value,
    value_bind_eq (ipv6GetPayload_value q.frameData q.frameLen)]
  cases Filter.ipv6GetPayload q.frameData q.frameLen with
  | none => rfl
  | some payload => simp only [value_ite, value_pure, typeAndCode_value]

theorem matchPortRange_value (rule : Rule) (dest : Bool) :
    (matchPortRange q rule dest).value q.frameData = Filter.matchPortRange q rule dest := by
  unfold matchPortRange Filter.matchPortRange
  simp only [value_ite, value_byteAt_bind, value_pure, value_bind_eq (ipv4HeaderLen_value q),
    value_bind_eq (word_value q 16 2 _), value_bind_eq (ipv6GetPayload_value q.frameData q.frameLen)]
  cases Filter.ipv6GetPayload q.frameData q.frameLen with
  | none => simp [Bool.and_assoc]
  | some payload => simp [value_bind_eq (word_value q 16 2 _), Bool.and_assoc]

theorem ownershipSource_value : (ownershipSource q).value q.frameData = Filter.ownershipSource q := by
  unfold ownershipSource Filter.ownershipSource
  simp only [value_ite, value_byteAt_bind, value_pure, value_bind_eq (ip4At_value q _), value_bind_eq (ip6At_value q _)]
  by_cases icmp : 40 + 8 + 16 ≤ q.frameLen ∧ q.frameData 6 = 0x3a
  · by_cases solicitation : q.frameData 40 = 0x87
    · simp only [icmp.1, icmp.2, solicitation, if_true, true_or, and_self]
    · simp only [icmp.1, icmp.2, solicitation, if_true, if_false, false_or, true_and]
  · rw [not_and] at icmp
    by_cases long : 40 + 8 + 16 ≤ q.frameLen
    · simp only [icmp long, if_false, ite_self, false_and, and_false]
    · simp only [long, if_false, false_and]

theorem isTcpOverIpv4_value :
    (isTcpOverIpv4 q).value q.frameData = decide (q.isIpv4 ∧ q.frameData 9 = 0x06) := by
  simp [isTcpOverIpv4]

theorem frameTcpFlags_value :
    (frameTcpFlags q).value q.frameData =
      if q.isIpv4 ∧ q.frameData 9 = 0x06 then Filter.tcpFlags q q.ipv4HeaderLen
      else if q.etherType = etherTypeIpv6 then
        match Filter.ipv6GetPayload q.frameData q.frameLen with
        | some (pos, proto) => if proto = 0x06 ∧ pos + 14 < q.frameLen then Filter.tcpFlags q pos else 0
        | none => 0
      else 0 := by
  unfold frameTcpFlags
  rw [value_bind_eq (isTcpOverIpv4_value q)]
  simp only [value_ite, value_pure, value_bind_eq (ipv4HeaderLen_value q), tcpFlags_value, decide_eq_true_eq,
    value_bind_eq (ipv6GetPayload_value q.frameData q.frameLen)]
  cases Filter.ipv6GetPayload q.frameData q.frameLen with
  | none => rfl
  | some payload => simp only [value_ite, value_pure, tcpFlags_value]

theorem matchCharacteristics_value (rule : Rule) :
    (matchCharacteristics q rule).value q.frameData = Filter.matchCharacteristics q rule := by
  unfold matchCharacteristics Filter.matchCharacteristics
  rw [value_bind_eq (ownershipSource_value q), value_bind_eq (frameTcpFlags_value q), value_pure]
  rfl

theorem frameInteger_value (rule : Rule) :
    (frameInteger q rule).value q.frameData = Filter.frameInteger q rule := by
  unfold frameInteger Filter.frameInteger shiftIn shiftDown
  simp only [value_ite, value_bind_eq (value_bytesFrom q.frameData _ _), value_pure, List.foldl_map]
  split
  · split
    · rfl
    · exact BitVec.zero_and.symm
  · by_cases whole : rule.v.intRangeIdx.toNat + ((rule.v.intRangeFormat &&& 63).toNat + 1 + 8 - 1) / 8 ≤ q.frameLen
    · rw [if_pos whole, if_pos whole]
    · rw [if_neg whole, if_neg whole]
      exact (BitVec.zero_ushiftRight).symm

theorem matchIntegerRange_value (rule : Rule) :
    (matchIntegerRange q rule).value q.frameData = Filter.matchIntegerRange q rule :=
  value_bind_eq (frameInteger_value q rule) _

/-- The programs compute what the matches of the filter compute. -/
theorem matchRule_value (ztDest : Address) (superAccept : Bool) (rn : Nat) (rule : Rule) :
    (matchRule q ztDest superAccept rn rule).value q.frameData = Filter.matchRule q ztDest superAccept rn rule := by
  unfold matchRule
  cases kind : rule.ruleType
  case matchIpv4Source | matchIpv4Dest =>
    unfold Filter.matchRule
    rw [kind]
    exact value_bind_eq (matchAddress_value q q.isIpv4 (ip4At_value q _) _ rule) _
  case matchIpv6Source | matchIpv6Dest =>
    unfold Filter.matchRule
    rw [kind]
    exact value_bind_eq (matchAddress_value q q.isIpv6 (ip6At_value q _) _ rule) _
  case matchIpTos =>
    unfold Filter.matchRule
    rw [kind]
    exact value_bind_eq (matchIpTos_value q rule) _
  case matchIpProtocol =>
    unfold Filter.matchRule
    rw [kind]
    exact value_bind_eq (matchIpProtocol_value q rule) _
  case matchIcmp =>
    unfold Filter.matchRule
    rw [kind]
    exact value_bind_eq (matchIcmp_value q rule) _
  case matchIpSourcePortRange | matchIpDestPortRange =>
    unfold Filter.matchRule
    rw [kind]
    exact value_bind_eq (matchPortRange_value q rule _) _
  case matchCharacteristics =>
    unfold Filter.matchRule
    rw [kind]
    exact value_bind_eq (matchCharacteristics_value q rule) _
  case matchIntegerRange =>
    unfold Filter.matchRule
    rw [kind]
    exact value_bind_eq (matchIntegerRange_value q rule) _
  all_goals exact value_pure q.frameData _

theorem filterStep_value (rn : Nat) (rule : Rule) (st : FilterState) :
    (filterStep q rn rule st).value q.frameData = Filter.filterStep q rn rule st := by
  unfold filterStep Filter.filterStep
  by_cases action : rule.isAction = true
  · rw [if_pos action, if_pos action, value_pure]
  · rw [if_neg action, if_neg action]
    by_cases skipped : (!st.thisSetMatches && !rule.isOr) = true
    · rw [if_pos skipped, if_pos skipped, value_pure]
    · rw [if_neg skipped, if_neg skipped, value_bind_eq (matchRule_value q _ _ rn rule), value_pure]

theorem filterFrom_value (rules : List Rule) (rn : Nat) (st : FilterState) :
    (filterFrom q rn st rules).value q.frameData = Filter.filterFrom q rn st rules := by
  induction rules generalizing rn st with
  | nil => rfl
  | cons rule rules ih =>
      rw [filterFrom, Filter.filterFrom, value_bind_eq (filterStep_value q rn rule st)]
      cases Filter.filterStep q rn rule st with
      | inl result => rfl
      | inr next => exact ih (rn + 1) next

theorem doZtFilter_value (out : FilterOutput) (rules : List Rule) :
    (doZtFilter q out rules).value q.frameData = Filter.doZtFilter q out rules :=
  filterFrom_value q rules 0 (initialState out)

end Values

end ZeroTierNode.FrameReads

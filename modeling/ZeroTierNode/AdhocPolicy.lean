import ZeroTierNode.Frames
import ZeroTierNode.FrameBounds
import ZeroTierNode.PortRanges
import ZeroTierNode.Library.Hex

/-!
Ad-hoc networks. The id of such a network names a range of ports; the node makes
the configuration up by itself, with fourteen rules that are to let IPv6 through,
and in it connections to these ports only. What the rules let through is worked out
for frames in both directions.
-/

namespace ZeroTierNode

namespace Frames
open Library.Bytes ZeroTierNode.Filter

/-- What `Network::filterOutgoingPacket` is given besides the frame. -/
structure Outgoing where
  self : Address
  ztSource : Address
  ztDest : Address
  vlanId : BitVec 32
  qosBucket : Byte
  prng : Nat → Nat → BitVec 64
  behind : Nat → Byte

namespace Outgoing

variable (sending : Outgoing) (network : Network) (frame : Frame)

def filterInput (ruleSet : Nat) : FilterInput where
  identity := sending.self
  nconf := network.config
  membership := if sending.ztDest ≠ 0 then network.memberships.lookup sending.ztDest else none
  inbound := false
  ztSource := sending.ztSource
  macSource := frame.fromMac
  macDest := frame.toMac
  frameData := fun i => frame.frameData[i]?.getD (sending.behind i)
  frameLen := frame.frameData.length
  etherType := frame.etherType.setWidth 32
  vlanId := sending.vlanId
  prng := sending.prng ruleSet

/-- A frame that was redirected does not go on from here. -/
def unlessRedirected (out : FilterOutput) : Bool × Byte :=
  (!decide (sending.ztDest ≠ out.ztDest ∧ out.ztDest ≠ 0), out.qosBucket)

/-- The loop over the capabilities of the configuration. -/
def filterCapabilities : Nat → Byte → List Capability → Bool × Byte
  | _, qosBucket, [] => (false, qosBucket)
  | ruleSet, qosBucket, c :: rest =>
      match doZtFilter (sending.filterInput network frame ruleSet) ⟨sending.ztDest, 0, 0, false, qosBucket⟩ c.rules with
      | (.noMatch, out) | (.drop, out) => filterCapabilities (ruleSet + 1) out.qosBucket rest
      | (.redirect, out) | (.accept, out) | (.superAccept, out) => sending.unlessRedirected out

/-- `Network::filterOutgoingPacket`: whether the frame is sent to its destination, and its bucket. -/
def filterOutgoingPacket : Bool × Byte :=
  match doZtFilter (sending.filterInput network frame 0) ⟨sending.ztDest, 0, 0, false, sending.qosBucket⟩
      network.config.rules with
  | (.noMatch, out) => sending.filterCapabilities network frame 1 out.qosBucket network.config.capabilities
  | (.drop, out) => (false, out.qosBucket)
  | (.redirect, out) | (.accept, out) | (.superAccept, out) => sending.unlessRedirected out

end Outgoing

end Frames

namespace Adhoc
open Library.Bytes Library.Hex ZeroTierNode.Filter

/-- `requestConfiguration` of an id whose top byte is 0xff and whose low 24 bits are zero: the port range. -/
def startPortRange (id : BitVec 64) : BitVec 16 := (id >>> 40).setWidth 16

def endPortRange (id : BitVec 64) : BitVec 16 := (id >>> 24).setWidth 16

def etherTypeRule : Rule := ⟨37 ||| 0x80, { etherType := 0x86dd }⟩

def icmpv6Rule : Rule := ⟨36, { ipProtocol := 0x3a }⟩

def udpRule : Rule := ⟨36, { ipProtocol := 0x11 }⟩

def tcpRule : Rule := ⟨36 ||| 0x40, { ipProtocol := 0x06 }⟩

def portRule (startPort endPort : BitVec 16) : Rule := ⟨40, { port0 := startPort, port1 := endPort }⟩

def notSynRule : Rule := ⟨41 ||| 0x80, { characteristics := 0x002 }⟩

def synRule : Rule := ⟨41, { characteristics := 0x002 }⟩

def ackRule : Rule := ⟨41, { characteristics := 0x010 }⟩

def accept : Rule := ⟨1, {}⟩

def drop : Rule := ⟨0, {}⟩

def rules (startPort endPort : BitVec 16) : List Rule :=
  -- drop everything but IPv6
  [etherTypeRule, drop,
    -- allow ICMPv6
    icmpv6Rule, accept,
    -- allow destination ports within range
    udpRule, tcpRule, portRule startPort endPort, accept,
    -- allow non-SYN TCP packets to permit non-connection-initiating traffic
    notSynRule, accept,
    -- also allow SYN+ACK which are replies to SYN
    synRule, ackRule, accept,
    drop]

def configuration (id : BitVec 64) (self : Address) (now : BitVec 64) : NetworkConfig :=
  let startPort := startPortRange id
  let endPort := endPortRange id
  { NetworkConfig.nil with
    networkId := id
    timestamp := now
    credentialTimeMaxDelta := 7200000
    revision := 1
    issuedTo := self
    flags := 0x4
    mtu := 2800
    multicastLimit := 0
    staticIps := [.makeIpv66plane id self.toInt]
    rules := rules startPort endPort
    type := 1
    name := charArray 128 (ascii "adhoc-" ++ digits 4 startPort.toNat ++ ascii "-" ++ digits 4 endPort.toNat) }

/-- `Network::requestConfiguration` of a network with such an id; nothing is asked of anyone. -/
def requestConfiguration (RR : RuntimeEnvironment) (net : Network) (now : Int) : Network :=
  if net.destroyed then net
  else if startPortRange net.id ≤ endPortRange net.id then
    (net.setConfiguration RR (configuration net.id RR.identity.address (BitVec.ofInt 64 now)) now).2
  -- `setNotFound`
  else net

/-- An ad-hoc network that was joined. -/
structure AdhocNetwork where
  RR : RuntimeEnvironment
  network : Network
  now : Int
  top : network.id >>> 56 = 0xff
  low : network.id &&& 0xffffff = 0
  ordered : startPortRange network.id ≤ endPortRange network.id
  joined : network.destroyed = false

namespace AdhocNetwork

variable (adhoc : AdhocNetwork)

def startPort : BitVec 16 := startPortRange adhoc.network.id

def endPort : BitVec 16 := endPortRange adhoc.network.id

/-- The network with its configuration. -/
def configured : Network := requestConfiguration adhoc.RR adhoc.network adhoc.now

theorem configured_config :
    adhoc.configured.config =
      configuration adhoc.network.id adhoc.RR.identity.address (BitVec.ofInt 64 adhoc.now) := by
  unfold configured requestConfiguration Network.setConfiguration
  rw [adhoc.joined, if_neg Bool.false_ne_true, if_pos adhoc.ordered, if_neg Bool.false_ne_true, if_neg (by simp [configuration])]
  split
  · assumption
  · rfl

theorem configured_rules : adhoc.configured.config.rules = rules adhoc.startPort adhoc.endPort := by
  rw [configured_config]
  rfl

end AdhocNetwork

section Sets

variable (q : FilterInput) (out : FilterOutput) (rest : List Rule) (rn : Nat) (fold : Bool)

/-- The loop inside rules that neither forward frames nor look at tags. -/
def plainState : FilterState := ⟨false, fold, false, out⟩

theorem filterFrom_match {rule : Rule} (isMatch : rule.isAction = false)
    (plain : (matchRule q out.ztDest false rn rule).2 = false) :
    filterFrom q rn (plainState out fold) (rule :: rest) =
      filterFrom q (rn + 1)
        (plainState out (if rule.isOr then fold || ((matchRule q out.ztDest false rn rule).1 ^^ rule.isNot)
          else fold && ((matchRule q out.ztDest false rn rule).1 ^^ rule.isNot))) rest := by
  rw [filterFrom, filterStep, isMatch, if_neg Bool.false_ne_true]
  unfold plainState
  cases joined : rule.isOr <;> cases fold <;> simp [plain]

theorem passAction_plain {rule : Rule} (other : isForward rule = false) :
    passAction q rule (plainState out false) = plainState out true := by
  unfold passAction plainState
  rw [other, Bool.and_false, Bool.false_and, Bool.or_false]

theorem filterFrom_accept :
    filterFrom q rn (plainState out fold) (accept :: rest) =
      if fold then (.accept, out) else filterFrom q (rn + 1) (plainState out true) rest := by
  cases fold with
  | true => rfl
  | false => exact congrArg (filterFrom q (rn + 1) · rest) (passAction_plain q out rfl)

theorem filterFrom_drop :
    filterFrom q rn (plainState out fold) (drop :: rest) =
      if fold then (.drop, out) else filterFrom q (rn + 1) (plainState out true) rest := by
  cases fold with
  | true => rfl
  | false => exact congrArg (filterFrom q (rn + 1) · rest) (passAction_plain q out rfl)

section PortRule

variable (startPort endPort : BitVec 16)

theorem portRule_isAction : (portRule startPort endPort).isAction = false := by
  simp [portRule, Rule.isAction, Rule.code]

theorem portRule_isOr : (portRule startPort endPort).isOr = false := by
  simp [portRule, Rule.isOr]

theorem portRule_isNot : (portRule startPort endPort).isNot = false := by
  simp [portRule, Rule.isNot]

theorem portRule_ruleType : (portRule startPort endPort).ruleType = .matchIpDestPortRange := by
  simp [portRule, Rule.ruleType, Rule.code, RuleType.ofCode]

theorem matchRule_portRule (dest : Address) :
    matchRule q dest false rn (portRule startPort endPort) =
      (matchPortRange q (portRule startPort endPort) true, false) := by
  unfold matchRule
  rw [portRule_ruleType]

end PortRule

/-- The rules of an ad-hoc network, set by set. -/
theorem doZtFilter_rules (startPort endPort : BitVec 16) :
    doZtFilter q out (rules startPort endPort) =
      (if q.etherType.setWidth 16 ≠ 0x86dd then .drop
        else if matchIpProtocol q icmpv6Rule then .accept
        else if (matchIpProtocol q udpRule || matchIpProtocol q tcpRule) &&
            matchPortRange q (portRule startPort endPort) true then .accept
        else if !matchCharacteristics q synRule then .accept
        else if matchCharacteristics q ackRule then .accept
        else .drop, out) := by
  have joined : etherTypeRule.isOr = false ∧ icmpv6Rule.isOr = false ∧ udpRule.isOr = false ∧ tcpRule.isOr = true ∧
      (portRule startPort endPort).isOr = false ∧ notSynRule.isOr = false ∧ synRule.isOr = false ∧
      ackRule.isOr = false := ⟨rfl, rfl, rfl, rfl, portRule_isOr _ _, rfl, rfl, rfl⟩
  have negated : etherTypeRule.isNot = true ∧ icmpv6Rule.isNot = false ∧ udpRule.isNot = false ∧
      tcpRule.isNot = false ∧ (portRule startPort endPort).isNot = false ∧ notSynRule.isNot = true ∧
      synRule.isNot = false ∧ ackRule.isNot = false := ⟨rfl, rfl, rfl, rfl, portRule_isNot _ _, rfl, rfl, rfl⟩
  have found (dest : Address) (rn : Nat) :
      (matchRule q dest false rn etherTypeRule).1 = decide (0x86dd = q.etherType.setWidth 16) ∧
      (matchRule q dest false rn icmpv6Rule).1 = matchIpProtocol q icmpv6Rule ∧
      (matchRule q dest false rn udpRule).1 = matchIpProtocol q udpRule ∧
      (matchRule q dest false rn tcpRule).1 = matchIpProtocol q tcpRule ∧
      (matchRule q dest false rn (portRule startPort endPort)).1 = matchPortRange q (portRule startPort endPort) true ∧
      (matchRule q dest false rn notSynRule).1 = matchCharacteristics q synRule ∧
      (matchRule q dest false rn synRule).1 = matchCharacteristics q synRule ∧
      (matchRule q dest false rn ackRule).1 = matchCharacteristics q ackRule :=
    ⟨rfl, rfl, rfl, rfl, congrArg Prod.fst (matchRule_portRule q rn startPort endPort dest), rfl, rfl, rfl⟩
  have unflagged (rn : Nat) : (matchRule q out.ztDest false rn (portRule startPort endPort)).2 = false :=
    congrArg Prod.snd (matchRule_portRule q rn startPort endPort out.ztDest)
  change filterFrom q 0 (plainState out true) (rules startPort endPort) = _
  unfold rules
  rw [@filterFrom_match q out _ _ _ etherTypeRule rfl rfl, filterFrom_drop,
    @filterFrom_match q out _ _ _ icmpv6Rule rfl rfl, filterFrom_accept,
    @filterFrom_match q out _ _ _ udpRule rfl rfl, @filterFrom_match q out _ _ _ tcpRule rfl rfl,
    @filterFrom_match q out _ _ _ (portRule startPort endPort) (portRule_isAction _ _) (unflagged _), filterFrom_accept,
    @filterFrom_match q out _ _ _ notSynRule rfl rfl, filterFrom_accept,
    @filterFrom_match q out _ _ _ synRule rfl rfl, @filterFrom_match q out _ _ _ ackRule rfl rfl, filterFrom_accept,
    filterFrom_drop]
  simp only [joined, negated, found, Bool.true_and, Bool.xor_false, Bool.xor_true, if_true]
  by_cases ipv6 : q.etherType.setWidth 16 = 0x86dd
  · simp only [ipv6]
    cases matchIpProtocol q icmpv6Rule <;> cases matchCharacteristics q synRule <;>
      cases matchCharacteristics q ackRule <;> simp [apply_ite (fun result => (result, out))]
  · rw [decide_eq_false (Ne.symm ipv6), if_pos ipv6]
    rfl

end Sets

section Headers

variable (frame : Frames.Frame)

/-- What lies behind the extension headers of an IPv6 frame, and its protocol. -/
def payload : Option (Nat × Byte) :=
  if frame.etherType = 0x86dd then ipv6GetPayload (fun i => frame.frameData.getD i 0) frame.frameData.length else none

def protocol : Option Byte := (payload frame).map Prod.snd

def destPort : Option (BitVec 16) :=
  (payload frame).bind fun found => (fieldAt frame.frameData (found.1 + 2) 2).map (wordOf 16)

/-- The TCP flags, if the frame has them. -/
def flags : Byte := ((payload frame).bind fun found => frame.frameData[found.1 + 13]?).getD 0

def hasSyn : Prop := flags frame &&& 0x02 ≠ 0

def hasAck : Prop := flags frame &&& 0x10 ≠ 0

/-- The frame ends with the byte of the TCP flags. -/
def EndsWithFlags : Prop := (payload frame).map (fun found => found.1 + 14) = some frame.frameData.length

variable (startPort endPort : BitVec 16)

def PortIn : Prop := ∃ port, destPort frame = some port ∧ startPort ≤ port ∧ port ≤ endPort

/-- The policy of an ad-hoc network about a frame. -/
structure Policy (accepted : Prop) : Prop where
  ipv6 : accepted → frame.etherType = 0x86dd
  udp : protocol frame = some 0x11 → (accepted ↔ PortIn frame startPort endPort)
  opening : protocol frame = some 0x06 → hasSyn frame → ¬ hasAck frame → (accepted ↔ PortIn frame startPort endPort)
  icmpv6 : protocol frame = some 0x3a → accepted
  opened : protocol frame = some 0x06 → ¬ hasSyn frame → accepted
  reply : protocol frame = some 0x06 → hasSyn frame → hasAck frame → accepted

/-- The frames on which the rules keep to the policy. -/
def Kept : Prop :=
  (protocol frame = some 0x11 → PortIn frame startPort endPort) ∧
    (protocol frame = some 0x06 → hasSyn frame → ¬ hasAck frame →
      (EndsWithFlags frame → PortIn frame startPort endPort) ∧
        (¬ EndsWithFlags frame → ¬ (destPort frame = some 0 ∧ startPort = 0)))

/-- The port rule matches: the port is not 0, and something follows the ports. -/
def PortSeen : Prop :=
  ∃ found, payload frame = some found ∧ found.1 + 4 < frame.frameData.length ∧
    ∃ port, destPort frame = some port ∧ port ≠ 0 ∧ startPort ≤ port ∧ port ≤ endPort

/-- The flags that `MATCH_CHARACTERISTICS` sees. -/
def FlagSeen (flag : Byte) : Prop :=
  protocol frame = some 0x06 ∧ ¬ EndsWithFlags frame ∧ flags frame &&& flag ≠ 0

/-- What the rules accept. -/
def Accepted : Prop :=
  frame.etherType = 0x86dd ∧
    (protocol frame = some 0x3a ∨
      (protocol frame = some 0x11 ∨ protocol frame = some 0x06) ∧ PortSeen frame startPort endPort ∨
      ¬ FlagSeen frame 0x02 ∨ FlagSeen frame 0x10)

variable {frame} {startPort endPort}

theorem protocol_ipv6 {proto : Byte} (found : protocol frame = some proto) : frame.etherType = 0x86dd := by
  by_contra other
  rw [protocol, payload, if_neg other] at found
  cases found

/-- Flags lie inside the frame. -/
theorem flags_inside {found : Nat × Byte} {flag : Byte} (here : payload frame = some found)
    (set : flags frame &&& flag ≠ 0) : found.1 + 13 < frame.frameData.length := by
  by_contra outside
  apply set
  rw [flags, here, Option.bind_some, List.getElem?_eq_none (Nat.le_of_not_lt outside), Option.getD_none]
  exact BitVec.zero_and

theorem portSeen_iff (syn : hasSyn frame) :
    PortSeen frame startPort endPort ↔ PortIn frame startPort endPort ∧ destPort frame ≠ some 0 := by
  constructor
  · intro seen
    obtain ⟨found, here, _, port, dest, known, range⟩ := seen
    refine ⟨⟨port, dest, range⟩, ?_⟩
    rw [dest]
    intro zero
    exact known (Option.some.inj zero)
  · intro both
    obtain ⟨⟨port, dest, range⟩, known⟩ := both
    obtain ⟨found, here, _⟩ := Option.bind_eq_some_iff.mp dest
    have inside := flags_inside here syn
    refine ⟨found, here, by omega, port, dest, ?_, range⟩
    intro zero
    rw [dest, zero] at known
    exact known rfl

/-- Port 0 lies in the range exactly when the range begins there. -/
theorem zero_in_range (dest : destPort frame = some 0) : PortIn frame startPort endPort ↔ startPort = 0 := by
  constructor
  · intro inside
    obtain ⟨port, here, low, _⟩ := inside
    rw [dest] at here
    rw [← Option.some.inj here] at low
    exact BitVec.le_zero_iff.mp low
  · intro zero
    exact ⟨0, dest, zero ▸ BitVec.le_refl _, BitVec.le_def.mpr (Nat.zero_le _)⟩

/-- A connection is opened by the frames whose port is seen, or whose flags are not. -/
theorem accepted_opening (tcp : protocol frame = some 0x06) (syn : hasSyn frame) (noAck : ¬ hasAck frame) :
    Accepted frame startPort endPort ↔ PortSeen frame startPort endPort ∨ EndsWithFlags frame := by
  have notAck : ¬ FlagSeen frame 0x10 := fun seen => noAck seen.2.2
  constructor
  · intro accepted
    rcases accepted.2 with icmp | port | noFlag | ack
    · rw [tcp] at icmp
      exact absurd icmp (by decide)
    · exact .inl port.2
    · by_contra neither
      exact noFlag ⟨tcp, fun ends => neither (.inr ends), syn⟩
    · exact absurd ack notAck
  · intro reason
    cases reason with
    | inl port => exact ⟨protocol_ipv6 tcp, .inr (.inl ⟨.inr tcp, port⟩)⟩
    | inr ends => exact ⟨protocol_ipv6 tcp, .inr (.inr (.inl fun seen => seen.2.1 ends))⟩

/-- The rules keep to the policy on these frames and on no others. -/
theorem policy_accepted_iff :
    Policy frame startPort endPort (Accepted frame startPort endPort) ↔ Kept frame startPort endPort := by
  have unseen {flag : Byte} (other : protocol frame ≠ some 0x06) : ¬ FlagSeen frame flag := fun seen => other seen.1
  constructor
  · intro policy
    constructor
    · intro udp
      have accepted : Accepted frame startPort endPort := by
        refine ⟨protocol_ipv6 udp, .inr (.inr (.inl (unseen ?_)))⟩
        rw [udp]
        decide
      exact (policy.udp udp).mp accepted
    · intro tcp syn noAck
      have opening := policy.opening tcp syn noAck
      rw [accepted_opening tcp syn noAck] at opening
      constructor
      · intro ends
        exact opening.mp (.inr ends)
      · intro longer zero
        have inside : PortIn _ startPort endPort := (zero_in_range zero.1).mpr zero.2
        cases opening.mpr inside with
        | inl seen => exact ((portSeen_iff syn).mp seen).2 zero.1
        | inr ends => exact longer ends
  · intro kept
    constructor
    · intro accepted
      exact accepted.1
    · intro udp
      refine iff_of_true ⟨protocol_ipv6 udp, .inr (.inr (.inl (unseen ?_)))⟩ (kept.1 udp)
      rw [udp]
      decide
    · intro tcp syn noAck
      rw [accepted_opening tcp syn noAck]
      have exceptions := kept.2 tcp syn noAck
      by_cases ends : EndsWithFlags frame
      · exact iff_of_true (.inr ends) (exceptions.1 ends)
      · rw [portSeen_iff syn]
        constructor
        · intro seen
          exact (seen.resolve_right ends).1
        · intro inside
          refine .inl ⟨inside, ?_⟩
          intro zero
          exact exceptions.2 ends ⟨zero, (zero_in_range zero).mp inside⟩
    · intro icmp
      exact ⟨protocol_ipv6 icmp, .inl icmp⟩
    · intro tcp noSyn
      exact ⟨protocol_ipv6 tcp, .inr (.inr (.inl fun seen => noSyn seen.2.2))⟩
    · intro tcp syn ack
      by_cases ends : EndsWithFlags frame
      · exact ⟨protocol_ipv6 tcp, .inr (.inr (.inl fun seen => seen.2.1 ends))⟩
      · exact ⟨protocol_ipv6 tcp, .inr (.inr (.inr ⟨tcp, ends, ack⟩))⟩

end Headers

section LowByte

/-- A flag in the low byte of a word is one of that byte. -/
theorem mask_eq_zero_iff (word : BitVec 64) (flag : Byte) :
    word &&& flag.setWidth 64 = 0 ↔ word.setWidth 8 &&& flag = 0 := by
  have narrow : word &&& flag.setWidth 64 = (word.setWidth 8 &&& flag).setWidth 64 := by
    apply BitVec.eq_of_getLsbD_eq
    intro i inside
    simp only [BitVec.getLsbD_and, BitVec.getLsbD_setWidth, inside, decide_true, Bool.true_and]
    by_cases low : i < 8
    · simp [low]
    · rw [BitVec.getLsbD_of_ge flag i (Nat.le_of_not_lt low), Bool.and_false, Bool.and_false]
  rw [narrow]
  constructor
  · intro zero
    have back := congrArg (BitVec.setWidth 8) zero
    rwa [BitVec.setWidth_setWidth_of_le _ (by decide), BitVec.setWidth_eq] at back
  · intro zero
    rw [zero]
    rfl

theorem tcpFlags_low (q : FilterInput) (pos : Nat) : (tcpFlags q pos).setWidth 8 = q.frameData (pos + 13) := by
  apply BitVec.eq_of_getLsbD_eq
  intro i low
  simp only [tcpFlags, BitVec.getLsbD_setWidth, BitVec.getLsbD_or, BitVec.getLsbD_shiftLeft, low, decide_true,
    Bool.true_and]
  simp [show i < 64 by omega]

theorem ite_low {condition : Prop} [Decidable condition] {bit : BitVec 64} (high : bit.setWidth 8 = 0) :
    (if condition then bit else 0).setWidth 8 = (0 : Byte) := by
  split
  · exact high
  · rfl

/-- The characteristics that are not TCP flags are far above them. -/
theorem ownershipVerificationMask_low (q : FilterInput) : (ownershipVerificationMask q).setWidth 8 = (0 : Byte) := by
  unfold ownershipVerificationMask
  dsimp only
  rw [BitVec.setWidth_or, ite_low (by decide), ite_low (by decide), BitVec.or_self]

end LowByte

section Matches

variable {q : FilterInput} {frame : Frames.Frame}

/-- The filter is given this frame. -/
structure Shows (q : FilterInput) (frame : Frames.Frame) : Prop where
  etherType : q.etherType = frame.etherType.setWidth 32
  length : q.frameLen = frame.frameData.length
  holds : Holds q.frameData frame.frameData

variable (shows' : Shows q frame)

include shows'

theorem Shows.payload_eq (ipv6 : frame.etherType = 0x86dd) :
    ipv6GetPayload q.frameData q.frameLen = payload frame := by
  have inside := FrameReads.ipv6GetPayload_inside q.frameData q.frameLen
  have alike (i : Nat) (below : i < q.frameLen) : frame.frameData.getD i 0 = q.frameData i := by
    rw [shows'.length] at below
    exact (shows'.holds.getD below).symm
  rw [payload, if_pos ipv6, ← shows'.length, ← FrameReads.ipv6GetPayload_value, ← FrameReads.ipv6GetPayload_value]
  exact (inside.value_eq alike).symm

theorem Shows.isIpv6 (ipv6 : frame.etherType = 0x86dd) : q.etherType = etherTypeIpv6 ∧ ¬ q.isIpv4 = true := by
  have ether : q.etherType = etherTypeIpv6 := by
    rw [shows'.etherType, ipv6]
    decide
  refine ⟨ether, ?_⟩
  intro ipv4
  have wrong : etherTypeIpv6 = etherTypeIpv4 := ether.symm.trans (of_decide_eq_true ipv4).1
  exact absurd wrong (by decide)

theorem Shows.matchIpProtocol (ipv6 : frame.etherType = 0x86dd) (rule : Rule) (plain : rule.isNot = false) :
    Filter.matchIpProtocol q rule = true ↔ protocol frame = some rule.v.ipProtocol := by
  obtain ⟨ether, other⟩ := shows'.isIpv6 ipv6
  unfold Filter.matchIpProtocol protocol
  rw [if_neg other, if_pos ether, shows'.payload_eq ipv6]
  cases payload frame with
  | none => simp [Rule.hardNo, plain]
  | some found => simp [eq_comm]

theorem Shows.matchPortRange (startPort endPort : BitVec 16) {proto : Byte} (transport : hasPorts proto = true)
    (found : protocol frame = some proto) :
    Filter.matchPortRange q (portRule startPort endPort) true = true ↔ PortSeen frame startPort endPort := by
  have ipv6 := protocol_ipv6 found
  obtain ⟨ether, other⟩ := shows'.isIpv6 ipv6
  obtain ⟨here, there, kind⟩ := Option.map_eq_some_iff.mp found
  unfold Filter.matchPortRange PortSeen destPort
  rw [if_neg other, if_pos ether, shows'.payload_eq ipv6, there]
  dsimp only
  rw [kind, transport, shows'.length, decide_eq_true_eq]
  by_cases long : here.1 + 4 < frame.frameData.length
  · have inside : here.1 + 2 + 2 ≤ frame.frameData.length := by omega
    have field : fieldAt frame.frameData (here.1 + 2) 2 = some ((frame.frameData.drop (here.1 + 2)).take 2) :=
      if_pos inside
    rw [if_pos rfl, word_of_holds shows'.holds inside, Option.bind_some, field, Option.map_some]
    generalize wordOf 16 ((frame.frameData.drop (here.1 + 2)).take 2) = port
    have known : 0 < port.toNat ↔ port ≠ 0 := by
      rw [Nat.pos_iff_ne_zero, ne_eq, ne_eq, BitVec.toNat_eq]
      rfl
    rw [known]
    simp [portRule, long, BitVec.le_def]
    exact fun _ => decide_eq_true_iff
  · simp [long]

theorem Shows.matchCharacteristics (ipv6 : frame.etherType = 0x86dd) {rule : Rule} {flag : Byte}
    (mask : rule.v.characteristics = flag.setWidth 64) :
    Filter.matchCharacteristics q rule = true ↔ FlagSeen frame flag := by
  obtain ⟨ether, other⟩ := shows'.isIpv6 ipv6
  have tcp4 : ¬ (q.isIpv4 = true ∧ q.frameData 9 = 0x06) := fun both => other both.1
  unfold Filter.matchCharacteristics
  dsimp only
  rw [mask, if_neg tcp4, if_pos ether, shows'.payload_eq ipv6, decide_eq_true_eq, ne_eq, mask_eq_zero_iff,
    BitVec.setWidth_or, BitVec.setWidth_or, BitVec.setWidth_or, BitVec.setWidth_or, ownershipVerificationMask_low,
    ite_low (by decide), ite_low (by decide), ite_low (by decide), BitVec.or_self, BitVec.or_self, BitVec.or_self]
  unfold FlagSeen
  cases there : payload frame with
  | none =>
      have absent : protocol frame ≠ some 0x06 := by
        rw [protocol, there]
        exact fun wrong => nomatch wrong
      simp
      exact fun tcp => absurd tcp absent
  | some found =>
      have kind : protocol frame = some found.2 := by rw [protocol, there, Option.map_some]
      have ends : EndsWithFlags frame ↔ found.1 + 14 = frame.frameData.length := by
        rw [EndsWithFlags, there, Option.map_some, Option.some.injEq]
      have read : flags frame = (frame.frameData[found.1 + 13]?).getD 0 := by rw [flags, there, Option.bind_some]
      dsimp only
      rw [kind, ends, read, Option.some.injEq, shows'.length]
      by_cases whole : found.1 + 14 < frame.frameData.length
      · have inside : found.1 + 13 < frame.frameData.length := by omega
        by_cases tcp : found.2 = 0x06
        · rw [if_pos ⟨tcp, whole⟩, tcpFlags_low, shows'.holds _ inside, List.getElem?_eq_getElem inside, Option.getD_some]
          simp [tcp, Nat.ne_of_lt whole]
        · rw [if_neg fun both => tcp both.1]
          simp
          exact fun wrong => absurd wrong tcp
      · rw [if_neg fun both => whole both.2]
        by_cases last : found.1 + 14 = frame.frameData.length
        · simp [last]
        · rw [List.getElem?_eq_none (by omega)]
          simp

/-- What the rules of the network make of a frame. -/
theorem Shows.verdict (out : FilterOutput) (startPort endPort : BitVec 16) :
    (doZtFilter q out (rules startPort endPort) = (.accept, out) ∧ Accepted frame startPort endPort) ∨
      (doZtFilter q out (rules startPort endPort) = (.drop, out) ∧ ¬ Accepted frame startPort endPort) := by
  have ether : q.etherType.setWidth 16 = frame.etherType := by
    rw [shows'.etherType, BitVec.setWidth_setWidth_of_le _ (by decide), BitVec.setWidth_eq]
  rw [doZtFilter_rules, ether]
  by_cases ipv6 : frame.etherType = 0x86dd
  · rw [if_neg (not_not_intro ipv6)]
    have icmp := shows'.matchIpProtocol ipv6 icmpv6Rule rfl
    have udp := shows'.matchIpProtocol ipv6 udpRule rfl
    have tcp := shows'.matchIpProtocol ipv6 tcpRule rfl
    have port (transport : protocol frame = some 0x11 ∨ protocol frame = some 0x06) :
        Filter.matchPortRange q (portRule startPort endPort) true = true ↔ PortSeen frame startPort endPort := by
      cases transport with
      | inl found => exact shows'.matchPortRange startPort endPort rfl found
      | inr found => exact shows'.matchPortRange startPort endPort rfl found
    have syn : Filter.matchCharacteristics q synRule = true ↔ FlagSeen frame 0x02 :=
      shows'.matchCharacteristics ipv6 (by decide)
    have ack : Filter.matchCharacteristics q ackRule = true ↔ FlagSeen frame 0x10 :=
      shows'.matchCharacteristics ipv6 (by decide)
    by_cases isIcmp : Filter.matchIpProtocol q icmpv6Rule = true
    · rw [if_pos isIcmp]
      exact .inl ⟨rfl, ipv6, .inl (icmp.mp isIcmp)⟩
    · rw [if_neg isIcmp]
      by_cases ports : ((Filter.matchIpProtocol q udpRule || Filter.matchIpProtocol q tcpRule) &&
          Filter.matchPortRange q (portRule startPort endPort) true) = true
      · rw [if_pos ports]
        rw [Bool.and_eq_true, Bool.or_eq_true] at ports
        have transport := ports.1.imp udp.mp tcp.mp
        exact .inl ⟨rfl, ipv6, .inr (.inl ⟨transport, (port transport).mp ports.2⟩)⟩
      · rw [if_neg ports]
        have noPort : ¬ ((protocol frame = some 0x11 ∨ protocol frame = some 0x06) ∧
            PortSeen frame startPort endPort) := by
          intro both
          apply ports
          rw [Bool.and_eq_true, Bool.or_eq_true]
          exact ⟨both.1.imp udp.mpr tcp.mpr, (port both.1).mpr both.2⟩
        by_cases isSyn : Filter.matchCharacteristics q synRule = true
        · rw [isSyn, Bool.not_true, if_neg Bool.false_ne_true]
          by_cases isAck : Filter.matchCharacteristics q ackRule = true
          · rw [if_pos isAck]
            exact .inl ⟨rfl, ipv6, .inr (.inr (.inr (ack.mp isAck)))⟩
          · rw [if_neg isAck]
            refine .inr ⟨rfl, ?_⟩
            intro accepted
            rcases accepted.2 with isIcmp' | reason | noSyn | isAck'
            · exact isIcmp (icmp.mpr isIcmp')
            · exact noPort reason
            · exact noSyn (syn.mp isSyn)
            · exact isAck (ack.mpr isAck')
        · rw [Bool.eq_false_iff.mpr isSyn, Bool.not_false, if_pos rfl]
          exact .inl ⟨rfl, ipv6, .inr (.inr (.inl fun seen => isSyn (syn.mpr seen)))⟩
  · rw [if_pos ipv6]
    exact .inr ⟨rfl, fun accepted => ipv6 accepted.1⟩

end Matches

section Directions

variable (adhoc : AdhocNetwork) (frame : Frames.Frame)

theorem holds_memory (bytes : List Byte) (behind : Nat → Byte) : Holds (fun i => bytes[i]?.getD (behind i)) bytes := by
  intro i inside
  dsimp only
  rw [List.getElem?_eq_getElem inside, Option.getD_some]

theorem incoming_accepts_iff (ctx : Frames.Context) :
    0 < ctx.filterIncomingPacket adhoc.configured frame ↔ Accepted frame adhoc.startPort adhoc.endPort := by
  have shown (membership : Membership) : Shows (ctx.filterInput adhoc.configured frame 0 membership) frame :=
    ⟨rfl, rfl, holds_memory _ _⟩
  unfold Frames.Context.filterIncomingPacket
  dsimp only
  rw [adhoc.configured_rules]
  rcases (shown ((adhoc.configured.memberships.lookup ctx.peer.address).getD .nil)).verdict ctx.filterOutput
    adhoc.startPort adhoc.endPort with ⟨taken, accepted⟩ | ⟨taken, refused⟩
  · rw [taken]
    dsimp only
    have stays : ctx.unlessRedirected ctx.filterOutput 1 = 1 := if_neg fun moved => moved.1 rfl
    rw [stays]
    exact iff_of_true Nat.one_pos accepted
  · rw [taken]
    exact iff_of_false (Nat.lt_irrefl 0) refused

theorem outgoing_accepts_iff (sending : Frames.Outgoing) :
    (sending.filterOutgoingPacket adhoc.configured frame).1 = true ↔ Accepted frame adhoc.startPort adhoc.endPort := by
  have shown : Shows (sending.filterInput adhoc.configured frame 0) frame := ⟨rfl, rfl, holds_memory _ _⟩
  unfold Frames.Outgoing.filterOutgoingPacket
  rw [adhoc.configured_rules]
  rcases shown.verdict ⟨sending.ztDest, 0, 0, false, sending.qosBucket⟩ adhoc.startPort adhoc.endPort with
    ⟨taken, accepted⟩ | ⟨taken, refused⟩
  · rw [taken]
    dsimp only
    have stays : (sending.unlessRedirected ⟨sending.ztDest, 0, 0, false, sending.qosBucket⟩).1 = true := by
      simp [Frames.Outgoing.unlessRedirected]
    exact iff_of_true stays accepted
  · rw [taken]
    exact iff_of_false Bool.false_ne_true refused

/-- In both directions the rules of an ad-hoc network keep to its policy on a frame unless it is a UDP frame to
a port outside the range, or opens a TCP connection and either ends with its flags, to a port outside the range,
or is to port 0, in a range that begins there. -/
theorem adhoc_policy_iff (ctx : Frames.Context) (sending : Frames.Outgoing) :
    (Policy frame adhoc.startPort adhoc.endPort (0 < ctx.filterIncomingPacket adhoc.configured frame) ∧
      Policy frame adhoc.startPort adhoc.endPort
        ((sending.filterOutgoingPacket adhoc.configured frame).1 = true)) ↔
      Kept frame adhoc.startPort adhoc.endPort := by
  rw [incoming_accepts_iff, outgoing_accepts_iff, policy_accepted_iff, and_self]

end Directions

/-- The ad-hoc network for the ports 80 to 90. -/
def webPorts : AdhocNetwork where
  RR := ⟨⟨7, 0⟩, fun _ => none⟩
  network := ⟨0xff0050005a000000, .nil, 0, false, ∅⟩
  now := 0
  top := by decide
  low := by decide
  ordered := by decide
  joined := rfl

/-- A UDP datagram to port 53. -/
def query : Frames.Frame where
  fromMac := 2
  toMac := 4
  etherType := 0x86dd
  frameData := [0x60, 0, 0, 0, 0, 8, 17, 64, 0xfc, 0, 0, 0, 0, 0, 0, 0, 0, 0, 0, 0, 0, 0, 0, 1, 0xfc, 0, 0, 0, 0, 0, 0, 0,
    0, 0, 0, 0, 0, 0, 0, 2, 0x30, 0x39, 0, 53, 0, 8, 0, 0]

theorem query_payload : payload query = some (40, 0x11) := by
  have ipv6 : query.etherType = 0x86dd := rfl
  have long : ¬ query.frameData.length < 40 := by decide
  have next : query.frameData.getD 6 0 = 0x11 := rfl
  unfold payload ipv6GetPayload
  rw [if_pos ipv6, if_neg long]
  dsimp only
  rw [next, ipv6Walk, if_neg long, if_neg (by decide)]

/-- The set that is to let TCP without SYN through also lets all of UDP through. -/
theorem query_is_accepted :
    ¬ ∀ (adhoc : AdhocNetwork) (frame : Frames.Frame) (ctx : Frames.Context) (sending : Frames.Outgoing),
      Policy frame adhoc.startPort adhoc.endPort (0 < ctx.filterIncomingPacket adhoc.configured frame) ∧
        Policy frame adhoc.startPort adhoc.endPort
          ((sending.filterOutgoingPacket adhoc.configured frame).1 = true) := by
  intro policy
  have incoming := (policy webPorts query (Frames.heardFrom 9) ⟨7, 7, 9, 0, 0, fun _ _ => 0, fun _ => 0⟩).1
  rw [incoming_accepts_iff, policy_accepted_iff] at incoming
  have udp : protocol query = some 0x11 := by rw [protocol, query_payload, Option.map_some]
  have dest : destPort query = some 53 := by
    rw [destPort, query_payload, Option.bind_some]
    decide
  obtain ⟨port, here, low, _⟩ := incoming.1 udp
  rw [dest] at here
  rw [← Option.some.inj here] at low
  exact absurd low (by decide)

end Adhoc

end ZeroTierNode

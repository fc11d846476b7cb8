import ZeroTierNode.Filter
import ZeroTierNode.Network

/-!
Ethernet frames that peers send: the handlers of FRAME, EXT_FRAME and
MULTICAST_FRAME from the packet to the tap, and to the replication of multicasts.
Each of them has its own nesting of the checks on bridging and on multicast.
-/

namespace ZeroTierNode
open Library.Bytes Buffer

abbrev MAC := BitVec 48

namespace MAC

def firstOctetForNetwork (nwid : BitVec 64) : Byte :=
  let a := (nwid.setWidth 8 &&& 0xfe) ||| 0x02
  if a = 0x52 then 0x32 else a

def fromAddress (ztaddr : Address) (nwid : BitVec 64) : MAC :=
  let octet (shift : Nat) : MAC := ((nwid >>> shift) &&& 0xff).setWidth 48
  ((((firstOctetForNetwork nwid).setWidth 48 <<< 40 ||| ztaddr.setWidth 48) ^^^ (octet 8 <<< 32)) ^^^ (octet 16 <<< 24) ^^^
    (octet 24 <<< 16) ^^^ (octet 32 <<< 8)) ^^^ octet 40

def isMulticast (m : MAC) : Bool := m &&& 0x010000000000 ≠ 0

theorem firstOctetForNetwork_even (nwid : BitVec 64) : (firstOctetForNetwork nwid).getLsbD 0 = false := by
  have octets : ∀ low : Byte,
      (if (low &&& 0xfe) ||| 0x02 = 0x52 then (0x32 : Byte) else (low &&& 0xfe) ||| 0x02).getLsbD 0 = false := by
    decide
  exact octets (nwid.setWidth 8)

theorem fromAddress_getLsbD (ztaddr : Address) (nwid : BitVec 64) : (fromAddress ztaddr nwid).getLsbD 40 = false := by
  have even := firstOctetForNetwork_even nwid
  have octet (shift k : Nat) (high : 8 ≤ k) : (((nwid >>> shift) &&& 0xff).setWidth 48).getLsbD k = false := by
    have mask : (0xff : BitVec 64).getLsbD k = false := by
      have beyond : ¬ k < 8 := by omega
      rw [show (0xff : BitVec 64) = (BitVec.allOnes 8).setWidth 64 by decide, BitVec.getLsbD_setWidth,
        BitVec.getLsbD_allOnes, decide_eq_false beyond, Bool.and_false]
    rw [BitVec.getLsbD_setWidth, BitVec.getLsbD_and, mask, Bool.and_false, Bool.and_false]
  unfold fromAddress
  simp only [BitVec.getLsbD_xor, BitVec.getLsbD_or, BitVec.getLsbD_shiftLeft]
  rw [octet 8 _ (by decide), octet 16 _ (by decide), octet 24 _ (by decide), octet 32 _ (by decide),
    octet 40 _ (by decide)]
  simpa using even

/-- The address of a node on a network is not one of multicasts. -/
theorem isMulticast_fromAddress (ztaddr : Address) (nwid : BitVec 64) : (fromAddress ztaddr nwid).isMulticast = false := by
  have single : (0x010000000000 : MAC) = BitVec.twoPow 48 40 := by decide
  rw [isMulticast, single, BitVec.and_twoPow, fromAddress_getLsbD]
  decide

end MAC

namespace NetworkConfig

/-- `ZT_NETWORKCONFIG_SPECIALIST_TYPE_ACTIVE_BRIDGE`. -/
def permitsBridging (nconf : NetworkConfig) (fromPeer : Address) : Bool :=
  nconf.specialists.any fun specialist => fromPeer = Address.ofInt specialist ∧ specialist &&& 0x20000000000 ≠ 0

/-- `ZT_NETWORKCONFIG_SPECIALIST_TYPE_MULTICAST_REPLICATOR`. -/
def isMulticastReplicator (nconf : NetworkConfig) (a : Address) : Bool :=
  nconf.specialists.any fun specialist => specialist &&& 0x80000000000 ≠ 0 ∧ a = Address.ofInt specialist

end NetworkConfig

namespace Frames
open ZeroTierNode.Filter

structure Frame where
  fromMac : MAC
  toMac : MAC
  etherType : BitVec 16
  frameData : List Byte
deriving DecidableEq, Repr

/-- The node, the sender, and the numbers that are drawn for each set of rules. -/
structure Context where
  crypto : Crypto
  RR : RuntimeEnvironment
  peer : Identity
  now : Int
  networks : BitVec 64 → Option Network
  prng : Nat → Nat → BitVec 64
  /-- What stands in memory behind a frame. -/
  behind : Nat → Byte

inductive Effect
  | putFrame (nwid : BitVec 64) (network : Network) (frame : Frame)
  /-- `Multicaster::send`. -/
  | replicate (nwid : BitVec 64) (network : Network) (adi : BitVec 32) (frame : Frame)
  | learnBridgeRoute (mac : MAC) (addr : Address)
  | sendErrorNeedCredentials (nwid : BitVec 64)
  /-- The OK that was asked for. -/
  | acknowledge (nwid : BitVec 64)
  | gather (nwid : BitVec 64) (mac : MAC) (adi : BitVec 32) (gatherLimit : BitVec 32)
  | received (trustEstablished : Bool)

/-- What the handler returns unless it throws, and what it does. -/
structure Handled where
  result : Option Bool
  effects : List Effect

namespace Context

variable (ctx : Context)

def self : Address := ctx.RR.identity.address

/-- `Network::mac`. -/
def mac (network : Network) : MAC := MAC.fromAddress ctx.self network.id

section Filtering

variable (network : Network) (frame : Frame)

def filterInput (ruleSet : Nat) (membership : Membership) : FilterInput where
  identity := ctx.self
  nconf := network.config
  membership := some membership
  inbound := true
  ztSource := ctx.peer.address
  macSource := frame.fromMac
  macDest := frame.toMac
  frameData := fun i => frame.frameData[i]?.getD (ctx.behind i)
  frameLen := frame.frameData.length
  etherType := frame.etherType.setWidth 32
  vlanId := 0
  prng := ctx.prng ruleSet

/-- A frame that was redirected is dropped here. -/
def unlessRedirected (out : FilterOutput) (accept : Nat) : Nat :=
  if out.ztDest ≠ ctx.self ∧ out.ztDest ≠ 0 then 0 else accept

def filterOutput : FilterOutput := ⟨ctx.self, 0, 0, false, 255⟩

/-- The loop over the capabilities that are valid. -/
def filterCapabilities (membership : Membership) : Nat → List Capability → Nat
  | _, [] => 0
  | ruleSet, c :: rest =>
      match doZtFilter (ctx.filterInput network frame ruleSet membership) ctx.filterOutput c.rules with
      | (.noMatch, _) | (.drop, _) => filterCapabilities membership (ruleSet + 1) rest
      | (.redirect, out) | (.accept, out) => ctx.unlessRedirected out 1
      | (.superAccept, out) => ctx.unlessRedirected out 2

/-- `Network::filterIncomingPacket`: 0 to drop, 1 to accept, 2 to super-accept. -/
def filterIncomingPacket : Nat :=
  let membership := (network.memberships.lookup ctx.peer.address).getD .nil
  match doZtFilter (ctx.filterInput network frame 0 membership) ctx.filterOutput network.config.rules with
  | (.noMatch, _) =>
      ctx.filterCapabilities network frame membership 1
        ((membership.remoteCaps.entries.map fun entry => entry.2).filter fun c =>
          membership.isCredentialTimestampValid network.config c)
  | (.drop, _) => 0
  | (.redirect, out) | (.accept, out) => ctx.unlessRedirected out 1
  | (.superAccept, out) => ctx.unlessRedirected out 2

end Filtering

/-- How a packet gets past the gate of its network, with the size of an inline certificate. -/
inductive Admission
  | threw
  | unjoined
  | refused (nwid : BitVec 64)
  | admitted (nwid : BitVec 64) (network : Network) (flags : Byte) (offset : Nat)

/-- An inline certificate of membership at position 37, if the flags announce one. -/
def inlineCom (network : Network) (flags : Byte) (packet : List Byte) : Option (Network × Nat) :=
  if flags &&& 0x01 ≠ 0 then
    (CertificateOfMembership.deserialize packet 37).map fun (com, comLen) =>
      (if com.isSet then (network.addCom ctx.crypto ctx.RR com).2 else network, comLen)
  else some (network, 0)

/-- Certificate and gate, as EXT_FRAME and MULTICAST_FRAME have them. -/
def passGate (nwid : BitVec 64) (network : Network) (flags : Byte) (packet : List Byte) : Admission :=
  match ctx.inlineCom network flags packet with
  | none => .threw
  | some (network, offset) =>
      let (admitted, network) := network.gate ctx.crypto ctx.peer ctx.now
      if admitted then .admitted nwid network flags offset else .refused nwid

/-- EXT_FRAME looks for the network before it reads the flags. -/
def admitExtFrame (packet : List Byte) : Admission :=
  match at64 packet 28 with
  | none => .threw
  | some nwid =>
      match ctx.networks nwid with
      | none => .unjoined
      | some network =>
          match at8 packet 36 with
          | none => .threw
          | some flags => ctx.passGate nwid network flags packet

def admitMulticastFrame (packet : List Byte) : Admission :=
  match at64 packet 28, at8 packet 36 with
  | some nwid, some flags =>
      match ctx.networks nwid with
      | none => .unjoined
      | some network => ctx.passGate nwid network flags packet
  | _, _ => .threw

/-- `IncomingPacket::_doFRAME`. -/
def doFRAME (packet : List Byte) : Handled :=
  match at64 packet 28 with
  | none => ⟨none, []⟩
  | some nwid =>
      match ctx.networks nwid with
      | none => ⟨some true, [.received false]⟩
      | some network =>
          let (admitted, network) := network.gate ctx.crypto ctx.peer ctx.now
          if admitted then
            if 38 < packet.length then
              match at16 packet 36 with
              | none => ⟨none, []⟩
              | some etherType =>
                  let frame : Frame :=
                    ⟨MAC.fromAddress ctx.peer.address nwid, ctx.mac network, etherType, packet.drop 38⟩
                  if 0 < ctx.filterIncomingPacket network frame then
                    ⟨some true, [.putFrame nwid network frame, .received true]⟩
                  else ⟨some true, [.received true]⟩
            else ⟨some true, [.received true]⟩
          else ⟨some false, [.sendErrorNeedCredentials nwid]⟩

/-- The frame in an EXT_FRAME. -/
def readExtFrame (packet : List Byte) (comLen : Nat) : Option Frame := do
  let etherType ← at16 packet (comLen + 49)
  let toMac ← atWord 48 6 packet (comLen + 37)
  let fromMac ← atWord 48 6 packet (comLen + 43)
  return ⟨fromMac, toMac, etherType, packet.drop (comLen + 51)⟩

/-- The checks of EXT_FRAME on a frame that is accepted but not super-accepted. A bridged frame is not asked
for its destination. -/
def extFrameChecks (nwid : BitVec 64) (network : Network) (frame : Frame) : Bool × List Effect :=
  if frame.fromMac ≠ MAC.fromAddress ctx.peer.address nwid then
    if network.config.permitsBridging ctx.peer.address then
      (true, [.learnBridgeRoute frame.fromMac ctx.peer.address])
    else (false, [])
  else if frame.toMac ≠ ctx.mac network then
    if frame.toMac.isMulticast then (network.config.multicastLimit ≠ 0, [])
    else (network.config.permitsBridging ctx.self, [])
  else (true, [])

/-- The end of EXT_FRAME. -/
def acknowledged (nwid : BitVec 64) (flags : Byte) : List Effect :=
  (if flags &&& 0x10 ≠ 0 then [.acknowledge nwid] else []) ++ [.received true]

/-- EXT_FRAME with a frame in it. -/
def deliverExtFrame (nwid : BitVec 64) (network : Network) (flags : Byte) (frame : Frame) : List Effect :=
  if frame.fromMac = 0 ∨ frame.fromMac = ctx.mac network then [.received true]
  else
    match ctx.filterIncomingPacket network frame with
    | 1 =>
        let (passed, learned) := ctx.extFrameChecks nwid network frame
        if passed then learned ++ .putFrame nwid network frame :: acknowledged nwid flags else [.received true]
    | 2 => .putFrame nwid network frame :: acknowledged nwid flags
    | _ => acknowledged nwid flags

/-- `IncomingPacket::_doEXT_FRAME`. -/
def doEXT_FRAME (packet : List Byte) : Handled :=
  match ctx.admitExtFrame packet with
  | .threw => ⟨none, []⟩
  | .unjoined => ⟨some true, [.received false]⟩
  | .refused nwid => ⟨some false, [.sendErrorNeedCredentials nwid]⟩
  | .admitted nwid network flags comLen =>
      if 51 < packet.length then
        match readExtFrame packet comLen with
        | none => ⟨none, []⟩
        | some frame => ⟨some true, ctx.deliverExtFrame nwid network flags frame⟩
      else ⟨some true, acknowledged nwid flags⟩

/-- A multicast with the group's second half and the number of members to gather. -/
structure MulticastFrame where
  gatherLimit : BitVec 32
  adi : BitVec 32
  frame : Frame

/-- The frame in a MULTICAST_FRAME; the source may be left out. -/
def readMulticastFrame (packet : List Byte) (nwid : BitVec 64) (flags : Byte) (offset : Nat) :
    Option MulticastFrame := do
  let gatherLimit ← if flags &&& 0x02 ≠ 0 then at32 packet (offset + 37) else some 0
  let offset := if flags &&& 0x02 ≠ 0 then offset + 4 else offset
  let fromMac ← if flags &&& 0x04 ≠ 0 then atWord 48 6 packet (offset + 37)
    else some (MAC.fromAddress ctx.peer.address nwid)
  let offset := if flags &&& 0x04 ≠ 0 then offset + 6 else offset
  let toMac ← atWord 48 6 packet (offset + 37)
  let adi ← at32 packet (offset + 43)
  let etherType ← at16 packet (offset + 47)
  return ⟨gatherLimit, adi, fromMac, toMac, etherType, packet.drop (offset + 49)⟩

/-- The replication of a multicast, which comes first. -/
def replication (nwid : BitVec 64) (network : Network) (flags : Byte) (multicast : MulticastFrame) : List Effect :=
  if flags &&& 0x08 ≠ 0 ∧ network.config.isMulticastReplicator ctx.self then
    [.replicate nwid network multicast.adi multicast.frame]
  else []

/-- The end of MULTICAST_FRAME. -/
def gathered (nwid : BitVec 64) (multicast : MulticastFrame) : List Effect :=
  (if multicast.gatherLimit ≠ 0 then [.gather nwid multicast.frame.toMac multicast.adi multicast.gatherLimit] else []) ++
    [.received true]

/-- The checks of MULTICAST_FRAME on the source, and the tap. -/
def deliverToTap (nwid : BitVec 64) (network : Network) (multicast : MulticastFrame) : List Effect :=
  let frame := multicast.frame
  let delivery : List Effect :=
    (if 0 < ctx.filterIncomingPacket network frame then [.putFrame nwid network frame] else []) ++
      gathered nwid multicast
  if frame.fromMac ≠ MAC.fromAddress ctx.peer.address nwid then
    if network.config.permitsBridging ctx.peer.address then
      .learnBridgeRoute frame.fromMac ctx.peer.address :: delivery
    else [.received true]
  else delivery

/-- MULTICAST_FRAME with a frame in it; `ZT_MAX_MTU` is 10000. -/
def deliverMulticastFrame (nwid : BitVec 64) (network : Network) (flags : Byte) (multicast : MulticastFrame) :
    List Effect :=
  let frame := multicast.frame
  if network.config.multicastLimit = 0 then [.received false]
  else if 0 < frame.frameData.length ∧ frame.frameData.length ≤ 10000 then
    if ¬ frame.toMac.isMulticast then [.received true]
    else if frame.fromMac = 0 ∨ frame.fromMac.isMulticast ∨ frame.fromMac = ctx.mac network then [.received true]
    else ctx.replication nwid network flags multicast ++ ctx.deliverToTap nwid network multicast
  else gathered nwid multicast

/-- `IncomingPacket::_doMULTICAST_FRAME`. -/
def doMULTICAST_FRAME (packet : List Byte) : Handled :=
  match ctx.admitMulticastFrame packet with
  | .threw => ⟨none, []⟩
  | .unjoined => ⟨some true, []⟩
  | .refused nwid => ⟨some false, [.sendErrorNeedCredentials nwid]⟩
  | .admitted nwid network flags offset =>
      match ctx.readMulticastFrame packet nwid flags offset with
      | none => ⟨none, []⟩
      | some multicast => ⟨some true, ctx.deliverMulticastFrame nwid network flags multicast⟩

section Policy

variable (nwid : BitVec 64) (network : Network)

/-- The source is the sender, or the sender may bridge. -/
def sourceAllowed (frame : Frame) : Bool :=
  frame.fromMac = MAC.fromAddress ctx.peer.address nwid ∨ network.config.permitsBridging ctx.peer.address

/-- The destination is this node, or a multicast that is not disabled, or this node may bridge. -/
def destinationAllowed (frame : Frame) : Bool :=
  (frame.toMac = ctx.mac network ∨ frame.toMac.isMulticast ∨ network.config.permitsBridging ctx.self) ∧
    (frame.toMac.isMulticast → network.config.multicastLimit ≠ 0)

/-- A frame goes to the tap, or onward, only if it is super-accepted or its addresses are allowed. -/
def Lawful : Effect → Prop
  | .putFrame nwid network frame | .replicate nwid network _ frame =>
      ctx.filterIncomingPacket network frame = 2 ∨
        ctx.sourceAllowed nwid network frame = true ∧ ctx.destinationAllowed network frame = true
  | _ => True

instance (effect : Effect) : Decidable (ctx.Lawful effect) :=
  match effect with
  | .putFrame nwid network frame =>
      inferInstanceAs (Decidable (ctx.filterIncomingPacket network frame = 2 ∨
        ctx.sourceAllowed nwid network frame = true ∧ ctx.destinationAllowed network frame = true))
  | .replicate nwid network _ frame =>
      inferInstanceAs (Decidable (ctx.filterIncomingPacket network frame = 2 ∨
        ctx.sourceAllowed nwid network frame = true ∧ ctx.destinationAllowed network frame = true))
  | .learnBridgeRoute _ _ | .sendErrorNeedCredentials _ | .acknowledge _ | .gather _ _ _ _ | .received _ =>
      isTrue trivial

/-- A frame that a bridge sends for someone else, accepted without being super-accepted, to a destination that is
not allowed. -/
def BridgedPastChecks (frame : Frame) : Prop :=
  (frame.fromMac ≠ 0 ∧ frame.fromMac ≠ ctx.mac network ∧ frame.fromMac ≠ MAC.fromAddress ctx.peer.address nwid) ∧
    network.config.permitsBridging ctx.peer.address = true ∧ ctx.filterIncomingPacket network frame = 1 ∧
    ctx.destinationAllowed network frame = false

/-- A multicast whose replication is asked of a replicator, with a source that is not allowed. -/
def ForgedReplica (flags : Byte) (multicast : MulticastFrame) : Prop :=
  let frame := multicast.frame
  (flags &&& 0x08 ≠ 0 ∧ network.config.isMulticastReplicator ctx.self = true) ∧ network.config.multicastLimit ≠ 0 ∧
    (0 < frame.frameData.length ∧ frame.frameData.length ≤ 10000) ∧ frame.toMac.isMulticast = true ∧
    ¬ (frame.fromMac = 0 ∨ frame.fromMac.isMulticast = true ∨ frame.fromMac = ctx.mac network) ∧
    ctx.filterIncomingPacket network frame ≠ 2 ∧ ctx.sourceAllowed nwid network frame = false

theorem lawful_only (only : Effect) (lawful : ctx.Lawful only) : ∀ effect ∈ [only], ctx.Lawful effect := by
  intro effect found
  rw [List.mem_singleton.mp found]
  exact lawful

/-- An answer, if it is asked for, and the note that the packet was received. -/
theorem lawful_answer {asked : Prop} [Decidable asked] {answer : Effect} (lawful : ctx.Lawful answer) :
    ∀ effect ∈ (if asked then [answer] else []) ++ [.received true], ctx.Lawful effect := by
  intro effect found
  rcases List.mem_append.mp found with first | last
  · by_cases asked : asked
    · rw [if_pos asked] at first
      rw [List.mem_singleton.mp first]
      exact lawful
    · rw [if_neg asked] at first
      cases first
  · rw [List.mem_singleton.mp last]
    trivial

/-- The checks pass a frame exactly if it is bridged by a bridge or its addresses are allowed. -/
theorem extFrameChecks_iff (frame : Frame) :
    (ctx.extFrameChecks nwid network frame).1 = true ↔
      ctx.sourceAllowed nwid network frame = true ∧
        (frame.fromMac = MAC.fromAddress ctx.peer.address nwid → ctx.destinationAllowed network frame = true) := by
  unfold extFrameChecks sourceAllowed destinationAllowed
  by_cases own : frame.fromMac = MAC.fromAddress ctx.peer.address nwid
  · rw [if_neg (not_not.mpr own)]
    by_cases here : frame.toMac = ctx.mac network
    · have unicast : (ctx.mac network).isMulticast = false := MAC.isMulticast_fromAddress _ _
      rw [if_neg (not_not.mpr here)]
      simp [own, here, unicast]
    · rw [if_pos here]
      cases multicast : frame.toMac.isMulticast with
      | true => simp [own]
      | false => simp [own, here]
  · rw [if_pos own]
    cases bridge : network.config.permitsBridging ctx.peer.address with
    | true => simp [own]
    | false => simp [own]

theorem extFrameChecks_effects (frame : Frame) : ∀ effect ∈ (ctx.extFrameChecks nwid network frame).2, ctx.Lawful effect := by
  intro effect found
  unfold extFrameChecks at found
  by_cases own : frame.fromMac = MAC.fromAddress ctx.peer.address nwid
  · rw [if_neg (not_not.mpr own)] at found
    by_cases here : frame.toMac = ctx.mac network
    · rw [if_neg (not_not.mpr here)] at found
      cases found
    · rw [if_pos here] at found
      cases multicast : frame.toMac.isMulticast with
      | true =>
          rw [multicast] at found
          cases found
      | false =>
          rw [multicast] at found
          cases found
  · rw [if_pos own] at found
    cases bridge : network.config.permitsBridging ctx.peer.address with
    | true =>
        rw [bridge] at found
        rw [List.mem_singleton.mp found]
        trivial
    | false =>
        rw [bridge] at found
        cases found

/-- EXT_FRAME keeps to the policy except for bridged frames past the checks. -/
theorem deliverExtFrame_lawful_iff (flags : Byte) (frame : Frame) :
    (∀ effect ∈ ctx.deliverExtFrame nwid network flags frame, ctx.Lawful effect) ↔
      ¬ ctx.BridgedPastChecks nwid network frame := by
  have ended : ∀ effect ∈ acknowledged nwid flags, ctx.Lawful effect := ctx.lawful_answer trivial
  have noted := ctx.lawful_only (.received true) trivial
  unfold deliverExtFrame
  by_cases unusable : frame.fromMac = 0 ∨ frame.fromMac = ctx.mac network
  · rw [if_pos unusable]
    exact iff_of_true noted fun past => unusable.elim past.1.1 past.1.2.1
  · rw [if_neg unusable]
    have other (verdict : ctx.filterIncomingPacket network frame ≠ 1) : ¬ ctx.BridgedPastChecks nwid network frame :=
      fun past => verdict past.2.2.1
    match verdict : ctx.filterIncomingPacket network frame with
    | 0 => exact iff_of_true ended (other (by rw [verdict]; decide))
    | 1 =>
        dsimp only
        by_cases passed : (ctx.extFrameChecks nwid network frame).1 = true
        · rw [if_pos passed]
          obtain ⟨source, checked⟩ := (ctx.extFrameChecks_iff nwid network frame).mp passed
          have accepted : ctx.Lawful (.putFrame nwid network frame) ↔ ctx.destinationAllowed network frame = true := by
            change (ctx.filterIncomingPacket network frame = 2 ∨ _) ↔ _
            rw [verdict, source]
            simp
          have past : ctx.BridgedPastChecks nwid network frame ↔ ctx.destinationAllowed network frame = false := by
            constructor
            · exact fun past => past.2.2.2
            · intro refused
              have bridged : frame.fromMac ≠ MAC.fromAddress ctx.peer.address nwid := by
                intro own
                rw [checked own] at refused
                cases refused
              have bridge : network.config.permitsBridging ctx.peer.address = true := by
                unfold sourceAllowed at source
                exact (of_decide_eq_true source).resolve_left bridged
              rw [not_or] at unusable
              exact ⟨⟨unusable.1, unusable.2, bridged⟩, bridge, verdict, refused⟩
          rw [past, Bool.not_eq_false, ← accepted]
          constructor
          · intro all
            exact all _ (List.mem_append_right _ List.mem_cons_self)
          · intro lawful effect found
            rcases List.mem_append.mp found with learned | found
            · exact ctx.extFrameChecks_effects nwid network frame effect learned
            · rcases List.mem_cons.mp found with this | answer
              · rw [this]
                exact lawful
              · exact ended effect answer
        · rw [if_neg passed]
          apply iff_of_true noted
          intro past
          apply passed
          rw [ctx.extFrameChecks_iff]
          refine ⟨?_, fun own => absurd own past.1.2.2⟩
          unfold sourceAllowed
          exact decide_eq_true (.inr past.2.1)
    | 2 =>
        apply iff_of_true
        · intro effect found
          rcases List.mem_cons.mp found with this | answer
          · rw [this]
            exact .inl verdict
          · exact ended effect answer
        · exact other (by rw [verdict]; decide)
    | _ + 3 => exact iff_of_true ended (other (by rw [verdict]; omega))

/-- What goes to the tap has passed the check of the source, and its destination was checked before. -/
theorem deliverToTap_lawful (multicast : MulticastFrame) (destination : ctx.destinationAllowed network multicast.frame = true) :
    ∀ effect ∈ ctx.deliverToTap nwid network multicast, ctx.Lawful effect := by
  have ended : ∀ effect ∈ gathered nwid multicast, ctx.Lawful effect := ctx.lawful_answer trivial
  have delivered (source : ctx.sourceAllowed nwid network multicast.frame = true) : ∀ effect ∈
      (if 0 < ctx.filterIncomingPacket network multicast.frame then [.putFrame nwid network multicast.frame] else []) ++
        gathered nwid multicast, ctx.Lawful effect := by
    intro effect found
    rcases List.mem_append.mp found with first | answer
    · by_cases accepted : 0 < ctx.filterIncomingPacket network multicast.frame
      · rw [if_pos accepted] at first
        rw [List.mem_singleton.mp first]
        exact .inr ⟨source, destination⟩
      · rw [if_neg accepted] at first
        cases first
    · exact ended effect answer
  unfold deliverToTap
  dsimp only
  by_cases own : multicast.frame.fromMac = MAC.fromAddress ctx.peer.address nwid
  · rw [if_neg (not_not.mpr own)]
    apply delivered
    unfold sourceAllowed
    exact decide_eq_true (.inl own)
  · rw [if_pos own]
    by_cases bridge : network.config.permitsBridging ctx.peer.address = true
    · rw [if_pos bridge]
      intro effect found
      rcases List.mem_cons.mp found with this | found
      · rw [this]
        trivial
      · apply delivered _ effect found
        unfold sourceAllowed
        exact decide_eq_true (.inr bridge)
    · rw [if_neg bridge]
      exact ctx.lawful_only (.received true) trivial

/-- MULTICAST_FRAME keeps to the policy except for what it replicates unchecked. -/
theorem deliverMulticastFrame_lawful_iff (flags : Byte) (multicast : MulticastFrame) :
    (∀ effect ∈ ctx.deliverMulticastFrame nwid network flags multicast, ctx.Lawful effect) ↔
      ¬ ctx.ForgedReplica nwid network flags multicast := by
  have noted (trust : Bool) := ctx.lawful_only (.received trust) trivial
  unfold deliverMulticastFrame
  dsimp only
  by_cases disabled : network.config.multicastLimit = 0
  · rw [if_pos disabled]
    exact iff_of_true (noted false) fun forged => forged.2.1 disabled
  · rw [if_neg disabled]
    by_cases sized : 0 < multicast.frame.frameData.length ∧ multicast.frame.frameData.length ≤ 10000
    · rw [if_pos sized]
      by_cases group : multicast.frame.toMac.isMulticast = true
      · rw [if_neg (not_not.mpr group)]
        by_cases invalid : multicast.frame.fromMac = 0 ∨ multicast.frame.fromMac.isMulticast = true ∨
            multicast.frame.fromMac = ctx.mac network
        · rw [if_pos invalid]
          exact iff_of_true (noted true) fun forged => forged.2.2.2.2.1 invalid
        · rw [if_neg invalid]
          have destination : ctx.destinationAllowed network multicast.frame = true := by
            unfold destinationAllowed
            exact decide_eq_true ⟨.inr (.inl group), fun _ => disabled⟩
          have tap := ctx.deliverToTap_lawful nwid network multicast destination
          unfold replication
          by_cases asked : flags &&& 0x08 ≠ 0 ∧ network.config.isMulticastReplicator ctx.self = true
          · rw [if_pos asked]
            have forged : ctx.ForgedReplica nwid network flags multicast ↔
                ¬ ctx.Lawful (.replicate nwid network multicast.adi multicast.frame) := by
              change _ ↔ ¬ (_ ∨ _ ∧ _)
              rw [destination, not_or]
              simp only [and_true, Bool.not_eq_true]
              exact ⟨fun forged => forged.2.2.2.2.2, fun rest => ⟨asked, disabled, sized, group, invalid, rest⟩⟩
            rw [forged, not_not]
            constructor
            · exact fun all => all _ (List.mem_append_left _ (List.mem_singleton.mpr rfl))
            · intro lawful effect found
              rcases List.mem_append.mp found with this | found
              · rw [List.mem_singleton.mp this]
                exact lawful
              · exact tap effect found
          · rw [if_neg asked]
            exact iff_of_true tap fun forged => asked forged.1
      · rw [if_pos group]
        exact iff_of_true (noted true) fun forged => group forged.2.2.2.1
    · rw [if_neg sized]
      exact iff_of_true (ctx.lawful_answer trivial) fun forged => sized forged.2.2.1

end Policy

/-- FRAME names neither address, so both are allowed. -/
theorem doFRAME_lawful (packet : List Byte) : ∀ effect ∈ (ctx.doFRAME packet).effects, ctx.Lawful effect := by
  intro effect found
  unfold doFRAME at found
  cases idRead : at64 packet 28 with
  | none =>
      rw [idRead] at found
      cases found
  | some nwid =>
      rw [idRead] at found
      dsimp only at found
      cases joined : ctx.networks nwid with
      | none =>
          rw [joined] at found
          exact ctx.lawful_only (.received false) trivial effect found
      | some network =>
          rw [joined] at found
          dsimp only at found
          by_cases admitted : (network.gate ctx.crypto ctx.peer ctx.now).1 = true
          · rw [if_pos admitted] at found
            by_cases sized : 38 < packet.length
            · rw [if_pos sized] at found
              cases typeRead : at16 packet 36 with
              | none =>
                  rw [typeRead] at found
                  cases found
              | some etherType =>
                  rw [typeRead] at found
                  dsimp only at found
                  split at found
                  · rcases List.mem_cons.mp found with this | found
                    · rw [this]
                      right
                      have unicast := MAC.isMulticast_fromAddress ctx.self (network.gate ctx.crypto ctx.peer ctx.now).2.id
                      unfold sourceAllowed destinationAllowed mac
                      simp [unicast]
                    · exact ctx.lawful_only (.received true) trivial effect found
                  · exact ctx.lawful_only (.received true) trivial effect found
            · rw [if_neg sized] at found
              exact ctx.lawful_only (.received true) trivial effect found
          · rw [if_neg admitted] at found
            exact ctx.lawful_only (.sendErrorNeedCredentials nwid) trivial effect found

inductive FrameVerb
  | frame | extFrame | multicastFrame
deriving DecidableEq, Repr

def handle : FrameVerb → List Byte → Handled
  | .frame => ctx.doFRAME
  | .extFrame => ctx.doEXT_FRAME
  | .multicastFrame => ctx.doMULTICAST_FRAME

/-- The packet is none of those that slip past a check. -/
def Unexceptional (packet : List Byte) : FrameVerb → Prop
  | .frame => True
  | .extFrame => ∀ nwid network flags comLen frame, ctx.admitExtFrame packet = .admitted nwid network flags comLen →
      51 < packet.length → readExtFrame packet comLen = some frame → ¬ ctx.BridgedPastChecks nwid network frame
  | .multicastFrame => ∀ nwid network flags offset multicast,
      ctx.admitMulticastFrame packet = .admitted nwid network flags offset →
      ctx.readMulticastFrame packet nwid flags offset = some multicast →
      ¬ ctx.ForgedReplica nwid network flags multicast

/-- Frames are handed to the tap and replicated by the policy exactly if the packet is not an EXT_FRAME that
bridges to a destination out of bounds, nor a MULTICAST_FRAME that asks for the replication of a forged source. -/
theorem frame_policy_iff (verb : FrameVerb) (packet : List Byte) :
    (∀ effect ∈ (ctx.handle verb packet).effects, ctx.Lawful effect) ↔ ctx.Unexceptional packet verb := by
  have nothing : ∀ effect ∈ ([] : List Effect), ctx.Lawful effect := fun effect found => nomatch found
  cases verb with
  | frame => exact iff_of_true (ctx.doFRAME_lawful packet) trivial
  | extFrame =>
      change (∀ effect ∈ (ctx.doEXT_FRAME packet).effects, _) ↔ _
      unfold doEXT_FRAME Unexceptional
      cases admission : ctx.admitExtFrame packet with
      | threw => exact iff_of_true nothing fun _ _ _ _ _ impossible => nomatch impossible
      | unjoined => exact iff_of_true (ctx.lawful_only (.received false) trivial) fun _ _ _ _ _ impossible => nomatch impossible
      | refused nwid =>
          exact iff_of_true (ctx.lawful_only (.sendErrorNeedCredentials nwid) trivial)
            fun _ _ _ _ _ impossible => nomatch impossible
      | admitted nwid network flags comLen =>
          dsimp only
          by_cases sized : 51 < packet.length
          · rw [if_pos sized]
            cases read : readExtFrame packet comLen with
            | none =>
                apply iff_of_true nothing
                intro nwid network flags comLen frame same _ also
                cases same
                rw [read] at also
                cases also
            | some frame =>
                rw [ctx.deliverExtFrame_lawful_iff]
                constructor
                · intro fine nwid network flags comLen frame same _ also
                  cases same
                  rw [read] at also
                  cases also
                  exact fine
                · exact fun all => all nwid network flags comLen frame rfl sized read
          · rw [if_neg sized]
            exact iff_of_true (ctx.lawful_answer trivial) fun _ _ _ _ _ _ long => absurd long sized
  | multicastFrame =>
      change (∀ effect ∈ (ctx.doMULTICAST_FRAME packet).effects, _) ↔ _
      unfold doMULTICAST_FRAME Unexceptional
      cases admission : ctx.admitMulticastFrame packet with
      | threw => exact iff_of_true nothing fun _ _ _ _ _ impossible => nomatch impossible
      | unjoined => exact iff_of_true nothing fun _ _ _ _ _ impossible => nomatch impossible
      | refused nwid =>
          exact iff_of_true (ctx.lawful_only (.sendErrorNeedCredentials nwid) trivial)
            fun _ _ _ _ _ impossible => nomatch impossible
      | admitted nwid network flags offset =>
          dsimp only
          cases read : ctx.readMulticastFrame packet nwid flags offset with
          | none =>
              apply iff_of_true nothing
              intro nwid network flags offset multicast same also
              cases same
              rw [read] at also
              cases also
          | some multicast =>
              rw [ctx.deliverMulticastFrame_lawful_iff]
              constructor
              · intro fine nwid network flags offset multicast same also
                cases same
                rw [read] at also
                cases also
                exact fine
              · exact fun all => all nwid network flags offset multicast rfl read

end Context

/-- A public network that accepts every frame, where node 9 is a bridge and node 7 replicates multicasts. -/
def bridgedNetwork : Network :=
  ⟨0x1000001, { NetworkConfig.nil with
    networkId := 0x1000001
    issuedTo := 7
    type := 1
    multicastLimit := 32
    rules := [⟨1, {}⟩]
    specialists := [0x20000000009, 0x80000000007] }, 0, false, ∅⟩

/-- Node 7, which hears from a peer. -/
def heardFrom (peer : Address) : Context where
  crypto := ⟨fun _ _ _ => false, fun _ => 0⟩
  RR := ⟨⟨7, 0⟩, fun _ => none⟩
  peer := ⟨peer, 0⟩
  now := 100
  networks := fun nwid => if nwid = 0x1000001 then some bridgedNetwork else none
  prng := fun _ _ => 0
  behind := fun _ => 0

/-- An EXT_FRAME of the network with one byte, from 02:00:00:00:00:0a to 02:00:00:00:00:0b. -/
def bridgedFrame : List Byte :=
  List.replicate 27 0 ++ [7, 0, 0, 0, 0, 1, 0, 0, 1, 0, 2, 0, 0, 0, 0, 0x0b, 2, 0, 0, 0, 0, 0x0a, 8, 0, 0x45]

/-- A MULTICAST_FRAME to everyone that names the same source and asks for replication. -/
def forgedMulticast : List Byte :=
  List.replicate 27 0 ++ [14, 0, 0, 0, 0, 1, 0, 0, 1, 0x0c, 2, 0, 0, 0, 0, 0x0a] ++ List.replicate 6 0xff ++
    [0, 0, 0, 0, 8, 0, 0x45]

/-- The bridge, node 9, reaches a destination that node 7 may not bridge to; node 8, which is no bridge, has a
frame of someone else replicated. -/
theorem frame_policy_broken :
    (¬ ∀ effect ∈ ((heardFrom 9).handle .extFrame bridgedFrame).effects, (heardFrom 9).Lawful effect) ∧
    ¬ ∀ effect ∈ ((heardFrom 8).handle .multicastFrame forgedMulticast).effects, (heardFrom 8).Lawful effect := by
  constructor
  · decide +kernel
  · decide +kernel

end Frames

end ZeroTierNode

import ZeroTierNode.CredentialDelivery
import ZeroTierNode.Frames
import ZeroTierNode.Library.Accesses

/-!
Ethernet frames in packets: what `Switch::onLocalEthernet`, the TEE and REDIRECT
rules, `OutboundMulticast::init` and `Multicaster::send` write is what the handlers of
`Frames` read. Optional fields move those behind them, and the length of a frame is
what is left of the packet.
-/

namespace ZeroTierNode
open Library.Bytes

namespace MAC

/-- `operator[]` at 0. -/
def firstOctet (m : MAC) : Byte := (m >>> 40).setWidth 8

/-- The bits 8 to 48 of the network id, which mask the address in a MAC. -/
def addressMask (nwid : BitVec 64) : MAC :=
  let octet (shift : Nat) : MAC := ((nwid >>> shift) &&& 0xff).setWidth 48
  (((octet 8 <<< 32) ^^^ (octet 16 <<< 24)) ^^^ (octet 24 <<< 16) ^^^ (octet 32 <<< 8)) ^^^ octet 40

def toAddress (m : MAC) (nwid : BitVec 64) : Address :=
  let octet (shift : Nat) : MAC := ((nwid >>> shift) &&& 0xff).setWidth 48
  (((((m &&& (0xffffffffff : MAC)) ^^^ (octet 8 <<< 32)) ^^^ (octet 16 <<< 24)) ^^^ (octet 24 <<< 16) ^^^ (octet 32 <<< 8)) ^^^
    octet 40).setWidth 40

def appendTo (m : MAC) : List Byte := wordBytes 6 m

theorem addressMask_getLsbD (nwid : BitVec 64) {i : Nat} (high : 40 ≤ i) : (addressMask nwid).getLsbD i = false := by
  have octet (shift k : Nat) (beyond : 8 ≤ k) : (((nwid >>> shift) &&& 0xff).setWidth 48).getLsbD k = false := by
    have mask : (0xff : BitVec 64).getLsbD k = false := by
      have above : ¬ k < 8 := by omega
      rw [show (0xff : BitVec 64) = (BitVec.allOnes 8).setWidth 64 by decide, BitVec.getLsbD_setWidth,
        BitVec.getLsbD_allOnes, decide_eq_false above, Bool.and_false]
    rw [BitVec.getLsbD_setWidth, BitVec.getLsbD_and, mask, Bool.and_false, Bool.and_false]
  unfold addressMask
  simp only [BitVec.getLsbD_xor, BitVec.getLsbD_shiftLeft]
  rw [octet 8 _ (by omega), octet 16 _ (by omega), octet 24 _ (by omega), octet 32 _ (by omega),
    octet 40 _ (by omega)]
  simp

theorem fromAddress_eq (ztaddr : Address) (nwid : BitVec 64) :
    fromAddress ztaddr nwid =
      ((firstOctetForNetwork nwid).setWidth 48 <<< 40 ||| ztaddr.setWidth 48) ^^^ addressMask nwid := by
  unfold fromAddress addressMask
  simp only [BitVec.xor_assoc]

theorem toAddress_eq (m : MAC) (nwid : BitVec 64) :
    toAddress m nwid = ((m &&& (0xffffffffff : MAC)) ^^^ addressMask nwid).setWidth 40 := by
  unfold toAddress addressMask
  simp only [BitVec.xor_assoc]

/-- A MAC that belongs to a network is that of the node with its address. -/
theorem fromAddress_toAddress {m : MAC} {nwid : BitVec 64} (own : m.firstOctet = firstOctetForNetwork nwid) :
    fromAddress (m.toAddress nwid) nwid = m := by
  have low (i : Nat) : (0xffffffffff : MAC).getLsbD i = decide (i < 40) := by
    rw [show (0xffffffffff : MAC) = (BitVec.allOnes 40).setWidth 48 by decide, BitVec.getLsbD_setWidth,
      BitVec.getLsbD_allOnes]
    by_cases address : i < 40
    · simp [address, show i < 48 by omega]
    · simp [address]
  apply BitVec.eq_of_getLsbD_eq
  intro i inside
  rw [fromAddress_eq, toAddress_eq, ← own, firstOctet]
  simp only [BitVec.getLsbD_xor, BitVec.getLsbD_or, BitVec.getLsbD_shiftLeft, BitVec.getLsbD_setWidth,
    BitVec.getLsbD_and, BitVec.getLsbD_ushiftRight, low]
  by_cases address : i < 40
  · simp [address, inside]
  · rw [addressMask_getLsbD nwid (show 40 ≤ i by omega)]
    simp [address, inside, show i - 40 < 48 by omega, show i - 40 < 8 by omega, show 40 + (i - 40) = i by omega]

end MAC

namespace Encapsulation
open Buffer CredentialPush CredentialDelivery Frames Library.Accesses

/-- `VERB_FRAME`, `VERB_EXT_FRAME` and `VERB_MULTICAST_FRAME`. -/
def verbByte : Context.FrameVerb → Byte
  | .frame => 0x06
  | .extFrame => 0x07
  | .multicastFrame => 0x0e

/-- The node that sends, the network, and the random bytes of the packet. -/
structure Sender where
  self : Address
  nwid : BitVec 64
  fresh : BitVec 64 × BitVec 64

/-- `Network::mac` of the sender. -/
def Sender.mac (s : Sender) : MAC := MAC.fromAddress s.self s.nwid

/-- A packet with a frame, up to its fields. -/
structure Layout where
  verb : Context.FrameVerb
  dest : Address
  flags : Byte
  fields : List (List Byte)
  compressed : Bool

/-- The packet that is handed to the switch; `append` throws when it is full. -/
def Layout.packet (pack : List Byte → List Byte) (s : Sender) (layout : Layout) : Option (List Byte) := do
  let outp ← layout.fields.foldlM append (newPacket s.fresh.1 s.fresh.2 layout.dest s.self (verbByte layout.verb))
  return if layout.compressed then Packet.compress pack outp else outp

section Writers

variable (s : Sender) (frame : Frame)

def frameLayout (dest : Address) : Layout where
  verb := .frame
  dest := dest
  flags := 0
  fields := [wordBytes 8 s.nwid, wordBytes 2 frame.etherType, frame.frameData]
  compressed := false

def extFrameLayout (dest : Address) (flags : Byte) : Layout where
  verb := .extFrame
  dest := dest
  flags := flags
  fields := [wordBytes 8 s.nwid, wordBytes 1 flags, frame.toMac.appendTo, frame.fromMac.appendTo, wordBytes 2 frame.etherType,
    frame.frameData]
  compressed := false

/-- Gather limit and source are optional. -/
def multicastLayout (dest : Address) (flags : Byte) (gatherLimit : Option (BitVec 32)) (src : Option MAC)
    (adi : BitVec 32) : Layout where
  verb := .multicastFrame
  dest := dest
  flags := flags
  fields := [wordBytes 8 s.nwid, wordBytes 1 flags] ++ gatherLimit.toList.map (wordBytes 4) ++
    src.toList.map MAC.appendTo ++ [frame.toMac.appendTo, wordBytes 4 adi, wordBytes 2 frame.etherType, frame.frameData]
  compressed := true

/-- `Switch::onLocalEthernet` to another node of the network. -/
def toPeer : Layout :=
  let toZT := frame.toMac.toAddress s.nwid
  if frame.fromMac = s.mac then frameLayout s frame toZT else extFrameLayout s frame toZT 0x00

/-- `Switch::onLocalEthernet` to a bridge. -/
def toBridge (bridge : Address) : Layout := extFrameLayout s frame bridge 0x00

/-- TEE, in `filterOutgoingPacket` and in `filterIncomingPacket`. -/
def tee (inbound ccWatch : Bool) (cc : Address) (ccLength : Nat) : Layout :=
  let flags : Byte := if inbound then if ccWatch then 0x1c else 0x08 else if ccWatch then 0x16 else 0x02
  extFrameLayout s { frame with frameData := frame.frameData.take ccLength } cc flags

/-- REDIRECT, in `filterOutgoingPacket` and in `filterIncomingPacket`. -/
def redirect (inbound : Bool) (ztFinalDest : Address) : Layout :=
  extFrameLayout s frame ztFinalDest (if inbound then 0x0a else 0x04)

/-- `OutboundMulticast::init` and `sendOnly`: a source of zero is left out. -/
def outboundMulticast (toAddr : Address) (gatherLimit adi : BitVec 32) : Layout :=
  let flags : Byte := (if frame.fromMac ≠ 0 then 0x04 else 0) ||| (if gatherLimit ≠ 0 then 0x02 else 0)
  multicastLayout s { frame with frameData := frame.frameData.take 10000 } toAddr flags
    (if gatherLimit ≠ 0 then some gatherLimit else none) (if frame.fromMac ≠ 0 then some frame.fromMac else none) adi

/-- `Multicaster::send` to the best multicast replicator: a source of zero is filled in. -/
def toReplicator (replicator : Address) (adi : BitVec 32) : Layout :=
  multicastLayout s frame replicator 0x0c none (some (if frame.fromMac ≠ 0 then frame.fromMac else s.mac)) adi

end Writers

/-- The ways to send a frame. -/
inductive Sending
  | toPeer
  | toBridge (bridge : Address)
  | tee (inbound ccWatch : Bool) (cc : Address) (ccLength : Nat)
  | redirect (inbound : Bool) (ztFinalDest : Address)
  | outboundMulticast (toAddr : Address) (gatherLimit adi : BitVec 32)
  | toReplicator (replicator : Address) (adi : BitVec 32)

namespace Sending

def layout (s : Sender) (frame : Frame) : Sending → Layout
  | toPeer => Encapsulation.toPeer s frame
  | toBridge bridge => Encapsulation.toBridge s frame bridge
  | tee inbound ccWatch cc ccLength => Encapsulation.tee s frame inbound ccWatch cc ccLength
  | redirect inbound ztFinalDest => Encapsulation.redirect s frame inbound ztFinalDest
  | outboundMulticast toAddr gatherLimit adi => Encapsulation.outboundMulticast s frame toAddr gatherLimit adi
  | toReplicator replicator adi => Encapsulation.toReplicator s frame replicator adi

/-- What the receiver is meant to get: a copy may be cut, and a multicast without a source is from its sender. -/
def meant (s : Sender) (frame : Frame) : Sending → Context.MulticastFrame
  | toPeer | toBridge _ | redirect _ _ => ⟨0, 0, frame⟩
  | tee _ _ _ ccLength => ⟨0, 0, { frame with frameData := frame.frameData.take ccLength }⟩
  | outboundMulticast _ gatherLimit adi =>
      ⟨gatherLimit, adi, { frame with fromMac := if frame.fromMac ≠ 0 then frame.fromMac else s.mac }⟩
  | toReplicator _ adi => ⟨0, adi, { frame with fromMac := if frame.fromMac ≠ 0 then frame.fromMac else s.mac }⟩

/-- The condition on which `onLocalEthernet` takes this way. -/
def Taken (s : Sender) (frame : Frame) : Sending → Prop
  | toPeer => frame.toMac.firstOctet = MAC.firstOctetForNetwork s.nwid
  | _ => True

end Sending

/-- The receiver has joined the network, hears from the sender, and lets it in. -/
structure Joined (ctx : Context) (s : Sender) (network after : Network) : Prop where
  peer : ctx.peer.address = s.self
  joined : ctx.networks s.nwid = some network
  named : network.id = s.nwid
  admitted : network.gate ctx.crypto ctx.peer ctx.now = (true, after)

/-- What the handlers do with a frame that they have read: everything is decided on, and done with, this frame. -/
def judged (ctx : Context) (nwid : BitVec 64) (network : Network) (flags : Byte) (m : Context.MulticastFrame) :
    Context.FrameVerb → List Effect
  | .frame =>
      if 0 < ctx.filterIncomingPacket network m.frame then [.putFrame nwid network m.frame, .received true]
      else [.received true]
  | .extFrame => ctx.deliverExtFrame nwid network flags m.frame
  | .multicastFrame => ctx.deliverMulticastFrame nwid network flags m

section Reading

variable {s : Sender} {ctx : Context} {network after : Network} (joined : Joined ctx s network after)
  {frame : Frame} {packet : List Byte}

theorem gate_id {crypto : Crypto} {net : Network} {peer : Identity} {now : Int} :
    (net.gate crypto peer now).2.id = net.id := by
  unfold Network.gate
  split
  · dsimp only
    split <;> rfl
  · rfl

/-- The payload is what stands behind the other fields. -/
theorem drop_fields {front data : List Byte} {n : Nat} (here : packet.drop 28 = front ++ data)
    (length : front.length = n) : packet.drop (28 + n) = data := by
  rw [← List.drop_drop, here, List.drop_left' length]

include joined

theorem doFRAME_reads (dest : Address) (here : packet.drop 28 = (frameLayout s frame dest).fields.flatten)
    (nonempty : frame.frameData ≠ []) (fromMac : frame.fromMac = s.mac)
    (toMac : frame.toMac = MAC.fromAddress ctx.self s.nwid) :
    ctx.doFRAME packet = ⟨some true, judged ctx s.nwid after 0 ⟨0, 0, frame⟩ .frame⟩ := by
  have standing : Stands ((frameLayout s frame dest).fields.flatten ++ []) packet 28 := by
    rw [List.append_nil, Stands, here]
  simp only [frameLayout, List.flatten_cons, List.flatten_nil, List.append_nil] at standing here
  obtain ⟨nwid, standing⟩ := atWord_of_stands (by decide : 64 ≤ 8 * 8) (by decide) standing
  obtain ⟨etherType, standing⟩ := atWord_of_stands (by decide : 16 ≤ 8 * 2) (by decide) standing
  have size := standing.inside nonempty
  have some_byte := List.length_pos_iff.mpr nonempty
  have data : packet.drop 38 = frame.frameData := by
    rw [← List.append_assoc] at here
    exact @drop_fields packet _ frame.frameData 10 here (by simp)
  have whole : (⟨MAC.fromAddress ctx.peer.address s.nwid, ctx.mac after, frame.etherType, packet.drop 38⟩ : Frame) =
      frame := by
    have id : after.id = s.nwid := by
      have kept := @gate_id ctx.crypto network ctx.peer ctx.now
      rw [joined.admitted] at kept
      exact kept.trans joined.named
    rw [data, joined.peer, ← Sender.mac, ← fromMac, Context.mac, id, ← toMac]
  unfold Context.doFRAME judged
  rw [at64, nwid]
  dsimp only
  rw [joined.joined]
  dsimp only
  rw [joined.admitted]
  dsimp only
  rw [if_pos rfl, if_pos (by omega), at16, etherType]
  dsimp only
  rw [whole]
  by_cases accepted : 0 < ctx.filterIncomingPacket after frame
  · rw [if_pos accepted, if_pos accepted]
  · rw [if_neg accepted, if_neg accepted]

/-- Without an inline certificate, nothing moves the fields. -/
theorem passGate_plain {flags : Byte} (plain : flags &&& 0x01 = 0) :
    ctx.passGate s.nwid network flags packet = .admitted s.nwid after flags 0 := by
  unfold Context.passGate Context.inlineCom
  rw [plain, if_neg (not_not.mpr rfl)]
  dsimp only
  rw [joined.admitted]
  rfl

theorem doEXT_FRAME_reads (dest : Address) (flags : Byte) (plain : flags &&& 0x01 = 0)
    (here : packet.drop 28 = (extFrameLayout s frame dest flags).fields.flatten) (nonempty : frame.frameData ≠ []) :
    ctx.doEXT_FRAME packet = ⟨some true, judged ctx s.nwid after flags ⟨0, 0, frame⟩ .extFrame⟩ := by
  have standing : Stands ((extFrameLayout s frame dest flags).fields.flatten ++ []) packet 28 := by
    rw [List.append_nil, Stands, here]
  simp only [extFrameLayout, List.flatten_cons, List.flatten_nil, List.append_nil] at standing here
  obtain ⟨nwid, standing⟩ := atWord_of_stands (by decide : 64 ≤ 8 * 8) (by decide) standing
  obtain ⟨flagsRead, standing⟩ := atWord_of_stands (by decide : 8 ≤ 8 * 1) (by decide) standing
  obtain ⟨toMac, standing⟩ := atWord_of_stands (by decide : 48 ≤ 8 * 6) (by decide) standing
  obtain ⟨fromMac, standing⟩ := atWord_of_stands (by decide : 48 ≤ 8 * 6) (by decide) standing
  obtain ⟨etherType, standing⟩ := atWord_of_stands (by decide : 16 ≤ 8 * 2) (by decide) standing
  have size := standing.inside nonempty
  have some_byte := List.length_pos_iff.mpr nonempty
  have data : packet.drop 51 = frame.frameData := by
    simp only [← List.append_assoc] at here
    exact @drop_fields packet _ frame.frameData 23 here (by simp [MAC.appendTo])
  have read : Context.readExtFrame packet 0 = some frame := by
    unfold Context.readExtFrame
    rw [at16, etherType, toMac, fromMac, Nat.zero_add, data]
    rfl
  unfold Context.doEXT_FRAME Context.admitExtFrame judged
  rw [at64, nwid]
  dsimp only
  rw [joined.joined]
  dsimp only
  rw [at8, flagsRead]
  dsimp only
  rw [passGate_plain joined plain]
  dsimp only
  rw [if_pos (by omega), read]

omit joined in
/-- The fields from the group on, wherever they stand. -/
theorem group_reads {p : Nat} {adi : BitVec 32} (here : packet.drop p =
    frame.toMac.appendTo ++ (wordBytes 4 adi ++ (wordBytes 2 frame.etherType ++ frame.frameData))) :
    atWord 48 6 packet p = some frame.toMac ∧ at32 packet (p + 6) = some adi ∧
      at16 packet (p + 10) = some frame.etherType ∧ packet.drop (p + 12) = frame.frameData := by
  have standing : Stands (frame.toMac.appendTo ++ (wordBytes 4 adi ++ (wordBytes 2 frame.etherType ++
      frame.frameData))) packet p := by
    rw [Stands, here]
  obtain ⟨toMac, standing⟩ := atWord_of_stands (by decide : 48 ≤ 8 * 6) (by decide) standing
  obtain ⟨adiRead, standing⟩ := atWord_of_stands (by decide : 32 ≤ 8 * 4) (by decide) standing
  obtain ⟨etherType, -⟩ := atWord_of_stands (by decide : 16 ≤ 8 * 2) (by decide) standing
  refine ⟨toMac, adiRead, etherType, ?_⟩
  simp only [← List.append_assoc] at here
  rw [← List.drop_drop, here, List.drop_left' (by simp [MAC.appendTo])]

omit joined in
/-- The optional fields of a MULTICAST_FRAME one after the other, and the group behind them. -/
theorem readMulticastFrame_eq (nwid : BitVec 64) (flags : Byte) (offset : Nat) :
    ctx.readMulticastFrame packet nwid flags offset =
      (if flags &&& 0x02 ≠ 0 then at32 packet (offset + 37) else some 0).bind fun gatherLimit =>
        let source := offset + if flags &&& 0x02 ≠ 0 then 4 else 0
        (if flags &&& 0x04 ≠ 0 then atWord 48 6 packet (source + 37)
          else some (MAC.fromAddress ctx.peer.address nwid)).bind fun fromMac =>
            let group := source + if flags &&& 0x04 ≠ 0 then 6 else 0
            (atWord 48 6 packet (group + 37)).bind fun toMac => (at32 packet (group + 43)).bind fun adi =>
              (at16 packet (group + 47)).bind fun etherType =>
                some ⟨gatherLimit, adi, fromMac, toMac, etherType, packet.drop (group + 49)⟩ := by
  unfold Context.readMulticastFrame
  split_ifs <;> rfl

theorem doMULTICAST_FRAME_reads (dest : Address) (flags : Byte) (gatherLimit : Option (BitVec 32)) (src : Option MAC)
    (adi : BitVec 32) (plain : flags &&& 0x01 = 0) (gathers : flags &&& 0x02 ≠ 0 ↔ gatherLimit.isSome)
    (names : flags &&& 0x04 ≠ 0 ↔ src.isSome)
    (here : packet.drop 28 = (multicastLayout s frame dest flags gatherLimit src adi).fields.flatten) :
    ctx.doMULTICAST_FRAME packet = ⟨some true, judged ctx s.nwid after flags
      ⟨gatherLimit.getD 0, adi, { frame with fromMac := src.getD s.mac }⟩ .multicastFrame⟩ := by
  let group := frame.toMac.appendTo ++ (wordBytes 4 adi ++ (wordBytes 2 frame.etherType ++ frame.frameData))
  let sourced := (src.toList.map MAC.appendTo).flatten ++ group
  have whole : packet.drop 28 = wordBytes 8 s.nwid ++ (wordBytes 1 flags ++
      ((gatherLimit.toList.map (wordBytes 4)).flatten ++ sourced)) := by
    rw [here]
    simp [multicastLayout, sourced, group]
  have standing : Stands (wordBytes 8 s.nwid ++ (wordBytes 1 flags ++
      ((gatherLimit.toList.map (wordBytes 4)).flatten ++ sourced))) packet 28 := by
    rw [Stands, whole]
  obtain ⟨nwid, standing⟩ := atWord_of_stands (by decide : 64 ≤ 8 * 8) (by decide) standing
  obtain ⟨flagsRead, -⟩ := atWord_of_stands (by decide : 8 ≤ 8 * 1) (by decide) standing
  have optional : packet.drop 37 = (gatherLimit.toList.map (wordBytes 4)).flatten ++ sourced := by
    rw [← List.append_assoc] at whole
    exact @drop_fields packet _ _ 9 whole (by simp)
  let offset := if flags &&& 0x02 ≠ 0 then 4 else 0
  have gatherRead : (if flags &&& 0x02 ≠ 0 then at32 packet 37 else some 0) = some (gatherLimit.getD 0) ∧
      packet.drop (offset + 37) = sourced := by
    simp only [offset]
    cases gatherLimit with
    | none =>
        have unset : ¬ flags &&& 0x02 ≠ 0 := fun set => by cases gathers.mp set
        rw [if_neg unset, if_neg unset]
        exact ⟨rfl, optional⟩
    | some gatherLimit =>
        have set := gathers.mpr rfl
        rw [show ((some gatherLimit).toList.map (wordBytes 4)).flatten = wordBytes 4 gatherLimit by simp] at optional
        have here : Stands (wordBytes 4 gatherLimit ++ sourced) packet 37 := by rw [Stands, optional]
        obtain ⟨read, -⟩ := atWord_of_stands (by decide : 32 ≤ 8 * 4) (by decide) here
        rw [if_pos set, if_pos set, Nat.add_comm, ← List.drop_drop, optional, List.drop_left' (wordBytes_length 4 _)]
        exact ⟨read, rfl⟩
  obtain ⟨gatherRead, sourcedHere⟩ := gatherRead
  let place := offset + if flags &&& 0x04 ≠ 0 then 6 else 0
  have sourceRead : (if flags &&& 0x04 ≠ 0 then atWord 48 6 packet (offset + 37)
        else some (MAC.fromAddress ctx.peer.address s.nwid)) = some (src.getD s.mac) ∧
      packet.drop (place + 37) = group := by
    simp only [place]
    cases src with
    | none =>
        have unset : ¬ flags &&& 0x04 ≠ 0 := fun set => by cases names.mp set
        rw [if_neg unset, if_neg unset, joined.peer]
        exact ⟨rfl, sourcedHere⟩
    | some src =>
        have set := names.mpr rfl
        rw [show sourced = src.appendTo ++ group by simp [sourced]] at sourcedHere
        have here : Stands (src.appendTo ++ group) packet (offset + 37) := by rw [Stands, sourcedHere]
        obtain ⟨read, -⟩ := atWord_of_stands (by decide : 48 ≤ 8 * 6) (by decide) here
        rw [if_pos set, if_pos set, show offset + 6 + 37 = offset + 37 + 6 by omega, ← List.drop_drop, sourcedHere,
          MAC.appendTo, List.drop_left' (wordBytes_length 6 _)]
        exact ⟨read, rfl⟩
  obtain ⟨sourceRead, groupHere⟩ := sourceRead
  obtain ⟨toMac, adiRead, etherType, data⟩ := group_reads groupHere
  have read : ctx.readMulticastFrame packet s.nwid flags 0 =
      some ⟨gatherLimit.getD 0, adi, { frame with fromMac := src.getD s.mac }⟩ := by
    rw [readMulticastFrame_eq]
    dsimp only
    rw [Nat.zero_add, Nat.zero_add, gatherRead, Option.bind_some, sourceRead, Option.bind_some, toMac, Option.bind_some]
    rw [adiRead, Option.bind_some, etherType, Option.bind_some, data]
  unfold Context.doMULTICAST_FRAME Context.admitMulticastFrame judged
  rw [at64, nwid, at8, flagsRead]
  dsimp only
  rw [joined.joined]
  dsimp only
  rw [passGate_plain joined plain]
  dsimp only
  rw [read]

end Reading

section RoundTrip

variable {s : Sender} {pack : List Byte → List Byte} {unpack : List Byte → Option (List Byte)} {sent : List Byte}

/-- The packet that is uncompressed again holds the fields that were appended. -/
theorem packet_opens (inverse : Inverse pack unpack) {layout : Layout} (written : layout.packet pack s = some sent) :
    layout.fields.flatten.length ≤ 9996 ∧
      ∃ packet, Packet.uncompress unpack sent = some packet ∧ packet.drop 28 = layout.fields.flatten := by
  let header := newPacket s.fresh.1 s.fresh.2 layout.dest s.self (verbByte layout.verb)
  have sound : Header header := header_of_verb _ _ _ _ (by cases layout.verb <;> decide)
  have most : Packet.maxPacketLength = 10024 := rfl
  have length : (header ++ layout.fields.flatten).length = 28 + layout.fields.flatten.length := by
    rw [List.length_append, sound.long]
  have plain : Packet.compressed (header ++ layout.fields.flatten) = false := sound.compressed _
  have behind : (header ++ layout.fields.flatten).drop 28 = layout.fields.flatten := List.drop_left' sound.long
  unfold Layout.packet at written
  rw [foldlM_append_eq (by rw [sound.long]; decide), sound.long] at written
  by_cases fits : 28 + layout.fields.flatten.length ≤ Packet.maxPacketLength
  · rw [if_pos fits] at written
    have same := Option.some.inj written
    refine ⟨by omega, header ++ layout.fields.flatten, ?_, behind⟩
    rw [← same]
    split_ifs
    · refine Packet.uncompress_compress (by rw [length]; omega) plain (by rw [length]; exact fits) (inverse _ ?_)
      rw [behind]
      omega
    · rw [Packet.uncompress, plain, if_neg (by simp)]
  · rw [if_neg fits] at written
    cases written

variable {ctx : Context} {network after : Network} (joined : Joined ctx s network after) {frame : Frame}

include joined

omit joined in
/-- The flags of a multicast tell which of the optional fields there are. -/
theorem multicast_flags (src : MAC) (gatherLimit : BitVec 32) :
    ((if src ≠ 0 then 0x04 else 0) ||| (if gatherLimit ≠ 0 then 0x02 else 0) : Byte) &&& 0x01 = 0 ∧
      (((if src ≠ 0 then 0x04 else 0) ||| (if gatherLimit ≠ 0 then 0x02 else 0) : Byte) &&& 0x02 ≠ 0 ↔
        (if gatherLimit ≠ 0 then some gatherLimit else none).isSome) ∧
      (((if src ≠ 0 then 0x04 else 0) ||| (if gatherLimit ≠ 0 then 0x02 else 0) : Byte) &&& 0x04 ≠ 0 ↔
        (if src ≠ 0 then some src else none).isSome) := by
  split_ifs <;> simp

/-- A frame that is sent is the one on which the receiver's handler decides. -/
theorem handle_judged (inverse : Inverse pack unpack) (sending : Sending) (taken : sending.Taken s frame)
    (reached : ctx.self = (sending.layout s frame).dest) (written : (sending.layout s frame).packet pack s = some sent)
    (nonempty : (sending.meant s frame).frame.frameData ≠ []) :
    ∃ packet, Packet.uncompress unpack sent = some packet ∧
      ctx.handle (sending.layout s frame).verb packet = ⟨some true,
        judged ctx s.nwid after (sending.layout s frame).flags (sending.meant s frame) (sending.layout s frame).verb⟩ := by
  obtain ⟨short, packet, opened, here⟩ := packet_opens inverse written
  refine ⟨packet, opened, ?_⟩
  have ext (dest : Address) (flags : Byte) (copy : Frame) (plain : flags &&& 0x01 = 0)
      (fields : packet.drop 28 = (extFrameLayout s copy dest flags).fields.flatten) (some_data : copy.frameData ≠ []) :
      ctx.handle .extFrame packet = ⟨some true, judged ctx s.nwid after flags ⟨0, 0, copy⟩ .extFrame⟩ :=
    doEXT_FRAME_reads joined dest flags plain fields some_data
  have none_set : (0x00 : Byte) &&& 0x01 = 0 := by decide
  cases sending with
  | toPeer =>
      change ctx.self = (toPeer s frame).dest at reached
      change packet.drop 28 = (toPeer s frame).fields.flatten at here
      change ctx.handle (toPeer s frame).verb packet = ⟨some true, judged ctx s.nwid after (toPeer s frame).flags
        ⟨0, 0, frame⟩ (toPeer s frame).verb⟩
      unfold toPeer at here reached ⊢
      dsimp only at here reached ⊢
      by_cases own : frame.fromMac = s.mac
      · rw [if_pos own] at here reached ⊢
        apply doFRAME_reads joined _ here nonempty own
        rw [reached]
        exact (MAC.fromAddress_toAddress taken).symm
      · rw [if_neg own] at here ⊢
        exact ext _ _ _ none_set here nonempty
  | toBridge bridge => exact ext _ _ _ none_set here nonempty
  | tee inbound ccWatch cc ccLength =>
      have plain : (if inbound then if ccWatch then 0x1c else 0x08 else if ccWatch then 0x16 else 0x02 : Byte) &&& 0x01 =
          0 := by
        cases inbound <;> cases ccWatch <;> decide
      exact ext _ _ _ plain here nonempty
  | redirect inbound ztFinalDest =>
      have plain : (if inbound then 0x0a else 0x04 : Byte) &&& 0x01 = 0 := by
        cases inbound <;> decide
      exact ext _ _ _ plain here nonempty
  | outboundMulticast toAddr gatherLimit adi =>
      let cut : Frame := { frame with frameData := frame.frameData.take 10000 }
      have whole : frame.frameData.take 10000 = frame.frameData := by
        have data : (frame.frameData.take 10000).length ≤ 9996 := by
          refine le_trans ?_ short
          change _ ≤ (multicastLayout s cut toAddr _ _ _ adi).fields.flatten.length
          simp only [multicastLayout, List.flatten_append, List.flatten_cons, List.length_append, cut]
          omega
        rw [List.length_take] at data
        exact List.take_of_length_le (by omega)
      have bits := multicast_flags frame.fromMac gatherLimit
      have handled := doMULTICAST_FRAME_reads joined toAddr _ _ _ adi bits.1 bits.2.1 bits.2.2 here
      have limit : (if gatherLimit ≠ 0 then some gatherLimit else none).getD 0 = gatherLimit := by
        split_ifs with given
        · rfl
        · exact (not_not.mp given).symm
      have source : (if frame.fromMac ≠ 0 then some frame.fromMac else none).getD s.mac =
          if frame.fromMac ≠ 0 then frame.fromMac else s.mac := by
        split_ifs <;> rfl
      dsimp only at handled
      rw [limit, source, whole] at handled
      exact handled
  | toReplicator replicator adi =>
      exact doMULTICAST_FRAME_reads joined replicator 0x0c none (some _) adi (by decide) (by decide) (by simp) here

end RoundTrip

section Accesses

/-- The flow ids of TCP, UDP, SCTP and UDPLite. -/
def hasPorts (proto : Byte) : Bool := proto = 0x06 ∨ proto = 0x11 ∨ proto = 0x84 ∨ proto = 0x88

/-- Both ports at a position of the packet, and the protocol. -/
def portsAt (packet : List Byte) (pos : Nat) (proto : Byte) : Access (BitVec 32) := do
  let srcHigh ← rawByte packet pos
  let srcLow ← rawByte packet (pos + 1)
  let dstHigh ← rawByte packet (pos + 2)
  let dstLow ← rawByte packet (pos + 3)
  return ((dstHigh ++ dstLow) ^^^ (srcHigh ++ srcLow)).setWidth 32 ^^^ proto.setWidth 32

/-- The flow id of an IPv4 packet; `none` is `ZT_QOS_NO_FLOW`. -/
def ipv4Flow (packet : List Byte) (payloadAt frameLen : Nat) : Access (Option (BitVec 32)) := do
  let proto ← rawByte packet (payloadAt + 9)
  let first ← rawByte packet payloadAt
  let headerLen := 4 * (first &&& 0xf).toNat
  if hasPorts proto ∧ headerLen + 4 < frameLen then
    let flowId ← portsAt packet (payloadAt + headerLen) proto
    return some flowId
  else return none

/-- Hop-by-hop, routing, destination and mobility options. -/
def isOption (proto : Byte) : Bool := proto = 0 ∨ proto = 43 ∨ proto = 60 ∨ proto = 135

/-- The loop of `_ipv6GetPayload`; whether the packet is valid is not asked. -/
def ipv6GetPayload (packet : List Byte) (payloadAt frameLen pos : Nat) (proto : Byte) : Access (Nat × Byte) :=
  if frameLen < pos then .ok (pos, proto)
  else if isOption proto then
    if frameLen < pos + 8 then .ok (pos, proto)
    else do
      let next ← rawByte packet (payloadAt + pos)
      let length ← rawByte packet (payloadAt + pos + 1)
      ipv6GetPayload packet payloadAt frameLen (pos + length.toNat * 8 + 8) next
  else .ok (pos, proto)
termination_by frameLen + 1 - pos

def ipv6Flow (packet : List Byte) (payloadAt frameLen : Nat) : Access (Option (BitVec 32)) := do
  let proto ← rawByte packet (payloadAt + 6)
  let (pos, proto) ← ipv6GetPayload packet payloadAt frameLen 40 proto
  if hasPorts proto ∧ pos + 4 < frameLen then
    let flowId ← portsAt packet (payloadAt + pos) proto
    return some flowId
  else return none

/-- The flow id that FRAME and EXT_FRAME compute before they look for the network. -/
def flowId (packet : List Byte) (etherTypeAt payloadAt : Nat) : Access (Option (BitVec 32)) :=
  if payloadAt < packet.length then do
    let etherType ← checkedWord 16 2 packet etherTypeAt
    let frameLen := difference packet.length payloadAt
    if etherType = 0x0800 ∧ 20 ≤ frameLen then ipv4Flow packet payloadAt frameLen
    else if etherType = 0x86dd ∧ 40 ≤ frameLen then ipv6Flow packet payloadAt frameLen
    else return none
  else return none

/-- The reads of FRAME behind the gate, where there is a payload. -/
def accessFrame (packet : List Byte) : Access (BitVec 16 × List Byte) := do
  let etherType ← checkedWord 16 2 packet 36
  let frameLen := difference packet.length 38
  let frameData ← rawRange packet 38 frameLen
  return (etherType, frameData)

/-- The reads of EXT_FRAME behind the gate. -/
def accessExtFrame (packet : List Byte) (comLen : Nat) : Access Frame := do
  let etherType ← checkedWord 16 2 packet (comLen + 49)
  let toMac ← checkedWord 48 6 packet (comLen + 37)
  let fromMac ← checkedWord 48 6 packet (comLen + 43)
  let frameLen := difference packet.length (comLen + 51)
  let frameData ← checkedRange packet (comLen + 51) frameLen
  return ⟨fromMac, toMac, etherType, frameData⟩

/-- The place of the multicast group, behind the optional fields. -/
def groupOffset (flags : Byte) (offset : Nat) : Nat :=
  (offset + if flags &&& 0x02 ≠ 0 then 4 else 0) + if flags &&& 0x04 ≠ 0 then 6 else 0

/-- The reads from the multicast group on; an empty frame is not read. -/
def accessGroup (packet : List Byte) (offset : Nat) : Access (MAC × BitVec 32 × BitVec 16 × List Byte) := do
  let toMac ← checkedWord 48 6 packet (offset + 37)
  let adi ← checkedWord 32 4 packet (offset + 43)
  let etherType ← checkedWord 16 2 packet (offset + 47)
  let frameLen := difference packet.length (offset + 49)
  let frameData ← optionally (0 < frameLen ∧ frameLen ≤ 10000) (checkedRange packet (offset + 49) frameLen) []
  return (toMac, adi, etherType, frameData)

/-- The reads of MULTICAST_FRAME behind the gate. -/
def accessMulticastFrame (ctx : Context) (packet : List Byte) (nwid : BitVec 64) (flags : Byte) (offset : Nat) :
    Access Context.MulticastFrame := do
  let gatherLimit ← optionally (flags &&& 0x02 ≠ 0) (checkedWord 32 4 packet (offset + 37)) 0
  let offset := offset + if flags &&& 0x02 ≠ 0 then 4 else 0
  let fromMac ← optionally (flags &&& 0x04 ≠ 0) (checkedWord 48 6 packet (offset + 37))
    (MAC.fromAddress ctx.peer.address nwid)
  let (toMac, adi, etherType, frameData) ← accessGroup packet (offset + if flags &&& 0x04 ≠ 0 then 6 else 0)
  return ⟨gatherLimit, adi, fromMac, toMac, etherType, frameData⟩

variable {packet : List Byte}

theorem safe_portsAt {pos : Nat} (inside : pos + 3 < packet.length) (proto : Byte) :
    Safe (portsAt packet pos proto) := by
  apply safe_bind (safe_rawByte (by omega))
  intro srcHigh _
  apply safe_bind (safe_rawByte (by omega))
  intro srcLow _
  apply safe_bind (safe_rawByte (by omega))
  intro dstHigh _
  apply safe_bind (safe_rawByte inside)
  intro dstLow _
  exact safe_ok _

theorem safe_ipv6GetPayload {payloadAt frameLen : Nat} (whole : payloadAt + frameLen = packet.length) (pos : Nat)
    (proto : Byte) : Safe (ipv6GetPayload packet payloadAt frameLen pos proto) := by
  induction pos, proto using ipv6GetPayload.induct frameLen with
  | case1 pos proto beyond =>
      rw [ipv6GetPayload, if_pos beyond]
      exact safe_ok _
  | case2 pos proto within isOption short =>
      rw [ipv6GetPayload, if_neg within, if_pos isOption, if_pos short]
      exact safe_ok _
  | case3 pos proto within isOption long ih =>
      rw [ipv6GetPayload, if_neg within, if_pos isOption, if_neg long]
      apply safe_bind (safe_rawByte (by omega))
      intro next _
      apply safe_bind (safe_rawByte (by omega))
      intro length _
      exact ih next length
  | case4 pos proto within other =>
      rw [ipv6GetPayload, if_neg within, if_neg other]
      exact safe_ok _

/-- The flow id is computed from bytes of the packet, whatever its length. -/
theorem safe_flowId (small : packet.length < 2 ^ 32) {etherTypeAt payloadAt : Nat} (before : etherTypeAt + 2 < 2 ^ 32) :
    Safe (flowId packet etherTypeAt payloadAt) := by
  apply safe_ite
  · intro sized
    have frameLen := difference_eq small (le_of_lt sized)
    apply safe_bind
    · rw [checkedWord_eq before]
      exact safe_orThrow _
    intro etherType _
    dsimp only
    rw [frameLen]
    apply safe_ite
    · intro ipv4
      apply safe_bind (safe_rawByte (by omega))
      intro proto _
      apply safe_bind (safe_rawByte (by omega))
      intro first _
      apply safe_ite
      · intro ports
        apply safe_bind (safe_portsAt (by omega) proto)
        exact fun _ _ => safe_ok _
      · exact fun _ => safe_ok _
    · intro _
      apply safe_ite
      · intro ipv6
        apply safe_bind (safe_rawByte (by omega))
        intro proto _
        apply safe_bind (safe_ipv6GetPayload (by omega) 40 proto)
        intro found _
        apply safe_ite
        · intro ports
          apply safe_bind (safe_portsAt (by omega) found.2)
          exact fun _ _ => safe_ok _
        · exact fun _ => safe_ok _
      · exact fun _ => safe_ok _
  · exact fun _ => safe_ok _

/-- A certificate does not reach beyond the packet that it was read from. -/
theorem com_inside {startAt taken : Nat} {com : CertificateOfMembership}
    (read : CertificateOfMembership.deserialize packet startAt = some (com, taken)) : taken ≤ packet.length := by
  obtain ⟨version, -, read⟩ := Option.bind_eq_some_iff.mp read
  split at read
  · cases read
  · obtain ⟨numq, -, read⟩ := Option.bind_eq_some_iff.mp read
    obtain ⟨⟨qualifiers, next⟩, -, read⟩ := Option.bind_eq_some_iff.mp read
    obtain ⟨signedBy, signer, read⟩ := Option.bind_eq_some_iff.mp read
    have inside := atWord_inside signer
    split at read
    · obtain ⟨signature, signed, read⟩ := Option.bind_eq_some_iff.mp read
      have signatureInside := atWord_inside signed
      cases read
      change next + 5 + 96 - startAt ≤ packet.length
      omega
    · cases read
      omega

theorem offset_inside {ctx : Context} {network network' : Network} {flags : Byte} {offset : Nat}
    (moved : ctx.inlineCom network flags packet = some (network', offset)) : offset ≤ packet.length := by
  unfold Context.inlineCom at moved
  split at moved
  · obtain ⟨⟨com, comLen⟩, read, same⟩ := Option.map_eq_some_iff.mp moved
    cases same
    exact com_inside read
  · cases moved
    exact Nat.zero_le _

variable (short : packet.length ≤ Packet.maxPacketLength)

include short

/-- What stands behind the last field that was read is the rest of the packet. -/
theorem rest_of_packet {start : Nat} (inside : start ≤ packet.length) :
    difference packet.length start = packet.length - start ∧
      fieldAt packet start (difference packet.length start) = some (packet.drop start) := by
  have most : Packet.maxPacketLength = 10024 := rfl
  have frameLen := difference_eq (show packet.length < 2 ^ 32 by omega) inside
  refine ⟨frameLen, ?_⟩
  rw [frameLen, fieldAt, if_pos (by omega)]
  exact congrArg some (List.take_of_length_le (by rw [List.length_drop]))

theorem accessFrame_eq (sized : 38 < packet.length) :
    accessFrame packet = orThrow ((at16 packet 36).map fun etherType => (etherType, packet.drop 38)) := by
  obtain ⟨-, rest⟩ := rest_of_packet short (le_of_lt sized)
  unfold accessFrame
  dsimp only
  rw [checkedWord_eq (by decide), rawRange, rest, at16, atWord]
  cases fieldAt packet 36 2 <;> rfl

/-- Every read of EXT_FRAME is checked, and the check is right; the length of the frame does not wrap around. -/
theorem accessExtFrame_eq {comLen : Nat} (inside : comLen ≤ packet.length) :
    accessExtFrame packet comLen = orThrow (Context.readExtFrame packet comLen) := by
  have most : Packet.maxPacketLength = 10024 := rfl
  unfold accessExtFrame Context.readExtFrame
  dsimp only
  rw [checkedWord_eq (by omega), checkedWord_eq (by omega), checkedWord_eq (by omega), at16, atWord, atWord, atWord]
  cases typeRead : fieldAt packet (comLen + 49) 2 with
  | none => rfl
  | some etherType =>
      have end49 := (fieldAt_some typeRead).1
      obtain ⟨frameLen, rest⟩ := rest_of_packet short (show comLen + 51 ≤ packet.length by omega)
      rw [checkedRange_eq (by rw [frameLen]; omega), rest]
      cases fieldAt packet (comLen + 37) 6 with
      | none => rfl
      | some toMac => cases fieldAt packet (comLen + 43) 6 <;> rfl

omit short in
theorem checkedWord_atWord {width count start : Nat} (small : start + count < 2 ^ 32) :
    checkedWord width count packet start = orThrow (atWord width count packet start) :=
  checkedWord_eq small

/-- So it is for the fields from the multicast group on. -/
theorem accessGroup_eq {offset : Nat} (near : offset ≤ packet.length + 10) :
    accessGroup packet offset = orThrow ((atWord 48 6 packet (offset + 37)).bind fun toMac =>
      (at32 packet (offset + 43)).bind fun adi => (at16 packet (offset + 47)).bind fun etherType =>
        some (toMac, adi, etherType, packet.drop (offset + 49))) := by
  have most : Packet.maxPacketLength = 10024 := rfl
  unfold accessGroup
  dsimp only
  rw [checkedWord_eq (by omega), checkedWord_eq (by omega), checkedWord_eq (by omega), at16, at32, atWord, atWord, atWord]
  cases fieldAt packet (offset + 37) 6 with
  | none => rfl
  | some toMac =>
      cases fieldAt packet (offset + 43) 4 with
      | none => rfl
      | some adi =>
          cases typeRead : fieldAt packet (offset + 47) 2 with
          | none => rfl
          | some etherType =>
              have end47 := (fieldAt_some typeRead).1
              obtain ⟨frameLen, rest⟩ := rest_of_packet short (show offset + 49 ≤ packet.length by omega)
              have data : optionally (0 < difference packet.length (offset + 49) ∧
                  difference packet.length (offset + 49) ≤ 10000)
                  (checkedRange packet (offset + 49) (difference packet.length (offset + 49))) [] =
                    .ok (packet.drop (offset + 49)) := by
                rw [checkedRange_eq (by rw [frameLen]; omega), rest, frameLen]
                by_cases empty : packet.length ≤ offset + 49
                · rw [List.drop_of_length_le empty, optionally]
                  exact ite_self _
                · rw [optionally, if_pos (decide_eq_true ⟨by omega, by omega⟩)]
                  rfl
              rw [data]
              rfl

theorem accessMulticastFrame_eq (ctx : Context) (nwid : BitVec 64) (flags : Byte) {offset : Nat}
    (inside : offset ≤ packet.length) :
    accessMulticastFrame ctx packet nwid flags offset = orThrow (ctx.readMulticastFrame packet nwid flags offset) := by
  have most : Packet.maxPacketLength = 10024 := rfl
  have gathered : (offset + if flags &&& 0x02 ≠ 0 then 4 else 0) ≤ offset + 4 := by
    split_ifs <;> omega
  have sourced : ((offset + if flags &&& 0x02 ≠ 0 then 4 else 0) + if flags &&& 0x04 ≠ 0 then 6 else 0) ≤ offset + 10 := by
    split_ifs <;> omega
  rw [readMulticastFrame_eq]
  unfold accessMulticastFrame
  dsimp only
  rw [checkedWord_atWord (by omega), checkedWord_atWord (by omega), accessGroup_eq short (by omega), optionally_orThrow,
    optionally_orThrow]
  simp only [decide_eq_true_eq, orThrow_bind, bind_assoc]
  rfl

end Accesses

section Tap

variable {ctx : Context} {nwid nwid' : BitVec 64} {network network' : Network} {flags : Byte} {put : Frame}

theorem put_unless_acknowledged : .putFrame nwid' network' put ∉ Context.acknowledged nwid flags := by
  unfold Context.acknowledged
  split_ifs <;> simp

theorem put_unless_gathered {m : Context.MulticastFrame} : .putFrame nwid' network' put ∉ Context.gathered nwid m := by
  unfold Context.gathered
  split_ifs <;> simp

theorem put_unless_checks {frame : Frame} :
    .putFrame nwid' network' put ∉ (ctx.extFrameChecks nwid network frame).2 := by
  unfold Context.extFrameChecks
  split_ifs <;> simp

/-- What goes to the tap is the frame that was read, and the filter has let it pass. -/
structure Put (ctx : Context) (nwid : BitVec 64) (network : Network) (frame : Frame) (nwid' : BitVec 64)
    (network' : Network) (put : Frame) : Prop where
  same : nwid' = nwid ∧ network' = network ∧ put = frame
  accepted : 0 < ctx.filterIncomingPacket network frame

theorem put_of_deliverExtFrame {frame : Frame}
    (found : .putFrame nwid' network' put ∈ ctx.deliverExtFrame nwid network flags frame) :
    Put ctx nwid network frame nwid' network' put := by
  have answered {rest : List Effect} (accepted : 0 < ctx.filterIncomingPacket network frame)
      (found : .putFrame nwid' network' put ∈ .putFrame nwid network frame :: rest)
      (none : .putFrame nwid' network' put ∉ rest) : Put ctx nwid network frame nwid' network' put := by
    rcases List.mem_cons.mp found with this | later
    · cases this
      exact ⟨⟨rfl, rfl, rfl⟩, accepted⟩
    · exact absurd later none
  unfold Context.deliverExtFrame at found
  split at found
  · simp at found
  · split at found
    · rename_i verdict
      split at found
      · rename_i passed learned checks
        split at found
        · rcases List.mem_append.mp found with first | found
          · have none := @put_unless_checks ctx nwid nwid' network network' put frame
            rw [checks] at none
            exact absurd first none
          · exact answered (by omega) found put_unless_acknowledged
        · simp at found
    · rename_i verdict
      exact answered (by omega) found put_unless_acknowledged
    · exact absurd found put_unless_acknowledged

theorem put_of_deliverMulticastFrame {m : Context.MulticastFrame}
    (found : .putFrame nwid' network' put ∈ ctx.deliverMulticastFrame nwid network flags m) :
    Put ctx nwid network m.frame nwid' network' put := by
  have delivered (found : .putFrame nwid' network' put ∈
      (if 0 < ctx.filterIncomingPacket network m.frame then [.putFrame nwid network m.frame] else []) ++
        Context.gathered nwid m) : Put ctx nwid network m.frame nwid' network' put := by
    rcases List.mem_append.mp found with first | later
    · split_ifs at first with accepted
      · cases List.mem_singleton.mp first
        exact ⟨⟨rfl, rfl, rfl⟩, accepted⟩
      · cases first
    · exact absurd later put_unless_gathered
  have tapped (found : .putFrame nwid' network' put ∈ ctx.deliverToTap nwid network m) :
      Put ctx nwid network m.frame nwid' network' put := by
    unfold Context.deliverToTap at found
    dsimp only at found
    by_cases own : m.frame.fromMac = MAC.fromAddress ctx.peer.address nwid
    · rw [if_neg (not_not.mpr own)] at found
      exact delivered found
    · rw [if_pos own] at found
      by_cases bridge : network.config.permitsBridging ctx.peer.address = true
      · rw [if_pos bridge] at found
        rcases List.mem_cons.mp found with learned | found
        · cases learned
        · exact delivered found
      · rw [if_neg bridge] at found
        simp at found
  unfold Context.deliverMulticastFrame at found
  dsimp only at found
  split at found
  · simp at found
  · split at found
    · split at found
      · simp at found
      · split at found
        · simp at found
        · rcases List.mem_append.mp found with replica | found
          · unfold Context.replication at replica
            split_ifs at replica <;> simp at replica
          · exact tapped found
    · exact absurd found put_unless_gathered

theorem put_of_judged {m : Context.MulticastFrame} {verb : Context.FrameVerb}
    (found : .putFrame nwid' network' put ∈ judged ctx nwid network flags m verb) :
    Put ctx nwid network m.frame nwid' network' put := by
  cases verb with
  | frame =>
      unfold judged at found
      by_cases accepted : 0 < ctx.filterIncomingPacket network m.frame
      · rw [if_pos accepted] at found
        simp only [List.mem_cons, Effect.putFrame.injEq, reduceCtorEq, List.not_mem_nil, or_false] at found
        exact ⟨found, accepted⟩
      · rw [if_neg accepted] at found
        simp at found
  | extFrame => exact put_of_deliverExtFrame found
  | multicastFrame => exact put_of_deliverMulticastFrame found

end Tap

/-- A receiver's reads of a packet: those of the flow id stay inside it, and those of a frame are the reads that
`Frames` makes, so that they stay inside it or throw. The length of a frame is what is left of the packet. -/
structure ReadsInside (ctx : Context) (packet : List Byte) : Prop where
  flow : Safe (flowId packet 36 38) ∧ Safe (flowId packet 49 51)
  frame : 38 < packet.length → difference packet.length 38 + 38 = packet.length ∧
    accessFrame packet = orThrow ((at16 packet 36).map fun etherType => (etherType, packet.drop 38))
  extFrame : ∀ network flags network' comLen, ctx.inlineCom network flags packet = some (network', comLen) →
    accessExtFrame packet comLen = orThrow (Context.readExtFrame packet comLen) ∧
      ∀ frame, Context.readExtFrame packet comLen = some frame →
        difference packet.length (comLen + 51) + (comLen + 51) = packet.length
  multicastFrame : ∀ network flags network' offset nwid,
    ctx.inlineCom network flags packet = some (network', offset) →
      accessMulticastFrame ctx packet nwid flags offset = orThrow (ctx.readMulticastFrame packet nwid flags offset) ∧
        ∀ m, ctx.readMulticastFrame packet nwid flags offset = some m →
          difference packet.length (groupOffset flags offset + 49) + (groupOffset flags offset + 49) = packet.length

theorem readsInside (ctx : Context) {packet : List Byte} (short : packet.length ≤ Packet.maxPacketLength) :
    ReadsInside ctx packet := by
  have most : Packet.maxPacketLength = 10024 := rfl
  have small : packet.length < 2 ^ 32 := by omega
  have exact_length {start : Nat} (inside : start ≤ packet.length) :
      difference packet.length start + start = packet.length := by
    rw [difference_eq small inside]
    omega
  refine ⟨⟨safe_flowId small (by decide), safe_flowId small (by decide)⟩, ?_, ?_, ?_⟩
  · intro sized
    exact ⟨exact_length (le_of_lt sized), accessFrame_eq short sized⟩
  · intro network flags network' comLen moved
    refine ⟨accessExtFrame_eq short (offset_inside moved), fun frame read => exact_length ?_⟩
    unfold Context.readExtFrame at read
    obtain ⟨etherType, typeRead, -⟩ := Option.bind_eq_some_iff.mp read
    have inside := atWord_inside typeRead
    omega
  · intro network flags network' offset nwid moved
    refine ⟨accessMulticastFrame_eq short ctx nwid flags (offset_inside moved), fun m read => exact_length ?_⟩
    rw [readMulticastFrame_eq] at read
    obtain ⟨gatherLimit, -, read⟩ := Option.bind_eq_some_iff.mp read
    obtain ⟨fromMac, -, read⟩ := Option.bind_eq_some_iff.mp read
    obtain ⟨toMac, -, read⟩ := Option.bind_eq_some_iff.mp read
    obtain ⟨adi, -, read⟩ := Option.bind_eq_some_iff.mp read
    obtain ⟨etherType, typeRead, -⟩ := Option.bind_eq_some_iff.mp read
    have inside := atWord_inside typeRead
    change groupOffset flags offset + 47 + 2 ≤ packet.length at inside
    omega

/-- The frame in a packet, unless it is empty, is the one on which the receiver's handler decides and which it hands to
the tap, if the filter lets it pass; and a packet of any content is read inside its bounds. -/
theorem frames_carried :
    (∀ (pack : List Byte → List Byte) (unpack : List Byte → Option (List Byte)), Inverse pack unpack →
      ∀ (s : Sender) (ctx : Context) (network after : Network), Joined ctx s network after →
        ∀ (frame : Frame) (sending : Sending) (sent : List Byte), sending.Taken s frame →
          ctx.self = (sending.layout s frame).dest → (sending.layout s frame).packet pack s = some sent →
            (sending.meant s frame).frame.frameData ≠ [] →
              ∃ packet effects, Packet.uncompress unpack sent = some packet ∧
                ctx.handle (sending.layout s frame).verb packet = ⟨some true, effects⟩ ∧
                effects = judged ctx s.nwid after (sending.layout s frame).flags (sending.meant s frame)
                  (sending.layout s frame).verb ∧
                ∀ nwid network' put, .putFrame nwid network' put ∈ effects →
                  Put ctx s.nwid after (sending.meant s frame).frame nwid network' put) ∧
      ∀ (ctx : Context) (packet : List Byte), packet.length ≤ Packet.maxPacketLength → ReadsInside ctx packet := by
  constructor
  · intro pack unpack inverse s ctx network after joined frame sending sent taken reached written nonempty
    obtain ⟨packet, opened, handled⟩ := handle_judged joined inverse sending taken reached written nonempty
    exact ⟨packet, _, opened, handled, rfl, fun nwid network' put found => put_of_judged found⟩
  · intro ctx packet short
    exact readsInside ctx short

section Small

/-- Node 9 sends to node 7. -/
def nodeNine : Sender := ⟨9, 0x1000001, (1, 2)⟩

def toSeven (frameData : List Byte) : Frame :=
  ⟨nodeNine.mac, MAC.fromAddress 7 0x1000001, 0x0800, frameData⟩

/-- The network at node 7, once node 9 is let in. -/
def afterGate : Network := (bridgedNetwork.gate (heardFrom 9).crypto (heardFrom 9).peer (heardFrom 9).now).2

theorem seven_joined : Joined (heardFrom 9) nodeNine bridgedNetwork afterGate := by
  refine ⟨rfl, rfl, rfl, Prod.ext ?_ rfl⟩
  decide +kernel

theorem frame_carried :
    ∃ sent packet effects, (Sending.toPeer.layout nodeNine (toSeven [0x45])).packet id nodeNine = some sent ∧
      Packet.uncompress some sent = some packet ∧
      (heardFrom 9).handle (Sending.toPeer.layout nodeNine (toSeven [0x45])).verb packet = ⟨some true, effects⟩ ∧
      effects = judged (heardFrom 9) nodeNine.nwid afterGate (Sending.toPeer.layout nodeNine (toSeven [0x45])).flags
        (Sending.toPeer.meant nodeNine (toSeven [0x45])) (Sending.toPeer.layout nodeNine (toSeven [0x45])).verb ∧
      ∀ nwid network' put, .putFrame nwid network' put ∈ effects →
        Put (heardFrom 9) nodeNine.nwid afterGate (Sending.toPeer.meant nodeNine (toSeven [0x45])).frame nwid network' put := by
  have written : ((Sending.toPeer.layout nodeNine (toSeven [0x45])).packet id nodeNine).isSome = true := by decide +kernel
  obtain ⟨sent, written⟩ := Option.isSome_iff_exists.mp written
  obtain ⟨packet, effects, opened, handled⟩ := frames_carried.1 id some (fun _ _ => rfl) nodeNine (heardFrom 9)
    bridgedNetwork afterGate seven_joined (toSeven [0x45]) .toPeer sent (show _ = _ by decide +kernel) (by decide +kernel)
    written (by decide)
  exact ⟨sent, packet, effects, written, opened, handled⟩

/-- A frame that went to the tap. -/
def isPut : Effect → Bool
  | .putFrame .. => true
  | _ => false

/-- A frame without a payload is dropped, though the filter would let it pass. -/
theorem empty_frame_dropped :
    0 < (heardFrom 9).filterIncomingPacket afterGate (toSeven []) ∧
      ((Sending.toPeer.layout nodeNine (toSeven [])).packet id nodeNine).map (fun sent =>
        (Packet.uncompress some sent).map (fun packet =>
          ((heardFrom 9).handle (Sending.toPeer.layout nodeNine (toSeven [])).verb packet).effects.any isPut)) =
        some (some false) := by
  constructor
  · decide +kernel
  · decide +kernel

end Small

end Encapsulation

end ZeroTierNode

import ZeroTierNode.Frames
import ZeroTierNode.IpOwnership
import ZeroTierNode.Prefixes
import ZeroTierNode.TrustedPaths
import ZeroTierNode.Library.OnesComplement

/-!
NDP emulation in `Switch::onLocalEthernet`: a neighbour solicitation for an IPv6 address
that embeds the address of another node is answered at once, with an advertisement that
is put together here.
-/

namespace ZeroTierNode.NdpEmulation
open Library.Bytes Library.OnesComplement Library.Shifts ZeroTierNode.Filter IpOwnership
open Frames (Frame)
open InetAddress (byte6)
open TrustedPaths (Contains)

/-- `ZT_ETHERTYPE_IPV6`. -/
abbrev ethertypeIpv6 : BitVec 16 := 0x86dd

/-- `RR->identity.address()`, `network->id()` and `network->config()`. -/
structure Host where
  address : Address
  id : BitVec 64
  config : NetworkConfig

/-- `network->mac()`. -/
def Host.mac (h : Host) : MAC := MAC.fromAddress h.address h.id

/-- `while (ptr != count)`: the first bytes of the addresses are the same. -/
def prefixMatches (count : Nat) (pkt6 my6 : BitVec 128) : Bool :=
  (List.range count).all fun ptr => byte6 pkt6 ptr = byte6 my6 ptr

/-- `v6EmbeddedAddress.setTo(pkt6 + ptr, 5)`. -/
def setTo (pkt6 : BitVec 128) (ptr : Nat) : Address := wordOf 40 ((List.range 5).map fun i => byte6 pkt6 (ptr + i))

/-- The static IP is a ZT-RFC4193 address; the network that it spells is not looked at. -/
def isRfc4193 (my6 : BitVec 128) (sipNetmaskBits : BitVec 16) : Bool :=
  sipNetmaskBits = 88 ∧ byte6 my6 0 = 0xfd ∧ byte6 my6 9 = 0x99 ∧ byte6 my6 10 = 0x93

def nwid32 (nwid : BitVec 64) : BitVec 32 := ((nwid ^^^ (nwid >>> 32)) &&& 0xffffffff).setWidth 32

/-- The static IP is a ZT-6PLANE address of the network. -/
def is6plane (nwid : BitVec 64) (my6 : BitVec 128) : Bool :=
  byte6 my6 0 = 0xfc ∧ byte6 my6 1 = ((nwid32 nwid >>> 24) &&& 0xff).setWidth 8 ∧
    byte6 my6 2 = ((nwid32 nwid >>> 16) &&& 0xff).setWidth 8 ∧
      byte6 my6 3 = ((nwid32 nwid >>> 8) &&& 0xff).setWidth 8 ∧ byte6 my6 4 = (nwid32 nwid &&& 0xff).setWidth 8

/-- The loop over the static IPs: `v6EmbeddedAddress`, and the `my6` it stops at. -/
def embedded (nwid : BitVec 64) (pkt6 : BitVec 128) : List InetAddress → Option (Address × BitVec 128)
  | [] => none
  | .v6 my6 sipNetmaskBits :: rest =>
      if isRfc4193 my6 sipNetmaskBits then
        if prefixMatches 11 pkt6 my6 then some (setTo pkt6 11, my6) else embedded nwid pkt6 rest
      else if sipNetmaskBits = 40 then
        if is6plane nwid my6 then
          if prefixMatches 5 pkt6 my6 then some (setTo pkt6 5, my6) else embedded nwid pkt6 rest
        else embedded nwid pkt6 rest
      else embedded nwid pkt6 rest
  | _ :: rest => embedded nwid pkt6 rest

section Advertisements

variable (pkt6 my6 : BitVec 128) (peerMac : MAC)

/-- `adv` up to the ICMPv6 message. -/
def header : List Byte := [0x60, 0, 0, 0, 0, 0x20, 0x3a, 0xff] ++ wordBytes 16 pkt6 ++ wordBytes 16 my6

/-- The message behind its checksum. -/
def message : List Byte := [0x60, 0, 0, 0] ++ wordBytes 16 pkt6 ++ [0x02, 0x01] ++ wordBytes 6 peerMac

/-- `pseudo`, with the checksum still zero. -/
def pseudo : List Byte :=
  wordBytes 16 pkt6 ++ wordBytes 16 my6 ++ ([0, 0, 0, 0x20, 0, 0, 0, 0x3a, 0x88, 0] : List Byte) ++ ([0, 0] : List Byte) ++
    message pkt6 peerMac

/-- `checksum`, in 32 bits. -/
def checksum : BitVec 32 :=
  let sum : BitVec 32 := (words (pseudo pkt6 my6 peerMac)).foldl (fun sum word => sum + BitVec.ofNat 32 word) 0
  ~~~(BitVec.ofNat 32 (fold sum.toNat))

/-- `adv[42]` and `adv[43]`. -/
def checksumBytes : List Byte :=
  let checksum := checksum pkt6 my6 peerMac
  [((checksum >>> 8) &&& 0xff).setWidth 8, (checksum &&& 0xff).setWidth 8]

/-- `adv`. -/
def advertisement : List Byte :=
  header pkt6 my6 ++ ([0x88, 0] : List Byte) ++ checksumBytes pkt6 my6 peerMac ++ message pkt6 peerMac

end Advertisements

/-- What becomes of a frame: without a configuration and for bridges that are not permitted it ends at once; else it is
answered by a frame to the tap, or goes on to the rest of the function. -/
inductive Handled
  | ignored
  | notBridge
  | putFrame (frame : Frame)
  | onward
deriving DecidableEq, Repr

/-- `onLocalEthernet` up to NDP emulation. -/
def Host.onLocalEthernet (h : Host) (frame : Frame) : Handled :=
  if h.config.networkId = 0 then .ignored
  else if frame.fromMac ≠ h.mac ∧ ¬ h.config.permitsBridging h.address then .notBridge
  else if frame.toMac.isMulticast ∧ frame.toMac ≠ 0xffffffffffff ∧ frame.etherType = ethertypeIpv6 ∧
      40 + 8 + 16 ≤ frame.frameData.length then
    if h.config.ndpEmulation ∧ frame.frameData.getD 6 0 = 0x3a ∧ frame.frameData.getD 40 0 = 0x87 then
      let pkt6 : BitVec 128 := wordOf 128 ((frame.frameData.drop (40 + 8)).take 16)
      match embedded h.id pkt6 h.config.staticIps with
      | some found =>
          if found.1 ≠ 0 ∧ found.1 ≠ h.address then
            let peerMac := MAC.fromAddress found.1 h.id
            .putFrame ⟨peerMac, frame.fromMac, ethertypeIpv6, advertisement pkt6 found.2 peerMac⟩
          else .onward
      | none => .onward
    else .onward
  else .onward

section Meaning

/-- A neighbour solicitation for the address, from the tap. -/
structure Solicits (h : Host) (frame : Frame) (target : BitVec 128) : Prop where
  tap : frame.fromMac = h.mac
  ipv6 : frame.etherType = ethertypeIpv6
  whole : 40 + 8 + 16 ≤ frame.frameData.length
  icmpv6 : frame.frameData.getD 6 0 = 0x3a
  solicitation : frame.frameData.getD 40 0 = 0x87
  target : (frame.frameData.drop (40 + 8)).take 16 = wordBytes 16 target

/-- It is sent to a multicast group, as is usual for a neighbour that is not known. -/
def Multicast (frame : Frame) : Prop := frame.toMac.isMulticast = true ∧ frame.toMac ≠ 0xffffffffffff

/-- The pseudo header of an IPv6 packet and its payload. -/
def pseudoPacket (packet : List Byte) : List Byte :=
  (packet.drop 8).take 32 ++ [0, 0] ++ (packet.drop 4).take 2 ++ [0, 0, 0] ++ (packet.drop 6).take 1 ++ packet.drop 40

/-- A neighbour advertisement for the tap: the queried address is at this link. -/
structure Advertises (h : Host) (frame : Frame) (queried : BitVec 128) (link : MAC) : Prop where
  fromMac : frame.fromMac = link
  toMac : frame.toMac = h.mac
  ipv6 : frame.etherType = ethertypeIpv6
  length : frame.frameData.length = 72
  payload : (frame.frameData.drop 4).take 3 = [0, 32, 0x3a]
  source : (frame.frameData.drop 8).take 16 = wordBytes 16 queried
  advertisement : (frame.frameData.drop 40).take 2 = [0x88, 0]
  target : (frame.frameData.drop 48).take 16 = wordBytes 16 queried
  option : frame.frameData.drop 64 = [0x02, 0x01] ++ wordBytes 6 link
  checksum : Verifies (pseudoPacket frame.frameData)

/-- The static IP passes for an address of the layout: the network is compared for 6PLANE only. -/
def Formed (nwid : BitVec 64) (layout : Layout) : InetAddress → Prop
  | .v6 my6 bits =>
      match layout with
      | .rfc4193 => isRfc4193 my6 bits = true
      | .sixPlane => bits = 40 ∧ is6plane nwid my6 = true
  | _ => False

/-- The address is in the prefix of a static IP of one of the layouts. -/
def Host.Covers (h : Host) (target : BitVec 128) : Prop :=
  ∃ static ∈ h.config.staticIps, (∃ layout, Formed h.id layout static) ∧ Contains static (.v6 target 0)

end Meaning

section Checksum

variable (pkt6 my6 : BitVec 128) (peerMac : MAC)

theorem pseudo_length : (pseudo pkt6 my6 peerMac).length = 72 := by
  simp [pseudo, message]

theorem foldl_add_toNat (ws : List Nat) (start : BitVec 32) :
    (ws.foldl (fun sum word => sum + BitVec.ofNat 32 word) start).toNat = (start.toNat + ws.sum) % 2 ^ 32 := by
  induction ws generalizing start with
  | nil => simp [Nat.mod_eq_of_lt start.isLt]
  | cons word ws ih =>
      rw [List.foldl_cons, ih, BitVec.toNat_add, BitVec.toNat_ofNat, List.sum_cons, ← Nat.add_assoc]
      simp only [Nat.add_mod, Nat.mod_mod]

theorem toNat_low_byte (word : BitVec 32) : ((word &&& 0xff).setWidth 8).toNat = word.toNat % 256 := by
  rw [BitVec.toNat_setWidth, BitVec.toNat_and]
  show (word.toNat &&& (2 ^ 8 - 1)) % 2 ^ 8 = _
  rw [Nat.and_two_pow_sub_one_eq_mod, Nat.mod_mod]

/-- The sum of the words fits in 32 bits, and its complement in the two bytes. -/
theorem checksumBytes_eq :
    checksumBytes pkt6 my6 peerMac = wordBytes 2 (BitVec.ofNat 16 (65535 - fold (words (pseudo pkt6 my6 peerMac)).sum)) := by
  have bound := words_sum_le (pseudo pkt6 my6 peerMac)
  rw [pseudo_length] at bound
  have small := fold_lt (words (pseudo pkt6 my6 peerMac)).sum
  have total : ((words (pseudo pkt6 my6 peerMac)).foldl (fun sum word => sum + BitVec.ofNat 32 word) (0 : BitVec 32)).toNat =
      (words (pseudo pkt6 my6 peerMac)).sum := by
    rw [foldl_add_toNat]
    exact (congrArg (· % 2 ^ 32) (Nat.zero_add _)).trans (Nat.mod_eq_of_lt (by omega))
  have complement : (checksum pkt6 my6 peerMac).toNat = 4294967295 - fold (words (pseudo pkt6 my6 peerMac)).sum := by
    simp only [checksum, total, BitVec.toNat_not, BitVec.toNat_ofNat]
    omega
  have bytes (n : Nat) : bigEndian 2 n = [BitVec.ofNat 8 (n / 256), BitVec.ofNat 8 n] := by simp [bigEndian]
  rw [wordBytes, bytes, checksumBytes]
  congr 1
  · apply BitVec.eq_of_toNat_eq
    rw [toNat_low_byte, BitVec.toNat_ushiftRight, complement, BitVec.toNat_ofNat, BitVec.toNat_ofNat, Nat.shiftRight_eq_div_pow]
    omega
  · congr 1
    apply BitVec.eq_of_toNat_eq
    rw [toNat_low_byte, complement, BitVec.toNat_ofNat, BitVec.toNat_ofNat]
    omega

/-- The receiver adds up what was added up here, with the checksum in its place. -/
theorem pseudoPacket_advertisement :
    pseudoPacket (advertisement pkt6 my6 peerMac) =
      wordBytes 16 pkt6 ++ wordBytes 16 my6 ++ ([0, 0, 0, 0x20, 0, 0, 0, 0x3a, 0x88, 0] : List Byte) ++
        checksumBytes pkt6 my6 peerMac ++ message pkt6 peerMac := rfl

theorem advertises (h : Host) :
    Advertises h ⟨peerMac, h.mac, ethertypeIpv6, advertisement pkt6 my6 peerMac⟩ pkt6 peerMac where
  fromMac := rfl
  toMac := rfl
  ipv6 := rfl
  length := rfl
  payload := rfl
  source := rfl
  advertisement := rfl
  target := rfl
  option := rfl
  checksum := by
    rw [pseudoPacket_advertisement, checksumBytes_eq]
    apply verifies_of_complement
    simp

end Checksum

section Bytes

variable {pkt6 my6 : BitVec 128}

theorem byte6_toNat (ip : BitVec 128) (i : Nat) : (byte6 ip i).toNat = ip.toNat / 2 ^ (8 * (15 - i)) % 256 := by
  rw [byte6, BitVec.toNat_setWidth, BitVec.toNat_ushiftRight, Nat.shiftRight_eq_div_pow]

theorem prefixMatches_iff {count : Nat} (short : count ≤ 16) :
    prefixMatches count pkt6 my6 = true ↔ Agree (8 * count) pkt6 my6 := by
  simp only [prefixMatches, List.all_eq_true, List.mem_range, decide_eq_true_eq]
  constructor
  · intro same i inside
    have place : i = 8 * (i / 8) + i % 8 := by omega
    rw [place, ← Prefixes.getMsbD_byte6 (by omega) (by omega), same _ (by omega),
      Prefixes.getMsbD_byte6 (by omega) (by omega)]
  · intro agree i inside
    apply BitVec.eq_of_getMsbD_eq
    intro j within
    rw [Prefixes.getMsbD_byte6 (by omega) within, Prefixes.getMsbD_byte6 (by omega) within, agree _ (by omega)]

/-- The same as to compare the numbers that the bytes spell. -/
theorem prefixMatches_iff_div {count : Nat} (short : count ≤ 16) :
    prefixMatches count pkt6 my6 = true ↔
      pkt6.toNat / 2 ^ (128 - 8 * count) = my6.toNat / 2 ^ (128 - 8 * count) := by
  rw [prefixMatches_iff short, ← shiftRight_eq_iff (by omega), ← BitVec.toNat_inj, BitVec.toNat_ushiftRight,
    BitVec.toNat_ushiftRight, Nat.shiftRight_eq_div_pow, Nat.shiftRight_eq_div_pow]

theorem setTo_toNat (pkt6 : BitVec 128) {ptr : Nat} (inside : ptr ≤ 11) :
    (setTo pkt6 ptr).toNat = pkt6.toNat / 2 ^ (128 - 8 * (ptr + 5)) % 2 ^ 40 := by
  let value := pkt6.toNat / 2 ^ (128 - 8 * (ptr + 5))
  have byte (i : Nat) (small : i < 5) : (byte6 pkt6 (ptr + i)).toNat = value / 2 ^ (8 * (4 - i)) % 256 := by
    have place : 8 * (15 - (ptr + i)) = 128 - 8 * (ptr + 5) + 8 * (4 - i) := by omega
    rw [byte6_toNat, place, Nat.pow_add, ← Nat.div_div_eq_div_mul]
  have listed : (List.range 5).map (fun i => byte6 pkt6 (ptr + i)) =
      [byte6 pkt6 (ptr + 0), byte6 pkt6 (ptr + 1), byte6 pkt6 (ptr + 2), byte6 pkt6 (ptr + 3), byte6 pkt6 (ptr + 4)] := rfl
  rw [setTo, listed, wordOf, BitVec.toNat_ofNat]
  simp only [bigEndianValue, List.foldl_cons, List.foldl_nil, byte _ (by omega : 0 < 5), byte _ (by omega : 1 < 5),
    byte _ (by omega : 2 < 5), byte _ (by omega : 3 < 5), byte _ (by omega : 4 < 5)]
  show _ = value % 2 ^ 40
  omega

end Bytes

section Layouts

variable {nwid : BitVec 64} {pkt6 my6 : BitVec 128} {bits : BitVec 16} {layout : Layout} {statics : List InetAddress}

/-- The first byte of the addresses of a layout. -/
def firstByte : Layout → Byte
  | .sixPlane => 0xfc
  | .rfc4193 => 0xfd

theorem firstByte_injective : Function.Injective firstByte := by
  intro first second same
  cases first <;> cases second <;> first | rfl | exact absurd same (by decide)

theorem networkBytes_le (layout : Layout) : 0 < layout.networkBytes ∧ layout.networkBytes ≤ 11 := by
  cases layout <;> decide

theorem Formed.firstByte (formed : Formed nwid layout (.v6 my6 bits)) : byte6 my6 0 = firstByte layout := by
  cases layout with
  | rfc4193 => exact (of_decide_eq_true formed).2.1
  | sixPlane => exact (of_decide_eq_true formed.2).1

theorem Formed.bits_eq (formed : Formed nwid layout (.v6 my6 bits)) : bits.toNat = 8 * layout.networkBytes := by
  cases layout with
  | rfc4193 => exact congrArg BitVec.toNat (of_decide_eq_true formed).1
  | sixPlane => exact congrArg BitVec.toNat formed.1

/-- The static IP whose prefix matches first is taken. -/
theorem embedded_found {found : Address × BitVec 128} (reached : embedded nwid pkt6 statics = some found) :
    ∃ bits layout, .v6 found.2 bits ∈ statics ∧ Formed nwid layout (.v6 found.2 bits) ∧
      prefixMatches layout.networkBytes pkt6 found.2 = true ∧ found.1 = setTo pkt6 layout.networkBytes := by
  induction statics with
  | nil => cases reached
  | cons static statics ih =>
      have later (reached : embedded nwid pkt6 statics = some found) :
          ∃ bits layout, .v6 found.2 bits ∈ static :: statics ∧ Formed nwid layout (.v6 found.2 bits) ∧
            prefixMatches layout.networkBytes pkt6 found.2 = true ∧ found.1 = setTo pkt6 layout.networkBytes := by
        obtain ⟨bits, layout, listed, rest⟩ := ih reached
        exact ⟨bits, layout, List.mem_cons_of_mem _ listed, rest⟩
      cases static with
      | nil => exact later reached
      | v4 ip port => exact later reached
      | v6 my6 bits =>
          rw [embedded] at reached
          by_cases rfc : isRfc4193 my6 bits = true
          · rw [if_pos rfc] at reached
            by_cases matched : prefixMatches 11 pkt6 my6 = true
            · rw [if_pos matched] at reached
              cases reached
              exact ⟨bits, .rfc4193, List.mem_cons_self, rfc, matched, rfl⟩
            · rw [if_neg matched] at reached
              exact later reached
          · rw [if_neg rfc] at reached
            by_cases wide : bits = 40
            · rw [if_pos wide] at reached
              by_cases plane : is6plane nwid my6 = true
              · rw [if_pos plane] at reached
                by_cases matched : prefixMatches 5 pkt6 my6 = true
                · rw [if_pos matched] at reached
                  cases reached
                  exact ⟨bits, .sixPlane, List.mem_cons_self, ⟨wide, plane⟩, matched, rfl⟩
                · rw [if_neg matched] at reached
                  exact later reached
              · rw [if_neg plane] at reached
                exact later reached
            · rw [if_neg wide] at reached
              exact later reached

theorem embedded_of_mem (listed : .v6 my6 bits ∈ statics) (formed : Formed nwid layout (.v6 my6 bits))
    (matched : prefixMatches layout.networkBytes pkt6 my6 = true) :
    ∃ found, embedded nwid pkt6 statics = some found := by
  induction statics with
  | nil => cases listed
  | cons static statics ih =>
      rcases List.mem_cons.mp listed with same | later
      · subst same
        cases layout with
        | rfc4193 =>
            have rfc : isRfc4193 my6 bits = true := formed
            have same : prefixMatches 11 pkt6 my6 = true := matched
            exact ⟨_, by rw [embedded, if_pos rfc, if_pos same]⟩
        | sixPlane =>
            have rfc : ¬ isRfc4193 my6 bits = true := by
              intro rfc
              exact absurd ((of_decide_eq_true rfc).1.symm.trans formed.1) (by decide)
            have same : prefixMatches 5 pkt6 my6 = true := matched
            exact ⟨_, by rw [embedded, if_neg rfc, if_pos formed.1, if_pos formed.2, if_pos same]⟩
      · have found := ih later
        cases static with
        | nil => exact found
        | v4 ip port => exact found
        | v6 other length =>
            rw [embedded]
            split_ifs
            · exact ⟨_, rfl⟩
            · exact found
            · exact ⟨_, rfl⟩
            · exact found
            · exact found
            · exact found

theorem prefix_firstByte {count : Nat} (some : 0 < count) (matched : prefixMatches count pkt6 my6 = true) :
    byte6 pkt6 0 = byte6 my6 0 := by
  simp only [prefixMatches, List.all_eq_true, List.mem_range, decide_eq_true_eq] at matched
  exact matched 0 some

/-- An address that embeds a member spells the network and the member at the places where they are looked for. -/
theorem setTo_of_embeds {p : Address} {port : BitVec 16} (embeds : layout.Embeds nwid p (.v6 pkt6 port)) :
    setTo pkt6 layout.networkBytes = p := by
  have value := (embeds_iff nwid p pkt6 port layout).mp embeds
  have below := p.isLt
  apply BitVec.eq_of_toNat_eq
  rw [setTo_toNat pkt6 (networkBytes_le layout).2]
  show pkt6.toNat / 2 ^ (128 - 8 * layout.memberBytes) % 2 ^ 40 = _
  rw [value]
  omega

theorem firstByte_of_embeds {p : Address} {port : BitVec 16} (embeds : layout.Embeds nwid p (.v6 pkt6 port)) :
    byte6 pkt6 0 = firstByte layout := by
  have value := (embeds_iff nwid p pkt6 port layout).mp embeds
  have below := p.isLt
  apply BitVec.eq_of_toNat_eq
  rw [byte6_toNat]
  cases layout with
  | rfc4193 =>
      have whole := nwid.isLt
      simp only [Layout.memberBytes, Layout.networkBytes, Layout.network] at value
      show pkt6.toNat / 2 ^ 120 % 256 = 0xfd
      omega
  | sixPlane =>
      have folded := ((nwid ^^^ (nwid >>> 32)).setWidth 32).isLt
      simp only [Layout.memberBytes, Layout.networkBytes, Layout.network] at value
      show pkt6.toNat / 2 ^ 120 % 256 = 0xfc
      omega

/-- What is found for such an address is the member. -/
theorem found_of_embeds {found : Address × BitVec 128} (reached : embedded nwid pkt6 statics = some found) {p : Address}
    {port : BitVec 16} (embeds : layout.Embeds nwid p (.v6 pkt6 port)) : found.1 = p := by
  obtain ⟨bits, other, -, formed, matched, address⟩ := embedded_found reached
  have first : firstByte other = firstByte layout :=
    calc
      firstByte other = byte6 found.2 0 := formed.firstByte.symm
      _ = byte6 pkt6 0 := (prefix_firstByte (networkBytes_le other).1 matched).symm
      _ = firstByte layout := firstByte_of_embeds embeds
  rw [address, firstByte_injective first, setTo_of_embeds embeds]

theorem nwid32_eq (nwid : BitVec 64) : nwid32 nwid = (nwid ^^^ (nwid >>> 32)).setWidth 32 := by
  apply BitVec.eq_of_getLsbD_eq
  intro i small
  have mask : (0xffffffff : BitVec 64).getLsbD i = true := by
    rw [show (0xffffffff : BitVec 64) = (BitVec.allOnes 32).setWidth 64 by decide, BitVec.getLsbD_setWidth,
      BitVec.getLsbD_allOnes, decide_eq_true small, decide_eq_true (by omega), Bool.and_true]
  rw [nwid32, BitVec.getLsbD_setWidth, BitVec.getLsbD_setWidth, BitVec.getLsbD_and, mask, Bool.and_true]

/-- Our own address of a layout passes for one. -/
theorem formed_own (nwid : BitVec 64) (own : Address) (layout : Layout) :
    Formed nwid layout (layout.address nwid own) := by
  obtain ⟨word, port, tail, address, short, value⟩ := address_word nwid own layout
  have below := own.isLt
  have byte (i : Nat) : (byte6 word i).toNat = word.toNat / 2 ^ (8 * (15 - i)) % 256 := byte6_toNat word i
  cases layout with
  | rfc4193 =>
      have whole := nwid.isLt
      simp only [Layout.memberBytes, Layout.networkBytes, Layout.network] at value short
      have first := byte 0
      have ninth := byte 9
      have tenth := byte 10
      simp only [Nat.reduceMul, Nat.reduceSub, Nat.reduceAdd, Nat.reducePow] at first ninth tenth value short
      cases address
      apply decide_eq_true
      refine ⟨rfl, BitVec.eq_of_toNat_eq ?_, BitVec.eq_of_toNat_eq ?_, BitVec.eq_of_toNat_eq ?_⟩
      · rw [first]
        show _ = 0xfd
        omega
      · rw [ninth]
        show _ = 0x99
        omega
      · rw [tenth]
        show _ = 0x93
        omega
  | sixPlane =>
      have folded := (nwid32 nwid).isLt
      simp only [Layout.memberBytes, Layout.networkBytes, Layout.network, ← nwid32_eq] at value short
      have octet (shift : Nat) : (((nwid32 nwid >>> shift) &&& 0xff).setWidth 8).toNat =
          (nwid32 nwid).toNat / 2 ^ shift % 256 := by
        rw [toNat_low_byte, BitVec.toNat_ushiftRight, Nat.shiftRight_eq_div_pow]
      simp only [Nat.reduceMul, Nat.reduceSub, Nat.reduceAdd, Nat.reducePow] at value short
      cases address
      refine ⟨rfl, decide_eq_true ⟨BitVec.eq_of_toNat_eq ?_, BitVec.eq_of_toNat_eq ?_, BitVec.eq_of_toNat_eq ?_,
        BitVec.eq_of_toNat_eq ?_, BitVec.eq_of_toNat_eq ?_⟩⟩
      · rw [byte 0]
        show _ = 0xfc
        omega
      · rw [byte 1, octet]
        omega
      · rw [byte 2, octet]
        omega
      · rw [byte 3, octet]
        omega
      · rw [byte 4, toNat_low_byte]
        omega

/-- Its prefix covers every address of the layout in the network. -/
theorem matches_own {own p : Address} {port : BitVec 16} (address : layout.address nwid own = .v6 my6 bits)
    (embeds : layout.Embeds nwid p (.v6 pkt6 port)) : prefixMatches layout.networkBytes pkt6 my6 = true := by
  have same := (network_iff_member nwid own (.v6 pkt6 port) layout).mpr ⟨p, embeds⟩
  have short := (networkBytes_le layout).2
  rw [address, samePrefix_iff] at same
  rw [prefixMatches_iff_div (by omega)]
  exact same

end Layouts

section Answers

variable {h : Host} {frame : Frame} {target : BitVec 128}

/-- A solicitation reaches the emulation. -/
theorem onLocalEthernet_eq (configured : h.config.networkId ≠ 0) (emulation : h.config.ndpEmulation = true)
    (solicits : Solicits h frame target) (multicast : Multicast frame) :
    h.onLocalEthernet frame =
      match embedded h.id target h.config.staticIps with
      | some found =>
          if found.1 ≠ 0 ∧ found.1 ≠ h.address then
            .putFrame ⟨MAC.fromAddress found.1 h.id, h.mac, ethertypeIpv6,
              advertisement target found.2 (MAC.fromAddress found.1 h.id)⟩
          else .onward
      | none => .onward := by
  have pkt6 : wordOf 128 ((frame.frameData.drop (40 + 8)).take 16) = target := by
    rw [solicits.target, wordOf_wordBytes 16 target (by decide)]
  unfold Host.onLocalEthernet
  rw [if_neg configured, if_neg (fun bridged => bridged.1 solicits.tap),
    if_pos ⟨multicast.1, multicast.2, solicits.ipv6, solicits.whole⟩,
    if_pos ⟨emulation, solicits.icmpv6, solicits.solicitation⟩]
  simp only [pkt6, solicits.tap]

theorem onLocalEthernet_found (configured : h.config.networkId ≠ 0) (emulation : h.config.ndpEmulation = true)
    (solicits : Solicits h frame target) (multicast : Multicast frame) {found : Address × BitVec 128}
    (reached : embedded h.id target h.config.staticIps = some found) (peer : found.1 ≠ 0)
    (other : found.1 ≠ h.address) :
    h.onLocalEthernet frame = .putFrame ⟨MAC.fromAddress found.1 h.id, h.mac, ethertypeIpv6,
      advertisement target found.2 (MAC.fromAddress found.1 h.id)⟩ := by
  rw [onLocalEthernet_eq configured emulation solicits multicast, reached]
  exact if_pos ⟨peer, other⟩

theorem answered (configured : h.config.networkId ≠ 0) (emulation : h.config.ndpEmulation = true)
    (solicits : Solicits h frame target) (multicast : Multicast frame) {layout : Layout} {p : Address}
    (static : layout.address h.id h.address ∈ h.config.staticIps) (peer : p ≠ 0) (other : p ≠ h.address)
    (embeds : layout.Embeds h.id p (.v6 target 0)) :
    ∃ answer, h.onLocalEthernet frame = .putFrame answer ∧
      Advertises h answer target (MAC.fromAddress p h.id) := by
  obtain ⟨my6, bits, -, address, -, -⟩ := address_word h.id h.address layout
  have formed := formed_own h.id h.address layout
  rw [address] at static formed
  obtain ⟨found, reached⟩ := embedded_of_mem static formed (matches_own address embeds)
  have member := found_of_embeds reached embeds
  rw [← member] at peer other ⊢
  exact ⟨_, onLocalEthernet_found configured emulation solicits multicast reached peer other,
    advertises target found.2 (MAC.fromAddress found.1 h.id) h⟩

theorem not_answered (configured : h.config.networkId ≠ 0) (emulation : h.config.ndpEmulation = true)
    (solicits : Solicits h frame target) (multicast : Multicast frame)
    (outside : ¬ h.Covers target ∨ ∃ layout, Layout.Embeds h.id h.address (.v6 target 0) layout) :
    h.onLocalEthernet frame = .onward := by
  rw [onLocalEthernet_eq configured emulation solicits multicast]
  cases reached : embedded h.id target h.config.staticIps with
  | none => rfl
  | some found =>
      rcases outside with uncovered | own
      · obtain ⟨bits, layout, listed, formed, matched, -⟩ := embedded_found reached
        have short := (networkBytes_le layout).2
        have contained : Contains (.v6 found.2 bits) (.v6 target 0) := by
          show Agree bits.toNat target found.2
          rw [formed.bits_eq]
          exact (prefixMatches_iff (by omega)).mp matched
        exact absurd ⟨_, listed, ⟨layout, formed⟩, contained⟩ uncovered
      · obtain ⟨layout, embeds⟩ := own
        have own := found_of_embeds reached embeds
        exact if_neg fun answered => answered.2 own

end Answers

/-- A multicast solicitation for the address of another node in a layout that is assigned is answered for it, and one
for an address outside of the assigned prefixes, or for this node, is not. -/
theorem ndp_emulation {h : Host} {frame : Frame} {target : BitVec 128} (configured : h.config.networkId ≠ 0)
    (emulation : h.config.ndpEmulation = true) (solicits : Solicits h frame target) (multicast : Multicast frame) :
    (∀ layout p, Layout.address h.id h.address layout ∈ h.config.staticIps → p ≠ 0 → p ≠ h.address →
      Layout.Embeds h.id p (.v6 target 0) layout →
        ∃ answer, h.onLocalEthernet frame = .putFrame answer ∧
          Advertises h answer target (MAC.fromAddress p h.id)) ∧
    (¬ h.Covers target ∨ (∃ layout, Layout.Embeds h.id h.address (.v6 target 0) layout) →
      h.onLocalEthernet frame = .onward) :=
  ⟨fun _ _ static peer other embeds => answered configured emulation solicits multicast static peer other embeds,
    not_answered configured emulation solicits multicast⟩

section Member

/-- A member of a network with NDP emulation, with its RFC 4193 address and further static IPs. -/
def memberHost (others : List InetAddress) : Host where
  address := 0x2000000007
  id := 0x8056c2e21c000001
  config := { NetworkConfig.nil with
    networkId := 0x8056c2e21c000001
    flags := 0x4
    staticIps := Layout.rfc4193.address 0x8056c2e21c000001 0x2000000007 :: others }

/-- A solicitation from its tap. -/
def query (toMac : MAC) (target : BitVec 128) : Frame where
  fromMac := MAC.fromAddress 0x2000000007 0x8056c2e21c000001
  toMac := toMac
  etherType := ethertypeIpv6
  frameData := [0x60, 0, 0, 0, 0, 32, 0x3a, 0xff] ++ List.replicate 32 0 ++ [0x87] ++ List.replicate 7 0 ++ wordBytes 16 target

theorem query_solicits (others : List InetAddress) (toMac : MAC) (target : BitVec 128) :
    Solicits (memberHost others) (query toMac target) target where
  tap := rfl
  ipv6 := rfl
  whole := by simp [query]
  icmpv6 := rfl
  solicitation := rfl
  target := rfl

/-- The RFC 4193 addresses of another member, and of a member of another network. -/
def otherAddress : BitVec 128 := 0xfd8056c2e21c00000199931000000005

def foreignAddress : BitVec 128 := 0xfd8056c2e21c00000299931000000005

theorem otherAddress_embeds :
    Layout.Embeds 0x8056c2e21c000001 0x1000000005 (.v6 otherAddress 0) Layout.rfc4193 := by
  unfold Layout.Embeds
  decide +kernel

/-- The other member is found. -/
theorem other_member_answered : ∃ answer,
    (memberHost []).onLocalEthernet (query 0x3333ff000005 otherAddress) = .putFrame answer ∧
      Advertises (memberHost []) answer otherAddress (MAC.fromAddress 0x1000000005 0x8056c2e21c000001) := by
  have configured : (memberHost []).config.networkId ≠ 0 := by decide
  have emulation : (memberHost []).config.ndpEmulation = true := by decide
  have multicast : Multicast (query 0x3333ff000005 otherAddress) := ⟨by decide, by decide⟩
  exact (ndp_emulation configured emulation (query_solicits [] 0x3333ff000005 otherAddress) multicast).1
    .rfc4193 0x1000000005 List.mem_cons_self (by decide) (by decide) otherAddress_embeds

/-- A probe that is sent to the MAC of the neighbour is not answered here. And with an RFC 4193 address of another
network among the static IPs, a solicitation outside of the own prefixes is answered. -/
theorem probe_and_foreign_prefix :
    (Solicits (memberHost []) (query (MAC.fromAddress 0x1000000005 0x8056c2e21c000001) otherAddress) otherAddress ∧
      Layout.rfc4193.address 0x8056c2e21c000001 0x2000000007 ∈ (memberHost []).config.staticIps ∧
      Layout.Embeds 0x8056c2e21c000001 0x1000000005 (.v6 otherAddress 0) Layout.rfc4193 ∧
      (memberHost []).onLocalEthernet (query (MAC.fromAddress 0x1000000005 0x8056c2e21c000001) otherAddress) =
        .onward) ∧
    (Solicits (memberHost [Layout.rfc4193.address 0x8056c2e21c000002 0x2000000007])
        (query 0x3333ff000005 foreignAddress) foreignAddress ∧
      (∀ layout, ¬ Contains (Layout.address 0x8056c2e21c000001 0x2000000007 layout) (.v6 foreignAddress 0)) ∧
      (memberHost [Layout.rfc4193.address 0x8056c2e21c000002 0x2000000007]).onLocalEthernet
        (query 0x3333ff000005 foreignAddress) ≠ .onward) := by
  refine ⟨⟨query_solicits _ _ _, List.mem_cons_self, otherAddress_embeds, by decide +kernel⟩, query_solicits _ _ _, ?_, ?_⟩
  · intro layout contained
    cases layout with
    | sixPlane => exact absurd (contained 7 (by decide)) (by decide +kernel)
    | rfc4193 => exact absurd (contained 70 (by decide)) (by decide +kernel)
  · have configured : (memberHost [Layout.rfc4193.address 0x8056c2e21c000002 0x2000000007]).config.networkId ≠ 0 := by
      decide
    have emulation : (memberHost [Layout.rfc4193.address 0x8056c2e21c000002 0x2000000007]).config.ndpEmulation = true := by
      decide
    have multicast : Multicast (query 0x3333ff000005 foreignAddress) := ⟨by decide, by decide⟩
    have reached : embedded 0x8056c2e21c000001 foreignAddress
        (memberHost [Layout.rfc4193.address 0x8056c2e21c000002 0x2000000007]).config.staticIps =
          some (0x1000000005, 0xfd8056c2e21c00000299932000000007) := by decide +kernel
    rw [onLocalEthernet_found configured emulation (query_solicits _ _ _) multicast reached (by decide) (by decide)]
    exact Handled.noConfusion

end Member

end ZeroTierNode.NdpEmulation

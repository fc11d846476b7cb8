import ZeroTierNode.Filter

/-!
Whose IP addresses a member may use: `hasCertificateOfOwnershipFor<InetAddress>` and
the characteristic `SENDER_IP_AUTHENTICATED` that `_doZtFilter` takes from it. With
NDP emulation a member has a block of IPv6 addresses without a certificate. The two
layouts of such addresses spell the network in front and the member behind it.
-/

namespace ZeroTierNode.IpOwnership
open Library.Bytes ZeroTierNode.Filter

/-- The layouts of addresses that embed a ZeroTier address. -/
inductive Layout
  | sixPlane
  | rfc4193
deriving DecidableEq, Repr

namespace Layout

/-- The first address of a member. -/
def address (nwid : BitVec 64) (member : Address) : Layout → InetAddress
  | .sixPlane => .makeIpv66plane nwid member.toInt
  | .rfc4193 => .makeIpv6rfc4193 nwid member.toInt

/-- The bytes that spell the network: /40 and /88. -/
def networkBytes : Layout → Nat
  | .sixPlane => 5
  | .rfc4193 => 11

/-- The bytes that spell the network and the member: /80 and /128. -/
def memberBytes (layout : Layout) : Nat := layout.networkBytes + 5

/-- The address lies in the block of the member. -/
def Embeds (nwid : BitVec 64) (member : Address) (ip : InetAddress) (layout : Layout) : Prop :=
  ip.samePrefix layout.memberBytes (layout.address nwid member) = true

end Layout

/-- The certificate has an entry with this type and these bytes. -/
def Lists (coo : CertificateOfOwnership) : InetAddress → Prop
  | .v4 ip _ => ∃ thing ∈ coo.things.take coo.thingCount.toNat, thing.type = 2 ∧ thing.value.extractLsb' 96 32 = ip
  | .v6 ip _ => ∃ thing ∈ coo.things.take coo.thingCount.toNat, thing.type = 3 ∧ thing.value = ip
  | .nil => False

/-- A certificate of the member that is valid at present lists the address. -/
def Certified (m : Membership) (nconf : NetworkConfig) (ip : InetAddress) : Prop :=
  ∃ id coo, m.remoteCoos.lookup id = some coo ∧ m.isCredentialTimestampValid nconf coo = true ∧ Lists coo ip

/-- NDP emulation is on, and our own address of the layout is assigned to us. -/
def Emulates (nconf : NetworkConfig) (layout : Layout) : Prop :=
  nconf.ndpEmulation = true ∧
    ∃ static ∈ nconf.staticIps, static.ipsEqual (layout.address nconf.networkId nconf.issuedTo) = true

section Layouts

/-- What stands in front of the member's address. -/
def Layout.network (nwid : BitVec 64) : Layout → Nat
  | .sixPlane => 0xfc * 2 ^ 32 + ((nwid ^^^ (nwid >>> 32)).setWidth 32).toNat
  | .rfc4193 => (0xfd * 2 ^ 64 + nwid.toNat) * 2 ^ 16 + 0x9993

/-- An address of a member is the network's part, the member and the rest. -/
theorem address_word (nwid : BitVec 64) (member : Address) (layout : Layout) :
    ∃ word port tail, layout.address nwid member = .v6 word port ∧ tail < 2 ^ (128 - 8 * layout.memberBytes) ∧
      word.toNat = (layout.network nwid * 2 ^ 40 + member.toNat) * 2 ^ (128 - 8 * layout.memberBytes) + tail := by
  have narrow : (member.toInt.setWidth 40).toNat = member.toNat := by
    rw [Address.toInt, BitVec.setWidth_setWidth_of_le _ (by decide), BitVec.setWidth_eq]
  have below := member.isLt
  cases layout with
  | sixPlane =>
      have folded := ((nwid ^^^ (nwid >>> 32)).setWidth 32).isLt
      refine ⟨_, _, 1, rfl, by decide, ?_⟩
      rw [wordOf, BitVec.toNat_ofNat, bigEndianValue_append, bigEndianValue_append, bigEndianValue_append,
        bigEndianValue_wordBytes _ _ (by decide), bigEndianValue_wordBytes _ _ (by decide), narrow]
      simp only [wordBytes_length, List.length_cons, List.length_nil, Layout.network, Layout.memberBytes,
        Layout.networkBytes, show bigEndianValue [0xfc] = 0xfc from rfl,
        show bigEndianValue [0, 0, 0, 0, 0, 0x01] = 1 from rfl]
      omega
  | rfc4193 =>
      have whole := nwid.isLt
      refine ⟨_, _, 0, rfl, by decide, ?_⟩
      rw [wordOf, BitVec.toNat_ofNat, bigEndianValue_append, bigEndianValue_append, bigEndianValue_append,
        bigEndianValue_wordBytes _ _ (by decide), bigEndianValue_wordBytes _ _ (by decide), narrow]
      simp only [wordBytes_length, List.length_cons, List.length_nil, Layout.network, Layout.memberBytes,
        Layout.networkBytes, show bigEndianValue [0xfd] = 0xfd from rfl,
        show bigEndianValue [0x99, 0x93] = 0x9993 from rfl]
      omega

theorem samePrefix_iff (bytes : Nat) (first second : BitVec 128) (port other : BitVec 16) :
    (InetAddress.v6 first port).samePrefix bytes (.v6 second other) = true ↔
      first.toNat / 2 ^ (128 - 8 * bytes) = second.toNat / 2 ^ (128 - 8 * bytes) := by
  rw [InetAddress.samePrefix, decide_eq_true_iff, ← BitVec.toNat_inj, BitVec.toNat_ushiftRight,
    BitVec.toNat_ushiftRight, Nat.shiftRight_eq_div_pow, Nat.shiftRight_eq_div_pow]

theorem embeds_iff (nwid : BitVec 64) (member : Address) (ip : BitVec 128) (port : BitVec 16) (layout : Layout) :
    layout.Embeds nwid member (.v6 ip port) ↔
      ip.toNat / 2 ^ (128 - 8 * layout.memberBytes) = layout.network nwid * 2 ^ 40 + member.toNat := by
  obtain ⟨word, bits, tail, address, short, value⟩ := address_word nwid member layout
  have part : word.toNat / 2 ^ (128 - 8 * layout.memberBytes) = layout.network nwid * 2 ^ 40 + member.toNat := by
    rw [value, Nat.add_comm, Nat.add_mul_div_right _ _ (Nat.two_pow_pos _), Nat.div_eq_of_lt short, Nat.zero_add]
  rw [Layout.Embeds, address, samePrefix_iff, part]

/-- The part in front of the member's address. -/
theorem network_of_member (layout : Layout) (value : Nat) :
    value / 2 ^ (128 - 8 * layout.networkBytes) = value / 2 ^ (128 - 8 * layout.memberBytes) / 2 ^ 40 := by
  have longer : 128 - 8 * layout.networkBytes = 128 - 8 * layout.memberBytes + 40 := by
    cases layout <;> rfl
  rw [longer, Nat.pow_add, Nat.div_div_eq_div_mul]

/-- An address has the network's part of a layout exactly if it lies in the block of some member. -/
theorem network_iff_member (nwid : BitVec 64) (own : Address) (ip : InetAddress) (layout : Layout) :
    ip.samePrefix layout.networkBytes (layout.address nwid own) = true ↔
      ∃ member, layout.Embeds nwid member ip := by
  obtain ⟨word, bits, tail, address, -, -⟩ := address_word nwid own layout
  cases ip with
  | nil => simp [Layout.Embeds, InetAddress.samePrefix]
  | v4 ip port => simp [Layout.Embeds, InetAddress.samePrefix]
  | v6 ip port =>
      have mine := (embeds_iff nwid own word bits layout).mp (by
        rw [Layout.Embeds, address, samePrefix_iff])
      have front (member : Address) : (layout.network nwid * 2 ^ 40 + member.toNat) / 2 ^ 40 = layout.network nwid := by
        have below := member.isLt
        omega
      rw [address, samePrefix_iff, network_of_member, network_of_member, mine, front]
      constructor
      · intro same
        refine ⟨BitVec.ofNat 40 (ip.toNat / 2 ^ (128 - 8 * layout.memberBytes)), ?_⟩
        rw [embeds_iff, BitVec.toNat_ofNat, ← same]
        omega
      · intro found
        obtain ⟨member, embeds⟩ := found
        rw [(embeds_iff nwid member ip port layout).mp embeds, front]

end Layouts

section Ownership

/-- `_owns` compares all bytes of an entry. -/
theorem ownsIp_iff (coo : CertificateOfOwnership) (ip : InetAddress) : coo.ownsIp ip = true ↔ Lists coo ip := by
  cases ip with
  | nil => simp [CertificateOfOwnership.ownsIp, Lists]
  | v4 ip port =>
      have bytes (value : BitVec 128) : value.toNat >>> 96 = ip.toNat ↔ value.extractLsb' 96 32 = ip := by
        have below := value.isLt
        rw [← BitVec.toNat_inj, BitVec.extractLsb'_toNat, Nat.shiftRight_eq_div_pow]
        omega
      simp [CertificateOfOwnership.ownsIp, CertificateOfOwnership.ownsThing, Lists, bytes]
  | v6 ip port =>
      simp [CertificateOfOwnership.ownsIp, CertificateOfOwnership.ownsThing, Lists, ← BitVec.toNat_inj]

theorem hasValidCoo_iff (m : Membership) (nconf : NetworkConfig) (ip : InetAddress) :
    m.hasValidCoo nconf (fun coo => coo.ownsIp ip) = true ↔ Certified m nconf ip := by
  rw [Membership.hasValidCoo_eq_true]
  simp only [ownsIp_iff, Certified]

/-- Only the network's part of an emulated address is compared, so that it may embed any member. -/
theorem isV6NDPEmulated_iff (nconf : NetworkConfig) (ip : InetAddress) :
    Membership.isV6NDPEmulated nconf ip = true ↔
      ∃ layout, Emulates nconf layout ∧ ∃ member, layout.Embeds nconf.networkId member ip := by
  have either : (∃ layout, Emulates nconf layout ∧ ∃ member, layout.Embeds nconf.networkId member ip) ↔
      (Emulates nconf .sixPlane ∧ ∃ member, Layout.sixPlane.Embeds nconf.networkId member ip) ∨
        (Emulates nconf .rfc4193 ∧ ∃ member, Layout.rfc4193.Embeds nconf.networkId member ip) := by
    constructor
    · rintro ⟨layout, both⟩
      cases layout with
      | sixPlane => exact Or.inl both
      | rfc4193 => exact Or.inr both
    · rintro (both | both)
      · exact ⟨.sixPlane, both⟩
      · exact ⟨.rfc4193, both⟩
  rw [either, ← network_iff_member nconf.networkId nconf.issuedTo, ← network_iff_member nconf.networkId nconf.issuedTo]
  unfold Membership.isV6NDPEmulated Emulates
  cases ip with
  | nil => simp [InetAddress.isV6, InetAddress.samePrefix]
  | v4 ip port => simp [InetAddress.isV6, InetAddress.samePrefix]
  | v6 ip port =>
      by_cases emulation : nconf.ndpEmulation = true
      · simp [InetAddress.isV6, emulation, Layout.address, Layout.networkBytes]
      · simp [InetAddress.isV6, emulation]

/-- The address counts as the member's. -/
def Owned (m : Membership) (nconf : NetworkConfig) (ip : InetAddress) : Prop :=
  Certified m nconf ip ∨ ∃ layout, Emulates nconf layout ∧ ∃ member, layout.Embeds nconf.networkId member ip

theorem hasCooForIp_iff (m : Membership) (nconf : NetworkConfig) (ip : InetAddress) :
    m.hasCooForIp nconf ip = true ↔ Owned m nconf ip := by
  rw [Membership.hasCooForIp, Bool.or_eq_true, hasValidCoo_iff, isV6NDPEmulated_iff, Owned]

end Ownership

section Characteristics

variable (q : FilterInput)

/-- `ZT_RULE_PACKET_CHARACTERISTICS_SENDER_IP_AUTHENTICATED`. -/
def senderIpAuthenticated : BitVec 64 := 0x1000000000000000

/-- The source address of the frame, as far as it has one that the filter looks at. -/
def sourceIp : InetAddress := (ownershipSource q).1

/-- A neighbor solicitation. -/
def isSolicitation : Bool :=
  q.isIpv6 ∧ 40 + 8 + 16 ≤ q.frameLen ∧ q.frameData 6 = 0x3a ∧ q.frameData 40 = 0x87

theorem tcpFlags_authenticated (pos : Nat) : (tcpFlags q pos).getLsbD 60 = false := by
  simp [tcpFlags]

theorem and_authenticated (x : BitVec 64) : x &&& senderIpAuthenticated ≠ 0 ↔ x.getLsbD 60 = true := by
  have single : senderIpAuthenticated = BitVec.twoPow 64 60 := by decide
  rw [single, BitVec.and_twoPow]
  split_ifs with set
  · exact iff_of_true (by decide) set
  · exact iff_of_false (not_not.mpr rfl) set

theorem or_authenticated {first second third mask tcp : BitVec 64} (inbound : first.getLsbD 60 = false)
    (multicast : second.getLsbD 60 = false) (broadcast : third.getLsbD 60 = false) (flags : tcp.getLsbD 60 = false) :
    (first ||| second ||| third ||| mask ||| tcp).getLsbD 60 = true ↔ mask.getLsbD 60 = true := by
  simp only [BitVec.getLsbD_or, inbound, multicast, broadcast, flags, Bool.false_or, Bool.or_false]

theorem choice_authenticated {chosen : Prop} [Decidable chosen] {bits : BitVec 64} (clear : bits.getLsbD 60 = false) :
    (if chosen then bits else 0).getLsbD 60 = false := by
  split_ifs
  · exact clear
  · rfl

/-- No other characteristic and no flag of a TCP segment is taken for it. -/
theorem matchCharacteristics_iff {rule : Rule} (asks : rule.v.characteristics = senderIpAuthenticated) :
    matchCharacteristics q rule = true ↔ (ownershipVerificationMask q).getLsbD 60 = true := by
  unfold matchCharacteristics
  rw [asks, decide_eq_true_iff, and_authenticated]
  apply or_authenticated
  · exact choice_authenticated (by decide)
  · exact choice_authenticated (by decide)
  · exact choice_authenticated (by decide)
  · split_ifs
    · exact tcpFlags_authenticated q _
    · cases ipv6GetPayload q.frameData q.frameLen with
      | none => exact BitVec.getLsbD_zero
      | some payload => exact choice_authenticated (tcpFlags_authenticated q _)
    · rfl

/-- When the characteristic is set. -/
theorem mask_iff : (ownershipVerificationMask q).getLsbD 60 = true ↔
    (ownershipSource q).2 = true ∨ (sourceIp q).isSet = true ∧
      if q.inbound then ∃ m, q.membership = some m ∧ m.hasCooForIp q.nconf (sourceIp q) = true
      else ∃ coo ∈ q.nconf.certificatesOfOwnership, coo.ownsIp (sourceIp q) = true := by
  have bits (ip mac : Bool) : ((if ip then 0x1000000000000000 else 0) |||
      (if mac then 0x0800000000000000 else 0) : BitVec 64).getLsbD 60 = true ↔ ip = true := by
    decide +revert
  unfold ownershipVerificationMask sourceIp
  dsimp only
  rw [bits, Bool.or_eq_true]
  apply or_congr_right
  split_ifs with inbound
  · cases q.membership with
    | none => simp
    | some m => simp
  · simp only [List.any_eq_true, Bool.and_eq_true]
    constructor
    · rintro ⟨coo, member, set, owns⟩
      exact ⟨set, coo, member, owns⟩
    · rintro ⟨set, coo, member, owns⟩
      exact ⟨coo, member, set, owns⟩

theorem solicitation_iff : (ownershipSource q).2 = true ↔ isSolicitation q = true := by
  unfold ownershipSource isSolicitation
  have apart : q.isIpv4 = true → ¬ q.isIpv6 = true := by
    intro four six
    simp only [FilterInput.isIpv4, FilterInput.isIpv6, decide_eq_true_iff] at four six
    exact absurd (four.1.symm.trans six.1) (by decide)
  split_ifs with four six discovery solicited arp
  · simp [apart four]
  · simp_all
  · simp_all
  · simp_all
  · simp_all
  · simp_all

/-- What the sender of a frame must have for its address: if it is another member, a certificate or an emulated
address, and for a frame of our own one of our certificates. -/
def SourceOwned : Prop :=
  if q.inbound then ∃ m, q.membership = some m ∧ Owned m q.nconf (sourceIp q)
  else ∃ coo ∈ q.nconf.certificatesOfOwnership, Lists coo (sourceIp q)

end Characteristics

/-- An address counts as a member's only if a valid certificate of the member lists exactly this address or it is
emulated in this network, and a frame has an authenticated sender only if it is a neighbor solicitation or its
source address counts as the sender's. -/
theorem ip_ownership (m : Membership) (nconf : NetworkConfig) (ip : InetAddress) (q : FilterInput) (rule : Rule) :
    (m.hasCooForIp nconf ip = true → Owned m nconf ip) ∧
      (rule.v.characteristics = senderIpAuthenticated → matchCharacteristics q rule = true →
        isSolicitation q = true ∨ SourceOwned q) := by
  refine ⟨(hasCooForIp_iff m nconf ip).mp, ?_⟩
  intro asks matches_
  rcases (mask_iff q).mp ((matchCharacteristics_iff q asks).mp matches_) with solicitation | ⟨-, owned⟩
  · exact Or.inl ((solicitation_iff q).mp solicitation)
  · right
    unfold SourceOwned
    split_ifs at owned ⊢ with inbound
    · obtain ⟨m, membership, has⟩ := owned
      exact ⟨m, membership, (hasCooForIp_iff m q.nconf _).mp has⟩
    · obtain ⟨coo, member, owns⟩ := owned
      exact ⟨coo, member, (ownsIp_iff coo _).mp owns⟩

section Members

variable (m : Membership) (nconf : NetworkConfig) (ip : InetAddress)

/-- The address is the member's own: a valid certificate lists it, or it spells this member where addresses are
emulated. -/
def BelongsTo (member : Address) : Prop :=
  Certified m nconf ip ∨ nconf.ndpEmulation = true ∧ ∃ layout, Layout.Embeds nconf.networkId member ip layout

/-- In a layout whose addresses are emulated the address spells this member, or none, unless a valid certificate
lists it. -/
def SpellsNoOther (member : Address) : Prop :=
  ∀ layout, Emulates nconf layout → ∀ other, layout.Embeds nconf.networkId other ip →
    other = member ∨ Certified m nconf ip

variable {m nconf ip} {member other : Address} {layout : Layout}

/-- An address is of one layout at most, and spells one member. -/
theorem embeds_unique {nwid : BitVec 64} {layout' : Layout} (first : layout.Embeds nwid other ip)
    (second : layout'.Embeds nwid member ip) : other = member := by
  have below := other.isLt
  have below' := member.isLt
  have folded := ((nwid ^^^ (nwid >>> 32)).setWidth 32).isLt
  have whole := nwid.isLt
  apply BitVec.eq_of_toNat_eq
  cases ip with
  | nil => simp [Layout.Embeds, InetAddress.samePrefix] at first
  | v4 ip port => simp [Layout.Embeds, InetAddress.samePrefix] at first
  | v6 ip port =>
      rw [embeds_iff] at first second
      cases layout with
      | sixPlane =>
          cases layout' with
          | sixPlane => omega
          | rfc4193 =>
              simp only [Layout.network, Layout.memberBytes, Layout.networkBytes] at first second
              omega
      | rfc4193 =>
          cases layout' with
          | sixPlane =>
              simp only [Layout.network, Layout.memberBytes, Layout.networkBytes] at first second
              omega
          | rfc4193 => omega

theorem BelongsTo.spelled (belongs : BelongsTo m nconf ip member)
    (embeds : layout.Embeds nconf.networkId other ip) : other = member ∨ Certified m nconf ip := by
  rcases belongs with certified | ⟨-, layout', own⟩
  · exact Or.inr certified
  · exact Or.inl (embeds_unique embeds own)

theorem SpellsNoOther.belongs (spells : SpellsNoOther m nconf ip member) (owned : Owned m nconf ip) :
    BelongsTo m nconf ip member := by
  rcases owned with certified | ⟨layout, emulates, other, embeds⟩
  · exact Or.inl certified
  · rcases spells layout emulates other embeds with same | certified
    · rw [same] at embeds
      exact Or.inr ⟨emulates.1, layout, embeds⟩
    · exact Or.inl certified

variable (q : FilterInput)

/-- The source address of the frame is its sender's own. -/
def SenderOwns : Prop :=
  if q.inbound then ∃ m, q.membership = some m ∧ BelongsTo m q.nconf (sourceIp q) q.ztSource
  else ∃ coo ∈ q.nconf.certificatesOfOwnership, Lists coo (sourceIp q)

/-- The rules see the characteristic on a frame with a source address only if this is the sender's own. -/
def AuthenticatesOwn : Prop :=
  ∀ rule : Rule, rule.v.characteristics = senderIpAuthenticated → matchCharacteristics q rule = true →
    (sourceIp q).isSet = true → SenderOwns q

theorem sourceIp_solicitation (solicitation : (ownershipSource q).2 = true) : sourceIp q = .nil := by
  unfold sourceIp
  unfold ownershipSource at solicitation ⊢
  split_ifs at solicitation ⊢
  rfl

theorem authenticatesOwn_iff : AuthenticatesOwn q ↔
    (q.inbound = true → ∀ m, q.membership = some m → SpellsNoOther m q.nconf (sourceIp q) q.ztSource) := by
  constructor
  · intro own inbound m membership layout emulates other embeds
    have has : m.hasCooForIp q.nconf (sourceIp q) = true :=
      (hasCooForIp_iff m q.nconf _).mpr (Or.inr ⟨layout, emulates, other, embeds⟩)
    have set : (sourceIp q).isSet = true := by
      cases source : sourceIp q with
      | nil =>
          rw [source] at embeds
          simp [Layout.Embeds, InetAddress.samePrefix] at embeds
      | v4 ip port => rfl
      | v6 ip port => rfl
    have marked : (ownershipVerificationMask q).getLsbD 60 = true := by
      rw [mask_iff, if_pos inbound]
      exact Or.inr ⟨set, m, membership, has⟩
    have owns := own ⟨0, { characteristics := senderIpAuthenticated }⟩ rfl
      ((matchCharacteristics_iff q rfl).mpr marked) set
    rw [SenderOwns, if_pos inbound] at owns
    obtain ⟨m', membership', belongs⟩ := owns
    rw [membership, Option.some.injEq] at membership'
    rw [← membership'] at belongs
    exact belongs.spelled embeds
  · intro spells rule asks matches_ set
    rcases (mask_iff q).mp ((matchCharacteristics_iff q asks).mp matches_) with solicitation | ⟨-, owned⟩
    · rw [sourceIp_solicitation q solicitation] at set
      cases set
    · unfold SenderOwns
      split_ifs at owned ⊢ with inbound
      · obtain ⟨m, membership, has⟩ := owned
        exact ⟨m, membership, (spells inbound m membership).belongs ((hasCooForIp_iff m q.nconf _).mp has)⟩
      · obtain ⟨coo, listed, owns⟩ := owned
        exact ⟨coo, listed, (ownsIp_iff coo _).mp owns⟩

end Members

section Small

/-- A network with NDP emulation, as member 2 knows it. -/
def emulatedConfig : NetworkConfig :=
  { NetworkConfig.nil with
    networkId := 0x8056c2e21c000001
    issuedTo := 2
    flags := 0x4
    staticIps := [Layout.sixPlane.address 0x8056c2e21c000001 2] }

/-- The 6PLANE address of member 4. -/
def addressOfFour : InetAddress := Layout.sixPlane.address 0x8056c2e21c000001 4

/-- The fields of an IPv6 header in front of its source address, and the address of member 4. -/
def spoofedHeader : List Byte :=
  [0x60, 0, 0, 0, 0, 0, 0x11, 0x40, 0xfc, 0x9c, 0x56, 0xc2, 0xe3, 0, 0, 0, 0, 4, 0, 0, 0, 0, 0, 1]

/-- A frame from member 3, who has no certificate, with that source address. -/
def spoofedFrame : FilterInput :=
  ⟨2, emulatedConfig, some .nil, true, 3, 0x320000000003, 0x320000000002, fun i => spoofedHeader.getD i 0, 60,
    etherTypeIpv6, 0, fun _ => 0⟩

theorem spoofedFrame_matches :
    matchCharacteristics spoofedFrame ⟨0, { characteristics := senderIpAuthenticated }⟩ = true :=
  (matchCharacteristics_iff spoofedFrame rfl).mpr (by decide)

theorem nil_certified (nconf : NetworkConfig) (ip : InetAddress) : ¬ Certified .nil nconf ip := by
  rintro ⟨id, coo, found, -⟩
  cases found

/-- The address and the frame are accounted for by the emulation. -/
theorem emulated_address_owned :
    Owned .nil emulatedConfig addressOfFour ∧ SourceOwned spoofedFrame := by
  have asked := ip_ownership .nil emulatedConfig addressOfFour spoofedFrame
    ⟨0, { characteristics := senderIpAuthenticated }⟩
  refine ⟨asked.1 (by decide), ?_⟩
  exact (asked.2 rfl spoofedFrame_matches).resolve_left (by decide)

end Small

end ZeroTierNode.IpOwnership

import ZeroTierNode.CredentialPush

/-!
Credential packets from sender to receiver. The receiver lets in one such packet of
a peer in a second; of those it lets in it passes on everything, and nothing of the
others, so that the packets of one push reach it as a whole only if they are spaced.
-/

namespace ZeroTierNode.CredentialDelivery
open Library.Bytes Library.Records CredentialPackets CredentialCodec CredentialPush

section Receiving

variable (crypto : Crypto) (RR : RuntimeEnvironment) (unpack : List Byte → Option (List Byte))

/-- A packet of the sender at the time it reaches the receiver. -/
structure Arrival where
  now : Int
  packet : List Byte

/-- A packet is uncompressed and handled; the state is the receiver's record of the sender and its networks. -/
def receive (state : Peer × Receiver) (arrival : Arrival) : Peer × Receiver :=
  match Packet.uncompress unpack arrival.packet with
  | none => state
  | some plain => (doNetworkCredentials crypto RR arrival.now state.1 plain state.2).2

def receiveAll (state : Peer × Receiver) (arrivals : List Arrival) : Peer × Receiver :=
  arrivals.foldl (receive crypto RR unpack) state

/-- The credentials that the receiver finds in a packet. -/
def contentOf (packet : List Byte) : List Credential := ((Packet.uncompress unpack packet).map credentialsIn).getD []

/-- The arrivals that the rate gate lets in, the last one before them having been let in at `last`. -/
def letIn : Int → List Arrival → List Arrival
  | _, [] => []
  | last, arrival :: arrivals =>
      if RateGates.peerCredentialsRateLimit ≤ arrival.now - last then arrival :: letIn arrival.now arrivals
      else letIn last arrivals

/-- Every packet comes at least a second after the one before it. -/
def Spaced : Int → List Arrival → Prop
  | _, [] => True
  | last, arrival :: arrivals => RateGates.peerCredentialsRateLimit ≤ arrival.now - last ∧ Spaced arrival.now arrivals

theorem letIn_spaced {last : Int} {arrivals : List Arrival} (spaced : Spaced last arrivals) :
    letIn last arrivals = arrivals := by
  induction arrivals generalizing last with
  | nil => rfl
  | cons arrival arrivals ih => rw [letIn, if_pos spaced.1, ih spaced.2]

variable {crypto RR unpack}

/-- The packets that are let in are passed on as a whole, and nothing of the others. -/
theorem receiveAll_passed {arrivals : List Arrival} {peer : Peer} {r : Receiver}
    (readable : ∀ arrival ∈ arrivals, (Packet.uncompress unpack arrival.packet).isSome)
    (known : ∀ arrival ∈ arrivals, ∀ credential ∈ contentOf unpack arrival.packet, SignersKnown crypto RR credential) :
    (receiveAll crypto RR unpack (peer, r) arrivals).2.passed =
      r.passed ++ ((letIn peer.lastCredentialsReceived arrivals).flatMap fun arrival =>
        contentOf unpack arrival.packet).filter (wanted r) := by
  induction arrivals generalizing peer r with
  | nil => simp [receiveAll, letIn]
  | cons arrival arrivals ih =>
      obtain ⟨plain, opened⟩ := Option.isSome_iff_exists.mp (readable arrival List.mem_cons_self)
      have content : contentOf unpack arrival.packet = credentialsIn plain := by
        rw [contentOf, opened]
        rfl
      have signers := known arrival List.mem_cons_self
      rw [content] at signers
      have step : receive crypto RR unpack (peer, r) arrival =
          if 1000 ≤ arrival.now - peer.lastCredentialsReceived then
            ({ peer with lastCredentialsReceived := arrival.now }, offerAll crypto RR r (credentialsIn plain))
          else (peer, r) := by
        rw [receive, opened]
        exact doNetworkCredentials_known signers arrival.now peer r
      change (receiveAll crypto RR unpack (receive crypto RR unpack (peer, r) arrival) arrivals).2.passed = _
      rw [step, letIn]
      by_cases ripe : (1000 : Int) ≤ arrival.now - peer.lastCredentialsReceived
      · rw [if_pos ripe, if_pos ripe, ih (fun other member => readable other (List.mem_cons_of_mem _ member))
          (fun other member => known other (List.mem_cons_of_mem _ member)), offerAll_passed, offerAll_wanted,
          List.flatMap_cons, List.filter_append, content, List.append_assoc]
      · rw [if_neg ripe, if_neg ripe]
        exact ih (fun other member => readable other (List.mem_cons_of_mem _ member))
          (fun other member => known other (List.mem_cons_of_mem _ member))

end Receiving

section Carried

theorem ruleFieldBytes_carried (v : RuleValue) (type : RuleType) :
    ruleFieldBytes (carriedValue v type) type = ruleFieldBytes v type := by
  have address : Address.ofInt (Address.ofInt v.zt).toInt = Address.ofInt v.zt := by
    simp [Address.ofInt, Address.toInt]
  cases type with
  | matchSourceZeroTierAddress | matchDestZeroTierAddress => exact congrArg Address.appendTo address
  | _ => rfl

theorem serialize_carried (cap : Capability) (forSign : Bool) : cap.carried.serialize forSign = cap.serialize forSign := by
  have rules : serializeRules (cap.rules.map Rule.carried) = serializeRules cap.rules := by
    rw [serializeRules, serializeRules, List.flatMap_map]
    congr 1
    funext rule
    change wordBytes 1 rule.t ++ wordBytes 1 (BitVec.ofNat 8 (ruleFieldLen rule.ruleType)) ++
      ruleFieldBytes (carriedValue rule.v rule.ruleType) rule.ruleType = _
    rw [ruleFieldBytes_carried, serializeRule]
  rw [Capability.serialize, Capability.serialize, Capability.carried]
  dsimp only
  rw [rules, List.length_map]

/-- What the wire loses of a capability was never signed. -/
theorem verify_carried (crypto : Crypto) (RR : RuntimeEnvironment) (credential : Credential) :
    credential.carried.verify crypto RR = credential.verify crypto RR := by
  cases credential with
  | capability cap =>
      have turns (c n : Nat) : cap.carried.verifyFrom crypto RR c n = cap.verifyFrom crypto RR c n := by
        induction n generalizing c with
        | zero => rfl
        | succ n ih =>
            have signed := serialize_carried cap true
            rw [Capability.verifyFrom, Capability.verifyFrom, signed, ih]
            rfl
      change cap.carried.verify crypto RR = cap.verify crypto RR
      rw [Capability.verify, Capability.verify, turns]
      rfl
  | _ => rfl

theorem wanted_carried (r : Receiver) (credential : Credential) : wanted r credential.carried = wanted r credential := by
  cases credential with
  | capability cap => rfl
  | _ => rfl

end Carried

/-- `LZ4_decompress_safe` gives back what `LZ4_compress_fast` was given, for anything that fits in a packet. -/
def Inverse (pack : List Byte → List Byte) (unpack : List Byte → Option (List Byte)) : Prop :=
  ∀ payload : List Byte, payload.length ≤ Packet.maxPacketLength - 28 → unpack (pack payload) = some payload

/-- The law of delivery for the packets that a node sends to another. -/
structure Delivered (unpack : List Byte → Option (List Byte)) (packets : List (List Byte))
    (credentials : List Credential) : Prop where
  fits : ∀ packet ∈ packets, packet.length ≤ Packet.maxPacketLength
  /-- Each credential stands in exactly one packet. -/
  once : ∃ contents : List (List Credential), contents.flatten.Perm credentials ∧
    packets.map (contentOf unpack) = contents.map (List.map Credential.carried)
  /-- In whatever order and at whatever times they arrive, the gate decides, and it decides by packets. -/
  gated : ∀ (crypto : Crypto) (RR : RuntimeEnvironment) (peer : Peer) (r : Receiver) (arrivals : List Arrival),
    (∀ credential ∈ credentials, credential.verify crypto RR = .ok) → (arrivals.map Arrival.packet).Perm packets →
      (receiveAll crypto RR unpack (peer, r) arrivals).2.passed =
        r.passed ++ ((letIn peer.lastCredentialsReceived arrivals).flatMap fun arrival =>
          contentOf unpack arrival.packet).filter (wanted r)
  /-- When the gate lets each of them in, all of the credentials are passed on. -/
  passed : ∀ (crypto : Crypto) (RR : RuntimeEnvironment) (peer : Peer) (r : Receiver) (arrivals : List Arrival),
    (∀ credential ∈ credentials, credential.verify crypto RR = .ok) → (arrivals.map Arrival.packet).Perm packets →
      Spaced peer.lastCredentialsReceived arrivals → (∀ credential ∈ credentials, wanted r credential = true) →
        (receiveAll crypto RR unpack (peer, r) arrivals).2.passed.Perm
          (r.passed ++ credentials.map Credential.carried)

section Delivery

variable {unpack : List Byte → Option (List Byte)} {send : List Byte → List Byte} {built : List Built}
  {credentials : List Credential}

theorem contentOf_built {packet : Built} (sound : packet.Sound) {sent : List Byte}
    (opened : Packet.uncompress unpack sent = some packet.bytes) :
    contentOf unpack sent = packet.contents.all.map Credential.carried := by
  rw [contentOf, opened]
  exact credentialsIn_body sound.header.long sound.sorted

theorem content_of_built (sound : ∀ packet ∈ built, packet.Sound)
    (sent : ∀ packet ∈ built, Packet.uncompress unpack (send packet.bytes) = some packet.bytes) :
    (built.map fun packet => send packet.bytes).map (contentOf unpack) =
      (built.map fun packet => packet.contents.all).map (List.map Credential.carried) := by
  rw [List.map_map, List.map_map]
  exact List.map_congr_left fun packet member => contentOf_built (sound packet member) (sent packet member)

/-- What arrives is readable, and no credential in it has to wait for its signers. -/
theorem gated_of_built (sound : ∀ packet ∈ built, packet.Sound)
    (sent : ∀ packet ∈ built, Packet.uncompress unpack (send packet.bytes) = some packet.bytes)
    (parts : (built.flatMap fun packet => packet.contents.all).Perm credentials) {crypto : Crypto}
    {RR : RuntimeEnvironment} {peer : Peer} {r : Receiver} {arrivals : List Arrival}
    (valid : ∀ credential ∈ credentials, credential.verify crypto RR = .ok)
    (same : (arrivals.map Arrival.packet).Perm (built.map fun packet => send packet.bytes)) :
    (receiveAll crypto RR unpack (peer, r) arrivals).2.passed =
      r.passed ++ ((letIn peer.lastCredentialsReceived arrivals).flatMap fun arrival =>
        contentOf unpack arrival.packet).filter (wanted r) := by
  have origin : ∀ arrival ∈ arrivals, ∃ packet ∈ built, send packet.bytes = arrival.packet := by
    intro arrival member
    exact List.mem_map.mp (same.mem_iff.mp (List.mem_map_of_mem member))
  apply receiveAll_passed
  · intro arrival member
    obtain ⟨packet, found, bytes⟩ := origin arrival member
    rw [← bytes, sent packet found]
    rfl
  · intro arrival member credential found
    obtain ⟨packet, among, bytes⟩ := origin arrival member
    rw [← bytes, contentOf_built (sound packet among) (sent packet among)] at found
    obtain ⟨original, holds, carried⟩ := List.mem_map.mp found
    have verdict := valid original (parts.mem_iff.mp (List.mem_flatMap.mpr ⟨packet, among, holds⟩))
    rw [SignersKnown, ← carried, verify_carried, verdict]
    decide

theorem delivered_of_built (sound : ∀ packet ∈ built, packet.Sound)
    (sent : ∀ packet ∈ built, (send packet.bytes).length ≤ packet.bytes.length ∧
      Packet.uncompress unpack (send packet.bytes) = some packet.bytes)
    (parts : (built.flatMap fun packet => packet.contents.all).Perm credentials) :
    Delivered unpack (built.map fun packet => send packet.bytes) credentials := by
  have opened := fun packet member => (sent packet member).2
  have content := content_of_built sound opened
  refine ⟨?_, ⟨built.map fun packet => packet.contents.all, ?_, content⟩, ?_, ?_⟩
  · intro packet member
    obtain ⟨original, among, same⟩ := List.mem_map.mp member
    rw [← same]
    exact (sent original among).1.trans (sound original among).fits
  · rw [← List.flatMap_def]
    exact parts
  · exact fun crypto RR peer r arrivals valid same => gated_of_built sound opened parts valid same
  · intro crypto RR peer r arrivals valid same spaced joined
    rw [gated_of_built sound opened parts valid same, letIn_spaced spaced, ← List.flatMap_map]
    have arrived : ((arrivals.map Arrival.packet).flatMap (contentOf unpack)).Perm
        (credentials.map Credential.carried) := by
      refine (same.flatMap_right (contentOf unpack)).trans ?_
      rw [List.flatMap_def, content, ← List.map_flatten, ← List.flatMap_def]
      exact parts.map _
    have every : ∀ credential ∈ (arrivals.map Arrival.packet).flatMap (contentOf unpack), wanted r credential = true := by
      intro credential found
      obtain ⟨original, among, carried⟩ := List.mem_map.mp (arrived.mem_iff.mp found)
      rw [← carried, wanted_carried]
      exact joined original among
    rw [List.filter_eq_self.mpr every]
    exact arrived.append_left _

theorem foldlM_append {parts : List (List Byte)} {outp : List Byte}
    (room : outp.length + parts.flatten.length ≤ Packet.maxPacketLength) :
    parts.foldlM append outp = some (outp ++ parts.flatten) := by
  induction parts generalizing outp with
  | nil => simp
  | cons part parts ih =>
      rw [List.flatten_cons, List.length_append] at room
      rw [List.foldlM_cons, append_eq (by omega), Option.bind_eq_bind, Option.bind_some, ih, List.flatten_cons,
        List.append_assoc]
      rw [List.length_append]
      omega

theorem foldlM_append_eq {parts : List (List Byte)} {outp : List Byte} (start : outp.length ≤ Packet.maxPacketLength) :
    parts.foldlM append outp =
      if outp.length + parts.flatten.length ≤ Packet.maxPacketLength then some (outp ++ parts.flatten) else none := by
  by_cases room : outp.length + parts.flatten.length ≤ Packet.maxPacketLength
  · rw [if_pos room, foldlM_append room]
  · rw [if_neg room]
    induction parts generalizing outp with
    | nil => exact absurd start room
    | cons part parts ih =>
        rw [List.flatten_cons, List.length_append] at room
        rw [List.foldlM_cons]
        by_cases here : outp.length + part.length ≤ Packet.maxPacketLength
        · rw [append_eq here, Option.bind_eq_bind, Option.bind_some]
          have length : (outp ++ part).length = outp.length + part.length := List.length_append
          exact ih (by omega) (by omega)
        · rw [append, if_neg here]
          rfl

/-- A packet with a single credential that goes out as it is. -/
theorem delivered_single {header : List Byte} (sound : Header header) {contents : Contents} {credential : Credential}
    (sorted : contents.Sorted) (single : contents.all = [credential])
    (fits : header.length + contents.body.length ≤ Packet.maxPacketLength) :
    Delivered unpack [header ++ contents.body] [credential] := by
  have plain : Packet.uncompress unpack (header ++ contents.body) = some (header ++ contents.body) := by
    rw [Packet.uncompress, sound.compressed, if_neg (by simp)]
  refine @delivered_of_built unpack id [⟨header, contents⟩] [credential] ?_ ?_ ?_
  · intro packet member
    rw [List.mem_singleton.mp member]
    refine ⟨sound, sorted, ?_, ?_⟩
    · rw [Built.bytes, List.length_append]
      exact fits
    · rw [single]
      exact List.cons_ne_nil _ _
  · intro packet member
    rw [List.mem_singleton.mp member]
    exact ⟨Nat.le_refl _, plain⟩
  · rw [List.flatMap_cons, List.flatMap_nil, List.append_nil, single]

theorem ofKind_nil (kind : CredentialType) : OfKind kind [] := ⟨by simp, by simp⟩

theorem ofKind_singleton {credential : Credential} (inArrays : InArrays credential) :
    OfKind credential.kind [credential] := by
  refine ⟨fun other member => ?_, by simp⟩
  rw [List.mem_singleton.mp member]
  exact ⟨inArrays, rfl⟩

/-- A packet with a single credential that is written part by part. -/
theorem parts_delivered {header : List Byte} (sound : Header header) {contents : Contents} {credential : Credential}
    {parts : List (List Byte)} (sorted : contents.Sorted) (single : contents.all = [credential])
    (body : contents.body = parts.flatten) (short : parts.flatten.length ≤ 305) :
    ∃ packet, parts.foldlM append header = some packet ∧ Delivered unpack [packet] [credential] := by
  have fits : header.length + parts.flatten.length ≤ Packet.maxPacketLength := by
    rw [sound.long]
    unfold Packet.maxPacketLength
    omega
  refine ⟨header ++ contents.body, ?_, delivered_single sound sorted single ?_⟩
  · rw [body]
    exact foldlM_append fits
  · rw [body]
    exact fits

theorem comPacket_delivered {header : List Byte} (sound : Header header) {com : CertificateOfMembership}
    (canonical : com.Canonical) :
    ∃ packet, comPacket header com = some packet ∧ Delivered unpack [packet] [.com com] := by
  have short := com_wire_length canonical
  refine @parts_delivered unpack header sound ⟨[.com com], [], [], [], []⟩ (.com com) _ ?_ rfl ?_ ?_
  · exact ⟨@ofKind_singleton (.com com) canonical, ofKind_nil _, ofKind_nil _, ofKind_nil _, ofKind_nil _⟩
  · simp [Contents.body, counted, wire, Credential.serialize]
  · simp only [List.flatten_cons, List.flatten_nil, List.length_append, count16, wordBytes_length,
      List.length_singleton, List.length_nil]
    omega

theorem revocationPacket_delivered {header : List Byte} (sound : Header header) (rev : Revocation) :
    ∃ packet, revocationPacket header rev = some packet ∧ Delivered unpack [packet] [.revocation rev] := by
  have short := @wire_length_le (.revocation rev) trivial
  change (rev.serialize false).length ≤ 152 at short
  refine @parts_delivered unpack header sound ⟨[], [], [], [.revocation rev], []⟩ (.revocation rev) _ ?_ rfl ?_ ?_
  · exact ⟨ofKind_nil _, ofKind_nil _, ofKind_nil _, @ofKind_singleton (.revocation rev) trivial, ofKind_nil _⟩
  · simp [Contents.body, counted, wire, Credential.serialize]
  · simp only [List.flatten_cons, List.flatten_nil, List.length_append, count16, wordBytes_length,
      List.length_singleton, List.length_nil]
    omega

end Delivery

/-- The credentials of a node on a network. -/
def pushed (nconf : NetworkConfig) : List Credential :=
  (if nconf.com.isSet then [.com nconf.com] else []) ++ (nconf.capabilities.map .capability ++
    (nconf.tags.map .tag ++ nconf.certificatesOfOwnership.map .coo))

/-- The entries of an array of the configuration, as credentials of one kind. -/
theorem ofArray_sound {entry : Type} (make : entry → Credential) {kind : CredentialType}
    (kinds : ∀ e, (make e).kind = kind) {entries : List entry} {credentials : List Credential}
    (within : ∀ credential ∈ entries.map make, credential ∈ credentials)
    (inArrays : ∀ credential ∈ credentials, InArrays credential) :
    ∀ credential ∈ entries.map make, InArrays credential ∧ credential.kind = kind := by
  intro credential member
  refine ⟨inArrays credential (within credential member), ?_⟩
  obtain ⟨e, -, same⟩ := List.mem_map.mp member
  rw [← same]
  exact kinds e

theorem pushCredentials_built (sizes : ClassSizes) (pack : List Byte → List Byte)
    (fresh : Nat → BitVec 64 × BitVec 64) (self peerAddress : Address) {nconf : NetworkConfig}
    (inArrays : ∀ credential ∈ pushed nconf, InArrays credential) :
    ∃ built : List Built, (∀ fuel, (pushed nconf).length < fuel →
        pushCredentials sizes pack fresh self peerAddress nconf fuel =
          some (built.map fun packet => Packet.compress pack packet.bytes)) ∧
      (∀ packet ∈ built, packet.Sound) ∧ (built.flatMap fun packet => packet.contents.all).Perm (pushed nconf) := by
  let left : Pending := ⟨nconf.com.isSet, nconf.capabilities.map .capability, nconf.tags.map .tag,
    nconf.certificatesOfOwnership.map .coo⟩
  have sound : left.Sound nconf.com := by
    refine ⟨fun sendCom => ?_, ofArray_sound .capability (fun _ => rfl) ?_ inArrays,
      ofArray_sound .tag (fun _ => rfl) ?_ inArrays, ofArray_sound .coo (fun _ => rfl) ?_ inArrays⟩
    · refine inArrays (.com nconf.com) (List.mem_append_left _ ?_)
      rw [if_pos sendCom]
      exact List.mem_singleton_self _
    · exact fun credential member => List.mem_append_right _ (List.mem_append_left _ member)
    · exact fun credential member => List.mem_append_right _ (List.mem_append_right _ (List.mem_append_left _ member))
    · exact fun credential member => List.mem_append_right _ (List.mem_append_right _ (List.mem_append_right _ member))
  exact pushFrom_spec sizes pack (fun n => newPacket_header (fresh n).1 (fresh n).2 peerAddress self)
    (pushed nconf).length 0 sound (Nat.le_refl _)

/-- Compression is undone by the receiver. -/
theorem opened_built {pack : List Byte → List Byte} {unpack : List Byte → Option (List Byte)}
    (inverse : Inverse pack unpack) {packet : Built} (sound : packet.Sound) :
    (Packet.compress pack packet.bytes).length ≤ packet.bytes.length ∧
      Packet.uncompress unpack (Packet.compress pack packet.bytes) = some packet.bytes := by
  have fits := sound.fits
  have long : 28 ≤ packet.bytes.length := by
    rw [Built.bytes, List.length_append, sound.header.long]
    omega
  have plain : Packet.compressed packet.bytes = false := sound.header.compressed _
  refine ⟨Packet.compress_length_le long plain pack, Packet.uncompress_compress long plain fits (inverse _ ?_)⟩
  rw [List.length_drop]
  omega

/-- What `pushCredentials` sends always ends, fits and holds each credential once, and so do the COM-only packets of
`_sendUpdatesToMembers` and the revocations that `addCredential` passes on. The receiver passes on what its rate gate
lets in, and all of it when the packets are a second apart. -/
theorem credential_packets_delivered (sizes : ClassSizes) (pack : List Byte → List Byte)
    (unpack : List Byte → Option (List Byte)) (inverse : Inverse pack unpack) :
    (∀ (fresh : Nat → BitVec 64 × BitVec 64) (self peerAddress : Address) (nconf : NetworkConfig),
      (∀ credential ∈ pushed nconf, InArrays credential) →
        ∃ packets, (∀ fuel, (pushed nconf).length < fuel →
            pushCredentials sizes pack fresh self peerAddress nconf fuel = some packets) ∧
          Delivered unpack packets (pushed nconf)) ∧
    (∀ (fresh : Address → BitVec 64 × BitVec 64) (self : Address) (net : Network) (alwaysAnnounceTo : List Address),
      net.config.com.Canonical → ∀ sent ∈ comPackets fresh self net alwaysAnnounceTo,
        ∃ packet, sent.2 = some packet ∧ Delivered unpack [packet] [.com net.config.com]) ∧
    ∀ (crypto : Crypto) (RR : RuntimeEnvironment) (fresh : Address → BitVec 64 × BitVec 64) (net : Network)
      (sentFrom : Address) (rev : Revocation), ∀ sent ∈ revocationPackets crypto RR fresh net sentFrom rev,
        ∃ packet, sent.2 = some packet ∧ Delivered unpack [packet] [.revocation rev] := by
  refine ⟨?_, ?_, ?_⟩
  · intro fresh self peerAddress nconf inArrays
    obtain ⟨built, sent, each, parts⟩ := pushCredentials_built sizes pack fresh self peerAddress inArrays
    exact ⟨_, sent, delivered_of_built each (fun packet member => opened_built inverse (each packet member)) parts⟩
  · intro fresh self net alwaysAnnounceTo canonical sent member
    obtain ⟨a, -, same⟩ := List.mem_map.mp member
    rw [← same]
    exact comPacket_delivered (newPacket_header ..) canonical
  · intro crypto RR fresh net sentFrom rev sent member
    unfold revocationPackets at member
    dsimp only at member
    split at member
    · obtain ⟨a, -, same⟩ := List.mem_map.mp member
      rw [← same]
      exact revocationPacket_delivered (newPacket_header ..) rev
    · cases member

/-- The sizes on this platform. -/
def esp32 : ClassSizes := ⟨2864, 136, 416, by decide, by decide, by decide, by decide⟩

/-- The block that LZ4 writes where it finds nothing to compress, for payloads from 15 to 269 bytes. -/
def literals (payload : List Byte) : List Byte := 0xf0 :: BitVec.ofNat 8 (payload.length - 15) :: payload

/-- A tag signed by the controller of network 0x8056c2e21c000001. -/
def issuedTag (id : Nat) : Tag where
  id := BitVec.ofNat 32 id
  value := 0x6b8d42f0
  networkId := 0x8056c2e21c000001
  ts := 0x18bcfe56800
  issuedTo := 0x9a8b7c6d5e
  signedBy := 0x8056c2e21c
  signature := wordOf 768 ((List.range 96).map fun i => BitVec.ofNat 8 (i * 37 + 11))

def withTags (ids : List Nat) : NetworkConfig :=
  { NetworkConfig.nil with networkId := 0x8056c2e21c000001, tags := ids.map issuedTag }

/-- Signatures are taken as genuine, and the controller is known. -/
def trusting : Crypto := ⟨fun _ _ _ => true, fun _ => 0⟩

def knowing : RuntimeEnvironment := ⟨⟨7, 1⟩, fun a => some ⟨a, 1⟩⟩

def member : Receiver :=
  ⟨fun id => if id = 0x8056c2e21c000001 then some ⟨id, .nil, 0, false, ∅⟩ else none, []⟩

theorem withTags_pushed (ids : List Nat) : pushed (withTags ids) = ids.map fun id => .tag (issuedTag id) := by
  have noCom : (withTags ids).com.isSet = false := rfl
  rw [pushed, noCom]
  simp [withTags, NetworkConfig.nil]

theorem issuedTag_valid (id : Nat) : (Credential.tag (issuedTag id)).verify trusting knowing = .ok := by
  have controller : ¬((issuedTag id).signedBy = 0 ∨ (issuedTag id).signedBy ≠ controllerFor (issuedTag id).networkId) := by
    change ¬((0x8056c2e21c : Address) = 0 ∨ (0x8056c2e21c : Address) ≠ controllerFor 0x8056c2e21c000001)
    decide
  have known : (knowing.getIdentity (issuedTag id).signedBy).isSet = true := by
    change (knowing.getIdentity 0x8056c2e21c).isSet = true
    decide
  have genuine (data : List Byte) (signature : Signature) (signer : Identity) :
      signer.verify trusting data signature = true := rfl
  rw [Credential.verify, Tag.verify, verifySigned, if_neg controller]
  dsimp only
  rw [if_pos known, genuine, if_pos rfl]

theorem issuedTag_wanted (id : Nat) : wanted member (.tag (issuedTag id)) = true := rfl

/-- A single tag goes out in one packet and is passed on. -/
theorem tag_delivered :
    ∃ packet, pushCredentials esp32 literals (fun _ => (3, 0)) 9 7 (withTags [5]) 2 = some [packet] ∧
      (receiveAll trusting knowing (fun block => some (block.drop 2)) (Peer.new ⟨9, 0⟩, member)
        [⟨5000, packet⟩]).2.passed = [.tag (issuedTag 5)] := by
  have one : pushed (withTags [5]) = [.tag (issuedTag 5)] := withTags_pushed [5]
  obtain ⟨packets, sent, delivered⟩ := (credential_packets_delivered esp32 literals (fun block => some (block.drop 2))
    (fun payload _ => rfl)).1 (fun _ => (3, 0)) 9 7 (withTags [5]) (by
      rw [one]
      exact fun credential among => (List.mem_singleton.mp among) ▸ trivial)
  rw [one] at sent delivered
  have run := sent 2 (by decide)
  have count : (pushCredentials esp32 literals (fun _ => (3, 0)) 9 7 (withTags [5]) 2).map List.length = some 1 := by
    decide +kernel
  rw [run, Option.map_some, Option.some_inj, List.length_eq_one_iff] at count
  obtain ⟨packet, single⟩ := count
  rw [single] at run delivered
  refine ⟨packet, run, List.perm_singleton.mp ?_⟩
  refine delivered.passed trusting knowing (Peer.new ⟨9, 0⟩) member [⟨5000, packet⟩] ?_ (List.Perm.refl _) ?_ ?_
  · exact fun credential among => (List.mem_singleton.mp among) ▸ issuedTag_valid 5
  · exact ⟨(by decide : (1000 : Int) ≤ 5000 - 0), trivial⟩
  · exact fun credential among => (List.mem_singleton.mp among) ▸ issuedTag_wanted 5

theorem letIn_at_once {t last : Int} (ripe : RateGates.peerCredentialsRateLimit ≤ t - last) (packet : List Byte)
    (others : List (List Byte)) :
    letIn last ((packet :: others).map fun packet => ⟨t, packet⟩) = [⟨t, packet⟩] := by
  have refused : letIn t (others.map fun packet => ⟨t, packet⟩) = [] := by
    induction others with
    | nil => rfl
    | cons other others ih =>
        rw [List.map_cons, letIn, if_neg, ih]
        rw [Int.sub_self]
        decide
  rw [List.map_cons, letIn, if_pos ripe, refused]

theorem wires_in_body (contents : Contents) : (contents.all.flatMap wire).length ≤ contents.body.length := by
  simp only [Contents.all, Contents.body, counted, List.flatMap_append, List.length_append]
  omega

theorem tags_wire_length (ids : List Nat) :
    ((ids.map fun i => Credential.tag (issuedTag i)).flatMap wire).length = 135 * ids.length := by
  have single (i : Nat) : (wire (.tag (issuedTag i))).length = 135 := by
    simp [wire, Credential.serialize, Tag.serialize, signatureField_length, Address.appendTo, noAdditionalFields]
  rw [List.flatMap_map, length_flatMap_of_size single]

/-- 80 tags take more than one packet. When the packets arrive together, only the first is let in, and the tags in
the others are not passed on. -/
theorem later_packets_refused :
    ∃ packets, pushCredentials esp32 id (fun _ => (3, 0)) 9 7 (withTags (List.range 80)) 81 = some packets ∧
      (∀ credential ∈ pushed (withTags (List.range 80)),
        credential.verify trusting knowing = .ok ∧ wanted member credential = true) ∧
      (receiveAll trusting knowing some (Peer.new ⟨9, 0⟩, member)
        (packets.map fun packet => ⟨5000, packet⟩)).2.passed.length < (pushed (withTags (List.range 80))).length := by
  have tags : pushed (withTags (List.range 80)) = (List.range 80).map fun i => .tag (issuedTag i) := withTags_pushed _
  have fine : ∀ credential ∈ pushed (withTags (List.range 80)), InArrays credential ∧
      credential.verify trusting knowing = .ok ∧ wanted member credential = true := by
    rw [tags]
    intro credential among
    obtain ⟨i, -, same⟩ := List.mem_map.mp among
    rw [← same]
    exact ⟨trivial, issuedTag_valid i, issuedTag_wanted i⟩
  have count : (pushed (withTags (List.range 80))).length = 80 := by
    rw [tags, List.length_map, List.length_range]
  have inverse : Inverse id some := fun _ _ => rfl
  obtain ⟨built, sent, each, parts⟩ := pushCredentials_built esp32 id (fun _ => (3, 0)) 9 7
    fun credential among => (fine credential among).1
  have total := parts.length_eq
  rw [count] at sent total
  refine ⟨_, sent 81 (by decide), fun credential among => (fine credential among).2, ?_⟩
  have delivered := delivered_of_built each (fun packet among => opened_built inverse (each packet among)) parts
  rw [count]
  match built with
  | [] => simp at total
  | [single] =>
      -- the wire forms alone are longer than a packet
      have fits := (each single (List.mem_singleton_self _)).fits
      have wires := (parts.flatMap_right wire).length_eq
      rw [List.flatMap_singleton, tags, tags_wire_length, List.length_range] at wires
      have inside := wires_in_body single.contents
      unfold Packet.maxPacketLength at fits
      rw [Built.bytes, List.length_append] at fits
      omega
  | first :: second :: others =>
      have gated := delivered.gated trusting knowing (Peer.new ⟨9, 0⟩) member
        (((first :: second :: others).map fun packet => Packet.compress id packet.bytes).map fun packet => ⟨5000, packet⟩)
        (fun credential among => (fine credential among).2.1) (by rw [List.map_map]; exact List.Perm.of_eq (List.map_id _))
      have alone := @letIn_at_once 5000 0 (by decide) (Packet.compress id first.bytes)
        ((second :: others).map fun packet => Packet.compress id packet.bytes)
      have later := List.length_pos_iff.mpr (each second (List.mem_cons_of_mem _ List.mem_cons_self)).nonempty
      have content := contentOf_built (each first List.mem_cons_self) (opened_built inverse (each first List.mem_cons_self)).2
      have kept := List.length_filter_le (wanted member) (first.contents.all.map Credential.carried)
      rw [List.length_map] at kept
      rw [gated]
      change ([] ++ ((letIn 0 _).flatMap _).filter _).length < 80
      rw [List.map_cons, alone, List.flatMap_singleton, content, List.nil_append]
      simp only [List.flatMap_cons, List.length_append] at total
      omega

end ZeroTierNode.CredentialDelivery

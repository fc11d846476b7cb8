import ZeroTierNode.BroadcastPaths
import ZeroTierNode.Library.Rings

/-!
The requests that expect an OK, the packet ids under which the node registers them,
and the id that the one who answers reads from the packet.
-/

namespace ZeroTierNode.ReplyMatching
open Library.Bytes Library.Rings Armor BroadcastPaths

/-- `ZT_EXPECTING_REPLIES_BUCKET_MASK1` and `ZT_EXPECTING_REPLIES_BUCKET_MASK2`. -/
abbrev bucketMask1 : Nat := 255
abbrev bucketMask2 : Nat := 31

/-- `pid2`, the upper half of a packet id. -/
def upperHalf (packetId : BitVec 64) : BitVec 32 := packetId.extractLsb' 32 32

def bucket (packetId : BitVec 64) : Nat := (upperHalf packetId).toNat &&& bucketMask1

/-- `_expectingRepliesTo` and `_expectingRepliesToBucketPtr`, which are octets. -/
abbrev Replies := Nat → RingBuffer (BitVec 32)

/-- The constructor fills them with zeros. -/
def start : Replies := fun _ => filled 0

def expectReplyTo (replies : Replies) (packetId : BitVec 64) : Replies :=
  Function.update replies (bucket packetId)
    (push (bucketMask2 + 1) 256 (replies (bucket packetId)) (upperHalf packetId))

def expectingReplyTo (replies : Replies) (packetId : BitVec 64) : Bool :=
  holds (bucketMask2 + 1) (replies (bucket packetId)) (upperHalf packetId)

def registerAll (replies : Replies) (ids : List (BitVec 64)) : Replies := ids.foldl expectReplyTo replies

/-- The ids with the bucket of another one. -/
def alike (packetId : BitVec 64) (ids : List (BitVec 64)) : List (BitVec 64) :=
  ids.filter fun id => bucket id = bucket packetId

/-- The last 32 registrations in the bucket of an id. -/
def lastRegistrations (ids : List (BitVec 64)) (packetId : BitVec 64) : List (BitVec 32) :=
  ((alike packetId ids).map upperHalf).rtake 32

section Registrations

variable {ids : List (BitVec 64)} {packetId : BitVec 64}

@[simp] theorem alike_nil (packetId : BitVec 64) : alike packetId [] = [] := rfl

@[simp] theorem registerAll_nil (replies : Replies) : registerAll replies [] = replies := rfl

theorem registerAll_append (replies : Replies) (first second : List (BitVec 64)) :
    registerAll replies (first ++ second) = registerAll (registerAll replies first) second :=
  List.foldl_append

/-- A bucket sees the registrations of its own ids. -/
theorem registerAll_bucket (replies : Replies) (ids : List (BitVec 64)) (packetId : BitVec 64) :
    registerAll replies ids (bucket packetId) =
      pushAll (bucketMask2 + 1) 256 (replies (bucket packetId)) ((alike packetId ids).map upperHalf) := by
  induction ids generalizing replies with
  | nil => rfl
  | cons id ids ih =>
      have next : registerAll replies (id :: ids) = registerAll (expectReplyTo replies id) ids := rfl
      rw [next, ih, alike, alike, List.filter_cons]
      by_cases same : bucket id = bucket packetId
      · rw [if_pos (decide_eq_true same), expectReplyTo, same, Function.update_self]
        rfl
      · rw [if_neg (by simpa using same), expectReplyTo, Function.update_of_ne (Ne.symm same)]

/-- A node expects a reply to what is among the last registrations, and in the beginning to the upper half zero. -/
theorem expectingReplyTo_iff : expectingReplyTo (registerAll start ids) packetId = true ↔
    upperHalf packetId ∈ lastRegistrations ids packetId ∨
      ((alike packetId ids).length < 32 ∧ upperHalf packetId = 0) := by
  have divides : bucketMask2 + 1 ∣ 256 := by decide
  rw [expectingReplyTo, registerAll_bucket]
  have exactly := holds_iff divides (0 : BitVec 32) ((alike packetId ids).map upperHalf) (upperHalf packetId)
  rw [List.length_map] at exactly
  exact exactly

/-- Fewer than 32 later registrations in the bucket leave an id where it is. -/
theorem expected_after {later : List (BitVec 64)} {registered : BitVec 64}
    (same : upperHalf registered = upperHalf packetId) (few : (alike packetId later).length < 32) :
    expectingReplyTo (registerAll start (ids ++ registered :: later)) packetId = true := by
  have here : bucket registered = bucket packetId := by rw [bucket, bucket, same]
  have split : alike packetId (ids ++ registered :: later) =
      alike packetId ids ++ registered :: alike packetId later := by
    rw [alike, List.filter_append, List.filter_cons_of_pos (by simpa using here)]
    rfl
  refine expectingReplyTo_iff.mpr (.inl ?_)
  rw [lastRegistrations, split, List.map_append, List.map_cons, List.rtake, same]
  apply List.mem_iff_getElem.mpr
  let total := (alike packetId ids).length + (alike packetId later).length + 1
  refine ⟨(alike packetId ids).length - (total - 32), ?_, ?_⟩
  · simp only [List.length_drop, List.length_append, List.length_cons, List.length_map]
    omega
  · rw [List.getElem_drop, List.getElem_append_right]
    · simp only [List.length_append, List.length_cons, List.length_map]
      have index : (alike packetId ids).length + ((alike packetId later).length + 1) - 32 +
          ((alike packetId ids).length - (total - 32)) - (alike packetId ids).length = 0 := by omega
      simp only [index, List.getElem_cons_zero]
    · simp only [List.length_append, List.length_cons, List.length_map]
      omega

/-- As many registrations as a bucket has slots, of another id of the bucket. -/
def others (packetId : BitVec 64) : List (BitVec 64) := List.replicate 32 (packetId ^^^ 0x10000000000)

theorem upperHalf_other (packetId : BitVec 64) :
    upperHalf (packetId ^^^ 0x10000000000) = upperHalf packetId ^^^ 0x100 := by
  have half : upperHalf (0x10000000000 : BitVec 64) = 0x100 := by decide
  rw [← half]
  exact BitVec.extractLsb'_xor

theorem alike_others (packetId : BitVec 64) : alike packetId (others packetId) = others packetId := by
  refine List.filter_eq_self.mpr fun member found => ?_
  have low : bucketMask1 &&& 0x100 = 0 := by decide
  have same : bucket (packetId ^^^ 0x10000000000) = bucket packetId := by
    rw [bucket, bucket, upperHalf_other, BitVec.toNat_xor, Nat.and_xor_distrib_right]
    change _ ^^^ (0x100 &&& bucketMask1) = _
    rw [Nat.and_comm 0x100, low, Nat.xor_zero]
  rw [List.eq_of_mem_replicate found]
  exact decide_eq_true same

/-- They push out what the node may have expected. -/
theorem others_forget (packetId : BitVec 64) :
    ¬ expectingReplyTo (registerAll start (others packetId)) packetId = true := by
  intro expected
  rcases expectingReplyTo_iff.mp expected with last | ⟨short, _⟩
  · rw [lastRegistrations, alike_others, List.rtake] at last
    obtain ⟨member, found, same⟩ := List.mem_map.mp (List.mem_of_mem_drop last)
    rw [List.eq_of_mem_replicate found, upperHalf_other] at same
    have changed := congrArg (upperHalf packetId ^^^ ·) same
    rw [← BitVec.xor_assoc, BitVec.xor_self, BitVec.zero_xor] at changed
    exact absurd changed (by decide)
  · rw [alike_others, others, List.length_replicate] at short
    exact absurd short (lt_irrefl 32)

end Registrations

/-- What sends a request: `sendHELLO` to an address and without one, `attemptToContactAt` or a bond, `requestWhois`,
`requestConfiguration`, and the gathering of `Multicaster::send`. -/
inductive Request
  | helloTo
  | hello
  | echo
  | whois
  | networkConfigRequest
  | multicastGather
deriving DecidableEq, Repr

/-- Requests to an address do not go through `Switch::send`. -/
def Request.direct : Request → Bool
  | .helloTo | .echo => true
  | _ => false

/-- A request with the packet that was composed, and the path that a packet without an address gets. -/
structure Sending where
  request : Request
  packet : List Byte
  long : Packet.minPacketLength ≤ packet.length
  ends : Ends
  path : LivePath
  encryptedHelloEnabled : Bool

namespace Sending

variable (s : Sending)

/-- What the caller registers before `Switch::send`, which may queue the packet. -/
def prepare (replies : Replies) : Replies :=
  match s.request with
  | .hello | .networkConfigRequest | .multicastGather => expectReplyTo replies (Packet.packetId s.packet)
  | .helloTo | .echo | .whois => replies

/-- The packet leaves: `putPacket` with the address, or `_sendViaSpecificPath`. -/
def transmit (replies : Replies) : Option (List Byte × Replies) :=
  match s.request with
  | .helloTo => do
      let outp ← armor s.ends.crypto s.ends.senderFast s.ends.ephemeral s.ends.key false s.encryptedHelloEnabled none
        s.ends.identity s.packet
      return (outp, expectReplyTo replies (Packet.packetId outp))
  | .echo => do
      let outp ← armor s.ends.crypto s.ends.senderFast s.ends.ephemeral s.ends.key true false
        s.ends.aesKeysIfSupported s.ends.identity s.packet
      return (outp, expectReplyTo replies (Packet.packetId outp))
  | .hello | .whois | .networkConfigRequest | .multicastGather =>
      let packet := s.ends.sentOver true s.path s.packet
      some (packet, if s.path.trustedPathId ≠ 0 then replies else expectReplyTo replies (Packet.packetId packet))

/-- The registrations after that of the request itself; over a trusted path that was before the packet was queued. -/
def further (meanwhile later : List (BitVec 64)) : List (BitVec 64) :=
  if s.request.direct ∨ s.path.trustedPathId = 0 then later else meanwhile ++ later

end Sending

/-- Who answers. -/
structure Responder where
  crypto : Primitives
  fastCrypto : Bool
  key : BitVec 384
  aesKeys : Option AesKeys
  privateKey : BitVec 512

/-- `tryDecode` leaves a packet over a trusted path as it is. -/
def Responder.decode (responder : Responder) (data : List Byte) : List Byte :=
  if Packet.cipher data = 2 then data
  else (dearmor responder.crypto responder.fastCrypto responder.key responder.aesKeys responder.privateKey data).2

/-- The id in the OK, the request having come over a number of relays. -/
def quoted (responder : Responder) (relays : Nat) (outp : List Byte) : BitVec 64 :=
  Packet.packetId (responder.decode (incrementHops^[relays] outp))

/-- Whatever was registered before, while the packet was queued and after it left, the reply is expected as long as
there are fewer than 32 further registrations in its bucket. -/
def Answered (s : Sending) : Prop :=
  ∀ (history meanwhile later : List (BitVec 64)) (outp : List Byte) (replies : Replies),
    s.transmit (registerAll (s.prepare (registerAll start history)) meanwhile) = some (outp, replies) →
    ∀ (responder : Responder) (relays : Nat),
      (alike (quoted responder relays outp) (s.further meanwhile later)).length < 32 →
      expectingReplyTo (registerAll replies later) (quoted responder relays outp) = true

/-- An expected reply is to one of the last registrations. -/
def Solicited (packetId : BitVec 64) : Prop :=
  ∀ ids : List (BitVec 64), expectingReplyTo (registerAll start ids) packetId = true →
    upperHalf packetId ∈ lastRegistrations ids packetId

section Ids

theorem packetId_congr {first second : List Byte} (same : first.take 8 = second.take 8) :
    Packet.packetId first = Packet.packetId second := by
  rw [Packet.packetId, Packet.packetId, Packet.fieldAt, Packet.fieldAt, List.drop_zero, List.drop_zero, same]

/-- What is put behind the beginning of a packet leaves its id alone. -/
theorem take_id {data rest : List Byte} {kept : Nat} (enough : 8 ≤ kept) (long : 8 ≤ data.length) :
    (data.take kept ++ rest).take 8 = data.take 8 := by
  have inside : 8 ≤ (data.take kept).length := by
    rw [List.length_take]
    omega
  rw [List.take_append_of_le_length inside, List.take_take, Nat.min_eq_left enough]

variable {crypto : Primitives} {fastCrypto : Bool} {key : BitVec 384} {aesKeys : Option AesKeys}
  {privateKey : BitVec 512} {data : List Byte}

theorem dearmorPoly1305_id (decrypt : Bool) (long : 8 ≤ data.length) :
    (dearmorPoly1305 crypto fastCrypto key decrypt data).2.take 8 = data.take 8 := by
  have either (wrong : Prop) [Decidable wrong] (rest : List Byte) :
      (if wrong then (false, data) else (true, data.take 27 ++ rest)).2.take 8 = data.take 8 := by
    split
    · rfl
    · exact take_id (by decide) long
  unfold dearmorPoly1305
  dsimp only
  split
  · exact either _ _
  · exact either _ _

theorem dearmorSuite_id (cs : Byte) (long : 8 ≤ data.length) :
    (dearmorSuite crypto fastCrypto key aesKeys cs data).2.take 8 = data.take 8 := by
  unfold dearmorSuite
  split
  · split
    · exact take_id (by decide) long
    · rfl
  · split
    · exact dearmorPoly1305_id _ long
    · rfl

theorem dearmor_id (long : 27 ≤ data.length) :
    (dearmor crypto fastCrypto key aesKeys privateKey data).2.take 8 = data.take 8 := by
  unfold dearmor
  dsimp only
  split
  · split
    · rfl
    · have outer : (dearmorOuter crypto (firstHalf privateKey) data).take 8 = data.take 8 :=
        take_id (by decide) (by omega)
      have outerLong : 8 ≤ (dearmorOuter crypto (firstHalf privateKey) data).length := by
        unfold dearmorOuter
        rw [List.length_append, List.length_take]
        omega
      rw [dearmorSuite_id _ outerLong, outer]
  · exact dearmorSuite_id _ (by omega)

/-- Whoever decodes the packet, and however many relays it came over, reads the id with which it left. -/
theorem quoted_eq (responder : Responder) (relays : Nat) (p : Parts) :
    quoted responder relays p.bytes = Packet.packetId p.bytes := by
  let arrived : Parts := { p with flags := nextHop^[relays] p.flags }
  have same : Packet.packetId arrived.bytes = Packet.packetId p.bytes := by
    rw [Packet.packetId, Packet.packetId, Parts.fieldAt_iv, Parts.fieldAt_iv]
  have long : 27 ≤ arrived.bytes.length := by
    rw [Parts.length_bytes]
    omega
  rw [quoted, incrementHops_bytes, Responder.decode, ← same]
  split
  · rfl
  · exact packetId_congr (dearmor_id long)

end Ids

section Leaving

/-- What `armor` makes of a packet is a packet. -/
theorem armor_parts {crypto : Primitives} {fastCrypto : Bool} {ephemeral : BitVec 256} {key : BitVec 384}
    {encrypt extended : Bool} {aesKeys : Option AesKeys} {identity : Identity} {p : Parts} {outp : List Byte}
    (armored : armor crypto fastCrypto ephemeral key encrypt extended aesKeys identity p.bytes = some outp) :
    ∃ q : Parts, outp = q.bytes := by
  have finished (q : Parts) (last : (if extended then armorOuter crypto ephemeral (firstHalf identity.publicKey) q.bytes
      else some q.bytes) = some outp) : ∃ q : Parts, outp = q.bytes := by
    cases extended with
    | false => exact ⟨q, (Option.some.inj last).symm⟩
    | true =>
        rw [if_pos rfl] at last
        by_cases fits : q.bytes.length + ephemeralPublicKeyLen ≤ Packet.maxPacketLength
        · rw [armorOuter_bytes crypto q ephemeral _ fits] at last
          exact ⟨_, (Option.some.inj last).symm⟩
        · rw [armorOuter_overflows crypto q ephemeral _ (not_le.mp fits)] at last
          cases last
  unfold armor at armored
  dsimp only at armored
  rw [prepared_bytes, prepared_bytes] at armored
  cases aesKeys with
  | none =>
      dsimp only at armored
      rw [armorPoly1305_bytes] at armored
      exact finished _ armored
  | some aesKeys =>
      cases encrypt with
      | false =>
          dsimp only at armored
          rw [armorPoly1305_bytes] at armored
          exact finished _ armored
      | true =>
          dsimp only at armored
          rw [armorAes_bytes] at armored
          exact finished _ armored

variable {s : Sending}

/-- The composed packet, cut at its fields. -/
def Sending.parts (s : Sending) : Parts := Parts.cut s.packet (Nat.le_of_succ_le s.long)

theorem Sending.bytes_parts (s : Sending) : s.parts.bytes = s.packet := Parts.bytes_cut ..

theorem secure_parts (ends : Ends) (encrypt : Bool) (trustedPathId : BitVec 64) (p : Parts) :
    ∃ q : Parts, ends.secure encrypt trustedPathId p.bytes = q.bytes := by
  unfold Ends.secure
  split
  · exact ⟨_, setTrusted_bytes ..⟩
  · split
    · exact ⟨p, rfl⟩
    · cases armored : armor ends.crypto ends.senderFast ends.ephemeral ends.key encrypt false ends.aesKeysIfSupported
        ends.identity p.bytes with
      | none => exact ⟨p, rfl⟩
      | some outp => exact armor_parts armored

theorem sentOver_parts (s : Sending) : ∃ q : Parts, s.ends.sentOver true s.path s.packet = q.bytes := by
  rw [sentOver_eq, ← s.bytes_parts, setFragmented_bytes]
  exact secure_parts ..

/-- Over a trusted path it keeps its id. -/
theorem sentOver_trusted (s : Sending) (trusted : s.path.trustedPathId ≠ 0) :
    Packet.packetId (s.ends.sentOver true s.path s.packet) = Packet.packetId s.packet := by
  rw [sentOver_eq, ← s.bytes_parts, setFragmented_bytes, Ends.secure, if_pos trusted, setTrusted_bytes,
    Packet.packetId, Packet.packetId, Parts.fieldAt_iv, Parts.fieldAt_iv]
  rfl

end Leaving

section Sending

variable {s : Sending} {outp : List Byte} {before replies : Replies}

/-- Requests to an address are registered with the id that armor gave them. -/
theorem transmit_direct (direct : s.request.direct = true) (sent : s.transmit before = some (outp, replies)) :
    (∃ q : Parts, outp = q.bytes) ∧ replies = expectReplyTo before (Packet.packetId outp) := by
  unfold Sending.transmit at sent
  rw [← s.bytes_parts] at sent
  cases request : s.request with
  | helloTo =>
      rw [request] at sent
      obtain ⟨armored, made, same⟩ := Option.bind_eq_some_iff.mp sent
      obtain ⟨rfl, rfl⟩ := Prod.mk.inj (Option.some.inj same)
      exact ⟨armor_parts made, rfl⟩
  | echo =>
      rw [request] at sent
      obtain ⟨armored, made, same⟩ := Option.bind_eq_some_iff.mp sent
      obtain ⟨rfl, rfl⟩ := Prod.mk.inj (Option.some.inj same)
      exact ⟨armor_parts made, rfl⟩
  | hello => simp [request, Request.direct] at direct
  | whois => simp [request, Request.direct] at direct
  | networkConfigRequest => simp [request, Request.direct] at direct
  | multicastGather => simp [request, Request.direct] at direct

/-- The others are registered when they are sent, except over a trusted path. -/
theorem transmit_switched (switched : s.request.direct = false) (before : Replies) :
    s.transmit before = some (s.ends.sentOver true s.path s.packet,
      if s.path.trustedPathId ≠ 0 then before
      else expectReplyTo before (Packet.packetId (s.ends.sentOver true s.path s.packet))) := by
  unfold Sending.transmit
  cases request : s.request with
  | helloTo => simp [request, Request.direct] at switched
  | echo => simp [request, Request.direct] at switched
  | hello => rfl
  | whois => rfl
  | networkConfigRequest => rfl
  | multicastGather => rfl

/-- Before a packet is queued its id is registered, except for a WHOIS. -/
theorem prepare_switched (switched : s.request.direct = false) (known : s.request ≠ .whois) (before : Replies) :
    s.prepare before = expectReplyTo before (Packet.packetId s.packet) := by
  unfold Sending.prepare
  cases request : s.request with
  | helloTo => simp [request, Request.direct] at switched
  | echo => simp [request, Request.direct] at switched
  | whois => exact absurd request known
  | hello => rfl
  | networkConfigRequest => rfl
  | multicastGather => rfl

/-- What is registered beforehand is a list of ids as well. -/
theorem prepare_registers (s : Sending) (history : List (BitVec 64)) :
    ∃ ids, s.prepare (registerAll start history) = registerAll start ids := by
  have one : expectReplyTo (registerAll start history) (Packet.packetId s.packet) =
      registerAll start (history ++ [Packet.packetId s.packet]) := by
    rw [registerAll_append]
    rfl
  unfold Sending.prepare
  cases s.request with
  | hello => exact ⟨_, one⟩
  | networkConfigRequest => exact ⟨_, one⟩
  | multicastGather => exact ⟨_, one⟩
  | helloTo => exact ⟨history, rfl⟩
  | echo => exact ⟨history, rfl⟩
  | whois => exact ⟨history, rfl⟩

theorem registerAll_cons (replies : Replies) (id : BitVec 64) (ids : List (BitVec 64)) :
    registerAll (expectReplyTo replies id) ids = registerAll replies (id :: ids) := rfl

/-- A request that is registered when it leaves. -/
theorem answered_of_registered (ids later : List (BitVec 64)) (p : Parts) (responder : Responder) (relays : Nat)
    (few : (alike (quoted responder relays p.bytes) later).length < 32) :
    expectingReplyTo (registerAll (expectReplyTo (registerAll start ids) (Packet.packetId p.bytes)) later)
      (quoted responder relays p.bytes) = true := by
  rw [registerAll_cons, ← registerAll_append]
  exact expected_after (congrArg upperHalf (quoted_eq responder relays p).symm) few

/-- Every request but a WHOIS over a trusted path is answered. -/
theorem answered_of_known (s : Sending) (known : s.request = .whois → s.path.trustedPathId = 0) : Answered s := by
  intro history meanwhile later outp replies sent responder relays few
  obtain ⟨ids, prepared⟩ := prepare_registers s history
  have queued : registerAll (s.prepare (registerAll start history)) meanwhile =
      registerAll start (ids ++ meanwhile) := by
    rw [prepared, registerAll_append]
  by_cases direct : s.request.direct = true
  · obtain ⟨⟨q, same⟩, registered⟩ := transmit_direct direct sent
    rw [Sending.further, if_pos (.inl direct)] at few
    rw [registered, queued, same]
    exact answered_of_registered _ later q responder relays (same ▸ few)
  · have switched : s.request.direct = false := Bool.eq_false_iff.mpr direct
    rw [transmit_switched switched, Option.some_inj, Prod.mk.injEq] at sent
    obtain ⟨same, registered⟩ := sent
    obtain ⟨q, bytes⟩ := sentOver_parts s
    rw [bytes] at same registered
    rw [← same] at few ⊢
    by_cases trusted : s.path.trustedPathId = 0
    · rw [if_neg (not_not.mpr trusted)] at registered
      rw [Sending.further, if_pos (.inr trusted)] at few
      rw [← registered, queued]
      exact answered_of_registered _ later q responder relays few
    · have plain : Packet.packetId q.bytes = Packet.packetId s.packet := bytes ▸ sentOver_trusted s trusted
      have other : s.request ≠ .whois := fun whois => trusted (known whois)
      rw [if_pos trusted] at registered
      rw [Sending.further, if_neg (not_or.mpr ⟨direct, trusted⟩)] at few
      rw [← registered, prepare_switched switched other, ← registerAll_append, registerAll_cons, ← registerAll_append,
        ← plain]
      exact expected_after (congrArg upperHalf (quoted_eq responder relays q).symm) few

/-- Over a trusted path nobody registers a WHOIS, and the node may not expect the reply. -/
theorem whois_unanswered (s : Sending) (whois : s.request = .whois) (trusted : s.path.trustedPathId ≠ 0) :
    ¬ Answered s := by
  intro answered
  have switched : s.request.direct = false := by
    rw [whois]
    rfl
  have unprepared (before : Replies) : s.prepare before = before := by
    unfold Sending.prepare
    rw [whois]
  obtain ⟨q, bytes⟩ := sentOver_parts s
  let responder : Responder := ⟨s.ends.crypto, false, 0, none, 0⟩
  have sent : s.transmit (registerAll (s.prepare (registerAll start (others (Packet.packetId q.bytes)))) []) =
      some (q.bytes, registerAll start (others (Packet.packetId q.bytes))) := by
    rw [transmit_switched switched, if_pos trusted, unprepared, bytes, registerAll_nil]
  have nothing : s.further [] [] = [] := by
    unfold Sending.further
    split <;> rfl
  have few : (alike (quoted responder 0 q.bytes) (s.further [] [])).length < 32 := by
    rw [nothing, alike_nil, List.length_nil]
    exact Nat.zero_lt_succ 31
  have expected := answered _ [] [] _ _ sent responder 0 few
  rw [quoted_eq, registerAll_nil] at expected
  exact absurd expected (others_forget _)

end Sending

/-- An id whose upper half is zero is expected from the start. -/
theorem solicited_iff (packetId : BitVec 64) : Solicited packetId ↔ upperHalf packetId ≠ 0 := by
  constructor
  · intro solicited zero
    have fresh : (alike packetId []).length < 32 := by
      rw [alike_nil, List.length_nil]
      exact Nat.zero_lt_succ 31
    have registered := solicited [] (expectingReplyTo_iff.mpr (.inr ⟨fresh, zero⟩))
    rw [lastRegistrations, alike_nil] at registered
    exact absurd registered List.not_mem_nil
  · intro nonzero ids expected
    exact (expectingReplyTo_iff.mp expected).resolve_right fun unwritten => nonzero unwritten.2

/-- A request is answered in every run of the node, and what is expected was registered lately, exactly if the request
is no WHOIS over a trusted path and the id's upper half is not zero. -/
theorem reply_matching_iff (s : Sending) (packetId : BitVec 64) :
    (Answered s ∧ Solicited packetId) ↔
      (s.request = .whois → s.path.trustedPathId = 0) ∧ upperHalf packetId ≠ 0 := by
  have answered : Answered s ↔ (s.request = .whois → s.path.trustedPathId = 0) := by
    constructor
    · intro answered whois
      by_contra trusted
      exact whois_unanswered s whois trusted answered
    · exact answered_of_known s
  rw [answered, solicited_iff]

/-- A new node expects a reply to the id 1. -/
theorem new_node_expects :
    ¬ ((∀ s : Sending, Answered s) ∧ ∀ packetId : BitVec 64, Solicited packetId) := by
  intro ⟨_, solicited⟩
  have registered : upperHalf 1 ∈ lastRegistrations [] 1 := solicited 1 [] (by decide)
  exact absurd registered (by decide)

end ZeroTierNode.ReplyMatching

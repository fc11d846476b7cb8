import ZeroTierNode.Fragmentation
import ZeroTierNode.RxQueue

/-!
How many fragments a packet has. The capacity of `Packet` is that of seven datagrams,
but every fragment after the head spends sixteen bytes of its datagram on a header of
its own, and the number and the total go into four bits each.
-/

namespace ZeroTierNode.FragmentLimits
open Library.Bytes Fragmentation RxQueue

/-- `ZT_DEFAULT_PHYSMTU`. -/
abbrev defaultPhysMtu : Nat := 1432

/-- The MTU that `setPhysicalPathConfiguration` stores, between `ZT_MIN_PHYSMTU` and `ZT_MAX_PHYSMTU`. -/
def configuredMtu (mtu : Int) : Nat :=
  if mtu ≤ 0 then defaultPhysMtu
  else if mtu < 510 then 510
  else if 10100 + 224 < mtu then 10100 + 224
  else mtu.toNat

/-- The MTU that `_sendViaSpecificPath` takes: that of the physical network the path is in, unless the link has
one of its own. -/
def pathMtu (configured : Option Int) (userSpecifiedMtu : BitVec 16) : Nat :=
  if 0 < userSpecifiedMtu.toNat then userSpecifiedMtu.toNat
  else (configured.map configuredMtu).getD defaultPhysMtu

section Sent

variable (secure : List Byte → List Byte) (mtu : Nat) (packet : List Byte)

/-- What the path sends; `none` where the rest of the packet is divided by zero. -/
def datagrams : Option (List (List Byte)) :=
  if mtu = 16 ∧ mtu < packet.length then none else some (sendViaSpecificPath secure mtu packet)

/-- There are at most `ZT_MAX_PACKET_FRAGMENTS` datagrams, and `onRemotePacket` accepts every fragment. -/
def Accepted : Prop :=
  (sendViaSpecificPath secure mtu packet).length ≤ Packet.maxPacketFragments ∧
    ∀ fragment ∈ (sendViaSpecificPath secure mtu packet).tail, saneFragment fragment = true

/-- The datagrams are sent, and each fragment says its number and the total. -/
def FieldsDecode : Prop :=
  ∃ sent, datagrams secure mtu packet = some sent ∧ ∀ i fragment, sent.tail[i]? = some fragment →
    Packet.fragmentNumber fragment = i + 1 ∧ Packet.totalFragments fragment = totalFragments mtu packet.length

end Sent

section Fields

/-- Whatever the MTU, the fragments that the loop sends are numbered one after the other. -/
theorem sendFragments_counts {p : List Byte} (long : 13 ≤ p.length) (mtu total fno fragStart remaining count i : Nat)
    {fragment : List Byte} (sent : (sendFragments p mtu total fno fragStart remaining count)[i]? = some fragment) :
    Packet.byteAt fragment 14 = fragmentCounts (fno + i) total ∧ i < count := by
  induction count generalizing fno fragStart remaining i with
  | zero => cases sent
  | succ count ih =>
      rw [sendFragments] at sent
      cases made : initFragment p fragStart (min remaining (fragmentRoom mtu)) fno total with
      | none =>
          rw [made] at sent
          cases sent
      | some first =>
          rw [made] at sent
          dsimp only at sent
          cases i with
          | zero =>
              rw [List.getElem?_cons_zero] at sent
              rw [← Option.some.inj sent]
              unfold initFragment at made
              split_ifs at made
              rw [← Option.some.inj made]
              refine ⟨?_, Nat.succ_pos _⟩
              have taken : (p.take 13).length = 13 := by
                rw [List.length_take]
                omega
              rw [Packet.byteAt, List.append_assoc, List.getD_append_right _ _ _ _ (by omega), taken]
              rfl
          | succ i =>
              rw [List.getElem?_cons_succ] at sent
              obtain ⟨counts, below⟩ := ih _ _ _ _ sent
              rw [counts]
              exact ⟨by rw [Nat.add_assoc, Nat.add_comm 1], by omega⟩

variable {mtu : Nat} {p : List Byte}

theorem transmit_tail (large : mtu < p.length) : (transmit mtu p).tail =
    sendFragments p mtu (totalFragments mtu p.length) 1 mtu (p.length - mtu) (totalFragments mtu p.length - 1) := by
  rw [transmit]
  dsimp only
  rw [Nat.min_eq_right (le_of_lt large), if_pos large, List.tail_cons]

/-- The first fragment is always made. -/
theorem first_fragment (room : 16 < mtu) (large : mtu < p.length) (fits : p.length ≤ Packet.maxPacketLength) :
    ∃ fragment, (transmit mtu p).tail[0]? = some fragment := by
  have enough : fragmentRoom mtu = mtu - 16 := if_pos (le_of_lt room)
  obtain ⟨several, -, -⟩ := totalFragments_bounds (show 0 < fragmentRoom mtu by omega) large
  obtain ⟨count, more⟩ : ∃ count, totalFragments mtu p.length - 1 = count + 1 :=
    ⟨totalFragments mtu p.length - 2, by omega⟩
  have made : ¬ (p.length < mtu + min (p.length - mtu) (fragmentRoom mtu) ∨
      Packet.maxPacketLength < min (p.length - mtu) (fragmentRoom mtu) + Packet.minFragmentLength) := by
    have most : Packet.maxPacketLength = 10024 := rfl
    have header : Packet.minFragmentLength = 16 := rfl
    omega
  rw [transmit_tail large, more, sendFragments, initFragment, if_neg made]
  exact ⟨_, rfl⟩

/-- The fields of the fragments, as long as they fit into four bits. -/
theorem tail_fields (long : Packet.minPacketLength ≤ p.length) (large : mtu < p.length)
    (few : totalFragments mtu p.length < 16) {i : Nat} {fragment : List Byte}
    (sent : (transmit mtu p).tail[i]? = some fragment) :
    Packet.fragmentNumber fragment = i + 1 ∧ Packet.totalFragments fragment = totalFragments mtu p.length ∧
      i + 1 < totalFragments mtu p.length := by
  rw [transmit_tail large] at sent
  obtain ⟨counts, below⟩ := sendFragments_counts (le_trans (by decide) long) _ _ _ _ _ _ _ sent
  have decoded := @fragmentCounts_decode (1 + i) (totalFragments mtu p.length) (by omega) few
  rw [Packet.fragmentNumber, Packet.totalFragments, counts, decoded.1, decoded.2]
  exact ⟨Nat.add_comm 1 i, rfl, by omega⟩

end Fields

section Exact

variable {secure : List Byte → List Byte} (keeps : KeepsHeader secure) {mtu : Nat} {packet : List Byte}
  (long : Packet.minPacketLength ≤ packet.length) (fits : packet.length ≤ Packet.maxPacketLength)

include keeps long

theorem decode_of_few (proper : mtu ≠ 16) (large : mtu < packet.length)
    (few : totalFragments mtu packet.length < 16) : FieldsDecode secure mtu packet := by
  have length := @outgoing_length secure keeps mtu packet
  refine ⟨_, if_neg (fun zero => proper zero.1), ?_⟩
  intro i fragment sent
  rw [← length] at long large few ⊢
  obtain ⟨number, total, -⟩ := tail_fields long large few sent
  exact ⟨number, total⟩

include fits

omit long in
theorem few_of_decode (room : 16 < mtu) (large : mtu < packet.length) (decode : FieldsDecode secure mtu packet) :
    totalFragments mtu packet.length < 16 := by
  have length := @outgoing_length secure keeps mtu packet
  obtain ⟨sent, made, fields⟩ := decode
  rw [datagrams, if_neg (fun zero => absurd zero.1 (by omega))] at made
  rw [← length] at fits large fields ⊢
  obtain ⟨fragment, first⟩ := first_fragment room large fits
  rw [← Option.some.inj made] at fields
  rw [← (fields 0 fragment first).2, Packet.totalFragments, BitVec.toNat_ushiftRight, Nat.shiftRight_eq_div_pow]
  have octet := (Packet.byteAt fragment 14).isLt
  omega

/-- The fields hold what they should exactly up to fifteen fragments. -/
theorem fieldsDecode_iff :
    FieldsDecode secure mtu packet ↔ mtu < 16 ∨ packet.length ≤ mtu + 14 * (mtu - 16) := by
  have long' : 28 ≤ packet.length := long
  have fits' : packet.length ≤ 10024 := fits
  by_cases large : mtu < packet.length
  · rcases Nat.lt_trichotomy mtu 16 with tiny | zero | room
    · -- the room for a payload wraps around, and everything is put into one fragment
      have wide : fragmentRoom mtu = 2 ^ 32 - 16 + mtu := if_neg (by
        have header : Packet.minFragmentLength = 16 := rfl
        omega)
      have two := (@totalFragments_le_iff mtu packet.length 1 (by omega) large).mpr (by omega)
      exact iff_of_true (decode_of_few keeps long (by omega) large (by omega)) (Or.inl tiny)
    · refine iff_of_false ?_ (by omega)
      rintro ⟨sent, made, -⟩
      rw [datagrams, if_pos ⟨zero, large⟩] at made
      cases made
    · have wide : fragmentRoom mtu = mtu - 16 := if_pos (le_of_lt room)
      have count := @totalFragments_le_iff mtu packet.length 14 (by omega) large
      rw [wide] at count
      constructor
      · intro decode
        have few := few_of_decode keeps fits room large decode
        exact Or.inr (count.mp (by omega))
      · intro small
        have few := count.mpr (small.resolve_left (by omega))
        exact decode_of_few keeps long (by omega) large (by omega)
  · refine iff_of_true ?_ (by omega)
    refine ⟨_, if_neg (fun zero => large zero.2), ?_⟩
    intro i fragment sent
    rw [sendViaSpecificPath, transmit_whole (by rw [outgoing_length keeps]; exact large), List.tail_cons] at sent
    cases sent

/-- Seven datagrams of the default size hold 9928 bytes. -/
theorem accepted_iff : Accepted secure defaultPhysMtu packet ↔ packet.length ≤ 9928 := by
  have length := @outgoing_length secure keeps defaultPhysMtu packet
  have least : Packet.minPacketLength ≤ defaultPhysMtu := by decide
  have default : defaultPhysMtu = 1432 := rfl
  by_cases large : defaultPhysMtu < packet.length
  · have count := @totalFragments_le_iff defaultPhysMtu packet.length 6 (by decide) large
    rw [show defaultPhysMtu + 6 * fragmentRoom defaultPhysMtu = 9928 by decide] at count
    obtain ⟨several, -, -⟩ := @totalFragments_bounds defaultPhysMtu packet.length (by decide) large
    have pieces : (sendViaSpecificPath secure defaultPhysMtu packet).length =
        totalFragments defaultPhysMtu packet.length := by
      rw [← length] at large fits several ⊢
      rw [sendViaSpecificPath, transmit_fragmented least large fits, List.length_cons, List.length_map,
        List.length_range']
      omega
    unfold Accepted
    rw [pieces, ← count]
    refine ⟨fun accepted => accepted.1, fun few => ⟨few, ?_⟩⟩
    intro fragment sent
    obtain ⟨i, found⟩ := List.mem_iff_getElem?.mp sent
    have limit : Packet.maxPacketFragments = 7 := rfl
    rw [← length] at large long few several
    obtain ⟨number, total, below⟩ := tail_fields long large (by omega) found
    unfold saneFragment
    rw [number, total, decide_eq_true_iff]
    omega
  · refine iff_of_true ?_ (by omega)
    unfold Accepted
    rw [sendViaSpecificPath, transmit_whole (by rw [length]; exact large)]
    exact ⟨Nat.succ_le_of_lt (Nat.succ_pos _), fun fragment sent => absurd sent List.not_mem_nil⟩

end Exact

/-- Over a path with the default MTU a packet has at most seven fragments, all of which are accepted, exactly if it
has at most 9928 bytes. Over a path with any MTU that can be configured, the number and the total in every fragment
are the intended ones exactly if there are at most fifteen, or the MTU has no room for the header of a fragment. -/
theorem fragments_within_limits {secure : List Byte → List Byte} (keeps : KeepsHeader secure) (packet : List Byte)
    (long : Packet.minPacketLength ≤ packet.length) (fits : packet.length ≤ Packet.maxPacketLength)
    (configured : Option Int) (userSpecifiedMtu : BitVec 16) :
    (Accepted secure defaultPhysMtu packet ↔ packet.length ≤ 9928) ∧
      (FieldsDecode secure (pathMtu configured userSpecifiedMtu) packet ↔
        pathMtu configured userSpecifiedMtu < 16 ∨
          packet.length ≤ pathMtu configured userSpecifiedMtu + 14 * (pathMtu configured userSpecifiedMtu - 16)) :=
  ⟨accepted_iff keeps long fits, fieldsDecode_iff keeps long fits⟩

section Small

/-- A packet with this many bytes. -/
def packetOf (size : Nat) : List Byte := List.replicate size 0

theorem packetOf_length (size : Nat) : (packetOf size).length = size := List.length_replicate

/-- A packet of 9928 bytes, and the smallest MTU of a physical network with a packet that has fifteen fragments. -/
theorem largest_packets :
    Accepted id defaultPhysMtu (packetOf 9928) ∧ FieldsDecode id (pathMtu (some 1) 0) (packetOf 7426) := by
  have long (size : Nat) (least : 28 ≤ size) : Packet.minPacketLength ≤ (packetOf size).length := by
    rw [packetOf_length]
    exact least
  have fits (size : Nat) (most : size ≤ 10024) : (packetOf size).length ≤ Packet.maxPacketLength := by
    rw [packetOf_length]
    exact most
  constructor
  · apply (fragments_within_limits keepsHeader_id (packetOf 9928) (long 9928 (by decide)) (fits 9928 (by decide))
      none 0).1.mpr
    rw [packetOf_length]
  · apply (fragments_within_limits keepsHeader_id (packetOf 7426) (long 7426 (by decide)) (fits 7426 (by decide))
      (some 1) 0).2.mpr
    rw [packetOf_length]
    decide

/-- A `FRAME` that carries 9962 bytes of an Ethernet frame has eight fragments. Over a path with the smallest MTU of
a physical network it has twenty-one, and the fields say that there are five. -/
theorem jumbo_frame_not_accepted :
    Packet.minPacketLength ≤ (packetOf (28 + 8 + 2 + 9962)).length ∧
      (packetOf (28 + 8 + 2 + 9962)).length ≤ Packet.maxPacketLength ∧
      ¬ Accepted id defaultPhysMtu (packetOf (28 + 8 + 2 + 9962)) ∧
      ¬ FieldsDecode id (pathMtu (some 1) 0) (packetOf (28 + 8 + 2 + 9962)) := by
  have long : Packet.minPacketLength ≤ (packetOf (28 + 8 + 2 + 9962)).length := by
    rw [packetOf_length]
    decide
  have fits : (packetOf (28 + 8 + 2 + 9962)).length ≤ Packet.maxPacketLength := by
    rw [packetOf_length]
    decide
  refine ⟨long, fits, ?_, ?_⟩
  · rw [accepted_iff keepsHeader_id long fits, packetOf_length]
    decide
  · rw [fieldsDecode_iff keepsHeader_id long fits, packetOf_length]
    decide

end Small

end ZeroTierNode.FragmentLimits

import ZeroTierNode.FragmentDelivery

/-!
What `_sendViaSpecificPath` emits is what `onRemotePacket` puts together.
-/

namespace ZeroTierNode.FragmentRoundTrip
open Library.Bytes RxQueue Fragmentation FragmentDelivery

/-- A packet ready to be sent to `receiver` over a path with this MTU. The source is neither the
receiver nor a reserved address, and the head is not shorter than a packet may be. -/
structure Ready (receiver : Address) (mtu : Nat) (p : List Byte) : Prop where
  least : Packet.minPacketLength ≤ mtu
  long : Packet.minPacketLength ≤ p.length
  fits : p.length ≤ Packet.maxPacketLength
  destination : Packet.destination p = receiver
  source : Packet.source p ≠ receiver
  notReserved : Packet.byteAt p 13 ≠ 0xff
  fragmented : Packet.fragmented p = decide (mtu < p.length)
  few : totalFragments mtu p.length ≤ Packet.maxPacketFragments

section Cut

variable {receiver : Address} {mtu : Nat} {p : List Byte}

/-- A prefix that holds the packet header is read like the packet. -/
theorem classify_start (ready : Ready receiver mtu p) {size : Nat} (least : Packet.minPacketLength ≤ size)
    (most : size ≤ p.length) (env : Environment) (identity : env.identity = receiver) :
    Packet.packetId (p.take size) = Packet.packetId p ∧
      classify env (p.take size) = if mtu < p.length then .head else .whole := by
  have least' : 28 ≤ size := least
  have length : (p.take size).length = size := by
    rw [List.length_take]
    omega
  have field (start count : Nat) (inside : start + count ≤ 28) :
      Packet.fieldAt (p.take size) start count = Packet.fieldAt p start count := by
    rw [Packet.fieldAt, Packet.fieldAt, List.drop_take, List.take_take, Nat.min_eq_left (by omega)]
  have octet (position : Nat) (inside : position < 28) :
      Packet.byteAt (p.take size) position = Packet.byteAt p position := by
    rw [Packet.byteAt, Packet.byteAt, List.getD_eq_getElem?_getD, List.getD_eq_getElem?_getD,
      List.getElem?_take_of_lt (by omega)]
  have notFragment : ¬ Packet.isFragment (p.take size) = true := by
    rw [Packet.isFragment, octet 13 (by decide), decide_eq_true_eq]
    exact ready.notReserved
  have source : Packet.source (p.take size) ≠ env.identity := by
    rw [Packet.source, field 13 5 (by decide), identity]
    exact ready.source
  have destination : ¬ Packet.destination (p.take size) ≠ env.identity := by
    rw [Packet.destination, field 8 5 (by decide), identity]
    exact not_not.mpr ready.destination
  have flag : Packet.fragmented (p.take size) = decide (mtu < p.length) := by
    rw [← ready.fragmented, Packet.fragmented, Packet.flags, octet 18 (by decide)]
    rfl
  refine ⟨by rw [Packet.packetId, field 0 8 (by decide), ← Packet.packetId], ?_⟩
  rw [classify, length, if_pos (show Packet.minFragmentLength < size from lt_of_lt_of_le (by decide) least),
    if_neg notFragment, if_pos least, if_neg source, if_neg destination, flag]
  by_cases large : mtu < p.length
  · simp [large]
  · simp [large]

theorem fragmentLength_pos (ready : Ready receiver mtu p) (large : mtu < p.length) {number : Nat}
    (positive : 0 < number) (inside : number < totalFragments mtu p.length) :
    0 < fragmentLength p mtu number := by
  obtain ⟨-, -, tight⟩ := totalFragments_covers ready.least large
  have before : (number - 1) * fragmentRoom mtu ≤ (totalFragments mtu p.length - 2) * fragmentRoom mtu :=
    Nat.mul_le_mul_right _ (by omega)
  have start : fragmentStart mtu number < p.length := by
    unfold fragmentStart
    omega
  have least : 28 ≤ mtu := ready.least
  have room := fragmentRoom_eq ready.least
  exact lt_min (by omega) (by omega)

theorem classify_fragment (ready : Ready receiver mtu p) (large : mtu < p.length) (env : Environment)
    (identity : env.identity = receiver) {number : Nat} (positive : 0 < number)
    (inside : number < totalFragments mtu p.length) :
    Packet.fragmentNumber (fragmentOf p mtu number) = number ∧
      Packet.totalFragments (fragmentOf p mtu number) = totalFragments mtu p.length ∧
      classify env (fragmentOf p mtu number) = .fragment := by
  obtain ⟨-, destination, isFragment, counts, -⟩ := @fragmentOf_fields p mtu ready.long number
  have several := (totalFragments_covers ready.least large).1
  have below : number < Packet.maxPacketFragments := lt_of_lt_of_le inside ready.few
  obtain ⟨numbered, total⟩ := fragmentCounts_fields below ready.few
  have number_eq : Packet.fragmentNumber (fragmentOf p mtu number) = number := by
    rw [Packet.fragmentNumber, counts, numbered]
  have total_eq : Packet.totalFragments (fragmentOf p mtu number) = totalFragments mtu p.length := by
    rw [Packet.totalFragments, counts, total]
  refine ⟨number_eq, total_eq, ?_⟩
  have nonempty := fragmentLength_pos ready large positive inside
  have short : fragmentLength p mtu number ≤ p.length - fragmentStart mtu number := Nat.min_le_left _ _
  have start : mtu ≤ fragmentStart mtu number := Nat.le_add_right _ _
  have long : 28 ≤ p.length := ready.long
  have length : (fragmentOf p mtu number).length = 16 + fragmentLength p mtu number := by
    simp only [fragmentOf, List.length_append, List.length_take, Packet.fieldAt, List.length_drop,
      List.length_cons, List.length_nil]
    omega
  have least : 28 ≤ mtu := ready.least
  have fits : p.length ≤ 10024 := ready.fits
  have sane : saneFragment (fragmentOf p mtu number) = true := by
    rw [saneFragment, number_eq, total_eq]
    exact decide_eq_true ⟨ready.few, below, positive, several⟩
  rw [classify, length, if_pos (show 16 < 16 + fragmentLength p mtu number by omega), if_pos isFragment,
    if_pos ⟨show 16 + fragmentLength p mtu number ≤ 10024 by omega, by
      rw [destination, identity]; exact ready.destination, sane⟩]

theorem cut_several (ready : Ready receiver mtu p) (large : mtu < p.length) : 1 < totalFragments mtu p.length :=
  (totalFragments_covers ready.least large).1

theorem cut_headKind (ready : Ready receiver mtu p) (large : mtu < p.length) (env : Environment)
    (identity : env.identity = receiver) : classify env (p.take mtu) = .head := by
  rw [(classify_start ready ready.least (le_of_lt large) env identity).2, if_pos large]

theorem cut_headId (ready : Ready receiver mtu p) : Packet.packetId (p.take mtu) = Packet.packetId p := by
  have least : 28 ≤ mtu := ready.least
  rw [Packet.packetId, Packet.fieldAt, List.drop_zero, List.take_take, Nat.min_eq_left (by omega)]
  rfl

theorem cut_fragmentKind (ready : Ready receiver mtu p) (large : mtu < p.length) (env : Environment)
    (identity : env.identity = receiver) (number : Nat) (positive : 0 < number)
    (inside : number < totalFragments mtu p.length) : classify env (fragmentOf p mtu number) = .fragment :=
  (classify_fragment ready large env identity positive inside).2.2

theorem cut_fragmentId (ready : Ready receiver mtu p) (number : Nat) :
    Packet.packetId (fragmentOf p mtu number) = Packet.packetId p :=
  (fragmentOf_fields ready.long number).1

theorem cut_numbered (ready : Ready receiver mtu p) (number : Nat) (_ : 0 < number)
    (inside : number < totalFragments mtu p.length) :
    Packet.fragmentNumber (fragmentOf p mtu number) = number ∧
      Packet.totalFragments (fragmentOf p mtu number) = totalFragments mtu p.length := by
  obtain ⟨-, -, -, counts, -⟩ := @fragmentOf_fields p mtu ready.long number
  rw [Packet.fragmentNumber, Packet.totalFragments, counts]
  exact fragmentCounts_fields (lt_of_lt_of_le inside ready.few) ready.few

theorem cut_joined (ready : Ready receiver mtu p) (large : mtu < p.length) :
    p.take mtu ++ (List.range' 1 (totalFragments mtu p.length - 1)).flatMap
      (fun number => Packet.payload (fragmentOf p mtu number)) = p := by
  have covers := (totalFragments_covers ready.least large).2.1
  have start : fragmentStart mtu 1 = mtu := by simp [fragmentStart]
  have whole := @fragments_join p mtu (totalFragments mtu p.length - 1) 1 (le_refl 1) (by
    rw [start]; exact covers)
  rw [start] at whole
  have payloads : (fun number => Packet.payload (fragmentOf p mtu number)) = fun number =>
      Packet.fieldAt p (fragmentStart mtu number) (fragmentLength p mtu number) := by
    funext number
    exact (fragmentOf_fields ready.long number).2.2.2.2
  rw [payloads]
  exact whole

/-- The cut that `_sendViaSpecificPath` makes. -/
def cut (ready : Ready receiver mtu p) (large : mtu < p.length) : Split receiver p where
  total := totalFragments mtu p.length
  head := p.take mtu
  fragment := fragmentOf p mtu
  several := cut_several ready large
  few := ready.few
  headKind := cut_headKind ready large
  headId := cut_headId ready
  fragmentKind := cut_fragmentKind ready large
  fragmentId := cut_fragmentId ready
  numbered := cut_numbered ready
  joined := cut_joined ready large
  fits := ready.fits

theorem mem_transmit_cut (ready : Ready receiver mtu p) (large : mtu < p.length) (piece : List Byte) :
    piece ∈ transmit mtu p ↔
      ∃ number, number < (cut ready large).total ∧ piece = (cut ready large).piece number := by
  have several := (cut ready large).several
  rw [transmit_fragmented ready.least large ready.fits, List.mem_cons, List.mem_map]
  constructor
  · rintro (head | ⟨number, member, fragment⟩)
    · exact ⟨0, by omega, head⟩
    · rw [List.mem_range'_1] at member
      refine ⟨number, ?_, ?_⟩
      · change number < totalFragments mtu p.length
        omega
      · rw [Split.piece, if_neg (by omega)]
        exact fragment.symm
  · rintro ⟨number, inside, same⟩
    by_cases zero : number = 0
    · rw [Split.piece, if_pos zero] at same
      exact .inl same
    · rw [Split.piece, if_neg zero] at same
      refine .inr ⟨number, ?_, same.symm⟩
      rw [List.mem_range'_1]
      change number < totalFragments mtu p.length at inside
      omega

/-- A packet that is not cut is decoded whenever it arrives. -/
theorem decoded_whole (ready : Ready receiver mtu p) (small : ¬ mtu < p.length) (datagrams : List Datagram)
    (arrivals : ∀ datagram ∈ datagrams, Arrival receiver p [p] datagram) (sw : Switch) :
    ((∃ datagram ∈ datagrams, datagram.data = p) → (Packet.packetId p, p) ∈ decoded sw datagrams) ∧
      ∀ call ∈ decoded sw datagrams, call.1 = Packet.packetId p → call.2 = p := by
  induction datagrams generalizing sw with
  | nil =>
      refine ⟨?_, fun call nothing => (by cases nothing)⟩
      rintro ⟨datagram, nothing, -⟩
      cases nothing
  | cons datagram datagrams ih =>
      have arrival := arrivals datagram List.mem_cons_self
      obtain ⟨found, sound⟩ := ih (fun next member => arrivals next (List.mem_cons_of_mem _ member))
        (receive sw datagram).1
      rcases arrival.piece with piece | other
      · have same : datagram.data = p := List.mem_singleton.mp piece
        have kind := (classify_start ready ready.long (le_refl _) datagram.env arrival.identity).2
        rw [List.take_length, if_neg small] at kind
        have calls : decodeCalls (receive sw datagram) = [(Packet.packetId p, p)] := by
          rw [receive, onRemotePacket, same, kind]
          dsimp only
          rw [receiveWhole_calls, if_neg (not_lt.mpr ready.fits)]
        rw [decoded, calls]
        refine ⟨fun _ => List.mem_append_left _ (List.mem_singleton.mpr rfl), fun call member id => ?_⟩
        rcases List.mem_append.mp member with now | later
        · rw [List.mem_singleton.mp now]
        · exact sound call later id
      · obtain ⟨calls, -⟩ := receive_other arrival.keepsId other sw
        rw [decoded]
        refine ⟨?_, fun call member id => ?_⟩
        · rintro ⟨next, member, data⟩
          rcases List.mem_cons.mp member with this | rest
          · rw [← this, data] at other
            exact absurd rfl other
          · exact List.mem_append_right _ (found ⟨next, rest, data⟩)
        · rcases List.mem_append.mp member with now | later
          · exact absurd id (calls call now)
          · exact sound call later id

end Cut

theorem ready_outgoing {secure : List Byte → List Byte} (keeps : KeepsHeader secure) {mtu : Nat}
    (least : Packet.minPacketLength ≤ mtu) {packet : List Byte}
    (long : Packet.minPacketLength ≤ packet.length) (fits : packet.length ≤ Packet.maxPacketLength)
    (notReserved : Packet.byteAt packet 13 ≠ 0xff) (stranger : Packet.source packet ≠ Packet.destination packet)
    (few : totalFragments mtu packet.length ≤ Packet.maxPacketFragments) :
    Ready (Packet.destination packet) mtu (outgoing secure mtu packet) := by
  have length := @outgoing_length secure keeps mtu packet
  obtain ⟨destination, source, octet⟩ := addresses_congr (@outgoing_addresses secure keeps mtu packet)
  refine ⟨least, ?_, ?_, destination, ?_, ?_, ?_, ?_⟩
  · rw [length]
    exact long
  · rw [length]
    exact fits
  · rw [source]
    exact stranger
  · rw [octet]
    exact notReserved
  · rw [length, outgoing_fragmented keeps mtu long]
  · rw [length]
    exact few

/-- The datagrams of a packet reach its destination in any order, each at least once, among datagrams
of other packets that take fewer entries than the ring has. -/
structure Reaches (secure : List Byte → List Byte) (mtu : Nat) (packet : List Byte) (sw : Switch)
    (datagrams : List Datagram) : Prop where
  long : Packet.minPacketLength ≤ packet.length
  fits : packet.length ≤ Packet.maxPacketLength
  notReserved : Packet.byteAt packet 13 ≠ 0xff
  few : totalFragments mtu packet.length ≤ Packet.maxPacketFragments
  arrivals : ∀ datagram ∈ datagrams, Arrival (Packet.destination packet) (outgoing secure mtu packet)
    (sendViaSpecificPath secure mtu packet) datagram
  complete : ∀ piece ∈ sendViaSpecificPath secure mtu packet, ∃ datagram ∈ datagrams, datagram.data = piece
  ring : ringEntriesTaken (Packet.packetId (outgoing secure mtu packet)) sw datagrams < rxQueueSize

/-- `tryDecode` is invoked on the packet, and for its id on nothing else. The head has to be as long as
a packet, the clock not zero, which marks an entry as free, and no entry may carry the id from before. -/
theorem fragments_reach_tryDecode {secure : List Byte → List Byte} (keeps : KeepsHeader secure) {mtu : Nat}
    {packet : List Byte} {sw : Switch} {datagrams : List Datagram}
    (reaches : Reaches secure mtu packet sw datagrams) (least : Packet.minPacketLength ≤ mtu)
    (stranger : Packet.source packet ≠ Packet.destination packet)
    (clock : ∀ datagram ∈ datagrams, datagram.now ≠ 0)
    (unheld : ∀ slot, (sw.rxQueue slot).packetId ≠ Packet.packetId (outgoing secure mtu packet)) :
    (Packet.packetId (outgoing secure mtu packet), outgoing secure mtu packet) ∈ decoded sw datagrams ∧
      ∀ call ∈ decoded sw datagrams, call.1 = Packet.packetId (outgoing secure mtu packet) →
        call.2 = outgoing secure mtu packet := by
  have ready := ready_outgoing keeps least reaches.long reaches.fits reaches.notReserved stranger reaches.few
  obtain ⟨-, -, -, -, arrivals, complete, ring⟩ := reaches
  unfold sendViaSpecificPath at arrivals complete
  generalize outgoing secure mtu packet = p at *
  by_cases large : mtu < p.length
  · have pieces := mem_transmit_cut ready large
    refine ⟨?_, ?_⟩
    · refine decoded_delivers (fun piece sent => (pieces piece).mp sent) datagrams arrivals clock ∅ sw
        (.inl ⟨rfl, unheld⟩) ring ?_
      intro number inside
      exact .inr (complete _ ((pieces _).mpr ⟨number, inside, rfl⟩))
    · exact decoded_sound (fun piece sent => (pieces piece).mp sent) datagrams arrivals clock sw
        (fun slot held => absurd held (unheld slot))
  · rw [transmit_whole large] at arrivals complete
    obtain ⟨found, sound⟩ := decoded_whole ready large datagrams arrivals sw
    exact ⟨found (complete p (List.mem_singleton.mpr rfl)), sound⟩

/-- Packet 5 to node 7 with a few bytes of payload. -/
def smallPacket (source : Byte) (payload : List Byte) : List Byte :=
  [0, 0, 0, 0, 0, 0, 0, 5] ++ [0, 0, 0, 0, 7] ++ [0, 0, 0, 0, source] ++ List.replicate 10 0 ++ payload

/-- Datagrams received by node 7 at one time. -/
def arriving (now : Int) (datagrams : List (List Byte)) : List Datagram :=
  datagrams.map (fun data => ⟨lonelyEnv, now, .nil, data⟩)

theorem arriving_arrival {now : Int} {receiver : Address} {p : List Byte} {pieces datagrams : List (List Byte)}
    (identity : lonelyEnv.identity = receiver) (sent : ∀ data ∈ datagrams, data ∈ pieces) :
    ∀ datagram ∈ arriving now datagrams, Arrival receiver p pieces datagram := by
  intro datagram member
  obtain ⟨data, origin, rfl⟩ := List.mem_map.mp member
  exact ⟨identity, fun _ _ => rfl, .inl (sent data origin)⟩

theorem reversed_duplicated_packet_decoded :
    (5, outgoing id 28 (smallPacket 9 [1, 2, 3, 4])) ∈ decoded zeroSwitch
      (arriving 1 (sendViaSpecificPath id 28 (smallPacket 9 [1, 2, 3, 4]) ++
        sendViaSpecificPath id 28 (smallPacket 9 [1, 2, 3, 4])).reverse) := by
  have reaches : Reaches id 28 (smallPacket 9 [1, 2, 3, 4]) zeroSwitch
      (arriving 1 (sendViaSpecificPath id 28 (smallPacket 9 [1, 2, 3, 4]) ++
        sendViaSpecificPath id 28 (smallPacket 9 [1, 2, 3, 4])).reverse) :=
    ⟨by decide, by decide, by decide, by decide, arriving_arrival (by decide) (by decide), by decide, by decide⟩
  exact (fragments_reach_tryDecode keepsHeader_id reaches (by decide) (by decide) (by decide) (by decide)).1

/-- A ring whose entries all served a packet of the same id before. -/
def servedSwitch : Switch :=
  { zeroSwitch with
    rxQueue := fun slot =>
      { zeroSwitch.rxQueue slot with packetId := 5, totalFragments := 2, haveFragments := 3 } }

/-- Nothing is decoded when the MTU cuts the head below the least length of a packet, when the clock
stands at zero, when the packet claims to come from its receiver, or when the ring served the id before. -/
theorem fragments_lost :
    (Reaches id 20 (smallPacket 9 [1, 2]) zeroSwitch
        (arriving 1 (sendViaSpecificPath id 20 (smallPacket 9 [1, 2]))) ∧
      decoded zeroSwitch (arriving 1 (sendViaSpecificPath id 20 (smallPacket 9 [1, 2]))) = []) ∧
    (Reaches id 28 (smallPacket 9 [1, 2]) zeroSwitch
        (arriving 0 (sendViaSpecificPath id 28 (smallPacket 9 [1, 2]))) ∧
      decoded zeroSwitch (arriving 0 (sendViaSpecificPath id 28 (smallPacket 9 [1, 2]))) = []) ∧
    (Reaches id 28 (smallPacket 7 [1, 2]) zeroSwitch
        (arriving 1 (sendViaSpecificPath id 28 (smallPacket 7 [1, 2]))) ∧
      decoded zeroSwitch (arriving 1 (sendViaSpecificPath id 28 (smallPacket 7 [1, 2]))) = []) ∧
    (Reaches id 28 (smallPacket 9 [1, 2]) servedSwitch
        (arriving 1 (sendViaSpecificPath id 28 (smallPacket 9 [1, 2]))) ∧
      decoded servedSwitch (arriving 1 (sendViaSpecificPath id 28 (smallPacket 9 [1, 2]))) = []) := by
  refine ⟨⟨?_, by decide⟩, ⟨?_, by decide⟩, ⟨?_, by decide⟩, ⟨?_, by decide⟩⟩ <;>
    exact ⟨by decide, by decide, by decide, by decide, arriving_arrival (by decide) (by decide), by decide,
      by decide⟩

end ZeroTierNode.FragmentRoundTrip

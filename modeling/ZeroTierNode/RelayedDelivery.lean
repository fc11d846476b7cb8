import ZeroTierNode.BroadcastPaths
import ZeroTierNode.FragmentRoundTrip
import ZeroTierNode.PeerBinding
import ZeroTierNode.RelayNetwork

/-!
From one end to the other: a frame is armored and cut into datagrams, each of them is passed on by any nodes that relay
for each other, and they arrive in any order. What the receiver puts together is the packet with the hops of its head,
and the frame comes out of it.
-/

namespace ZeroTierNode.RelayedDelivery
open Library.Bytes RxQueue Fragmentation FragmentDelivery FragmentRoundTrip RelayNetwork

section Hops

/-- Equal but for the octet at one place. -/
structure Alike (i : Nat) (first second : List Byte) : Prop where
  length : first.length = second.length
  before : first.take i = second.take i
  behind : first.drop (i + 1) = second.drop (i + 1)

variable {i k : Nat} {first second third data : List Byte}

theorem Alike.refl (i : Nat) (data : List Byte) : Alike i data data := ⟨rfl, rfl, rfl⟩

theorem Alike.trans (one : Alike i first second) (two : Alike i second third) : Alike i first third :=
  ⟨one.length.trans two.length, one.before.trans two.before, one.behind.trans two.behind⟩

theorem alike_set (i : Nat) (data : List Byte) (octet : Byte) : Alike i (data.set i octet) data where
  length := List.length_set
  before := List.take_set_of_le (Nat.le_refl i)
  behind := List.drop_set_of_lt (Nat.lt_succ_self i)

theorem alike_iterate {f : List Byte → List Byte} (each : ∀ data, Alike i (f data) data) (k : Nat)
    (data : List Byte) : Alike i (f^[k] data) data := by
  induction k with
  | zero => exact Alike.refl i data
  | succ k ih =>
      rw [Function.iterate_succ_apply']
      exact (each _).trans ih

theorem Alike.fieldAt (alike : Alike i first second) {start count : Nat} (inside : start + count ≤ i) :
    Packet.fieldAt first start count = Packet.fieldAt second start count := by
  have part (data : List Byte) : Packet.fieldAt data start count = ((data.take i).drop start).take count := by
    rw [Packet.fieldAt, List.drop_take, List.take_take, Nat.min_eq_left (by omega)]
  rw [part, part, alike.before]

theorem Alike.fieldAt_behind (alike : Alike i first second) {start : Nat} (behind : i < start) (count : Nat) :
    Packet.fieldAt first start count = Packet.fieldAt second start count := by
  obtain ⟨further, place⟩ := Nat.exists_eq_add_of_le (Nat.succ_le_of_lt behind)
  rw [Packet.fieldAt, Packet.fieldAt, place, ← List.drop_drop, ← List.drop_drop, alike.behind]

theorem Alike.byteAt (alike : Alike i first second) {j : Nat} (before : j < i) :
    Packet.byteAt first j = Packet.byteAt second j := by
  have part (data : List Byte) : Packet.byteAt data j = (data.take i).getD j 0 := by
    rw [Packet.byteAt, List.getD_eq_getElem?_getD, List.getD_eq_getElem?_getD, List.getElem?_take_of_lt before]
  rw [part, part, alike.before]

theorem alike_incrementHops (k : Nat) (data : List Byte) : Alike 18 (Armor.incrementHops^[k] data) data :=
  alike_iterate (fun data => alike_set 18 data _) k data

/-- Relays change the hop count of a fragment and nothing else. -/
theorem alike_fragment (fragment : Packet.isFragment data = true) (k : Nat) : Alike 15 (passed^[k] data) data := by
  induction k with
  | zero => exact Alike.refl 15 data
  | succ k ih =>
      have still : Packet.isFragment (passed^[k] data) = true := by
        rw [Packet.isFragment, ih.byteAt (by decide), ← Packet.isFragment]
        exact fragment
      rw [Function.iterate_succ_apply', passed, if_pos still]
      exact (alike_set 15 _ _).trans ih

theorem passed_head (head : ¬ Packet.isFragment data = true) (k : Nat) :
    passed^[k] data = Armor.incrementHops^[k] data := by
  induction k with
  | zero => rfl
  | succ k ih =>
      have still : ¬ Packet.isFragment (Armor.incrementHops^[k] data) = true := by
        rw [Packet.isFragment, (alike_incrementHops k data).byteAt (by decide), ← Packet.isFragment]
        exact head
      rw [Function.iterate_succ_apply', Function.iterate_succ_apply', ih, passed, if_neg still]

theorem packetId_passed (k : Nat) (data : List Byte) : Packet.packetId (passed^[k] data) = Packet.packetId data := by
  have same {i : Nat} (behind : 8 ≤ i) {first : List Byte} (alike : Alike i first data) :
      Packet.packetId first = Packet.packetId data := by
    rw [Packet.packetId, Packet.packetId, alike.fieldAt behind]
  by_cases fragment : Packet.isFragment data = true
  · exact same (by decide) (alike_fragment fragment k)
  · rw [passed_head fragment]
    exact same (by decide) (alike_incrementHops k data)

end Hops

section Cut

variable {receiver : Address} {mtu : Nat} {p : List Byte}

theorem ready_hop (ready : Ready receiver mtu p) : Ready receiver mtu (Armor.incrementHops p) := by
  have alike := alike_incrementHops 1 p
  have length : (Armor.incrementHops p).length = p.length := alike.length
  have octets : ∀ octet : Byte,
      decide (Armor.nextHop octet &&& 0x40 ≠ 0) = decide (octet &&& 0x40 ≠ 0) := by decide
  have flags : Packet.flags (Armor.incrementHops p) = Armor.nextHop (Packet.flags p) :=
    byteAt_set_self (lt_of_lt_of_le (by decide) ready.long) _
  refine ⟨ready.least, ?_, ?_, ?_, ?_, ?_, ?_, ?_⟩
  · rw [length]
    exact ready.long
  · rw [length]
    exact ready.fits
  · rw [← ready.destination, Packet.destination, Packet.destination]
    exact congrArg (wordOf 40) (alike.fieldAt (by decide))
  · have source : Packet.source (Armor.incrementHops p) = Packet.source p :=
      congrArg (wordOf 40) (alike.fieldAt (by decide))
    rw [source]
    exact ready.source
  · have octet : Packet.byteAt (Armor.incrementHops p) 13 = Packet.byteAt p 13 := alike.byteAt (by decide)
    rw [octet]
    exact ready.notReserved
  · rw [length, ← ready.fragmented, Packet.fragmented, Packet.fragmented, flags]
    exact octets _
  · rw [length]
    exact ready.few

theorem ready_hops (ready : Ready receiver mtu p) (k : Nat) : Ready receiver mtu (Armor.incrementHops^[k] p) := by
  induction k with
  | zero => exact ready
  | succ k ih =>
      rw [Function.iterate_succ_apply']
      exact ready_hop ih

theorem notFragment (ready : Ready receiver mtu p) : ¬ Packet.isFragment p = true := by
  rw [Packet.isFragment, decide_eq_true_iff]
  exact ready.notReserved

/-- The head of a packet that has made some hops. -/
theorem take_hops (least : Packet.minPacketLength ≤ mtu) (k : Nat) (p : List Byte) :
    (Armor.incrementHops^[k] p).take mtu = Armor.incrementHops^[k] (p.take mtu) := by
  induction k with
  | zero => rfl
  | succ k ih =>
      have flags (data : List Byte) : Packet.flags (data.take mtu) = Packet.flags data := by
        rw [Packet.flags, Packet.flags, Packet.byteAt, Packet.byteAt, List.getD_eq_getElem?_getD,
          List.getD_eq_getElem?_getD, List.getElem?_take_of_lt (lt_of_lt_of_le (by decide) least)]
      rw [Function.iterate_succ_apply', Function.iterate_succ_apply', ← ih, Armor.incrementHops, Armor.incrementHops,
        List.take_set, flags]

theorem fragmentOf_hops (least : Packet.minPacketLength ≤ mtu) (k number : Nat) (p : List Byte) :
    fragmentOf (Armor.incrementHops^[k] p) mtu number = fragmentOf p mtu number := by
  have alike := alike_incrementHops k p
  have addresses : (Armor.incrementHops^[k] p).take 13 = p.take 13 := @Alike.fieldAt _ _ _ alike 0 13 (by decide)
  have behind : 18 < fragmentStart mtu number := lt_of_lt_of_le (by decide) (le_trans least (Nat.le_add_right _ _))
  rw [fragmentOf, fragmentOf, fragmentLength, fragmentLength, alike.length, addresses, alike.fieldAt_behind behind]

theorem isFragment_fragmentOf (ready : Ready receiver mtu p) (number : Nat) :
    Packet.isFragment (fragmentOf p mtu number) = true := (fragmentOf_fields ready.long number).2.2.1

/-- What a node takes a fragment for does not depend on its hops. -/
theorem classify_hops {data : List Byte} (fragment : Packet.isFragment data = true) (env : Environment) (k : Nat) :
    classify env (passed^[k] data) = classify env data := by
  have alike := alike_fragment fragment k
  have still : Packet.isFragment (passed^[k] data) = true := by
    rw [Packet.isFragment, alike.byteAt (by decide), ← Packet.isFragment]
    exact fragment
  have destination : Packet.destination (passed^[k] data) = Packet.destination data :=
    congrArg (wordOf 40) (alike.fieldAt (by decide))
  have sane : saneFragment (passed^[k] data) = saneFragment data := by
    rw [saneFragment, saneFragment, Packet.totalFragments, Packet.totalFragments, Packet.fragmentNumber,
      Packet.fragmentNumber, alike.byteAt (by decide)]
  rw [classify, classify, alike.length, destination, sane, if_pos still, if_pos fragment]

theorem payload_hops {data : List Byte} (fragment : Packet.isFragment data = true) (k : Nat) :
    Packet.payload (passed^[k] data) = Packet.payload data := (alike_fragment fragment k).behind

/-- The cut of a packet whose pieces have made any numbers of hops: that of the head is the packet's. -/
def relayedCut (ready : Ready receiver mtu p) (large : mtu < p.length) (k : Nat → Nat) :
    Split receiver (Armor.incrementHops^[k 0] p) where
  total := totalFragments mtu p.length
  head := (Armor.incrementHops^[k 0] p).take mtu
  fragment := fun number => passed^[k number] (fragmentOf p mtu number)
  several := cut_several ready large
  few := ready.few
  headKind := cut_headKind (ready_hops ready (k 0)) (by rw [(alike_incrementHops (k 0) p).length]; exact large)
  headId := cut_headId (ready_hops ready (k 0))
  fragmentKind := by
    intro env identity number positive inside
    rw [classify_hops (isFragment_fragmentOf ready number)]
    exact cut_fragmentKind ready large env identity number positive inside
  fragmentId := by
    intro number
    rw [packetId_passed, cut_fragmentId ready, ← passed_head (notFragment ready), packetId_passed]
  numbered := by
    intro number positive inside
    have alike := alike_fragment (isFragment_fragmentOf ready number) (k number)
    rw [Packet.fragmentNumber, Packet.totalFragments, alike.byteAt (by decide)]
    exact cut_numbered ready number positive inside
  joined := by
    have length := (alike_incrementHops (k 0) p).length
    have joined := cut_joined (ready_hops ready (k 0)) (by rw [length]; exact large)
    rw [length] at joined
    simp only [fragmentOf_hops ready.least] at joined
    simp only [payload_hops (isFragment_fragmentOf ready _)]
    exact joined
  fits := (ready_hops ready (k 0)).fits

variable {k : Nat → Nat} {datagrams : List Datagram} {sw : Switch}

theorem piece_hops (ready : Ready receiver mtu p) (large : mtu < p.length) (number : Nat) :
    (relayedCut ready large k).piece number = passed^[k number] ((cut ready large).piece number) := by
  rw [Split.piece, Split.piece]
  by_cases zero : number = 0
  · have head : ¬ Packet.isFragment (p.take mtu) = true := by
      have octet : Packet.byteAt (p.take mtu) 13 = Packet.byteAt p 13 := by
        rw [Packet.byteAt, Packet.byteAt, List.getD_eq_getElem?_getD, List.getD_eq_getElem?_getD,
          List.getElem?_take_of_lt (lt_of_lt_of_le (by decide) ready.least)]
      rw [Packet.isFragment, octet, ← Packet.isFragment]
      exact notFragment ready
    rw [if_pos zero, if_pos zero, zero]
    exact (take_hops ready.least (k 0) p).trans (passed_head head (k 0)).symm
  · rw [if_neg zero, if_neg zero]
    rfl

/-- The datagrams in the order of their numbers. -/
theorem transmit_pieces (ready : Ready receiver mtu p) (large : mtu < p.length) :
    transmit mtu p = (List.range (totalFragments mtu p.length)).map (cut ready large).piece := by
  have several : 1 < totalFragments mtu p.length := cut_several ready large
  obtain ⟨more, count⟩ := Nat.exists_eq_add_of_le (Nat.le_of_lt several)
  have behind : ∀ number ∈ List.range' 1 more, (cut ready large).piece number = fragmentOf p mtu number := by
    intro number member
    have positive : number ≠ 0 := Nat.pos_iff_ne_zero.mp (List.mem_range'_1.mp member).1
    rw [Split.piece, if_neg positive]
    rfl
  rw [transmit_fragmented ready.least large ready.fits, count, Nat.add_sub_cancel_left, List.range_eq_range',
    Nat.add_comm, List.range'_succ, List.map_cons, List.map_congr_left behind]
  rfl

/-- The receiver gets each piece with some number of hops, as often as may be, and datagrams of other packets. -/
structure Arrives (receiver : Address) (pieces : List (List Byte)) (id : BitVec 64) (k : Nat → Nat)
    (datagrams : List Datagram) : Prop where
  receives : ∀ datagram ∈ datagrams, datagram.env.identity = receiver ∧ KeepsId datagram.env ∧ datagram.now ≠ 0
  piece : ∀ datagram ∈ datagrams, Packet.packetId datagram.data = id →
    ∃ number piece, pieces[number]? = some piece ∧ datagram.data = passed^[k number] piece
  complete : ∀ number piece, pieces[number]? = some piece →
    ∃ datagram ∈ datagrams, datagram.data = passed^[k number] piece

/-- `tryDecode` is invoked on the packet with the hops of its head, and for its id on nothing else. -/
theorem relayed_decoded (ready : Ready receiver mtu p)
    (arrives : Arrives receiver (transmit mtu p) (Packet.packetId p) k datagrams)
    (unheld : ∀ slot, (sw.rxQueue slot).packetId ≠ Packet.packetId p)
    (ring : ringEntriesTaken (Packet.packetId p) sw datagrams < rxQueueSize) :
    (Packet.packetId p, Armor.incrementHops^[k 0] p) ∈ decoded sw datagrams ∧
      ∀ call ∈ decoded sw datagrams, call.1 = Packet.packetId p → call.2 = Armor.incrementHops^[k 0] p := by
  obtain ⟨receives, piece, complete⟩ := arrives
  have id : Packet.packetId (Armor.incrementHops^[k 0] p) = Packet.packetId p := by
    rw [← passed_head (notFragment ready), packetId_passed]
  by_cases large : mtu < p.length
  · have pieces := transmit_pieces ready large
    have numbered {number : Nat} {part : List Byte} (sent : (transmit mtu p)[number]? = some part) :
        number < totalFragments mtu p.length ∧ (relayedCut ready large k).piece number = passed^[k number] part := by
      rw [pieces, List.getElem?_map, Option.map_eq_some_iff] at sent
      obtain ⟨same, inside, rfl⟩ := sent
      obtain ⟨below, rfl⟩ := List.getElem?_eq_some_iff.mp inside
      rw [List.length_range] at below
      rw [List.getElem_range]
      exact ⟨below, piece_hops ready large _⟩
    have arrivals : ∀ datagram ∈ datagrams, Arrival receiver (Armor.incrementHops^[k 0] p)
        ((List.range (totalFragments mtu p.length)).map (relayedCut ready large k).piece) datagram := by
      intro datagram member
      obtain ⟨identity, keeps, -⟩ := receives datagram member
      refine ⟨identity, keeps, ?_⟩
      rw [id]
      by_cases own : Packet.packetId datagram.data = Packet.packetId p
      · obtain ⟨number, part, sent, same⟩ := piece datagram member own
        obtain ⟨inside, part⟩ := numbered sent
        rw [same, ← part]
        exact Or.inl (List.mem_map_of_mem (List.mem_range.mpr inside))
      · exact Or.inr own
    have clock : ∀ datagram ∈ datagrams, datagram.now ≠ 0 := fun datagram member => (receives datagram member).2.2
    have each : ∀ part ∈ (List.range (totalFragments mtu p.length)).map (relayedCut ready large k).piece,
        ∃ number, number < (relayedCut ready large k).total ∧ part = (relayedCut ready large k).piece number := by
      intro part member
      obtain ⟨number, inside, rfl⟩ := List.mem_map.mp member
      exact ⟨number, List.mem_range.mp inside, rfl⟩
    rw [← id] at unheld ring ⊢
    refine ⟨decoded_delivers each datagrams arrivals clock ∅ sw (Or.inl ⟨rfl, unheld⟩) ring ?_,
      decoded_sound each datagrams arrivals clock sw fun slot held => absurd held (unheld slot)⟩
    intro number inside
    have sent : (transmit mtu p)[number]? = some ((cut ready large).piece number) := by
      have below : number < totalFragments mtu p.length := inside
      rw [pieces, List.getElem?_map, List.getElem?_range below]
      rfl
    obtain ⟨datagram, member, same⟩ := complete number _ sent
    exact Or.inr ⟨datagram, member, same.trans (piece_hops ready large number).symm⟩
  · have single := transmit_whole large
    have small : ¬ mtu < (Armor.incrementHops^[k 0] p).length := by
      rw [(alike_incrementHops (k 0) p).length]
      exact large
    have arrivals : ∀ datagram ∈ datagrams, Arrival receiver (Armor.incrementHops^[k 0] p)
        [Armor.incrementHops^[k 0] p] datagram := by
      intro datagram member
      obtain ⟨identity, keeps, -⟩ := receives datagram member
      refine ⟨identity, keeps, ?_⟩
      rw [id]
      by_cases own : Packet.packetId datagram.data = Packet.packetId p
      · obtain ⟨number, part, sent, same⟩ := piece datagram member own
        rw [single] at sent
        obtain ⟨inside, rfl⟩ := List.getElem?_eq_some_iff.mp sent
        have first : number = 0 := Nat.lt_one_iff.mp inside
        subst first
        rw [same]
        exact Or.inl (List.mem_singleton.mpr (passed_head (notFragment ready) (k 0)))
      · exact Or.inr own
    obtain ⟨found, sound⟩ := decoded_whole (ready_hops ready (k 0)) small datagrams arrivals sw
    obtain ⟨datagram, member, same⟩ := complete 0 p (by rw [single]; rfl)
    rw [id] at found sound
    exact ⟨found ⟨datagram, member, same.trans (passed_head (notFragment ready) (k 0))⟩, sound⟩

end Cut

section Network

/-- A turn of the network, or a datagram that reaches the receiver. -/
inductive Turn
  | network (event : RelayNetwork.Event)
  | deliver (i : Nat) (env : Environment) (now : Int) (path : InetAddress)

def take (s : Internet) : Turn → Internet
  | .network event => step s event
  | .deliver i _ _ _ => step s (.lose i)

/-- What a turn hands to the receiver, with the place of its origin. -/
def handed (s : Internet) : Turn → Option (Nat × Datagram)
  | .network _ => none
  | .deliver i env now path => s.flight[i]?.map fun datagram => (datagram.1, ⟨env, now, path, datagram.2⟩)

def delivered : Internet → List Turn → List (Nat × Datagram)
  | _, [] => []
  | s, turn :: turns => (handed s turn).toList ++ delivered (take s turn) turns

/-- Everything that was sent in a run. -/
def origins (turns : List Turn) : List (List Byte) := (turns.foldl take silent).origins

variable {s : Internet}

theorem origins_step (s : Internet) (event : RelayNetwork.Event) :
    ∃ more, (step s event).origins = s.origins ++ more := by
  cases event with
  | send data => exact ⟨[data], rfl⟩
  | lose i => exact ⟨[], (List.append_nil _).symm⟩
  | arrive i relayer =>
      rw [step]
      cases s.flight[i]? with
      | none => exact ⟨[], (List.append_nil _).symm⟩
      | some datagram => exact ⟨[], (List.append_nil _).symm⟩

theorem places_step (s : Internet) (event : RelayNetwork.Event) {place : Nat}
    (listed : place ∈ (step s event).flight.map Prod.fst) :
    place ∈ s.flight.map Prod.fst ∨ s.origins.length ≤ place := by
  cases event with
  | send data =>
      rcases List.mem_cons.mp listed with new | old
      · exact Or.inr (le_of_eq new.symm)
      · exact Or.inl old
  | lose i => exact Or.inl (((List.eraseIdx_sublist s.flight i).map Prod.fst).subset listed)
  | arrive i relayer =>
      rw [step] at listed
      cases here : s.flight[i]? with
      | none =>
          rw [here] at listed
          exact Or.inl listed
      | some datagram =>
          rw [here] at listed
          obtain ⟨next, member, rfl⟩ := List.mem_map.mp listed
          refine Or.inl ?_
          rcases List.mem_append.mp member with passedOn | still
          · obtain ⟨data, -, rfl⟩ := List.mem_map.mp passedOn
            exact List.mem_map.mpr ⟨datagram, List.mem_of_getElem? here, rfl⟩
          · exact List.mem_map_of_mem (List.mem_of_mem_eraseIdx still)

theorem origins_take (s : Internet) (turn : Turn) : ∃ more, (take s turn).origins = s.origins ++ more := by
  cases turn with
  | network event => exact origins_step s event
  | deliver i env now path => exact origins_step s (.lose i)

theorem origins_run (s : Internet) (turns : List Turn) :
    ∃ more, (turns.foldl take s).origins = s.origins ++ more := by
  induction turns generalizing s with
  | nil => exact ⟨[], (List.append_nil _).symm⟩
  | cons turn turns ih =>
      obtain ⟨first, one⟩ := origins_take s turn
      obtain ⟨rest, all⟩ := ih (take s turn)
      exact ⟨first ++ rest, by rw [List.foldl_cons, all, one, List.append_assoc]⟩

theorem bounded_take (bounded : Bounded s) (turn : Turn) : Bounded (take s turn) := by
  cases turn with
  | network event => exact bounded_step bounded event
  | deliver i env now path => exact bounded_step bounded (.lose i)

theorem Bounded.hops_le (bounded : Bounded s) (place : Nat) : s.log.count place ≤ 3 := by
  by_cases listed : place ∈ s.log
  · obtain ⟨origin, -, few⟩ := bounded.sent place listed
    exact le_trans (Nat.le_add_left _ _) few
  · rw [List.count_eq_zero.mpr listed]
    exact Nat.zero_le 3

/-- What the receiver gets from now on: each datagram is its origin with at most three hops, and none has the origin of
another one or of one that is no longer under way. -/
structure Traced (s : Internet) (origins : List (List Byte)) (received : List (Nat × Datagram)) : Prop where
  copies : ∀ entry ∈ received, ∃ origin hops, origins[entry.1]? = some origin ∧ hops ≤ 3 ∧
    entry.2.data = passed^[hops] origin
  single : (received.map Prod.fst).Nodup
  places : ∀ place ∈ received.map Prod.fst, place ∈ s.flight.map Prod.fst ∨ s.origins.length ≤ place

theorem Traced.earlier {origins : List (List Byte)} {received : List (Nat × Datagram)} {turn : Turn}
    (traced : Traced (take s turn) origins received) : Traced s origins received where
  copies := traced.copies
  single := traced.single
  places := by
    intro place listed
    obtain ⟨more, grown⟩ := origins_take s turn
    rcases traced.places place listed with flying | new
    · cases turn with
      | network event => exact places_step s event flying
      | deliver i env now path => exact places_step s (.lose i) flying
    · rw [grown, List.length_append] at new
      exact Or.inr (le_trans (Nat.le_add_right _ _) new)

/-- What the receiver gets is what was delivered to it. -/
theorem delivered_turns {turns : List Turn} {entry : Nat × Datagram} (received : entry ∈ delivered s turns) :
    ∃ i, .deliver i entry.2.env entry.2.now entry.2.path ∈ turns := by
  induction turns generalizing s with
  | nil => cases received
  | cons turn turns ih =>
      rcases List.mem_append.mp received with now | later
      · cases turn with
        | network event => cases now
        | deliver i env now path =>
            obtain ⟨datagram, -, rfl⟩ := Option.map_eq_some_iff.mp (Option.mem_toList.mp now)
            exact ⟨i, List.mem_cons_self⟩
      · obtain ⟨i, turned⟩ := ih later
        exact ⟨i, List.mem_cons_of_mem _ turned⟩

theorem traced_run (bounded : Bounded s) (turns : List Turn) :
    Traced s (turns.foldl take s).origins (delivered s turns) := by
  induction turns generalizing s with
  | nil => exact ⟨fun _ none => (nomatch none), List.nodup_nil, fun _ none => (nomatch none)⟩
  | cons turn turns ih =>
      have later := ih (bounded_take bounded turn)
      rw [List.foldl_cons, delivered]
      cases gets : handed s turn with
      | none => exact later.earlier
      | some entry =>
          cases turn with
          | network event => cases gets
          | deliver i env now path =>
              obtain ⟨datagram, here, rfl⟩ := Option.map_eq_some_iff.mp gets
              obtain ⟨inside, same⟩ := List.getElem?_eq_some_iff.mp here
              obtain ⟨origin, known, copy, -⟩ := bounded.copies datagram (List.mem_of_getElem? here)
              obtain ⟨more, grown⟩ := origins_run s (.deliver i env now path :: turns)
              rw [List.foldl_cons] at grown
              have below := (List.getElem?_eq_some_iff.mp known).1
              have before := later.earlier
              refine ⟨?_, ?_, ?_⟩
              · intro entry member
                rcases List.mem_cons.mp member with rfl | member
                · refine ⟨origin, s.log.count datagram.1, ?_, Bounded.hops_le bounded _, copy⟩
                  rw [grown, List.getElem?_append_left below]
                  exact known
                · exact later.copies entry member
              · refine List.nodup_cons.mpr ⟨?_, later.single⟩
                intro again
                rcases later.places _ again with flying | new
                · have order := (List.getElem_cons_eraseIdx_perm inside).map Prod.fst
                  rw [same] at order
                  exact (List.nodup_cons.mp (order.nodup_iff.mpr bounded.single)).1 flying
                · exact absurd below (Nat.not_lt.mpr new)
              · intro place listed
                rcases List.mem_cons.mp listed with rfl | listed
                · exact Or.inl (List.mem_map_of_mem (List.mem_of_getElem? here))
                · exact before.places place listed

/-- In a run each piece is sent once and nothing else has the packet's id, and every piece reaches the receiver. -/
structure Conveyed (receiver : Address) (pieces : List (List Byte)) (id : BitVec 64) (turns : List Turn) : Prop where
  once : ∀ piece ∈ pieces, ∀ first second : Nat, (origins turns)[first]? = some piece →
    (origins turns)[second]? = some piece → first = second
  alone : ∀ origin ∈ origins turns, Packet.packetId origin = id → origin ∈ pieces
  complete : ∀ piece ∈ pieces, ∃ entry ∈ delivered silent turns, (origins turns)[entry.1]? = some piece
  receives : ∀ entry ∈ delivered silent turns,
    entry.2.env.identity = receiver ∧ KeepsId entry.2.env ∧ entry.2.now ≠ 0

/-- Every piece arrives with hops of its own. -/
theorem arrives_conveyed {receiver : Address} {pieces : List (List Byte)} {id : BitVec 64} {turns : List Turn}
    (conveyed : Conveyed receiver pieces id turns) : ∃ k : Nat → Nat, (∀ number, k number ≤ 3) ∧
      Arrives receiver pieces id k ((delivered silent turns).map Prod.snd) := by
  obtain ⟨copies, single, -⟩ := traced_run bounded_silent turns
  have hops (number : Nat) : ∃ hops ≤ 3, ∀ piece, pieces[number]? = some piece →
      ∀ entry ∈ delivered silent turns, (origins turns)[entry.1]? = some piece → entry.2.data = passed^[hops] piece := by
    cases sent : pieces[number]? with
    | none => exact ⟨0, Nat.zero_le 3, fun _ none => nomatch none⟩
    | some part =>
        have member := List.mem_of_getElem? sent
        obtain ⟨entry, listed, origin⟩ := conveyed.complete part member
        obtain ⟨known, hops, place, few, copy⟩ := copies entry listed
        have same : known = part := Option.some.inj (place.symm.trans origin)
        refine ⟨hops, few, ?_⟩
        intro piece equal other otherListed otherOrigin
        obtain rfl := Option.some.inj equal
        have alike : other = entry := List.inj_on_of_nodup_map single otherListed listed
          (conveyed.once part member _ _ otherOrigin origin)
        rw [alike, copy, same]
  choose k few each using hops
  refine ⟨k, few, ?_, ?_, ?_⟩
  · intro datagram member
    obtain ⟨entry, listed, rfl⟩ := List.mem_map.mp member
    exact conveyed.receives entry listed
  · intro datagram member own
    obtain ⟨entry, listed, rfl⟩ := List.mem_map.mp member
    obtain ⟨origin, hops, place, -, copy⟩ := copies entry listed
    rw [copy, packetId_passed] at own
    obtain ⟨number, sent⟩ := List.getElem?_of_mem (conveyed.alone origin (List.mem_of_getElem? place) own)
    exact ⟨number, origin, sent, each number origin sent entry listed place⟩
  · intro number piece sent
    obtain ⟨entry, listed, place⟩ := conveyed.complete piece (List.mem_of_getElem? sent)
    exact ⟨entry.2, List.mem_map_of_mem listed, each number piece sent entry listed place⟩

end Network

section Frames

open Armor BroadcastPaths

variable {ends : Ends} (lawful : ends.crypto.Lawful) {path : LivePath} {packet : List Byte}

theorem exists_parts {data : List Byte} (long : Packet.minPacketLength ≤ data.length) : ∃ p : Parts, p.bytes = data :=
  ⟨Parts.cut data (le_trans (by decide) long), Parts.bytes_cut data _⟩

theorem verb_bytes {p q : Parts} (body : q.body = p.body) : Packet.verb q.bytes = Packet.verb p.bytes := by
  have first (r : Parts) : Packet.verb r.bytes = Packet.byteAt r.body 0 &&& 0x1f := by
    rw [Packet.verb, ← Parts.drop_body r, Packet.byteAt, Packet.byteAt, List.getD_eq_getElem?_getD,
      List.getD_eq_getElem?_getD, List.getElem?_drop]
  rw [first, first, body]

/-- A suite with no encryption is that of a packet sent in the clear. -/
theorem suite_zero {encrypt : Bool} (plain : ends.suite encrypt = 0) : encrypt = false := by
  cases encrypt with
  | false => rfl
  | true =>
      rw [Ends.suite, if_pos rfl] at plain
      split_ifs at plain <;> cases plain

include lawful in
/-- What a path sends, its peer accepts after any number of hops. -/
theorem accept_relayed (encrypt : Bool) (frame : Frame packet) (untrusted : path.trustedPathId = 0) (hops : Nat) :
    ∃ plain, ends.accept path (incrementHops^[hops] (ends.sentOver encrypt path packet)) = some plain ∧
      plain.drop 27 = packet.drop 27 := by
  obtain ⟨p, rfl⟩ := exists_parts frame.long
  let f := decide (path.mtu < p.bytes.length)
  have fresh : withFragmented p.flags f &&& 0x07 = 0 := by
    rw [(withFragmented_spec p.flags f).1, (unsealed_refl frame).hops]
  obtain ⟨armored, q, sent, arrived, opened, -, flags, -, -, clear⟩ :=
    armor_opens lawful encrypt { p with flags := withFragmented p.flags f } hops fresh
  have bytes : ends.sentOver encrypt path p.bytes = armored := by
    rw [sentOver_eq, untrusted, ← Ends.armored, armored_eq frame.clear, setFragmented_bytes, sent, Option.getD_some]
  have cipher : Packet.cipher q.bytes = ends.suite encrypt := by
    rw [Packet.cipher, Parts.flags_bytes]
    exact (sentFlags_spec (ends.suite_cases encrypt) (by rw [flags, nextHop_kept])).1
  have proper : Packet.cipher q.bytes ≠ 2 := by
    rw [cipher]
    rcases ends.suite_cases encrypt with suite | suite | suite <;> rw [suite] <;> decide
  have noHello : ¬ (Packet.cipher q.bytes = 0 ∧ Packet.verb q.bytes = 1) := by
    rintro ⟨plain, hello⟩
    rw [cipher] at plain
    have verb : Packet.verb q.bytes = Packet.verb p.bytes := verb_bytes (clear (suite_zero plain)).2
    rw [hello] at verb
    rcases frame.verb with six | seven
    · exact absurd (verb.trans six) (by decide)
    · exact absurd (verb.trans seven) (by decide)
  refine ⟨{ q with body := p.body }.bytes, ?_, ?_⟩
  · rw [bytes, arrived, Ends.accept, if_neg proper, if_neg noHello, opened]
    rfl
  · rw [Parts.drop_body, Parts.drop_body]

include lawful in
/-- What a path sends, it can cut into datagrams for the peer. -/
theorem sent_ready (encrypt : Bool) (frame : Frame packet) (untrusted : path.trustedPathId = 0)
    (carries : Carries path.mtu packet.length) (stranger : Packet.source packet ≠ Packet.destination packet) :
    Ready (Packet.destination packet) path.mtu (ends.sentOver encrypt path packet) := by
  obtain ⟨p, rfl⟩ := exists_parts frame.long
  obtain ⟨q, isSealed⟩ := armored_sealed lawful frame encrypt (decide (path.mtu < p.bytes.length))
  have bytes := (sent_armored lawful frame (unsealed_refl frame) untrusted).trans isSealed.bytes
  have size : q.bytes.length = p.bytes.length := by rw [Parts.length_bytes, Parts.length_bytes, isSealed.size]
  obtain ⟨destination, source, octet⟩ := @addresses_congr q.bytes p.bytes (by
    rw [Parts.fieldAt_addresses, Parts.fieldAt_addresses, isSealed.addresses])
  have long := frame.long
  have least : Packet.minPacketLength ≤ path.mtu := by
    rcases carries with whole | ⟨least, -⟩
    · exact le_trans long whole
    · exact least
  rw [bytes]
  refine ⟨least, ?_, ?_, destination, ?_, ?_, ?_, ?_⟩
  · rw [size]
    exact long
  · rw [size]
    exact frame.fits
  · rw [source]
    exact stranger
  · rw [octet]
    exact frame.notReserved
  · rw [size]
    exact (sealed_cipher isSealed).2
  · rw [size]
    by_cases large : path.mtu < p.bytes.length
    · have few := (@totalFragments_le_iff path.mtu p.bytes.length 6 (fragmentRoom_pos least) large).mpr
      rw [fragmentRoom_eq least] at few
      refine few ?_
      rcases carries with whole | ⟨-, most⟩
      · exact absurd whole (Nat.not_le.mpr large)
      · exact most
    · rw [totalFragments, Nat.sub_eq_zero_of_le (Nat.not_lt.mp large), Nat.zero_div, Nat.zero_mul]
      decide

include lawful in
/-- A frame is conveyed over any relays, in any order, with any losses of other datagrams. -/
theorem frame_conveyed (encrypt : Bool) (frame : Frame packet) (untrusted : path.trustedPathId = 0)
    (carries : Carries path.mtu packet.length) (stranger : Packet.source packet ≠ Packet.destination packet)
    (turns : List Turn) (sw : Switch)
    (conveyed : Conveyed (Packet.destination packet)
      (sendViaSpecificPath (ends.secure encrypt path.trustedPathId) path.mtu packet)
      (Packet.packetId (ends.sentOver encrypt path packet)) turns)
    (unheld : ∀ slot, (sw.rxQueue slot).packetId ≠ Packet.packetId (ends.sentOver encrypt path packet))
    (ring : ringEntriesTaken (Packet.packetId (ends.sentOver encrypt path packet)) sw
      ((delivered silent turns).map Prod.snd) < rxQueueSize) :
    ∃ data plain, (∃ hops ≤ 3, data = incrementHops^[hops] (ends.sentOver encrypt path packet)) ∧
      ends.accept path data = some plain ∧ plain.drop 27 = packet.drop 27 ∧
      (Packet.packetId (ends.sentOver encrypt path packet), data) ∈
        decoded sw ((delivered silent turns).map Prod.snd) ∧
      ∀ call ∈ decoded sw ((delivered silent turns).map Prod.snd),
        call.1 = Packet.packetId (ends.sentOver encrypt path packet) → call.2 = data := by
  obtain ⟨k, few, arrives⟩ := arrives_conveyed conveyed
  have ready := sent_ready lawful encrypt frame untrusted carries stranger
  obtain ⟨found, sound⟩ := relayed_decoded ready arrives unheld ring
  obtain ⟨plain, accepted, same⟩ := accept_relayed lawful encrypt frame untrusted (k 0)
  exact ⟨_, plain, ⟨k 0, few 0, rfl⟩, accepted, same, found, sound⟩

end Frames

section Small

open BroadcastPaths

/-- Node 5 is an upstream of node 1 and knows a path to it. -/
def upstreamFive : Relayer where
  env := ⟨fun _ => none, fun _ => 0, fun _ _ _ => true⟩
  topology := { Topology.new ⟨5, 0⟩ with amUpstream := true, peers := fun _ => some (Peer.new Armor.nodeOne) }
  lastUniteAttempt := fun _ => none
  path := Path.new
  now := 0

def nodeOneEnv : Environment := { lonelyEnv with identity := 1 }

/-- Both datagrams of the small frame are sent, node 5 passes the fragment on, and it arrives before the head. -/
def smallTurns : List Turn :=
  (transmit 80 (smallEnds.sentOver true narrowPath smallFrame)).map (fun data => .network (.send data)) ++
    [.network (.arrive 0 upstreamFive), .deliver 0 nodeOneEnv 1 .nil, .deliver 0 nodeOneEnv 2 .nil]

theorem smallFrame_conveyed : ∃ data plain,
    (∃ hops ≤ 3, data = Armor.incrementHops^[hops] (smallEnds.sentOver true narrowPath smallFrame)) ∧
      smallEnds.accept narrowPath data = some plain ∧ plain.drop 27 = smallFrame.drop 27 ∧
      (Packet.packetId (smallEnds.sentOver true narrowPath smallFrame), data) ∈
        decoded zeroSwitch ((delivered silent smallTurns).map Prod.snd) ∧
      ∀ call ∈ decoded zeroSwitch ((delivered silent smallTurns).map Prod.snd),
        call.1 = Packet.packetId (smallEnds.sentOver true narrowPath smallFrame) → call.2 = data := by
  apply frame_conveyed Armor.software_lawful true smallFrame_frame (by decide) (by unfold Carries; decide) (by decide)
  · refine ⟨?_, by decide +kernel, by decide +kernel, ?_⟩
    · have apart : (origins smallTurns).Nodup := by decide +kernel
      intro piece _ first second one other
      exact (List.getElem?_inj (List.getElem?_eq_some_iff.mp one).1 apart).mp (one.trans other.symm)
    · intro entry received
      obtain ⟨i, turned⟩ := delivered_turns received
      have own : entry.2.env = nodeOneEnv ∧ (entry.2.now = 1 ∨ entry.2.now = 2) := by
        rcases List.mem_append.mp turned with sent | turned
        · obtain ⟨data, -, wrong⟩ := List.mem_map.mp sent
          cases wrong
        · simp only [List.mem_cons, List.not_mem_nil, or_false, reduceCtorEq, false_or, Turn.deliver.injEq] at turned
          rcases turned with ⟨-, env, now, -⟩ | ⟨-, env, now, -⟩
          · exact ⟨env, Or.inl now⟩
          · exact ⟨env, Or.inr now⟩
      rw [own.1]
      refine ⟨rfl, fun _ _ => rfl, ?_⟩
      rcases own.2 with now | now <;> rw [now] <;> decide
  · decide +kernel
  · decide +kernel

end Small

end ZeroTierNode.RelayedDelivery

import Mathlib.Data.List.Perm.Basic
import ZeroTierNode.Library.Deliveries
import ZeroTierNode.Library.Runs
import ZeroTierNode.MulticastLikes
import ZeroTierNode.Packet

/-!
The life of a multicast: what `Multicaster::send` hands to the switch at once, what
it leaves in the queue of its group, and where the queue is sent later, as members
are added. The log of what was sent, and the numbers that tell multicasts apart in
it, are not in the code.
-/

namespace ZeroTierNode

namespace NetworkConfig

def activeBridges (nc : NetworkConfig) : List Address :=
  (nc.specialists.filter fun specialist => specialist &&& (0x0000020000000000 : BitVec 64) ≠ 0).map (BitVec.setWidth 40)

def multicastReplicators (nc : NetworkConfig) : List Address :=
  (nc.specialists.filter fun specialist => specialist &&& (0x0000080000000000 : BitVec 64) ≠ 0).map (BitVec.setWidth 40)

end NetworkConfig

namespace MulticastDelivery
open Library.Deliveries Library.Runs MulticastLikes

/-- An entry of the queue. -/
structure Queued where
  id : Nat
  timestamp : BitVec 64
  out : OutboundMulticast

/-- With `ZT_MULTICAST_TRANSMIT_TIMEOUT` of 5000; the difference is unsigned. -/
def Queued.expired (tx : Queued) (now : Int) : Bool := 5000 ≤ (BitVec.ofInt 64 now - tx.timestamp).toNat

/-- A turn of the loop over the queue of `_add`. -/
def Queued.offer (tx : Queued) (member : Address) : Option Queued :=
  (tx.out.offer member).map fun out => { tx with out := out }

/-- The loop over the queue of `_add`. -/
def flushQueue (member : Address) (txQueue : List Queued) : List Queued := txQueue.filterMap fun tx => tx.offer member

/-- A group, the number of the next multicast to it, and all that was handed to the switch for it. -/
structure State where
  members : List MulticastGroupMember
  txQueue : List Queued
  nextId : Nat
  sent : List (Nat × Address)

def State.empty : State := ⟨[], [], 0, []⟩

/-- The group as the subscriptions see it. -/
def State.status (s : State) : MulticastGroupStatus := ⟨s.members, s.txQueue.map Queued.out⟩

/-- What a call of `Multicaster::send` is given, finds in the topology, and draws. -/
structure Call where
  now : Int
  config : NetworkConfig
  origin : Address
  /-- The frame has a source of its own. -/
  src : Bool
  len : Nat
  /-- The latency of the path to a peer that is known and alive. -/
  latency : Address → Option Nat
  prng : Nat → Nat
  /-- `filterOutgoingPacket`. -/
  accepts : Address → Bool

/-- The loop that swaps the indexes from the last one down. -/
def swaps (prng : Nat → Nat) : Nat → Array Nat → Array Nat
  | 0, indexes => indexes
  | i + 1, indexes => swaps prng i (indexes.swapIfInBounds (prng (i + 1) % (i + 2)) (i + 1))

/-- The members in the order of the permuted indexes. -/
def shuffled (prng : Nat → Nat) (members : List MulticastGroupMember) : List Address :=
  (swaps prng (members.length - 1) (Array.range members.length)).toList.filterMap fun i =>
    (members[i]?).map MulticastGroupMember.address

/-- The loop over the replicators. -/
def bestReplicator (latency : Address → Option Nat) (replicators : List Address) : Option Address :=
  (replicators.foldl (fun best replicator =>
    (latency replicator).elim best fun found => if found < best.1 then (found, some replicator) else best)
    ((0xffff, none) : Nat × Option Address)).2

namespace Call

variable (call : Call)

def limit : Nat := call.config.multicastLimit.toNat

/-- The peer that replicates the multicast in place of this node. -/
def replicator (self : Address) : Option Address :=
  if self ∈ call.config.activeBridges ∨ self ∈ call.config.multicastReplicators then none
  else bestReplicator call.latency call.config.multicastReplicators

/-- The packet to a replicator has room for the frame. -/
def fitsReplicator : Bool := 28 + 8 + 1 + 6 + 6 + 4 + 2 + call.len ≤ Packet.maxPacketLength

/-- `OutboundMulticast::init` does not throw. -/
def fits (gatherLimit : BitVec 32) : Bool :=
  28 + 8 + 1 + (if gatherLimit = 0 then 0 else 4) + (if call.src then 6 else 0) + 6 + 4 + 2 + min call.len 10000 ≤
    Packet.maxPacketLength

/-- How many members to gather for a group that is too small. -/
def gatherLimit (members : List MulticastGroupMember) : BitVec 32 :=
  call.config.multicastLimit - BitVec.ofNat 32 members.length + 1

/-- The active bridges other than this node. -/
def bridges (self : Address) : List Address := call.config.activeBridges.filter fun bridge => bridge ≠ self

/-- The members in a random order, without the active bridges. -/
def others (members : List MulticastGroupMember) : List Address :=
  (shuffled call.prng members).filter fun member => member ∉ call.config.activeBridges

/-- The receivers of a multicast that does not wait for members. -/
def onePass (self : Address) (members : List MulticastGroupMember) : List Address :=
  (call.bridges self).filter (fun bridge => bridge ≠ call.origin) ++
    ((call.others members).filter fun member => member ≠ call.origin).take call.limit

/-- The receivers of a multicast before it waits for more. -/
def atOnce (self : Address) (members : List MulticastGroupMember) : List Address :=
  (call.bridges self).take call.limit ++
    (call.others members).take (call.limit - ((call.bridges self).take call.limit).length)

end Call

/-- `sendOnly` to one receiver after another. -/
def State.sendTo (s : State) (accepts : Address → Bool) (receivers : List Address) : State :=
  { s with sent := s.sent ++ (receivers.filter accepts).map fun receiver => (s.nextId, receiver) }

/-- `while (gs.txQueue.size() >= ZT_TX_QUEUE_SIZE) gs.txQueue.pop_front()`, and then the new entry. -/
def State.enqueue (s : State) (call : Call) (alreadySentTo : List Address) : State :=
  { s with txQueue := s.txQueue.drop (s.txQueue.length - 31) ++
      [⟨s.nextId, BitVec.ofInt 64 call.now, ⟨call.limit, alreadySentTo⟩⟩] }

/-- What `Multicaster::send` does to the group; packets that gather members are left out. -/
def State.transmit (self : Address) (s : State) (call : Call) : State :=
  match call.replicator self with
  | some replicator => if call.fitsReplicator then s.sendTo (fun _ => true) [replicator] else s
  | none =>
      if call.limit ≤ s.members.length then
        if call.fits 1 then s.sendTo call.accepts (call.onePass self s.members) else s
      else if call.fits (call.gatherLimit s.members) then
        (s.enqueue call ((if call.origin = 0 then [] else [call.origin]) ++ call.atOnce self s.members)).sendTo
          call.accepts (call.atOnce self s.members)
      else s.enqueue call [] -- the entry stays behind where `init` throws

/-- `Multicaster::send`. -/
def State.send (self : Address) (s : State) (call : Call) : State :=
  { s.transmit self call with nextId := s.nextId + 1 }

/-- The loop over the queue of `_add`, and where it sends. -/
def State.flush (s : State) (member : Address) (accepts : Nat → Bool) : State :=
  { s with
    txQueue := flushQueue member s.txQueue
    sent := s.sent ++ dispatch Queued.id (fun tx =>
      if tx.out.atLimit ∨ member ∈ tx.out.alreadySentTo ∨ accepts tx.id = false then none else some member) s.txQueue }

/-- `Multicaster::_add`. -/
def State.add (self : Address) (now : Int) (s : State) (member : Address) (accepts : Nat → Bool) : State :=
  if member = self then s
  else
    let before := s.members.takeWhile fun m => m.address < member
    match s.members.dropWhile fun m => m.address < member with
    | m :: behind =>
        if m.address = member then { s with members := before ++ { m with timestamp := now } :: behind }
        else State.flush { s with members := before ++ ⟨member, now⟩ :: m :: behind } member accepts
    | [] => State.flush { s with members := before ++ [⟨member, now⟩] } member accepts

/-- `Multicaster::remove`. -/
def State.remove (s : State) (member : Address) : State :=
  { s with members := s.members.eraseP fun m => m.address = member }

/-- `Multicaster::clean`, with `ZT_MULTICAST_LIKE_EXPIRE` of 600000. A group that is erased is an empty one. -/
def State.clean (now : Int) (s : State) : State :=
  { s with
    txQueue := s.txQueue.filter fun tx => ¬ (tx.expired now ∨ tx.out.atLimit)
    members := s.members.filter fun m => now - m.timestamp < 600000 }

inductive Op where
  | send (call : Call)
  | add (now : Int) (member : Address) (accepts : Nat → Bool)
  | remove (member : Address)
  | clean (now : Int)

/-- One operation on the group; `addMultiple` is one `add` after another. -/
def step (self : Address) (s : State) : Op → State
  | .send call => s.send self call
  | .add now member accepts => s.add self now member accepts
  | .remove member => s.remove member
  | .clean now => s.clean now

/-- What is asked of the receivers of a multicast. -/
structure Proper (node : Address) (call : Call) (receivers : List Address) : Prop where
  notOrigin : call.origin ≠ 0 → call.origin ∉ receivers
  notSelf : node ∉ receivers
  once : receivers.Nodup
  bounded : (receivers.filter fun receiver => receiver ∉ call.config.activeBridges).length ≤ call.limit

theorem swaps_perm (prng : Nat → Nat) (i : Nat) (indexes : Array Nat) : (swaps prng i indexes).toList.Perm indexes.toList := by
  induction i generalizing indexes with
  | zero => exact List.Perm.refl _
  | succ i ih =>
      apply (ih _).trans
      unfold Array.swapIfInBounds
      split
      · split
        · exact (Array.swap_perm _ _).toList
        · exact List.Perm.refl _
      · exact List.Perm.refl _

/-- Whatever is drawn, every member has one place in the order. -/
theorem shuffled_perm (prng : Nat → Nat) (members : List MulticastGroupMember) :
    (shuffled prng members).Perm (members.map MulticastGroupMember.address) := by
  have inOrder : (List.range members.length).filterMap (fun i => (members[i]?).map MulticastGroupMember.address) =
      members.map MulticastGroupMember.address := by
    induction members with
    | nil => rfl
    | cons m members ih =>
        rw [List.length_cons, List.range_succ_eq_map, List.filterMap_cons, List.filterMap_map]
        simp only [List.getElem?_cons_zero, Option.map_some, List.map_cons]
        exact congrArg _ ih
  rw [← inOrder]
  unfold shuffled
  apply List.Perm.filterMap
  have permuted := swaps_perm prng (members.length - 1) (Array.range members.length)
  rwa [Array.toList_range] at permuted

/-- The members of a group are in order, without this node, and the log knows of earlier multicasts alone. -/
structure Valid (node : Address) (s : State) : Prop where
  ordered : Ordered s.status
  others : ∀ m ∈ s.members, m.address ≠ node
  distinct : (s.txQueue.map Queued.id).Nodup
  queued : ∀ tx ∈ s.txQueue, tx.id < s.nextId
  logged : ∀ entry ∈ s.sent, entry.1 < s.nextId

theorem valid_empty (self : Address) : Valid self State.empty where
  ordered := List.Pairwise.nil
  others := nofun
  distinct := List.nodup_nil
  queued := nofun
  logged := nofun

theorem flushQueue_out (member : Address) (txQueue : List Queued) :
    (flushQueue member txQueue).map Queued.out = flushTo member (txQueue.map Queued.out) := by
  unfold flushQueue flushTo
  rw [List.map_filterMap, List.filterMap_map]
  apply List.filterMap_congr
  intro tx _
  rw [Queued.offer, Option.map_map]
  exact Option.map_id'

/-- An addition does to the group what a subscription does. -/
theorem status_add (self : Address) (now : Int) (s : State) (member : Address) (accepts : Nat → Bool) :
    (s.add self now member accepts).status = addMember self now s.status member := by
  have flushed (members : List MulticastGroupMember) : (State.flush { s with members := members } member accepts).status =
      ⟨members, flushTo member (s.txQueue.map Queued.out)⟩ := by
    unfold State.flush State.status
    dsimp only
    rw [flushQueue_out]
  unfold State.add addMember
  by_cases own : member = self
  · rw [if_pos own, if_pos own]
  · rw [if_neg own, if_neg own]
    dsimp only [State.status]
    cases s.members.dropWhile fun m => m.address < member with
    | nil => exact flushed _
    | cons m behind =>
        dsimp only
        by_cases known : m.address = member
        · rw [if_pos known, if_pos known]
        · rw [if_neg known, if_neg known]
          exact flushed _

/-- An addition either finds the member, or this node, and leaves the queue alone, or flushes the queue. -/
theorem add_cases (self : Address) (now : Int) (s : State) (member : Address) (accepts : Nat → Bool) :
    (s.add self now member accepts).nextId = s.nextId ∧
    (((s.add self now member accepts).txQueue = s.txQueue ∧ (s.add self now member accepts).sent = s.sent) ∨
      (member ≠ self ∧ (s.add self now member accepts).txQueue = (s.flush member accepts).txQueue ∧
        (s.add self now member accepts).sent = (s.flush member accepts).sent)) := by
  unfold State.add
  by_cases own : member = self
  · rw [if_pos own]
    exact ⟨rfl, .inl ⟨rfl, rfl⟩⟩
  · rw [if_neg own]
    dsimp only
    cases s.members.dropWhile fun m => m.address < member with
    | nil => exact ⟨rfl, .inr ⟨own, rfl, rfl⟩⟩
    | cons m behind =>
        dsimp only
        by_cases known : m.address = member
        · rw [if_pos known]
          exact ⟨rfl, .inl ⟨rfl, rfl⟩⟩
        · rw [if_neg known]
          exact ⟨rfl, .inr ⟨own, rfl, rfl⟩⟩

/-- Whoever is not in the group yet is sent what waits. -/
theorem add_absent {self : Address} {s : State} {member : Address} (other : member ≠ self)
    (absent : ∀ m ∈ s.members, m.address ≠ member) (now : Int) (accepts : Nat → Bool) :
    (s.add self now member accepts).sent = (s.flush member accepts).sent := by
  unfold State.add
  rw [if_neg other]
  dsimp only
  cases rest : s.members.dropWhile fun m => m.address < member with
  | nil => rfl
  | cons m behind =>
      have listed : m ∈ s.members := by
        apply (List.dropWhile_sublist _).mem
        rw [rest]
        exact List.mem_cons_self
      dsimp only
      rw [if_neg (absent m listed)]
      rfl

/-- What a turn of the loop leaves of an entry. -/
theorem Queued.offer_eq_some {before tx : Queued} {member : Address} (kept : before.offer member = some tx) :
    before.out.atLimit = false ∧ tx = { before with out := before.out.sendIfNew member } := by
  obtain ⟨out, left, same⟩ := Option.map_eq_some_iff.mp kept
  unfold OutboundMulticast.offer at left
  split at left
  · cases left
  · rename_i room
    split at left
    · cases left
    · rw [← same, ← Option.some.inj left]
      exact ⟨Bool.not_eq_true _ ▸ room, rfl⟩

/-- Where an entry of the flushed queue comes from. -/
theorem mem_flush {s : State} {member : Address} {accepts : Nat → Bool} {tx : Queued}
    (queued : tx ∈ (s.flush member accepts).txQueue) :
    ∃ before ∈ s.txQueue, before.out.atLimit = false ∧ tx = { before with out := before.out.sendIfNew member } := by
  obtain ⟨before, found, kept⟩ := List.mem_filterMap.mp queued
  exact ⟨before, found, Queued.offer_eq_some kept⟩

theorem flush_ids (s : State) (member : Address) (accepts : Nat → Bool) :
    ((s.flush member accepts).txQueue.map Queued.id).Sublist (s.txQueue.map Queued.id) := by
  unfold State.flush flushQueue
  dsimp only
  induction s.txQueue with
  | nil => exact List.Sublist.slnil
  | cons tx queue ih =>
      rw [List.filterMap_cons, List.map_cons]
      cases left : tx.offer member with
      | none => exact ih.cons _
      | some after =>
          have same : after.id = tx.id := by rw [(Queued.offer_eq_some left).2]
          dsimp only
          rw [List.map_cons, same]
          exact ih.cons_cons _

namespace Call

variable (call : Call)

/-- Where `send` sends the multicast at once. -/
def receivers (self : Address) (members : List MulticastGroupMember) : List Address :=
  match call.replicator self with
  | some replicator => if call.fitsReplicator then [replicator] else []
  | none =>
      if call.limit ≤ members.length then if call.fits 1 then (call.onePass self members).filter call.accepts else []
      else if call.fits (call.gatherLimit members) then (call.atOnce self members).filter call.accepts else []

/-- What the entry in the queue has logged, if `send` leaves one. -/
def logged (self : Address) (members : List MulticastGroupMember) : Option (List Address) :=
  if (call.replicator self).isSome ∨ call.limit ≤ members.length then none
  else if call.fits (call.gatherLimit members) then
    some ((if call.origin = 0 then [] else [call.origin]) ++ call.atOnce self members)
  else some []

end Call

theorem send_spec (self : Address) (s : State) (call : Call) :
    (s.send self call).members = s.members ∧ (s.send self call).nextId = s.nextId + 1 ∧
    (s.send self call).sent = s.sent ++ (call.receivers self s.members).map (fun receiver => (s.nextId, receiver)) ∧
    (s.send self call).txQueue = (call.logged self s.members).elim s.txQueue (fun log => (s.enqueue call log).txQueue) := by
  unfold State.send State.transmit Call.receivers Call.logged
  cases call.replicator self with
  | some replicator =>
      dsimp only
      by_cases room : call.fitsReplicator = true
      · rw [if_pos room, if_pos room]
        exact ⟨rfl, rfl, rfl, rfl⟩
      · rw [if_neg room, if_neg room]
        exact ⟨rfl, rfl, (List.append_nil _).symm, rfl⟩
  | none =>
      dsimp only
      by_cases enough : call.limit ≤ s.members.length
      · have ready : (none : Option Address).isSome = true ∨ call.limit ≤ s.members.length := .inr enough
        rw [if_pos enough, if_pos enough, if_pos ready]
        by_cases room : call.fits 1 = true
        · rw [if_pos room, if_pos room]
          exact ⟨rfl, rfl, rfl, rfl⟩
        · rw [if_neg room, if_neg room]
          exact ⟨rfl, rfl, (List.append_nil _).symm, rfl⟩
      · have waits : ¬ ((none : Option Address).isSome = true ∨ call.limit ≤ s.members.length) := by
          simpa using enough
        rw [if_neg enough, if_neg enough, if_neg waits]
        by_cases room : call.fits (call.gatherLimit s.members) = true
        · rw [if_pos room, if_pos room, if_pos room]
          exact ⟨rfl, rfl, rfl, rfl⟩
        · rw [if_neg room, if_neg room, if_neg room]
          exact ⟨rfl, rfl, (List.append_nil _).symm, rfl⟩

section Receivers

variable {self : Address} {call : Call} {members : List MulticastGroupMember}

theorem Proper.sublist {receivers fewer : List Address} (proper : Proper self call receivers)
    (sub : fewer.Sublist receivers) : Proper self call fewer where
  notOrigin := fun given listed => proper.notOrigin given (sub.mem listed)
  notSelf := fun listed => proper.notSelf (sub.mem listed)
  once := proper.once.sublist sub
  bounded := (sub.filter _).length_le.trans proper.bounded

theorem mem_bridges {bridge : Address} (listed : bridge ∈ call.bridges self) :
    bridge ∈ call.config.activeBridges ∧ bridge ≠ self := by
  simpa [Call.bridges] using listed

theorem mem_others {member : Address} (listed : member ∈ call.others members) :
    (∃ m ∈ members, m.address = member) ∧ member ∉ call.config.activeBridges := by
  obtain ⟨drawn, outside⟩ := List.mem_filter.mp listed
  exact ⟨List.mem_map.mp ((shuffled_perm call.prng members).mem_iff.mp drawn), by simpa using outside⟩

theorem others_nodup (ordered : members.Pairwise fun first second => first.address < second.address) :
    (call.others members).Nodup := by
  have addresses : (members.map MulticastGroupMember.address).Nodup := by
    unfold List.Nodup
    rw [List.pairwise_map]
    exact ordered.imp fun before same => by
      rw [same] at before
      exact BitVec.lt_irrefl _ before
  exact ((shuffled_perm call.prng members).nodup_iff.mpr addresses).filter _

/-- Bridges and members that are none make up receivers without repetition. -/
theorem bridges_append_others {bridges others : List Address} (distinct : call.config.activeBridges.Nodup)
    (ordered : members.Pairwise fun first second => first.address < second.address)
    (own : ∀ m ∈ members, m.address ≠ self) (fromBridges : bridges.Sublist (call.bridges self))
    (fromOthers : others.Sublist (call.others members)) : (bridges ++ others).Nodup ∧ self ∉ bridges ++ others := by
  constructor
  · rw [List.nodup_append]
    refine ⟨(distinct.filter _).sublist fromBridges, (others_nodup ordered).sublist fromOthers, ?_⟩
    intro bridge first member second same
    apply (mem_others (fromOthers.mem second)).2
    rw [← same]
    exact (mem_bridges (fromBridges.mem first)).1
  · intro listed
    rcases List.mem_append.mp listed with bridge | member
    · exact (mem_bridges (fromBridges.mem bridge)).2 rfl
    · obtain ⟨m, found, same⟩ := (mem_others (fromOthers.mem member)).1
      exact own m found same

theorem onePass_proper (distinct : call.config.activeBridges.Nodup)
    (ordered : members.Pairwise fun first second => first.address < second.address)
    (own : ∀ m ∈ members, m.address ≠ self) : Proper self call (call.onePass self members) := by
  have parts := @bridges_append_others self call members _ _ distinct ordered own
    (List.filter_sublist (p := fun bridge => bridge ≠ call.origin))
    ((List.take_sublist call.limit _).trans (List.filter_sublist (p := fun member => member ≠ call.origin)))
  refine ⟨?_, parts.2, parts.1, ?_⟩
  · intro _ listed
    rcases List.mem_append.mp listed with bridge | member
    · simpa using (List.mem_filter.mp bridge).2
    · simpa using (List.mem_filter.mp ((List.take_sublist _ _).mem member)).2
  · have none : ((call.bridges self).filter fun bridge => bridge ≠ call.origin).filter
        (fun receiver => receiver ∉ call.config.activeBridges) = [] := by
      rw [List.filter_eq_nil_iff]
      intro bridge listed
      simpa using (mem_bridges (List.filter_sublist.mem listed)).1
    unfold Call.onePass
    rw [List.filter_append, none, List.nil_append]
    exact (List.length_filter_le _ _).trans (List.length_take_le _ _)

theorem atOnce_length : (call.atOnce self members).length ≤ call.limit := by
  unfold Call.atOnce
  have bridges := List.length_take_le call.limit (call.bridges self)
  have others := List.length_take_le (call.limit - ((call.bridges self).take call.limit).length) (call.others members)
  rw [List.length_append]
  omega

/-- The receivers of a multicast that waits are proper if the origin is not among them. -/
theorem atOnce_proper (distinct : call.config.activeBridges.Nodup)
    (ordered : members.Pairwise fun first second => first.address < second.address)
    (own : ∀ m ∈ members, m.address ≠ self) {receivers : List Address}
    (sub : receivers.Sublist (call.atOnce self members)) (spared : call.origin ≠ 0 → call.origin ∉ receivers) :
    Proper self call receivers := by
  have parts := @bridges_append_others self call members _ _ distinct ordered own
    (List.take_sublist call.limit _) (List.take_sublist (call.limit - ((call.bridges self).take call.limit).length) _)
  exact ⟨spared, fun listed => parts.2 (sub.mem listed), parts.1.sublist sub,
    (List.length_filter_le _ _).trans (sub.length_le.trans atOnce_length)⟩

theorem bestReplicator_mem {latency : Address → Option Nat} {replicators : List Address} {best : Address}
    (found : bestReplicator latency replicators = some best) : best ∈ replicators := by
  have kept (listed : List Address) (start : Nat × Option Address) :
      (listed.foldl (fun best replicator => (latency replicator).elim best fun found =>
        if found < best.1 then (found, some replicator) else best) start).2 = some best →
      start.2 = some best ∨ best ∈ listed := by
    induction listed generalizing start with
    | nil => exact .inl
    | cons replicator listed ih =>
        intro last
        rw [List.foldl_cons] at last
        rcases ih _ last with here | later
        · cases reached : latency replicator with
          | none =>
              rw [reached] at here
              exact .inl here
          | some found =>
              rw [reached, Option.elim_some] at here
              by_cases better : found < start.1
              · rw [if_pos better] at here
                exact .inr (Option.some.inj here ▸ List.mem_cons_self)
              · rw [if_neg better] at here
                exact .inl here
        · exact .inr (List.mem_cons_of_mem _ later)
  rcases kept replicators _ found with never | listed
  · cases never
  · exact listed

/-- The replicator is another node. -/
theorem replicator_ne {replicator : Address} (chosen : call.replicator self = some replicator) : replicator ≠ self := by
  unfold Call.replicator at chosen
  by_cases exempt : self ∈ call.config.activeBridges ∨ self ∈ call.config.multicastReplicators
  · rw [if_pos exempt] at chosen
    cases chosen
  · rw [if_neg exempt] at chosen
    exact fun same => exempt (.inr (same ▸ bestReplicator_mem chosen))

end Receivers

section Runs

variable {self : Address}

theorem mem_enqueue {s : State} {call : Call} {log : List Address} {tx : Queued} (queued : tx ∈ (s.enqueue call log).txQueue) :
    tx ∈ s.txQueue ∨ tx = ⟨s.nextId, BitVec.ofInt 64 call.now, ⟨call.limit, log⟩⟩ := by
  rcases List.mem_append.mp queued with earlier | this
  · exact .inl (List.mem_of_mem_drop earlier)
  · exact .inr (List.mem_singleton.mp this)

/-- An entry of the queue behind a call was there before, or is the one that the call leaves. -/
theorem mem_send {s : State} {call : Call} {tx : Queued} (queued : tx ∈ (s.send self call).txQueue) :
    tx ∈ s.txQueue ∨ ∃ log, call.logged self s.members = some log ∧
      tx = ⟨s.nextId, BitVec.ofInt 64 call.now, ⟨call.limit, log⟩⟩ := by
  rw [(send_spec self s call).2.2.2] at queued
  cases waits : call.logged self s.members with
  | none =>
      rw [waits] at queued
      exact .inl queued
  | some log =>
      rw [waits] at queued
      exact (mem_enqueue queued).imp_right fun this => ⟨log, rfl, this⟩

theorem Valid.send {s : State} (valid : Valid self s) (call : Call) : Valid self (s.send self call) := by
  obtain ⟨members, nextId, sent, txQueue⟩ := send_spec self s call
  refine ⟨?_, ?_, ?_, ?_, ?_⟩
  · have ordered := valid.ordered
    unfold Ordered State.status at ordered ⊢
    rwa [members]
  · rw [members]
    exact valid.others
  · rw [txQueue]
    cases call.logged self s.members with
    | none => exact valid.distinct
    | some log =>
        dsimp only [Option.elim_some, State.enqueue]
        rw [List.map_append, List.nodup_append]
        refine ⟨valid.distinct.sublist ((List.drop_sublist _ _).map _), List.nodup_singleton _, ?_⟩
        intro earlier listed this last same
        obtain ⟨tx, found, rfl⟩ := List.mem_map.mp listed
        have before := valid.queued tx (List.mem_of_mem_drop found)
        rw [same, List.mem_singleton.mp last] at before
        exact Nat.lt_irrefl _ before
  · intro tx queued
    rw [nextId]
    rcases mem_send queued with earlier | ⟨log, -, rfl⟩
    · exact Nat.lt_succ_of_lt (valid.queued tx earlier)
    · exact Nat.lt_succ_self _
  · intro entry logged
    rw [sent] at logged
    rw [nextId]
    rcases List.mem_append.mp logged with earlier | this
    · exact Nat.lt_succ_of_lt (valid.logged entry earlier)
    · obtain ⟨receiver, -, rfl⟩ := List.mem_map.mp this
      exact Nat.lt_succ_self _

/-- Additions bring in the added member alone. -/
theorem mem_members_addMember {now : Int} {gs : MulticastGroupStatus} {member : Address} {m : MulticastGroupMember}
    (listed : m ∈ (addMember self now gs member).members) :
    (m.address = member ∧ member ≠ self) ∨ ∃ before ∈ gs.members, before.address = m.address := by
  have split : gs.members.takeWhile (fun m => m.address < member) ++ gs.members.dropWhile (fun m => m.address < member) =
      gs.members := List.takeWhile_append_dropWhile
  unfold addMember at listed
  by_cases own : member = self
  · rw [if_pos own] at listed
    exact .inr ⟨m, listed, rfl⟩
  · have earlier (found : m ∈ gs.members.takeWhile fun m => m.address < member) :
        ∃ before ∈ gs.members, before.address = m.address := ⟨m, (List.takeWhile_sublist _).mem found, rfl⟩
    rw [if_neg own] at listed
    dsimp only at listed
    cases rest : gs.members.dropWhile (fun m => m.address < member) with
    | nil =>
        rw [rest] at listed
        rcases List.mem_append.mp listed with before | this
        · exact .inr (earlier before)
        · exact .inl ⟨congrArg _ (List.mem_singleton.mp this), own⟩
    | cons first behind =>
        have later {other : MulticastGroupMember} (found : other ∈ first :: behind) : other ∈ gs.members := by
          apply (List.dropWhile_sublist _).mem
          rw [rest]
          exact found
        rw [rest] at listed
        dsimp only at listed
        by_cases known : first.address = member
        · rw [if_pos known] at listed
          rcases List.mem_append.mp listed with before | behindIt
          · exact .inr (earlier before)
          · rcases List.mem_cons.mp behindIt with this | found
            · rw [this]
              exact .inl ⟨known, own⟩
            · exact .inr ⟨m, later (List.mem_cons_of_mem _ found), rfl⟩
        · rw [if_neg known] at listed
          rcases List.mem_append.mp listed with before | behindIt
          · exact .inr (earlier before)
          · rcases List.mem_cons.mp behindIt with this | found
            · rw [this]
              exact .inl ⟨rfl, own⟩
            · exact .inr ⟨m, later found, rfl⟩

theorem Valid.add {s : State} (valid : Valid self s) (now : Int) (member : Address) (accepts : Nat → Bool) :
    Valid self (s.add self now member accepts) := by
  have status := status_add self now s member accepts
  obtain ⟨nextId, queue⟩ := add_cases self now s member accepts
  have members : (s.add self now member accepts).members = (addMember self now s.status member).members :=
    congrArg MulticastGroupStatus.members status
  refine ⟨?_, ?_, ?_, ?_, ?_⟩
  · rw [status]
    exact ordered_addMember self now member valid.ordered
  · intro m listed
    rw [members] at listed
    rcases mem_members_addMember listed with ⟨this, other⟩ | ⟨before, found, same⟩
    · rwa [this]
    · rw [← same]
      exact valid.others before found
  · rcases queue with ⟨txQueue, -⟩ | ⟨-, txQueue, -⟩
    · rw [txQueue]
      exact valid.distinct
    · rw [txQueue]
      exact valid.distinct.sublist (flush_ids s member accepts)
  · rw [nextId]
    rcases queue with ⟨txQueue, -⟩ | ⟨-, txQueue, -⟩
    · rw [txQueue]
      exact valid.queued
    · rw [txQueue]
      intro tx queued
      obtain ⟨before, found, -, rfl⟩ := mem_flush queued
      exact valid.queued before found
  · rw [nextId]
    rcases queue with ⟨-, sent⟩ | ⟨-, -, sent⟩
    · rw [sent]
      exact valid.logged
    · rw [sent]
      intro entry logged
      rcases List.mem_append.mp logged with earlier | this
      · exact valid.logged entry earlier
      · obtain ⟨pending, queued, named⟩ := dispatch_named this
        rw [← named]
        exact valid.queued pending queued

theorem Valid.step {s : State} (valid : Valid self s) (op : Op) : Valid self (step self s op) := by
  cases op with
  | send call => exact valid.send call
  | add now member accepts => exact valid.add now member accepts
  | remove member =>
      exact ⟨valid.ordered.sublist List.eraseP_sublist, fun m listed => valid.others m (List.mem_of_mem_eraseP listed),
        valid.distinct, valid.queued, valid.logged⟩
  | clean now =>
      exact ⟨valid.ordered.sublist List.filter_sublist, fun m listed => valid.others m (List.mem_filter.mp listed).1,
        valid.distinct.sublist (List.filter_sublist.map _), fun tx queued => valid.queued tx (List.mem_filter.mp queued).1,
        valid.logged⟩

theorem valid_run (self : Address) (ops : List Op) : Valid self (run (step self) State.empty ops) :=
  run_preserves (fun _ op valid => valid.step op) (valid_empty self)

/-- What holds of a multicast from its call on: its receivers are proper, and while it waits, all of them and its
origin are logged. -/
structure Tracked (node : Address) (call : Call) (id : Nat) (s : State) : Prop where
  known : id < s.nextId
  proper : Proper node call (targets s.sent id)
  waiting : ∀ tx ∈ s.txQueue, tx.id = id → tx.out.limit = call.limit ∧ (targets s.sent id).Sublist tx.out.alreadySentTo ∧
    (call.origin ≠ 0 → call.origin ≠ node → call.origin ∈ tx.out.alreadySentTo)

variable {call : Call} {id : Nat} {s : State}

theorem Tracked.send (tracked : Tracked self call id s) (next : Call) : Tracked self call id (s.send self next) := by
  obtain ⟨-, nextId, sent, -⟩ := send_spec self s next
  have same : targets (s.send self next).sent id = targets s.sent id := by
    rw [sent, targets_append, @targets_eq_nil _ _ _ ((next.receivers self s.members).map _), List.append_nil]
    intro entry this
    obtain ⟨receiver, -, rfl⟩ := List.mem_map.mp this
    exact (Nat.ne_of_lt tracked.known).symm
  refine ⟨?_, ?_, ?_⟩
  · rw [nextId]
    exact Nat.lt_succ_of_lt tracked.known
  · rw [same]
    exact tracked.proper
  · intro tx queued this
    rw [same]
    rcases mem_send queued with earlier | ⟨log, -, rfl⟩
    · exact tracked.waiting tx earlier this
    · exact absurd this (Nat.ne_of_lt tracked.known).symm

/-- One more receiver, if its entry is not at its limit and has not logged it. -/
theorem Proper.append {receivers log : List Address} {receiver : Address} (proper : Proper self call receivers)
    (sub : receivers.Sublist log) (origin : call.origin ≠ 0 → call.origin ≠ self → call.origin ∈ log)
    (room : log.length < call.limit) (new : receiver ∉ log) (other : receiver ≠ self) :
    Proper self call (receivers ++ [receiver]) where
  notOrigin := by
    intro given listed
    rcases List.mem_append.mp listed with earlier | this
    · exact proper.notOrigin given earlier
    · have same := List.mem_singleton.mp this
      apply new
      rw [← same]
      exact origin given (fun own => other (same ▸ own))
  notSelf := by
    intro listed
    rcases List.mem_append.mp listed with earlier | this
    · exact proper.notSelf earlier
    · exact other (List.mem_singleton.mp this).symm
  once := List.nodup_append.mpr ⟨proper.once, List.nodup_singleton _, fun earlier listed this last same =>
    new (List.mem_singleton.mp last ▸ same ▸ sub.mem listed)⟩
  bounded := by
    have all := List.length_filter_le (fun receiver => decide (receiver ∉ call.config.activeBridges))
      (receivers ++ [receiver])
    have few := sub.length_le
    rw [List.length_append, List.length_singleton] at all
    omega

theorem Tracked.flush (valid : Valid self s) (tracked : Tracked self call id s) {member : Address} (other : member ≠ self)
    (accepts : Nat → Bool) : Tracked self call id (s.flush member accepts) := by
  by_cases waits : ∃ tx ∈ s.txQueue, tx.id = id
  · obtain ⟨tx, queued, named⟩ := waits
    obtain ⟨limit, sub, origin⟩ := tracked.waiting tx queued named
    have added : targets (s.flush member accepts).sent id = targets s.sent id ++
        (if tx.out.atLimit ∨ member ∈ tx.out.alreadySentTo ∨ accepts tx.id = false then none else some member).toList := by
      unfold State.flush
      dsimp only
      rw [targets_append, ← named, targets_dispatch valid.distinct queued]
    refine ⟨tracked.known, ?_, ?_⟩
    · rw [added]
      split
      · rw [Option.toList_none, List.append_nil]
        exact tracked.proper
      · rename_i sends
        rw [not_or, not_or] at sends
        obtain ⟨room, new, -⟩ := sends
        apply tracked.proper.append sub origin _ new other
        simpa [OutboundMulticast.atLimit, limit] using room
    · intro after flushed this
      obtain ⟨before, found, room, rfl⟩ := mem_flush flushed
      have same : before = tx := List.inj_on_of_nodup_map valid.distinct found queued (this.trans named.symm)
      subst same
      rw [added]
      unfold OutboundMulticast.sendIfNew
      by_cases known : member ∈ before.out.alreadySentTo
      · rw [if_pos known, if_pos (.inr (.inl known)), Option.toList_none, List.append_nil]
        exact ⟨limit, sub, origin⟩
      · rw [if_neg known]
        refine ⟨limit, ?_, fun given notOwn => List.mem_append_left _ (origin given notOwn)⟩
        apply sub.append
        split
        · exact List.nil_sublist _
        · exact List.Sublist.refl _
  · have absent : ∀ tx ∈ s.txQueue, tx.id ≠ id := fun tx queued named => waits ⟨tx, queued, named⟩
    have same : targets (s.flush member accepts).sent id = targets s.sent id := by
      unfold State.flush
      dsimp only
      rw [targets_append, targets_dispatch_absent absent, List.append_nil]
    refine ⟨tracked.known, ?_, ?_⟩
    · rw [same]
      exact tracked.proper
    · intro after flushed this
      obtain ⟨before, found, -, rfl⟩ := mem_flush flushed
      exact absurd this (absent before found)

theorem Tracked.step (valid : Valid self s) (tracked : Tracked self call id s) (op : Op) :
    Tracked self call id (step self s op) := by
  cases op with
  | send next => exact tracked.send next
  | add now member accepts =>
      obtain ⟨nextId, ⟨txQueue, sent⟩ | ⟨other, txQueue, sent⟩⟩ := add_cases self now s member accepts
      · refine ⟨?_, ?_, ?_⟩ <;> dsimp only [MulticastDelivery.step]
        · rw [nextId]
          exact tracked.known
        · rw [sent]
          exact tracked.proper
        · rw [sent, txQueue]
          exact tracked.waiting
      · have flushed := tracked.flush valid other accepts
        refine ⟨?_, ?_, ?_⟩ <;> dsimp only [MulticastDelivery.step]
        · rw [nextId]
          exact tracked.known
        · rw [sent]
          exact flushed.proper
        · rw [sent, txQueue]
          exact flushed.waiting
  | remove member => exact ⟨tracked.known, tracked.proper, tracked.waiting⟩
  | clean now => exact ⟨tracked.known, tracked.proper, fun tx queued => tracked.waiting tx (List.mem_filter.mp queued).1⟩

theorem Tracked.run (valid : Valid self s) (tracked : Tracked self call id s) (after : List Op) :
    Tracked self call id (run (MulticastDelivery.step self) s after) :=
  (@run_preserves _ _ _ (fun s => Valid self s ∧ Tracked self call id s) _ after
    (fun _ op both => ⟨both.1.step op, both.2.step both.1 op⟩) ⟨valid, tracked⟩).2

end Runs

/-- Where the multicast of a call goes over its whole life, among operations on an empty group. -/
def deliveredTo (self : Address) (before : List Op) (call : Call) (after : List Op) : List Address :=
  targets (run (step self) State.empty (before ++ .send call :: after)).sent (run (step self) State.empty before).nextId

/-- A call spares its origin if it does not wait. If it waits, its entry must be complete, and the origin must not be
among the first bridges and members, unless the rules keep the frame from it. -/
def Call.Spares (self : Address) (members : List MulticastGroupMember) (call : Call) : Prop :=
  match call.replicator self with
  | some replicator => call.fitsReplicator = false ∨
      ((call.origin = 0 ∨ replicator ≠ call.origin) ∧ (call.limit ≠ 0 ∨ replicator ∈ call.config.activeBridges))
  | none => call.origin = 0 ∨ call.origin = self ∨ call.limit ≤ members.length ∨
      (call.fits (call.gatherLimit members) = true ∧ (call.accepts call.origin = false ∨
        (call.origin ∉ (call.bridges self).take call.limit ∧
          call.origin ∉ (call.others members).take (call.limit - (call.bridges self).length))))

theorem deliveredTo_eq (self : Address) (before : List Op) (call : Call) (after : List Op) :
    deliveredTo self before call after =
      targets (run (step self) ((run (step self) State.empty before).send self call) after).sent
        (run (step self) State.empty before).nextId := by
  rw [deliveredTo, run_append]
  rfl

/-- What a call sends at once, in a valid state. -/
theorem targets_send {self : Address} {s : State} (valid : Valid self s) (call : Call) :
    targets (s.send self call).sent s.nextId = call.receivers self s.members := by
  rw [(send_spec self s call).2.2.1, targets_append, targets_map,
    targets_eq_nil fun entry logged => Nat.ne_of_lt (valid.logged entry logged), List.nil_append]

theorem mem_atOnce {self : Address} {members : List MulticastGroupMember} {call : Call} {receiver : Address} :
    receiver ∈ call.atOnce self members ↔ receiver ∈ (call.bridges self).take call.limit ∨
      receiver ∈ (call.others members).take (call.limit - (call.bridges self).length) := by
  have room : call.limit - ((call.bridges self).take call.limit).length = call.limit - (call.bridges self).length := by
    rw [List.length_take]
    omega
  unfold Call.atOnce
  rw [List.mem_append, room]

section Spared

variable {self : Address} {s : State} {call : Call}

theorem known_send (s : State) (call : Call) : s.nextId < (s.send self call).nextId := by
  rw [(send_spec self s call).2.1]
  exact Nat.lt_succ_self _

/-- A call that does not wait is over with the frames that it sends at once. -/
theorem tracked_of_unqueued (valid : Valid self s) (proper : Proper self call (call.receivers self s.members))
    (none : call.logged self s.members = none) : Tracked self call s.nextId (s.send self call) := by
  refine ⟨known_send s call, ?_, ?_⟩
  · rw [targets_send valid call]
    exact proper
  · intro tx queued this
    rcases mem_send queued with earlier | ⟨log, logged, -⟩
    · exact absurd this (Nat.ne_of_lt (valid.queued tx earlier))
    · rw [none] at logged
      cases logged

/-- A call that waits has everyone in its log to whom nothing is to be sent any more. -/
theorem tracked_of_queued (valid : Valid self s) (proper : Proper self call (call.receivers self s.members))
    {log : List Address} (logged : call.logged self s.members = some log)
    (sub : (call.receivers self s.members).Sublist log)
    (origin : call.origin ≠ 0 → call.origin ≠ self → call.origin ∈ log) :
    Tracked self call s.nextId (s.send self call) := by
  have now := targets_send valid call
  refine ⟨known_send s call, ?_, ?_⟩
  · rw [now]
    exact proper
  · intro tx queued this
    rcases mem_send queued with earlier | ⟨log', same, rfl⟩
    · exact absurd this (Nat.ne_of_lt (valid.queued tx earlier))
    · have logs : log' = log := Option.some.inj (same.symm.trans logged)
      rw [now, logs]
      exact ⟨rfl, sub, origin⟩

/-- The replicator is not the origin, and counts against the limit unless it is a bridge. -/
theorem proper_replicator {members : List MulticastGroupMember} {replicator : Address}
    (chosen : call.replicator self = some replicator) (spares : call.Spares self members) :
    Proper self call (call.receivers self members) := by
  unfold Call.Spares at spares
  rw [chosen] at spares
  unfold Call.receivers
  rw [chosen]
  dsimp only
  rcases spares with cramped | ⟨origin, limit⟩
  · rw [if_neg (by rw [cramped]; decide)]
    exact ⟨fun _ => List.not_mem_nil, List.not_mem_nil, List.nodup_nil, Nat.zero_le _⟩
  · apply @Proper.sublist self call [replicator]
    · refine ⟨?_, ?_, List.nodup_singleton _, ?_⟩
      · intro given listed
        exact (origin.resolve_left given) (List.mem_singleton.mp listed).symm
      · intro listed
        exact replicator_ne chosen (List.mem_singleton.mp listed).symm
      · rcases limit with positive | bridge
        · exact (List.length_filter_le _ _).trans (Nat.one_le_iff_ne_zero.mpr positive)
        · rw [List.filter_cons_of_neg (by simpa using bridge)]
          exact Nat.zero_le _
    · split
      · exact List.Sublist.refl _
      · exact List.nil_sublist _

section Gathering

variable {members : List MulticastGroupMember} (ordered : members.Pairwise fun first second => first.address < second.address)
  (own : ∀ m ∈ members, m.address ≠ self) (distinct : call.config.activeBridges.Nodup)
  (chosen : call.replicator self = none)
include ordered own distinct chosen

/-- With members enough, the frames go out in one pass. -/
theorem proper_ready (ready : call.limit ≤ members.length) : Proper self call (call.receivers self members) := by
  apply (onePass_proper distinct ordered own).sublist
  unfold Call.receivers
  rw [chosen]
  dsimp only
  rw [if_pos ready]
  split
  · exact List.filter_sublist
  · exact List.nil_sublist _

/-- What a call sends at once that waits for more members, if its entry is complete. -/
theorem proper_waiting (waits : ¬call.limit ≤ members.length) (spares : call.Spares self members) :
    Proper self call ((call.atOnce self members).filter call.accepts) := by
  unfold Call.Spares at spares
  rw [chosen] at spares
  apply atOnce_proper distinct ordered own List.filter_sublist
  intro given listed
  obtain ⟨first, accepted⟩ := List.mem_filter.mp listed
  rcases spares with none | own' | enough | ⟨-, refused | ⟨noBridge, noMember⟩⟩
  · exact given none
  · have parts := @bridges_append_others self call members _ _ distinct ordered own
      (List.take_sublist call.limit _)
      (List.take_sublist (call.limit - ((call.bridges self).take call.limit).length) _)
    exact parts.2 (own' ▸ first)
  · exact waits enough
  · rw [refused] at accepted
    cases accepted
  · exact (mem_atOnce.mp first).elim noBridge noMember

end Gathering

/-- A call that spares its origin is tracked from then on. -/
theorem tracked_send (valid : Valid self s) (distinct : call.config.activeBridges.Nodup)
    (spares : call.Spares self s.members) : Tracked self call s.nextId (s.send self call) := by
  have ordered : s.members.Pairwise fun first second => first.address < second.address := valid.ordered
  cases chosen : call.replicator self with
  | some replicator =>
      have once : call.logged self s.members = none := by
        unfold Call.logged
        rw [chosen, if_pos (.inl rfl)]
      exact tracked_of_unqueued valid (proper_replicator chosen spares) once
  | none =>
      by_cases ready : call.limit ≤ s.members.length
      · have once : call.logged self s.members = none := by
          unfold Call.logged
          rw [if_pos (.inr ready)]
        exact tracked_of_unqueued valid (proper_ready ordered valid.others distinct chosen ready) once
      · have queues : ¬ ((call.replicator self).isSome = true ∨ call.limit ≤ s.members.length) := by
          rw [chosen]
          simpa using ready
        by_cases fits : call.fits (call.gatherLimit s.members) = true
        · have logged : call.logged self s.members =
              some ((if call.origin = 0 then [] else [call.origin]) ++ call.atOnce self s.members) := by
            unfold Call.logged
            rw [if_neg queues, if_pos fits]
          have receivers : call.receivers self s.members = (call.atOnce self s.members).filter call.accepts := by
            unfold Call.receivers
            rw [chosen]
            dsimp only
            rw [if_neg ready, if_pos fits]
          apply tracked_of_queued valid _ logged
          · rw [receivers]
            exact List.filter_sublist.trans (List.sublist_append_right _ _)
          · intro given _
            rw [if_neg given]
            exact List.mem_append_left _ (List.mem_singleton.mpr rfl)
          · rw [receivers]
            exact proper_waiting ordered valid.others distinct chosen ready spares
        · have logged : call.logged self s.members = some [] := by
            unfold Call.logged
            rw [if_neg queues, if_neg fits]
          have receivers : call.receivers self s.members = [] := by
            unfold Call.receivers
            rw [chosen]
            dsimp only
            rw [if_neg ready, if_neg fits]
          unfold Call.Spares at spares
          rw [chosen] at spares
          apply tracked_of_queued valid _ logged
          · rw [receivers]
          · intro given other
            rcases spares with none | own | enough | ⟨fitting, -⟩
            · exact absurd none given
            · exact absurd own other
            · exact absurd enough ready
            · exact absurd fitting fits
          · rw [receivers]
            exact ⟨fun _ => List.not_mem_nil, List.not_mem_nil, List.nodup_nil, Nat.zero_le _⟩

/-- An incomplete entry is sent to its origin as soon as that is added to the group. -/
theorem incomplete_entry_leaks (valid : Valid self s) (given : call.origin ≠ self) (noReplicator : call.replicator self = none)
    (waits : ¬ call.limit ≤ s.members.length) (cramped : ¬ call.fits (call.gatherLimit s.members) = true) :
    call.origin ∈ targets (run (step self) (s.send self call)
      [.remove call.origin, .add call.now call.origin fun _ => true]).sent s.nextId := by
  have logged : call.logged self s.members = some [] := by
    unfold Call.logged
    rw [if_neg (by rw [noReplicator]; simpa using waits), if_neg cramped]
  have after : Valid self ((s.send self call).remove call.origin) := (valid.send call).step (.remove call.origin)
  have absent : ∀ m ∈ ((s.send self call).remove call.origin).members, m.address ≠ call.origin := by
    intro m listed same
    have before : m ∈ (s.send self call).members := List.mem_of_mem_eraseP listed
    obtain ⟨removed, first, behind, front, this, split, left⟩ :=
      @List.exists_of_eraseP _ (fun m => decide (m.address = call.origin)) _ m before (by simpa using same)
    have ordered : (first ++ removed :: behind).Pairwise fun one other => one.address < other.address :=
      split ▸ (valid.send call).ordered
    unfold State.remove at listed
    dsimp only at listed
    rw [left] at listed
    rcases List.mem_append.mp listed with early | late
    · exact front m early (by simpa using same)
    · have below := List.rel_of_pairwise_cons (List.pairwise_append.mp ordered).2.1 late
      rw [same, of_decide_eq_true this] at below
      exact BitVec.lt_irrefl _ below
  have entry : (⟨s.nextId, BitVec.ofInt 64 call.now, ⟨call.limit, []⟩⟩ : Queued) ∈
      ((s.send self call).remove call.origin).txQueue := by
    unfold State.remove
    dsimp only
    rw [(send_spec self s call).2.2.2, logged]
    exact List.mem_append_right _ (List.mem_singleton.mpr rfl)
  rw [run_cons, run_cons, run_nil]
  dsimp only [step]
  rw [add_absent given absent call.now fun _ => true]
  unfold State.flush
  dsimp only
  rw [targets_append]
  apply List.mem_append_right
  have sent := @targets_dispatch _ _ _ Queued.id (fun tx : Queued =>
    if tx.out.atLimit = true ∨ call.origin ∈ tx.out.alreadySentTo ∨ true = false then none else some call.origin) _ _
    after.distinct _ entry
  dsimp only at sent
  rw [sent, if_neg]
  · exact List.mem_singleton.mpr rfl
  · have positive : call.limit ≠ 0 := by omega
    simpa [OutboundMulticast.atLimit] using positive

end Spared

theorem multicast_proper_iff (self : Address) (before : List Op) (call : Call)
    (distinct : call.config.activeBridges.Nodup) :
    (∀ after, Proper self call (deliveredTo self before call after)) ↔
      call.Spares self (run (step self) State.empty before).members := by
  have valid := valid_run self before
  constructor
  · intro proper
    have here := proper []
    rw [deliveredTo_eq, run_nil, targets_send valid] at here
    unfold Call.Spares
    unfold Call.receivers at here
    cases chosen : call.replicator self with
    | some replicator =>
        rw [chosen] at here
        dsimp only at here ⊢
        by_cases room : call.fitsReplicator = true
        · rw [if_pos room] at here
          refine .inr ⟨?_, ?_⟩
          · by_cases given : call.origin = 0
            · exact .inl given
            · exact .inr fun same => here.notOrigin given (List.mem_singleton.mpr same.symm)
          · by_cases bridge : replicator ∈ call.config.activeBridges
            · exact .inr bridge
            · have bounded := here.bounded
              rw [List.filter_cons_of_pos (by simpa using bridge), List.filter_nil, List.length_singleton] at bounded
              exact .inl (Nat.one_le_iff_ne_zero.mp bounded)
        · exact .inl (Bool.not_eq_true _ ▸ room)
    | none =>
        rw [chosen] at here
        dsimp only at here ⊢
        by_cases given : call.origin = 0
        · exact .inl given
        by_cases own : call.origin = self
        · exact .inr (.inl own)
        by_cases ready : call.limit ≤ (run (step self) State.empty before).members.length
        · exact .inr (.inr (.inl ready))
        by_cases fits : call.fits (call.gatherLimit (run (step self) State.empty before).members) = true
        · rw [if_neg ready, if_pos fits] at here
          refine .inr (.inr (.inr ⟨fits, ?_⟩))
          by_cases accepted : call.accepts call.origin = true
          · have spared : call.origin ∉ call.atOnce self (run (step self) State.empty before).members :=
              fun first => here.notOrigin given (List.mem_filter.mpr ⟨first, accepted⟩)
            rw [mem_atOnce, not_or] at spared
            exact .inr spared
          · exact .inl (Bool.not_eq_true _ ▸ accepted)
        · have leaks := incomplete_entry_leaks valid own chosen ready fits
          rw [← deliveredTo_eq] at leaks
          exact absurd leaks ((proper _).notOrigin given)
  · intro spares after
    rw [deliveredTo_eq]
    exact ((tracked_send valid distinct spares).run (valid.send call) after).proper

/-- A small frame from 7, in a network whose bridge is 3 and whose replicator is 1. -/
def replicated : Call where
  now := 1000
  config := { NetworkConfig.nil with multicastLimit := 32, specialists := [0x0000020000000003, 0x0000080000000001] }
  origin := 7
  src := true
  len := 100
  latency := fun _ => none
  prng := fun i => i
  accepts := fun _ => true

/-- With a limit of 1 the two members are enough, and the frame does not wait. -/
theorem replicated_once : Proper 1 { replicated with config := { replicated.config with multicastLimit := 1 } }
    (deliveredTo 1 [.add 900 7 fun _ => true, .add 900 9 fun _ => true]
      { replicated with config := { replicated.config with multicastLimit := 1 } } [.add 901 5 fun _ => true]) :=
  (multicast_proper_iff 1 [.add 900 7 fun _ => true, .add 900 9 fun _ => true]
      { replicated with config := { replicated.config with multicastLimit := 1 } } (by decide)).mpr
    (.inr (.inr (.inl (by decide)))) _

/-- A member that has a frame replicated gets it back from a group that is small. -/
theorem origin_receives : ¬ ∀ (self : Address) (before : List Op) (call : Call) (after : List Op),
    call.config.activeBridges.Nodup → Proper self call (deliveredTo self before call after) := by
  intro proper
  have back : (7 : Address) ∈ deliveredTo 1 [.add 900 7 fun _ => true, .add 900 9 fun _ => true] replicated [] := by
    decide
  exact (proper 1 _ replicated [] (by decide)).notOrigin (by decide) back

end MulticastDelivery
end ZeroTierNode

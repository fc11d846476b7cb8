import ZeroTierNode.CredentialDelivery
import ZeroTierNode.PeerBinding
import ZeroTierNode.WireForms

/-!
WHOIS: one request may list many addresses, and the reply holds an identity for each
that the responder knows. The requester makes a peer of the first of them alone.
-/

namespace ZeroTierNode
open Library.Bytes Library.Outcomes Buffer CredentialPush CredentialDelivery

namespace Topology

def isUpstream (t : Topology) (id : Identity) : Bool := t.upstreamAddresses.contains id.address

end Topology

namespace Whois

/-- `VERB_OK` and `VERB_WHOIS`. -/
abbrev verbOk : Byte := 0x03
abbrev verbWhois : Byte := 0x04

/-- The addresses that the loop of `_doWHOIS` looks at. -/
def addresses (packet : List Byte) : Nat → Nat → List Address
  | 0, _ => []
  | fuel + 1, ptr =>
      match Address.readAt packet ptr with
      | some addr => addr :: addresses packet fuel (ptr + 5)
      | none => []

/-- The addresses of a whole request. -/
def requested (request : List Byte) : List Address := addresses request request.length 28

/-- The identities of the requested addresses, as far as the responder knows them. -/
def known (responder : Topology) (request : List Byte) : List Identity :=
  ((requested request).map responder.getIdentity).filter Identity.isSet

/-- `IncomingPacket::_doWHOIS`: the reply before it is armored. Writing more than the packet holds throws. -/
def doWHOIS (responder : Topology) (rateGate : Bool) (fresh : BitVec 64 × BitVec 64) (requester : Address)
    (request : List Byte) : Option (List Byte) :=
  if ¬ (responder.amUpstream ∨ rateGate) then none
  else do
    let outp ← [wordBytes 1 verbWhois, wordBytes 8 (Packet.packetId request)].foldlM append
      (newPacket fresh.1 fresh.2 requester responder.identity.address verbOk)
    let outp ← ((known responder request).map Identity.serialize).foldlM append outp
    if (known responder request).isEmpty then none else some outp

/-- The part of `IncomingPacket::_doOK` that handles the reply to a WHOIS. -/
def okWhois (requester : Topology) (expectingReplyTo : BitVec 64 → Bool) (peer : Identity) (packet : List Byte) :
    Reading Topology := do
  let inReVerb ← plainly (at8 packet 28)
  let inRePacketId ← plainly (at64 packet 29)
  if ¬ expectingReplyTo inRePacketId then return requester
  else if inReVerb = verbWhois then do
    if requester.isUpstream peer then do
      let ((id, _), _) ← Identity.deserialize packet 37
      return requester.addPeer (Peer.new id)
    else return requester
  else return requester

/-- A peer of the identity is in the table afterwards, unless there was one for its address. -/
def Learned (before after : Topology) (id : Identity) : Prop :=
  after.peers id.address = some ((before.peers id.address).getD (Peer.new id))

theorem doWHOIS_eq {responder : Topology} {rateGate : Bool} {fresh : BitVec 64 × BitVec 64} {requester : Address}
    {request reply : List Byte} (made : doWHOIS responder rateGate fresh requester request = some reply) :
    known responder request ≠ [] ∧
      reply = newPacket fresh.1 fresh.2 requester responder.identity.address verbOk ++
        (wordBytes 1 verbWhois ++ (wordBytes 8 (Packet.packetId request) ++
          (known responder request).flatMap Identity.serialize)) := by
  have start : (newPacket fresh.1 fresh.2 requester responder.identity.address verbOk).length = 28 := by
    simp [newPacket, Address.appendTo]
  unfold doWHOIS at made
  split at made
  · cases made
  · obtain ⟨front, fronts, made⟩ := Option.bind_eq_some_iff.mp made
    obtain ⟨whole, wholes, made⟩ := Option.bind_eq_some_iff.mp made
    have some_ : (known responder request).isEmpty = false := by
      by_contra empty
      rw [if_pos (by simpa using empty)] at made
      cases made
    rw [if_neg (by rw [some_]; decide)] at made
    have length : [wordBytes 1 verbWhois, wordBytes 8 (Packet.packetId request)].flatten.length = 9 := by simp
    rw [foldlM_append (by rw [start, length]; decide)] at fronts
    have room : front.length ≤ Packet.maxPacketLength := by
      rw [← Option.some.inj fronts, List.length_append, start, length]
      decide
    rw [foldlM_append_eq room] at wholes
    split at wholes
    · refine ⟨by simpa using some_, ?_⟩
      rw [← Option.some.inj made, ← Option.some.inj wholes, ← Option.some.inj fronts, List.flatMap_def]
      simp
    · cases wholes

/-- What an upstream's reply does to the table of the requester. -/
theorem okWhois_reply {responder requester : Topology} {rateGate : Bool} {fresh : BitVec 64 × BitVec 64} {asker : Address}
    {request reply : List Byte} (made : doWHOIS responder rateGate fresh asker request = some reply)
    (upstream : requester.isUpstream responder.identity = true) (expectingReplyTo : BitVec 64 → Bool) :
    ∃ first rest, known responder request = first :: rest ∧
      (okWhois requester expectingReplyTo responder.identity reply).outcome =
        .returned (if expectingReplyTo (Packet.packetId request) then requester.addPeer (Peer.new first)
          else requester) := by
  obtain ⟨nonempty, shape⟩ := doWHOIS_eq made
  obtain ⟨first, rest, ids⟩ := List.exists_cons_of_ne_nil nonempty
  refine ⟨first, rest, ids, ?_⟩
  have start : (newPacket fresh.1 fresh.2 asker responder.identity.address verbOk).length = 28 := by
    simp [newPacket, Address.appendTo]
  have here : Stands (wordBytes 1 verbWhois ++ (wordBytes 8 (Packet.packetId request) ++
      (known responder request).flatMap Identity.serialize)) reply 28 := by
    rw [Stands, shape, List.drop_left' start]
  obtain ⟨inReVerb, here⟩ := at8_of_stands here
  obtain ⟨inRePacketId, here⟩ := at64_of_stands here
  rw [ids, List.flatMap_cons] at here
  have idRead : (Identity.deserialize reply 37).outcome = .returned ((first, none), 71) :=
    (Identity.deserializeAt_of_stands here).1
  unfold okWhois
  refine (Logged.outcome_bind (Logged.ofOption_outcome inReVerb) _).trans ?_
  refine (Logged.outcome_bind (Logged.ofOption_outcome inRePacketId) _).trans ?_
  by_cases expected : expectingReplyTo (Packet.packetId request) = true
  · rw [if_neg (by rw [expected]; decide), if_pos rfl, if_pos upstream, if_pos expected]
    exact Logged.outcome_bind idRead _
  · rw [if_pos (by simpa using expected), if_neg expected]
    rfl

theorem learned_addPeer_iff (before : Topology) (first id : Identity) :
    Learned before (before.addPeer (Peer.new first)) id ↔ id = first ∨ (before.peers id.address).isSome = true := by
  unfold Learned
  rw [Topology.addPeer_peers]
  cases present : before.peers id.address with
  | some peer => simp
  | none =>
      by_cases same : id = first
      · subst same
        simp
      · by_cases address : first.address = id.address
        · have other : Peer.new first ≠ Peer.new id := fun equal => same (congrArg Peer.identity equal).symm
          simp [address, other, same]
        · simp [address, same]

theorem learned_self_iff (before : Topology) (id : Identity) :
    Learned before before id ↔ (before.peers id.address).isSome = true := by
  unfold Learned
  cases present : before.peers id.address <;> simp

theorem whois_batch_iff {responder requester : Topology} {rateGate : Bool} {fresh : BitVec 64 × BitVec 64}
    {asker : Address} {request reply : List Byte} (made : doWHOIS responder rateGate fresh asker request = some reply)
    (upstream : requester.isUpstream responder.identity = true) (expectingReplyTo : BitVec 64 → Bool) :
    (∃ after, (okWhois requester expectingReplyTo responder.identity reply).outcome = .returned after ∧
        ∀ id ∈ known responder request, Learned requester after id) ↔
      ∀ id ∈ known responder request, (requester.peers id.address).isSome = true ∨
        (expectingReplyTo (Packet.packetId request) = true ∧ (known responder request).head? = some id) := by
  obtain ⟨first, rest, ids, outcome⟩ := okWhois_reply made upstream expectingReplyTo
  have each (id : Identity) : Learned requester (if expectingReplyTo (Packet.packetId request) then
      requester.addPeer (Peer.new first) else requester) id ↔ (requester.peers id.address).isSome = true ∨
        (expectingReplyTo (Packet.packetId request) = true ∧ (known responder request).head? = some id) := by
    rw [ids, List.head?_cons, Option.some.injEq]
    by_cases expected : expectingReplyTo (Packet.packetId request) = true
    · rw [if_pos expected, learned_addPeer_iff, or_comm]
      exact or_congr_right (eq_comm.trans (and_iff_right expected).symm)
    · rw [if_neg expected, learned_self_iff]
      exact (or_iff_left fun both => expected both.1).symm
  rw [outcome]
  constructor
  · rintro ⟨after, returned, learned⟩ id listed
    rw [← each, Outcome.returned.inj returned]
    exact learned id listed
  · exact fun all => ⟨_, rfl, fun id listed => (each id).mpr (all id listed)⟩

section Example

/-- An upstream, and two peers that it knows. -/
def upstreamIdentity : Identity := ⟨0x9000000001, 1⟩

def firstPeer : Identity := ⟨0x1000000005, 5⟩

def secondPeer : Identity := ⟨0x1000000006, 6⟩

def upstreamNode : Topology :=
  { Topology.new upstreamIdentity with
    amUpstream := true
    peers := fun a =>
      if a = firstPeer.address then some (Peer.new firstPeer)
      else if a = secondPeer.address then some (Peer.new secondPeer) else none }

/-- A node that knows only the upstream. -/
def leafNode : Topology :=
  { Topology.new ⟨0x2000000007, 7⟩ with
    upstreamAddresses := [upstreamIdentity.address]
    peers := fun a => if a = upstreamIdentity.address then some (Peer.new upstreamIdentity) else none }

/-- A request for the given addresses. -/
def requestFor (asked : List Address) : List Byte := List.replicate 28 0 ++ asked.flatMap Address.appendTo

/-- A request for one address is answered in full. -/
theorem single_whois_learned : ∃ reply after,
    doWHOIS upstreamNode false (1, 2) 0x2000000007 (requestFor [firstPeer.address]) = some reply ∧
      (okWhois leafNode (fun _ => true) upstreamIdentity reply).outcome = .returned after ∧
        ∀ id ∈ known upstreamNode (requestFor [firstPeer.address]), Learned leafNode after id := by
  have answered : (doWHOIS upstreamNode false (1, 2) 0x2000000007 (requestFor [firstPeer.address])).isSome = true := by
    decide +kernel
  obtain ⟨reply, made⟩ := Option.isSome_iff_exists.mp answered
  have ids : known upstreamNode (requestFor [firstPeer.address]) = [firstPeer] := by decide +kernel
  have upstream : leafNode.isUpstream upstreamNode.identity = true := by decide
  obtain ⟨after, returned, learned⟩ := (whois_batch_iff made upstream fun _ => true).mpr (by
    rw [ids]
    intro id listed
    rw [List.mem_singleton.mp listed]
    exact .inr ⟨rfl, rfl⟩)
  exact ⟨reply, after, made, returned, learned⟩

/-- Of two identities in a reply the requester learns one. -/
theorem second_identity_ignored : ¬ ∀ (responder requester : Topology) (rateGate : Bool) (fresh : BitVec 64 × BitVec 64)
    (asker : Address) (request reply : List Byte) (expectingReplyTo : BitVec 64 → Bool),
    doWHOIS responder rateGate fresh asker request = some reply → requester.isUpstream responder.identity = true →
      expectingReplyTo (Packet.packetId request) = true →
        ∃ after, (okWhois requester expectingReplyTo responder.identity reply).outcome = .returned after ∧
          ∀ id ∈ known responder request, Learned requester after id := by
  intro batch
  have answered : (doWHOIS upstreamNode false (1, 2) 0x2000000007
      (requestFor [firstPeer.address, secondPeer.address])).isSome = true := by decide +kernel
  obtain ⟨reply, made⟩ := Option.isSome_iff_exists.mp answered
  have ids : known upstreamNode (requestFor [firstPeer.address, secondPeer.address]) = [firstPeer, secondPeer] := by
    decide +kernel
  obtain ⟨after, returned, learned⟩ := batch _ leafNode _ _ _ _ reply (fun _ => true) made (by decide) rfl
  obtain ⟨first, rest, same, outcome⟩ := @okWhois_reply _ leafNode _ _ _ _ _ made (by decide) fun _ => true
  rw [ids] at same
  rw [outcome, if_pos rfl, ← (List.cons.inj same).1] at returned
  have second := learned secondPeer (by rw [ids]; exact List.mem_cons_of_mem _ List.mem_cons_self)
  rw [← Outcome.returned.inj returned, learned_addPeer_iff] at second
  revert second
  decide

end Example

end Whois

end ZeroTierNode

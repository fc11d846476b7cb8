import ZeroTierNode.CredentialDelivery
import ZeroTierNode.Library.Flooding
import ZeroTierNode.NetworkGate

/-!
Revocations that the members of a network pass on to each other. A node passes one on
when its own thresholds make it a new one. The wire may lose, reorder and repeat
packets, and every node also makes the other calls of `Network` at any time.
-/

namespace ZeroTierNode.RevocationFlood
open Library.Runs Library.Flooding Library.Bytes RevocationThresholds NetworkGate
open ZeroTierNode.Membership (credentialKey)
open CredentialPush (revocationPackets)

/-- A revocation on its way from one node to another. -/
structure Message where
  sender : Address
  receiver : Address
  rev : Revocation
deriving DecidableEq

/-- The network as each node has it, all that was put on the wire so far, and who passed on what. -/
structure Nodes where
  networks : Address → Network
  inFlight : List Message
  forwarded : List (Address × Revocation)

/-- A call on a `Network` other than that for a revocation. -/
abbrev OtherCall := { operation : Operation // ∀ RR rev, operation ≠ .addRevocation RR rev }

inductive Event
  /-- The signer sends a revocation to a node. -/
  | issue (receiver : Address) (rev : Revocation)
  /-- A message on the wire arrives, once more perhaps; `RR` is what its receiver knows at this time. -/
  | deliver (RR : RuntimeEnvironment) (message : Message)
  | operate (node : Address) (call : OtherCall)

section Steps

variable (crypto : Crypto) (nodes : List Address) (issued : List Revocation)

/-- The node finds the revocation to be new and passes it on. -/
def Forwards (RR : RuntimeEnvironment) (net : Network) (rev : Revocation) : Prop :=
  (net.addRevocation crypto RR rev).1 = .acceptedNew ∧ rev.fastPropagate = true

instance (RR : RuntimeEnvironment) (net : Network) (rev : Revocation) : Decidable (Forwards crypto RR net rev) :=
  inferInstanceAs (Decidable (_ ∧ _))

/-- The members it is passed on to. -/
def recipients (RR : RuntimeEnvironment) (net : Network) (sentFrom : Address) (rev : Revocation) : List Address :=
  if Forwards crypto RR net rev then
    (net.addRevocation crypto RR rev).2.memberships.keys.filter fun a => a ≠ sentFrom ∧ a ≠ rev.signedBy
  else []

/-- `Network::addCredential` of a revocation at the receiver. -/
def receive (sys : Nodes) (RR : RuntimeEnvironment) (message : Message) : Nodes :=
  let net := sys.networks message.receiver
  { networks := Function.update sys.networks message.receiver (net.addRevocation crypto RR message.rev).2
    inFlight := sys.inFlight ++ (recipients crypto RR net message.sender message.rev).map fun a =>
      ⟨message.receiver, a, message.rev⟩
    forwarded := if Forwards crypto RR net message.rev then sys.forwarded ++ [(message.receiver, message.rev)]
      else sys.forwarded }

def step (sys : Nodes) : Event → Nodes
  | .issue receiver rev =>
      if rev ∈ issued then { sys with inFlight := sys.inFlight ++ [⟨rev.signedBy, receiver, rev⟩] } else sys
  | .deliver RR message =>
      if message ∈ sys.inFlight ∧ message.receiver ∈ nodes then receive crypto sys RR message else sys
  | .operate node call =>
      { sys with networks := Function.update sys.networks node (NetworkGate.step crypto (sys.networks node) call.1) }

/-- The call does not undo what the node knows of a revocation: housekeeping finds the peer of the target, and
where a COM was revoked, a new revocation of another credential of the target has no lower threshold. -/
def KeepsRevocation (rev : Revocation) (net : Network) : Operation → Prop
  | .clean RR => net.destroyed = true ∨ (RR.getPeerNoCache rev.target).isSome = true
  | .addRevocation RR other => rev.credentialType = .com →
      KeepsMember crypto rev.target rev.threshold.toInt net (.addRevocation RR other)
  | _ => True

/-- No node undoes what it knows of a revocation that it passed on. -/
def Meets (sys : Nodes) : Event → Prop
  | .issue _ _ => True
  | .deliver RR message => ∀ rev, (message.receiver, rev) ∈ sys.forwarded →
      KeepsRevocation crypto rev (sys.networks message.receiver) (.addRevocation RR message.rev)
  | .operate node call => ∀ rev, (node, rev) ∈ sys.forwarded →
      KeepsRevocation crypto rev (sys.networks node) call.1

/-- Every node passed every revocation on at most once, and all were passed on a bounded number of times. -/
structure Bounded (sys : Nodes) : Prop where
  once : sys.forwarded.Nodup
  ends : sys.forwarded.length ≤ nodes.length * issued.length

end Steps

/-- The packets that are sent are those of the recipients, and each of them says just this revocation. -/
theorem packets_of_recipients (crypto : Crypto) (RR : RuntimeEnvironment)
    (fresh : Address → BitVec 64 × BitVec 64) (net : Network) (sentFrom : Address) (rev : Revocation)
    (unpack : List Byte → Option (List Byte)) :
    (revocationPackets crypto RR fresh net sentFrom rev).map Prod.fst = recipients crypto RR net sentFrom rev ∧
      ∀ entry ∈ revocationPackets crypto RR fresh net sentFrom rev, ∃ packet, entry.2 = some packet ∧
        CredentialDelivery.Delivered unpack [packet] [.revocation rev] := by
  unfold recipients CredentialPush.revocationPackets
  dsimp only
  by_cases forwards : Forwards crypto RR net rev
  · have both := forwards
    unfold Forwards at both
    rw [if_pos forwards, if_pos both]
    constructor
    · rw [List.map_map]
      exact List.map_id _
    · intro entry listed
      obtain ⟨a, -, same⟩ := List.mem_map.mp listed
      rw [← same]
      exact CredentialDelivery.revocationPacket_delivered (CredentialPush.newPacket_header _ _ _ _) rev
  · have neither := forwards
    unfold Forwards at neither
    rw [if_neg forwards, if_neg neither]
    exact ⟨rfl, fun entry listed => absurd listed List.not_mem_nil⟩

section Levels

/-- The threshold that decides whether the revocation is new. -/
def levelOf (rev : Revocation) (m : Membership) : Int :=
  if rev.credentialType = .com then m.comRevocationThreshold
  else m.revocationAt (credentialKey rev.credentialType rev.credentialId)

theorem ofThresholds_level (rev : Revocation) : OfThresholds (levelOf rev) := by
  intro m n com revocations
  unfold levelOf Membership.revocationAt
  rw [com, revocations]

variable {crypto : Crypto} {RR : RuntimeEnvironment}

theorem addCredentialRevocation_new {m : Membership} {key : BitVec 64} {threshold : Int}
    (new : (m.addCredentialRevocation key threshold).1 = .acceptedNew) :
    m.revocationAt key < threshold ∧ threshold ≤ (m.addCredentialRevocation key threshold).2.revocationAt key := by
  constructor
  · by_contra kept
    unfold Membership.addCredentialRevocation at new
    rw [if_neg kept] at new
    cases new
  · rw [Membership.revocationAt, (addCredentialRevocation_stores m key threshold).2, AList.lookup_insert,
      Option.getD_some]
    exact le_max_left _ _

/-- A revocation is new only when its threshold is above the stored one, which it then becomes. -/
theorem level_of_new {m : Membership} {rev : Revocation} (new : (m.addRevocation crypto RR rev).1 = .acceptedNew) :
    levelOf rev m < rev.threshold.toInt ∧ rev.threshold.toInt ≤ levelOf rev (m.addRevocation crypto RR rev).2 := by
  unfold levelOf
  unfold Membership.addRevocation at new ⊢
  cases verdict : rev.verify crypto RR with
  | bad =>
      rw [verdict] at new
      cases new
  | waitingForWhois =>
      rw [verdict] at new
      cases new
  | ok =>
      rw [verdict] at new
      dsimp only at new ⊢
      cases type : rev.credentialType with
      | null =>
          rw [type] at new
          cases new
      | revocation =>
          rw [type] at new
          cases new
      | com =>
          rw [type] at new
          dsimp only at new ⊢
          by_cases raised : m.comRevocationThreshold < rev.threshold.toInt
          · rw [if_pos raised, if_pos rfl, if_pos rfl]
            exact ⟨raised, le_rfl⟩
          · rw [if_neg raised] at new
            cases new
      | capability =>
          rw [type] at new
          exact addCredentialRevocation_new new
      | tag =>
          rw [type] at new
          exact addCredentialRevocation_new new
      | coo =>
          rw [type] at new
          exact addCredentialRevocation_new new

/-- No revocation lowers the threshold that is stored for a credential. -/
theorem revocationAt_grows (m : Membership) (key : BitVec 64) (other : Revocation) :
    m.revocationAt key ≤ (m.addRevocation crypto RR other).2.revocationAt key := by
  rcases @addRevocation_cases crypto RR m other with ⟨-, -, same⟩ | ⟨-, -, raised⟩ | ⟨-, -, -, effect⟩
  · rw [same]
  · rw [raised]
    exact le_rfl
  · rw [effect]
    unfold Membership.revocationAt
    rw [(addCredentialRevocation_stores m _ _).2]
    by_cases same : key = credentialKey other.credentialType other.credentialId
    · rw [same, AList.lookup_insert]
      exact le_max_right _ _
    · rw [AList.lookup_insert_ne same]

end Levels

section Spent

variable {crypto : Crypto} {nodes : List Address} {issued : List Revocation}

/-- The node would not find the revocation to be new. -/
def Spent (sys : Nodes) (entry : Address × Revocation) : Prop :=
  AtLeast (levelOf entry.2) entry.2.target entry.2.threshold.toInt (sys.networks entry.1).memberships

/-- A revocation that is passed on was new to the node and is not new any more. -/
theorem forwards_new {RR : RuntimeEnvironment} {net : Network} {rev : Revocation} (forwards : Forwards crypto RR net rev) :
    ¬ AtLeast (levelOf rev) rev.target rev.threshold.toInt net.memberships ∧
      AtLeast (levelOf rev) rev.target rev.threshold.toInt (net.addRevocation crypto RR rev).2.memberships := by
  have new := forwards.1
  unfold Network.addRevocation at new ⊢
  split at new
  · cases new
  · rename_i sameNetwork
    have level := level_of_new new
    rw [if_neg sameNetwork]
    refine ⟨?_, ⟨_, withMembership_lookup net _ _, level.2⟩⟩
    rintro ⟨m, entry, high⟩
    rw [entry, Option.getD_some] at level
    exact absurd high (not_le.mpr level.1)

/-- A call that keeps a revocation leaves it known. -/
theorem keeps_spent {rev : Revocation} {net : Network} {operation : Operation}
    (known : AtLeast (levelOf rev) rev.target rev.threshold.toInt net.memberships)
    (keeps : KeepsRevocation crypto rev net operation) :
    AtLeast (levelOf rev) rev.target rev.threshold.toInt (NetworkGate.step crypto net operation).memberships := by
  apply step_atLeast (ofThresholds_level rev) crypto operation known
  · intro RR clean
    rw [clean] at keeps
    exact keeps
  · intro RR other revocation sameNetwork same m entry high
    rw [revocation] at keeps
    by_cases type : rev.credentialType = .com
    · have here := keeps type sameNetwork same
      rw [entry] at here
      unfold levelOf at high ⊢
      rw [if_pos type] at high ⊢
      exact addRevocation_bound high here
    · unfold levelOf at high ⊢
      rw [if_neg type] at high ⊢
      exact le_trans high (revocationAt_grows m _ other)

/-- An event puts something on the wire or nothing happens, a message is received, or a node makes another call. -/
theorem step_cases (sys : Nodes) (event : Event) :
    (∃ messages : List Message, (∀ message ∈ messages, message.rev ∈ issued) ∧
        step crypto nodes issued sys event = { sys with inFlight := sys.inFlight ++ messages }) ∨
      (∃ RR message, event = .deliver RR message ∧ message ∈ sys.inFlight ∧ message.receiver ∈ nodes ∧
        step crypto nodes issued sys event = receive crypto sys RR message) ∨
      ∃ node call, event = .operate node call ∧ step crypto nodes issued sys event =
        { sys with
          networks := Function.update sys.networks node (NetworkGate.step crypto (sys.networks node) call.1) } := by
  have nothing : sys = { sys with inFlight := sys.inFlight ++ [] } := by
    rw [List.append_nil]
  cases event with
  | issue receiver rev =>
      left
      by_cases known : rev ∈ issued
      · refine ⟨[⟨rev.signedBy, receiver, rev⟩], ?_, if_pos known⟩
        intro message listed
        rw [List.mem_singleton.mp listed]
        exact known
      · exact ⟨[], fun message listed => absurd listed List.not_mem_nil, (if_neg known).trans nothing⟩
  | deliver RR message =>
      by_cases enabled : message ∈ sys.inFlight ∧ message.receiver ∈ nodes
      · exact Or.inr (Or.inl ⟨RR, message, rfl, enabled.1, enabled.2, if_pos enabled⟩)
      · exact Or.inl ⟨[], fun message listed => absurd listed List.not_mem_nil, (if_neg enabled).trans nothing⟩
  | operate node call => exact Or.inr (Or.inr ⟨node, call, rfl, rfl⟩)

theorem passes_fresh (sys : Nodes) (event : Event) :
    PassesFresh (step crypto nodes issued) Nodes.forwarded Spent sys event := by
  unfold PassesFresh
  rcases @step_cases crypto nodes issued sys event with
    ⟨messages, -, after⟩ | ⟨RR, message, -, -, -, after⟩ | ⟨node, call, -, after⟩
  · rw [after]
    exact Or.inl rfl
  · rw [after]
    by_cases forwards : Forwards crypto RR (sys.networks message.receiver) message.rev
    · right
      obtain ⟨fresh, spent⟩ := forwards_new forwards
      refine ⟨(message.receiver, message.rev), fresh, ?_, if_pos forwards⟩
      unfold Spent receive
      dsimp only
      rw [Function.update_self]
      exact spent
    · exact Or.inl (if_neg forwards)
  · rw [after]
    exact Or.inl rfl

/-- A node whose network takes a step that keeps the revocation. -/
theorem spent_update {sys : Nodes} {node : Address} {operation : Operation} {entry : Address × Revocation}
    (spent : Spent sys entry)
    (keeps : entry.1 = node → KeepsRevocation crypto entry.2 (sys.networks node) operation)
    {after : Nodes}
    (networks : after.networks = Function.update sys.networks node (NetworkGate.step crypto (sys.networks node) operation)) :
    Spent after entry := by
  unfold Spent at spent ⊢
  rw [networks]
  by_cases same : entry.1 = node
  · rw [same, Function.update_self]
    rw [same] at spent
    exact keeps_spent spent (keeps same)
  · rw [Function.update_of_ne same]
    exact spent

theorem stays_spent {sys : Nodes} {event : Event} (meets : Meets crypto sys event) {entry : Address × Revocation}
    (listed : entry ∈ sys.forwarded) (spent : Spent sys entry) : Spent (step crypto nodes issued sys event) entry := by
  rcases @step_cases crypto nodes issued sys event with
    ⟨messages, -, after⟩ | ⟨RR, message, rfl, -, -, after⟩ | ⟨node, call, rfl, after⟩
  · rw [after]
    exact spent
  · rw [after]
    refine @spent_update crypto sys message.receiver (.addRevocation RR message.rev) entry spent ?_ _ rfl
    intro same
    exact meets entry.2 (same ▸ listed)
  · rw [after]
    refine @spent_update crypto sys node call.1 entry spent ?_ _ rfl
    intro same
    exact meets entry.2 (same ▸ listed)

/-- Only what was issued is on its way, and only nodes of the network pass it on. -/
structure Origins (nodes : List Address) (issued : List Revocation) (sys : Nodes) : Prop where
  messages : ∀ message ∈ sys.inFlight, message.rev ∈ issued
  entries : ∀ entry ∈ sys.forwarded, entry.1 ∈ nodes ∧ entry.2 ∈ issued

theorem origins_step {sys : Nodes} (origins : Origins nodes issued sys) (event : Event) :
    Origins nodes issued (step crypto nodes issued sys event) := by
  rcases @step_cases crypto nodes issued sys event with
    ⟨messages, known, after⟩ | ⟨RR, message, -, inFlight, node, after⟩ | ⟨node, call, -, after⟩
  · rw [after]
    refine ⟨?_, origins.entries⟩
    intro message listed
    exact (List.mem_append.mp listed).elim (origins.messages message) (known message)
  · rw [after]
    have known := origins.messages message inFlight
    constructor
    · intro other listed
      rcases List.mem_append.mp listed with before | sent
      · exact origins.messages other before
      · obtain ⟨a, -, same⟩ := List.mem_map.mp sent
        rw [← same]
        exact known
    · intro entry listed
      unfold receive at listed
      dsimp only at listed
      split_ifs at listed
      · rcases List.mem_append.mp listed with before | last
        · exact origins.entries entry before
        · rw [List.mem_singleton.mp last]
          exact ⟨node, known⟩
      · exact origins.entries entry listed
  · rw [after]
    exact ⟨origins.messages, origins.entries⟩

end Spent

/-- From a start at which nothing was passed on yet, in every run in which no node undoes what it knows of a
revocation that it passed on, every node passes every revocation on at most once, and the number of times anything
is passed on is bounded whatever the length of the run. -/
theorem revocation_flood_bounded (crypto : Crypto) (nodes : List Address) (issued : List Revocation)
    (networks : Address → Network) (events : List Event)
    (meets : Along (step crypto nodes issued) (Meets crypto) ⟨networks, [], []⟩ events) :
    Throughout (step crypto nodes issued) (Bounded nodes issued) ⟨networks, [], []⟩ events := by
  have invariant : Throughout (step crypto nodes issued)
      (fun sys => Once Nodes.forwarded Spent sys ∧ Origins nodes issued sys) ⟨networks, [], []⟩ events := by
    apply throughout_of_along ?_ ?_ meets
    · intro sys event both met
      refine ⟨once_step both.1 (passes_fresh sys event) ?_, origins_step both.2 event⟩
      intro entry listed spent
      exact stays_spent met listed spent
    · exact ⟨⟨List.nodup_nil, fun entry listed => absurd listed List.not_mem_nil⟩,
        ⟨fun message listed => absurd listed List.not_mem_nil, fun entry listed => absurd listed List.not_mem_nil⟩⟩
  apply invariant.imp
  intro sys both
  exact ⟨both.1.nodup, length_le_product both.1.nodup both.2.entries⟩

section Small

/-- Three members of network 1000005, each of which has entries of the others. -/
def memberNetworks (_node : Address) : Network :=
  { privateNetwork with memberships := ((AList.singleton 8 .nil).insert 7 .nil).insert 9 .nil }

/-- A revocation that the controller wants to be passed on. -/
def fastRevocation (type : Byte) (threshold : BitVec 64) : Revocation :=
  { controllerRevocation type threshold with flags := 1 }

/-- The COM of member 9 is revoked up to the time 100, and one of its tags up to the time 50. -/
def twoRevocations : List Revocation := [fastRevocation 1 100, fastRevocation 3 50]

abbrev smallStep : Nodes → Event → Nodes := step signedCrypto [7, 8] twoRevocations

def arrival (receiver : Address) (rev : Revocation) : Event := .deliver controllerKnown ⟨1, receiver, rev⟩

theorem meets_com (sys : Nodes) (RR : RuntimeEnvironment) {message : Message} (type : message.rev.credentialType = .com) :
    Meets signedCrypto sys (.deliver RR message) := by
  intro rev _ _ _ _ _ keyed
  exact absurd keyed (not_keyed_com type)

/-- A revocation that arrives twice at node 7 and is passed on to node 8. -/
theorem revocation_forwarded_once : Throughout smallStep (Bounded [7, 8] twoRevocations) ⟨memberNetworks, [], []⟩
    [.issue 7 (fastRevocation 1 100), arrival 7 (fastRevocation 1 100), arrival 7 (fastRevocation 1 100),
      .deliver controllerKnown ⟨7, 8, fastRevocation 1 100⟩] :=
  revocation_flood_bounded signedCrypto [7, 8] twoRevocations memberNetworks
    [.issue 7 (fastRevocation 1 100), arrival 7 (fastRevocation 1 100), arrival 7 (fastRevocation 1 100),
      .deliver controllerKnown ⟨7, 8, fastRevocation 1 100⟩]
    ⟨trivial, meets_com _ _ (by decide), meets_com _ _ (by decide), meets_com _ _ (by decide), trivial⟩

/-- Both are sent to node 7, the first arrives, then the second, and then the first once more. -/
def repeatedArrivals : List Event :=
  [.issue 7 (fastRevocation 1 100), .issue 7 (fastRevocation 3 50), arrival 7 (fastRevocation 1 100),
    arrival 7 (fastRevocation 3 50), arrival 7 (fastRevocation 1 100)]

/-- The revocation of the tag lowers the threshold of the COM, and node 7 passes the first revocation on twice. -/
theorem revocation_forwarded_twice :
    ¬ Throughout smallStep (Bounded [7, 8] twoRevocations) ⟨memberNetworks, [], []⟩ repeatedArrivals ∧
      (run smallStep ⟨memberNetworks, [], []⟩ repeatedArrivals).forwarded =
        [(7, fastRevocation 1 100), (7, fastRevocation 3 50), (7, fastRevocation 1 100)] := by
  have log : (run smallStep ⟨memberNetworks, [], []⟩ repeatedArrivals).forwarded =
      [(7, fastRevocation 1 100), (7, fastRevocation 3 50), (7, fastRevocation 1 100)] := by
    decide +kernel
  refine ⟨?_, log⟩
  intro bounded
  have once := bounded.last.once
  rw [log] at once
  exact (List.nodup_cons.mp once).1 (List.mem_cons_of_mem _ (List.mem_singleton_self _))

end Small

end ZeroTierNode.RevocationFlood

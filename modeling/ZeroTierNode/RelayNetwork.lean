import Mathlib.Algebra.Order.BigOperators.Group.Finset
import ZeroTierNode.NodeRuns

/-!
Nodes that relay for each other: datagrams in flight between any nodes, in any order, with losses. Every node does with
a datagram that is not for it what `Switch::onRemotePacket` does, whatever its peers, its upstreams, its paths and its
clock are. A datagram is passed on at most three times in all and never multiplies, and what arrives somewhere is what
was sent, up to its hop count.
-/

namespace ZeroTierNode.RelayNetwork
open Library.Bytes Library.Runs NodeRuns

section Network

/-- A node at the time it gets a datagram. -/
structure Relayer where
  env : RelayEnvironment
  topology : Topology
  lastUniteAttempt : RateGates.LastUniteKey → Option (BitVec 64)
  path : Path
  now : Int

/-- The datagrams that `sendDirect` did send. -/
def transmitted (env : RelayEnvironment) (calls : List RelayCall) : List (List Byte) :=
  calls.filterMap fun
    | .sendDirect relayTo data force => if env.sendDirect relayTo data force then some data else none
    | .introduce _ _ => none

def introductions (calls : List RelayCall) : Nat :=
  calls.countP fun
    | .sendDirect _ _ _ => false
    | .introduce _ _ => true

/-- What is under way, each with the place of its origin among what was ever sent; the origins of all that nodes
passed on, the last first; and how many pairs of peers were introduced over it. -/
structure Internet where
  flight : List (Nat × List Byte)
  origins : List (List Byte)
  log : List Nat
  introduced : Nat

inductive Event
  | send (data : List Byte)
  | lose (i : Nat)
  | arrive (i : Nat) (relayer : Relayer)

def Relayer.calls (relayer : Relayer) (data : List Byte) : List RelayCall :=
  (relay relayer.env relayer.topology relayer.lastUniteAttempt relayer.path relayer.now data).1

/-- A datagram reaches a node, which passes on what `onRemotePacket` passes on. -/
def arrive (s : Internet) (i : Nat) (relayer : Relayer) (datagram : Nat × List Byte) : Internet :=
  let calls := relayer.calls datagram.2
  let sent := transmitted relayer.env calls
  { s with
    flight := sent.map (datagram.1, ·) ++ s.flight.eraseIdx i
    log := List.replicate sent.length datagram.1 ++ s.log
    introduced := s.introduced + introductions calls }

def step (s : Internet) : Event → Internet
  | .send data => { s with flight := (s.origins.length, data) :: s.flight, origins := s.origins ++ [data] }
  | .lose i => { s with flight := s.flight.eraseIdx i }
  | .arrive i relayer => (s.flight[i]?).elim s (arrive s i relayer)

def silent : Internet := ⟨[], [], [], 0⟩

end Network

section Relaying

variable {data : List Byte}

/-- `hops` of a packet head or of a fragment. -/
def hopsOf (data : List Byte) : Nat :=
  if Packet.isFragment data then (fragmentHops data).toNat else (Armor.hops data).toNat

/-- A datagram as it is passed on. -/
def passed (data : List Byte) : List Byte :=
  if Packet.isFragment data then incrementFragmentHops data else Armor.incrementHops data

theorem byteAt_set_ne {i j : Nat} (other : i ≠ j) (octet : Byte) :
    Packet.byteAt (data.set i octet) j = Packet.byteAt data j := by
  rw [Packet.byteAt, List.getD_eq_getElem?_getD, List.getElem?_set_ne other, ← List.getD_eq_getElem?_getD,
    Packet.byteAt]

theorem byteAt_set_self {i : Nat} (inside : i < data.length) (octet : Byte) :
    Packet.byteAt (data.set i octet) i = octet := by
  rw [Packet.byteAt, List.getD_eq_getElem?_getD, List.getElem?_set_self inside, Option.getD_some]

/-- Passing a datagram on counts a hop. -/
theorem hopsOf_passed (long : Packet.minFragmentLength < data.length)
    (whole : Packet.isFragment data = true ∨ Packet.minPacketLength ≤ data.length) (few : hopsOf data < 3) :
    hopsOf (passed data) = hopsOf data + 1 := by
  have minima : Packet.minFragmentLength = 16 ∧ Packet.minPacketLength = 28 := ⟨rfl, rfl⟩
  rw [hopsOf] at few
  by_cases fragment : Packet.isFragment data = true
  · have octets : ∀ octet : Byte, octet.toNat < 3 → ((octet + 1) &&& 7).toNat = octet.toNat + 1 := by decide
    have next : passed data = incrementFragmentHops data := if_pos fragment
    have still : Packet.isFragment (incrementFragmentHops data) = true := by
      rw [incrementFragmentHops, Packet.isFragment, byteAt_set_ne (by decide)]
      exact fragment
    have counted : fragmentHops (incrementFragmentHops data) = (fragmentHops data + 1) &&& 7 :=
      byteAt_set_self (by omega) _
    rw [if_pos fragment] at few
    rw [next, hopsOf, hopsOf, if_pos still, if_pos fragment, counted, octets _ few]
  · have octets : ∀ octet : Byte, (octet &&& 7).toNat < 3 →
        (Armor.nextHop octet &&& 7).toNat = (octet &&& 7).toNat + 1 := by decide
    have next : passed data = Armor.incrementHops data := if_neg fragment
    have still : ¬ Packet.isFragment (Armor.incrementHops data) = true := by
      rw [Armor.incrementHops, Packet.isFragment, byteAt_set_ne (by decide)]
      exact fragment
    have long := whole.resolve_left fragment
    have counted : Packet.flags (Armor.incrementHops data) = Armor.nextHop (Packet.flags data) :=
      byteAt_set_self (by omega) _
    rw [if_neg fragment, Armor.hops] at few
    rw [next, hopsOf, hopsOf, if_neg still, if_neg fragment, Armor.hops, Armor.hops, counted, octets _ few]

/-- The calls send the datagram once, or not at all. -/
def PassesOn (env : RelayEnvironment) (packet : List Byte) (calls : List RelayCall) : Prop :=
  transmitted env calls = [] ∧ introductions calls = 0 ∨ transmitted env calls = [packet] ∧ introductions calls ≤ 1

variable {env : RelayEnvironment} {t : Topology} {packet : List Byte} {calls : List RelayCall} {relayTo : Address}
  {force : Bool}

theorem passesOn_nil : PassesOn env packet [] := Or.inl ⟨rfl, rfl⟩

theorem passesOn_sent (sent : env.sendDirect relayTo packet force = true) (rest : transmitted env calls = [])
    (few : introductions calls ≤ 1) : PassesOn env packet (.sendDirect relayTo packet force :: calls) := by
  refine Or.inr ⟨?_, ?_⟩
  · rw [transmitted] at rest
    simp only [transmitted, List.filterMap_cons, if_pos sent, rest]
  · rw [introductions] at few
    rw [introductions, List.countP_cons_of_neg (by simp)]
    exact few

theorem passesOn_unsent (unsent : ¬ env.sendDirect relayTo packet force = true) (rest : PassesOn env packet calls) :
    PassesOn env packet (.sendDirect relayTo packet force :: calls) := by
  have same : transmitted env (.sendDirect relayTo packet force :: calls) = transmitted env calls := by
    simp only [transmitted, List.filterMap_cons, if_neg unsent]
  have none : introductions (.sendDirect relayTo packet force :: calls) = introductions calls :=
    List.countP_cons_of_neg (by simp)
  rw [PassesOn, same, none]
  exact rest

theorem introduction_spec (source : Address) :
    transmitted env (introduction env t relayTo source) = [] ∧
      introductions (introduction env t relayTo source) ≤ 1 := by
  unfold introduction
  cases (t.getPeer env.load source).1 with
  | none => exact ⟨rfl, Nat.zero_le 1⟩
  | some sourcePeer => exact ⟨rfl, Nat.le_refl 1⟩

/-- A call that may fail, with what follows it in either case. -/
theorem passesOn_ite {after otherwise : List RelayCall} (rest : transmitted env after = [])
    (few : introductions after ≤ 1) (further : PassesOn env packet otherwise) :
    PassesOn env packet (.sendDirect relayTo packet force ::
      if env.sendDirect relayTo packet force = true then after else otherwise) := by
  by_cases sent : env.sendDirect relayTo packet force = true
  · rw [if_pos sent]
    exact passesOn_sent sent rest few
  · rw [if_neg sent]
    exact passesOn_unsent sent further

theorem passesOn_single : PassesOn env packet [.sendDirect relayTo packet force] := by
  have either : PassesOn env packet (.sendDirect relayTo packet force ::
      if env.sendDirect relayTo packet force = true then [] else []) :=
    passesOn_ite rfl (Nat.zero_le 1) passesOn_nil
  rwa [ite_self] at either

theorem relayFragment_spec (env : RelayEnvironment) (t : Topology) (now : Int) (data : List Byte) :
    PassesOn env (incrementFragmentHops data) (relayFragment env t now data) := by
  unfold relayFragment
  by_cases few : fragmentHops data < relayMaxHops
  · rw [if_pos few]
    dsimp only
    split
    · rename_i relayTo _
      by_cases sent : env.sendDirect relayTo.identity.address (incrementFragmentHops data) false = true
      · rw [if_pos sent]
        exact passesOn_single
      · rw [if_neg sent]
        refine passesOn_unsent sent ?_
        split
        · exact passesOn_single
        · exact passesOn_nil
    · split
      · exact passesOn_single
      · exact passesOn_nil
  · rw [if_neg few]
    exact passesOn_nil

theorem relayPacket_spec (env : RelayEnvironment) (t : Topology)
    (table : RateGates.LastUniteKey → Option (BitVec 64)) (now : Int) (data : List Byte) :
    PassesOn env (Armor.incrementHops data) (relayPacket env t table now data).1 := by
  have upstream (relayTo : Peer) : PassesOn env (Armor.incrementHops data)
      (if relayTo.identity.address ≠ Packet.source data then
        .sendDirect relayTo.identity.address (Armor.incrementHops data) true ::
          (if env.sendDirect relayTo.identity.address (Armor.incrementHops data) true then
            introduction env t relayTo.identity.address (Packet.source data) else [])
      else []) := by
    by_cases other : relayTo.identity.address ≠ Packet.source data
    · rw [if_pos other]
      exact passesOn_ite (introduction_spec _).1 (introduction_spec _).2 passesOn_nil
    · rw [if_neg other]
      exact passesOn_nil
  unfold relayPacket
  by_cases few : Armor.hops data < relayMaxHops
  · rw [if_pos few]
    dsimp only
    split
    · rename_i relayTo _
      by_cases sent : env.sendDirect relayTo.identity.address (Armor.incrementHops data) false = true
      · rw [if_pos sent]
        dsimp only
        split
        · exact passesOn_sent sent (introduction_spec _).1 (introduction_spec _).2
        · exact passesOn_sent sent rfl (Nat.zero_le 1)
      · rw [if_neg sent]
        refine passesOn_unsent sent ?_
        split
        · exact upstream _
        · exact passesOn_nil
    · split
      · exact upstream _
      · exact passesOn_nil
  · rw [if_neg few]
    exact passesOn_nil

/-- The calls pass the datagram on once or not at all, and only while hops are left, of which one is counted. -/
structure Onward (env : RelayEnvironment) (data : List Byte) (calls : List RelayCall) : Prop where
  once : PassesOn env (passed data) calls
  hops : calls ≠ [] → hopsOf data < 3 ∧ hopsOf (passed data) = hopsOf data + 1

theorem onward_nil : Onward env data [] := ⟨passesOn_nil, fun some => absurd rfl some⟩

theorem onward_relayFragment (long : Packet.minFragmentLength < data.length) (fragment : Packet.isFragment data = true)
    (now : Int) : Onward env data (relayFragment env t now data) where
  once := by
    rw [passed, if_pos fragment]
    exact relayFragment_spec env t now data
  hops := by
    intro some
    have left : fragmentHops data < relayMaxHops := by
      by_contra spent
      rw [relayFragment, if_neg spent] at some
      exact some rfl
    have few : hopsOf data < 3 := by
      rw [hopsOf, if_pos fragment]
      exact left
    exact ⟨few, hopsOf_passed long (Or.inl fragment) few⟩

theorem onward_relayPacket (long : Packet.minFragmentLength < data.length) (head : ¬ Packet.isFragment data = true)
    (whole : Packet.minPacketLength ≤ data.length) (table : RateGates.LastUniteKey → Option (BitVec 64)) (now : Int) :
    Onward env data (relayPacket env t table now data).1 where
  once := by
    rw [passed, if_neg head]
    exact relayPacket_spec env t table now data
  hops := by
    intro some
    have left : Armor.hops data < relayMaxHops := by
      by_contra spent
      rw [relayPacket, if_neg spent] at some
      exact some rfl
    have few : hopsOf data < 3 := by
      rw [hopsOf, if_neg head]
      exact left
    exact ⟨few, hopsOf_passed long (Or.inr whole) few⟩

theorem calls_spec (relayer : Relayer) (data : List Byte) : Onward relayer.env data (relayer.calls data) := by
  unfold Relayer.calls relay
  by_cases long : Packet.minFragmentLength < data.length
  · rw [if_pos long]
    by_cases fragment : Packet.isFragment data = true
    · rw [if_pos fragment]
      split
      · exact onward_nil
      · split
        · exact onward_nil
        · split
          · exact onward_nil
          · exact onward_relayFragment long fragment relayer.now
    · rw [if_neg fragment]
      split
      · rename_i whole
        split
        · exact onward_nil
        · split
          · exact onward_nil
          · split
            · exact onward_nil
            · split
              · exact onward_nil
              · exact onward_relayPacket long fragment whole _ relayer.now
      · exact onward_nil
  · rw [if_neg long]
    exact onward_nil

end Relaying

section Runs

/-- Each datagram under way is its origin, passed on as often as the log says, and no two have the same origin. -/
structure Bounded (s : Internet) : Prop where
  copies : ∀ datagram ∈ s.flight, ∃ origin, s.origins[datagram.1]? = some origin ∧
    datagram.2 = passed^[s.log.count datagram.1] origin ∧ hopsOf datagram.2 = hopsOf origin + s.log.count datagram.1
  single : (s.flight.map Prod.fst).Nodup
  sent : ∀ place ∈ s.log, ∃ origin, s.origins[place]? = some origin ∧ hopsOf origin + s.log.count place ≤ 3
  introduced : s.introduced ≤ s.log.length

theorem bounded_silent : Bounded silent where
  copies := fun _ none => nomatch none
  single := List.nodup_nil
  sent := fun _ none => nomatch none
  introduced := Nat.le_refl 0

variable {s : Internet}

theorem bounded_send (bounded : Bounded s) (data : List Byte) : Bounded (step s (.send data)) := by
  have older {place : Nat} {origin : List Byte} (known : s.origins[place]? = some origin) :
      (s.origins ++ [data])[place]? = some origin := by
    rw [List.getElem?_append_left (List.getElem?_eq_some_iff.mp known).1]
    exact known
  have fresh : s.log.count s.origins.length = 0 := by
    rw [List.count_eq_zero]
    intro listed
    obtain ⟨origin, known, -⟩ := bounded.sent _ listed
    exact absurd (List.getElem?_eq_some_iff.mp known).1 (Nat.lt_irrefl _)
  refine ⟨?_, ?_, ?_, bounded.introduced⟩
  · intro datagram member
    rcases List.mem_cons.mp member with rfl | member
    · refine ⟨data, List.getElem?_concat_length, ?_, ?_⟩
      · show data = passed^[s.log.count s.origins.length] data
        rw [fresh]
        rfl
      · show hopsOf data = hopsOf data + s.log.count s.origins.length
        rw [fresh, Nat.add_zero]
    · obtain ⟨origin, known, same, hops⟩ := bounded.copies datagram member
      exact ⟨origin, older known, same, hops⟩
  · refine List.nodup_cons.mpr ⟨?_, bounded.single⟩
    intro listed
    obtain ⟨datagram, member, same⟩ := List.mem_map.mp listed
    obtain ⟨origin, known, -⟩ := bounded.copies datagram member
    rw [same] at known
    exact absurd (List.getElem?_eq_some_iff.mp known).1 (Nat.lt_irrefl _)
  · intro place listed
    obtain ⟨origin, known, few⟩ := bounded.sent place listed
    exact ⟨origin, older known, few⟩

theorem bounded_lose (bounded : Bounded s) (i : Nat) : Bounded { s with flight := s.flight.eraseIdx i } where
  copies := fun datagram member => bounded.copies datagram (List.mem_of_mem_eraseIdx member)
  single := bounded.single.sublist ((List.eraseIdx_sublist s.flight i).map Prod.fst)
  sent := bounded.sent
  introduced := bounded.introduced

theorem bounded_arrive (bounded : Bounded s) {i : Nat} {datagram : Nat × List Byte} (here : s.flight[i]? = some datagram)
    (relayer : Relayer) : Bounded (arrive s i relayer datagram) := by
  have onward := calls_spec relayer datagram.2
  obtain ⟨none, quiet⟩ | ⟨one, few⟩ := onward.once
  · have dropped : arrive s i relayer datagram = { s with flight := s.flight.eraseIdx i } := by
      simp [arrive, none, quiet]
    rw [dropped]
    exact bounded_lose bounded i
  · have some : relayer.calls datagram.2 ≠ [] := by
      intro idle
      rw [idle] at one
      exact nomatch one
    obtain ⟨left, counted⟩ := onward.hops some
    have arrived : arrive s i relayer datagram =
        { s with
          flight := (datagram.1, passed datagram.2) :: s.flight.eraseIdx i
          log := datagram.1 :: s.log
          introduced := s.introduced + introductions (relayer.calls datagram.2) } := by
      simp [arrive, one]
    obtain ⟨inside, here⟩ := List.getElem?_eq_some_iff.mp here
    have member : datagram ∈ s.flight := here ▸ List.getElem_mem inside
    obtain ⟨origin, known, same, start⟩ := bounded.copies datagram member
    have apart : (datagram.1 :: (s.flight.eraseIdx i).map Prod.fst).Nodup := by
      have order := (List.getElem_cons_eraseIdx_perm inside).map Prod.fst
      rw [here] at order
      exact order.nodup_iff.mpr bounded.single
    have more : (datagram.1 :: s.log).count datagram.1 = s.log.count datagram.1 + 1 := List.count_cons_self
    have as_before {place : Nat} (other : datagram.1 ≠ place) : (datagram.1 :: s.log).count place = s.log.count place :=
      List.count_cons_of_ne other
    rw [arrived]
    refine ⟨?_, apart, ?_, ?_⟩
    · intro next listed
      rcases List.mem_cons.mp listed with rfl | listed
      · refine ⟨origin, known, ?_, ?_⟩
        · show passed datagram.2 = passed^[(datagram.1 :: s.log).count datagram.1] origin
          rw [more, Function.iterate_succ_apply', ← same]
        · show hopsOf (passed datagram.2) = hopsOf origin + (datagram.1 :: s.log).count datagram.1
          rw [more, counted, start, Nat.add_assoc]
      · have other : datagram.1 ≠ next.1 := fun equal =>
          (List.nodup_cons.mp apart).1 (equal ▸ List.mem_map_of_mem listed)
        obtain ⟨first, known, same, start⟩ := bounded.copies next (List.mem_of_mem_eraseIdx listed)
        refine ⟨first, known, ?_, ?_⟩
        · rw [as_before other]
          exact same
        · rw [as_before other]
          exact start
    · intro place listed
      by_cases own : datagram.1 = place
      · subst own
        exact ⟨origin, known, by rw [more]; omega⟩
      · obtain ⟨first, known, few⟩ := bounded.sent place ((List.mem_cons.mp listed).resolve_left (Ne.symm own))
        exact ⟨first, known, by rw [as_before own]; exact few⟩
    · show s.introduced + introductions (relayer.calls datagram.2) ≤ s.log.length + 1
      exact Nat.add_le_add bounded.introduced few

theorem bounded_step (bounded : Bounded s) (event : Event) : Bounded (step s event) := by
  cases event with
  | send data => exact bounded_send bounded data
  | lose i => exact bounded_lose bounded i
  | arrive i relayer =>
      rw [step]
      cases here : s.flight[i]? with
      | none => exact bounded
      | some datagram => exact bounded_arrive bounded here relayer

/-- All that was passed on, when each datagram was passed on at most three times. -/
theorem Bounded.log_length (bounded : Bounded s) : s.log.length ≤ 3 * s.origins.length := by
  have places : s.log.toFinset ⊆ Finset.range s.origins.length := by
    intro place listed
    obtain ⟨origin, known, -⟩ := bounded.sent place (List.mem_toFinset.mp listed)
    exact Finset.mem_range.mpr (List.getElem?_eq_some_iff.mp known).1
  have each : ∀ place ∈ s.log.toFinset, s.log.count place ≤ 3 := by
    intro place listed
    obtain ⟨origin, -, few⟩ := bounded.sent place (List.mem_toFinset.mp listed)
    omega
  calc s.log.length = ∑ place ∈ s.log.toFinset, s.log.count place := (List.sum_toFinset_count_eq_length s.log).symm
    _ ≤ s.log.toFinset.card * 3 := Finset.sum_le_card_nsmul _ _ _ each
    _ ≤ s.origins.length * 3 := by
        have fewer := Finset.card_le_card places
        rw [Finset.card_range] at fewer
        exact Nat.mul_le_mul_right 3 fewer
    _ = 3 * s.origins.length := Nat.mul_comm _ _

/-- Over any run nodes pass a datagram on at most three times, less by the hops it started with; at most one copy of
it is under way, which is what was sent but for the hop count; and all of them pass on and introduce no more than
three times what was sent. -/
theorem relays_bounded (events : List Event) :
    Throughout step (fun s =>
      (∀ place ∈ s.log, ∃ origin, s.origins[place]? = some origin ∧ hopsOf origin + s.log.count place ≤ 3) ∧
      (s.flight.map Prod.fst).Nodup ∧
      (∀ datagram ∈ s.flight, ∃ origin, s.origins[datagram.1]? = some origin ∧
        datagram.2 = passed^[s.log.count datagram.1] origin) ∧
      s.introduced ≤ s.log.length ∧ s.log.length ≤ 3 * s.origins.length) silent events := by
  have throughout : Throughout step Bounded silent events :=
    throughout_of_preserved (fun _ event bounded => bounded_step bounded event) bounded_silent
  refine throughout.imp fun s bounded =>
    ⟨bounded.sent, bounded.single, ?_, bounded.introduced, bounded.log_length⟩
  intro datagram member
  obtain ⟨origin, known, same, -⟩ := bounded.copies datagram member
  exact ⟨origin, known, same⟩

end Runs

end ZeroTierNode.RelayNetwork

import Mathlib.Data.List.Perm.Subperm
import Mathlib.Data.List.Nodup
import ZeroTierNode.Library.Ciphers
import ZeroTierNode.Library.Probing
import ZeroTierNode.MulticastMembers
import ZeroTierNode.Packet

/-!
`Multicaster::gather`: members of a group in a random order, as many as the limit and
the packet allow. The order comes from a scan that starts at a random place and starts
again, one place further, at every member that was picked before.
-/

namespace ZeroTierNode.MulticastGather
open Library.Bytes Library.Ciphers Library.OrderedArrays Library.Probing Library.Runs MulticastLikes MulticastMembers

/-- `MulticastGroup::operator<`. -/
def groupBefore (first second : MulticastGroup) : Bool :=
  first.mac < second.mac ∨ first.mac = second.mac ∧ first.adi < second.adi

/-- The groups of a joined network. -/
structure Subscriptions where
  myMulticastGroups : List MulticastGroup
  /-- `_multicastGroupsBehindMe.contains`. -/
  multicastGroupsBehindMe : MulticastGroup → Bool

/-- `subscribedToMulticastGroup`; `std::binary_search` looks at the element at the lower bound. -/
def Subscriptions.subscribedToMulticastGroup (network : Subscriptions) (mg : MulticastGroup)
    (includeBridgedGroups : Bool) : Bool :=
  if (network.myMulticastGroups[lowerBound (fun other => groupBefore other mg) network.myMulticastGroups]?).any
      fun other => ¬ groupBefore mg other then true
  else if includeBridgedGroups then network.multicastGroupsBehindMe mg
  else false

/-- What `gather` does not change: the joined networks and the members of all groups. -/
structure Context extends Node where
  networks : BitVec 64 → Option Subscriptions
  groups : Database

/-- This node is a member of the group. -/
def Context.subscribed (ctx : Context) (nwid : BitVec 64) (mg : MulticastGroup) : Bool :=
  (ctx.networks nwid).any fun network => network.subscribedToMulticastGroup mg true

/-- The arguments of a call, and what the generator of random numbers returns in it. -/
structure Query where
  queryingPeer : Address
  nwid : BitVec 64
  mg : MulticastGroup
  appendTo : List Byte
  limit : BitVec 32
  prng : Nat → BitVec 64

/-- The variables of the loop; `k` is the number of the picked addresses. -/
structure Loop where
  appendTo : List Byte
  added : Nat
  picked : List Address

/-- The size of the array `picked`. -/
abbrev pickedSize : Nat := Packet.maxPacketLength / 5 + 2

/-- The way a call ends, if it does. -/
inductive Outcome
  | threw
  | returned (appendTo : List Byte) (added : Nat)
deriving DecidableEq, Repr

/-- The condition of the loop. -/
def Loop.Goes (members : List Address) (limit : Nat) (loop : Loop) : Prop :=
  loop.added < limit ∧ loop.picked.length < members.length ∧ loop.appendTo.length + 5 ≤ Packet.maxPacketLength

instance (members : List Address) (limit : Nat) (loop : Loop) : Decidable (loop.Goes members limit) :=
  inferInstanceAs (Decidable (_ ∧ _ ∧ _))

/-- A member is picked, and written down unless it is the peer that asks. -/
def Loop.pick (queryingPeer : Address) (loop : Loop) (a : Address) : Loop :=
  if queryingPeer ≠ a then ⟨loop.appendTo ++ a.appendTo, loop.added + 1, loop.picked ++ [a]⟩
  else { loop with picked := loop.picked ++ [a] }

/-- The loop, with at most `steps` restarts in a scan; nothing where it leaves `picked` or does not end. -/
def picks (query : Query) (members : List Address) (limit steps : Nat) : Nat → Loop → Option Loop
  | 0, _ => none
  | fuel + 1, loop =>
      if loop.Goes members limit then
        if loop.picked.length < pickedSize then do
          let rptr := (query.prng loop.picked.length).setWidth 32
          let a ← probe members loop.picked (members.length % 2 ^ 32) steps rptr
          picks query members limit steps fuel (loop.pick query.queryingPeer a)
        else none
      else some loop

/-- The part of `gather` behind the search for this node; `gap` is what `addSize` left behind. -/
def gatherMembers (ctx : Context) (query : Query) (gap : List Byte) (steps : Nat) : Option Outcome :=
  let known := ctx.subscribed query.nwid query.mg
  let start : Loop :=
    if known then ⟨query.appendTo ++ gap ++ ctx.self.appendTo, 1, []⟩ else ⟨query.appendTo ++ gap, 0, []⟩
  let members := ctx.groups.addresses query.nwid query.mg
  let totalKnown := (if known then 1 else 0) + BitVec.ofNat 32 members.length
  let ended :=
    if members.isEmpty then some start
    else picks query members (min query.limit.toNat 0xffff) steps (steps + 1) start
  ended.map fun loop =>
    let b := overwrite loop.appendTo query.appendTo.length (wordBytes 4 totalKnown)
    .returned (overwrite b (query.appendTo.length + 4) (wordBytes 2 (BitVec.ofNat 16 loop.added))) loop.added

/-- `gather`, with at most `steps` rounds of its loops. The six bytes of `addSize` are whatever was in the buffer. -/
def gather (ctx : Context) (query : Query) (gap : Vector Byte 6) (steps : Nat) : Option Outcome :=
  if query.limit = 0 then some (.returned query.appendTo 0)
  else if Packet.maxPacketLength < query.appendTo.length + 4 then some .threw
  else if Packet.maxPacketLength < query.appendTo.length + 4 + 2 then some .threw
  else if ctx.subscribed query.nwid query.mg = true ∧ Packet.maxPacketLength < query.appendTo.length + 4 + 2 + 5 then
    some .threw
  else gatherMembers ctx query gap.toList steps

/-- The picked addresses that are written down. -/
def Loop.found (queryingPeer : Address) (loop : Loop) : List Address :=
  loop.picked.filter fun a => a ≠ queryingPeer

/-- What the loop keeps up, from `start` with `base` addresses on: members are picked, each once, and all but the peer
that asks stand in the packet. -/
structure Picking (queryingPeer : Address) (members : List Address) (limit : Nat) (start : List Byte) (base : Nat)
    (loop : Loop) : Prop where
  once : loop.picked.Nodup
  listed : ∀ a ∈ loop.picked, a ∈ members
  counted : loop.added = base + (loop.found queryingPeer).length
  written : loop.appendTo = start ++ (loop.found queryingPeer).flatMap Address.appendTo
  bounded : loop.added ≤ limit

namespace Picking

variable {queryingPeer : Address} {members : List Address} {limit : Nat} {start : List Byte} {base : Nat} {loop : Loop}

theorem flatMap_appendTo_length (found : List Address) : (found.flatMap Address.appendTo).length = 5 * found.length := by
  induction found with
  | nil => rfl
  | cons a found ih =>
      rw [List.flatMap_cons, List.length_append, ih, List.length_cons, Address.appendTo, wordBytes_length]
      omega

theorem pick_found (loop : Loop) (a : Address) :
    (loop.pick queryingPeer a).picked = loop.picked ++ [a] ∧
      (loop.pick queryingPeer a).found queryingPeer =
        loop.found queryingPeer ++ if a ≠ queryingPeer then [a] else [] := by
  unfold Loop.pick Loop.found
  by_cases asks : queryingPeer = a
  · simp [asks]
  · simp [asks, Ne.symm asks]

/-- One round of the loop. -/
theorem pick (holds : Picking queryingPeer members limit start base loop) (goes : loop.Goes members limit) {a : Address}
    (member : a ∈ members) (fresh : a ∉ loop.picked) :
    Picking queryingPeer members limit start base (loop.pick queryingPeer a) := by
  obtain ⟨picked, found⟩ := @pick_found queryingPeer loop a
  have below := goes.1
  constructor
  · rw [picked, List.nodup_append]
    refine ⟨holds.once, List.nodup_singleton a, ?_⟩
    intro other before last found same
    rw [same, List.mem_singleton.mp found] at before
    exact fresh before
  · rw [picked]
    intro other here
    cases List.mem_append.mp here with
    | inl before => exact holds.listed other before
    | inr last => rwa [List.mem_singleton.mp last]
  · rw [found]
    unfold Loop.pick
    by_cases asks : queryingPeer = a
    · simp [asks, holds.counted]
    · simp [asks, Ne.symm asks, holds.counted]
      omega
  · rw [found]
    unfold Loop.pick
    by_cases asks : queryingPeer = a
    · simp [asks, holds.written]
    · simp [asks, Ne.symm asks, holds.written]
  · unfold Loop.pick
    split
    · exact below
    · exact holds.bounded

/-- There is room in `picked` whenever the loop goes on. -/
theorem room (holds : Picking queryingPeer members limit start base loop) (goes : loop.Goes members limit) :
    loop.picked.length < pickedSize := by
  have fits := goes.2.2
  rw [holds.written, List.length_append, flatMap_appendTo_length] at fits
  have all_but_one : loop.picked.length ≤ (loop.found queryingPeer).length + 1 := by
    have without : loop.found queryingPeer = loop.picked.erase queryingPeer := by
      rw [holds.once.erase_eq_filter, Loop.found]
      apply List.filter_congr
      intro a _
      by_cases asks : a = queryingPeer
      · simp [asks]
      · simp [asks]
    rw [without, List.length_erase]
    split
    · omega
    · omega
  unfold pickedSize
  omega

/-- While members are left, one of them is not picked. -/
theorem unpicked {picked : List Address} (distinct : members.Nodup) (more : picked.length < members.length) :
    ∃ a ∈ members, a ∉ picked := by
  by_contra all
  push Not at all
  have fewer := (distinct.subperm all).length_le
  omega

/-- The loop ends, in a state where its condition fails. -/
theorem ends (query : Query) (distinct : members.Nodup) (small : members.length < 2 ^ 32)
    (holds : Picking query.queryingPeer members limit start base loop) :
    ∃ final, Picking query.queryingPeer members limit start base final ∧ ¬ final.Goes members limit ∧
      ∀ steps fuel, 2 * members.length ≤ steps → members.length - loop.picked.length < fuel →
        picks query members limit steps fuel loop = some final := by
  generalize left : members.length - loop.picked.length = count
  induction count generalizing loop with
  | zero =>
      have stops : ¬ loop.Goes members limit := by
        intro goes
        have more := goes.2.1
        omega
      refine ⟨loop, holds, stops, ?_⟩
      intro steps fuel _ enough
      obtain ⟨rest, rfl⟩ := Nat.exists_eq_succ_of_ne_zero (Nat.ne_of_gt enough)
      rw [picks, if_neg stops]
  | succ count ih =>
      by_cases goes : loop.Goes members limit
      · obtain ⟨x, listed, fresh⟩ := unpicked distinct goes.2.1
        obtain ⟨a, member, free, finds⟩ := probe_finds listed fresh (Nat.le_of_lt small)
          ((query.prng loop.picked.length).setWidth 32)
        have next := (@pick_found query.queryingPeer loop a).1
        have shorter : members.length - (loop.pick query.queryingPeer a).picked.length = count := by
          rw [next, List.length_append, List.length_singleton]
          omega
        obtain ⟨final, kept, stops, ended⟩ := ih (holds.pick goes member free) shorter
        refine ⟨final, kept, stops, ?_⟩
        intro steps fuel tries enough
        obtain ⟨rest, rfl⟩ := Nat.exists_eq_succ_of_ne_zero (Nat.ne_of_gt (Nat.zero_lt_of_lt enough))
        rw [picks, if_pos goes, if_pos (holds.room goes), Nat.mod_eq_of_lt small]
        dsimp only
        rw [finds steps tries]
        exact ended steps rest tries (Nat.lt_of_succ_lt_succ enough)
      · refine ⟨loop, holds, goes, ?_⟩
        intro steps fuel _ enough
        obtain ⟨rest, rfl⟩ := Nat.exists_eq_succ_of_ne_zero (Nat.ne_of_gt (Nat.zero_lt_of_lt enough))
        rw [picks, if_neg goes]

/-- A loop that has ended without a limit or a full packet has written down every member but the peer that asks. -/
theorem complete {final : Loop} (holds : Picking queryingPeer members limit start base final)
    (stops : ¬ final.Goes members limit)
    (few : base + (members.filter fun a => a ≠ queryingPeer).length ≤ limit)
    (space : start.length + 5 * (members.filter fun a => a ≠ queryingPeer).length ≤ Packet.maxPacketLength)
    {a : Address} (member : a ∈ members) (other : a ≠ queryingPeer) : a ∈ final.found queryingPeer := by
  have mem_found (a : Address) : a ∈ final.found queryingPeer ↔ a ∈ final.picked ∧ a ≠ queryingPeer := by
    simp [Loop.found]
  by_cases all : members.length ≤ final.picked.length
  · have everyone := (holds.once.subperm holds.listed).perm_of_length_le all
    exact (mem_found a).mpr ⟨everyone.mem_iff.mpr member, other⟩
  · have eligible : final.found queryingPeer ⊆ members.filter fun a => a ≠ queryingPeer := by
      intro a here
      obtain ⟨picked, different⟩ := (mem_found a).mp here
      simpa using ⟨holds.listed a picked, different⟩
    have enough : (members.filter fun a => a ≠ queryingPeer).length ≤ (final.found queryingPeer).length := by
      have counted := holds.counted
      have written : final.appendTo.length = start.length + 5 * (final.found queryingPeer).length := by
        rw [holds.written, List.length_append, flatMap_appendTo_length]
      by_contra short
      apply stops
      exact ⟨by omega, by omega, by omega⟩
    have everyone := ((holds.once.filter _).subperm eligible).perm_of_length_le enough
    exact everyone.mem_iff.mpr (by simpa using ⟨member, other⟩)

end Picking

section Answers

variable (ctx : Context) (query : Query)

/-- The members of the group that is asked for. -/
def Context.members : List Address := ctx.groups.addresses query.nwid query.mg

/-- This node, where it is subscribed. -/
def Context.itself : List Address := if ctx.subscribed query.nwid query.mg then [ctx.self] else []

/-- The addresses that can be returned to the peer that asks. -/
def Context.eligible : List Address := ctx.itself query ++ (ctx.members query).filter fun a => a ≠ query.queryingPeer

/-- The number of members that is reported. -/
def Context.totalKnown : BitVec 32 :=
  (if ctx.subscribed query.nwid query.mg then 1 else 0) + BitVec.ofNat 32 (ctx.members query).length

/-- The packet has no room for the two numbers, or for this node behind them. -/
def Context.Overflows : Prop :=
  query.limit ≠ 0 ∧ Packet.maxPacketLength < query.appendTo.length + 6 + 5 * (ctx.itself query).length

/-- What is asked of the packet `b` and the number `added` that `gather` returns, with the addresses `found`. -/
structure Answer (b : List Byte) (added : Nat) (found : List Address) : Prop where
  written : b = query.appendTo ++ if query.limit = 0 then [] else
    wordBytes 4 (ctx.totalKnown query) ++ wordBytes 2 (BitVec.ofNat 16 found.length) ++ found.flatMap Address.appendTo
  counted : added = found.length
  narrow : found.length < 2 ^ 16
  once : found.Nodup
  limited : found.length ≤ query.limit.toNat
  /-- A peer is another node. -/
  notAsking : query.queryingPeer ≠ ctx.self → query.queryingPeer ∉ found
  members : ∀ a ∈ found, a ∈ ctx.members query ∨ a = ctx.self ∧ ctx.subscribed query.nwid query.mg = true
  complete : (ctx.eligible query).length ≤ query.limit.toNat →
    query.appendTo.length + 6 + 5 * (ctx.eligible query).length ≤ Packet.maxPacketLength →
    ∀ a ∈ ctx.eligible query, a ∈ found

variable {ctx query}

/-- Nothing is written for a limit of zero. -/
theorem answer_nothing (zero : query.limit = 0) : Answer ctx query query.appendTo 0 [] := by
  refine ⟨?_, rfl, by decide, List.nodup_nil, Nat.zero_le _, fun _ => List.not_mem_nil, ?_, ?_⟩
  · rw [if_pos zero, List.append_nil]
  · intro a found
    exact absurd found List.not_mem_nil
  · intro few _ a listed
    rw [zero] at few
    have none_eligible : ctx.eligible query = [] := List.length_eq_zero_iff.mp (Nat.le_zero.mp few)
    rwa [none_eligible] at listed

/-- The state in front of the loop. -/
def Context.start (ctx : Context) (query : Query) (gap : List Byte) : Loop :=
  ⟨query.appendTo ++ gap ++ (ctx.itself query).flatMap Address.appendTo, (ctx.itself query).length, []⟩

theorem gatherMembers_eq (gap : List Byte) (steps : Nat) :
    gatherMembers ctx query gap steps =
      (if (ctx.members query).isEmpty then some (ctx.start query gap)
        else picks query (ctx.members query) (min query.limit.toNat 0xffff) steps (steps + 1) (ctx.start query gap)).map
      fun loop => .returned (overwrite (overwrite loop.appendTo query.appendTo.length
        (wordBytes 4 (ctx.totalKnown query))) (query.appendTo.length + 4) (wordBytes 2 (BitVec.ofNat 16 loop.added)))
        loop.added := by
  have known : (if ctx.subscribed query.nwid query.mg = true then
      (⟨query.appendTo ++ gap ++ ctx.self.appendTo, 1, []⟩ : Loop) else ⟨query.appendTo ++ gap, 0, []⟩) =
      ctx.start query gap := by
    unfold Context.start Context.itself
    cases ctx.subscribed query.nwid query.mg with
    | true => simp
    | false => simp
  unfold gatherMembers
  dsimp only
  rw [known]
  rfl

theorem itself_length : (ctx.itself query).length ≤ 1 := by
  unfold Context.itself
  split
  · exact Nat.le_refl 1
  · exact Nat.zero_le 1

/-- A loop that has ended leaves an answer. -/
theorem answer_of_picking {gap : List Byte} {final : Loop} (size : gap.length = 6) (positive : query.limit ≠ 0)
    (distinct : ctx.self ∉ ctx.members query)
    (holds : Picking query.queryingPeer (ctx.members query) (min query.limit.toNat 0xffff)
      (ctx.start query gap).appendTo (ctx.itself query).length final)
    (stops : ¬ final.Goes (ctx.members query) (min query.limit.toNat 0xffff)) :
    Answer ctx query
      (overwrite (overwrite final.appendTo query.appendTo.length (wordBytes 4 (ctx.totalKnown query)))
        (query.appendTo.length + 4) (wordBytes 2 (BitVec.ofNat 16 final.added)))
      final.added (ctx.itself query ++ final.found query.queryingPeer) := by
  have counted : final.added = (ctx.itself query ++ final.found query.queryingPeer).length := by
    rw [holds.counted, List.length_append]
  have bounded := holds.bounded
  have self_only : ∀ a ∈ ctx.itself query, a = ctx.self ∧ ctx.subscribed query.nwid query.mg = true := by
    intro a here
    unfold Context.itself at here
    split at here
    · rename_i subscribed
      exact ⟨List.mem_singleton.mp here, subscribed⟩
    · exact absurd here List.not_mem_nil
  have picked : ∀ a ∈ final.found query.queryingPeer, a ∈ ctx.members query ∧ a ≠ query.queryingPeer := by
    intro a here
    obtain ⟨listed, other⟩ := List.mem_filter.mp here
    exact ⟨holds.listed a listed, of_decide_eq_true other⟩
  constructor
  · rw [if_neg positive, holds.written]
    obtain ⟨first, second, cut, four, two⟩ : ∃ first second, gap = first ++ second ∧ first.length = 4 ∧ second.length = 2 :=
      ⟨gap.take 4, gap.drop 4, (List.take_append_drop 4 gap).symm, by rw [List.length_take]; omega,
        by rw [List.length_drop]; omega⟩
    have total : (wordBytes 4 (ctx.totalKnown query)).length = first.length := by rw [wordBytes_length, four]
    have number : (wordBytes 2 (BitVec.ofNat 16 final.added)).length = second.length := by rw [wordBytes_length, two]
    have behind : query.appendTo.length + 4 = (query.appendTo ++ wordBytes 4 (ctx.totalKnown query)).length := by
      rw [List.length_append, wordBytes_length]
    rw [Context.start, cut, ← counted]
    simp only [List.append_assoc, List.flatMap_append]
    rw [overwrite_middle _ _ _ _ total, behind, ← List.append_assoc query.appendTo, overwrite_middle _ _ _ _ number]
    simp only [List.append_assoc]
  · exact counted
  · omega
  · rw [List.nodup_append]
    refine ⟨?_, holds.once.filter _, ?_⟩
    · unfold Context.itself
      split
      · exact List.nodup_singleton _
      · exact List.nodup_nil
    · intro a mine b here same
      rw [(self_only a mine).1] at same
      exact distinct (same ▸ (picked b here).1)
  · omega
  · intro foreign here
    cases List.mem_append.mp here with
    | inl mine => exact foreign (self_only _ mine).1
    | inr here => exact (picked _ here).2 rfl
  · intro a here
    cases List.mem_append.mp here with
    | inl mine => exact Or.inr (self_only a mine)
    | inr here => exact Or.inl (picked a here).1
  · intro few space a listed
    unfold Context.eligible at few space listed
    rw [List.length_append] at few space
    have fits : Packet.maxPacketLength = 10024 := rfl
    cases List.mem_append.mp listed with
    | inl mine => exact List.mem_append_left _ mine
    | inr here =>
        obtain ⟨member, other⟩ := List.mem_filter.mp here
        apply List.mem_append_right
        apply holds.complete stops (by omega) _ member (of_decide_eq_true other)
        have front : (ctx.start query gap).appendTo.length =
            query.appendTo.length + 6 + 5 * (ctx.itself query).length := by
          rw [Context.start, List.length_append, List.length_append, size, Picking.flatMap_appendTo_length]
        rw [front]
        omega

/-- The loop ends with an answer. -/
theorem gatherMembers_answers (gap : Vector Byte 6) (positive : query.limit ≠ 0)
    (sound : ((ctx.groups query.nwid query.mg).getD {}).Sound ctx.toNode) :
    ∃ b added found, (∀ steps, 2 * (ctx.members query).length ≤ steps →
      gatherMembers ctx query gap.toList steps = some (.returned b added)) ∧ Answer ctx query b added found := by
  have size : gap.toList.length = 6 := Vector.length_toList
  have distinct : (ctx.members query).Nodup := sound.increasing.imp BitVec.ne_of_lt
  have small : (ctx.members query).length < 2 ^ 32 := Nat.lt_of_le_of_lt sound.sized ctx.narrow
  have some_limit : query.limit.toNat ≠ 0 := fun zero => positive (BitVec.eq_of_toNat_eq zero)
  have one := @itself_length ctx query
  have initially : Picking query.queryingPeer (ctx.members query) (min query.limit.toNat 0xffff)
      (ctx.start query gap.toList).appendTo (ctx.itself query).length (ctx.start query gap.toList) := by
    constructor
    · exact List.nodup_nil
    · intro a found
      exact absurd found List.not_mem_nil
    · rfl
    · exact (List.append_nil _).symm
    · change (ctx.itself query).length ≤ _
      omega
  by_cases nobody : (ctx.members query).isEmpty = true
  · have stops : ¬ (ctx.start query gap.toList).Goes (ctx.members query) (min query.limit.toNat 0xffff) := by
      intro goes
      have some_member := goes.2.1
      rw [List.isEmpty_iff.mp nobody] at some_member
      cases some_member
    refine ⟨_, _, _, ?_, answer_of_picking size positive sound.other initially stops⟩
    intro steps _
    rw [gatherMembers_eq, if_pos nobody]
    rfl
  · obtain ⟨final, holds, stops, ended⟩ := initially.ends query distinct small
    refine ⟨_, _, _, ?_, answer_of_picking size positive sound.other holds stops⟩
    intro steps enough
    have finished := ended steps (steps + 1) enough (by omega)
    rw [gatherMembers_eq, if_neg nobody, finished]
    rfl

theorem gather_answers (gap : Vector Byte 6) (sound : ((ctx.groups query.nwid query.mg).getD {}).Sound ctx.toNode) :
    ∃ outcome, (∀ steps, 2 * (ctx.members query).length ≤ steps → gather ctx query gap steps = some outcome) ∧
      (outcome = .threw ↔ ctx.Overflows query) ∧
      ∀ b added, outcome = .returned b added → ∃ found, Answer ctx query b added found := by
  by_cases zero : query.limit = 0
  · refine ⟨.returned query.appendTo 0, ?_, ?_, ?_⟩
    · intro steps _
      rw [gather, if_pos zero]
    · exact ⟨fun wrong => (nomatch wrong), fun overflows => absurd zero overflows.1⟩
    · intro b added same
      cases same
      exact ⟨[], answer_nothing zero⟩
  · have own : (ctx.itself query).length = if ctx.subscribed query.nwid query.mg = true then 1 else 0 := by
      unfold Context.itself
      split
      · rfl
      · rfl
    by_cases overflows : ctx.Overflows query
    · have long := overflows.2
      refine ⟨.threw, ?_, ⟨fun _ => overflows, fun _ => rfl⟩, fun b added wrong => (nomatch wrong)⟩
      intro steps _
      rw [gather, if_neg zero]
      split_ifs with four six self_too
      · rfl
      · rfl
      · rfl
      · exfalso
        by_cases subscribed : ctx.subscribed query.nwid query.mg = true
        · rw [own, if_pos subscribed] at long
          exact self_too ⟨subscribed, by omega⟩
        · rw [own, if_neg subscribed] at long
          omega
    · obtain ⟨b, added, found, ends, answer⟩ := gatherMembers_answers gap zero sound
      refine ⟨.returned b added, ?_, ⟨fun wrong => (nomatch wrong), fun wrong => absurd wrong overflows⟩, ?_⟩
      · intro steps enough
        rw [← ends steps enough, gather, if_neg zero]
        have short : ¬ Packet.maxPacketLength < query.appendTo.length + 6 + 5 * (ctx.itself query).length :=
          fun long => overflows ⟨zero, long⟩
        rw [if_neg (by omega), if_neg (by omega), if_neg]
        intro both
        rw [own, if_pos both.1] at short
        omega
      · intro _ _ same
        cases same
        exact ⟨found, answer⟩

end Answers

/-- The database that any calls lead to. -/
def reached (node : Node) (ops : List Op) : Database := run (step node) (fun _ _ => none) ops

/-- The members of every group are in order and never this node, and whatever is then gathered ends: with an exception
if the packet has no room for the numbers, and otherwise with an answer. -/
theorem members_gathered (node : Node) (ops : List Op) :
    (∀ nwid mg, ((reached node ops).addresses nwid mg).Pairwise (· < ·) ∧
      node.self ∉ (reached node ops).addresses nwid mg) ∧
    ∀ (networks : BitVec 64 → Option Subscriptions) (query : Query) (gap : Vector Byte 6),
      ∃ outcome,
        (∀ steps, 2 * ((reached node ops).addresses query.nwid query.mg).length ≤ steps →
          gather ⟨node, networks, reached node ops⟩ query gap steps = some outcome) ∧
        (outcome = .threw ↔ Context.Overflows ⟨node, networks, reached node ops⟩ query) ∧
        ∀ b added, outcome = .returned b added → ∃ found, Answer ⟨node, networks, reached node ops⟩ query b added found := by
  have sound : (reached node ops).Sound node := Database.sound_run node ops
  constructor
  · intro nwid mg
    have group := sound.group nwid mg
    exact ⟨group.increasing, group.other⟩
  · intro networks query gap
    exact @gather_answers ⟨node, networks, reached node ops⟩ query gap (sound.group query.nwid query.mg)

end ZeroTierNode.MulticastGather

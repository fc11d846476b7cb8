import ZeroTierNode.Encapsulation
import ZeroTierNode.MulticastDelivery
import ZeroTierNode.Library.Arrays
import ZeroTierNode.Library.Sampling

/-!
The last branch of `Switch::onLocalEthernet`: a frame for a MAC behind a remote bridge
goes to the bridge that is known for it, or else to active bridges. Of many bridges some
are picked in a walk round their list, with a toss of a coin at each.
-/

namespace ZeroTierNode.BridgeSpam
open Library.Accesses Library.Arrays Library.Sampling Encapsulation

/-- `ZT_MAX_BRIDGE_SPAM`. -/
abbrev maxBridgeSpam : Nat := 32

/-- `bridges` and `numBridges`. -/
structure Recipients where
  bridges : Vector Address maxBridgeSpam
  numBridges : Nat

namespace Recipients

/-- `bridges[numBridges++] = a`. -/
def put (s : Recipients) (a : Address) : Access Recipients := do
  let bridges ← store s.bridges s.numBridges a
  return ⟨bridges, s.numBridges + 1⟩

/-- What the loop over the recipients reads. -/
def listed (s : Recipients) : Access (List Address) := (List.range s.numBridges).mapM (load s.bridges)

end Recipients

/-- What the branch looks at: this node, the route for the MAC (nil if there is none), the configuration of the network
and the numbers of `Node::prng` in the order in which they are drawn. -/
structure Bridged where
  self : Address
  findBridgeTo : Address
  config : NetworkConfig
  prng : Nat → BitVec 64

namespace Bridged

variable (b : Bridged)

def activeBridges : List Address := b.config.activeBridges

/-- The route leads to another node, which may bridge. -/
def Known : Prop := b.findBridgeTo ≠ 0 ∧ b.findBridgeTo ≠ b.self ∧ b.config.permitsBridging b.findBridgeTo = true

instance Known.decidable : Decidable b.Known := inferInstanceAs (Decidable (_ ∧ _ ∧ _))

/-- The coin: a number that the size of the list divides, both as an `unsigned long` of 32 bits. -/
def coin (i : Nat) : Bool := ((b.prng i).setWidth 32).toNat % b.activeBridges.length = 0

/-- The loop that picks bridges, before the `n`th toss, with the elements from `ab` on; nothing without fuel. -/
def pick : Nat → Nat → List Address → Recipients → Option (Access Recipients)
  | 0, _, _, _ => none
  | fuel + 1, n, ab, s =>
      if s.numBridges < maxBridgeSpam then
        match if ab = [] then b.activeBridges else ab with
        | [] => none
        | a :: ab =>
            if b.coin n then
              match s.put a with
              | .error fault => some (.error fault)
              | .ok s => pick fuel (n + 1) ab s
            else pick fuel (n + 1) ab s
      else some (.ok s)

/-- The array of recipients. -/
def recipients (fuel : Nat) : Option (Access Recipients) :=
  match store (Vector.replicate maxBridgeSpam 0) 0 b.findBridgeTo with
  | .error fault => some (.error fault)
  | .ok bridges =>
      if b.Known then some (.ok ⟨bridges, 1⟩)
      else if b.activeBridges = [] then some (.ok ⟨bridges, 0⟩)
      else if b.activeBridges.length ≤ maxBridgeSpam then some (b.activeBridges.foldlM Recipients.put ⟨bridges, 0⟩)
      else b.pick fuel 0 b.activeBridges ⟨bridges, 0⟩

/-- `onLocalEthernet` from here on: the packets that are sent, with what `filterOutgoingPacket` answers without a
destination and for each. -/
def onLocalEthernet (s : Sender) (frame : Frames.Frame) (filterOutgoingPacket : Option Address → Bool) (fuel : Nat) :
    Option (Access (List Layout)) :=
  if filterOutgoingPacket none then
    (b.recipients fuel).map fun found => do
      let bridges ← (← found).listed
      return (bridges.filter fun bridge => filterOutgoingPacket (some bridge)).map (toBridge s frame)
  else some (.ok [])

end Bridged

section Arrays

variable {s : Recipients}

/-- The recipients that are in the array. -/
def Recipients.taken (s : Recipients) : List Address := s.bridges.toList.take s.numBridges

theorem Recipients.put_inside {a : Address} (room : s.numBridges < maxBridgeSpam) :
    ∃ after, s.put a = .ok after ∧ after.numBridges = s.numBridges + 1 ∧ after.taken = s.taken ++ [a] := by
  refine ⟨⟨s.bridges.set s.numBridges a, s.numBridges + 1⟩, ?_, rfl, ?_⟩
  · rw [Recipients.put, store_inside s.bridges a room]
    rfl
  · have inside : s.numBridges < s.bridges.toList.length := by rwa [Vector.length_toList]
    rw [Recipients.taken, Recipients.taken, Vector.toList_set, List.take_add_one, List.getElem?_set_self inside,
      List.take_set_of_le (Nat.le_refl _)]
    rfl

theorem Recipients.putAll_inside (added : List Address) (room : s.numBridges + added.length ≤ maxBridgeSpam) :
    ∃ after, added.foldlM Recipients.put s = .ok after ∧ after.numBridges = s.numBridges + added.length ∧
      after.taken = s.taken ++ added := by
  induction added generalizing s with
  | nil => exact ⟨s, rfl, rfl, (List.append_nil _).symm⟩
  | cons a added ih =>
      rw [List.length_cons] at room
      obtain ⟨next, stored, count, contents⟩ := Recipients.put_inside (a := a) (by omega : s.numBridges < maxBridgeSpam)
      obtain ⟨after, rest, total, all⟩ := @ih next (by omega)
      refine ⟨after, ?_, ?_, ?_⟩
      · rw [List.foldlM_cons, stored]
        exact rest
      · rw [total, count, List.length_cons]
        omega
      · rw [all, contents, List.append_assoc, List.singleton_append]

theorem Recipients.listed_inside (inside : s.numBridges ≤ maxBridgeSpam) : s.listed = .ok s.taken := by
  have read (n : Nat) (small : n ≤ maxBridgeSpam) :
      (List.range n).mapM (load s.bridges) = .ok (s.bridges.toList.take n) := by
    induction n with
    | zero => rfl
    | succ n ih =>
        have here : n < s.bridges.toList.length := by rwa [Vector.length_toList]
        rw [List.range_succ, List.mapM_append, ih (by omega), List.take_add_one, List.getElem?_eq_getElem here]
        simp [load_inside s.bridges small]
        rfl
  exact read s.numBridges inside

end Arrays

section Picking

namespace Bridged

variable {b : Bridged}

/-- Where the walk stands after a step. -/
theorem next_position {active : List Address} (many : 1 < active.length) {n : Nat} {a : Address} {ab : List Address}
    (here : active.drop (n % active.length) = a :: ab) :
    active[n % active.length]? = some a ∧
      (if ab = [] then active else ab) = active.drop ((n + 1) % active.length) := by
  have inside : n % active.length < active.length := Nat.mod_lt _ (by omega)
  rw [List.drop_eq_getElem_cons inside, List.cons.injEq] at here
  obtain ⟨first, rest⟩ := here
  have one : 1 % active.length = 1 := Nat.mod_eq_of_lt many
  refine ⟨by rw [List.getElem?_eq_getElem inside, first], ?_⟩
  rw [Nat.add_mod, one]
  by_cases last : n % active.length + 1 = active.length
  · rw [last, List.drop_length] at rest
    rw [last, Nat.mod_self, List.drop_zero, if_pos rest.symm]
  · rw [Nat.mod_eq_of_lt (by omega : n % active.length + 1 < active.length), rest, if_neg]
    intro empty
    have length := congrArg List.length (rest.trans empty)
    rw [List.length_drop, List.length_nil] at length
    omega

/-- The loop ends with as many recipients as there is room for, those of the walk. -/
theorem pick_spec (many : 1 < b.activeBridges.length) (fuel n : Nat) (ab : List Address) (s : Recipients)
    (position : (if ab = [] then b.activeBridges else ab) = b.activeBridges.drop (n % b.activeBridges.length))
    (count : s.numBridges = (hits b.coin n).length) (room : s.numBridges ≤ maxBridgeSpam)
    (contents : s.taken = picked b.activeBridges b.coin n) {outcome : Access Recipients}
    (ended : b.pick fuel n ab s = some outcome) :
    ∃ steps after, outcome = .ok after ∧ after.numBridges = maxBridgeSpam ∧
      (hits b.coin steps).length = maxBridgeSpam ∧ after.taken = picked b.activeBridges b.coin steps := by
  induction fuel generalizing n ab s with
  | zero => cases ended
  | succ fuel ih =>
      rw [pick] at ended
      by_cases more : s.numBridges < maxBridgeSpam
      · rw [if_pos more, position] at ended
        cases here : b.activeBridges.drop (n % b.activeBridges.length) with
        | nil =>
            rw [here] at ended
            cases ended
        | cons a rest =>
            obtain ⟨element, moved⟩ := next_position many here
            rw [here] at ended
            dsimp only at ended
            by_cases hit : b.coin n = true
            · obtain ⟨next, stored, counted, added⟩ := Recipients.put_inside (a := a) more
              rw [if_pos hit, stored] at ended
              apply ih (n + 1) rest next moved
              · rw [counted, count, hits_succ, if_pos hit, List.length_append, List.length_singleton]
              · omega
              · rw [added, contents, picked_hit hit element]
              · exact ended
            · rw [if_neg hit] at ended
              apply ih (n + 1) rest s moved
              · rw [count, hits_succ, if_neg hit, List.append_nil]
              · exact room
              · rw [contents, picked_miss hit]
              · exact ended
      · rw [if_neg more, Option.some.injEq] at ended
        have full : s.numBridges = maxBridgeSpam := by omega
        exact ⟨n, s, ended.symm, full, count ▸ full, contents⟩

end Bridged

end Picking

section Selection

namespace Bridged

/-- What the choice of recipients is meant to be. -/
structure Chooses (b : Bridged) (bridges : List Address) : Prop where
  known : b.Known → bridges = [b.findBridgeTo]
  all : ¬ b.Known → b.activeBridges.length ≤ maxBridgeSpam → bridges = b.activeBridges
  some : ¬ b.Known → maxBridgeSpam < b.activeBridges.length →
    bridges.length = maxBridgeSpam ∧ ∀ bridge ∈ bridges, bridge ∈ b.activeBridges
  distinct : bridges.Nodup

/-- Among the draws that pick a bridge, the first `maxBridgeSpam` do not pick one twice. -/
def Apart (b : Bridged) : Prop :=
  ∀ i j, i < j → b.coin i = true → b.coin j = true → (hits b.coin j).length < maxBridgeSpam →
    b.activeBridges[i % b.activeBridges.length]? ≠ b.activeBridges[j % b.activeBridges.length]?

variable {b : Bridged}

theorem chooses_of_known (known : b.Known) : b.Chooses [b.findBridgeTo] where
  known := fun _ => rfl
  all := fun unknown => absurd known unknown
  some := fun unknown => absurd known unknown
  distinct := List.nodup_singleton _

theorem chooses_all_iff (unknown : ¬ b.Known) (few : b.activeBridges.length ≤ maxBridgeSpam) :
    b.Chooses b.activeBridges ↔ b.activeBridges.Nodup := by
  constructor
  · exact Chooses.distinct
  · intro distinct
    exact ⟨fun known => absurd known unknown, fun _ _ => rfl, fun _ many => absurd few (Nat.not_le.mpr many), distinct⟩

theorem chooses_picked_iff (unknown : ¬ b.Known) (many : maxBridgeSpam < b.activeBridges.length) {steps : Nat}
    (enough : (hits b.coin steps).length = maxBridgeSpam) :
    b.Chooses (picked b.activeBridges b.coin steps) ↔ b.Apart := by
  have nonempty : b.activeBridges ≠ [] := List.ne_nil_of_length_pos (Nat.zero_lt_of_lt many)
  have distinct := @nodup_picked_iff _ b.activeBridges b.coin nonempty steps
  rw [enough] at distinct
  constructor
  · exact fun chooses => distinct.mp chooses.distinct
  · intro apart
    constructor
    · exact fun known => absurd known unknown
    · exact fun _ few => absurd few (Nat.not_le.mpr many)
    · exact fun _ _ => ⟨(length_picked nonempty steps).trans enough, picked_subset⟩
    · exact distinct.mpr apart

/-- The array of recipients stays inside its bounds, and holds the bridges that it is meant to hold or, of many, some
twice. -/
theorem recipients_spec {fuel : Nat} {outcome : Access Recipients} (ended : b.recipients fuel = some outcome) :
    ∃ after, outcome = .ok after ∧ after.listed = .ok after.taken ∧
      (b.Chooses after.taken ↔ b.Known ∨ (b.activeBridges.length ≤ maxBridgeSpam ∧ b.activeBridges.Nodup) ∨
        (maxBridgeSpam < b.activeBridges.length ∧ b.Apart)) := by
  rw [recipients, store_inside _ _ (by decide)] at ended
  dsimp only at ended
  obtain ⟨bridges, filled⟩ : ∃ bridges : Vector Address maxBridgeSpam,
      (Vector.replicate maxBridgeSpam 0).set 0 b.findBridgeTo = bridges := ⟨_, rfl⟩
  rw [filled] at ended
  by_cases known : b.Known
  · rw [if_pos known, Option.some.injEq] at ended
    have alone : (⟨bridges, 1⟩ : Recipients).taken = [b.findBridgeTo] := by
      rw [← filled]
      rfl
    refine ⟨⟨bridges, 1⟩, ended.symm, Recipients.listed_inside (Nat.le_add_left 1 31), ?_⟩
    rw [alone]
    exact iff_of_true (chooses_of_known known) (.inl known)
  · rw [if_neg known] at ended
    by_cases few : b.activeBridges.length ≤ maxBridgeSpam
    · have stored : some (b.activeBridges.foldlM Recipients.put ⟨bridges, 0⟩) = some outcome := by
        by_cases empty : b.activeBridges = []
        · rw [if_pos empty] at ended
          rw [empty]
          exact ended
        · rwa [if_neg empty, if_pos few] at ended
      obtain ⟨after, added, count, contents⟩ := @Recipients.putAll_inside ⟨bridges, 0⟩ b.activeBridges (by simpa using few)
      rw [added, Option.some.injEq] at stored
      have all : after.taken = b.activeBridges := contents
      refine ⟨after, stored.symm, Recipients.listed_inside (by rw [count]; simpa using few), ?_⟩
      rw [all, chooses_all_iff known few]
      constructor
      · exact fun distinct => .inr (.inl ⟨few, distinct⟩)
      · rintro (wrong | ⟨-, distinct⟩ | ⟨many, -⟩)
        · exact absurd wrong known
        · exact distinct
        · exact absurd few (Nat.not_le.mpr many)
    · have many : maxBridgeSpam < b.activeBridges.length := Nat.not_le.mp few
      have nonempty : b.activeBridges ≠ [] := List.ne_nil_of_length_pos (Nat.zero_lt_of_lt many)
      rw [if_neg nonempty, if_neg few] at ended
      obtain ⟨steps, after, result, full, enough, contents⟩ := pick_spec (Nat.lt_trans (by decide) many) fuel 0
        b.activeBridges ⟨bridges, 0⟩ (by rw [if_neg nonempty, Nat.zero_mod, List.drop_zero]) rfl (Nat.zero_le _) rfl ended
      refine ⟨after, result, Recipients.listed_inside full.le, ?_⟩
      rw [contents, chooses_picked_iff known many enough]
      constructor
      · exact fun apart => .inr (.inr ⟨many, apart⟩)
      · rintro (wrong | ⟨less, -⟩ | ⟨-, apart⟩)
        · exact absurd wrong known
        · exact absurd less few
        · exact apart

/-- The frame goes to those of the recipients it is meant for that the rules let it go to, once to each. -/
def Delivers (b : Bridged) (s : Sender) (frame : Frames.Frame) (filterOutgoingPacket : Option Address → Bool)
    (fuel : Nat) : Prop :=
  ∃ found bridges, b.recipients fuel = some (.ok found) ∧ found.listed = .ok bridges ∧ b.Chooses bridges ∧
    b.onLocalEthernet s frame filterOutgoingPacket fuel = some (.ok (if filterOutgoingPacket none then
      (bridges.filter fun bridge => filterOutgoingPacket (some bridge)).map (toBridge s frame) else []))

/-- It does so exactly if the bridge is known, or the list of active bridges is short and names none twice, or no bridge
of a long list is picked twice. -/
theorem bridged_frames_iff (b : Bridged) (s : Sender) (frame : Frames.Frame) (filterOutgoingPacket : Option Address → Bool)
    (fuel : Nat) (ends : (b.recipients fuel).isSome) :
    b.Delivers s frame filterOutgoingPacket fuel ↔
      b.Known ∨ (b.activeBridges.length ≤ maxBridgeSpam ∧ b.activeBridges.Nodup) ∨
        (maxBridgeSpam < b.activeBridges.length ∧ b.Apart) := by
  obtain ⟨outcome, ended⟩ := Option.isSome_iff_exists.mp ends
  obtain ⟨after, result, read, choice⟩ := recipients_spec ended
  subst result
  rw [← choice]
  constructor
  · intro ⟨found, bridges, same, listed, chooses, _⟩
    rw [ended, Option.some.injEq, Except.ok.injEq] at same
    subst same
    rw [read, Except.ok.injEq] at listed
    exact listed ▸ chooses
  · intro chooses
    refine ⟨after, after.taken, ended, read, chooses, ?_⟩
    rw [onLocalEthernet, ended]
    by_cases passes : filterOutgoingPacket none = true
    · rw [if_pos passes, if_pos passes, Option.map_some]
      show some (after.listed >>= _) = _
      rw [read]
      rfl
    · rw [if_neg passes, if_neg passes]

/-- A list of active bridges with the addresses from 1 on, no route, and a coin that says no at the tosses `tails`. -/
def crowd (size : Nat) (tails : List Nat) : Bridged where
  self := 0x8056c2e21c
  findBridgeTo := 0
  config := { NetworkConfig.nil with specialists := (List.range size).map fun i => 0x20000000001 + BitVec.ofNat 64 i }
  prng := fun i => if i ∈ tails then 1 else 0

def sample : Frames.Frame := ⟨0x020000000001, 0x020000000002, 0x0800, [0x45]⟩

theorem crowd_of_two : (crowd 2 []).Delivers ⟨0x8056c2e21c, 0x8056c2e21c000001, 1, 2⟩ sample (fun _ => true) 0 :=
  (bridged_frames_iff _ _ _ _ 0 (by decide +kernel)).mpr (.inr (.inl (by decide +kernel)))

/-- Of 33 bridges the first is picked again, after the last two were not. -/
theorem crowd_picks_first_twice : ((crowd 33 [31, 32]).recipients 35).isSome ∧
    ¬ (crowd 33 [31, 32]).Delivers ⟨0x8056c2e21c, 0x8056c2e21c000001, 1, 2⟩ sample (fun _ => true) 35 := by
  refine ⟨by decide +kernel, ?_⟩
  intro ⟨found, bridges, ended, listed, chooses, _⟩
  obtain ⟨after, result, read, choice⟩ := recipients_spec ended
  rw [Except.ok.injEq] at result
  subst result
  rw [read, Except.ok.injEq] at listed
  rcases choice.mp (listed ▸ chooses) with known | ⟨few, -⟩ | ⟨-, apart⟩
  · exact absurd known (by decide +kernel)
  · exact absurd few (by decide +kernel)
  · exact apart 0 33 (by decide) (by decide +kernel) (by decide +kernel) (by decide +kernel) (by decide +kernel)

end Bridged

end Selection

end ZeroTierNode.BridgeSpam

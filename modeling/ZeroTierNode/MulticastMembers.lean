import ZeroTierNode.Library.OrderedArrays
import ZeroTierNode.MulticastDelivery

/-!
The database of multicast members: the vectors that `Multicaster` keeps for the groups
of all networks. A member is found by binary search, and `clean` moves the members that
stay to the front of their vector. What is sent to a new member is left out.
-/

namespace ZeroTierNode.MulticastMembers
open Library.Bytes Library.OrderedArrays Library.Runs MulticastLikes MulticastDelivery

/-- The node's own address, and the size that its memory allows for a vector of members. Sizes are 32-bit numbers. -/
structure Node where
  self : Address
  maxSize : Nat
  narrow : maxSize < 2 ^ 32

/-- `MulticastGroupStatus`. -/
structure Group where
  members : List MulticastGroupMember := []
  txQueue : List Queued := []

/-- The group as `_doMULTICAST_LIKE` sees it. -/
def Group.status (gs : Group) : MulticastGroupStatus := ⟨gs.members, gs.txQueue.map Queued.out⟩

/-- `_groups`. -/
abbrev Database := BitVec 64 → MulticastGroup → Option Group

/-- A member that is new, at the place found for it; a vector that cannot grow throws. -/
def Group.insert (node : Node) (now : Int) (gs : Group) (m : Nat) (member : Address) : Group × Bool :=
  if gs.members.length < node.maxSize then
    (⟨gs.members.insertIdx m ⟨member, now⟩, flushQueue member gs.txQueue⟩, true)
  else (gs, false)

/-- `_add`, and whether it returns. -/
def Group.add (node : Node) (now : Int) (gs : Group) (member : Address) : Group × Bool :=
  if member = node.self then (gs, true)
  else
    let m := lowerBound (fun other => other.address < member) gs.members
    match gs.members[m]? with
    | some found =>
        if found.address = member then ({ gs with members := gs.members.set m { found with timestamp := now } }, true)
        else gs.insert node now m member
    | none => gs.insert node now gs.members.length member

/-- The address fields of a binary array. -/
def addressFields : List Byte → List Address
  | a :: b :: c :: d :: e :: rest => wordOf 40 [a, b, c, d, e] :: addressFields rest
  | _ => []

/-- The loop of `addMultiple`, up to the first `_add` that throws. -/
def Group.addAll (node : Node) (now : Int) (gs : Group) : List Address → Group × Bool
  | [] => (gs, true)
  | member :: rest =>
      if (gs.add node now member).2 then (gs.add node now member).1.addAll node now rest
      else gs.add node now member

/-- `remove`, in a group that exists. -/
def Group.remove (gs : Group) (member : Address) : Group :=
  { gs with members := gs.members.eraseIdx (gs.members.findIdx fun m => m.address = member) }

/-- `clean` of one group, with `ZT_MULTICAST_LIKE_EXPIRE` of 600000; none if the group is erased. -/
def Group.clean (now : Int) (gs : Group) : Option Group :=
  let txQueue := gs.txQueue.filter fun tx => ¬ (tx.expired now ∨ tx.out.atLimit)
  let (members, count) := compact (fun m => now - m.timestamp < 600000) gs.members.length 0 0 gs.members
  if count ≠ 0 then some ⟨members.take count, txQueue⟩
  else if txQueue.isEmpty then none
  else some ⟨[], txQueue⟩

namespace Database

/-- The entry of one group replaced. -/
def put (db : Database) (nwid : BitVec 64) (mg : MulticastGroup) (entry : Option Group) : Database :=
  Function.update db nwid (Function.update (db nwid) mg entry)

/-- `_groups[Multicaster::Key(nwid, mg)]`, which creates a missing group, and what is then done with the group. -/
def modify (db : Database) (nwid : BitVec 64) (mg : MulticastGroup) (change : Group → Group) : Database :=
  db.put nwid mg (some (change ((db nwid mg).getD {})))

end Database

/-- The calls that change the database. The array of `addMultiple` has five bytes for every address. -/
inductive Op
  | add (now : Int) (nwid : BitVec 64) (mg : MulticastGroup) (member : Address)
  | addMultiple (now : Int) (nwid : BitVec 64) (mg : MulticastGroup) (addresses : List Byte)
  | remove (nwid : BitVec 64) (mg : MulticastGroup) (member : Address)
  | clean (now : Int)

/-- One call. -/
def step (node : Node) (db : Database) : Op → Database
  | .add now nwid mg member => db.modify nwid mg fun gs => (gs.add node now member).1
  | .addMultiple now nwid mg addresses =>
      db.modify nwid mg fun gs => (gs.addAll node now (addressFields addresses)).1
  | .remove nwid mg member => db.put nwid mg ((db nwid mg).map fun gs => gs.remove member)
  | .clean now => fun nwid mg => (db nwid mg).bind (Group.clean now)

/-- The addresses of the members. -/
def Group.addresses (gs : Group) : List Address := gs.members.map MulticastGroupMember.address

/-- The addresses that a group's vector holds. -/
def Database.addresses (db : Database) (nwid : BitVec 64) (mg : MulticastGroup) : List Address :=
  ((db nwid mg).getD {}).addresses

/-- The vector is strictly increasing, this node is not in it, and it is not larger than memory allows. -/
structure Group.Sound (node : Node) (gs : Group) : Prop where
  increasing : gs.addresses.Pairwise (· < ·)
  other : node.self ∉ gs.addresses
  sized : gs.addresses.length ≤ node.maxSize

namespace Group

variable {node : Node} {now : Int} {gs : Group}

theorem sound_empty (node : Node) : Sound node {} := ⟨List.Pairwise.nil, List.not_mem_nil, Nat.zero_le _⟩

/-- Members that leave do no harm. -/
theorem Sound.sublist {left : Group} (sound : gs.Sound node) (fewer : left.members.Sublist gs.members) :
    left.Sound node := by
  have addresses : left.addresses.Sublist gs.addresses := fewer.map _
  exact ⟨sound.increasing.sublist addresses, fun here => sound.other (addresses.subset here),
    Nat.le_trans addresses.length_le sound.sized⟩

/-- The members in front of the place that the search finds, and those behind it. -/
theorem Sound.splits (sound : gs.Sound node) (member : Address) :
    ∃ front back, gs.members = front ++ back ∧ (∀ m ∈ front, m.address < member) ∧
      (∀ m ∈ back, member ≤ m.address) ∧
      lowerBound (fun other => other.address < member) gs.members = front.length := by
  have whole : gs.members.takeWhile (fun m => m.address < member) ++ gs.members.dropWhile (fun m => m.address < member) =
      gs.members := List.takeWhile_append_dropWhile
  have smaller : ∀ m ∈ gs.members.takeWhile (fun m => m.address < member), m.address < member := by
    intro m found
    simpa using List.all_eq_true.mp List.all_takeWhile m found
  have larger : ∀ m ∈ gs.members.dropWhile (fun m => m.address < member), member ≤ m.address := by
    have increasing := sound.increasing
    unfold addresses at increasing
    rw [← whole, List.map_append, List.pairwise_append] at increasing
    have behind := increasing.2.1
    have head := List.head?_dropWhile_not (fun m : MulticastGroupMember => decide (m.address < member)) gs.members
    cases rest : gs.members.dropWhile (fun m => m.address < member) with
    | nil => exact fun m found => absurd found List.not_mem_nil
    | cons first later =>
        rw [rest] at behind head
        have notBelow : member ≤ first.address := by simpa using head
        intro m found
        cases List.mem_cons.mp found with
        | inl same => rwa [same]
        | inr listed =>
            have above := (List.pairwise_cons.mp behind).1 m.address (List.mem_map_of_mem listed)
            rw [BitVec.le_def] at notBelow ⊢
            rw [BitVec.lt_def] at above
            omega
  refine ⟨_, _, whole.symm, smaller, larger, ?_⟩
  have border := @lowerBound_eq _ (fun other : MulticastGroupMember => decide (other.address < member)) _ _
    (fun m found => decide_eq_true (smaller m found))
    (fun m found => decide_eq_false (BitVec.not_lt.mpr (larger m found)))
  rwa [whole] at border

/-- A member that is new stands between those in front and those behind. -/
theorem Sound.insert {front back : List MulticastGroupMember} {member : Address} (sound : gs.Sound node)
    (whole : gs.members = front ++ back) (smaller : ∀ m ∈ front, m.address < member)
    (larger : ∀ m ∈ back, member < m.address) (foreign : member ≠ node.self) :
    (gs.insert node now front.length member).1.Sound node := by
  unfold Group.insert
  split
  · rename_i room
    have placed : gs.members.insertIdx front.length ⟨member, now⟩ = front ++ ⟨member, now⟩ :: back := by
      rw [whole]
      exact insertIdx_border front back _
    have increasing := sound.increasing
    have foreigners := sound.other
    unfold addresses at increasing foreigners
    rw [whole, List.map_append] at increasing foreigners
    obtain ⟨before, behind, between⟩ := List.pairwise_append.mp increasing
    rw [placed]
    refine ⟨?_, ?_, ?_⟩
    · unfold addresses
      rw [List.map_append, List.map_cons, List.pairwise_append, List.pairwise_cons]
      refine ⟨before, ⟨?_, behind⟩, ?_⟩
      · intro address found
        obtain ⟨m, listed, rfl⟩ := List.mem_map.mp found
        exact larger m listed
      · intro first early address found
        cases List.mem_cons.mp found with
        | inl same =>
            obtain ⟨m, listed, rfl⟩ := List.mem_map.mp early
            rw [same]
            exact smaller m listed
        | inr listed => exact between first early address listed
    · unfold addresses
      rw [List.map_append, List.map_cons]
      intro here
      cases List.mem_append.mp here with
      | inl early => exact foreigners (List.mem_append_left _ early)
      | inr found =>
          cases List.mem_cons.mp found with
          | inl same => exact foreign same.symm
          | inr late => exact foreigners (List.mem_append_right _ late)
    · unfold addresses
      rw [whole] at room
      simp only [List.length_map, List.length_append, List.length_cons] at room ⊢
      omega
  · exact sound

theorem Sound.add (sound : gs.Sound node) (now : Int) (member : Address) : (gs.add node now member).1.Sound node := by
  unfold Group.add
  by_cases own : member = node.self
  · rw [if_pos own]
    exact sound
  · obtain ⟨front, back, whole, smaller, larger, border⟩ := sound.splits member
    rw [if_neg own, border]
    dsimp only
    cases back with
    | nil =>
        have behind : gs.members[front.length]? = none := by simp [whole]
        have last : gs.members.length = front.length := by simp [whole]
        rw [behind, last]
        exact sound.insert whole smaller (fun m found => absurd found List.not_mem_nil) own
    | cons first back =>
        have here : gs.members[front.length]? = some first := by simp [whole]
        rw [here]
        dsimp only
        by_cases known : first.address = member
        · have same : Group.addresses { gs with members := gs.members.set front.length { first with timestamp := now } } =
              gs.addresses := by
            unfold addresses
            simp [whole]
          rw [if_pos known]
          exact ⟨same ▸ sound.increasing, same ▸ sound.other, same ▸ sound.sized⟩
        · rw [if_neg known]
          have above : member < first.address := by
            have least := larger first List.mem_cons_self
            rw [BitVec.le_def] at least
            rw [BitVec.lt_def]
            have different : first.address.toNat ≠ member.toNat := fun same => known (BitVec.eq_of_toNat_eq same)
            omega
          have increasing := sound.increasing
          unfold addresses at increasing
          rw [whole, List.map_append, List.map_cons, List.pairwise_append, List.pairwise_cons] at increasing
          apply sound.insert whole smaller _ own
          intro m found
          cases List.mem_cons.mp found with
          | inl same => rwa [same]
          | inr late => exact BitVec.lt_trans above (increasing.2.1.1 m.address (List.mem_map_of_mem late))

/-- The search of `_add` finds the place among the members that are in order. -/
theorem Sound.add_status (sound : gs.Sound node) (now : Int) (member : Address)
    (room : gs.members.length < node.maxSize) :
    (gs.add node now member).1.status = addMember node.self now gs.status member := by
  unfold Group.add addMember
  by_cases own : member = node.self
  · rw [if_pos own, if_pos own]
  · obtain ⟨front, back, whole, smaller, larger, border⟩ := sound.splits member
    have low : ∀ m ∈ front, decide (m.address < member) = true := fun m found => decide_eq_true (smaller m found)
    have high : back.takeWhile (fun m => m.address < member) = [] ∧ back.dropWhile (fun m => m.address < member) = back := by
      cases back with
      | nil => exact ⟨rfl, rfl⟩
      | cons first back =>
          have above := decide_eq_false (BitVec.not_lt.mpr (larger first List.mem_cons_self))
          rw [List.takeWhile_cons, List.dropWhile_cons, above]
          exact ⟨rfl, rfl⟩
    have before : gs.status.members.takeWhile (fun m => m.address < member) = front := by
      rw [Group.status, whole, List.takeWhile_append_of_pos low, high.1, List.append_nil]
    have behind : gs.status.members.dropWhile (fun m => m.address < member) = back := by
      rw [Group.status, whole, List.dropWhile_append_of_pos low, high.2]
    rw [if_neg own, if_neg own, border, before, behind]
    dsimp only
    cases back with
    | nil =>
        have ends : gs.members[front.length]? = none := by simp [whole]
        have placed := insertIdx_border front [] (⟨member, now⟩ : MulticastGroupMember)
        rw [List.append_nil] at whole placed
        rw [ends]
        dsimp only
        rw [Group.insert, if_pos room, whole, placed, Group.status, flushQueue_out]
        rfl
    | cons first back =>
        have here : gs.members[front.length]? = some first := by simp [whole]
        rw [here]
        dsimp only
        by_cases known : first.address = member
        · rw [if_pos known, if_pos known]
          simp [Group.status, whole]
        · rw [if_neg known, if_neg known, Group.insert, if_pos room, whole, insertIdx_border]
          dsimp only
          rw [Group.status, flushQueue_out]
          rfl

theorem Sound.addAll (sound : gs.Sound node) (now : Int) (members : List Address) :
    (gs.addAll node now members).1.Sound node := by
  induction members generalizing gs with
  | nil => exact sound
  | cons member members ih =>
      unfold Group.addAll
      split
      · exact ih (sound.add now member)
      · exact sound.add now member

theorem Sound.remove (sound : gs.Sound node) (member : Address) : (gs.remove member).Sound node :=
  sound.sublist (List.eraseIdx_sublist _ _)

/-- What `clean` leaves in a group is what has not expired. -/
theorem clean_members {left : Group} (cleaned : gs.clean now = some left) :
    left.members = gs.members.filter fun m => now - m.timestamp < 600000 := by
  obtain ⟨count, kept⟩ := compact_filter (fun m : MulticastGroupMember => decide (now - m.timestamp < 600000)) gs.members
  unfold Group.clean at cleaned
  dsimp only at cleaned
  rw [count] at cleaned
  split at cleaned
  · cases cleaned
    exact kept
  · rename_i none_left
    split at cleaned
    · cases cleaned
    · cases cleaned
      exact (List.length_eq_zero_iff.mp (Decidable.not_not.mp none_left)).symm

theorem Sound.clean {left : Group} (sound : gs.Sound node) (cleaned : gs.clean now = some left) : left.Sound node := by
  apply sound.sublist
  rw [clean_members cleaned]
  exact List.filter_sublist

end Group

/-- All groups of a database are sound. -/
def Database.Sound (node : Node) (db : Database) : Prop := ∀ nwid mg gs, db nwid mg = some gs → gs.Sound node

namespace Database

variable {node : Node} {db : Database}

theorem Sound.put (sound : db.Sound node) {nwid : BitVec 64} {mg : MulticastGroup} {entry : Option Group}
    (kept : ∀ gs, entry = some gs → gs.Sound node) : (db.put nwid mg entry).Sound node := by
  intro other group gs found
  unfold Database.put at found
  by_cases network : other = nwid
  · subst network
    rw [Function.update_self] at found
    by_cases here : group = mg
    · subst here
      rw [Function.update_self] at found
      exact kept gs found
    · rw [Function.update_of_ne here] at found
      exact sound _ _ gs found
  · rw [Function.update_of_ne network] at found
    exact sound _ _ gs found

theorem Sound.group (sound : db.Sound node) (nwid : BitVec 64) (mg : MulticastGroup) :
    ((db nwid mg).getD {}).Sound node := by
  cases found : db nwid mg with
  | none => exact Group.sound_empty node
  | some gs => exact sound nwid mg gs found

theorem Sound.modify (sound : db.Sound node) (nwid : BitVec 64) (mg : MulticastGroup) {change : Group → Group}
    (kept : ∀ gs : Group, gs.Sound node → (change gs).Sound node) : (db.modify nwid mg change).Sound node := by
  apply sound.put
  intro gs changed
  cases changed
  exact kept _ (sound.group nwid mg)

/-- Every call keeps all groups sound. -/
theorem Sound.step (sound : db.Sound node) (op : Op) : (step node db op).Sound node := by
  cases op with
  | add now nwid mg member => exact sound.modify nwid mg fun gs holds => holds.add now member
  | addMultiple now nwid mg addresses =>
      exact sound.modify nwid mg fun gs holds => holds.addAll now (addressFields addresses)
  | remove nwid mg member =>
      apply sound.put
      intro gs removed
      obtain ⟨old, before, rfl⟩ := Option.map_eq_some_iff.mp removed
      exact (sound nwid mg old before).remove member
  | clean now =>
      intro nwid mg gs found
      obtain ⟨old, before, cleaned⟩ := Option.bind_eq_some_iff.mp found
      exact (sound nwid mg old before).clean cleaned

/-- A database that any calls have led to. -/
theorem sound_run (node : Node) (ops : List Op) : (run (MulticastMembers.step node) (fun _ _ => none) ops).Sound node :=
  run_preserves (fun _ op sound => sound.step op) (fun _ _ _ found => nomatch found)

end Database

end ZeroTierNode.MulticastMembers

import ZeroTierNode.PeerPaths

/-!
`Peer::doPingAndKeepalive`: the paths that it keeps and those that it contacts. The
loop fills a gap with the next path and goes on behind it, so that what is moved is
neither judged nor contacted.
-/

namespace ZeroTierNode.Keepalive
open Library.Packing PeerPaths

/-- `ZT_PEER_PING_PERIOD`. -/
abbrev peerPingPeriod : Int := 60000

/-- `_paths`: filled from the front, with priorities that are, as the field is documented, at least one. -/
structure PathTable where
  slots : List PeerPath
  packed : Packed PeerPath.p slots
  ranked : ∀ slot ∈ slots, 1 ≤ slot.priority

/-- `Path::needsHeartbeat`, with `_lastOut` of each path. -/
def needsHeartbeat (lastOut : PathObject → Int) (now : Int) (p : PathObject) : Bool :=
  heartbeatPeriod ≤ now - lastOut p

/-- What the loop does beside the table: it sets `_lastOut` of paths and gives paths to `attemptToContactAt`. -/
structure Contacts where
  lastOut : PathObject → Int
  contacted : List PathObject
  sent : BitVec 32

section Loop

variable (current : PeerPath → Bool) (now : Int) (sendFullHello : Bool)

/-- A path that is kept is contacted if it is time. -/
def contact (s : Contacts) (p : PathObject) : Contacts :=
  if sendFullHello ∨ needsHeartbeat s.lastOut now p then
    { lastOut := Function.update s.lastOut p now
      contacted := s.contacted ++ [p]
      sent := s.sent ||| (if p.address.family = .inet then 0x1 else 0x2) }
  else s

/-- The second loop over the last `n` indices. -/
def ping : Nat → List PeerPath → Contacts → List PeerPath × Contacts
  | 0, slots, s => (slots, s)
  | _ + 1, [], s => ([], s)
  | n + 1, slot :: slots, s =>
      if slot.p.isSome ∧ current slot then
        let rest := ping n slots (slot.p.elim s (contact now sendFullHello s))
        (slot :: rest.1, rest.2)
      else
        match takeFirst PeerPath.p PeerPath.new slots with
        | none =>
            let rest := ping n slots s
            ((if slot.p.isSome then PeerPath.new else slot) :: rest.1, rest.2)
        | some (first, others) =>
            let rest := ping n others s
            (first :: rest.1, rest.2)

/-- The table that is left is the one of `PeerPaths`. -/
theorem ping_fst (n : Nat) (slots : List PeerPath) (s : Contacts) :
    (ping current now sendFullHello n slots s).1 = clean current n slots := by
  induction n generalizing slots s with
  | zero => rfl
  | succ n ih =>
      cases slots with
      | nil => rfl
      | cons slot slots =>
          rw [ping, clean]
          by_cases stays : slot.p.isSome ∧ current slot
          · rw [if_pos stays, if_pos stays]
            exact congrArg (slot :: ·) (ih _ _)
          · rw [if_neg stays, if_neg stays]
            cases takeFirst PeerPath.p PeerPath.new slots with
            | none => exact congrArg (_ :: ·) (ih _ _)
            | some taken => exact congrArg (taken.1 :: ·) (ih _ _)

end Loop

/-- A peer, as far as the call is about it. -/
structure Peer where
  paths : PathTable
  lastSentFullHello : Int
  lastOut : PathObject → Int

namespace Peer

def sendsFullHello (peer : Peer) (now : Int) : Bool := peerPingPeriod ≤ now - peer.lastSentFullHello

/-- The paths that the loop is to keep. -/
def keeps (peer : Peer) (now : Int) (slot : PeerPath) : Bool :=
  now - slot.lr < pathExpiration ∧ slot.priority = maxPriority peer.paths.slots

/-- The loop of the call. -/
def pinged (peer : Peer) (now : Int) : List PeerPath × Contacts :=
  ping (peer.keeps now) now (peer.sendsFullHello now) peer.paths.slots.length peer.paths.slots ⟨peer.lastOut, [], 0⟩

theorem pinged_fst (peer : Peer) (now : Int) : (peer.pinged now).1 = keepalive now peer.paths.slots :=
  ping_fst ..

theorem pinged_packed (peer : Peer) (now : Int) : Packed PeerPath.p (peer.pinged now).1 := by
  rw [pinged_fst]
  exact (clean_spec _ _ rfl).1

theorem pinged_ranked (peer : Peer) (now : Int) : ∀ slot ∈ (peer.pinged now).1, 1 ≤ slot.priority := by
  rw [pinged_fst]
  exact keepalive_priorities (1 ≤ ·) le_rfl peer.paths.ranked now

/-- `Peer::doPingAndKeepalive` of a peer without a bond: the peer after it, the paths that are contacted, and the
families of their addresses. -/
def doPingAndKeepalive (peer : Peer) (now : Int) : Peer × List PathObject × BitVec 32 :=
  ({ paths := ⟨(peer.pinged now).1, peer.pinged_packed now, peer.pinged_ranked now⟩
     lastSentFullHello := if peer.sendsFullHello now then now else peer.lastSentFullHello
     lastOut := (peer.pinged now).2.lastOut },
    (peer.pinged now).2.contacted, (peer.pinged now).2.sent)

end Peer

section Turns

variable {current : PeerPath → Bool} {now : Int} {sendFullHello : Bool}

/-- Where nothing is left there is nothing to do. -/
theorem ping_empty (n : Nat) {slots : List PeerPath} (empty : ∀ slot ∈ slots, slot.p = none) (s : Contacts) :
    ping current now sendFullHello n slots s = (slots, s) := by
  induction n generalizing slots with
  | zero => rfl
  | succ n ih =>
      cases slots with
      | nil => rfl
      | cons slot slots =>
          have blank := empty slot List.mem_cons_self
          have others : ∀ other ∈ slots, other.p = none := fun other member =>
            empty other (List.mem_cons_of_mem _ member)
          have nothing : takeFirst PeerPath.p PeerPath.new slots = none := by
            cases taken : takeFirst PeerPath.p PeerPath.new slots with
            | none => rfl
            | some pair =>
                obtain ⟨source, filled, -⟩ := takeFirst_some rfl (taken.trans rfl : _ = some (pair.1, pair.2))
                rw [others _ source] at filled
                cases filled
          rw [ping, if_neg (by simp [blank]), nothing]
          simp [blank, ih others]

/-- Behind a gap every path moves up; none is judged, and none is contacted. -/
theorem ping_gap (n : Nat) {slot : PeerPath} {slots : List PeerPath} (length : slots.length = n)
    (gap : ¬ (slot.p.isSome ∧ current slot)) (s : Contacts) :
    ((ping current now sendFullHello (n + 1) (slot :: slots) s).1.filter fun slot => slot.p.isSome) =
        (slots.filter fun slot => slot.p.isSome) ∧
      (ping current now sendFullHello (n + 1) (slot :: slots) s).2 = s := by
  induction n generalizing slot slots with
  | zero =>
      rw [List.length_eq_zero_iff.mp length, ping, if_neg gap, takeFirst, ping]
      by_cases filled : slot.p.isSome = true
      · simp [filled, PeerPath.new]
      · simp [filled]
  | succ n ih =>
      rw [ping, if_neg gap]
      cases taken : takeFirst PeerPath.p PeerPath.new slots with
      | none =>
          have empty := takeFirst_none taken
          dsimp only
          rw [ping_empty _ empty]
          by_cases filled : slot.p.isSome = true
          · simp [filled, PeerPath.new]
          · simp [filled]
      | some pair =>
          obtain ⟨first, rest⟩ := pair
          obtain ⟨hole, others, rfl, blank⟩ := takeFirst_gap rfl taken
          obtain ⟨-, filled, same, -⟩ := takeFirst_some rfl taken
          have shorter : others.length = n := by
            rw [length, List.length_cons] at same
            exact Nat.succ.inj same
          have later := ih shorter (by simp [blank] : ¬ (hole.p.isSome ∧ current hole))
          have moved := takeFirst_filter rfl taken
          rw [List.filter_cons, blank, Option.isSome_none, if_neg Bool.false_ne_true] at moved
          dsimp only
          rw [moved, List.filter_cons, if_pos filled, later.1]
          exact ⟨rfl, later.2⟩

/-- The entries in front of the first that is not to be kept. -/
def front (current : PeerPath → Bool) (slots : List PeerPath) : List PeerPath :=
  slots.takeWhile fun slot => slot.p.isSome && current slot

/-- The entries behind the first that is not to be kept. -/
def behind (current : PeerPath → Bool) (slots : List PeerPath) : List PeerPath :=
  (slots.dropWhile fun slot => slot.p.isSome && current slot).tail

/-- The paths in front are kept and contacted in their order, those behind are kept. -/
theorem ping_spec (slots : List PeerPath) (s : Contacts) :
    ((ping current now sendFullHello slots.length slots s).1.filter fun slot => slot.p.isSome) =
        front current slots ++ (behind current slots).filter (fun slot => slot.p.isSome) ∧
      (ping current now sendFullHello slots.length slots s).2 =
        (values PeerPath.p (front current slots)).foldl (contact now sendFullHello) s := by
  induction slots generalizing s with
  | nil => exact ⟨rfl, rfl⟩
  | cons slot slots ih =>
      by_cases stays : slot.p.isSome ∧ current slot
      · obtain ⟨p, filled⟩ := Option.isSome_iff_exists.mp stays.1
        have here : (slot.p.isSome && current slot) = true := by simp [stays.1, stays.2]
        have later := ih (contact now sendFullHello s p)
        rw [List.length_cons, ping, if_pos stays, filled, Option.elim_some, front, behind, List.takeWhile_cons,
          List.dropWhile_cons, if_pos here, values_cons_some filled]
        dsimp only
        rw [here, List.filter_cons, if_pos stays.1, later.1]
        exact ⟨rfl, later.2⟩
      · have here : ¬ (slot.p.isSome && current slot) = true := by simpa using stays
        rw [front, behind, List.takeWhile_cons, List.dropWhile_cons, if_neg here, Bool.eq_false_iff.mpr here]
        exact ping_gap slots.length rfl stays s

theorem mem_contact {s : Contacts} {p q : PathObject} :
    p ∈ (contact now sendFullHello s q).contacted ↔
      p ∈ s.contacted ∨ p = q ∧ (sendFullHello ∨ needsHeartbeat s.lastOut now q) := by
  unfold contact
  by_cases due : sendFullHello ∨ needsHeartbeat s.lastOut now q
  · rw [if_pos due, and_iff_left due, List.mem_append, List.mem_singleton]
  · rw [if_neg due, or_iff_left fun wrong => due wrong.2]

theorem lastOut_contact {s : Contacts} {p q : PathObject} (other : p ≠ q) :
    (contact now sendFullHello s q).lastOut p = s.lastOut p := by
  unfold contact
  by_cases due : sendFullHello ∨ needsHeartbeat s.lastOut now q
  · rw [if_pos due]
    exact Function.update_of_ne other _ _
  · rw [if_neg due]

/-- A path is contacted if it was time before the call. -/
theorem mem_contacted (found : List PathObject) (s : Contacts) (p : PathObject) :
    p ∈ (found.foldl (contact now sendFullHello) s).contacted ↔
      p ∈ s.contacted ∨ p ∈ found ∧ (sendFullHello ∨ needsHeartbeat s.lastOut now p) := by
  induction found generalizing s with
  | nil => simp
  | cons q found ih =>
      rw [List.foldl_cons, ih, mem_contact, List.mem_cons]
      by_cases same : p = q
      · subst same
        by_cases due : sendFullHello ∨ needsHeartbeat s.lastOut now p
        · simp [due]
        · have unchanged : contact now sendFullHello s p = s := if_neg due
          rw [unchanged]
          simp [due]
      · have unchanged : needsHeartbeat (contact now sendFullHello s q).lastOut now p = needsHeartbeat s.lastOut now p := by
          rw [needsHeartbeat, needsHeartbeat, lastOut_contact same]
        rw [unchanged]
        simp [same]

end Turns

theorem span_congr {α : Type} {first second : α → Bool} {elements : List α}
    (same : ∀ x ∈ elements, first x = second x) :
    elements.takeWhile first = elements.takeWhile second ∧ elements.dropWhile first = elements.dropWhile second := by
  induction elements with
  | nil => exact ⟨rfl, rfl⟩
  | cons x elements ih =>
      obtain ⟨taken, dropped⟩ := ih fun y member => same y (List.mem_cons_of_mem _ member)
      rw [List.takeWhile_cons, List.takeWhile_cons, List.dropWhile_cons, List.dropWhile_cons,
        same x List.mem_cons_self, taken, dropped]
      exact ⟨rfl, rfl⟩

section Priorities

theorem foldl_max_le_iff (slots : List PeerPath) (least bound : Int) :
    slots.foldl (fun most slot => max slot.priority most) least ≤ bound ↔
      least ≤ bound ∧ ∀ slot ∈ slots, slot.priority ≤ bound := by
  induction slots generalizing least with
  | nil => simp
  | cons slot slots ih =>
      rw [List.foldl_cons, ih, List.forall_mem_cons, max_le_iff]
      tauto

theorem PathTable.le_maxPriority (t : PathTable) {slot : PeerPath} (member : slot ∈ t.slots)
    (present : slot.p.isSome) : slot.priority ≤ maxPriority t.slots := by
  rw [maxPriority, t.packed.takeWhile_eq_filter]
  exact ((foldl_max_le_iff _ _ _).mp le_rfl).2 slot (List.mem_filter.mpr ⟨member, present⟩)

/-- The maximum is taken over all paths. -/
theorem PathTable.maxPriority_le_iff (t : PathTable) {bound : Int} (positive : 1 ≤ bound) :
    maxPriority t.slots ≤ bound ↔ ∀ slot ∈ t.slots, slot.p.isSome → slot.priority ≤ bound := by
  rw [maxPriority, t.packed.takeWhile_eq_filter, foldl_max_le_iff, and_iff_right (by omega)]
  simp only [List.mem_filter, and_imp]

end Priorities

/-- Unexpired, and of the maximum priority among the paths that are present. -/
def Current (t : PathTable) (now : Int) (slot : PeerPath) : Prop :=
  slot.p.isSome ∧ now - slot.lr < pathExpiration ∧ ∀ other ∈ t.slots, other.p.isSome → other.priority ≤ slot.priority

instance Current.decidable (t : PathTable) (now : Int) (slot : PeerPath) : Decidable (Current t now slot) :=
  inferInstanceAs (Decidable (_ ∧ _ ∧ _))

/-- What the loop looks for is what it is meant to. -/
theorem keeps_iff (peer : Peer) (now : Int) {slot : PeerPath} (member : slot ∈ peer.paths.slots) :
    (slot.p.isSome && peer.keeps now slot) = true ↔ Current peer.paths now slot := by
  rw [Bool.and_eq_true, Peer.keeps, decide_eq_true_iff, Current]
  apply and_congr_right
  intro present
  apply and_congr_right
  intro _
  have least := peer.paths.le_maxPriority member present
  rw [← peer.paths.maxPriority_le_iff (peer.paths.ranked slot member)]
  omega

namespace Peer

/-- A full HELLO is due, or the path needs a heartbeat. -/
def Due (peer : Peer) (now : Int) (p : PathObject) : Prop :=
  peerPingPeriod ≤ now - peer.lastSentFullHello ∨ heartbeatPeriod ≤ now - peer.lastOut p

/-- What a call is meant to do. -/
structure KeepsAlive (peer : Peer) (now : Int) : Prop where
  current : ∀ slot ∈ (peer.doPingAndKeepalive now).1.paths.slots, slot.p.isSome → Current peer.paths now slot
  kept : ∀ slot ∈ peer.paths.slots, Current peer.paths now slot → slot ∈ (peer.doPingAndKeepalive now).1.paths.slots
  contacted : ∀ slot ∈ (peer.doPingAndKeepalive now).1.paths.slots, ∀ p, slot.p = some p → peer.Due now p →
    p ∈ (peer.doPingAndKeepalive now).2.1

/-- The paths in front of the first that is expired or of a lower priority. -/
def judged (peer : Peer) (now : Int) : List PeerPath :=
  peer.paths.slots.takeWhile fun slot => Current peer.paths now slot

/-- The entries behind the first that is expired or of a lower priority. -/
def unjudged (peer : Peer) (now : Int) : List PeerPath :=
  (peer.paths.slots.dropWhile fun slot => Current peer.paths now slot).tail

theorem judged_eq (peer : Peer) (now : Int) :
    front (peer.keeps now) peer.paths.slots = peer.judged now ∧
      behind (peer.keeps now) peer.paths.slots = peer.unjudged now := by
  have cut := span_congr fun slot member =>
    Bool.eq_iff_iff.mpr ((keeps_iff peer now member).trans decide_eq_true_iff.symm)
  exact ⟨cut.1, congrArg List.tail cut.2⟩

theorem mem_after {peer : Peer} {now : Int} {slot : PeerPath} (present : slot.p.isSome) :
    slot ∈ (peer.doPingAndKeepalive now).1.paths.slots ↔ slot ∈ peer.judged now ∨ slot ∈ peer.unjudged now := by
  have table := (@ping_spec (peer.keeps now) now (peer.sendsFullHello now) peer.paths.slots ⟨peer.lastOut, [], 0⟩).1
  rw [(judged_eq peer now).1, (judged_eq peer now).2] at table
  have listed : slot ∈ (peer.doPingAndKeepalive now).1.paths.slots ↔
      slot ∈ (peer.pinged now).1.filter fun slot => slot.p.isSome := by
    rw [List.mem_filter, and_iff_left present]
    rfl
  rw [listed, Peer.pinged, table, List.mem_append, List.mem_filter, and_iff_left present]

theorem mem_contacted_after {peer : Peer} {now : Int} {p : PathObject} :
    p ∈ (peer.doPingAndKeepalive now).2.1 ↔ (∃ slot ∈ peer.judged now, slot.p = some p) ∧ peer.Due now p := by
  have loop := (@ping_spec (peer.keeps now) now (peer.sendsFullHello now) peer.paths.slots ⟨peer.lastOut, [], 0⟩).2
  rw [(judged_eq peer now).1] at loop
  have contacted : (peer.doPingAndKeepalive now).2.1 = _ := congrArg Contacts.contacted loop
  rw [contacted, mem_contacted, mem_values, Due, Peer.sendsFullHello, needsHeartbeat]
  simp only [List.not_mem_nil, false_or, decide_eq_true_iff]

/-- The call does what it is meant to exactly if there is nothing to do for the paths that it does not look at. -/
theorem keeps_alive_iff (peer : Peer) (now : Int) :
    peer.KeepsAlive now ↔ ∀ slot ∈ peer.unjudged now, ∀ p, slot.p = some p →
      Current peer.paths now slot ∧ (peer.Due now p → ∃ first ∈ peer.judged now, first.p = some p) := by
  constructor
  · intro alive slot member p here
    have present : slot.p.isSome := Option.isSome_iff_exists.mpr ⟨p, here⟩
    have after := (mem_after present).mpr (.inr member)
    exact ⟨alive.current slot after present,
      fun due => (mem_contacted_after.mp (alive.contacted slot after p here due)).1⟩
  · intro settled
    constructor
    · intro slot member present
      cases (mem_after present).mp member with
      | inl first =>
          have looked := List.mem_takeWhile_imp first
          exact of_decide_eq_true looked
      | inr later =>
          obtain ⟨p, here⟩ := Option.isSome_iff_exists.mp present
          exact (settled slot later p here).1
    · intro slot member current
      rw [mem_after current.1]
      rw [← @List.takeWhile_append_dropWhile _ (fun slot => decide (Current peer.paths now slot)) peer.paths.slots,
        List.mem_append] at member
      apply member.imp_right
      intro rest
      cases cut : peer.paths.slots.dropWhile fun slot => decide (Current peer.paths now slot) with
      | nil =>
          rw [cut] at rest
          cases rest
      | cons first others =>
          -- the first of the rest is the one that the loop found wanting
          have wrong := List.head?_dropWhile_not (fun slot => decide (Current peer.paths now slot)) peer.paths.slots
          rw [cut] at rest
          rw [unjudged, cut]
          cases List.mem_cons.mp rest with
          | inl same =>
              subst same
              simp [cut, current] at wrong
          | inr later => exact later
    · intro slot member p here due
      rw [mem_contacted_after, and_iff_left due]
      have present : slot.p.isSome := Option.isSome_iff_exists.mpr ⟨p, here⟩
      cases (mem_after present).mp member with
      | inl first => exact ⟨slot, first, here⟩
      | inr later => exact (settled slot later p here).2 due

end Peer

/-- Two paths on which nothing was received for five minutes. -/
def stalePaths : List PeerPath :=
  ⟨0, some ⟨1, .v4 0x08080808 9993⟩, 1⟩ :: ⟨0, some ⟨1, .v4 0x08080404 9993⟩, 1⟩ :: List.replicate 62 PeerPath.new

theorem stalePaths_packed : Packed PeerPath.p stalePaths :=
  (packed_cons_some rfl).mpr ((packed_cons_some rfl).mpr (packed_replicate rfl 62))

theorem stalePaths_ranked : ∀ slot ∈ stalePaths, 1 ≤ slot.priority := by decide

def stalePeer : Peer where
  paths := ⟨stalePaths, stalePaths_packed, stalePaths_ranked⟩
  lastSentFullHello := 0
  lastOut := fun _ => 0

theorem stale_path_remains : ¬ ∀ (peer : Peer) (now : Int), peer.KeepsAlive now := by
  intro alive
  have table : (stalePeer.doPingAndKeepalive 300000).1.paths.slots = keepalive 300000 stalePaths :=
    stalePeer.pinged_fst 300000
  have moved : ⟨0, some ⟨1, .v4 0x08080404 9993⟩, 1⟩ ∈ (stalePeer.doPingAndKeepalive 300000).1.paths.slots := by
    rw [table]
    decide +kernel
  exact absurd ((alive stalePeer 300000).current _ moved rfl).2.1 (by decide)

end ZeroTierNode.Keepalive

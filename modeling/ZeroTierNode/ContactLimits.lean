import ZeroTierNode.DirectPaths
import ZeroTierNode.PeerPaths
import ZeroTierNode.Library.Quotas

/-!
How often one PUSH_DIRECT_PATHS makes a node contact its peer. The limit for a scope
and an address family is kept in eight bits, and the count goes on behind the limit.
-/

namespace ZeroTierNode.ContactLimits
open Library.Bytes Library.Quotas DirectPaths PeerPaths

/-- `ZT_PUSH_DIRECT_PATHS_MAX_PER_SCOPE_AND_FAMILY`. -/
abbrev maxPerScopeAndFamily : Nat := 8

/-- `ZT_PUSH_DIRECT_PATHS_CUTOFF_TIME`. -/
abbrev cutoffTime : Int := 30000

/-- `ZT_PUSH_DIRECT_PATHS_CUTOFF_LIMIT`. -/
abbrev cutoffLimit : BitVec 32 := 8

abbrev flagForgetPath : Byte := 0x01
abbrev flagClusterRedirect : Byte := 0x02

/-- What the rate gate of a peer remembers. -/
structure PushGate where
  lastDirectPathPushReceive : Int
  directPathPushCutoffCount : BitVec 32

/-- `Peer::rateGatePushDirectPaths`. -/
def rateGatePushDirectPaths (gate : PushGate) (now : Int) : Bool × PushGate :=
  let count := if now - gate.lastDirectPathPushReceive ≤ cutoffTime then gate.directPathPushCutoffCount + 1 else 0
  (decide (count < cutoffLimit), ⟨now, count⟩)

/-- `Peer::hasActivePathTo`. -/
def hasActivePathTo (now : Int) (addr : InetAddress) : List PeerPath → Bool
  | [] => false
  | slot :: slots =>
      match slot.p with
      | none => false
      | some p =>
          if now - slot.lr < pathExpiration ∧ p.address = addr then true else hasActivePathTo now addr slots

/-- The counter of an address. -/
abbrev Kind := InetAddress.IpScope × InetAddress.Family

def kind (a : InetAddress) : Kind := (a.ipScope, a.family)

/-- How a packet comes in, and the answers of `shouldUsePathForZeroTierTraffic` in the order of the questions. -/
structure Reception where
  now : Int
  localSocket : BitVec 64
  source : InetAddress
  usable : Nat → InetAddress → Bool

/-- The state of the loop: the peer, the questions asked so far, the counters, and the addresses given to
`attemptToContactAt`. -/
structure Contacts where
  peer : PeerPaths.State
  asked : Nat
  countPerScope : Kind → BitVec 8
  attempts : List InetAddress

section Loop

variable (r : Reception)

/-- `Peer::clusterRedirect`. -/
def redirected (peer : PeerPaths.State) (a : InetAddress) : PeerPaths.State :=
  PeerPaths.step peer (.clusterRedirect r.localSocket r.source a r.now)

/-- The first two of the conditions for an entry. -/
def wanted (peer : PeerPaths.State) (flags : Byte) (a : InetAddress) : Bool :=
  flags &&& flagForgetPath = 0 ∧ ¬ (flags &&& flagClusterRedirect = 0 ∧ hasActivePathTo r.now a peer.paths = true)

/-- What is done for an entry. -/
def visit (s : Contacts) (flags : Byte) (a : InetAddress) : Contacts :=
  if wanted r s.peer flags a then
    if r.usable s.asked a then
      if flags &&& flagClusterRedirect ≠ 0 then { s with peer := redirected r s.peer a, asked := s.asked + 1 }
      else
        let count := s.countPerScope (kind a) + 1
        { s with
          asked := s.asked + 1
          countPerScope := Function.update s.countPerScope (kind a) count
          attempts := if count.toNat ≤ maxPerScopeAndFamily then s.attempts ++ [a] else s.attempts }
    else { s with asked := s.asked + 1 }
  else s

/-- `_doPUSH_DIRECT_PATHS`: whether it ends without an exception, and what it has done by then. -/
def contact (gate : PushGate) (peer : PeerPaths.State) (packet : List Byte) : Bool × Contacts :=
  let s : Contacts := ⟨peer, 0, fun _ => 0, []⟩
  if (rateGatePushDirectPaths gate r.now).1 then doPUSH_DIRECT_PATHS (visit r) packet s else (true, s)

/-- The addresses of the entries that ask for contact and get it but for the limit: neither to be forgotten nor a
redirect, not known by then, and usable. -/
def eligible : PeerPaths.State → Nat → List (Byte × InetAddress) → List InetAddress
  | _, _, [] => []
  | peer, asked, (flags, a) :: rest =>
      if wanted r peer flags a then
        if r.usable asked a then
          if flags &&& flagClusterRedirect ≠ 0 then eligible (redirected r peer a) (asked + 1) rest
          else a :: eligible peer (asked + 1) rest
        else eligible peer (asked + 1) rest
      else eligible peer asked rest

end Loop

section Entries

variable {S : Type} (f : S → Byte → InetAddress → S)

/-- The loop does for each entry what it does, in their order. -/
theorem readPaths_eq_foldl (packet : List Byte) (count ptr : Nat) (before : List (Byte × InetAddress)) (s s' : S)
    (same : s' = before.foldl (fun s entry => f s entry.1 entry.2) s) :
    readPaths f packet count ptr s' =
      ((readPaths (fun found flags a => found ++ [(flags, a)]) packet count ptr before).1,
        (readPaths (fun found flags a => found ++ [(flags, a)]) packet count ptr before).2.foldl
          (fun s entry => f s entry.1 entry.2) s) := by
  induction count generalizing ptr before s' with
  | zero => rw [readPaths, readPaths, same]
  | succ count ih =>
      rw [readPaths, readPaths]
      cases readEntry packet ptr with
      | none => rw [same]
      | some entry =>
          obtain ⟨flags, a, ptr⟩ := entry
          dsimp only
          cases a with
          | none => exact ih ptr before s' same
          | some a =>
              apply ih ptr (before ++ [(flags, a)]) (f s' flags a)
              rw [List.foldl_append, ← same]
              rfl

theorem doPUSH_DIRECT_PATHS_eq_foldl (packet : List Byte) (s : S) :
    doPUSH_DIRECT_PATHS f packet s =
      ((entries packet).1, (entries packet).2.foldl (fun s entry => f s entry.1 entry.2) s) := by
  unfold entries doPUSH_DIRECT_PATHS
  cases Buffer.at16 packet 28 with
  | none => rfl
  | some count => exact readPaths_eq_foldl f packet count.toNat 30 [] s s rfl

/-- A turn of the loop adds at most one entry. -/
theorem readPaths_length (packet : List Byte) (count ptr : Nat) (before : List (Byte × InetAddress)) :
    (readPaths (fun found flags a => found ++ [(flags, a)]) packet count ptr before).2.length ≤
      before.length + count := by
  induction count generalizing ptr before with
  | zero => exact Nat.le_refl _
  | succ count ih =>
      rw [readPaths]
      cases readEntry packet ptr with
      | none => exact Nat.le_add_right _ _
      | some entry =>
          obtain ⟨flags, a, ptr⟩ := entry
          cases a with
          | none => exact (ih ptr before).trans (by omega)
          | some a =>
              have later := ih ptr (before ++ [(flags, a)])
              rw [List.length_append, List.length_singleton] at later
              exact later.trans (by omega)

theorem entries_length (packet : List Byte) : (entries packet).2.length < 2 ^ 16 := by
  unfold entries doPUSH_DIRECT_PATHS
  cases Buffer.at16 packet 28 with
  | none => exact Nat.two_pow_pos 16
  | some count =>
      have few := readPaths_length packet count.toNat 30 []
      rw [List.length_nil, Nat.zero_add] at few
      exact lt_of_le_of_lt few count.isLt

end Entries

section Limit

variable (r : Reception)

/-- The counters and the attempts are those of a quota over the eligible addresses. -/
theorem foldl_visit (found : List (Byte × InetAddress)) (s : Contacts) :
    (⟨(found.foldl (fun s entry => visit r s entry.1 entry.2) s).countPerScope,
      (found.foldl (fun s entry => visit r s entry.1 entry.2) s).attempts⟩ : Tally InetAddress Kind 8) =
      (eligible r s.peer s.asked found).foldl (Tally.take maxPerScopeAndFamily kind) ⟨s.countPerScope, s.attempts⟩ := by
  induction found generalizing s with
  | nil => rfl
  | cons entry found ih =>
      obtain ⟨flags, a⟩ := entry
      rw [List.foldl_cons, ih, eligible]
      by_cases asks : wanted r s.peer flags a = true
      · rw [if_pos asks, visit, if_pos asks]
        by_cases answer : r.usable s.asked a = true
        · rw [if_pos answer, if_pos answer]
          by_cases redirects : flags &&& flagClusterRedirect ≠ 0
          · rw [if_pos redirects, if_pos redirects]
          · rw [if_neg redirects, if_neg redirects]
            rfl
        · rw [if_neg answer, if_neg answer]
      · rw [if_neg asks, visit, if_neg asks]

/-- Behind the rate gate, the attempts are what a quota admits of the eligible addresses. -/
theorem attempts_eq (gate : PushGate) (peer : PeerPaths.State) (packet : List Byte)
    (passes : (rateGatePushDirectPaths gate r.now).1 = true) :
    (contact r gate peer packet).2.attempts =
      ((eligible r peer 0 (entries packet).2).foldl (Tally.take maxPerScopeAndFamily kind)
        (Tally.start : Tally InetAddress Kind 8)).admitted := by
  unfold contact
  rw [if_pos passes, doPUSH_DIRECT_PATHS_eq_foldl]
  exact congrArg Tally.admitted (foldl_visit r (entries packet).2 ⟨peer, 0, fun _ => 0, []⟩)

/-- The limit is kept exactly while the entries of a kind do not make its counter wrap around. -/
theorem contacts_limited_iff (gate : PushGate) (peer : PeerPaths.State) (packet : List Byte) :
    ((entries packet).2.length < 2 ^ 16 ∧ ∀ scope family,
      ((contact r gate peer packet).2.attempts.filter fun a => kind a = (scope, family)).length ≤ maxPerScopeAndFamily) ↔
      ((rateGatePushDirectPaths gate r.now).1 = true → ∀ scope family,
        ((eligible r peer 0 (entries packet).2).filter fun a => kind a = (scope, family)).length ≤ 255) := by
  rw [and_iff_right (entries_length packet)]
  by_cases passes : (rateGatePushDirectPaths gate r.now).1 = true
  · rw [forall_prop_of_true passes, attempts_eq r gate peer packet passes]
    apply forall_congr'
    intro scope
    apply forall_congr'
    intro family
    exact (within_quota_iff (by decide) (eligible r peer 0 (entries packet).2) (scope, family)).trans Nat.lt_succ_iff
  · unfold contact
    rw [if_neg passes]
    exact iff_of_true (fun _ _ => Nat.zero_le _) fun wrong => absurd wrong passes

/-- All the addresses of a packet are eligible where nothing is known and everything usable. -/
theorem eligible_of_stranger (usable : ∀ n a, r.usable n a = true) (peer : PeerPaths.State)
    (unknown : ∀ a, hasActivePathTo r.now a peer.paths = false) (found : List InetAddress) (asked : Nat) :
    eligible r peer asked (found.map fun a => (0, a)) = found := by
  induction found generalizing asked with
  | nil => rfl
  | cons a found ih =>
      have asks : wanted r peer 0 a = true := by
        rw [wanted, unknown]
        decide
      rw [List.map_cons, eligible, if_pos asks, if_pos (usable asked a), if_neg (by decide), ih]

end Limit

/-- As many global addresses as a counter of eight bits has values. -/
def crowd : List SockAddr := (List.range 256).map fun i => .inet (0x08080000 + BitVec.ofNat 32 i) 9993

def blankHeader : List Byte := List.replicate 28 0

def openGate : PushGate := ⟨-40000, 0⟩

def anywhere : Reception := ⟨1000, 1, .v4 0x01020304 9993, fun _ _ => true⟩

theorem crowd_exceeds_limit : ¬ ∀ (r : Reception) (gate : PushGate) (peer : PeerPaths.State) (packet : List Byte),
    (entries packet).2.length < 2 ^ 16 ∧ ∀ scope family,
      ((contact r gate peer packet).2.attempts.filter fun a => kind a = (scope, family)).length ≤
        maxPerScopeAndFamily := by
  intro limited
  have kept := (limited anywhere openGate (PeerPaths.start 64) (filled blankHeader crowd)).2 .global .inet
  have sound : CredentialPush.Header blankHeader := ⟨rfl, by decide⟩
  have sent : ∀ p ∈ crowd, p.address.isSome := by
    intro p member
    obtain ⟨i, -, rfl⟩ := List.mem_map.mp member
    rfl
  have read : (entries (filled blankHeader crowd)).2 = (addresses crowd).map fun a => (0, a) := by
    rw [entries, read_filled sound sent (by decide +kernel), foldl_listed, List.nil_append]
  rw [attempts_eq anywhere openGate _ _ (by decide), read,
    eligible_of_stranger anywhere (fun _ _ => rfl) _ (fun _ => rfl)] at kept
  have few := (within_quota_iff (by decide) (addresses crowd) ((.global, .inet) : Kind)).mp kept
  exact absurd few (by decide +kernel)

end ZeroTierNode.ContactLimits

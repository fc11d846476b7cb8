import ZeroTierNode.NodeRuns

/-!
The online status of the node: set by the ping check of the background tasks from
the last receive times of the upstreams, and reported when it changes.
-/

namespace ZeroTierNode.OnlineStatus
open Library.Runs Library.Stamps NodeRuns

/-- When something was heard from one of the upstreams. -/
def fromUpstream (received : List Reception) (upstreams : List Address) : Int → Prop :=
  receivedAt received fun r => r.peer ∈ upstreams

/-- At the check this node was an upstream, or an upstream had been heard from lately. -/
def Justified (received : List Reception) (check : StatusCheck) : Prop :=
  check.amUpstream = true ∨ Lately peerActivityTimeout (fromUpstream received check.upstreams) check.time

/-- The node is online, or was reported to be, only after a check that justified it. -/
structure Honest (w : Watched) : Prop where
  online : w.node.online = true → ∃ check, w.status = some check ∧ Justified w.received check
  posted : ∀ post ∈ w.posted, post.1 = NodeEvent.online → Justified w.received post.2

/-- A ping check that is completed within `ZT_PEER_ACTIVITY_TIMEOUT` after boot finds this node to be an upstream, or
follows a packet from an upstream. -/
def Ripe (w : Watched) (input : Input) : Prop :=
  ∀ env, input.event = .processBackgroundTasks env → completesCheck env (w.now input) w.node = true →
    peerActivityTimeout ≤ w.now input ∨ w.topology.amUpstream = true ∨
      ∃ time, fromUpstream w.received w.topology.rootsToContact time

/-- A last receive time is that of a packet, or zero. -/
def Heard (w : Watched) : Prop :=
  ∀ a peer, w.topology.peers a = some peer →
    peer.lastReceive = 0 ∨ receivedAt w.received (fun r => r.peer = a) peer.lastReceive

theorem heard_step {w : Watched} (heard : Heard w) (input : Input) : Heard (step w input) := by
  intro a peer known
  have kept {old : Peer} (before : w.topology.peers a = some old) :
      old.lastReceive = 0 ∨ receivedAt (step w input).received (fun r => r.peer = a) old.lastReceive :=
    (heard a old before).imp id (receivedAt_step old.lastReceive)
  rcases handle_peers known with before | ⟨old, key, trust, -, received, -, recorded⟩ | ⟨-, -, identity, new⟩
  · exact kept before
  · right
    refine ⟨⟨w.now input, a, key, trust⟩, ?_, rfl, by rw [received]; rfl⟩
    exact recorded.symm ▸ List.mem_append_right _ List.mem_cons_self
  · left
    rw [new]
    rfl

/-- The status that a check sets is right exactly when the check is ripe. -/
theorem onlineStatus_justified_iff {w : Watched} {now : Int} (history : History w) (heard : Heard w)
    (reached : (w.clock : Int) ≤ now) :
    (onlineStatus w.topology now = true →
        Justified w.received ⟨now, w.topology.amUpstream, w.topology.rootsToContact⟩) ↔
      (peerActivityTimeout ≤ now ∨ w.topology.amUpstream = true ∨
        ∃ time, fromUpstream w.received w.topology.rootsToContact time) := by
  have early (soon : fresh peerActivityTimeout now 0 = true)
      (before : ∃ time, fromUpstream w.received w.topology.rootsToContact time) :
      Lately peerActivityTimeout (fromUpstream w.received w.topology.rootsToContact) now := by
    obtain ⟨time, happened⟩ := before
    have bounds := receivedAt_past history time happened
    have near := fresh_iff.mp soon
    exact ⟨time, happened, by omega, by omega⟩
  constructor
  · intro right
    by_cases late : peerActivityTimeout ≤ now
    · exact Or.inl late
    · have soon : fresh peerActivityTimeout now 0 = true := fresh_iff.mpr (by omega)
      have online : onlineStatus w.topology now = true := by
        rw [onlineStatus, (fresh_latest (upstreamReceives w.topology)).mpr (Or.inl soon)]
        rfl
      rcases right online with upstream | ⟨time, happened, -⟩
      · exact Or.inr (Or.inl upstream)
      · exact Or.inr (Or.inr ⟨time, happened⟩)
  · intro ripe online
    rcases Bool.or_eq_true_iff.mp online with recent | upstream
    · have never (soon : fresh peerActivityTimeout now 0 = true) :
          Justified w.received ⟨now, w.topology.amUpstream, w.topology.rootsToContact⟩ := by
        rcases ripe with late | upstream | before
        · have near := fresh_iff.mp soon
          omega
        · exact Or.inl upstream
        · exact Or.inr (early soon before)
      rcases (fresh_latest _).mp recent with soon | ⟨stamp, listed, young⟩
      · exact never soon
      · obtain ⟨a, among, found⟩ := List.mem_filterMap.mp listed
        obtain ⟨peer, known, same⟩ := Option.map_eq_some_iff.mp found
        rw [← same] at young
        rcases heard a peer known with zero | ⟨r, member, sender, when⟩
        · rw [zero] at young
          exact never young
        · have bounds := history r member
          have past : r.time ≤ now := by omega
          have near : now - r.time < peerActivityTimeout := when ▸ fresh_iff.mp young
          have upstream : r.peer ∈ w.topology.rootsToContact := sender ▸ among
          exact Or.inr ⟨r.time, ⟨r, member, upstream, rfl⟩, past, near⟩
    · exact Or.inl upstream

theorem housekeeping_online (env : BackgroundEnvironment) (now : Int) (node : Node) :
    (housekeeping env now node).online = node.online := by
  unfold housekeeping
  split <;> rfl

/-- Only a completed check sets the status, and it reports a change. -/
theorem processBackgroundTasks_status (env : BackgroundEnvironment) (now : Int) (node : Node) :
    (processBackgroundTasks env now node).1.online =
        (if completesCheck env now node then onlineStatus node.topology now else node.online) ∧
      (NodeEvent.online ∈ (processBackgroundTasks env now node).2 →
        completesCheck env now node = true ∧ onlineStatus node.topology now = true) := by
  unfold processBackgroundTasks completesCheck
  cases due : pingCheckDue node now with
  | false => simp [housekeeping_online]
  | true =>
      cases throws : env.throws with
      | true => simp
      | false =>
          cases status : onlineStatus node.topology now with
          | true => simp [housekeeping_online]
          | false => simp [housekeeping_online]

theorem Justified.mono {received more : List Reception} {check : StatusCheck} (justified : Justified received check)
    (grows : ∀ r ∈ received, r ∈ more) : Justified more check := by
  rcases justified with upstream | lately
  · exact Or.inl upstream
  · right
    apply lately.mono
    rintro time ⟨r, member, happened⟩
    exact ⟨r, grows r member, happened⟩

/-- Nothing else touches the status. -/
theorem handle_status {w : Watched} {now : Int} {event : Event}
    (other : ∀ env, event ≠ .processBackgroundTasks env) :
    (handle w now event).node.online = w.node.online ∧ (handle w now event).status = w.status ∧
      (handle w now event).posted = w.posted := by
  cases event with
  | received a key trust =>
      simp only [handle, receive]
      split <;> exact ⟨rfl, rfl, rfl⟩
  | processBackgroundTasks env => exact absurd rfl (other env)
  | datagram localSocket fromAddr data env => exact ⟨rfl, rfl, rfl⟩
  | addPeer identity => exact ⟨rfl, rfl, rfl⟩
  | getPeer zta load => exact ⟨rfl, rfl, rfl⟩
  | memoizeUpstreams planet moons => exact ⟨rfl, rfl, rfl⟩
  | setMoonSeeds moonSeeds => exact ⟨rfl, rfl, rfl⟩

theorem honest_step_other {w : Watched} {input : Input} (honest : Honest w)
    (other : ∀ env, input.event ≠ .processBackgroundTasks env) : Honest (step w input) := by
  obtain ⟨online, status, posted⟩ := @handle_status w (w.now input) input.event other
  constructor
  · intro on
    obtain ⟨check, last, justified⟩ := honest.online (online ▸ on)
    exact ⟨check, status.trans last, justified.mono fun _ member => received_step member⟩
  · intro post member
    have before : post ∈ w.posted := posted ▸ member
    exact fun reported => (honest.posted post before reported).mono fun _ member => received_step member

/-- What the background tasks report and leave, by whether the check is completed. -/
theorem honest_background_iff {w : Watched} {now : Int} {env : BackgroundEnvironment} (honest : Honest w) :
    Honest (background w now env) ↔
      (completesCheck env now w.node = true → onlineStatus w.topology now = true →
        Justified w.received ⟨now, w.topology.amUpstream, w.topology.rootsToContact⟩) := by
  obtain ⟨online, reports⟩ := processBackgroundTasks_status env now w.node
  constructor
  · intro after complete on
    have set : (background w now env).node.online = true := by
      refine online.trans ?_
      rw [if_pos complete]
      exact on
    obtain ⟨check, last, justified⟩ := after.online set
    have same : (background w now env).status =
        some ⟨now, w.topology.amUpstream, w.topology.rootsToContact⟩ := if_pos complete
    rw [same] at last
    cases last
    exact justified
  · intro ripe
    constructor
    · intro set
      have on : (if completesCheck env now w.node then onlineStatus w.node.topology now else w.node.online) = true :=
        online.symm.trans set
      by_cases complete : completesCheck env now w.node = true
      · rw [if_pos complete] at on
        exact ⟨_, if_pos complete, ripe complete on⟩
      · rw [if_neg complete] at on
        obtain ⟨check, last, justified⟩ := honest.online on
        exact ⟨check, (if_neg complete).trans last, justified⟩
    · intro post member reported
      rcases List.mem_append.mp member with before | last
      · exact honest.posted post before reported
      · obtain ⟨event, listed, same⟩ := List.mem_map.mp last
        rw [← same] at reported ⊢
        have isOnline : event = NodeEvent.online := reported
        rw [isOnline] at listed
        obtain ⟨complete, on⟩ := reports listed
        exact ripe complete on

/-- A step keeps the status honest exactly when a check that it completes is ripe. -/
theorem honest_step_iff {w : Watched} {input : Input} (history : History w) (heard : Heard w) (honest : Honest w) :
    Honest (step w input) ↔ Ripe w input := by
  have exactly := onlineStatus_justified_iff history heard (clock_le w input)
  rcases input with ⟨elapsed, event⟩
  by_cases isBackground : ∃ env, event = .processBackgroundTasks env
  · obtain ⟨env, same⟩ := isBackground
    subst same
    have after : Honest (step w ⟨elapsed, .processBackgroundTasks env⟩) ↔
        Honest (background w (w.now ⟨elapsed, .processBackgroundTasks env⟩) env) :=
      ⟨fun h => ⟨h.online, h.posted⟩, fun h => ⟨h.online, h.posted⟩⟩
    rw [after, honest_background_iff honest]
    constructor
    · intro right other same complete
      cases same
      exact exactly.mp (right complete)
    · intro ripe complete
      exact exactly.mpr (ripe env rfl complete)
  · have other (env : BackgroundEnvironment) : event ≠ .processBackgroundTasks env :=
      fun same => isBackground ⟨env, same⟩
    exact ⟨fun _ env same => absurd same (other env), fun _ => honest_step_other honest other⟩

/-- The node is online only when it has heard from an upstream, in exactly the runs in which no ping check comes
within `ZT_PEER_ACTIVITY_TIMEOUT` after boot unless something was heard from an upstream before. -/
theorem online_honest_iff (identity : Identity) (lowBandwidthMode : Bool) (inputs : List Input) :
    Throughout step Honest (start identity lowBandwidthMode) inputs ↔
      Along step Ripe (start identity lowBandwidthMode) inputs := by
  have kept (w : Watched) (input : Input) (invariant : History w ∧ Heard w) :
      History (step w input) ∧ Heard (step w input) :=
    ⟨history_step invariant.1 input, heard_step invariant.2 input⟩
  apply throughout_iff_along_of_invariant kept
    (fun _ _ invariant honest => honest_step_iff invariant.1 invariant.2 honest)
  · constructor
    · intro r member
      cases member
    · intro a peer known
      cases known
  · constructor
    · intro online
      cases online
    · intro post member
      cases member

section FirstCheck

def self : Identity := ⟨0x1111111111, 1⟩

/-- A planet with one root. -/
def planet : World := ⟨.planet, 1, 1, 0, 0, [⟨⟨0x62f865ae71, 2⟩, []⟩]⟩

def booted : Watched := start self false

/-- The node starts, and its background tasks run five seconds after boot. -/
def firstCheck : List Input :=
  [⟨800, .memoizeUpstreams planet []⟩, ⟨4200, .processBackgroundTasks ⟨false, fun _ => true⟩⟩]

/-- A node that has received nothing reports that it is online. -/
theorem online_without_upstream :
    (run step booted firstCheck).received = [] ∧
      (run step booted firstCheck).node.topology.amUpstream = false ∧
      (run step booted firstCheck).node.online = true ∧
      (run step booted firstCheck).posted.map Prod.fst = [.online] ∧
      ¬ Throughout step Honest booted firstCheck := by
  have received : (run step booted firstCheck).received = [] := rfl
  have upstream : (run step booted firstCheck).status.map StatusCheck.amUpstream = some false := by
    decide +kernel
  have online : (run step booted firstCheck).node.online = true := by
    decide +kernel
  refine ⟨received, by decide +kernel, online, by decide +kernel, ?_⟩
  rintro ⟨-, -, honest⟩
  obtain ⟨check, last, justified⟩ := honest.online online
  have set : (run step booted firstCheck).status = some check := last
  rw [set] at upstream
  rcases justified with isUpstream | ⟨time, ⟨r, among, -⟩, -⟩
  · have isNot : check.amUpstream = false := Option.some.inj upstream
    rw [isNot] at isUpstream
    cases isUpstream
  · cases among

end FirstCheck

end ZeroTierNode.OnlineStatus

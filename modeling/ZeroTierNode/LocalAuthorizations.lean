import ZeroTierNode.Address
import ZeroTierNode.Hashtable
import ZeroTierNode.Library.Runs

/-!
The members to which a local controller has sent a configuration: the table that
`ncSendConfig` fills, that `localControllerHasAuthorized` asks and that
`processBackgroundTasks` is to clean up.
-/

namespace ZeroTierNode.LocalAuthorizations
open Library.Runs Hashtable

/-- `_LocalControllerAuth`. -/
structure LocalControllerAuth where
  nwid : BitVec 64
  address : BitVec 64
deriving DecidableEq, Repr

def LocalControllerAuth.hashCode (a : LocalControllerAuth) : Nat := ((a.nwid ^^^ a.address).setWidth 32).toNat

/-- `_localControllerAuthorizations`. -/
abbrev Authorizations := Hashtable LocalControllerAuth Int

/-- `ZT_NETWORK_AUTOCONF_DELAY`. -/
def networkAutoconfDelay : Int := 60000

/-- `ZT_PING_CHECK_INTERVAL`. -/
def pingCheckInterval : Int := 5000

def localControllerHasAuthorized (table : Authorizations) (now : Int) (nwid : BitVec 64) (addr : Address) : Bool :=
  (table.get LocalControllerAuth.hashCode ⟨nwid, addr.toInt⟩).any fun at_ => now - at_ < networkAutoconfDelay * 3

/-- The loop that cleans up; `none` when it reads freed memory. -/
def cleanUp (now : Int) (table : Authorizations) : Option Authorizations :=
  (table.pass LocalControllerAuth.hashCode (fun _ at_ => if networkAutoconfDelay * 3 < at_ - now then none else some at_)
    (table.size + 1) table.begin).map Prod.snd

/-- `_now`, `_lastPingCheck` and the table, which is lost when freed memory has been read. -/
structure Node where
  now : Int
  lastPingCheck : Int
  authorizations : Option Authorizations

/-- What happens at the node, with the outcome of `malloc` for the table and the mode of the background tasks. -/
inductive Event
  /-- A packet or a frame comes in. -/
  | receive (now : Int)
  | ncSendConfig (malloc : Nat → Bool) (nwid : BitVec 64) (destination : Address)
  | processBackgroundTasks (now : Int) (lowBandwidthMode : Bool)

/-- There is a ping check. -/
def Node.Pings (n : Node) (now : Int) (lowBandwidthMode : Bool) : Prop :=
  (if lowBandwidthMode then pingCheckInterval * 5 else pingCheckInterval) ≤ now - n.lastPingCheck

instance Node.Pings.decidable (n : Node) (now : Int) (lowBandwidthMode : Bool) : Decidable (n.Pings now lowBandwidthMode) :=
  inferInstanceAs (Decidable (_ ≤ _))

def Node.step (n : Node) : Event → Node
  | .receive now => { n with now := now }
  | .ncSendConfig malloc nwid destination =>
      { n with
        authorizations := n.authorizations.map fun table =>
          table.index LocalControllerAuth.hashCode malloc ⟨nwid, destination.toInt⟩ fun _ => n.now }
  | .processBackgroundTasks now lowBandwidthMode =>
      if n.Pings now lowBandwidthMode then
        { now := now, lastPingCheck := now, authorizations := n.authorizations.bind (cleanUp now) }
      else { n with now := now }

section Meaning

/-- The node, with the time at which each member was authorized last, from the beginning. -/
structure Watched where
  node : Node
  latest : LocalControllerAuth → Option Int

/-- A new node. -/
def start (now : Int) : Watched := ⟨⟨now, 0, some (ofCapacity 64)⟩, fun _ => none⟩

def step (w : Watched) (e : Event) : Watched where
  node := w.node.step e
  latest :=
    match e with
    | .ncSendConfig _ nwid destination => Function.update w.latest ⟨nwid, destination.toInt⟩ (some w.node.now)
    | _ => w.latest

/-- The clock does not go back. -/
def Later (w : Watched) : Event → Prop
  | .receive now | .processBackgroundTasks now _ => w.node.now ≤ now
  | .ncSendConfig _ _ _ => True

/-- The entries within the window, and no others, are left, and no answer changes for it. -/
structure Cleaned (now : Int) (before after : Authorizations) : Prop where
  left : ∀ k, after.get LocalControllerAuth.hashCode k =
    (before.get LocalControllerAuth.hashCode k).filter fun at_ => now - at_ ≤ networkAutoconfDelay * 3
  answers : ∀ later, now ≤ later → ∀ nwid addr,
    localControllerHasAuthorized after later nwid addr = localControllerHasAuthorized before later nwid addr

/-- What is asked of a step: a ping check cleans up. -/
def CleansUp (w : Watched) (e : Event) : Prop :=
  match e with
  | .processBackgroundTasks now lowBandwidthMode => w.node.Pings now lowBandwidthMode →
      ∃ before after, w.node.authorizations = some before ∧ (step w e).node.authorizations = some after ∧
        Cleaned now before after
  | _ => True

/-- At a ping check, all members have been authorized within the window. -/
def AllSeen (w : Watched) : Event → Prop
  | .processBackgroundTasks now lowBandwidthMode => w.node.Pings now lowBandwidthMode →
      ∀ k at_, w.latest k = some at_ → now - at_ ≤ networkAutoconfDelay * 3
  | _ => True

end Meaning

section Steps

variable {w : Watched} {e : Event}

/-- The table is what has been authorized, and when; nothing of it has been erased. -/
def Tracks (w : Watched) : Prop :=
  (∃ table, w.node.authorizations = some table ∧ Represents LocalControllerAuth.hashCode table w.latest) ∧
    ∀ k at_, w.latest k = some at_ → at_ ≤ w.node.now

theorem tracks_start (now : Int) : Tracks (start now) :=
  ⟨⟨_, rfl, represents_ofCapacity (by decide)⟩, fun _ _ none => by cases none⟩

/-- As the entries are from the past, the loop erases none. -/
theorem cleanUp_keeps {table : Authorizations} {latest : LocalControllerAuth → Option Int} {now : Int}
    (represents : Represents LocalControllerAuth.hashCode table latest) (past : ∀ k at_, latest k = some at_ → at_ ≤ now) :
    ∃ after, cleanUp now table = some after ∧ Represents LocalControllerAuth.hashCode after latest := by
  obtain ⟨after, passed, kept⟩ :=
    pass_begin (fun _ at_ => if networkAutoconfDelay * 3 < at_ - now then none else some at_) represents
      (Nat.lt_succ_self table.size)
  have same : (fun k => (latest k).bind fun at_ => if networkAutoconfDelay * 3 < at_ - now then none else some at_) =
      latest := by
    funext k
    cases entry : latest k with
    | none => rfl
    | some at_ =>
        have before := past k at_ entry
        have window : networkAutoconfDelay = 60000 := rfl
        exact if_neg (by omega)
  rw [same] at kept
  exact ⟨after, by rw [cleanUp, passed]; rfl, kept⟩

theorem Tracks.step (tracks : Tracks w) (later : Later w e) : Tracks (step w e) := by
  obtain ⟨⟨table, there, represents⟩, past⟩ := tracks
  cases e with
  | receive now => exact ⟨⟨table, there, represents⟩, fun k at_ entry => (past k at_ entry).trans later⟩
  | ncSendConfig malloc nwid destination =>
      refine ⟨⟨_, congrArg (Option.map _) there, represents.index malloc _ _⟩, fun k at_ entry => ?_⟩
      have updated : Function.update w.latest ⟨nwid, destination.toInt⟩ (some w.node.now) k = some at_ := entry
      by_cases same : k = ⟨nwid, destination.toInt⟩
      · rw [same, Function.update_self] at updated
        exact le_of_eq (Option.some.inj updated).symm
      · rw [Function.update_of_ne same] at updated
        exact past k at_ updated
  | processBackgroundTasks now lowBandwidthMode =>
      have past : ∀ k at_, w.latest k = some at_ → at_ ≤ now := fun k at_ entry => (past k at_ entry).trans later
      obtain ⟨after, cleaned, kept⟩ := cleanUp_keeps represents past
      by_cases pings : w.node.Pings now lowBandwidthMode
      · have next : (LocalAuthorizations.step w (.processBackgroundTasks now lowBandwidthMode)).node =
            ⟨now, now, w.node.authorizations.bind (cleanUp now)⟩ := if_pos pings
        refine ⟨⟨after, ?_, kept⟩, ?_⟩
        · rw [next, there]
          exact cleaned
        · rw [next]
          exact past
      · have next : (LocalAuthorizations.step w (.processBackgroundTasks now lowBandwidthMode)).node =
            { w.node with now := now } := if_neg pings
        refine ⟨⟨table, ?_, represents⟩, ?_⟩
        · rw [next]
          exact there
        · rw [next]
          exact past

theorem cleaned_of_left {now : Int} {before after : Authorizations}
    (left : ∀ k, after.get LocalControllerAuth.hashCode k =
      (before.get LocalControllerAuth.hashCode k).filter fun at_ => now - at_ ≤ networkAutoconfDelay * 3) :
    Cleaned now before after where
  left := left
  answers := by
    intro later after_ nwid addr
    unfold localControllerHasAuthorized
    rw [left]
    cases before.get LocalControllerAuth.hashCode ⟨nwid, addr.toInt⟩ with
    | none => rfl
    | some at_ =>
        by_cases inside : now - at_ ≤ networkAutoconfDelay * 3
        · rw [Option.filter_some, if_pos (decide_eq_true inside)]
        · rw [Option.filter_some, if_neg (by simpa using inside)]
          symm
          simp only [Option.any_some, Option.any_none, decide_eq_false_iff_not]
          omega

theorem cleansUp_iff (tracks : Tracks w) (later : Later w e) : CleansUp w e ↔ AllSeen w e := by
  cases e with
  | receive now => exact Iff.rfl
  | ncSendConfig malloc nwid destination => exact Iff.rfl
  | processBackgroundTasks now lowBandwidthMode =>
      have next := tracks.step later
      obtain ⟨⟨table, there, represents⟩, -⟩ := tracks
      obtain ⟨⟨after, found, kept⟩, -⟩ := next
      have old (k) : table.get LocalControllerAuth.hashCode k = w.latest k := get_eq represents.wf represents.maps k
      have new (k) : after.get LocalControllerAuth.hashCode k = w.latest k := get_eq kept.wf kept.maps k
      apply imp_congr_right
      intro pings
      constructor
      · intro cleans k at_ entry
        obtain ⟨before, result, there', found', cleaned⟩ := cleans
        rw [there, Option.some.injEq] at there'
        rw [found, Option.some.injEq] at found'
        subst there' found'
        have left := cleaned.left k
        rw [old, new, entry] at left
        by_contra outside
        rw [Option.filter_some, if_neg (by simpa using outside)] at left
        cases left
      · intro seen
        refine ⟨table, after, there, found, cleaned_of_left fun k => ?_⟩
        rw [old, new]
        cases entry : w.latest k with
        | none => rfl
        | some at_ => rw [Option.filter_some, if_pos (decide_eq_true (seen k at_ entry))]

end Steps

/-- In a run in which the clock does not go back, the ping checks clean up exactly if there is never anything to clean
up. -/
theorem cleanUp_iff (now : Int) {events : List Event} (later : Along step Later (start now) events) :
    Along step CleansUp (start now) events ↔ Along step AllSeen (start now) events :=
  along_congr (fun _ _ tracks => tracks.step) (fun _ _ => cleansUp_iff) (tracks_start now) later

section Member

/-- A member that asks for its configuration once, and a ping check later on. -/
def memberOnce (now : Int) : List Event :=
  [.ncSendConfig (fun _ => true) 0x8056c2e21c000001 0x1000000005, .processBackgroundTasks now false]

theorem memberOnce_later {now : Int} (after_start : 0 ≤ now) : Along step Later (start 0) (memberOnce now) :=
  ⟨trivial, after_start, trivial⟩

theorem memberOnce_latest :
    (step (start 0) (.ncSendConfig (fun _ => true) 0x8056c2e21c000001 0x1000000005)).latest
      ⟨0x8056c2e21c000001, 0x1000000005⟩ = some 0 := rfl

/-- After 200 seconds the entry is there, and stays. -/
theorem stale_authorization_kept :
    Along step Later (start 0) (memberOnce 200000) ∧ ¬ Along step CleansUp (start 0) (memberOnce 200000) ∧
      ∃ table, (run step (start 0) (memberOnce 200000)).node.authorizations = some table ∧
        table.get LocalControllerAuth.hashCode ⟨0x8056c2e21c000001, 0x1000000005⟩ = some 0 := by
  have authorized := (tracks_start 0).step
    (show Later (start 0) (.ncSendConfig (fun _ => true) 0x8056c2e21c000001 0x1000000005) from trivial)
  have later : Later (step (start 0) (.ncSendConfig (fun _ => true) 0x8056c2e21c000001 0x1000000005))
      (.processBackgroundTasks 200000 false) := show (0 : Int) ≤ 200000 by decide
  refine ⟨memberOnce_later (by decide), ?_, ?_⟩
  · intro cleans
    have seen := (cleansUp_iff authorized later).mp cleans.2.1
    exact absurd (seen (show (5000 : Int) ≤ 200000 - 0 by decide) _ _ memberOnce_latest) (by decide)
  · obtain ⟨⟨table, there, represents⟩, -⟩ := authorized.step later
    exact ⟨table, there, get_eq represents.wf represents.maps _⟩

/-- After 100 seconds nothing is to be cleaned up. -/
theorem recent_authorization_cleans : Along step CleansUp (start 0) (memberOnce 100000) := by
  refine (cleanUp_iff 0 (memberOnce_later (by decide))).mpr ⟨trivial, ?_, trivial⟩
  intro _ k at_ entry
  have updated : Function.update (start 0).latest ⟨0x8056c2e21c000001, (0x1000000005 : Address).toInt⟩ (some 0) k =
      some at_ := entry
  by_cases same : k = ⟨0x8056c2e21c000001, (0x1000000005 : Address).toInt⟩
  · rw [same, Function.update_self] at updated
    cases updated
    decide
  · rw [Function.update_of_ne same] at updated
    cases updated

end Member

end ZeroTierNode.LocalAuthorizations

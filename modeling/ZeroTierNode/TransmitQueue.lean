import ZeroTierNode.Address
import ZeroTierNode.Library.Ledgers
import ZeroTierNode.Library.Runs

/-!
The transmit queue of `Switch`. Two tasks call into the node, each with a clock
sample of its own: packets are stamped with the sample that was passed last, and the
timer of the background task measures their age against its own sample, with a
difference that is unsigned.
-/

namespace ZeroTierNode.TransmitQueue
open Library.Ledgers Library.Runs

/-- Milliseconds since the start, as `esp_timer_get_time() / 1000` returns them. -/
abbrev Time := Fin (2 ^ 63)

inductive Task where
  | rx
  | background
deriving DecidableEq, Repr

/-- The queue entries, without the packets. -/
structure TXQueueEntry where
  dest : Address
  creationTime : BitVec 64

/-- Why a packet is no longer in the queue, with what shows that it was right. -/
inductive Reason where
  | sent
  /-- The number of packets in the queue, the new one included. -/
  | pushedOut (queued : Nat)
  | expired (creationTime : BitVec 64) (now : Time)

structure State where
  clock : Time
  /-- The variable `now` of each task. -/
  sample : Task → Time
  /-- `Node::_now`. -/
  now : Time
  lastCheckedQueues : BitVec 64
  /-- `_txQueue`, and the packets that have left it. -/
  txQueue : Ledger TXQueueEntry Reason

/-- A node that is new at the given time. -/
def State.start (clock : Time) : State := ⟨clock, fun _ => clock, clock, 0, Ledger.empty⟩

/-- Whether `_trySend` sends a packet depends on the peers and paths at that time. -/
abbrev TrySend := Nat → Bool

/-- `Switch::send` of a packet to another node, in either task. The queue is locked for the second half. -/
def State.send (s : State) (dest : Address) (sends : Bool) : State :=
  if sends then { s with txQueue := s.txQueue.pass .sent }
  else
    let queue := if 32 ≤ s.txQueue.waiting.length then s.txQueue.dropFirst (.pushedOut (s.txQueue.waiting.length + 1))
      else s.txQueue
    { s with txQueue := queue.put ⟨dest, BitVec.ofNat 64 s.now⟩ }

/-- The part of `doAnythingWaitingForPeer` that goes through the queue. -/
def State.doAnythingWaitingForPeer (s : State) (peer : Address) (trySend : TrySend) : State :=
  { s with txQueue := s.txQueue.sweep fun entry =>
      if entry.2.dest = peer ∧ trySend entry.1 = true then some .sent else none }

/-- `ZT_WHOIS_RETRY_DELAY` and `ZT_TRANSMIT_QUEUE_TIMEOUT`. -/
abbrev whoisRetryDelay : Nat := 500
abbrev transmitQueueTimeout : Nat := 5000

/-- The time since a stamp, as the processor subtracts. -/
def since (now : Time) (stamp : BitVec 64) : Nat := (BitVec.ofNat 64 now - stamp).toNat

/-- `doTimerTasks` is due. -/
def State.Due (s : State) : Prop := whoisRetryDelay ≤ since (s.sample .background) s.lastCheckedQueues

instance (s : State) : Decidable s.Due := inferInstanceAs (Decidable (_ ≤ _))

/-- The part of `doTimerTasks` that goes through the queue, with the sample of the background task. -/
def State.doTimerTasks (s : State) (trySend : TrySend) : State :=
  if ¬ s.Due then s
  else
    { s with
      lastCheckedQueues := BitVec.ofNat 64 (s.sample .background)
      txQueue := s.txQueue.sweep fun entry =>
        if trySend entry.1 = true then some .sent
        else if transmitQueueTimeout < since (s.sample .background) entry.2.creationTime then
          some (.expired entry.2.creationTime (s.sample .background))
        else none }

/-- What the two tasks do, in any order. -/
inductive Op where
  /-- Time passes. -/
  | tick (clock : Time)
  /-- `now = esp_timer_get_time() / 1000`. -/
  | takeSample (task : Task)
  /-- `processWirePacket` or `processBackgroundTasks` begins: `_now = now`. -/
  | enter (task : Task)
  | send (dest : Address) (sends : Bool)
  | doAnythingWaitingForPeer (peer : Address) (trySend : TrySend)
  | doTimerTasks (trySend : TrySend)

def step (s : State) : Op → State
  | .tick clock => { s with clock := if s.clock ≤ clock then clock else s.clock }
  | .takeSample task => { s with sample := Function.update s.sample task s.clock }
  | .enter task => { s with now := s.sample task }
  | .send dest sends => s.send dest sends
  | .doAnythingWaitingForPeer peer trySend => s.doAnythingWaitingForPeer peer trySend
  | .doTimerTasks trySend => s.doTimerTasks trySend

/-- A packet may leave when it is sent, when more than `ZT_TX_QUEUE_SIZE` are queued, and when it has waited for longer
than the timeout. -/
def Reason.Allowed : Reason → Prop
  | .sent => True
  | .pushedOut queued => 32 < queued
  | .expired creationTime now => creationTime.toNat + transmitQueueTimeout < now

/-- What is asked of the queue. -/
structure Orderly (s : State) : Prop where
  bounded : s.txQueue.waiting.length ≤ 32
  accounted : s.txQueue.Accounted
  allowed : ∀ entry ∈ s.txQueue.left, entry.2.Allowed

/-- The timer finds no packet that stays unsent and is stamped later than its own sample. -/
def Timely (s : State) : Op → Prop
  | .doTimerTasks trySend => s.Due → ∀ entry ∈ s.txQueue.waiting,
      trySend entry.1 = true ∨ entry.2.creationTime.toNat ≤ s.sample .background
  | _ => True

/-- Stamps are times. -/
def Stamped (s : State) : Prop := ∀ entry ∈ s.txQueue.waiting, entry.2.creationTime.toNat < 2 ^ 63

theorem time_toNat (t : Time) : (BitVec.ofNat 64 t).toNat = t := by
  rw [BitVec.toNat_ofNat, Nat.mod_eq_of_lt]
  exact t.isLt.trans (by decide)

/-- An age is what it should be unless the stamp lies ahead. -/
theorem since_eq {now : Time} {stamp : BitVec 64} (small : stamp.toNat < 2 ^ 63) :
    since now stamp = if stamp.toNat ≤ now then (now : Nat) - stamp.toNat else 2 ^ 64 - (stamp.toNat - now) := by
  unfold since
  have bound := now.isLt
  rw [BitVec.toNat_sub, time_toNat]
  split <;> omega

theorem Stamped.step {s : State} (stamped : Stamped s) (op : Op) : Stamped (step s op) := by
  cases op with
  | tick clock => exact stamped
  | takeSample task => exact stamped
  | enter task => exact stamped
  | send dest sends =>
      intro entry queued
      change entry ∈ (s.send dest sends).txQueue.waiting at queued
      unfold State.send at queued
      by_cases now : sends = true
      · rw [if_pos now] at queued
        exact stamped entry queued
      · rw [if_neg now] at queued
        rcases List.mem_append.mp queued with earlier | this
        · apply stamped entry
          split at earlier
          · unfold Ledger.dropFirst at earlier
            cases queue : s.txQueue.waiting with
            | nil =>
                rw [queue] at earlier
                exact queue ▸ earlier
            | cons first rest =>
                rw [queue] at earlier
                exact List.mem_cons_of_mem _ earlier
          · exact earlier
        · rw [List.mem_singleton.mp this]
          exact (time_toNat s.now).symm ▸ s.now.isLt
  | doAnythingWaitingForPeer peer trySend =>
      intro entry queued
      exact stamped entry (List.mem_filter.mp queued).1
  | doTimerTasks trySend =>
      intro entry queued
      change entry ∈ (s.doTimerTasks trySend).txQueue.waiting at queued
      unfold State.doTimerTasks at queued
      split at queued
      · exact stamped entry queued
      · exact stamped entry (List.mem_filter.mp queued).1

/-- A sweep with allowed reasons only keeps the queue orderly. -/
theorem orderly_sweep_iff {s next : State} (orderly : Orderly s) {leaves : Nat × TXQueueEntry → Option Reason}
    (swept : next.txQueue = s.txQueue.sweep leaves) :
    Orderly next ↔ ∀ entry ∈ s.txQueue.waiting, ∀ reason, leaves entry = some reason → reason.Allowed := by
  constructor
  · intro after entry queued reason found
    apply after.allowed (entry.1, reason)
    rw [swept, Ledger.mem_left_sweep]
    exact .inr ⟨entry, queued, found, rfl⟩
  · intro all
    refine ⟨?_, ?_, ?_⟩ <;> rw [swept]
    · exact (s.txQueue.length_sweep_le leaves).trans orderly.bounded
    · exact orderly.accounted.sweep leaves
    · intro entry gone
      rcases Ledger.mem_left_sweep.mp gone with earlier | ⟨item, queued, found, -⟩
      · exact orderly.allowed entry earlier
      · exact all item queued entry.2 found

theorem Orderly.send {s : State} (orderly : Orderly s) (dest : Address) (sends : Bool) : Orderly (s.send dest sends) := by
  unfold State.send
  by_cases now : sends = true
  · rw [if_pos now]
    refine ⟨orderly.bounded, orderly.accounted.pass _, ?_⟩
    intro entry gone
    rcases List.mem_append.mp gone with earlier | this
    · exact orderly.allowed entry earlier
    · rw [List.mem_singleton.mp this]
      trivial
  · rw [if_neg now]
    by_cases full : 32 ≤ s.txQueue.waiting.length
    · rw [if_pos full]
      refine ⟨?_, (orderly.accounted.dropFirst _).put _, ?_⟩
      · have bounded := orderly.bounded
        unfold Ledger.put Ledger.dropFirst
        cases queue : s.txQueue.waiting with
        | nil =>
            rw [queue] at full
            cases full
        | cons first rest =>
            rw [queue, List.length_cons] at bounded
            simpa using bounded
      · intro entry gone
        unfold Ledger.put Ledger.dropFirst at gone
        cases queue : s.txQueue.waiting with
        | nil =>
            rw [queue] at full
            cases full
        | cons first rest =>
            rw [queue] at gone full
            rcases List.mem_append.mp gone with earlier | this
            · exact orderly.allowed entry earlier
            · rw [List.mem_singleton.mp this]
              exact Nat.lt_succ_of_le full
    · rw [if_neg full]
      refine ⟨?_, orderly.accounted.put _, orderly.allowed⟩
      unfold Ledger.put
      rw [List.length_append, List.length_singleton]
      omega

/-- A turn of the timer is in order exactly if it is timely. -/
theorem orderly_doTimerTasks_iff {s : State} (stamped : Stamped s) (orderly : Orderly s) (trySend : TrySend) :
    Orderly (s.doTimerTasks trySend) ↔ Timely s (.doTimerTasks trySend) := by
  unfold State.doTimerTasks Timely
  by_cases due : s.Due
  · rw [if_neg (not_not.mpr due), orderly_sweep_iff orderly rfl]
    constructor
    · intro all _ entry queued
      by_cases sent : trySend entry.1 = true
      · exact .inl sent
      · right
        by_contra ahead
        have age := @since_eq (s.sample .background) _ (stamped entry queued)
        rw [if_neg ahead] at age
        have small := stamped entry queued
        have old : transmitQueueTimeout < since (s.sample .background) entry.2.creationTime := by
          rw [age]
          unfold transmitQueueTimeout
          omega
        have allowed : entry.2.creationTime.toNat + transmitQueueTimeout < s.sample .background := by
          apply all entry queued (.expired entry.2.creationTime (s.sample .background))
          rw [if_neg sent, if_pos old]
        omega
    · intro timely entry queued reason found
      by_cases sent : trySend entry.1 = true
      · rw [if_pos sent] at found
        rw [← Option.some.inj found]
        trivial
      · rw [if_neg sent] at found
        split at found
        · rename_i old
          have before := (timely due entry queued).resolve_left sent
          rw [since_eq (stamped entry queued), if_pos before] at old
          rw [← Option.some.inj found]
          exact Nat.add_lt_of_lt_sub' old
        · cases found
  · rw [if_pos due]
    exact iff_of_true orderly fun wrong => absurd wrong due

theorem orderly_step_iff (s : State) (op : Op) (stamped : Stamped s) (orderly : Orderly s) :
    Orderly (step s op) ↔ Timely s op := by
  cases op with
  | tick clock => exact iff_of_true ⟨orderly.bounded, orderly.accounted, orderly.allowed⟩ trivial
  | takeSample task => exact iff_of_true ⟨orderly.bounded, orderly.accounted, orderly.allowed⟩ trivial
  | enter task => exact iff_of_true ⟨orderly.bounded, orderly.accounted, orderly.allowed⟩ trivial
  | send dest sends => exact iff_of_true (orderly.send dest sends) trivial
  | doAnythingWaitingForPeer peer trySend =>
      apply iff_of_true _ trivial
      apply (orderly_sweep_iff orderly rfl).mpr
      intro entry _ reason found
      split at found
      · rw [← Option.some.inj found]
        trivial
      · cases found
  | doTimerTasks trySend => exact orderly_doTimerTasks_iff stamped orderly trySend

theorem orderly_start (clock : Time) : Orderly (State.start clock) :=
  ⟨Nat.zero_le _, Ledger.accounted_empty, fun _ gone => absurd gone List.not_mem_nil⟩

theorem transmit_queue_iff (clock : Time) (ops : List Op) :
    Throughout step Orderly (State.start clock) ops ↔ Along step Timely (State.start clock) ops :=
  throughout_iff_along_of_invariant (fun _ op stamped => stamped.step op) orderly_step_iff
    (fun _ queued => absurd queued List.not_mem_nil) (orderly_start clock)

/-- The background task is interrupted between its sample and its timer. -/
def interrupted : List Op :=
  [.takeSample .background, .enter .background, .tick ⟨1001, by decide⟩, .takeSample .rx, .enter .rx, .send 7 false,
    .doTimerTasks fun _ => false]

/-- A packet that is one millisecond younger than the sample of the timer is dropped at once. -/
theorem dropped_at_once : ¬ ∀ (clock : Time) (ops : List Op), Throughout step Orderly (State.start clock) ops := by
  intro orderly
  have last := (orderly 1000 interrupted).last
  have gone : ((0 : Nat), Reason.expired 1001 1000) ∈ (run step (State.start 1000) interrupted).txQueue.left :=
    List.mem_singleton.mpr rfl
  have waited : (1001 : BitVec 64).toNat + 5000 < (1000 : Time) := last.allowed _ gone
  exact absurd waited (by decide +kernel)

end ZeroTierNode.TransmitQueue

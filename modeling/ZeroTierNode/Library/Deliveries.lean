import Mathlib.Data.List.Nodup

/-!
A log of deliveries: which message went to which target, in the order in which it
was sent. The targets of one message are read off the log, and the rules say what
an addition to the log adds to them.
-/

namespace ZeroTierNode.Library.Deliveries

variable {Message Target Pending : Type*}

section Logs

variable [DecidableEq Message]

/-- The targets to which a message was sent. -/
def targets (log : List (Message × Target)) (message : Message) : List Target :=
  (log.filter fun entry => entry.1 = message).map Prod.snd

@[simp] theorem targets_nil (message : Message) : targets ([] : List (Message × Target)) message = [] := rfl

theorem targets_append (first second : List (Message × Target)) (message : Message) :
    targets (first ++ second) message = targets first message ++ targets second message := by
  unfold targets
  rw [List.filter_append, List.map_append]

theorem targets_eq_nil {log : List (Message × Target)} {message : Message} (absent : ∀ entry ∈ log, entry.1 ≠ message) :
    targets log message = [] := by
  unfold targets
  rw [List.filter_eq_nil_iff.mpr fun entry logged => by simpa using absent entry logged, List.map_nil]

/-- One message that goes to a list of targets. -/
theorem targets_map (message : Message) (receivers : List Target) :
    targets (receivers.map fun target => (message, target)) message = receivers := by
  unfold targets
  induction receivers with
  | nil => rfl
  | cons target receivers ih => rw [List.map_cons, List.filter_cons_of_pos (by simp), List.map_cons, ih]

end Logs

variable {name : Pending → Message} {send : Pending → Option Target}

/-- Every pending message is sent to a target of its own, or is not sent now. -/
def dispatch (name : Pending → Message) (send : Pending → Option Target) (queue : List Pending) : List (Message × Target) :=
  queue.filterMap fun pending => (send pending).map fun target => (name pending, target)

theorem dispatch_named {queue : List Pending} {entry : Message × Target} (sent : entry ∈ dispatch name send queue) :
    ∃ pending ∈ queue, name pending = entry.1 := by
  obtain ⟨pending, queued, found⟩ := List.mem_filterMap.mp sent
  obtain ⟨target, -, rfl⟩ := Option.map_eq_some_iff.mp found
  exact ⟨pending, queued, rfl⟩

variable [DecidableEq Message]

theorem targets_dispatch_absent {queue : List Pending} {message : Message}
    (absent : ∀ pending ∈ queue, name pending ≠ message) : targets (dispatch name send queue) message = [] := by
  apply targets_eq_nil
  intro entry sent same
  obtain ⟨pending, queued, named⟩ := dispatch_named sent
  exact absent pending queued (named.trans same)

/-- A message that is pending once is sent to the target of that entry alone. -/
theorem targets_dispatch {queue : List Pending} (distinct : (queue.map name).Nodup) {pending : Pending}
    (queued : pending ∈ queue) : targets (dispatch name send queue) (name pending) = (send pending).toList := by
  induction queue with
  | nil => cases queued
  | cons first rest ih =>
      rw [List.map_cons, List.nodup_cons] at distinct
      obtain ⟨single, distinct⟩ := distinct
      have split : dispatch name send (first :: rest) =
          ((send first).map fun target => (name first, target)).toList ++ dispatch name send rest := by
        unfold dispatch
        cases here : send first <;> simp [here]
      rw [split, targets_append]
      rcases List.mem_cons.mp queued with rfl | later
      · have none : ∀ other ∈ rest, name other ≠ name pending :=
          fun other found same => single (same ▸ List.mem_map_of_mem found)
        rw [targets_dispatch_absent none, List.append_nil]
        cases send pending with
        | none => rfl
        | some target => simp [targets]
      · have other : name first ≠ name pending := fun same => single (same ▸ List.mem_map_of_mem later)
        rw [ih distinct later, targets_eq_nil, List.nil_append]
        intro entry found
        obtain ⟨target, -, rfl⟩ := Option.map_eq_some_iff.mp (Option.mem_toList.mp found)
        exact other

end ZeroTierNode.Library.Deliveries

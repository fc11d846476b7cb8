import Mathlib.Data.List.Perm.Basic
import Mathlib.Data.List.Range

/-!
A queue with its history: every item gets a number when it comes in, waits, and
leaves for some reason that is written down. Whatever the operations, each item that
ever came in either waits or has left, and not twice.
-/

namespace ZeroTierNode.Library.Ledgers

structure Ledger (Item Reason : Type*) where
  waiting : List (Nat × Item)
  left : List (Nat × Reason)
  next : Nat

namespace Ledger

variable {Item Reason : Type*}

def empty : Ledger Item Reason := ⟨[], [], 0⟩

/-- An item comes in and waits. -/
def put (l : Ledger Item Reason) (item : Item) : Ledger Item Reason :=
  { l with waiting := l.waiting ++ [(l.next, item)], next := l.next + 1 }

/-- An item comes in and leaves at once. -/
def pass (l : Ledger Item Reason) (reason : Reason) : Ledger Item Reason :=
  { l with left := l.left ++ [(l.next, reason)], next := l.next + 1 }

/-- The first item leaves. -/
def dropFirst (l : Ledger Item Reason) (reason : Reason) : Ledger Item Reason :=
  match l.waiting with
  | [] => l
  | first :: rest => { l with waiting := rest, left := l.left ++ [(first.1, reason)] }

/-- All items leave for which there is a reason. -/
def sweep (l : Ledger Item Reason) (leaves : Nat × Item → Option Reason) : Ledger Item Reason :=
  { l with
    waiting := l.waiting.filter fun item => (leaves item).isNone
    left := l.left ++ l.waiting.filterMap fun item => (leaves item).map fun reason => (item.1, reason) }

/-- Every number that was given waits or has left, once. -/
def Accounted (l : Ledger Item Reason) : Prop :=
  (l.waiting.map Prod.fst ++ l.left.map Prod.fst).Perm (List.range l.next)

theorem accounted_empty : Accounted (empty : Ledger Item Reason) := List.Perm.refl _

/-- No number leaves twice. -/
theorem Accounted.nodup {l : Ledger Item Reason} (accounted : l.Accounted) :
    (l.waiting.map Prod.fst ++ l.left.map Prod.fst).Nodup :=
  accounted.nodup_iff.mpr List.nodup_range

theorem Accounted.put {l : Ledger Item Reason} (accounted : l.Accounted) (item : Item) : (l.put item).Accounted := by
  unfold Accounted Ledger.put at *
  dsimp only
  rw [List.map_append, List.range_succ, List.append_assoc]
  apply List.Perm.trans (List.Perm.append_left _ List.perm_append_comm)
  rw [← List.append_assoc]
  exact accounted.append_right _

theorem Accounted.pass {l : Ledger Item Reason} (accounted : l.Accounted) (reason : Reason) :
    (l.pass reason).Accounted := by
  unfold Accounted Ledger.pass at *
  dsimp only
  rw [List.map_append, List.range_succ, ← List.append_assoc]
  exact accounted.append_right _

theorem Accounted.dropFirst {l : Ledger Item Reason} (accounted : l.Accounted) (reason : Reason) :
    (l.dropFirst reason).Accounted := by
  unfold Accounted Ledger.dropFirst at *
  cases queue : l.waiting with
  | nil =>
      dsimp only
      rwa [queue] at accounted ⊢
  | cons first rest =>
      rw [queue] at accounted
      dsimp only
      rw [List.map_append, ← List.append_assoc]
      exact List.perm_append_comm.trans accounted

/-- What leaves and what stays make up what waited. -/
theorem sweep_perm (leaves : Nat × Item → Option Reason) (waiting : List (Nat × Item)) :
    ((waiting.filter fun item => (leaves item).isNone).map Prod.fst ++
      (waiting.filterMap fun item => (leaves item).map fun reason => (item.1, reason)).map Prod.fst).Perm
      (waiting.map Prod.fst) := by
  induction waiting with
  | nil => exact List.Perm.refl _
  | cons item waiting ih =>
      rw [List.map_cons]
      cases found : leaves item with
      | none =>
          rw [List.filter_cons_of_pos (by rw [found]; rfl), List.filterMap_cons_none (by rw [found]; rfl), List.map_cons]
          exact ih.cons _
      | some reason =>
          rw [List.filter_cons_of_neg (by simp [found]), List.filterMap_cons_some (by rw [found]; rfl),
            List.map_cons]
          exact List.perm_middle.trans (ih.cons _)

theorem Accounted.sweep {l : Ledger Item Reason} (accounted : l.Accounted) (leaves : Nat × Item → Option Reason) :
    (l.sweep leaves).Accounted := by
  unfold Accounted Ledger.sweep at *
  dsimp only
  rw [List.map_append]
  apply List.Perm.trans (List.Perm.append_left _ List.perm_append_comm)
  rw [← List.append_assoc]
  exact (((sweep_perm leaves l.waiting).append_right _)).trans accounted

theorem length_sweep_le (l : Ledger Item Reason) (leaves : Nat × Item → Option Reason) :
    (l.sweep leaves).waiting.length ≤ l.waiting.length := List.length_filter_le _ _

/-- The reasons written down by a sweep. -/
theorem mem_left_sweep {l : Ledger Item Reason} {leaves : Nat × Item → Option Reason} {entry : Nat × Reason} :
    entry ∈ (l.sweep leaves).left ↔
      entry ∈ l.left ∨ ∃ item ∈ l.waiting, leaves item = some entry.2 ∧ item.1 = entry.1 := by
  unfold Ledger.sweep
  rw [List.mem_append, List.mem_filterMap]
  apply or_congr_right
  constructor
  · rintro ⟨item, waits, made⟩
    obtain ⟨reason, found, rfl⟩ := Option.map_eq_some_iff.mp made
    exact ⟨item, waits, found, rfl⟩
  · rintro ⟨item, waits, found, named⟩
    refine ⟨item, waits, ?_⟩
    rw [found, Option.map_some, named]

end Ledger

end ZeroTierNode.Library.Ledgers

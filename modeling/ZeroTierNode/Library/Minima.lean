import Mathlib.Order.Lattice
import Mathlib.Data.List.Basic

/-!
The least element of a list as a loop finds it that goes through the list with the
best element so far, and takes the later one of two that are equally good.
-/

namespace ZeroTierNode.Library.Minima

variable {α β : Type*} [LinearOrder β] {measure : α → β} {x y z : α} {xs : List α}

/-- The loop, with the measure of the best element so far. -/
def scan (measure : α → β) : List α → β → Option α → Option α
  | [], _, best => best
  | x :: xs, bound, best =>
      if measure x ≤ bound then scan measure xs (measure x) (some x) else scan measure xs bound best

/-- Nothing in the list is less, and what follows is more. -/
inductive LastLeast (measure : α → β) : List α → α → Prop
  | here {x : α} {xs : List α} (more : ∀ y ∈ xs, measure x < measure y) : LastLeast measure (x :: xs) x
  | later {x y : α} {xs : List α} (rest : LastLeast measure xs x) (least : measure x ≤ measure y) :
      LastLeast measure (y :: xs) x

theorem LastLeast.mem (found : LastLeast measure xs x) : x ∈ xs := by
  induction found with
  | here _ => exact List.mem_cons_self
  | later _ _ ih => exact List.mem_cons_of_mem _ ih

theorem LastLeast.le (found : LastLeast measure xs x) : ∀ y ∈ xs, measure x ≤ measure y := by
  induction found with
  | here more =>
      intro y member
      cases List.mem_cons.mp member with
      | inl same => rw [same]
      | inr rest => exact le_of_lt (more y rest)
  | later _ least ih =>
      intro y member
      cases List.mem_cons.mp member with
      | inl same => rwa [same]
      | inr rest => exact ih y rest

theorem exists_lastLeast (nonempty : xs ≠ []) : ∃ x, LastLeast measure xs x := by
  induction xs with
  | nil => exact absurd rfl nonempty
  | cons y xs ih =>
      by_cases more : ∀ z ∈ xs, measure y < measure z
      · exact ⟨y, .here more⟩
      · have rest : xs ≠ [] := by
          intro empty
          exact more fun z member => absurd (empty ▸ member) List.not_mem_nil
        obtain ⟨x, found⟩ := ih rest
        simp only [not_forall, not_lt] at more
        obtain ⟨z, member, less⟩ := more
        exact ⟨x, .later found (le_trans (found.le z member) less)⟩

/-- From a best element on, the loop finds the last least one. -/
theorem LastLeast.scan_some (found : LastLeast measure (z :: xs) x) :
    scan measure xs (measure z) (some z) = some x := by
  induction xs generalizing z with
  | nil =>
      cases found with
      | here _ => rfl
      | later rest _ => cases rest
  | cons y xs ih =>
      rw [scan]
      cases found with
      | here more =>
          rw [if_neg (not_le_of_gt (more y List.mem_cons_self))]
          exact ih (.here fun w member => more w (List.mem_cons_of_mem _ member))
      | later rest least =>
          by_cases better : measure y ≤ measure z
          · rw [if_pos better]
            exact ih rest
          · rw [if_neg better]
            cases rest with
            | here _ => exact absurd least better
            | later rest _ => exact ih (.later rest least)

theorem LastLeast.scan_none (found : LastLeast measure xs x) {bound : β} (bounded : ∀ y ∈ xs, measure y ≤ bound) :
    scan measure xs bound none = some x := by
  cases xs with
  | nil => cases found
  | cons y xs =>
      rw [scan, if_pos (bounded y List.mem_cons_self)]
      exact found.scan_some

/-- With a bound that nothing exceeds, the loop finds the last least element. -/
theorem scan_eq_some_iff {bound : β} (bounded : ∀ y ∈ xs, measure y ≤ bound) :
    scan measure xs bound none = some x ↔ LastLeast measure xs x := by
  constructor
  · intro result
    have nonempty : xs ≠ [] := by
      rintro rfl
      cases result
    obtain ⟨least, found⟩ := @exists_lastLeast _ _ _ measure _ nonempty
    rw [found.scan_none bounded, Option.some.injEq] at result
    exact result ▸ found
  · exact fun found => found.scan_none bounded

theorem scan_eq_none_iff {bound : β} (bounded : ∀ y ∈ xs, measure y ≤ bound) :
    scan measure xs bound none = none ↔ xs = [] := by
  constructor
  · intro nothing
    by_contra nonempty
    obtain ⟨least, found⟩ := @exists_lastLeast _ _ _ measure _ nonempty
    rw [found.scan_none bounded] at nothing
    cases nothing
  · rintro rfl
    rfl

/-- Only the measures of the elements count. -/
theorem LastLeast.congr {other : α → β} (same : ∀ y ∈ xs, measure y = other y) (found : LastLeast measure xs x) :
    LastLeast other xs x := by
  induction found with
  | @here x xs more =>
      apply LastLeast.here
      intro y member
      rw [← same x List.mem_cons_self, ← same y (List.mem_cons_of_mem _ member)]
      exact more y member
  | @later x y xs rest least ih =>
      apply LastLeast.later (ih fun z member => same z (List.mem_cons_of_mem _ member))
      rw [← same x (List.mem_cons_of_mem _ rest.mem), ← same y List.mem_cons_self]
      exact least

end ZeroTierNode.Library.Minima

import Mathlib.Data.List.Nodup
import Mathlib.Data.List.Range

/-!
A walk round a list that takes an element whenever a coin says so. The walk does not
know what it has taken, so that an element comes up again once round the list.
-/

namespace ZeroTierNode.Library.Sampling

variable {α : Type*} {xs : List α} {coin : Nat → Bool}

/-- The tosses before the `n`th in which the coin says yes. -/
def hits (coin : Nat → Bool) (n : Nat) : List Nat := (List.range n).filter coin

/-- The elements that are taken in the first `n` steps. -/
def picked (xs : List α) (coin : Nat → Bool) (n : Nat) : List α :=
  (hits coin n).filterMap fun i => xs[i % xs.length]?

@[simp] theorem picked_zero : picked xs coin 0 = [] := rfl

theorem hits_succ (n : Nat) : hits coin (n + 1) = hits coin n ++ if coin n then [n] else [] := by
  rw [hits, List.range_succ, List.filter_append, List.filter_cons, List.filter_nil]
  rfl

theorem mem_hits {n i : Nat} : i ∈ hits coin n ↔ i < n ∧ coin i = true := by
  rw [hits, List.mem_filter, List.mem_range]

theorem picked_hit {n : Nat} {x : α} (hit : coin n = true) (here : xs[n % xs.length]? = some x) :
    picked xs coin (n + 1) = picked xs coin n ++ [x] := by
  rw [picked, hits_succ, if_pos hit, List.filterMap_append]
  simp [picked, here]

theorem picked_miss {n : Nat} (miss : ¬ coin n = true) : picked xs coin (n + 1) = picked xs coin n := by
  rw [picked, hits_succ, if_neg miss, List.append_nil]
  rfl

theorem picked_subset {n : Nat} : ∀ x ∈ picked xs coin n, x ∈ xs := by
  intro x member
  obtain ⟨i, -, here⟩ := List.mem_filterMap.mp member
  exact List.mem_of_getElem? here

theorem length_picked (nonempty : xs ≠ []) (n : Nat) : (picked xs coin n).length = (hits coin n).length := by
  have total (i : Nat) : ((xs[i % xs.length]?).isSome) = true := by
    rw [List.getElem?_eq_getElem (Nat.mod_lt _ (List.length_pos_of_ne_nil nonempty)), Option.isSome_some]
  rw [picked]
  induction hits coin n with
  | nil => rfl
  | cons i rest ih =>
      obtain ⟨x, here⟩ := Option.isSome_iff_exists.mp (total i)
      rw [List.filterMap_cons, here, List.length_cons]
      exact congrArg Nat.succ ih

/-- A toss that says yes is among the first `n` exactly if fewer said yes before it. -/
theorem hit_lt_iff {n j : Nat} (hit : coin j = true) : j < n ↔ (hits coin j).length < (hits coin n).length := by
  have grows {m n : Nat} (less : m ≤ n) : (hits coin m).length ≤ (hits coin n).length := by
    induction less with
    | refl => exact Nat.le_refl _
    | step _ ih =>
        rw [hits_succ, List.length_append]
        omega
  constructor
  · intro less
    have next := grows (Nat.succ_le_of_lt less)
    rw [hits_succ, if_pos hit, List.length_append] at next
    exact Nat.lt_of_succ_le next
  · intro fewer
    by_contra beyond
    have more := grows (Nat.le_of_not_lt beyond)
    omega

/-- Nothing is taken twice exactly if no two of the tosses that say yes come up with the same element. -/
theorem nodup_picked_iff (nonempty : xs ≠ []) (n : Nat) :
    (picked xs coin n).Nodup ↔ ∀ i j, i < j → coin i = true → coin j = true →
      (hits coin j).length < (hits coin n).length → xs[i % xs.length]? ≠ xs[j % xs.length]? := by
  induction n with
  | zero =>
      simp only [picked_zero, List.nodup_nil, true_iff]
      intro i j _ _ _ fewer
      exact absurd fewer (Nat.not_lt_zero _)
  | succ n ih =>
      by_cases hit : coin n = true
      · obtain ⟨x, here⟩ : ∃ x, xs[n % xs.length]? = some x :=
          ⟨_, List.getElem?_eq_getElem (Nat.mod_lt _ (List.length_pos_of_ne_nil nonempty))⟩
        rw [picked_hit hit here, List.nodup_append, ih]
        constructor
        · intro ⟨before, _, fresh⟩ i j less first second fewer
          rw [← hit_lt_iff second] at fewer
          rcases Nat.lt_succ_iff_lt_or_eq.mp fewer with earlier | last
          · exact before i j less first second ((hit_lt_iff second).mp earlier)
          · subst last
            intro same
            rw [here] at same
            exact fresh x (List.mem_filterMap.mpr ⟨i, mem_hits.mpr ⟨less, first⟩, same⟩) x (List.mem_singleton_self x) rfl
        · intro apart
          refine ⟨?_, List.nodup_singleton x, ?_⟩
          · intro i j less first second fewer
            apply apart i j less first second
            rw [← hit_lt_iff second] at fewer ⊢
            omega
          · intro y member z last same
            subst same
            rw [List.mem_singleton] at last
            subst last
            obtain ⟨i, listed, there⟩ := List.mem_filterMap.mp member
            obtain ⟨less, first⟩ := mem_hits.mp listed
            apply apart i n less first hit
            · exact (hit_lt_iff hit).mp (Nat.lt_succ_self n)
            · rw [there, here]
      · have same : (hits coin (n + 1)).length = (hits coin n).length := by
          rw [hits_succ, if_neg hit, List.append_nil]
        rw [picked_miss hit, ih, same]

end ZeroTierNode.Library.Sampling

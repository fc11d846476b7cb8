import Mathlib.Data.List.GetD
import Mathlib.Data.List.Nodup

/-!
Lists of chains. Every element has a home, a number, and belongs in the chain that
the home selects modulo the number of chains.
-/

namespace ZeroTierNode.Library.Buckets

variable {β : Type*} {home : β → Nat} {t : List (List β)}

/-- Every element is in its chain. -/
def Placed (home : β → Nat) (t : List (List β)) : Prop :=
  ∀ i (h : i < t.length), ∀ b ∈ t[i], home b % t.length = i

/-- Put an element in front of its chain. -/
def push (home : β → Nat) (t : List (List β)) (b : β) : List (List β) :=
  t.modify (home b % t.length) (b :: ·)

/-- Deal elements out to empty chains. -/
def scatter (home : β → Nat) (n : Nat) (elements : List β) : List (List β) :=
  elements.foldl (push home) (List.replicate n [])

theorem mem_flatten_of_mem_getD {i : Nat} {b : β} (member : b ∈ t.getD i []) : b ∈ t.flatten := by
  by_cases h : i < t.length
  · rw [List.getD_eq_getElem t [] h] at member
    exact List.mem_flatten_of_mem (List.getElem_mem h) member
  · rw [List.getD_eq_default t [] (Nat.le_of_not_lt h)] at member
    exact absurd member List.not_mem_nil

theorem Placed.mem_getD (placed : Placed home t) {b : β} (member : b ∈ t.flatten) :
    b ∈ t.getD (home b % t.length) [] := by
  obtain ⟨chain, listed, inside⟩ := List.mem_flatten.mp member
  obtain ⟨i, h, rfl⟩ := List.mem_iff_getElem.mp listed
  rw [placed i h b inside, List.getD_eq_getElem t [] h]
  exact inside

/-- A change that would leave the other chains alone can be read as a change to all of them. -/
theorem modify_eq_map {f : List β → List β} {i : Nat} (others : ∀ j (h : j < t.length), j ≠ i → f t[j] = t[j]) :
    t.modify i f = t.map f := by
  apply List.ext_getElem
  · rw [List.length_modify, List.length_map]
  · intro j inside _
    rw [List.length_modify] at inside
    rw [List.getElem_modify, List.getElem_map]
    by_cases this : i = j
    · rw [if_pos this]
    · rw [if_neg this, others j inside (Ne.symm this)]

/-- Chains that only lose elements, or have them replaced by some with the same home. -/
theorem Placed.map {f : List β → List β} (placed : Placed home t)
    (fewer : ∀ chain, ∀ b ∈ f chain, ∃ earlier ∈ chain, home earlier = home b) : Placed home (t.map f) := by
  intro i h b member
  rw [List.getElem_map] at member
  obtain ⟨earlier, there, same⟩ := fewer _ b member
  rw [List.length_map] at h ⊢
  rw [← same]
  exact placed i h earlier there

theorem placed_replicate (n : Nat) : Placed home (List.replicate n []) := by
  intro i h b member
  rw [List.getElem_replicate] at member
  exact absurd member List.not_mem_nil

@[simp] theorem length_push (b : β) : (push home t b).length = t.length := List.length_modify ..

theorem Placed.push (placed : Placed home t) (b : β) : Placed home (push home t b) := by
  intro i h other member
  have short : i < t.length := (@length_push β home t b) ▸ h
  have chain : (Buckets.push home t b)[i] = if home b % t.length = i then b :: t[i] else t[i] :=
    List.getElem_modify ..
  rw [chain] at member
  rw [length_push]
  split at member
  · rename_i this
    rcases List.mem_cons.mp member with new | old
    · rw [new]
      exact this
    · exact placed i short other old
  · exact placed i short other member

theorem perm_push (enough : 0 < t.length) (b : β) : (push home t b).flatten.Perm (b :: t.flatten) := by
  obtain ⟨before, chain, after, split, -, changed⟩ :=
    List.exists_of_modify (b :: ·) (Nat.mod_lt (home b) enough)
  have whole : t.flatten = before.flatten ++ (chain ++ after.flatten) := by
    rw [split, List.flatten_append, List.flatten_cons]
  calc (push home t b).flatten = before.flatten ++ b :: (chain ++ after.flatten) := by
        unfold push
        rw [changed, List.flatten_append, List.flatten_cons, List.cons_append]
    List.Perm _ (b :: (before.flatten ++ (chain ++ after.flatten))) := List.perm_middle
    _ = b :: t.flatten := by rw [whole]

/-- Elements dealt out one by one. -/
theorem foldl_push (elements : List β) (enough : 0 < t.length) (placed : Placed home t) :
    (elements.foldl (push home) t).length = t.length ∧ Placed home (elements.foldl (push home) t) ∧
      (elements.foldl (push home) t).flatten.Perm (elements ++ t.flatten) := by
  induction elements generalizing t with
  | nil => exact ⟨rfl, placed, List.Perm.refl _⟩
  | cons b elements ih =>
      have next := @ih (push home t b) (by rwa [length_push]) (placed.push b)
      rw [length_push] at next
      refine ⟨next.1, next.2.1, next.2.2.trans ?_⟩
      exact ((perm_push enough b).append_left elements).trans List.perm_middle

theorem flatten_replicate_nil (n : Nat) : (List.replicate n ([] : List β)).flatten = [] :=
  List.flatten_eq_nil_iff.mpr fun _ listed => List.eq_of_mem_replicate listed

section Scatter

variable {n : Nat} (elements : List β)

theorem length_scatter (enough : 0 < n) : (scatter home n elements).length = n := by
  have all := @foldl_push β home (List.replicate n []) elements (by rwa [List.length_replicate]) (placed_replicate n)
  exact all.1.trans List.length_replicate

theorem placed_scatter (enough : 0 < n) : Placed home (scatter home n elements) :=
  (@foldl_push β home (List.replicate n []) elements (by rwa [List.length_replicate]) (placed_replicate n)).2.1

theorem perm_scatter (enough : 0 < n) : (scatter home n elements).flatten.Perm elements := by
  have all := @foldl_push β home (List.replicate n []) elements (by rwa [List.length_replicate]) (placed_replicate n)
  have dealt := all.2.2
  rwa [flatten_replicate_nil, List.append_nil] at dealt

end Scatter

/-- Chains turned round hold the same. -/
theorem perm_reversed (t : List (List β)) : (t.map List.reverse).flatten.Perm t.flatten := by
  induction t with
  | nil => exact List.Perm.refl _
  | cons chain t ih => exact (List.reverse_perm chain).append ih

end ZeroTierNode.Library.Buckets

import Mathlib.Data.List.Basic

/-!
Arrays that are kept in order: the binary search for the first element that is not
below a key, and the removal of elements in one pass, in place.
-/

namespace ZeroTierNode.Library.OrderedArrays

variable {α : Type*}

section Searching

variable (below : α → Bool)

/-- The loop of `std::lower_bound`, with `len` elements from `first` on to search and at most `fuel` rounds. -/
def search (xs : List α) : Nat → Nat → Nat → Nat
  | 0, first, _ => first
  | fuel + 1, first, len =>
      if len = 0 then first
      else
        match xs[first + len / 2]? with
        | none => first
        | some x =>
            if below x then search xs fuel (first + len / 2 + 1) (len - len / 2 - 1)
            else search xs fuel first (len / 2)

/-- `std::lower_bound`. -/
def lowerBound (xs : List α) : Nat := search below xs xs.length 0 xs.length

variable {below}

theorem search_eq {front back : List α} (smaller : ∀ x ∈ front, below x = true) (larger : ∀ x ∈ back, below x = false)
    {fuel first len : Nat} (enough : len ≤ fuel) (start : first ≤ front.length) (stop : front.length ≤ first + len)
    (inside : first + len ≤ (front ++ back).length) : search below (front ++ back) fuel first len = front.length := by
  induction fuel generalizing first len with
  | zero =>
      rw [search]
      omega
  | succ fuel ih =>
      rw [search]
      by_cases done : len = 0
      · rw [if_pos done]
        omega
      · have middle : first + len / 2 < (front ++ back).length := by omega
        rw [if_neg done, List.getElem?_eq_getElem middle]
        dsimp only
        by_cases here : first + len / 2 < front.length
        · have low : below (front ++ back)[first + len / 2] = true := by
            rw [List.getElem_append_left here]
            exact smaller _ (List.getElem_mem here)
          rw [if_pos low]
          exact ih (by omega) (by omega) (by omega) (by omega)
        · have high : below (front ++ back)[first + len / 2] = false := by
            rw [List.getElem_append_right (Nat.not_lt.mp here)]
            exact larger _ (List.getElem_mem _)
          rw [if_neg (by rw [high]; exact Bool.false_ne_true)]
          exact ih (by omega) start (by omega) (by omega)

/-- The search finds the border of what is below. -/
theorem lowerBound_eq {front back : List α} (smaller : ∀ x ∈ front, below x = true)
    (larger : ∀ x ∈ back, below x = false) : lowerBound below (front ++ back) = front.length :=
  search_eq smaller larger (Nat.le_refl _) (Nat.zero_le _) (by rw [List.length_append]; omega) (by omega)

/-- An element inserted at the border. -/
theorem insertIdx_border (front back : List α) (x : α) :
    (front ++ back).insertIdx front.length x = front ++ x :: back := by
  induction front with
  | nil => rfl
  | cons first front ih =>
      rw [List.cons_append, List.length_cons, List.insertIdx_succ_cons, ih, List.cons_append]

end Searching

section Removing

variable (keep : α → Bool)

/-- One pass: what is kept at `reader` moves to `writer`. The array, and where the writer ends. -/
def compact : Nat → Nat → Nat → List α → List α × Nat
  | 0, _, writer, xs => (xs, writer)
  | left + 1, reader, writer, xs =>
      match xs[reader]? with
      | none => (xs, writer)
      | some x =>
          if keep x then compact left (reader + 1) (writer + 1) (xs.set writer x)
          else compact left (reader + 1) writer xs

variable {keep}

/-- In front of the writer stands what was kept, and behind the reader what was not looked at. -/
theorem compact_eq (kept passed rest : List α) :
    ∃ array, compact keep rest.length (kept.length + passed.length) kept.length (kept ++ passed ++ rest) =
        (array, (kept ++ rest.filter keep).length) ∧
      array.take (kept ++ rest.filter keep).length = kept ++ rest.filter keep := by
  induction rest generalizing kept passed with
  | nil => exact ⟨kept ++ passed ++ [], by simp [compact], by simp⟩
  | cons x rest ih =>
      have here : (kept ++ passed ++ x :: rest)[kept.length + passed.length]? = some x := by
        rw [← List.length_append]
        simp
      rw [List.length_cons, compact, here]
      dsimp only
      by_cases chosen : keep x = true
      · obtain ⟨behind, moved⟩ : ∃ behind, (kept ++ passed ++ x :: rest).set kept.length x =
            kept ++ [x] ++ behind ++ rest ∧ behind.length = passed.length := by
          cases passed with
          | nil => exact ⟨[], by simp, rfl⟩
          | cons first passed => exact ⟨passed ++ [x], by simp, by simp⟩
        obtain ⟨array, finished, contents⟩ := ih (kept ++ [x]) behind
        rw [if_pos chosen, moved.1, List.filter_cons_of_pos chosen]
        refine ⟨array, ?_, by simpa using contents⟩
        have reader : kept.length + passed.length + 1 = (kept ++ [x]).length + behind.length := by
          rw [moved.2, List.length_append, List.length_singleton]
          omega
        have writer : kept.length + 1 = (kept ++ [x]).length := by simp
        rw [reader, writer, finished]
        simp
      · obtain ⟨array, finished, contents⟩ := ih kept (passed ++ [x])
        rw [if_neg chosen, List.filter_cons_of_neg chosen]
        refine ⟨array, ?_, contents⟩
        have reader : kept.length + passed.length + 1 = kept.length + (passed ++ [x]).length := by
          rw [List.length_append, List.length_singleton]
          omega
        have whole : kept ++ passed ++ x :: rest = kept ++ (passed ++ [x]) ++ rest := by simp
        rw [reader, whole, finished]

/-- What stands in front of the writer at the end is what was to be kept, in its order. -/
theorem compact_filter (keep : α → Bool) (xs : List α) :
    (compact keep xs.length 0 0 xs).2 = (xs.filter keep).length ∧
      (compact keep xs.length 0 0 xs).1.take (xs.filter keep).length = xs.filter keep := by
  obtain ⟨array, finished, contents⟩ := @compact_eq α keep [] [] xs
  simp only [List.length_nil, Nat.zero_add, List.nil_append] at finished contents
  rw [finished]
  exact ⟨rfl, contents⟩

end Removing

end ZeroTierNode.Library.OrderedArrays

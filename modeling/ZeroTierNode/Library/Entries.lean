import Mathlib.Data.List.Nodup

/-!
Lists of entries with keys, in which a key may occur more than once. One reader
takes the first entry of a key, another the last; they agree where it occurs once.
-/

namespace ZeroTierNode.Library.Entries

variable {Entry : Type*} {p : Entry → Bool} {entry : Entry} {entries : List Entry}

/-- The entry that a reader from the end finds. -/
def last (p : Entry → Bool) (entries : List Entry) : Option Entry := entries.reverse.find? p

theorem last_cons : last p (entry :: entries) = (last p entries).or (if p entry then some entry else none) := by
  unfold last
  rw [List.reverse_cons, List.find?_append, List.find?_singleton]

theorem last_some (found : last p entries = some entry) : entry ∈ entries ∧ p entry = true :=
  ⟨List.mem_reverse.mp (List.mem_of_find?_eq_some found), List.find?_some found⟩

theorem last_none_iff : last p entries = none ↔ ∀ entry ∈ entries, p entry = false := by
  simp only [last, List.find?_eq_none, List.mem_reverse, Bool.not_eq_true]

/-- The last entry exists as soon as there is any. -/
theorem last_isSome (member : entry ∈ entries) (holds : p entry = true) : ∃ other, last p entries = some other := by
  cases found : last p entries with
  | some other => exact ⟨other, rfl⟩
  | none =>
      rw [last_none_iff] at found
      rw [found entry member] at holds
      cases holds

/-- Among distinct entries the two readers find the same one exactly if there is at most one. -/
theorem find?_eq_last_iff (distinct : entries.Nodup) : entries.find? p = last p entries ↔ entries.countP p ≤ 1 := by
  induction entries with
  | nil => simp [last]
  | cons entry entries ih =>
      obtain ⟨fresh, distinct⟩ := List.nodup_cons.mp distinct
      rw [last_cons, List.countP_cons, List.find?_cons]
      cases holds : p entry with
      | false => simpa using ih distinct
      | true =>
          have alone : last p entries = none ↔ entries.countP p = 0 := by
            simp only [last_none_iff, List.countP_eq_zero, Bool.not_eq_true]
          have atMost : entries.countP p + 1 ≤ 1 ↔ last p entries = none := by
            rw [alone]
            omega
          rw [if_pos rfl, if_pos rfl, atMost]
          cases found : last p entries with
          | none => simp
          | some other =>
              have different : entry ≠ other := by
                intro same
                exact fresh (same ▸ (last_some found).1)
              simp [different]

end ZeroTierNode.Library.Entries

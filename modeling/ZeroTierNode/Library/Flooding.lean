import Mathlib.Data.List.ProdSigma
import Mathlib.Data.List.Nodup
import Mathlib.Data.List.Perm.Subperm

/-!
Systems that pass items on and write down each time they do. When an item that is
passed on is spent by it, and no step makes a spent item fresh again, every item is
passed on at most once. Over finitely many places and
items that bounds the number of times anything is passed on in runs of any length.
-/

namespace ZeroTierNode.Library.Flooding

variable {State Input Item : Type*} {step : State → Input → State}
  {log : State → List Item} {Spent : State → Item → Prop}

/-- Nothing was passed on twice, and what was passed on is spent. -/
structure Once (log : State → List Item) (Spent : State → Item → Prop) (state : State) : Prop where
  nodup : (log state).Nodup
  spent : ∀ item ∈ log state, Spent state item

/-- A step passes nothing on, or an item that was fresh before it and is spent after it. -/
def PassesFresh (step : State → Input → State) (log : State → List Item) (Spent : State → Item → Prop)
    (state : State) (input : Input) : Prop :=
  log (step state input) = log state ∨
    ∃ item, ¬ Spent state item ∧ Spent (step state input) item ∧ log (step state input) = log state ++ [item]

theorem once_step {state : State} {input : Input} (once : Once log Spent state)
    (passes : PassesFresh step log Spent state input)
    (stays : ∀ item ∈ log state, Spent state item → Spent (step state input) item) :
    Once log Spent (step state input) := by
  have old : ∀ item ∈ log state, Spent (step state input) item := by
    intro item listed
    exact stays item listed (once.spent item listed)
  rcases passes with same | ⟨item, fresh, spent, added⟩
  · constructor
    · rw [same]
      exact once.nodup
    · rw [same]
      exact old
  · have absent : item ∉ log state := fun listed => fresh (once.spent item listed)
    constructor
    · rw [added]
      rw [← List.concat_eq_append]
      exact List.Nodup.concat absent once.nodup
    · intro other listed
      rw [added, List.mem_append, List.mem_singleton] at listed
      rcases listed with before | last
      · exact old other before
      · rw [last]
        exact spent

/-- There are no more entries without repetition than pairs of a place and an item. -/
theorem length_le_product {Place Thing : Type*} {entries : List (Place × Thing)} {places : List Place}
    {things : List Thing} (nodup : entries.Nodup)
    (inside : ∀ entry ∈ entries, entry.1 ∈ places ∧ entry.2 ∈ things) :
    entries.length ≤ places.length * things.length := by
  have subset : entries ⊆ places.product things := by
    intro entry listed
    exact List.mem_product.mpr (inside entry listed)
  calc entries.length ≤ (places.product things).length := (List.Nodup.subperm nodup subset).length_le
    _ = places.length * things.length := List.length_product places things

end ZeroTierNode.Library.Flooding

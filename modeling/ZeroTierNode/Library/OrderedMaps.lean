import Mathlib.Data.List.Induction
import Mathlib.Order.Lattice

/-!
Maps as lists of their entries in the order of the keys, as one iterates over a
search tree.
-/

namespace ZeroTierNode.Library.OrderedMaps

variable {K V : Type*} [LinearOrder K] {k k' : K} {v v' : V} {m : List (K × V)}

def Sorted (m : List (K × V)) : Prop := m.Pairwise fun first second => first.1 < second.1

/-- A new entry, or a new value of an old one. -/
def insert (k : K) (v : V) : List (K × V) → List (K × V)
  | [] => [(k, v)]
  | entry :: m =>
      if k < entry.1 then (k, v) :: entry :: m
      else if k = entry.1 then (k, v) :: m
      else entry :: insert k v m

def erase (k : K) (m : List (K × V)) : List (K × V) := m.filter fun entry => entry.1 ≠ k

/-- The map to which the entries are assigned in turn. -/
def ofList (entries : List (K × V)) : List (K × V) := entries.foldl (fun m entry => insert entry.1 entry.2 m) []

theorem sorted_cons {entry : K × V} : Sorted (entry :: m) ↔ (∀ other ∈ m, entry.1 < other.1) ∧ Sorted m :=
  List.pairwise_cons

theorem mem_insert (sorted : Sorted m) :
    (k', v') ∈ insert k v m ↔ (k' = k ∧ v' = v) ∨ (k' ≠ k ∧ (k', v') ∈ m) := by
  induction m with
  | nil => simp [insert]
  | cons entry m ih =>
      obtain ⟨below, rest⟩ := sorted_cons.mp sorted
      have notKey (above : ∀ other ∈ m, k < other.1) (member : (k', v') ∈ m) : k' ≠ k :=
        (above _ member).ne'
      unfold insert
      rcases lt_trichotomy k entry.1 with less | same | greater
      · rw [if_pos less]
        have above : ∀ other ∈ m, k < other.1 := fun other member => less.trans (below other member)
        have first : (k', v') = entry → k' ≠ k := by
          intro equal
          rw [← equal] at less
          exact less.ne'
        simp only [List.mem_cons, Prod.mk.injEq]
        grind
      · rw [if_neg same.not_lt, if_pos same]
        have above : ∀ other ∈ m, k < other.1 := fun other member => same ▸ below other member
        simp only [List.mem_cons, Prod.mk.injEq]
        grind
      · rw [if_neg greater.not_gt, if_neg greater.ne']
        have first : (k', v') = entry → k' ≠ k := by
          intro equal
          rw [← equal] at greater
          exact greater.ne
        simp only [List.mem_cons, ih rest]
        grind

theorem sorted_insert (sorted : Sorted m) : Sorted (insert k v m) := by
  induction m with
  | nil => exact List.pairwise_singleton ..
  | cons entry m ih =>
      obtain ⟨below, rest⟩ := sorted_cons.mp sorted
      unfold insert
      rcases lt_trichotomy k entry.1 with less | same | greater
      · rw [if_pos less]
        refine sorted_cons.mpr ⟨fun other member => ?_, sorted⟩
        rcases List.mem_cons.mp member with first | later
        · rw [first]
          exact less
        · exact less.trans (below other later)
      · rw [if_neg same.not_lt, if_pos same]
        exact sorted_cons.mpr ⟨fun other member => same ▸ below other member, rest⟩
      · rw [if_neg greater.not_gt, if_neg greater.ne']
        refine sorted_cons.mpr ⟨fun (other, value) member => ?_, ih rest⟩
        rcases (mem_insert rest).mp member with ⟨same, _⟩ | ⟨_, later⟩
        · rw [same]
          exact greater
        · exact below _ later

theorem mem_erase : (k', v') ∈ erase k m ↔ k' ≠ k ∧ (k', v') ∈ m := by
  rw [erase, List.mem_filter, and_comm, decide_eq_true_iff]

theorem sorted_erase (sorted : Sorted m) : Sorted (erase k m) := sorted.filter _

theorem sorted_take (sorted : Sorted m) (n : Nat) : Sorted (m.take n) := sorted.sublist (List.take_sublist n m)

/-- A key has one value. -/
theorem Sorted.unique (sorted : Sorted m) (first : (k, v) ∈ m) (second : (k, v') ∈ m) : v = v' := by
  induction m with
  | nil => cases first
  | cons entry m ih =>
      obtain ⟨below, rest⟩ := sorted_cons.mp sorted
      rcases List.mem_cons.mp first with here | later
      · rcases List.mem_cons.mp second with also | other
        · exact (Prod.mk.inj (here.trans also.symm)).2
        · have less := below _ other
          rw [← here] at less
          exact absurd less (lt_irrefl k)
      · rcases List.mem_cons.mp second with also | other
        · have less := below _ later
          rw [← also] at less
          exact absurd less (lt_irrefl k)
        · exact ih rest later other

/-- A key beyond all others goes to the end. -/
theorem insert_last (last : ∀ entry ∈ m, entry.1 < k) : insert k v m = m ++ [(k, v)] := by
  induction m with
  | nil => rfl
  | cons entry m ih =>
      have less := last entry (List.mem_cons_self ..)
      unfold insert
      rw [if_neg less.not_gt, if_neg less.ne', ih fun other member => last other (List.mem_cons_of_mem _ member)]
      rfl

/-- Assigning the entries of a map in turn gives the map again. -/
theorem ofList_sorted (sorted : Sorted m) : ofList m = m := by
  induction m using List.reverseRecOn with
  | nil => rfl
  | append_singleton m entry ih =>
      obtain ⟨before, _, last⟩ := List.pairwise_append.mp sorted
      have step : ofList (m ++ [entry]) = insert entry.1 entry.2 (ofList m) := by
        rw [ofList, List.foldl_append]
        rfl
      rw [step, ih before]
      exact insert_last fun other member => last other member entry (List.mem_singleton.mpr rfl)

end ZeroTierNode.Library.OrderedMaps

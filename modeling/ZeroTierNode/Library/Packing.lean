import Mathlib.Data.List.Nodup
import Mathlib.Data.List.TakeWhile

/-!
Arrays of slots that may be empty. A packed array has its filled slots first, so a
reader that stops at the first empty slot sees every value.
-/

namespace ZeroTierNode.Library.Packing

variable {Slot Value : Type*} {content : Slot → Option Value} {blank slot : Slot} {before after slots : List Slot}

/-- The values in the filled slots, in order. -/
def values (content : Slot → Option Value) (slots : List Slot) : List Value := slots.filterMap content

/-- No empty slot stands before a filled one. -/
def Packed (content : Slot → Option Value) (slots : List Slot) : Prop :=
  slots.Pairwise fun first second => (content second).isSome → (content first).isSome

@[simp] theorem values_nil : values content [] = [] := rfl

theorem mem_values {value : Value} : value ∈ values content slots ↔ ∃ slot ∈ slots, content slot = some value :=
  List.mem_filterMap

theorem values_append : values content (before ++ after) = values content before ++ values content after :=
  List.filterMap_append

theorem values_cons_some {value : Value} (filled : content slot = some value) :
    values content (slot :: slots) = value :: values content slots :=
  List.filterMap_cons_some filled

theorem values_cons_none (empty : content slot = none) : values content (slot :: slots) = values content slots :=
  List.filterMap_cons_none empty

theorem values_replicate (empty : content blank = none) (n : Nat) :
    values content (List.replicate n blank) = [] := by
  induction n with
  | zero => rfl
  | succ n ih => rw [List.replicate_succ, values_cons_none empty, ih]

@[simp] theorem packed_nil : Packed content [] := List.Pairwise.nil

theorem packed_cons_some (filled : (content slot).isSome) : Packed content (slot :: slots) ↔ Packed content slots := by
  rw [Packed, List.pairwise_cons]
  exact ⟨And.right, fun packed => ⟨fun _ _ _ => filled, packed⟩⟩

/-- After an empty slot all are empty. -/
theorem packed_cons_none (empty : content slot = none) :
    Packed content (slot :: slots) ↔ ∀ other ∈ slots, content other = none := by
  rw [Packed, List.pairwise_cons]
  constructor
  · intro ⟨first, _⟩ other member
    have implied := first other member
    simpa [empty] using implied
  · intro none
    constructor
    · intro other member filled
      rw [none other member] at filled
      cases filled
    · refine List.Pairwise.imp_of_mem (R := fun _ _ => True) ?_ (List.pairwise_of_forall fun _ _ => trivial)
      intro _ second _ member _ filled
      rw [none second member] at filled
      cases filled

theorem packed_replicate (empty : content blank = none) (n : Nat) : Packed content (List.replicate n blank) := by
  cases n with
  | zero => exact packed_nil
  | succ n =>
      rw [List.replicate_succ, packed_cons_none empty]
      intro other member
      rw [List.eq_of_mem_replicate member, empty]

/-- Filled slots in front change nothing. -/
theorem packed_append_filled (filled : ∀ slot ∈ before, (content slot).isSome) :
    Packed content (before ++ after) ↔ Packed content after := by
  induction before with
  | nil => rfl
  | cons slot before ih =>
      rw [List.cons_append, packed_cons_some (filled slot (List.mem_cons_self ..)),
        ih fun other member => filled other (List.mem_cons_of_mem _ member)]

theorem Packed.tail (packed : Packed content (slot :: slots)) : Packed content slots := List.Pairwise.of_cons packed

/-- A reader that stops at the first empty slot misses nothing. -/
theorem Packed.takeWhile_eq_filter (packed : Packed content slots) :
    (slots.takeWhile fun slot => (content slot).isSome) = slots.filter fun slot => (content slot).isSome := by
  induction slots with
  | nil => rfl
  | cons slot slots ih =>
      cases here : content slot with
      | some value => simp [here, ih packed.tail]
      | none =>
          have empty := (packed_cons_none here).mp packed
          have nothing : slots.filter (fun slot => (content slot).isSome) = [] :=
            List.filter_eq_nil_iff.mpr fun other member => by simp [empty other member]
          simp [here, nothing]

/-- Only the contents count. -/
theorem packed_iff_map : Packed content slots ↔ Packed id (slots.map content) := by
  rw [Packed, Packed, List.pairwise_map]
  exact Iff.rfl

/-- The first filled slot, which is left blank. -/
def takeFirst (content : Slot → Option Value) (blank : Slot) : List Slot → Option (Slot × List Slot)
  | [] => none
  | slot :: slots =>
      if (content slot).isSome then some (slot, blank :: slots)
      else (takeFirst content blank slots).map fun (first, rest) => (first, slot :: rest)

theorem takeFirst_none (nothing : takeFirst content blank slots = none) : ∀ slot ∈ slots, content slot = none := by
  induction slots with
  | nil => exact fun _ member => absurd member (List.not_mem_nil)
  | cons slot slots ih =>
      unfold takeFirst at nothing
      by_cases filled : (content slot).isSome = true
      · rw [if_pos filled] at nothing
        cases nothing
      · rw [if_neg filled, Option.map_eq_none_iff] at nothing
        intro other member
        rcases List.mem_cons.mp member with here | later
        · rw [here]
          exact Option.not_isSome_iff_eq_none.mp filled
        · exact ih nothing other later

/-- The rest keeps its length and the order of its values, and gains only blanks. -/
theorem takeFirst_some (emptied : content blank = none) {first : Slot} {rest : List Slot}
    (taken : takeFirst content blank slots = some (first, rest)) :
    first ∈ slots ∧ (content first).isSome ∧ rest.length = slots.length ∧
      values content slots = values content (first :: rest) ∧ ∀ slot ∈ rest, slot ∈ slots ∨ slot = blank := by
  induction slots generalizing rest with
  | nil => cases taken
  | cons slot slots ih =>
      unfold takeFirst at taken
      by_cases filled : (content slot).isSome = true
      · rw [if_pos filled, Option.some_inj, Prod.mk.injEq] at taken
        obtain ⟨rfl, rfl⟩ := taken
        obtain ⟨value, here⟩ := Option.isSome_iff_exists.mp filled
        refine ⟨List.mem_cons_self .., filled, rfl, ?_, ?_⟩
        · rw [values_cons_some here, values_cons_some here, values_cons_none emptied]
        · intro other member
          rcases List.mem_cons.mp member with same | later
          · exact .inr same
          · exact .inl (List.mem_cons_of_mem _ later)
      · rw [if_neg filled] at taken
        obtain ⟨⟨found, remaining⟩, inner, same⟩ := Option.map_eq_some_iff.mp taken
        obtain ⟨rfl, rfl⟩ := Prod.mk.injEq .. ▸ same
        obtain ⟨member, full, length, order, kept⟩ := ih inner
        have empty := Option.not_isSome_iff_eq_none.mp filled
        obtain ⟨value, there⟩ := Option.isSome_iff_exists.mp full
        refine ⟨List.mem_cons_of_mem _ member, full, by simp [length], ?_, ?_⟩
        · rw [values_cons_none empty, order, values_cons_some there, values_cons_some there, values_cons_none empty]
        · intro other present
          rcases List.mem_cons.mp present with same | later
          · exact .inl (same ▸ List.mem_cons_self ..)
          · exact (kept other later).imp_left (List.mem_cons_of_mem _)

/-- Nothing is lost: the filled slots are the first one and those of the rest. -/
theorem takeFirst_filter (emptied : content blank = none) {first : Slot} {rest : List Slot}
    (taken : takeFirst content blank slots = some (first, rest)) :
    (slots.filter fun slot => (content slot).isSome) = first :: rest.filter fun slot => (content slot).isSome := by
  induction slots generalizing rest with
  | nil => cases taken
  | cons slot slots ih =>
      unfold takeFirst at taken
      by_cases filled : (content slot).isSome = true
      · rw [if_pos filled, Option.some_inj, Prod.mk.injEq] at taken
        obtain ⟨rfl, rfl⟩ := taken
        simp [filled, emptied]
      · rw [if_neg filled] at taken
        obtain ⟨⟨found, remaining⟩, inner, same⟩ := Option.map_eq_some_iff.mp taken
        obtain ⟨rfl, rfl⟩ := Prod.mk.injEq .. ▸ same
        simpa [filled] using ih inner

/-- There is a gap at the front afterwards. -/
theorem takeFirst_gap (emptied : content blank = none) {first : Slot} {rest : List Slot}
    (taken : takeFirst content blank slots = some (first, rest)) :
    ∃ gap others, rest = gap :: others ∧ content gap = none := by
  cases slots with
  | nil => cases taken
  | cons slot slots =>
      unfold takeFirst at taken
      by_cases filled : (content slot).isSome = true
      · rw [if_pos filled, Option.some_inj, Prod.mk.injEq] at taken
        exact ⟨blank, slots, taken.2.symm, emptied⟩
      · rw [if_neg filled] at taken
        obtain ⟨⟨found, remaining⟩, inner, same⟩ := Option.map_eq_some_iff.mp taken
        rw [Prod.mk.injEq] at same
        exact ⟨slot, remaining, same.2.symm, Option.not_isSome_iff_eq_none.mp filled⟩

end ZeroTierNode.Library.Packing

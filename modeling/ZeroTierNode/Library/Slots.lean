import Mathlib.Data.List.Induction
import Mathlib.Logic.Function.Basic

/-!
Storage in slots. An object is kept in the slot that a function of its name picks,
so objects with one slot overwrite each other; what a slot holds is what the last
write into it left.
-/

namespace ZeroTierNode.Library.Slots

variable {Name Slot Value : Type*}

/-- New contents for an object, or none to delete it. -/
structure Write (Name Value : Type*) where
  name : Name
  contents : Option Value

def write [DecidableEq Slot] (slot : Name → Slot) (storage : Slot → Option Value) (w : Write Name Value) :
    Slot → Option Value :=
  Function.update storage (slot w.name) w.contents

/-- What the last write to one of the selected objects left. -/
def lastWrite (selected : Name → Bool) (writes : List (Write Name Value)) : Option Value :=
  ((writes.filter fun w => selected w.name).getLast?).bind Write.contents

@[simp] theorem lastWrite_nil (selected : Name → Bool) :
    lastWrite selected ([] : List (Write Name Value)) = none := rfl

theorem lastWrite_concat (selected : Name → Bool) (writes : List (Write Name Value)) (w : Write Name Value) :
    lastWrite selected (writes ++ [w]) = if selected w.name then w.contents else lastWrite selected writes := by
  unfold lastWrite
  rw [List.filter_append]
  by_cases chosen : selected w.name = true
  · simp [chosen]
  · simp [chosen]

theorem lastWrite_congr {first second : Name → Bool} {writes : List (Write Name Value)}
    (agree : ∀ w ∈ writes, first w.name = second w.name) : lastWrite first writes = lastWrite second writes := by
  unfold lastWrite
  rw [List.filter_congr agree]

/-- A slot of a storage that was empty holds what the last write into it left. -/
theorem foldl_write [DecidableEq Slot] (slot : Name → Slot) (writes : List (Write Name Value)) (s : Slot) :
    writes.foldl (write slot) (fun _ => none) s = lastWrite (fun name => slot name = s) writes := by
  induction writes using List.reverseRecOn with
  | nil => rfl
  | append_singleton writes w ih =>
      rw [List.foldl_append, List.foldl_cons, List.foldl_nil, lastWrite_concat, write]
      by_cases here : slot w.name = s
      · rw [here, Function.update_self, if_pos (decide_eq_true rfl)]
      · rw [Function.update_of_ne (Ne.symm here), ih, if_neg (by simpa using here)]

/-- Objects whose slot no other written object has are kept apart. -/
theorem foldl_write_alone [DecidableEq Name] [DecidableEq Slot] {slot : Name → Slot}
    {writes : List (Write Name Value)} {name : Name}
    (alone : ∀ w ∈ writes, slot w.name = slot name → w.name = name) :
    writes.foldl (write slot) (fun _ => none) (slot name) = lastWrite (fun other => other = name) writes := by
  rw [foldl_write]
  apply lastWrite_congr
  intro w member
  rw [decide_eq_decide]
  exact ⟨alone w member, congrArg slot⟩

end ZeroTierNode.Library.Slots

import Mathlib.Data.List.Basic
import Mathlib.Data.List.Induction
import Mathlib.Data.List.DropRight
import Mathlib.Logic.Function.Basic

/-!
Rings of a fixed number of slots, written in turn by a counter that may itself wrap
around. They remember the last values pushed, and before they are full what they
were filled with.
-/

namespace ZeroTierNode.Library.Rings

variable {α : Type*} {n limit : Nat}

structure RingBuffer (α : Type*) where
  next : Nat
  slots : Nat → α

/-- A ring with the same value in every slot. -/
def filled (value : α) : RingBuffer α := ⟨0, fun _ => value⟩

/-- Write into slot `next` of `n`, the counter having `limit` values. -/
def push (n limit : Nat) (ring : RingBuffer α) (value : α) : RingBuffer α :=
  ⟨(ring.next + 1) % limit, Function.update ring.slots (ring.next % n) value⟩

def pushAll (n limit : Nat) (ring : RingBuffer α) (values : List α) : RingBuffer α := values.foldl (push n limit) ring

/-- One of the first `n` slots has the value. -/
def holds [DecidableEq α] (n : Nat) (ring : RingBuffer α) (value : α) : Bool :=
  (List.range n).any fun i => ring.slots i = value

theorem push_slots (ring : RingBuffer α) (value : α) :
    (push n limit ring value).slots = Function.update ring.slots (ring.next % n) value := rfl

theorem pushAll_concat (ring : RingBuffer α) (values : List α) (value : α) :
    pushAll n limit ring (values ++ [value]) = push n limit (pushAll n limit ring values) value := by
  rw [pushAll, List.foldl_append]
  rfl

/-- The counter and the number of pushes name the same slot. -/
theorem next_mod (divides : n ∣ limit) (value : α) (values : List α) :
    (pushAll n limit (filled value) values).next % n = values.length % n := by
  induction values using List.reverseRecOn with
  | nil => rfl
  | append_singleton values last ih =>
      rw [pushAll_concat, push, Nat.mod_mod_of_dvd _ divides, Nat.add_mod, ih, ← Nat.add_mod,
        List.length_append, List.length_singleton]

/-- What was pushed less than `n` pushes ago is in its slot. -/
theorem slots_recent (divides : n ∣ limit) (value : α) (values : List α) {j : Nat} (inside : j < values.length)
    (recent : values.length ≤ j + n) : (pushAll n limit (filled value) values).slots (j % n) = values[j] := by
  induction values using List.reverseRecOn with
  | nil => cases inside
  | append_singleton values last ih =>
      rw [List.length_append, List.length_singleton] at inside recent
      rw [pushAll_concat, push_slots, next_mod divides]
      by_cases here : j = values.length
      · subst here
        rw [Function.update_self, List.getElem_concat_length rfl]
      · have earlier : j < values.length := by omega
        have different : j % n ≠ values.length % n := by
          intro same
          have apart : (values.length - j) % n = 0 := Nat.sub_mod_eq_zero_of_mod_eq same.symm
          have short : values.length - j < n := by omega
          rw [Nat.mod_eq_of_lt short] at apart
          omega
        rw [Function.update_of_ne different, ih earlier (by omega), List.getElem_append_left earlier]

/-- A slot that no push has reached yet. -/
theorem slots_fresh (divides : n ∣ limit) (value : α) (values : List α) {i : Nat} (unreached : values.length ≤ i)
    (inside : i < n) : (pushAll n limit (filled value) values).slots i = value := by
  induction values using List.reverseRecOn with
  | nil => rfl
  | append_singleton values last ih =>
      rw [List.length_append, List.length_singleton] at unreached
      have different : i ≠ values.length % n := by
        rw [Nat.mod_eq_of_lt (by omega)]
        omega
      rw [pushAll_concat, push_slots, next_mod divides, Function.update_of_ne different]
      exact ih (by omega)

/-- The ring holds the last `n` values, and the first filling while there are fewer. -/
theorem holds_iff [DecidableEq α] (divides : n ∣ limit) (initial : α) (values : List α) (value : α) :
    holds n (pushAll n limit (filled initial) values) value = true ↔
      value ∈ values.rtake n ∨ (values.length < n ∧ value = initial) := by
  simp only [holds, List.any_eq_true, List.mem_range, decide_eq_true_eq, List.rtake]
  constructor
  · intro ⟨i, inside, found⟩
    by_cases reached : i < values.length
    · -- the last push into this slot
      have turns : n * ((values.length - 1 - i) / n) ≤ values.length - 1 - i := Nat.mul_div_le _ n
      have rest : values.length - 1 - i < n * ((values.length - 1 - i) / n) + n :=
        Nat.lt_mul_div_succ _ (by omega)
      let j := i + n * ((values.length - 1 - i) / n)
      have slot : j % n = i := by
        rw [Nat.add_mul_mod_self_left, Nat.mod_eq_of_lt inside]
      have recent := slots_recent divides initial values (j := j) (by omega) (by omega)
      rw [slot, found] at recent
      refine .inl (List.mem_iff_getElem.mpr ⟨j - (values.length - n), ?_, ?_⟩)
      · rw [List.length_drop]
        omega
      · rw [List.getElem_drop, recent]
        congr 1
        omega
    · rw [slots_fresh divides initial values (by omega) inside] at found
      exact .inr ⟨by omega, found.symm⟩
  · intro held
    rcases held with recent | ⟨few, same⟩
    · obtain ⟨k, inside, found⟩ := List.mem_iff_getElem.mp recent
      rw [List.length_drop] at inside
      rw [List.getElem_drop] at found
      have positive : 0 < n := by omega
      refine ⟨(values.length - n + k) % n, Nat.mod_lt _ positive, ?_⟩
      rw [slots_recent divides initial values (by omega) (by omega), found]
    · exact ⟨values.length, few, (slots_fresh divides initial values le_rfl few).trans same.symm⟩

end ZeroTierNode.Library.Rings

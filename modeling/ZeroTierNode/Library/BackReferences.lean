import Mathlib.Data.List.GetD
import ZeroTierNode.Library.StreamBuffers

/-!
Texts that go on with what they have already, one byte after the other from some bytes before their end, and memories
that come to hold such a text although they are copied many bytes at once.
-/

namespace ZeroTierNode.Library.BackReferences
open Library.Bytes Library.StreamBuffers

/-- The text after `n` more bytes, each the one `offset` bytes before it, or zero where there is none. -/
def copyBack (offset : Nat) : Nat → List Byte → List Byte
  | 0, text => text
  | n + 1, text => copyBack offset n (text ++ [text.getD (text.length - offset) 0])

theorem length_copyBack (offset n : Nat) (text : List Byte) : (copyBack offset n text).length = text.length + n := by
  induction n generalizing text with
  | zero => rfl
  | succ n ih =>
      rw [copyBack, ih, List.length_append, List.length_singleton]
      omega

/-- A copy of bytes that a longer text repeats gives more of that text. -/
theorem copyBack_take {whole : List Byte} {offset n p : Nat} (back : 0 < offset) (before : offset ≤ p)
    (inside : p + n ≤ whole.length)
    (repeats : ∀ j < n, whole.getD (p + j) 0 = whole.getD (p + j - offset) 0) :
    copyBack offset n (whole.take p) = whole.take (p + n) := by
  induction n generalizing p with
  | zero => rfl
  | succ n ih =>
      have size : (whole.take p).length = p := List.length_take_of_le (by omega)
      have source : (whole.take p).getD (p - offset) 0 = whole.getD (p - offset) 0 := by
        rw [List.getD_eq_getElem?_getD, List.getD_eq_getElem?_getD, List.getElem?_take_of_lt (by omega)]
      have this : whole.getD (p - offset) 0 = whole[p] := by
        have first := repeats 0 (Nat.succ_pos n)
        rw [Nat.add_zero, List.getD_eq_getElem whole 0 (by omega)] at first
        exact first.symm
      have longer : whole.take p ++ [whole[p]] = whole.take (p + 1) := List.take_append_getElem (by omega)
      rw [copyBack, size, source, this, longer, ih (by omega) (by omega)]
      · rw [Nat.add_right_comm, Nat.add_assoc]
      · intro j below
        have next := repeats (j + 1) (by omega)
        rw [show p + 1 + j = p + (j + 1) by omega]
        exact next

/-- The memory begins with the text. -/
def Begins (m : Memory) (text : List Byte) : Prop := ∀ i < text.length, m i = text.getD i 0

/-- From `a` to `b` each byte is the one `offset` bytes before it, or zero where that is the byte itself. -/
def Repeats (m : Memory) (offset a b : Nat) : Prop :=
  ∀ x, a ≤ x → x < b → m x = if offset = 0 then 0 else m (x - offset)

/-- A distance from which bytes can be copied behind `width` bytes that repeat with `offset`. -/
def Carries (offset width distance : Nat) : Prop :=
  if offset = 0 then 0 < distance ∧ distance ≤ width
  else 0 < distance ∧ offset ∣ distance ∧ distance ≤ width + offset

instance (offset width distance : Nat) : Decidable (Carries offset width distance) :=
  inferInstanceAs (Decidable (ite _ _ _))

section Texts

variable {m left : Memory} {text : List Byte}

theorem begins_congr (begins : Begins m text) (same : ∀ x < text.length, left x = m x) : Begins left text := by
  intro i inside
  rw [same i inside, begins i inside]

theorem begins_written {a count : Nat} {bytes : Nat → Byte} (begins : Begins m text) (behind : text.length ≤ a) :
    Begins (written a bytes count m) text :=
  begins_congr begins fun x inside => written_outside (Or.inl (by omega))

theorem begins_append {more : List Byte} (begins : Begins m text)
    (follows : ∀ i < more.length, m (text.length + i) = more.getD i 0) : Begins m (text ++ more) := by
  intro i inside
  rw [List.length_append] at inside
  by_cases early : i < text.length
  · rw [begins i early, List.getD_append text more 0 i early]
  · have position : text.length + (i - text.length) = i := by omega
    rw [List.getD_append_right text more 0 i (by omega), ← follows (i - text.length) (by omega), position]

/-- Bytes stored behind the text, some of which count. -/
theorem begins_store {more : List Byte} {count : Nat} {bytes : Nat → Byte} (begins : Begins m text)
    (enough : more.length ≤ count) (same : ∀ i < more.length, bytes i = more.getD i 0) :
    Begins (written text.length bytes count m) (text ++ more) := by
  apply begins_append (begins_written begins (Nat.le_refl _))
  intro i below
  rw [written_inside (by omega), same i below]

/-- One byte of the text that is stored again. -/
theorem begins_replace {before after : List Byte} {old : Byte} (new : Byte) (begins : Begins m (before ++ old :: after)) :
    Begins (written before.length (fun _ => new) 1 m) (before ++ new :: after) := by
  intro i inside
  have size : (before ++ old :: after).length = (before ++ new :: after).length := by
    rw [List.length_append, List.length_append, List.length_cons, List.length_cons]
  have byte := begins i (by omega)
  by_cases early : i < before.length
  · rw [written_outside (Or.inl early), byte, List.getD_append _ _ _ i early, List.getD_append _ _ _ i early]
  · obtain ⟨k, rfl⟩ : ∃ k, i = before.length + k := ⟨i - before.length, by omega⟩
    rw [List.getD_append_right _ _ _ _ (Nat.le_add_right _ _), Nat.add_sub_cancel_left] at byte
    rw [List.getD_append_right _ _ _ _ (Nat.le_add_right _ _), Nat.add_sub_cancel_left]
    cases k with
    | zero =>
        rw [written_inside Nat.one_pos]
        rfl
    | succ k =>
        rw [written_outside (Or.inr (by omega)), byte]
        rfl

theorem begins_of_append {more : List Byte} (begins : Begins m (text ++ more)) : Begins m text := by
  intro i inside
  rw [begins i (by rw [List.length_append]; omega), List.getD_append text more 0 i inside]

/-- The first `n` bytes. -/
def firstBytes (m : Memory) (n : Nat) : List Byte := (List.range n).map m

theorem begins_firstBytes (begins : Begins m text) : firstBytes m text.length = text := by
  have size : (firstBytes m text.length).length = text.length := by rw [firstBytes, List.length_map, List.length_range]
  apply List.ext_getElem size
  intro i inside inside'
  have byte := begins i inside'
  rw [List.getD_eq_getElem _ _ inside'] at byte
  rw [← byte]
  simp only [firstBytes, List.getElem_map, List.getElem_range]

theorem begins_copyBack {offset n : Nat} (begins : Begins m text) (before : offset ≤ text.length)
    (repeats : Repeats m offset text.length (text.length + n)) : Begins m (copyBack offset n text) := by
  induction n generalizing text with
  | zero => exact begins
  | succ n ih =>
      have size : (text ++ [text.getD (text.length - offset) 0]).length = text.length + 1 := by
        rw [List.length_append, List.length_singleton]
      have last : m text.length = text.getD (text.length - offset) 0 := by
        rw [repeats text.length (Nat.le_refl _) (by omega)]
        by_cases zero : offset = 0
        · rw [if_pos zero, zero, Nat.sub_zero, List.getD_eq_default _ _ (Nat.le_refl _)]
        · rw [if_neg zero, begins (text.length - offset) (by omega)]
      have longer : Begins m (text ++ [text.getD (text.length - offset) 0]) := by
        apply begins_append begins
        intro i inside
        have first : i = 0 := by simpa using inside
        rw [first, Nat.add_zero, last]
        rfl
      rw [copyBack]
      apply ih longer (by omega)
      intro x from' upto
      rw [size] at from' upto
      exact repeats x (by omega) (by omega)

end Texts

section Repetitions

variable {m : Memory} {offset distance a b c : Nat}

theorem repeats_zero (zeros : ∀ x, a ≤ x → x < b → m x = 0) : Repeats m 0 a b := by
  intro x from' upto
  rw [if_pos rfl, zeros x from' upto]

theorem repeats_congr {left : Memory} (repeats : Repeats m offset a b) (same : ∀ x < b, left x = m x) :
    Repeats left offset a b := by
  intro x from' upto
  rw [same x upto, repeats x from' upto]
  by_cases zero : offset = 0
  · rw [if_pos zero, if_pos zero]
  · rw [if_neg zero, if_neg zero, same (x - offset) (by omega)]

/-- Repetitions add up. -/
theorem repeats_multiple {k x : Nat} (positive : 0 < offset) (repeats : Repeats m offset a b)
    (start : a + k * offset ≤ x) (upto : x < b) : m x = m (x - (k + 1) * offset) := by
  induction k with
  | zero =>
      rw [Nat.zero_add, Nat.one_mul, repeats x (by omega) upto, if_neg (by omega)]
  | succ k ih =>
      have split : (k + 1) * offset = k * offset + offset := Nat.succ_mul k offset
      have back : x - (k + 1 + 1) * offset = x - (k + 1) * offset - offset := by
        rw [Nat.succ_mul (k + 1)]
        omega
      rw [ih (by omega), back, repeats (x - (k + 1) * offset) (by omega) (by omega), if_neg (by omega)]

/-- Bytes that are copied from a multiple of the offset go on with the repetition. -/
theorem repeats_extend (carries : Carries offset (b - a) distance) (order : a ≤ b) (first : Repeats m offset a b)
    (copied : ∀ x, b ≤ x → x < c → m x = m (x - distance)) : Repeats m offset a c := by
  intro x
  induction x using Nat.strong_induction_on with
  | _ x ih =>
    intro from' upto
    by_cases early : x < b
    · exact first x from' early
    · rw [copied x (by omega) upto]
      by_cases zero : offset = 0
      · rw [Carries, if_pos zero] at carries
        rw [if_pos zero, ih (x - distance) (by omega) (by omega) (by omega), if_pos zero]
      · rw [Carries, if_neg zero] at carries
        obtain ⟨positive, ⟨k, multiple⟩, reach⟩ := carries
        have soFar : Repeats m offset a x := fun y start below => ih y below start (by omega)
        rw [if_neg zero]
        cases k with
        | zero =>
            rw [multiple] at positive
            omega
        | succ k =>
            have product : distance = (k + 1) * offset := by rw [multiple, Nat.mul_comm]
            cases k with
            | zero => rw [product, Nat.zero_add, Nat.one_mul]
            | succ k =>
                have split : (k + 1 + 1) * offset = k * offset + offset + offset := by
                  rw [Nat.succ_mul, Nat.succ_mul]
                have several := repeats_multiple (x := x - offset) (k := k) (by omega) soFar (by omega) (by omega)
                have same : x - offset - (k + 1) * offset = x - distance := by
                  rw [product, split, Nat.succ_mul]
                  omega
                rw [several, same]

end Repetitions

end ZeroTierNode.Library.BackReferences

import ZeroTierNode.Library.Bytes

/-!
Programs that read memory byte by byte. A program is the tree of its reads, so what
it computes cannot depend on a byte that it does not read.
-/

namespace ZeroTierNode.Library.Readings
open Library.Bytes

inductive ByteReader (α : Type) where
  | done (value : α)
  | read (position : Nat) (next : Byte → ByteReader α)

namespace ByteReader

variable {α β : Type}

def bind : ByteReader α → (α → ByteReader β) → ByteReader β
  | done value, next => next value
  | read position rest, next => read position fun byte => (rest byte).bind next

instance : Monad ByteReader where
  pure := done
  bind := bind

/-- What the program computes over a memory. -/
def value (memory : Nat → Byte) : ByteReader α → α
  | done value => value
  | read position next => (next (memory position)).value memory

/-- Where it reads, in order. -/
def positions (memory : Nat → Byte) : ByteReader α → List Nat
  | done _ => []
  | read position next => position :: (next (memory position)).positions memory

/-- The program stays inside the first bytes. -/
def Inside (memory : Nat → Byte) (length : Nat) (program : ByteReader α) : Prop :=
  ∀ position ∈ program.positions memory, position < length

end ByteReader

open ByteReader

def byteAt (position : Nat) : ByteReader Byte := .read position .done

/-- Bytes one after the other. -/
def bytesFrom (start : Nat) : Nat → ByteReader (List Byte)
  | 0 => return []
  | count + 1 => do
      let byte ← byteAt start
      return byte :: (← bytesFrom (start + 1) count)

section Values

variable {α β : Type} (memory : Nat → Byte)

@[simp] theorem value_pure (result : α) : (pure result : ByteReader α).value memory = result := rfl

@[simp] theorem value_byteAt (position : Nat) : (byteAt position).value memory = memory position := rfl

@[simp] theorem value_byteAt_bind (position : Nat) (next : Byte → ByteReader β) :
    (byteAt position >>= next).value memory = (next (memory position)).value memory := rfl

theorem value_bind (first : ByteReader α) (next : α → ByteReader β) :
    (first >>= next).value memory = (next (first.value memory)).value memory := by
  induction first with
  | done value => rfl
  | read position rest ih => exact ih (memory position)

/-- What follows a program only sees what that program computed. -/
theorem value_bind_eq {memory : Nat → Byte} {first : ByteReader α} {found : α}
    (computed : first.value memory = found) (next : α → ByteReader β) :
    (first >>= next).value memory = (next found).value memory := by
  rw [value_bind, computed]

@[simp] theorem value_ite {condition : Prop} [Decidable condition] (first second : ByteReader α) :
    (if condition then first else second).value memory =
      if condition then first.value memory else second.value memory :=
  apply_ite (ByteReader.value memory) condition first second

theorem value_bytesFrom (start count : Nat) :
    (bytesFrom start count).value memory = (List.range count).map (fun i => memory (start + i)) := by
  induction count generalizing start with
  | zero => rfl
  | succ count ih =>
      have shifted (i : Nat) : start + 1 + i = start + (i + 1) := by omega
      rw [bytesFrom, value_bind, value_bind, value_byteAt, value_pure, ih, List.range_succ_eq_map, List.map_cons,
        List.map_map]
      simp only [shifted]
      rfl

end Values

section Positions

variable {α β : Type} {memory : Nat → Byte} {length : Nat}

theorem positions_bind (first : ByteReader α) (next : α → ByteReader β) :
    (first >>= next).positions memory = first.positions memory ++ (next (first.value memory)).positions memory := by
  induction first with
  | done value => rfl
  | read position rest ih => exact congrArg (position :: ·) (ih (memory position))

@[simp] theorem inside_pure (result : α) : (pure result : ByteReader α).Inside memory length ↔ True := by
  constructor
  · intro _
    trivial
  · intro _ position here
    cases here

@[simp] theorem inside_byteAt (position : Nat) : (byteAt position).Inside memory length ↔ position < length := by
  constructor
  · intro inside
    exact inside position (List.mem_singleton.mpr rfl)
  · intro below other here
    rw [List.mem_singleton.mp here]
    exact below

/-- A program stays inside if its first part does, and so does what follows. -/
@[simp] theorem inside_bind (first : ByteReader α) (next : α → ByteReader β) :
    (first >>= next).Inside memory length ↔
      first.Inside memory length ∧ (next (first.value memory)).Inside memory length := by
  unfold Inside
  rw [positions_bind]
  constructor
  · intro inside
    exact ⟨fun position here => inside position (List.mem_append_left _ here),
      fun position here => inside position (List.mem_append_right _ here)⟩
  · intro inside position here
    cases List.mem_append.mp here with
    | inl here => exact inside.1 position here
    | inr here => exact inside.2 position here

theorem inside_ite {condition : Prop} [Decidable condition] (first second : ByteReader α) :
    (if condition then first else second).Inside memory length ↔
      (condition → first.Inside memory length) ∧ (¬ condition → second.Inside memory length) := by
  by_cases holds : condition
  · rw [if_pos holds]
    exact ⟨fun inside => ⟨fun _ => inside, fun wrong => absurd holds wrong⟩, fun both => both.1 holds⟩
  · rw [if_neg holds]
    exact ⟨fun inside => ⟨fun wrong => absurd wrong holds, fun _ => inside⟩, fun both => both.2 holds⟩

theorem inside_bytesFrom {start count : Nat} (below : start + count ≤ length) :
    (bytesFrom start count).Inside memory length := by
  induction count generalizing start with
  | zero => exact (inside_pure []).mpr trivial
  | succ count ih =>
      have rest := @ih (start + 1) (by omega)
      rw [bytesFrom, inside_bind, inside_bind, inside_byteAt]
      exact ⟨by omega, rest, (inside_pure _).mpr trivial⟩

/-- Memory that is not read makes no difference. -/
theorem value_congr {other : Nat → Byte} {program : ByteReader α}
    (agree : ∀ position ∈ program.positions memory, other position = memory position) :
    program.value other = program.value memory := by
  induction program with
  | done value => rfl
  | read position next ih =>
      have here : other position = memory position := agree position List.mem_cons_self
      rw [ByteReader.value, ByteReader.value, here]
      exact ih (memory position) fun later there => agree later (List.mem_cons_of_mem _ there)

/-- A program that stays inside computes the same over every memory that begins alike. -/
theorem ByteReader.Inside.value_eq {other : Nat → Byte} {program : ByteReader α}
    (inside : program.Inside memory length) (alike : ∀ position < length, other position = memory position) :
    program.value other = program.value memory :=
  value_congr fun position here => alike position (inside position here)

end Positions

end ZeroTierNode.Library.Readings

import ZeroTierNode.Library.Bytes

/-!
Reads from a string of bytes in memory. A checked read throws where its check fails;
one without a check, or with a check that wraps around, can leave the string.
-/

namespace ZeroTierNode.Library.Accesses
open Library.Bytes

inductive Fault
  | threw | outOfBounds
deriving DecidableEq, Repr

/-- Code that reads memory. -/
abbrev Access := Except Fault

/-- Subtraction of 32-bit numbers. -/
def difference (a b : Nat) : Nat := (a + 2 ^ 32 - b % 2 ^ 32) % 2 ^ 32

theorem difference_eq {a b : Nat} (small : a < 2 ^ 32) (le : b ≤ a) : difference a b = a - b := by
  have subtrahend : b % 2 ^ 32 = b := Nat.mod_eq_of_lt (by omega)
  have wrapped : a + 2 ^ 32 - b = (a - b) + 2 ^ 32 := by omega
  rw [difference, subtrahend, wrapped, Nat.add_mod_right, Nat.mod_eq_of_lt (by omega)]

/-- A byte through a pointer. -/
def rawByte (bytes : List Byte) (i : Nat) : Access Byte :=
  match bytes[i]? with
  | some byte => .ok byte
  | none => .error .outOfBounds

/-- Bytes through a pointer. -/
def rawRange (bytes : List Byte) (start count : Nat) : Access (List Byte) :=
  match fieldAt bytes start count with
  | some found => .ok found
  | none => .error .outOfBounds

/-- Bytes behind a check that adds 32-bit numbers. -/
def checkedRange (bytes : List Byte) (start count : Nat) : Access (List Byte) :=
  if bytes.length < (start + count) % 2 ^ 32 then .error .threw else rawRange bytes start count

/-- A word behind such a check. -/
def checkedWord (width count : Nat) (bytes : List Byte) (start : Nat) : Access (BitVec width) := do
  let found ← checkedRange bytes start count
  return wordOf width found

/-- A value that throws where there is none. -/
def orThrow {α : Type} (value : Option α) : Access α := value.elim (.error .threw) .ok

/-- A field that may be left out. -/
def optionally {α : Type} (present : Bool) (read : Access α) (otherwise : α) : Access α :=
  if present then read else .ok otherwise

/-- The code stays inside the string. -/
def Safe {α : Type} (code : Access α) : Prop := code ≠ .error .outOfBounds

section Rules

variable {α β : Type}

theorem safe_ok (value : α) : Safe (.ok value) := fun wrong => nomatch wrong

theorem safe_orThrow (value : Option α) : Safe (orThrow value) := by
  cases value with
  | none => exact fun wrong => nomatch wrong
  | some value => exact safe_ok value

theorem orThrow_ok {value : Option α} {found : α} (ended : orThrow value = .ok found) : value = some found := by
  cases value with
  | none => cases ended
  | some value =>
      cases ended
      rfl

theorem orThrow_bind (value : Option α) (next : α → Option β) :
    orThrow (value.bind next) = orThrow value >>= fun found => orThrow (next found) := by
  cases value <;> rfl

theorem optionally_orThrow (present : Bool) (value : Option α) (otherwise : α) :
    optionally present (orThrow value) otherwise = orThrow (if present then value else some otherwise) := by
  cases present <;> rfl

theorem safe_bind {first : Access α} {next : α → Access β} (here : Safe first)
    (there : ∀ value, first = .ok value → Safe (next value)) : Safe (first >>= next) := by
  cases ended : first with
  | ok value => exact there value ended
  | error fault =>
      intro wrong
      apply here
      rw [ended]
      cases wrong
      rfl

/-- Where nothing that follows can leave the string, only the first part matters. -/
theorem safe_bind_iff {first : Access α} {next : α → Access β} (there : ∀ value, Safe (next value)) :
    Safe (first >>= next) ↔ Safe first := by
  constructor
  · intro safe wrong
    rw [wrong] at safe
    exact safe rfl
  · intro here
    exact safe_bind here (fun value _ => there value)

theorem safe_ite {condition : Prop} [Decidable condition] {first second : Access α} (yes : condition → Safe first)
    (no : ¬ condition → Safe second) : Safe (if condition then first else second) := by
  by_cases holds : condition
  · rw [if_pos holds]
    exact yes holds
  · rw [if_neg holds]
    exact no holds

end Rules

variable {bytes : List Byte} {start count : Nat}

theorem safe_rawByte {i : Nat} (inside : i < bytes.length) : Safe (rawByte bytes i) := by
  rw [rawByte, List.getElem?_eq_getElem inside]
  exact safe_ok _

/-- Where the sum does not wrap around, the check is right. -/
theorem checkedRange_eq (small : start + count < 2 ^ 32) :
    checkedRange bytes start count = orThrow (fieldAt bytes start count) := by
  rw [checkedRange, Nat.mod_eq_of_lt small, rawRange]
  by_cases inside : start + count ≤ bytes.length
  · rw [if_neg (by omega), fieldAt, if_pos inside]
    rfl
  · rw [if_pos (by omega), fieldAt, if_neg inside]
    rfl

theorem checkedWord_eq {width : Nat} (small : start + count < 2 ^ 32) :
    checkedWord width count bytes start = orThrow ((fieldAt bytes start count).map (wordOf width)) := by
  rw [checkedWord, checkedRange_eq small]
  cases fieldAt bytes start count <;> rfl

end ZeroTierNode.Library.Accesses

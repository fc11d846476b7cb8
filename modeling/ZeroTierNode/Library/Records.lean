import ZeroTierNode.Library.Bytes

/-!
Records one after another in a byte string: the loop that reads them until the
string or the room for them ends, and what it returns on a string that was
written record by record.
-/

namespace ZeroTierNode.Library.Records
open Bytes

variable {α : Type} {read : List Byte → Nat → Option (α × Nat)} {b : List Byte}

/-- Read at most `room` records from position `p`; the flag is false when a read threw. -/
def readRecords (read : List Byte → Nat → Option (α × Nat)) (b : List Byte) : Nat → Nat → List α × Bool
  | 0, _ => ([], true)
  | room + 1, p =>
      if p < b.length then
        match read b p with
        | some (record, taken) =>
            let (records, finished) := readRecords read b room (p + taken)
            (record :: records, finished)
        | none => ([], false)
      else ([], true)

/-- Wherever `bytes` stand, `read` returns this record and takes just these bytes. -/
def Recovers (read : List Byte → Nat → Option (α × Nat)) (bytes : List Byte) (record : α) : Prop :=
  ∀ b p, Stands bytes b p → read b p = some (record, bytes.length)

/-- `count` records can be read one after another from position `p`. -/
def HoldsRecords (read : List Byte → Nat → Option (α × Nat)) (b : List Byte) : Nat → Nat → Prop
  | 0, _ => True
  | count + 1, p =>
      p < b.length ∧ ∃ record taken, read b p = some (record, taken) ∧ HoldsRecords read b count (p + taken)

/-- Every record read takes some bytes. -/
def Progresses (read : List Byte → Nat → Option (α × Nat)) : Prop :=
  ∀ b p record taken, read b p = some (record, taken) → 0 < taken

theorem readRecords_length (room p : Nat) : (readRecords read b room p).1.length ≤ room := by
  induction room generalizing p with
  | zero => exact Nat.le_refl 0
  | succ room ih =>
      rw [readRecords]
      split
      · split
        · exact Nat.succ_le_succ (ih _)
        · exact Nat.zero_le _
      · exact Nat.zero_le _

/-- A read that throws leaves room behind. -/
theorem readRecords_unfinished {room p : Nat} (thrown : (readRecords read b room p).2 = false) :
    (readRecords read b room p).1.length < room := by
  induction room generalizing p with
  | zero => cases thrown
  | succ room ih =>
      rw [readRecords] at thrown ⊢
      by_cases inside : p < b.length
      · rw [if_pos inside] at thrown ⊢
        split at thrown
        · exact Nat.succ_lt_succ (ih thrown)
        · exact Nat.succ_pos room
      · rw [if_neg inside] at thrown
        cases thrown

theorem mem_readRecords {record : α} {room p : Nat} (found : record ∈ (readRecords read b room p).1) :
    ∃ position taken, read b position = some (record, taken) := by
  induction room generalizing p with
  | zero => cases found
  | succ room ih =>
      rw [readRecords] at found
      split at found
      · split at found
        · rename_i first taken first_read
          rcases List.mem_cons.mp found with same | later
          · rw [same]
            exact ⟨p, taken, first_read⟩
          · exact ih later
        · cases found
      · cases found

/-- With room for a record per remaining byte the loop never stops for lack of room. -/
theorem readRecords_count (progress : Progresses read) {room p : Nat} (enough : b.length - p ≤ room)
    (count : Nat) : count ≤ (readRecords read b room p).1.length ↔ HoldsRecords read b count p := by
  induction room generalizing p count with
  | zero =>
      cases count with
      | zero => simp [HoldsRecords]
      | succ count =>
          have ended : ¬p < b.length := by omega
          simp [HoldsRecords, readRecords, ended]
  | succ room ih =>
      cases count with
      | zero => simp [HoldsRecords]
      | succ count =>
          rw [readRecords, HoldsRecords]
          by_cases inside : p < b.length
          · rw [if_pos inside]
            cases first : read b p with
            | none => simp
            | some found =>
                obtain ⟨record, taken⟩ := found
                have moved := progress b p record taken first
                have later := @ih (p + taken) (by omega) count
                simp only [List.length_cons, Nat.add_le_add_iff_right, later, inside, true_and]
                constructor
                · intro rest
                  exact ⟨record, taken, rfl, rest⟩
                · rintro ⟨_, _, same, rest⟩
                  cases same
                  exact rest
          · rw [if_neg inside]
            simp [inside]

/-- A string written record by record is read back whole. -/
theorem readRecords_stands {write : α → List Byte} {records : List α}
    (recovers : ∀ record ∈ records, Recovers read (write record) record)
    (nonempty : ∀ record ∈ records, write record ≠ []) {room p : Nat} (enough : records.length ≤ room)
    (here : Stands (records.flatMap write) b p) (ends : p + (records.flatMap write).length = b.length) :
    readRecords read b room p = (records, true) := by
  induction records generalizing room p with
  | nil =>
      have ended : ¬p < b.length := by
        simp only [List.flatMap_nil, List.length_nil] at ends
        omega
      cases room with
      | zero => rfl
      | succ room => rw [readRecords, if_neg ended]
  | cons record records ih =>
      rw [List.flatMap_cons] at here ends
      obtain ⟨first, later⟩ := stands_append.mp here
      have positive := List.length_pos_iff.mpr (nonempty record List.mem_cons_self)
      rw [List.length_append] at ends
      cases room with
      | zero => cases enough
      | succ room =>
          have rest := ih (fun other found => recovers other (List.mem_cons_of_mem _ found))
            (fun other found => nonempty other (List.mem_cons_of_mem _ found))
            (Nat.le_of_succ_le_succ enough) later (by omega)
          rw [readRecords, if_pos (by omega), recovers record List.mem_cons_self b p first]
          dsimp only
          rw [rest]

/-- The records that were written, from the start of what was written. -/
theorem readRecords_written {write : α → List Byte} {records : List α}
    (recovers : ∀ record ∈ records, Recovers read (write record) record)
    (nonempty : ∀ record ∈ records, write record ≠ []) {room : Nat} (enough : records.length ≤ room) :
    readRecords read (records.flatMap write) room 0 = (records, true) :=
  readRecords_stands recovers nonempty enough (stands_self _) (Nat.zero_add _)

/-- As many records on both sides, told apart by what was written for each, are told apart together. -/
theorem flatMap_append_inj {β : Type} {write : α → List Byte} {key : α → β}
    (separates : ∀ first second rest others,
      write first ++ rest = write second ++ others → key first = key second ∧ rest = others)
    {firsts seconds : List α} {rest others : List Byte} (count : firsts.length = seconds.length)
    (same : firsts.flatMap write ++ rest = seconds.flatMap write ++ others) :
    firsts.map key = seconds.map key ∧ rest = others := by
  induction firsts generalizing seconds with
  | nil =>
      cases seconds with
      | nil => exact ⟨rfl, same⟩
      | cons second seconds => cases count
  | cons first firsts ih =>
      cases seconds with
      | nil => cases count
      | cons second seconds =>
          rw [List.flatMap_cons, List.flatMap_cons, List.append_assoc, List.append_assoc] at same
          obtain ⟨heads, tails⟩ := separates _ _ _ _ same
          obtain ⟨keys, rests⟩ := ih (Nat.succ_injective count) tails
          exact ⟨by rw [List.map_cons, List.map_cons, heads, keys], rests⟩

theorem length_flatMap_of_size {write : α → List Byte} {size : Nat} (sized : ∀ record, (write record).length = size)
    (records : List α) : (records.flatMap write).length = size * records.length := by
  induction records with
  | nil => rfl
  | cons record records ih =>
      rw [List.flatMap_cons, List.length_append, sized, ih, List.length_cons, Nat.mul_succ, Nat.add_comm]

theorem length_flatMap_le_of_mem {write : α → List Byte} {most : Nat} {records : List α}
    (each : ∀ record ∈ records, (write record).length ≤ most) : (records.flatMap write).length ≤ most * records.length := by
  induction records with
  | nil => simp
  | cons record records ih =>
      have first := each record List.mem_cons_self
      have others := ih fun record listed => each record (List.mem_cons_of_mem _ listed)
      rw [List.flatMap_cons, List.length_append, List.length_cons, Nat.mul_succ]
      omega

theorem length_flatMap_le {write : α → List Byte} {most : Nat} (records : List α)
    (each : ∀ record, (write record).length ≤ most) : (records.flatMap write).length ≤ most * records.length :=
  length_flatMap_le_of_mem fun record _ => each record

/-- Non-empty records are at most as many as their bytes. -/
theorem length_le_written {write : α → List Byte} {records : List α}
    (nonempty : ∀ record ∈ records, write record ≠ []) : records.length ≤ (records.flatMap write).length := by
  induction records with
  | nil => exact Nat.le_refl 0
  | cons record records ih =>
      have positive := List.length_pos_iff.mpr (nonempty record List.mem_cons_self)
      have rest := ih (fun other found => nonempty other (List.mem_cons_of_mem _ found))
      rw [List.flatMap_cons, List.length_append, List.length_cons]
      omega

end ZeroTierNode.Library.Records

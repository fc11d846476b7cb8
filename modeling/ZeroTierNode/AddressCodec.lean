import ZeroTierNode.WireForms

/-!
`InetAddress::serialize` and `InetAddress::deserialize` back to back, and how far a
parser gets that advances by the lengths that `deserialize` returns.
-/

namespace ZeroTierNode.AddressCodec
open Library.Bytes Buffer InetAddress

/-- `p += deserialize(b, p)`, as often as said; `none` when a read throws. -/
def advance (b : List Byte) : Nat → Nat → Option Nat
  | 0, p => some p
  | count + 1, p => (deserialize b p).bind fun read => advance b count (p + read.2)

/-- The length that is returned does not reach beyond the buffer. -/
def Inside (b : List Byte) (startAt : Nat) : Prop :=
  ∀ addr length, deserialize b startAt = some (addr, length) → startAt + length ≤ b.length

/-- No parser that starts here leaves the buffer. -/
def CallersInside (b : List Byte) (startAt : Nat) : Prop :=
  ∀ count stop, advance b count startAt = some stop → stop ≤ b.length

/-- An address of a type that is skipped is there in full: 7 bytes for the types 1 and 2, and as many as the 16 bits
behind the type say, and 3, for type 3. -/
def Whole (b : List Byte) (startAt : Nat) : Prop :=
  ∀ type, at8 b startAt = some type →
    (type = 1 ∨ type = 2 → startAt + 7 ≤ b.length) ∧
      (type = 3 → ∀ len, at16 b (startAt + 1) = some len → startAt + (len.toNat + 3) ≤ b.length)

section Reads

variable {b : List Byte} {startAt : Nat}

theorem inside_of_whole (whole : Whole b startAt) : Inside b startAt := by
  intro addr length read
  unfold deserialize at read
  obtain ⟨type, there, read⟩ := Option.bind_eq_some_iff.mp read
  have first : startAt + 1 ≤ b.length := atWord_inside there
  obtain ⟨fixed, counted⟩ := whole type there
  split at read
  · cases read
    exact first
  · rename_i one
    cases read
    exact fixed (.inl (BitVec.eq_of_toNat_eq one))
  · rename_i two
    cases read
    exact fixed (.inr (BitVec.eq_of_toNat_eq two))
  · rename_i three
    obtain ⟨len, found, read⟩ := Option.bind_eq_some_iff.mp read
    cases read
    exact counted (BitVec.eq_of_toNat_eq three) len found
  · obtain ⟨ip, -, read⟩ := Option.bind_eq_some_iff.mp read
    obtain ⟨port, found, read⟩ := Option.bind_eq_some_iff.mp read
    cases read
    exact (atWord_inside found : startAt + 5 + 2 ≤ b.length)
  · obtain ⟨ip, -, read⟩ := Option.bind_eq_some_iff.mp read
    obtain ⟨port, found, read⟩ := Option.bind_eq_some_iff.mp read
    cases read
    exact (atWord_inside found : startAt + 17 + 2 ≤ b.length)
  · cases read

theorem whole_of_inside (inside : Inside b startAt) : Whole b startAt := by
  intro type there
  constructor
  · intro fixed
    rcases fixed with one | two
    · subst one
      exact inside .nil 7 (by simp [deserialize, there])
    · subst two
      exact inside .nil 7 (by simp [deserialize, there])
  · intro three len found
    subst three
    exact inside .nil (len.toNat + 3) (by simp [deserialize, there, found])

theorem advance_succ (count p : Nat) :
    advance b (count + 1) p = (advance b count p).bind fun q => (deserialize b q).map fun read => q + read.2 := by
  induction count generalizing p with
  | zero =>
      cases read : deserialize b p with
      | none => simp [advance, read]
      | some found => simp [advance, read]
  | succ count ih =>
      rw [advance, advance, Option.bind_assoc]
      congr 1
      funext read
      exact ih (p + read.2)

/-- One step of a parser, and by it all steps. -/
theorem callersInside_iff :
    CallersInside b startAt ↔
      startAt ≤ b.length ∧ ∀ count p, advance b count startAt = some p → Whole b p := by
  constructor
  · intro callers
    refine ⟨callers 0 startAt rfl, fun count p here => whole_of_inside ?_⟩
    intro addr length read
    apply callers (count + 1)
    rw [advance_succ, here, Option.bind_some, read]
    rfl
  · intro ⟨start, whole⟩ count
    induction count with
    | zero =>
        intro stop run
        cases run
        exact start
    | succ count ih =>
        intro stop run
        rw [advance_succ] at run
        obtain ⟨p, here, run⟩ := Option.bind_eq_some_iff.mp run
        obtain ⟨read, found, stopped⟩ := Option.map_eq_some_iff.mp run
        have inside := inside_of_whole (whole count p here) read.1 read.2 found
        rwa [stopped] at inside

end Reads

theorem deserialize_serialize (addr : InetAddress) (before after : List Byte) :
    deserialize (before ++ (addr.serialize ++ after)) before.length = some (addr, addr.serialize.length) := by
  apply recovers addr
  rw [Stands, List.drop_left]
  exact List.prefix_append _ _

/-- What is written is read back, and no read goes beyond the buffer, but for skipped addresses that are cut off. -/
theorem codec_iff (b : List Byte) (startAt : Nat) :
    (∀ (addr : InetAddress) (before after : List Byte),
      deserialize (before ++ (addr.serialize ++ after)) before.length = some (addr, addr.serialize.length)) ∧
    (Inside b startAt ↔ Whole b startAt) ∧
    (CallersInside b startAt ↔
      startAt ≤ b.length ∧ ∀ count p, advance b count startAt = some p → Whole b p) :=
  ⟨deserialize_serialize, ⟨whole_of_inside, inside_of_whole⟩, callersInside_iff⟩

/-- A buffer that ends with the type of an Ethernet address. -/
theorem cut_address_skipped : deserialize [0x01] 0 = some (.nil, 7) ∧ advance [0x01] 1 0 = some 7 ∧
    ¬ Inside [0x01] 0 ∧ ¬ CallersInside [0x01] 0 := by
  refine ⟨rfl, rfl, fun inside => ?_, fun callers => ?_⟩
  · exact absurd (inside .nil 7 rfl) (by decide)
  · exact absurd (callers 1 7 rfl) (by decide)

end ZeroTierNode.AddressCodec

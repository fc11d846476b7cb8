import ZeroTierNode.Library.Bytes
import ZeroTierNode.Library.Runs

/-!
`Buffer<C>` as an array in memory with the variable `_l`, and the checks of its
operations in the 32-bit arithmetic of the processor. A read or write that leaves
the array ends a run: nothing is known of what follows.
-/

namespace ZeroTierNode.BufferBounds
open Library.Bytes Library.Runs

/-- `_b` and `_l`. What stands in the array behind `_l` is part of the object. -/
structure Buffer (C : BitVec 32) where
  b : List Byte
  array : b.length = C.toNat
  l : BitVec 32

/-- How a call ends: with a value, by `throw ZT_EXCEPTION_OUT_OF_BOUNDS`, or with an access outside the array. -/
inductive Result (C : BitVec 32) (α : Type) where
  | ok (value : α) (after : Buffer C)
  | threw (after : Buffer C)
  | outside

/-- The integer types, by their `sizeof`. -/
inductive IntType where
  | int8 | int16 | int32 | int64
deriving DecidableEq, Repr

def IntType.size : IntType → Nat
  | int8 => 1 | int16 => 2 | int32 => 4 | int64 => 8

/-- `sizeof(T)`, a `size_t`, which has 32 bits here. -/
def IntType.sizeof (T : IntType) : BitVec 32 := BitVec.ofNat 32 T.size

/-- Bytes whose number is an `unsigned int`. -/
structure Data where
  bytes : List Byte
  short : bytes.length < 2 ^ 32

def Data.length (d : Data) : BitVec 32 := BitVec.ofNat 32 d.bytes.length

/-- A C string, without its NUL. -/
structure CString where
  bytes : List Byte
  clean : 0 ∉ bytes

/-- A buffer within its capacity. -/
structure Sized (C : BitVec 32) extends Buffer C where
  sized : l ≤ C

namespace Buffer

variable {C : BitVec 32}

/-- Bytes of the array from a position on, if they lie in it. -/
def load (m : Buffer C) (start count : Nat) : Option (List Byte) :=
  if count = 0 ∨ start + count ≤ C.toNat then some ((m.b.drop start).take count) else none

theorem length_splice (m : Buffer C) {start : Nat} {bytes : List Byte}
    (inside : bytes = [] ∨ start + bytes.length ≤ C.toNat) :
    (m.b.take start ++ bytes ++ m.b.drop (start + bytes.length)).length = C.toNat := by
  have array := m.array
  rcases inside with rfl | inside
  · simpa using array
  · simp only [List.length_append, List.length_take, List.length_drop]
    omega

/-- Bytes put into the array from a position on, if they fit there. -/
def store (m : Buffer C) (start : Nat) (bytes : List Byte) : Option (Buffer C) :=
  if inside : bytes = [] ∨ start + bytes.length ≤ C.toNat then
    some { m with b := m.b.take start ++ bytes ++ m.b.drop (start + bytes.length), array := m.length_splice inside }
  else none

/-- Read, and return what was read. -/
def reading (m : Buffer C) (start count : Nat) : Result C (List Byte) :=
  match m.load start count with
  | some bytes => .ok bytes m
  | none => .outside

/-- Write, and set `_l`. -/
def writing (m : Buffer C) (start : Nat) (bytes : List Byte) (l : BitVec 32) : Result C Unit :=
  match m.store start bytes with
  | some after => .ok () { after with l := l }
  | none => .outside

/-- `memmove` within the array, and set `_l`. -/
def moving (m : Buffer C) (target source count : Nat) (l : BitVec 32) : Result C Unit :=
  match m.load source count with
  | some bytes => m.writing target bytes l
  | none => .outside

/-- `operator[]`; the value can also be assigned to. -/
def index (m : Buffer C) (i : BitVec 32) : Result C (List Byte) :=
  if m.l ≤ i then .threw m else m.reading i.toNat 1

def setIndex (m : Buffer C) (i : BitVec 32) (v : Byte) : Result C Unit :=
  if m.l ≤ i then .threw m else m.writing i.toNat [v] m.l

/-- `field`: the position in the array that the pointer stands for. -/
def field (m : Buffer C) (i l : BitVec 32) : Result C (BitVec 32) :=
  if m.l < i + l then .threw m else .ok i m

/-- `at<T>`, with the bytes in network order. -/
def atInt (m : Buffer C) (T : IntType) (i : BitVec 32) : Result C (List Byte) :=
  if m.l < i + T.sizeof then .threw m else m.reading i.toNat T.size

def setAt (m : Buffer C) (T : IntType) (i : BitVec 32) (v : BitVec 64) : Result C Unit :=
  if m.l < i + T.sizeof then .threw m else m.writing i.toNat (wordBytes T.size v) m.l

/-- `append<T>`. -/
def appendInt (m : Buffer C) (T : IntType) (v : BitVec 64) : Result C Unit :=
  if C < m.l + T.sizeof then .threw m else m.writing m.l.toNat (wordBytes T.size v) (m.l + T.sizeof)

/-- The loop of `append(c, n)`. -/
def appendLoop (c : Byte) : Nat → Buffer C → Result C Unit
  | 0, m => .ok () m
  | n + 1, m =>
      match m.store m.l.toNat [c] with
      | some after => appendLoop c n { after with l := m.l + 1 }
      | none => .outside

/-- `append(c, n)`. -/
def appendRun (m : Buffer C) (c : Byte) (n : BitVec 32) : Result C Unit :=
  if C < m.l + n then .threw m else appendLoop c n.toNat m

/-- `append(b, l)`. -/
def append (m : Buffer C) (d : Data) : Result C Unit :=
  if C < m.l + d.length then .threw m else m.writing m.l.toNat d.bytes (m.l + d.length)

/-- `appendRandom(n)`, with the n bytes that the generator gives. -/
def appendRandom (m : Buffer C) (random : Data) : Result C Unit := m.append random

/-- The loop of `appendCString` over the string and its NUL. -/
def appendCStringLoop : List Byte → Buffer C → Result C Unit
  | [], m => .ok () m
  | c :: s, m =>
      if C ≤ m.l then .threw m
      else
        match m.store m.l.toNat [c] with
        | some after => appendCStringLoop s { after with l := m.l + 1 }
        | none => .outside

def appendCString (m : Buffer C) (s : CString) : Result C Unit := appendCStringLoop (s.bytes ++ [0]) m

/-- The bytes of a buffer up to `_l`. -/
def data {C' : BitVec 32} (m : Buffer C') : Data where
  bytes := m.b.take m.l.toNat
  short := by
    rw [List.length_take]
    exact lt_of_le_of_lt (Nat.min_le_left ..) m.l.isLt

/-- `append` of a buffer. -/
def appendBuffer (m : Buffer C) {C' : BitVec 32} (other : Sized C') : Result C Unit := m.append other.data

/-- `appendField`: where the field starts. Nothing is written. -/
def appendField (m : Buffer C) (l : BitVec 32) : Result C (BitVec 32) :=
  if C < m.l + l then .threw m else .ok m.l { m with l := m.l + l }

def addSize (m : Buffer C) (i : BitVec 32) : Result C Unit :=
  if C < i + m.l then .threw m else .ok () { m with l := m.l + i }

def setSize (m : Buffer C) (i : BitVec 32) : Result C Unit :=
  if C < i then .threw m else .ok () { m with l := i }

def behead (m : Buffer C) (start : BitVec 32) : Result C Unit :=
  if start = 0 then .ok () m
  else if m.l < start then .threw m
  else m.moving 0 start.toNat (m.l - start).toNat (m.l - start)

def erase (m : Buffer C) (start length : BitVec 32) : Result C Unit :=
  let endr := start + length
  if m.l < endr then .threw m else m.moving start.toNat endr.toNat (m.l - endr).toNat (m.l - length)

def clear (m : Buffer C) : Result C Unit := .ok () { m with l := 0 }

def zero (m : Buffer C) : Result C Unit := m.writing 0 (List.replicate m.l.toNat 0) m.l

def zeroUnused (m : Buffer C) : Result C Unit :=
  m.writing m.l.toNat (List.replicate (C - m.l).toNat 0) m.l

def burn (m : Buffer C) : Result C Unit := m.writing 0 (List.replicate C.toNat 0) m.l

def copyFrom (m : Buffer C) (d : Data) : Result C Unit :=
  if C < d.length then .threw m else m.writing 0 d.bytes d.length

/-- `operator=`. Between buffers of one capacity the whole object is copied. -/
def assign (m : Buffer C) {C' : BitVec 32} (other : Sized C') : Result C Unit :=
  if C < other.l then .threw m
  else if same : C' = C then .ok () { b := other.b, array := same ▸ other.array, l := other.l }
  else m.writing 0 other.data.bytes other.l

/-- `operator==`: as many bytes of both are compared as either has, if they have the same number. -/
def equals (m : Buffer C) {C' : BitVec 32} (other : Sized C') : Result C Bool :=
  if m.l = other.l then
    match m.load 0 m.l.toNat with
    | some bytes => .ok (bytes = other.data.bytes) m
    | none => .outside
  else .ok false m

/-- `operator<`: the bytes that both have are compared. -/
def lessThan (m : Buffer C) {C' : BitVec 32} (other : Sized C') : Result C Bool :=
  let count := if other.l < m.l then other.l.toNat else m.l.toNat
  match m.load 0 count with
  | some bytes => .ok (bytes < other.data.bytes.take count) m
  | none => .outside

end Buffer

/-- The constructors, on the memory of the object. -/
inductive Construction where
  | empty
  | ofSize (l : BitVec 32)
  | ofData (d : Data)
  | ofBuffer (C' : BitVec 32) (other : Sized C')

def construct {C : BitVec 32} (memory : Buffer C) : Construction → Result C Unit
  | .empty => .ok () { memory with l := 0 }
  | .ofSize l => if C < l then .threw memory else .ok () { memory with l := l }
  | .ofData d => memory.copyFrom d
  | .ofBuffer _ other => memory.assign other

/-- The operations. -/
inductive Op where
  | index (i : BitVec 32)
  | setIndex (i : BitVec 32) (v : Byte)
  | field (i l : BitVec 32)
  | atInt (T : IntType) (i : BitVec 32)
  | setAt (T : IntType) (i : BitVec 32) (v : BitVec 64)
  | appendInt (T : IntType) (v : BitVec 64)
  | appendRun (c : Byte) (n : BitVec 32)
  | appendRandom (random : Data)
  | append (d : Data)
  | appendCString (s : CString)
  | appendBuffer (C' : BitVec 32) (other : Sized C')
  | appendField (l : BitVec 32)
  | addSize (i : BitVec 32)
  | setSize (i : BitVec 32)
  | behead (start : BitVec 32)
  | erase (start length : BitVec 32)
  | clear
  | zero
  | zeroUnused
  | burn
  | copyFrom (d : Data)
  | assign (C' : BitVec 32) (other : Sized C')
  | equals (C' : BitVec 32) (other : Sized C')
  | lessThan (C' : BitVec 32) (other : Sized C')

section Runs

variable {C : BitVec 32}

/-- A result without its value. -/
def Result.void {α : Type} : Result C α → Result C Unit
  | .ok _ after => .ok () after
  | .threw after => .threw after
  | .outside => .outside

def Op.run (m : Buffer C) : Op → Result C Unit
  | .index i => (m.index i).void
  | .setIndex i v => m.setIndex i v
  | .field i l => (m.field i l).void
  | .atInt T i => (m.atInt T i).void
  | .setAt T i v => m.setAt T i v
  | .appendInt T v => m.appendInt T v
  | .appendRun c n => m.appendRun c n
  | .appendRandom random => m.appendRandom random
  | .append d => m.append d
  | .appendCString s => m.appendCString s
  | .appendBuffer _ other => m.appendBuffer other
  | .appendField l => (m.appendField l).void
  | .addSize i => m.addSize i
  | .setSize i => m.setSize i
  | .behead start => m.behead start
  | .erase start length => m.erase start length
  | .clear => m.clear
  | .zero => m.zero
  | .zeroUnused => m.zeroUnused
  | .burn => m.burn
  | .copyFrom d => m.copyFrom d
  | .assign _ other => m.assign other
  | .equals _ other => (m.equals other).void
  | .lessThan _ other => (m.lessThan other).void

/-- The object after an operation, also after one that throws. -/
def step (m : Buffer C) (op : Op) : Buffer C :=
  match op.run m with
  | .ok _ after => after
  | .threw after => after
  | .outside => m

/-- A call stays in the array and leaves the size within the capacity; one that throws changes nothing. -/
def Result.Respects {α : Type} (before : Buffer C) : Result C α → Prop
  | .ok _ after => after.l ≤ C
  | .threw after => after = before
  | .outside => False

/-- A call returns. -/
def Result.Succeeds {α : Type} : Result C α → Prop
  | .ok _ _ => True
  | _ => False

/-- The range that `operator[]`, `field` or `at` is asked for. -/
def Op.range : Op → Option (Nat × Nat)
  | .index i => some (i.toNat, 1)
  | .setIndex i _ => some (i.toNat, 1)
  | .field i l => some (i.toNat, l.toNat)
  | .atInt T i => some (i.toNat, T.size)
  | _ => none

/-- What is asked of an operation. -/
structure Meets (m : Buffer C) (op : Op) : Prop where
  respects : (op.run m).Respects m
  exact_range : ∀ range, op.range = some range → ((op.run m).Succeeds ↔ range.1 + range.2 ≤ m.l.toNat)

/-- No sum of a check wraps around in a way that lets the operation go on where it should not, and no C string is
broken off. -/
def Inside (m : Buffer C) : Op → Prop
  | .field i l => i.toNat + l.toNat < 2 ^ 32 ∨ m.l < i + l
  | .atInt T i => i.toNat + T.size < 2 ^ 32 ∨ m.l < i + T.sizeof
  | .setAt T i _ => i.toNat + T.size < 2 ^ 32 ∨ m.l < i + T.sizeof
  | .appendInt T _ => m.l.toNat + T.size < 2 ^ 32
  | .appendRun _ n => m.l.toNat + n.toNat < 2 ^ 32
  | .appendRandom random => m.l.toNat + random.bytes.length < 2 ^ 32
  | .append d => m.l.toNat + d.bytes.length < 2 ^ 32
  | .appendBuffer _ other => m.l.toNat + other.l.toNat < 2 ^ 32
  | .appendCString s => m.l.toNat + s.bytes.length < C.toNat ∨ m.l = C
  | .erase start length => start.toNat + length.toNat < 2 ^ 32 ∨ m.l < start + length ∨
      start.toNat + (m.l - (start + length)).toNat ≤ C.toNat
  | _ => True

/-- A buffer is built and used, and everything is as asked. There is nothing to use when the constructor throws. -/
def Bounded (memory : Buffer C) (construction : Construction) (ops : List Op) : Prop :=
  match construct memory construction with
  | .ok _ m => m.l ≤ C ∧ Along step Meets m ops
  | .threw _ => True
  | .outside => False

/-- A buffer is built and used, and no operation goes wrong. -/
def Harmless (memory : Buffer C) (construction : Construction) (ops : List Op) : Prop :=
  match construct memory construction with
  | .ok _ m => Along step Inside m ops
  | _ => True

end Runs

namespace Buffer

variable {C : BitVec 32} {m : Buffer C}

theorem size_le {l : BitVec 32} (sized : l ≤ C) : l.toNat ≤ C.toNat := BitVec.le_def.mp sized

/-- A comparison with a sum that does not wrap around. -/
theorem lt_add_iff {a b c : BitVec 32} (whole : a.toNat + b.toNat < 2 ^ 32) :
    c < a + b ↔ c.toNat < a.toNat + b.toNat := by
  rw [BitVec.lt_def, BitVec.toNat_add_of_lt whole]

/-- A sum that wraps around is less than its terms. -/
theorem add_wraps {a b : BitVec 32} (wraps : ¬ a.toNat + b.toNat < 2 ^ 32) :
    (a + b).toNat + 2 ^ 32 = a.toNat + b.toNat := by
  have first := a.isLt
  have second := b.isLt
  rw [BitVec.toNat_add]
  omega

theorem toNat_sizeof (T : IntType) : T.sizeof.toNat = T.size := by cases T <;> rfl

theorem toNat_length (d : Data) : d.length.toNat = d.bytes.length := by
  rw [Data.length, BitVec.toNat_ofNat, Nat.mod_eq_of_lt d.short]

theorem length_data {C' : BitVec 32} (other : Sized C') : other.data.bytes.length = other.l.toNat := by
  rw [data, List.length_take, other.array]
  exact Nat.min_eq_left (size_le other.sized)

section Access

variable {start count : Nat} {bytes : List Byte}

theorem load_inside (inside : count = 0 ∨ start + count ≤ C.toNat) : ∃ bytes, m.load start count = some bytes :=
  ⟨_, if_pos inside⟩

theorem load_outside (outside : ¬ start + count ≤ C.toNat) (some_bytes : count ≠ 0) : m.load start count = none :=
  if_neg (not_or.mpr ⟨some_bytes, outside⟩)

theorem reading_inside (inside : start + count ≤ C.toNat) : ∃ bytes, m.reading start count = .ok bytes m := by
  obtain ⟨bytes, loaded⟩ := @load_inside C m start count (.inr inside)
  refine ⟨bytes, ?_⟩
  rw [reading, loaded]

theorem reading_outside (outside : ¬ start + count ≤ C.toNat) (some_bytes : count ≠ 0) :
    m.reading start count = .outside := by
  rw [reading, load_outside outside some_bytes]

theorem writing_inside (inside : bytes = [] ∨ start + bytes.length ≤ C.toNat) (l : BitVec 32) :
    ∃ after, m.writing start bytes l = .ok () after ∧ after.l = l := by
  unfold writing store
  rw [dif_pos inside]
  exact ⟨_, rfl, rfl⟩

theorem writing_outside (outside : ¬ start + bytes.length ≤ C.toNat) (some_bytes : bytes ≠ []) (l : BitVec 32) :
    m.writing start bytes l = .outside := by
  unfold writing store
  rw [dif_neg (not_or.mpr ⟨some_bytes, outside⟩)]

end Access

@[simp] theorem respects_void {α : Type} (r : Result C α) : r.void.Respects m ↔ r.Respects m := by
  cases r <;> exact Iff.rfl

@[simp] theorem succeeds_void {α : Type} (r : Result C α) : r.void.Succeeds ↔ r.Succeeds := by
  cases r <;> exact Iff.rfl

section Checks

variable {α : Type} {r : Result C α} {i w : BitVec 32}

/-- An access behind a check of a sum against the size. -/
theorem respects_checked_iff (sized : m.l ≤ C) (inside : i.toNat + w.toNat ≤ C.toNat → r.Respects m)
    (outside : ¬ i.toNat + w.toNat ≤ C.toNat → r = .outside) :
    (if m.l < i + w then Result.threw m else r).Respects m ↔ i.toNat + w.toNat < 2 ^ 32 ∨ m.l < i + w := by
  have capacity := C.isLt
  have size := size_le sized
  by_cases short : m.l < i + w
  · rw [if_pos short]
    exact iff_of_true rfl (.inr short)
  · rw [if_neg short, or_iff_left short]
    by_cases whole : i.toNat + w.toNat < 2 ^ 32
    · rw [lt_add_iff whole] at short
      exact iff_of_true (inside (by omega)) whole
    · rw [outside (by omega)]
      exact iff_of_false id whole

/-- Such a check is exact unless the sum wraps around below the size. -/
theorem succeeds_checked_iff (cond : i.toNat + w.toNat < 2 ^ 32 ∨ m.l < i + w) (good : ¬ m.l < i + w → r.Succeeds) :
    (if m.l < i + w then Result.threw m else r).Succeeds ↔ i.toNat + w.toNat ≤ m.l.toNat := by
  have size := m.l.isLt
  by_cases short : m.l < i + w
  · rw [if_pos short]
    apply iff_of_false id
    by_cases whole : i.toNat + w.toNat < 2 ^ 32
    · rw [lt_add_iff whole] at short
      omega
    · omega
  · rw [if_neg short]
    have whole := cond.resolve_right short
    apply iff_of_true (good short)
    rw [lt_add_iff whole] at short
    omega

/-- Bytes appended behind a check of the new size. -/
theorem respects_append_iff (sized : m.l ≤ C) {bytes : List Byte} (same : bytes.length = w.toNat) :
    (if C < m.l + w then Result.threw m else m.writing m.l.toNat bytes (m.l + w)).Respects m ↔
      m.l.toNat + w.toNat < 2 ^ 32 := by
  have capacity := C.isLt
  have size := size_le sized
  have word := w.isLt
  by_cases whole : m.l.toNat + w.toNat < 2 ^ 32
  · apply iff_of_true _ whole
    by_cases full : C < m.l + w
    · rw [if_pos full]
      exact rfl
    · rw [if_neg full]
      have fits : m.l.toNat + w.toNat ≤ C.toNat := by
        rw [lt_add_iff whole] at full
        omega
      obtain ⟨after, written, length⟩ := @writing_inside C m m.l.toNat bytes (.inr (same ▸ fits)) (m.l + w)
      rw [written]
      change after.l ≤ C
      rw [length]
      exact BitVec.not_lt.mp full
  · apply iff_of_false _ whole
    have wrapped := add_wraps whole
    have passes : ¬ C < m.l + w := by
      rw [BitVec.lt_def]
      omega
    have nonempty : bytes ≠ [] := by
      rintro rfl
      rw [List.length_nil] at same
      omega
    rw [if_neg passes, writing_outside (by omega) nonempty]
    exact id

end Checks

section Single

variable {c : Byte}

theorem store_one (room : m.l.toNat + 1 ≤ C.toNat) : ∃ after, m.store m.l.toNat [c] = some after := by
  have inside : [c] = [] ∨ m.l.toNat + [c].length ≤ C.toNat := .inr room
  unfold store
  rw [dif_pos inside]
  exact ⟨_, rfl⟩

theorem store_full (full : ¬ m.l.toNat + 1 ≤ C.toNat) : m.store m.l.toNat [c] = none := by
  have outside : ¬ ([c] = [] ∨ m.l.toNat + [c].length ≤ C.toNat) := not_or.mpr ⟨List.cons_ne_nil _ _, full⟩
  unfold store
  rw [dif_neg outside]

theorem toNat_next (room : m.l.toNat + 1 ≤ C.toNat) : (m.l + 1).toNat = m.l.toNat + 1 := by
  have capacity := C.isLt
  rw [BitVec.toNat_add]
  change (m.l.toNat + 1) % 2 ^ 32 = m.l.toNat + 1
  omega

end Single

/-- A run of single stores goes through where it fits, and otherwise leaves the array. -/
theorem appendLoop_eq (c : Byte) {n : Nat} (sized : m.l ≤ C) :
    (m.l.toNat + n ≤ C.toNat → ∃ after, appendLoop c n m = .ok () after ∧ after.l.toNat = m.l.toNat + n) ∧
      (¬ m.l.toNat + n ≤ C.toNat → appendLoop c n m = .outside) := by
  induction n generalizing m with
  | zero => exact ⟨fun _ => ⟨m, rfl, rfl⟩, fun outside => absurd (size_le sized) outside⟩
  | succ n ih =>
      rw [appendLoop]
      by_cases room : m.l.toNat + 1 ≤ C.toNat
      · obtain ⟨after, stored⟩ := @store_one C m c room
        have next := toNat_next room
        have later := @ih { after with l := m.l + 1 } (BitVec.le_def.mpr (next ▸ room))
        dsimp only at later
        rw [next] at later
        rw [stored]
        dsimp only
        constructor
        · intro fits
          obtain ⟨last, done, size⟩ := later.1 (by omega)
          exact ⟨last, done, by omega⟩
        · intro outside
          exact later.2 (by omega)
      · rw [store_full room]
        exact ⟨fun fits => absurd fits (by omega), fun _ => rfl⟩

/-- A C string goes in whole, or what fits of it does before the exception. -/
theorem appendCStringLoop_eq {s : List Byte} (sized : m.l ≤ C) :
    (m.l.toNat + s.length ≤ C.toNat → ∃ after, appendCStringLoop s m = .ok () after ∧ after.l ≤ C) ∧
      (¬ m.l.toNat + s.length ≤ C.toNat → ∃ after, appendCStringLoop s m = .threw after ∧ after.l = C ∧
        (m.l = C → after = m)) := by
  induction s generalizing m with
  | nil => exact ⟨fun _ => ⟨m, rfl, sized⟩, fun outside => absurd (size_le sized) outside⟩
  | cons c s ih =>
      rw [appendCStringLoop, List.length_cons]
      by_cases room : m.l.toNat + 1 ≤ C.toNat
      · obtain ⟨after, stored⟩ := @store_one C m c room
        have next := toNat_next room
        have later := @ih { after with l := m.l + 1 } (BitVec.le_def.mpr (next ▸ room))
        have passes : ¬ C ≤ m.l := by
          rw [BitVec.le_def]
          omega
        dsimp only at later
        rw [next] at later
        rw [if_neg passes, stored]
        dsimp only
        constructor
        · intro fits
          exact later.1 (by omega)
        · intro outside
          obtain ⟨last, broken, size, -⟩ := later.2 (by omega)
          exact ⟨last, broken, size, fun full => absurd (BitVec.le_of_eq full.symm) passes⟩
      · have full : C ≤ m.l := by
          rw [BitVec.le_def]
          omega
        rw [if_pos full]
        exact ⟨fun fits => absurd fits (by omega), fun _ => ⟨m, rfl, BitVec.le_antisymm sized full, fun _ => rfl⟩⟩

section Moves

variable {target source count : Nat}

theorem load_length (inside : source + count ≤ C.toNat) :
    ∃ bytes, m.load source count = some bytes ∧ bytes.length = count := by
  refine ⟨_, if_pos (.inr inside), ?_⟩
  rw [List.length_take, List.length_drop, m.array]
  omega

theorem moving_inside (from_inside : source + count ≤ C.toNat) (to_inside : count = 0 ∨ target + count ≤ C.toNat)
    (l : BitVec 32) : ∃ after, m.moving target source count l = .ok () after ∧ after.l = l := by
  obtain ⟨bytes, loaded, rfl⟩ := @load_length C m source count from_inside
  unfold moving
  rw [loaded]
  exact writing_inside (to_inside.imp_left List.length_eq_zero_iff.mp) l

theorem moving_outside (from_inside : source + count ≤ C.toNat) (some_bytes : count ≠ 0)
    (to_outside : ¬ target + count ≤ C.toNat) (l : BitVec 32) : m.moving target source count l = .outside := by
  obtain ⟨bytes, loaded, rfl⟩ := @load_length C m source count from_inside
  unfold moving
  rw [loaded]
  exact writing_outside to_outside (fun none => some_bytes (List.length_eq_zero_iff.mpr none)) l

end Moves

theorem respects_behead (sized : m.l ≤ C) (start : BitVec 32) : (m.behead start).Respects m := by
  have size := size_le sized
  unfold behead
  by_cases nothing : start = 0
  · rw [if_pos nothing]
    exact sized
  · rw [if_neg nothing]
    by_cases far : m.l < start
    · rw [if_pos far]
      exact rfl
    · rw [if_neg far]
      rw [BitVec.lt_def] at far
      have rest : (m.l - start).toNat = m.l.toNat - start.toNat := BitVec.toNat_sub_of_le (BitVec.le_def.mpr (by omega))
      obtain ⟨after, moved, length⟩ := @moving_inside C m 0 start.toNat (m.l - start).toNat (by omega)
        (.inr (by omega)) (m.l - start)
      rw [moved]
      change after.l ≤ C
      rw [length, BitVec.le_def]
      omega

theorem respects_erase_iff (sized : m.l ≤ C) (start length : BitVec 32) :
    (m.erase start length).Respects m ↔ start.toNat + length.toNat < 2 ^ 32 ∨ m.l < start + length ∨
      start.toNat + (m.l - (start + length)).toNat ≤ C.toNat := by
  have capacity := C.isLt
  have size := size_le sized
  have first := start.isLt
  have second := length.isLt
  unfold erase
  dsimp only
  by_cases far : m.l < start + length
  · rw [if_pos far]
    exact iff_of_true rfl (.inr (.inl far))
  · rw [if_neg far]
    have near := far
    rw [BitVec.lt_def] at near
    have rest : (m.l - (start + length)).toNat = m.l.toNat - (start + length).toNat :=
      BitVec.toNat_sub_of_le (BitVec.le_def.mpr (by omega))
    have after_size : (m.l - length).toNat = (2 ^ 32 - length.toNat + m.l.toNat) % 2 ^ 32 := BitVec.toNat_sub ..
    have from_inside : (start + length).toNat + (m.l - (start + length)).toNat ≤ C.toNat := by omega
    have sum : (start + length).toNat = (start.toNat + length.toNat) % 2 ^ 32 := BitVec.toNat_add ..
    by_cases to_inside : start.toNat + (m.l - (start + length)).toNat ≤ C.toNat
    · apply iff_of_true _ (.inr (.inr to_inside))
      obtain ⟨after, moved, same⟩ := @moving_inside C m start.toNat _ _ from_inside (.inr to_inside) (m.l - length)
      rw [moved]
      change after.l ≤ C
      rw [same, BitVec.le_def, after_size]
      omega
    · have wraps : ¬ start.toNat + length.toNat < 2 ^ 32 := by omega
      apply iff_of_false _ (not_or.mpr ⟨wraps, not_or.mpr ⟨far, to_inside⟩⟩)
      by_cases nothing : (m.l - (start + length)).toNat = 0
      · obtain ⟨after, moved, same⟩ := @moving_inside C m start.toNat _ _ from_inside (.inl nothing) (m.l - length)
        rw [moved]
        change ¬ after.l ≤ C
        rw [same, BitVec.le_def, after_size]
        omega
      · rw [moving_outside from_inside nothing to_inside]
        exact id

theorem respects_appendRun_iff (sized : m.l ≤ C) (c : Byte) (n : BitVec 32) :
    (m.appendRun c n).Respects m ↔ m.l.toNat + n.toNat < 2 ^ 32 := by
  have capacity := C.isLt
  have size := size_le sized
  have word := n.isLt
  unfold appendRun
  by_cases whole : m.l.toNat + n.toNat < 2 ^ 32
  · apply iff_of_true _ whole
    by_cases full : C < m.l + n
    · rw [if_pos full]
      exact rfl
    · rw [if_neg full]
      rw [lt_add_iff whole] at full
      obtain ⟨after, done, length⟩ := (@appendLoop_eq C m c n.toNat sized).1 (by omega)
      rw [done]
      change after.l ≤ C
      rw [BitVec.le_def]
      omega
  · apply iff_of_false _ whole
    have wrapped := add_wraps whole
    have passes : ¬ C < m.l + n := by
      rw [BitVec.lt_def]
      omega
    rw [if_neg passes, (@appendLoop_eq C m c n.toNat sized).2 (by omega)]
    exact id

theorem respects_appendCString_iff (sized : m.l ≤ C) (s : CString) :
    (m.appendCString s).Respects m ↔ m.l.toNat + s.bytes.length < C.toNat ∨ m.l = C := by
  have total : (s.bytes ++ [0]).length = s.bytes.length + 1 := by simp
  have loop := @appendCStringLoop_eq C m (s.bytes ++ [0]) sized
  rw [total] at loop
  unfold appendCString
  by_cases fits : m.l.toNat + s.bytes.length < C.toNat
  · obtain ⟨after, done, inside⟩ := loop.1 fits
    rw [done]
    exact iff_of_true inside (.inl fits)
  · obtain ⟨after, broken, full, unchanged⟩ := loop.2 (by omega)
    rw [broken, or_iff_right fits]
    constructor
    · intro same
      exact (congrArg Buffer.l (same : after = m)).symm.trans full
    · exact unchanged

theorem respects_assign {C' : BitVec 32} (other : Sized C') : (m.assign other).Respects m := by
  unfold assign
  split
  · exact rfl
  · rename_i small
    split
    · exact BitVec.not_lt.mp small
    · have fits : 0 + other.data.bytes.length ≤ C.toNat := by
        rw [length_data, Nat.zero_add]
        exact size_le (BitVec.not_lt.mp small)
      obtain ⟨after, written, length⟩ := @writing_inside C m 0 other.data.bytes (.inr fits) other.l
      rw [written]
      change after.l ≤ C
      rw [length]
      exact BitVec.not_lt.mp small

theorem respects_copyFrom (d : Data) : (m.copyFrom d).Respects m := by
  unfold copyFrom
  split
  · exact rfl
  · rename_i small
    have fits : 0 + d.bytes.length ≤ C.toNat := by
      rw [Nat.zero_add, ← toNat_length]
      exact size_le (BitVec.not_lt.mp small)
    obtain ⟨after, written, length⟩ := @writing_inside C m 0 d.bytes (.inr fits) d.length
    rw [written]
    change after.l ≤ C
    rw [length]
    exact BitVec.not_lt.mp small

/-- Zeros written to a part of the array. -/
theorem respects_zeros (sized : m.l ≤ C) {start count : Nat} (inside : start + count ≤ C.toNat) :
    (m.writing start (List.replicate count 0) m.l).Respects m := by
  have fits : start + (List.replicate count (0 : Byte)).length ≤ C.toNat := by rwa [List.length_replicate]
  obtain ⟨after, written, length⟩ := @writing_inside C m start _ (.inr fits) m.l
  rw [written]
  change after.l ≤ C
  rwa [length]

end Buffer

section Operations

variable {C : BitVec 32} {m : Buffer C}
open ZeroTierNode.BufferBounds.Buffer

theorem meets_of_no_range {op : Op} {cond : Prop} (none : op.range = none) (respects : (op.run m).Respects m ↔ cond) :
    Meets m op ↔ cond := by
  constructor
  · exact fun meets => respects.mp meets.respects
  · exact fun holds => ⟨respects.mpr holds, fun range asked => nomatch none.symm.trans asked⟩

theorem meets_of_range {op : Op} {range : Nat × Nat} {cond : Prop} (asked : op.range = some range)
    (respects : (op.run m).Respects m ↔ cond)
    (exact_range : cond → ((op.run m).Succeeds ↔ range.1 + range.2 ≤ m.l.toNat)) : Meets m op ↔ cond := by
  constructor
  · exact fun meets => respects.mp meets.respects
  · intro holds
    refine ⟨respects.mpr holds, fun other same => ?_⟩
    rw [← Option.some.inj (asked.symm.trans same)]
    exact exact_range holds

/-- One byte behind a check of its position. -/
theorem index_checked {α : Type} {r : Result C α} {i : BitVec 32} (inside : ¬ m.l ≤ i → r.Respects m ∧ r.Succeeds) :
    (if m.l ≤ i then Result.threw m else r).Respects m ∧
      ((if m.l ≤ i then Result.threw m else r).Succeeds ↔ i.toNat + 1 ≤ m.l.toNat) := by
  by_cases far : m.l ≤ i
  · rw [if_pos far]
    rw [BitVec.le_def] at far
    exact ⟨rfl, iff_of_false id (by omega)⟩
  · rw [if_neg far]
    have good := inside far
    rw [BitVec.le_def] at far
    exact ⟨good.1, iff_of_true good.2 (by omega)⟩

theorem meets_index (sized : m.l ≤ C) (i : BitVec 32) : Meets m (.index i) := by
  have size := size_le sized
  have checked := @index_checked C m _ (m.reading i.toNat 1) i fun far => by
    rw [BitVec.le_def] at far
    obtain ⟨bytes, read⟩ := @reading_inside C m i.toNat 1 (by omega)
    rw [read]
    exact ⟨sized, trivial⟩
  exact (@meets_of_range C m (.index i) (i.toNat, 1) True rfl (iff_of_true ((respects_void _).mpr checked.1) trivial)
    fun _ => (succeeds_void _).trans checked.2).mpr trivial

theorem meets_setIndex (sized : m.l ≤ C) (i : BitVec 32) (v : Byte) : Meets m (.setIndex i v) := by
  have size := size_le sized
  have checked := @index_checked C m _ (m.writing i.toNat [v] m.l) i fun far => by
    rw [BitVec.le_def] at far
    have fits : i.toNat + [v].length ≤ C.toNat := by
      rw [List.length_singleton]
      omega
    obtain ⟨after, written, length⟩ := @writing_inside C m i.toNat [v] (.inr fits) m.l
    rw [written]
    exact ⟨(congrArg (· ≤ C) length).mpr sized, trivial⟩
  exact (@meets_of_range C m (.setIndex i v) (i.toNat, 1) True rfl (iff_of_true checked.1 trivial)
    fun _ => checked.2).mpr trivial

theorem meets_field_iff (sized : m.l ≤ C) (i l : BitVec 32) :
    Meets m (.field i l) ↔ i.toNat + l.toNat < 2 ^ 32 ∨ m.l < i + l := by
  have size := m.l.isLt
  have safe : ((Op.field i l).run m).Respects m := by
    apply (respects_void _).mpr
    unfold field
    split
    · exact rfl
    · exact sized
  have checked := @succeeds_checked_iff C m _ (Result.ok i m) i l
  constructor
  · intro meets
    by_contra wrong
    rw [not_or] at wrong
    have returned : ((Op.field i l).run m).Succeeds := by
      apply (succeeds_void _).mpr
      unfold field
      rw [if_neg wrong.2]
      trivial
    have inside := (meets.exact_range _ rfl).mp returned
    dsimp only at inside
    omega
  · intro cond
    exact (@meets_of_range C m _ (i.toNat, l.toNat) True rfl (iff_of_true safe trivial) fun _ =>
      (succeeds_void _).trans (checked cond fun _ => trivial)).mpr trivial

theorem meets_atInt_iff (sized : m.l ≤ C) (T : IntType) (i : BitVec 32) :
    Meets m (.atInt T i) ↔ i.toNat + T.size < 2 ^ 32 ∨ m.l < i + T.sizeof := by
  have positive : T.size ≠ 0 := by cases T <;> decide
  have size := size_le sized
  rw [← toNat_sizeof]
  apply meets_of_range rfl
  · apply (respects_void _).trans
    apply respects_checked_iff sized
    · intro inside
      rw [toNat_sizeof] at inside
      obtain ⟨bytes, read⟩ := @reading_inside C m i.toNat T.size inside
      rw [read]
      exact sized
    · intro outside
      rw [toNat_sizeof] at outside
      exact reading_outside outside positive
  · intro cond
    have checked := @succeeds_checked_iff C m _ (m.reading i.toNat T.size) i T.sizeof cond fun near => by
      have whole := cond.resolve_right near
      rw [lt_add_iff whole, toNat_sizeof] at near
      obtain ⟨bytes, read⟩ := @reading_inside C m i.toNat T.size (by omega)
      rw [read]
      trivial
    rw [toNat_sizeof] at checked
    exact (succeeds_void _).trans checked

/-- An operation is in order exactly if it does not go wrong. -/
theorem meets_iff (sized : m.l ≤ C) (op : Op) : Meets m op ↔ Inside m op := by
  have size := size_le sized
  cases op with
  | index i => exact iff_of_true (meets_index sized i) trivial
  | setIndex i v => exact iff_of_true (meets_setIndex sized i v) trivial
  | field i l => exact meets_field_iff sized i l
  | atInt T i => exact meets_atInt_iff sized T i
  | setAt T i v =>
      apply meets_of_no_range rfl
      have length : (wordBytes T.size v).length = T.sizeof.toNat := by rw [wordBytes_length, toNat_sizeof]
      have fits : i.toNat + T.sizeof.toNat ≤ C.toNat → (m.writing i.toNat (wordBytes T.size v) m.l).Respects m := by
        intro inside
        rw [← length] at inside
        obtain ⟨after, written, same⟩ := @writing_inside C m i.toNat _ (.inr inside) m.l
        rw [written]
        exact (congrArg (· ≤ C) same).mpr sized
      have leaves : ¬ i.toNat + T.sizeof.toNat ≤ C.toNat →
          m.writing i.toNat (wordBytes T.size v) m.l = .outside := by
        intro outside
        rw [← length] at outside
        apply writing_outside outside
        intro nothing
        rw [nothing] at length
        cases T <;> cases length
      have all := respects_checked_iff sized fits leaves
      rwa [toNat_sizeof] at all
  | appendInt T v =>
      have length : (wordBytes T.size v).length = T.sizeof.toNat := by rw [wordBytes_length, toNat_sizeof]
      have all := respects_append_iff sized length
      rw [toNat_sizeof] at all
      exact meets_of_no_range rfl all
  | appendRun c n => exact meets_of_no_range rfl (respects_appendRun_iff sized c n)
  | appendRandom random =>
      have all := respects_append_iff sized (toNat_length random).symm
      rw [toNat_length] at all
      exact meets_of_no_range rfl all
  | append d =>
      have all := respects_append_iff sized (toNat_length d).symm
      rw [toNat_length] at all
      exact meets_of_no_range rfl all
  | appendCString s => exact meets_of_no_range rfl (respects_appendCString_iff sized s)
  | appendBuffer C' other =>
      have all := respects_append_iff sized (toNat_length other.data).symm
      rw [toNat_length, length_data] at all
      exact meets_of_no_range rfl all
  | appendField l =>
      apply (meets_of_no_range rfl (iff_of_true _ trivial))
      apply (respects_void _).mpr
      unfold appendField
      split
      · exact rfl
      · exact BitVec.not_lt.mp ‹_›
  | addSize i =>
      apply (meets_of_no_range rfl (iff_of_true _ trivial))
      change (m.addSize i).Respects m
      unfold addSize
      split
      · exact rfl
      · rename_i small
        rw [BitVec.add_comm] at small
        exact BitVec.not_lt.mp small
  | setSize i =>
      apply (meets_of_no_range rfl (iff_of_true _ trivial))
      change (m.setSize i).Respects m
      unfold setSize
      split
      · exact rfl
      · exact BitVec.not_lt.mp ‹_›
  | behead start => exact meets_of_no_range rfl (iff_of_true (respects_behead sized start) trivial)
  | erase start length => exact meets_of_no_range rfl (respects_erase_iff sized start length)
  | clear => exact meets_of_no_range rfl (iff_of_true (BitVec.le_def.mpr (Nat.zero_le _) : (0 : BitVec 32) ≤ C) trivial)
  | zero =>
      have inside : 0 + m.l.toNat ≤ C.toNat := by omega
      exact meets_of_no_range rfl (iff_of_true (respects_zeros sized inside) trivial)
  | zeroUnused =>
      have rest : (C - m.l).toNat = C.toNat - m.l.toNat := BitVec.toNat_sub_of_le sized
      have inside : m.l.toNat + (C - m.l).toNat ≤ C.toNat := by omega
      exact meets_of_no_range rfl (iff_of_true (respects_zeros sized inside) trivial)
  | burn =>
      have inside : 0 + C.toNat ≤ C.toNat := by omega
      exact meets_of_no_range rfl (iff_of_true (respects_zeros sized inside) trivial)
  | copyFrom d => exact meets_of_no_range rfl (iff_of_true (respects_copyFrom d) trivial)
  | assign C' other => exact meets_of_no_range rfl (iff_of_true (respects_assign other) trivial)
  | equals C' other =>
      apply (meets_of_no_range rfl (iff_of_true _ trivial))
      apply (respects_void _).mpr
      unfold equals
      split
      · obtain ⟨bytes, loaded⟩ := @load_inside C m 0 m.l.toNat (.inr (by omega))
        rw [loaded]
        exact sized
      · exact sized
  | lessThan C' other =>
      apply (meets_of_no_range rfl (iff_of_true _ trivial))
      apply (respects_void _).mpr
      have inside : 0 + (if other.l < m.l then other.l.toNat else m.l.toNat) ≤ C.toNat := by
        split
        · rename_i less
          rw [BitVec.lt_def] at less
          omega
        · omega
      obtain ⟨bytes, loaded⟩ := @load_inside C m 0 _ (.inr inside)
      unfold lessThan
      dsimp only
      rw [loaded]
      exact sized

/-- Steps that meet what is asked keep the size within the capacity. -/
theorem sized_step {op : Op} (meets : Meets m op) (sized : m.l ≤ C) : (step m op).l ≤ C := by
  have respects := meets.respects
  unfold step
  cases ended : op.run m with
  | ok value after =>
      rw [ended] at respects
      exact respects
  | threw after =>
      rw [ended] at respects
      exact (respects : after = m) ▸ sized
  | outside => exact sized

theorem respects_construct (memory : Buffer C) (construction : Construction) :
    (construct memory construction).Respects memory := by
  cases construction with
  | empty => exact BitVec.le_def.mpr (Nat.zero_le _)
  | ofSize l =>
      unfold construct
      dsimp only
      split
      · exact rfl
      · exact BitVec.not_lt.mp ‹_›
  | ofData d => exact respects_copyFrom d
  | ofBuffer C' other => exact respects_assign other

end Operations

/-- Everything a program does with a buffer is as asked exactly if no operation goes wrong. -/
theorem buffer_bounds_iff (C : BitVec 32) (memory : Buffer C) (construction : Construction) (ops : List Op) :
    Bounded memory construction ops ↔ Harmless memory construction ops := by
  have built := respects_construct memory construction
  unfold Bounded Harmless
  cases ended : construct memory construction with
  | ok value m =>
      rw [ended] at built
      have sized : m.l ≤ C := built
      dsimp only
      rw [and_iff_right sized]
      exact along_iff_of_kept (fun _ _ sized meets => sized_step meets sized) (fun _ op sized => meets_iff sized op) sized
  | threw after => exact Iff.rfl
  | outside =>
      rw [ended] at built
      exact False.elim built

/-- A field at the end of the address space passes the check of `field`. -/
theorem wrapped_field_passes :
    ¬ ∀ (C : BitVec 32) (memory : Buffer C) (construction : Construction) (ops : List Op),
      Bounded memory construction ops := by
  intro bounded
  have run : (0 : BitVec 32) ≤ 1 ∧ Along step Meets (⟨[0], rfl, 0⟩ : Buffer 1) [.field 0xffffffff 1] :=
    bounded 1 ⟨[0], rfl, 0⟩ .empty [.field 0xffffffff 1]
  have inside := (run.2.1.exact_range _ rfl).mp trivial
  exact absurd inside (by decide)

end ZeroTierNode.BufferBounds

import Mathlib.Algebra.Order.BigOperators.Group.Finset
import ZeroTierNode.ConfigAssembly
import ZeroTierNode.ConfigPersistence

/-!
What `ncSendConfig` sends is what `handleConfigChunk` puts together. The chunks of
an update are numbered; a slot that holds the update lists the numbers it has
received, and the update is complete when all of them are listed.
-/

namespace ZeroTierNode.ConfigDelivery
open Library.Bytes Buffer ConfigAssembly

/-- An update that a controller cuts into chunks of one size, the last of which may be shorter. -/
structure ConfigUpdate (capacity : Nat) where
  nwid : BitVec 64
  updateId : BitVec 64
  d : Dictionary capacity
  nonempty : d.text ≠ []
  size : Nat
  positive : 0 < size
  short : size < 2 ^ 16
  few : (d.text.length + (size - 1)) / size ≤ maxUpdateChunks capacity

namespace ConfigUpdate

variable {capacity : Nat} (u : ConfigUpdate capacity)

def total : Nat := u.d.text.length

/-- The number of chunks. -/
def count : Nat := (u.total + (u.size - 1)) / u.size

def chunkStart (number : Nat) : Nat := number * u.size

def chunkData (number : Nat) : List Byte := (u.d.text.drop (u.chunkStart number)).take u.size

def chunkLen (number : Nat) : Nat := min (u.total - u.chunkStart number) u.size

def part (number : Nat) : List Byte :=
  signedPart u.nwid u.updateId (BitVec.ofNat 32 u.total) (BitVec.ofNat 32 (u.chunkStart number)) (u.chunkData number)

def payload (sign : List Byte → Signature) (number : Nat) : List Byte :=
  chunkPacket sign u.nwid u.updateId (BitVec.ofNat 32 u.total) (BitVec.ofNat 32 (u.chunkStart number))
    (u.chunkData number)

/-- Everything the controller sends. -/
def sent (sign : List Byte → Signature) : List (List Byte) := (List.range u.count).map (u.payload sign)

def chunkId (sign : List Byte → Signature) (number : Nat) : BitVec 64 := chunkIdOf (sign (u.part number))

theorem mem_sent {sign : List Byte → Signature} {payload : List Byte} :
    payload ∈ u.sent sign ↔ ∃ number < u.count, payload = u.payload sign number := by
  rw [sent, List.mem_map]
  constructor
  · rintro ⟨number, inside, same⟩
    exact ⟨number, List.mem_range.mp inside, same.symm⟩
  · rintro ⟨number, inside, same⟩
    exact ⟨number, List.mem_range.mpr inside, same.symm⟩

theorem chunkStart_succ (number : Nat) : u.chunkStart (number + 1) = u.chunkStart number + u.size :=
  Nat.succ_mul _ _

theorem chunkData_length (number : Nat) : (u.chunkData number).length = u.chunkLen number := by
  rw [chunkData, List.length_take, List.length_drop, chunkLen, Nat.min_comm]
  rfl

theorem total_pos : 0 < u.total := List.length_pos_iff.mpr u.nonempty

theorem lt_count_iff (number : Nat) : number < u.count ↔ u.chunkStart number < u.total := by
  have positive := u.positive
  unfold count chunkStart
  rw [Nat.lt_iff_add_one_le, Nat.le_div_iff_mul_le positive, Nat.succ_mul]
  omega

theorem chunkLen_pos {number : Nat} (inside : number < u.count) : 0 < u.chunkLen number := by
  have starts := (u.lt_count_iff number).mp inside
  have positive := u.positive
  unfold chunkLen
  omega

/-- The chunks in front of `number` make up the text up to its start. -/
theorem sum_chunkLen (number : Nat) :
    ∑ earlier ∈ Finset.range number, u.chunkLen earlier = min u.total (u.chunkStart number) := by
  induction number with
  | zero =>
      rw [Finset.range_zero, Finset.sum_empty, chunkStart, Nat.zero_mul, Nat.min_zero]
  | succ number ih =>
      rw [Finset.sum_range_succ, ih]
      rw [chunkLen, chunkStart_succ]
      omega

theorem sum_all : ∑ number ∈ Finset.range u.count, u.chunkLen number = u.total := by
  have ends : ¬ u.chunkStart u.count < u.total := by
    rw [← u.lt_count_iff]
    exact Nat.lt_irrefl _
  rw [sum_chunkLen]
  omega

/-- The loop of `ncSendConfig` sends the chunks in order. -/
theorem sendChunks_from (sign : List Byte → Signature) (largest : u.size = maxChunkLen) (passes number : Nat)
    (enough : u.total - u.chunkStart number ≤ passes) :
    sendChunks sign u.nwid u.updateId u.d.text passes (min u.total (u.chunkStart number)) =
      (List.range' number (u.count - number)).map (u.payload sign) := by
  have positive := u.positive
  induction passes generalizing number with
  | zero =>
      have done : u.count - number = 0 := by
        have starts := u.lt_count_iff number
        omega
      rw [done]
      rfl
  | succ passes ih =>
      have starts := u.lt_count_iff number
      unfold sendChunks
      change (if min u.total (u.chunkStart number) < u.total then _ else _) = _
      by_cases inside : number < u.count
      · have before := starts.mp inside
        have more : u.count - number = (u.count - (number + 1)) + 1 := by omega
        have next : u.chunkStart number + min (u.total - u.chunkStart number) maxChunkLen =
            min u.total (u.chunkStart (number + 1)) := by
          rw [chunkStart_succ]
          omega
        rw [if_pos (by omega), Nat.min_eq_right (Nat.le_of_lt before), more, List.range'_succ, List.map_cons]
        change _ :: sendChunks sign u.nwid u.updateId u.d.text passes
          (u.chunkStart number + min (u.total - u.chunkStart number) maxChunkLen) = _
        rw [next, ih (number + 1) (by rw [chunkStart_succ]; omega)]
        congr 1
        unfold payload chunkData
        congr 1
        rw [Nat.min_comm, ← List.take_take, largest]
        congr 1
        apply List.take_of_length_le
        rw [List.length_drop]
      · have done : u.count - number = 0 := by omega
        rw [if_neg (by omega), done]
        rfl

theorem sendChunks_eq (sign : List Byte → Signature) (largest : u.size = maxChunkLen) :
    sendChunks sign u.nwid u.updateId u.d.text u.d.text.length 0 = u.sent sign := by
  have whole := u.sendChunks_from sign largest u.total 0 (Nat.sub_le _ _)
  rw [chunkStart, Nat.zero_mul, Nat.min_zero, Nat.sub_zero, ← List.range_eq_range'] at whole
  exact whole

end ConfigUpdate

theorem signedPart_length (nwid updateId : BitVec 64) (totalSize chunkIndex : BitVec 32) (data : List Byte) :
    (signedPart nwid updateId totalSize chunkIndex data).length = data.length + 27 := by
  simp only [signedPart, List.length_append, wordBytes_length]
  omega

/-- A chunk is read as it was sent, whatever stands in front of it. -/
theorem readChunk_chunkPacket {capacity : Nat} (head : List Byte) (sign : List Byte → Signature)
    (nwid updateId : BitVec 64) {totalSize chunkIndex : BitVec 32} {data : List Byte} (nonempty : data ≠ [])
    (short : data.length < 2 ^ 16)
    (checked : (chunkIndex + BitVec.ofNat 32 data.length).toNat ≤ totalSize.toNat)
    (below : totalSize.toNat < capacity) :
    readChunk capacity (head ++ chunkPacket sign nwid updateId totalSize chunkIndex data) head.length =
      some (.signed data ⟨false, updateId, totalSize, chunkIndex,
        sign (signedPart nwid updateId totalSize chunkIndex data),
        signedPart nwid updateId totalSize chunkIndex data⟩) := by
  let part := signedPart nwid updateId totalSize chunkIndex data
  let chunk := head ++ chunkPacket sign nwid updateId totalSize chunkIndex data
  have here : Stands (part ++ signatureField (sign part)) chunk head.length := by
    refine ⟨[], ?_⟩
    rw [List.append_nil, List.drop_left]
    rfl
  have partLength : part.length = data.length + 27 := signedPart_length _ _ _ _ _
  obtain ⟨whole, behind⟩ := stands_append.mp here
  have length : (BitVec.ofNat 16 data.length).toNat = data.length := by
    rw [BitVec.toNat_ofNat, Nat.mod_eq_of_lt short]
  have signed := fieldAt_of_stands whole (by
    intro empty
    rw [empty] at partLength
    cases partLength)
  obtain ⟨-, atLength⟩ := at64_of_stands whole
  obtain ⟨readLength, atData⟩ := at16_of_stands atLength
  obtain ⟨dataHere, atFlags⟩ := stands_append.mp atData
  have readData := fieldAt_of_stands dataHere nonempty
  obtain ⟨readFlags, atUpdate⟩ := at8_of_stands atFlags
  obtain ⟨readUpdate, atTotal⟩ := at64_of_stands atUpdate
  obtain ⟨readTotal, atIndex⟩ := at32_of_stands atTotal
  rw [← List.append_nil (wordBytes 4 chunkIndex)] at atIndex
  obtain ⟨readIndex, -⟩ := at32_of_stands atIndex
  rw [signatureField, List.append_assoc, ← List.append_nil (wordBytes 96 _)] at behind
  obtain ⟨readScheme, atSignatureLen⟩ := at8_of_stands behind
  obtain ⟨readSignatureLen, atSignature⟩ := at16_of_stands atSignatureLen
  obtain ⟨readSignature, -⟩ := atWord_of_stands (by decide : 768 ≤ 8 * 96) (by decide) atSignature
  have inside := behind.inside (by simp [wordBytes, bigEndian])
  have ptr : head.length + part.length = head.length + 10 + data.length + 17 := by omega
  have more : head.length + 10 + data.length < chunk.length := by
    rw [ptr] at inside
    omega
  rw [partLength] at signed
  rw [ptr] at readScheme readSignatureLen readSignature
  have width : (BitVec.ofNat 16 data.length).setWidth 32 = BitVec.ofNat 32 data.length := by
    rw [← BitVec.ofNat_toNat, length]
  have tail : readTail capacity chunk head.length (head.length + 10 + data.length) (BitVec.ofNat 16 data.length) =
      some (some ⟨false, updateId, totalSize, chunkIndex, sign part, part⟩) := by
    have passes : ¬ (totalSize.toNat < (chunkIndex + BitVec.ofNat 32 data.length).toNat ∨
        capacity ≤ totalSize.toNat) := by omega
    have span : head.length + 10 + data.length + 17 - head.length = data.length + 27 := by omega
    simp only [Nat.add_assoc, Nat.reduceAdd] at readFlags readUpdate readTotal readIndex
    simp only [Nat.add_assoc, Nat.reduceAdd] at readScheme readSignatureLen readSignature span
    simp only [readTail, Nat.add_assoc, readFlags, readUpdate, readTotal, readIndex, width, if_neg passes,
      readScheme, readSignatureLen, readSignature, span, signed, Option.bind_eq_bind, Option.bind_some]
    rfl
  have readData' : fieldAt chunk (head.length + 10) data.length = some data := readData
  unfold readChunk
  change ((at16 chunk (head.length + 8)).bind fun chunkLen => _) = _
  rw [readLength, Option.bind_some, length]
  change ((fieldAt chunk (head.length + 10) data.length).bind fun chunkData => _) = _
  rw [readData', Option.bind_some]
  dsimp only
  rw [if_pos more, tail]
  rfl

section Memory

variable {capacity : Nat}

theorem dictionary_eq {d other : Dictionary capacity} (same : d.text = other.text) : d = other := by
  cases d
  cases other
  cases same
  rfl

/-- A text that is followed by a NUL is the dictionary in the slot. -/
theorem dictionaryOf_eq (room : 0 < capacity) {d : Dictionary capacity} {data : Nat → Byte}
    (holds : ∀ position < d.text.length, data position = d.text.getD position 0) (ends : data d.text.length = 0) :
    dictionaryOf room data = d := by
  have fits := d.fits
  have prefixed : (List.range d.text.length).map data = d.text := by
    apply List.ext_getElem
    · rw [List.length_map, List.length_range]
    · intro position first second
      rw [List.getElem_map, List.getElem_range, holds position second, List.getD_eq_getElem _ _ second]
  have split : (List.range capacity).map data =
      d.text ++ 0 :: (List.range' (d.text.length + 1) (capacity - d.text.length - 1)).map data := by
    have numbers : List.range capacity = List.range d.text.length ++
        List.range' d.text.length (capacity - d.text.length - 1 + 1) := by
      have joined := @List.range'_append_1 0 d.text.length (capacity - d.text.length - 1 + 1)
      rw [Nat.zero_add] at joined
      rw [List.range_eq_range', List.range_eq_range', joined]
      congr 1
      omega
    rw [numbers, List.map_append, prefixed, List.range'_succ, List.map_cons, ends]
  have plain : ∀ c ∈ d.text, decide (c ≠ 0) = true := by
    intro c found
    apply decide_eq_true
    intro null
    exact d.terminated (null ▸ found)
  apply dictionary_eq
  change (cString ((List.range capacity).map data)).take (capacity - 1) = d.text
  rw [split, cString, List.takeWhile_append_of_pos plain, List.takeWhile_cons_of_neg (by decide),
    List.append_nil, List.take_of_length_le (by omega)]

variable (u : ConfigUpdate capacity) (addressable : capacity ≤ 2 ^ 32)

namespace ConfigUpdate

include addressable

theorem total_toNat : (BitVec.ofNat 32 u.total).toNat = u.total := by
  have fits : u.total < capacity := u.d.fits
  rw [BitVec.toNat_ofNat, Nat.mod_eq_of_lt (by omega)]

theorem position_in_chunk {number i : Nat} (inside : u.chunkStart number + i ≤ u.total) :
    (BitVec.ofNat 32 (u.chunkStart number) + BitVec.ofNat 32 i).toNat = u.chunkStart number + i := by
  have fits : u.total < capacity := u.d.fits
  rw [← BitVec.ofNat_add, BitVec.toNat_ofNat, Nat.mod_eq_of_lt (by omega)]

/-- Copying a chunk writes its part of the text and nothing else below the end of the text. -/
theorem memcpy_chunk (data : Nat → Byte) {number position : Nat} (below : position < u.total) :
    memcpy data (BitVec.ofNat 32 (u.chunkStart number)) (u.chunkData number) position =
      if position / u.size = number then u.d.text.getD position 0 else data position := by
  have fits : u.total < capacity := u.d.fits
  have positive := u.positive
  have length := u.chunkData_length number
  have parts := Nat.div_add_mod position u.size
  have rest : position % u.size < u.size := Nat.mod_lt _ positive
  by_cases here : position / u.size = number
  · rw [if_pos here]
    have place : position = u.chunkStart number + position % u.size := by
      rw [chunkStart, Nat.mul_comm, ← here]
      exact parts.symm
    have offset : position % u.size < (u.chunkData number).length := by
      rw [length, chunkLen]
      omega
    have copied := memcpy_inside data (BitVec.ofNat 32 (u.chunkStart number)) offset (by omega)
    rw [u.position_in_chunk addressable (by omega), ← place] at copied
    rw [copied, chunkData, List.getD_eq_getElem?_getD, List.getD_eq_getElem?_getD,
      List.getElem?_take_of_lt rest, List.getElem?_drop, ← place]
  · rw [if_neg here]
    apply memcpy_outside _ _ (by omega)
    intro found
    obtain ⟨i, offset, same⟩ := Finset.mem_image.mp found
    rw [Finset.mem_range, length, chunkLen] at offset
    rw [u.position_in_chunk addressable (by omega)] at same
    apply here
    rw [← same, chunkStart, Nat.mul_comm, Nat.mul_add_div positive, Nat.div_eq_of_lt (by omega), Nat.add_zero]

end ConfigUpdate

end Memory

section Slots

variable {capacity : Nat} (sign : List Byte → Signature) (u : ConfigUpdate capacity)

/-- A slot that has received these chunks of the update, in this order, and nothing else. -/
structure Holds (received : List Nat) (slot : IncomingConfigChunk) : Prop where
  update : slot.updateId = u.updateId
  numbers : ∀ number ∈ received, number < u.count
  distinct : received.Nodup
  ids : slot.haveChunkIds = received.map (u.chunkId sign)
  bytes : slot.haveBytes = BitVec.ofNat 32 (received.map u.chunkLen).sum
  text : ∀ position < u.total, position / u.size ∈ received → slot.data position = u.d.text.getD position 0

def Complete (received : List Nat) : Prop := ∀ number < u.count, number ∈ received

/-- What the slots hold of the update: nothing, or one of them the chunks received so far. -/
def Awaits (received : List Nat) (slots : Fin 3 → IncomingConfigChunk) : Prop :=
  (received = [] ∧ ∀ i, (slots i).updateId ≠ u.updateId) ∨
    ∃ i, Holds sign u received (slots i) ∧ ∀ j, j ≠ i → (slots j).updateId ≠ u.updateId

/-- The signatures of the chunks give them different ids. -/
def DistinctIds : Prop :=
  ∀ number < u.count, ∀ other < u.count, u.chunkId sign number = u.chunkId sign other → number = other

variable {sign u} {received : List Nat} {slots : Fin 3 → IncomingConfigChunk}

/-- Distinct chunks have as many bytes as the text exactly if they are all there. -/
theorem bytes_eq_total_iff (numbers : ∀ number ∈ received, number < u.count) (distinct : received.Nodup) :
    ((received.map u.chunkLen).sum = u.total ↔ Complete u received) ∧
      (received.map u.chunkLen).sum ≤ u.total := by
  have subset : received.toFinset ⊆ Finset.range u.count := by
    intro number found
    exact Finset.mem_range.mpr (numbers number (List.mem_toFinset.mp found))
  rw [← List.sum_toFinset u.chunkLen distinct, ← u.sum_all]
  refine ⟨⟨?_, ?_⟩, Finset.sum_le_sum_of_subset subset⟩
  · intro same number inside
    by_contra missing
    have fewer : ∑ number ∈ received.toFinset, u.chunkLen number <
        ∑ number ∈ Finset.range u.count, u.chunkLen number := by
      apply Finset.sum_lt_sum_of_subset subset (Finset.mem_range.mpr inside)
      · intro found
        exact missing (List.mem_toFinset.mp found)
      · exact u.chunkLen_pos inside
      · intro other _ _
        exact Nat.zero_le _
    exact absurd same (Nat.ne_of_lt fewer)
  · intro complete
    congr 1
    apply Finset.Subset.antisymm subset
    intro number inside
    exact List.mem_toFinset.mpr (complete number (Finset.mem_range.mp inside))

theorem slotFor_holder {i : Fin 3} {updateId : BitVec 64} (here : (slots i).updateId = updateId)
    (others : ∀ j, j ≠ i → (slots j).updateId ≠ updateId) : slotFor slots updateId = i := by
  unfold slotFor
  obtain rfl | rfl | rfl : i = 0 ∨ i = 1 ∨ i = 2 := by omega
  · simp only [findSlot, if_pos here]
    rfl
  · simp only [findSlot, if_neg (others 0 (by decide)), if_pos here]
    rfl
  · simp only [findSlot, if_neg (others 0 (by decide)), if_neg (others 1 (by decide)), if_pos here]
    rfl

/-- Without a slot of its own an update gets the first of those with the least counter. -/
theorem slotFor_least {updateId : BitVec 64} (none : ∀ i, (slots i).updateId ≠ updateId) (j : Fin 3) :
    (slots (slotFor slots updateId)).ts.toNat ≤ (slots j).ts.toNat ∧
      (j < slotFor slots updateId → (slots (slotFor slots updateId)).ts.toNat < (slots j).ts.toNat) := by
  have found : some (slotFor slots updateId) = older slots (older slots (some 0) 1) 2 := by
    unfold slotFor
    simp only [findSlot, if_neg (none _)]
    by_cases second : (slots 1).ts.toNat < (slots 0).ts.toNat
    · simp only [older, if_pos second]
      split_ifs <;> rfl
    · simp only [older, if_neg second]
      split_ifs <;> rfl
  have places : j = 0 ∨ j = 1 ∨ j = 2 := by omega
  by_cases second : (slots 1).ts.toNat < (slots 0).ts.toNat
  · by_cases third : (slots 2).ts.toNat < (slots 1).ts.toNat
    · simp only [older, if_pos second, if_pos third] at found
      rw [Option.some.inj found]
      rcases places with rfl | rfl | rfl <;> omega
    · simp only [older, if_pos second, if_neg third] at found
      rw [Option.some.inj found]
      rcases places with rfl | rfl | rfl <;> omega
  · by_cases third : (slots 2).ts.toNat < (slots 0).ts.toNat
    · simp only [older, if_neg second, if_pos third] at found
      rw [Option.some.inj found]
      rcases places with rfl | rfl | rfl <;> omega
    · simp only [older, if_neg second, if_neg third] at found
      rw [Option.some.inj found]
      rcases places with rfl | rfl | rfl <;> omega

theorem Holds.assignSlot {slot : IncomingConfigChunk} (holds : Holds sign u received slot) :
    Holds sign u received (assignSlot slot u.updateId) := by
  unfold ZeroTierNode.assignSlot
  rw [if_pos holds.update]
  exact ⟨holds.update, holds.numbers, holds.distinct, holds.ids, holds.bytes, holds.text⟩

theorem holds_nil {slot : IncomingConfigChunk} (other : slot.updateId ≠ u.updateId) :
    Holds sign u [] (assignSlot slot u.updateId) := by
  unfold ZeroTierNode.assignSlot
  rw [if_neg other]
  refine ⟨rfl, ?_, List.nodup_nil, rfl, rfl, ?_⟩
  · intro number found
    exact absurd found List.not_mem_nil
  · intro position _ found
    exact absurd found List.not_mem_nil

/-- The slot that a chunk of the update goes to. -/
theorem Awaits.slot (awaits : Awaits sign u received slots) :
    Holds sign u received (assignSlot (slots (slotFor slots u.updateId)) u.updateId) ∧
      (∀ j, j ≠ slotFor slots u.updateId → (slots j).updateId ≠ u.updateId) ∧
      (received = [] ∨ Holds sign u received (slots (slotFor slots u.updateId))) := by
  rcases awaits with ⟨rfl, none⟩ | ⟨i, holds, others⟩
  · exact ⟨holds_nil (none _), fun j _ => none j, Or.inl rfl⟩
  · rw [slotFor_holder holds.update others]
    exact ⟨holds.assignSlot, others, Or.inr holds⟩

/-- A chunk counts as a duplicate exactly if it was received. -/
theorem Awaits.duplicate_iff (awaits : Awaits sign u received slots) (ids : DistinctIds sign u) {number : Nat}
    (inside : number < u.count) :
    ((slots (slotFor slots u.updateId)).updateId = u.updateId ∧
        u.chunkId sign number ∈ (slots (slotFor slots u.updateId)).haveChunkIds) ↔ number ∈ received := by
  rcases awaits with ⟨rfl, none⟩ | ⟨i, holds, others⟩
  · constructor
    · rintro ⟨here, -⟩
      exact absurd here (none _)
    · intro found
      exact absurd found List.not_mem_nil
  · rw [slotFor_holder holds.update others, holds.ids, List.mem_map]
    constructor
    · rintro ⟨-, other, member, same⟩
      rw [← ids other (holds.numbers other member) number inside same]
      exact member
    · intro member
      exact ⟨holds.update, number, member, rfl⟩

/-- A slot with one more chunk of the update. -/
theorem Holds.fillSlot (addressable : capacity ≤ 2 ^ 32) {slot : IncomingConfigChunk}
    (holds : Holds sign u received slot) {number : Nat} (inside : number < u.count) (new : number ∉ received) :
    Holds sign u (received ++ [number]) (fillSlot slot (u.chunkId sign number)
      (BitVec.ofNat 32 (u.chunkStart number)) (u.chunkData number)) := by
  refine ⟨holds.update, ?_, ?_, ?_, ?_, ?_⟩
  · intro other member
    rcases List.mem_append.mp member with earlier | last
    · exact holds.numbers other earlier
    · rw [List.mem_singleton.mp last]
      exact inside
  · rw [List.nodup_append_comm]
    exact List.nodup_cons.mpr ⟨new, holds.distinct⟩
  · unfold ZeroTierNode.fillSlot
    rw [List.map_append, ← holds.ids]
    rfl
  · unfold ZeroTierNode.fillSlot
    dsimp only
    rw [holds.bytes, u.chunkData_length, ← BitVec.ofNat_add, List.map_append, List.sum_append]
    simp only [List.map_cons, List.map_nil, List.sum_cons, List.sum_nil, Nat.add_zero]
  · intro position below found
    unfold ZeroTierNode.fillSlot
    dsimp only
    rw [u.memcpy_chunk addressable _ below]
    by_cases here : position / u.size = number
    · rw [if_pos here]
    · rw [if_neg here]
      apply holds.text position below
      rcases List.mem_append.mp found with earlier | last
      · exact earlier
      · exact absurd (List.mem_singleton.mp last) here

/-- The slot has as many bytes as the text exactly if the update is complete. -/
theorem Holds.haveBytes_iff (addressable : capacity ≤ 2 ^ 32) {slot : IncomingConfigChunk}
    (holds : Holds sign u received slot) : slot.haveBytes = BitVec.ofNat 32 u.total ↔ Complete u received := by
  obtain ⟨whole, few⟩ := bytes_eq_total_iff holds.numbers holds.distinct
  have fits : u.total < capacity := u.d.fits
  rw [← whole, holds.bytes]
  constructor
  · intro same
    have numbers := congrArg BitVec.toNat same
    rw [u.total_toNat addressable, BitVec.toNat_ofNat, Nat.mod_eq_of_lt (by omega)] at numbers
    exact numbers
  · intro same
    rw [same]

/-- The NUL goes behind the text and leaves it as it is. -/
theorem Holds.terminate {slot : IncomingConfigChunk} (holds : Holds sign u received slot) (complete : Complete u received)
    (room : 0 < capacity) :
    let whole := { slot with data := Function.update slot.data u.total 0 }
    Holds sign u received whole ∧ dictionaryOf room whole.data = u.d := by
  have kept : ∀ position < u.total, Function.update slot.data u.total 0 position = slot.data position := by
    intro position below
    rw [Function.update_of_ne (Nat.ne_of_lt below)]
  refine ⟨⟨holds.update, holds.numbers, holds.distinct, holds.ids, holds.bytes, ?_⟩, ?_⟩
  · intro position below found
    dsimp only
    rw [kept position below]
    exact holds.text position below found
  · apply dictionaryOf_eq
    · intro position below
      dsimp only
      rw [kept position below]
      apply holds.text position below
      apply complete
      rw [u.lt_count_iff, ConfigUpdate.chunkStart]
      exact lt_of_le_of_lt (Nat.div_mul_le_self _ _) below
    · exact Function.update_self _ _ _

end Slots

/-- A packet with a chunk, as it reaches the member. -/
structure Delivery where
  RR : RuntimeEnvironment
  now : Int
  packetId : BitVec 64
  source : Address
  head : List Byte
  payload : List Byte

section Receiving

variable {capacity : Nat} (room : 0 < capacity) (limits : Limits) (order : SortOrder) (crypto : Crypto)
  (sign : List Byte → Signature)

def receive (net : ChunkedNetwork) (delivery : Delivery) : Option (HandledChunk capacity) :=
  handleConfigChunk room limits order crypto delivery.RR net delivery.now delivery.packetId delivery.source
    (delivery.head ++ delivery.payload) delivery.head.length

/-- The network of this id, not destroyed. -/
structure Listens (nwid : BitVec 64) (net : ChunkedNetwork) : Prop where
  id : net.id = nwid
  alive : net.destroyed = false

/-- The controller's identity is known, and its key verifies what the controller signs. -/
structure Knows (nwid : BitVec 64) (RR : RuntimeEnvironment) : Prop where
  identity : (RR.getIdentity (controllerFor nwid)).isSet = true
  verifies : ∀ message, (RR.getIdentity (controllerFor nwid)).verify crypto message (sign message) = true

/-- What a chunk that was not received before does. -/
structure Fills (u : ConfigUpdate capacity) (received : List Nat) (net : ChunkedNetwork) (h : HandledChunk capacity) :
    Prop where
  listens : Listens u.nwid h.net
  touched : h.touched = some (slotFor net.incoming u.updateId)
  others : ∀ j, j ≠ slotFor net.incoming u.updateId → h.net.incoming j = net.incoming j
  holds : Holds sign u received (h.net.incoming (slotFor net.incoming u.updateId))
  update : h.stored.map StoredChunk.updateId = some u.updateId
  complete : Complete u received → h.assembled = some u.d ∧
    h.configured = (NetworkConfig.fromDictionary limits order u.d).result
  incomplete : ¬ Complete u received → h.assembled = none ∧ h.configured = none

variable {room limits order crypto sign} {u : ConfigUpdate capacity} {received : List Nat} {net : ChunkedNetwork}

theorem setConfiguration_listens {nwid : BitVec 64} {network : Network} (id : network.id = nwid)
    (alive : network.destroyed = false) (RR : RuntimeEnvironment) (nc : NetworkConfig) (now : Int) :
    (network.setConfiguration RR nc now).2.id = nwid ∧
      (network.setConfiguration RR nc now).2.destroyed = false := by
  unfold Network.setConfiguration
  split_ifs
  all_goals exact ⟨id, alive⟩

theorem storeChunk_fills (addressable : capacity ≤ 2 ^ 32) (awaits : Awaits sign u received net.incoming)
    (listens : Listens u.nwid net) {number : Nat} (inside : number < u.count) (new : number ∉ received)
    (RR : RuntimeEnvironment) (now : Int) (forwarded : List Address) :
    Fills limits order sign u (received ++ [number]) net
      (storeChunk room limits order RR net now (slotFor net.incoming u.updateId) u.updateId (u.chunkId sign number)
        (BitVec.ofNat 32 u.total) (BitVec.ofNat 32 (u.chunkStart number)) (u.chunkData number)
        forwarded) := by
  obtain ⟨holds, -, -⟩ := awaits.slot
  have filled := holds.fillSlot addressable inside new
  have space : ¬ maxUpdateChunks capacity ≤
      (assignSlot (net.incoming (slotFor net.incoming u.updateId)) u.updateId).haveChunkIds.length := by
    have most : u.count ≤ maxUpdateChunks capacity := u.few
    have few : (received ++ [number]).length ≤ u.count := by
      have subset : (received ++ [number]).toFinset ⊆ Finset.range u.count := by
        intro other member
        exact Finset.mem_range.mpr (filled.numbers other (List.mem_toFinset.mp member))
      have card := Finset.card_le_card subset
      rw [List.toFinset_card_of_nodup filled.distinct, Finset.card_range] at card
      exact card
    rw [holds.ids, List.length_map]
    rw [List.length_append, List.length_singleton] at few
    omega
  have kept (slot : IncomingConfigChunk) (j : Fin 3) (other : j ≠ slotFor net.incoming u.updateId) :
      Function.update net.incoming (slotFor net.incoming u.updateId) slot j = net.incoming j :=
    Function.update_of_ne other _ _
  unfold storeChunk
  dsimp only
  rw [if_neg space]
  by_cases complete : Complete u (received ++ [number])
  · have bytes := (filled.haveBytes_iff addressable).mpr complete
    obtain ⟨terminated, dictionary⟩ := filled.terminate complete room
    rw [if_pos bytes, bytes, u.total_toNat addressable]
    dsimp only at dictionary terminated
    rw [dictionary]
    rw [bytes] at terminated
    cases parsed : (NetworkConfig.fromDictionary limits order u.d).result with
    | none =>
        refine ⟨⟨listens.id, listens.alive⟩, rfl, kept _, ?_, rfl, fun _ => ⟨rfl, parsed.symm⟩,
          fun partly => absurd complete partly⟩
        simp only [Option.elim, Function.update_self]
        exact terminated
    | some nc =>
        obtain ⟨id, alive⟩ := setConfiguration_listens listens.id listens.alive RR nc now
        refine ⟨⟨id, alive⟩, rfl, kept _, ?_, rfl, fun _ => ⟨rfl, parsed.symm⟩,
          fun partly => absurd complete partly⟩
        simp only [Option.elim, Function.update_self]
        exact terminated
  · rw [if_neg (fun bytes => complete ((filled.haveBytes_iff addressable).mp bytes))]
    refine ⟨⟨listens.id, listens.alive⟩, rfl, kept _, ?_, rfl, fun whole => absurd whole complete,
      fun _ => ⟨rfl, rfl⟩⟩
    simp only [Function.update_self]
    exact filled

theorem readChunk_payload (addressable : capacity ≤ 2 ^ 32) (sign : List Byte → Signature) (head : List Byte)
    {number : Nat} (inside : number < u.count) :
    readChunk capacity (head ++ u.payload sign number) head.length =
      some (.signed (u.chunkData number) ⟨false, u.updateId, BitVec.ofNat 32 u.total,
        BitVec.ofNat 32 (u.chunkStart number), sign (u.part number), u.part number⟩) := by
  have fits : u.total < capacity := u.d.fits
  have length := u.chunkData_length number
  have starts := (u.lt_count_iff number).mp inside
  have short := u.short
  have size : u.chunkLen number ≤ u.size := Nat.min_le_right _ _
  have ends : u.chunkStart number + u.chunkLen number ≤ u.total := by
    unfold ConfigUpdate.chunkLen
    omega
  apply readChunk_chunkPacket
  · apply List.length_pos_iff.mp
    rw [length]
    exact u.chunkLen_pos inside
  · omega
  · rw [length, u.position_in_chunk addressable ends, u.total_toNat addressable]
    exact ends
  · rw [u.total_toNat addressable]
    exact fits

/-- A chunk of the update is ignored if it was received before, and fills the slot of the update if not. -/
theorem receive_chunk (addressable : capacity ≤ 2 ^ 32) (ids : DistinctIds sign u)
    (awaits : Awaits sign u received net.incoming) (listens : Listens u.nwid net) {delivery : Delivery}
    (knows : Knows crypto sign u.nwid delivery.RR) {number : Nat} (inside : number < u.count)
    (sent : delivery.payload = u.payload sign number) :
    (number ∈ received ∧ receive room limits order crypto net delivery = some (ignoreChunk net)) ∨
      (number ∉ received ∧ ∃ h, receive room limits order crypto net delivery = some h ∧
        Fills limits order sign u (received ++ [number]) net h) := by
  have duplicate := awaits.duplicate_iff ids inside
  unfold ConfigUpdate.chunkId at duplicate
  unfold receive handleConfigChunk
  rw [if_neg (by rw [listens.alive]; exact Bool.false_ne_true), sent,
    readChunk_payload addressable sign delivery.head inside, Option.bind_eq_bind, Option.bind_some]
  dsimp only
  by_cases seen : number ∈ received
  · rw [if_pos (duplicate.mpr seen)]
    exact Or.inl ⟨seen, rfl⟩
  · rw [if_neg (fun both => seen (duplicate.mp both)), listens.id, if_neg (not_not.mpr knows.identity),
      if_neg (not_not.mpr (knows.verifies _))]
    exact Or.inr ⟨seen, _, rfl, storeChunk_fills addressable awaits listens inside seen _ _ _⟩

/-- Chunks with the same bytes are the same chunk. -/
theorem payload_injective (addressable : capacity ≤ 2 ^ 32) (ids : DistinctIds sign u) {number other : Nat}
    (inside : number < u.count) (otherInside : other < u.count)
    (same : u.payload sign number = u.payload sign other) : number = other := by
  have first := readChunk_payload addressable sign [] inside
  rw [same, readChunk_payload addressable sign [] otherInside] at first
  injection Option.some.inj first with _ tails
  injection tails with _ _ _ _ signatures
  apply ids number inside other otherInside
  rw [ConfigUpdate.chunkId, ConfigUpdate.chunkId, signatures]

theorem Fills.awaits {h : HandledChunk capacity} (awaits : Awaits sign u received net.incoming)
    {after : List Nat} (fills : Fills limits order sign u after net h) : Awaits sign u after h.net.incoming := by
  obtain ⟨-, others, -⟩ := awaits.slot
  refine Or.inr ⟨_, fills.holds, ?_⟩
  intro j different
  rw [fills.others j different]
  exact others j different

variable (room limits order crypto)

/-- What the calls pass to `setConfiguration`, one after the other. -/
def configurations (net : ChunkedNetwork) : List Delivery → List NetworkConfig
  | [] => []
  | delivery :: deliveries =>
      match receive room limits order crypto net delivery with
      | some h => h.configured.toList ++ configurations h.net deliveries
      | none => configurations net deliveries

variable {room limits order crypto}

/-- Once the update is complete its chunks change nothing. -/
theorem configurations_complete (addressable : capacity ≤ 2 ^ 32) (ids : DistinctIds sign u)
    (awaits : Awaits sign u received net.incoming) (listens : Listens u.nwid net) (complete : Complete u received)
    {deliveries : List Delivery} (knows : ∀ delivery ∈ deliveries, Knows crypto sign u.nwid delivery.RR)
    (sent : ∀ delivery ∈ deliveries, ∃ number < u.count, delivery.payload = u.payload sign number) :
    configurations room limits order crypto net deliveries = [] := by
  induction deliveries with
  | nil => rfl
  | cons delivery deliveries ih =>
      obtain ⟨number, inside, payload⟩ := sent delivery List.mem_cons_self
      rcases receive_chunk addressable ids awaits listens (knows delivery List.mem_cons_self) inside payload with
        ⟨-, ignored⟩ | ⟨new, -⟩
      · rw [configurations, ignored]
        exact ih (fun later member => knows later (List.mem_cons_of_mem _ member))
          (fun later member => sent later (List.mem_cons_of_mem _ member))
      · exact absurd (complete number inside) new

/-- The chunks that are still missing make the configuration known once. -/
theorem configurations_missing (addressable : capacity ≤ 2 ^ 32) (ids : DistinctIds sign u)
    {deliveries : List Delivery} (knows : ∀ delivery ∈ deliveries, Knows crypto sign u.nwid delivery.RR)
    (sent : ∀ delivery ∈ deliveries, ∃ number < u.count, delivery.payload = u.payload sign number)
    (awaits : Awaits sign u received net.incoming) (listens : Listens u.nwid net) (partly : ¬ Complete u received)
    (arrives : ∀ number < u.count, number ∉ received →
      ∃ delivery ∈ deliveries, delivery.payload = u.payload sign number) :
    configurations room limits order crypto net deliveries =
      (NetworkConfig.fromDictionary limits order u.d).result.toList := by
  induction deliveries generalizing received net with
  | nil =>
      exfalso
      apply partly
      intro number inside
      by_contra missing
      obtain ⟨delivery, member, -⟩ := arrives number inside missing
      exact absurd member List.not_mem_nil
  | cons delivery deliveries ih =>
      obtain ⟨number, inside, payload⟩ := sent delivery List.mem_cons_self
      have laterKnows := fun later member => knows later (List.mem_cons_of_mem delivery member)
      have laterSent := fun later member => sent later (List.mem_cons_of_mem delivery member)
      have laterArrives (other : Nat) (otherInside : other < u.count) (missing : other ∉ received)
          (different : other ≠ number) : ∃ later ∈ deliveries, later.payload = u.payload sign other := by
        obtain ⟨later, member, same⟩ := arrives other otherInside missing
        rcases List.mem_cons.mp member with rfl | member
        · exact absurd (payload_injective addressable ids otherInside inside (same.symm.trans payload)) different
        · exact ⟨later, member, same⟩
      rcases receive_chunk addressable ids awaits listens (knows delivery List.mem_cons_self) inside payload with
        ⟨seen, ignored⟩ | ⟨new, h, handled, fills⟩
      · rw [configurations, ignored]
        apply ih laterKnows laterSent awaits listens partly
        intro other otherInside missing
        exact laterArrives other otherInside missing (fun same => missing (same ▸ seen))
      · rw [configurations, handled]
        dsimp only
        by_cases complete : Complete u (received ++ [number])
        · rw [(fills.complete complete).2, configurations_complete addressable ids (fills.awaits awaits)
            fills.listens complete laterKnows laterSent, List.append_nil]
        · rw [(fills.incomplete complete).2]
          apply ih laterKnows laterSent (fills.awaits awaits) fills.listens complete
          intro other otherInside missing
          rw [List.mem_append, List.mem_singleton, not_or] at missing
          exact laterArrives other otherInside missing.1 missing.2

end Receiving

section Transfer

variable {capacity : Nat} (room : 0 < capacity) (limits : Limits) (order : SortOrder) (crypto : Crypto)
  (sign : List Byte → Signature)

/-- Every configuration is written with its version first. -/
theorem toDictionary_nonempty {nc : NetworkConfig} {dconf d : Dictionary capacity}
    (written : nc.toDictionary dconf = some d) : d.text ≠ [] := by
  obtain ⟨entries, composed, added⟩ := Option.bind_eq_some_iff.mp written
  obtain ⟨certificates, -, composed⟩ := Option.bind_eq_some_iff.mp composed
  cases composed
  have text := Dictionary.addAll_text rfl added
  rw [text]
  exact Dictionary.line_ne_nil _ _ _

theorem chunks_of_maxChunkLen {total : Nat} (fits : total < capacity) :
    (total + (maxChunkLen - 1)) / maxChunkLen ≤ maxUpdateChunks capacity := by
  have limit : maxChunkLen = 9740 := rfl
  unfold maxUpdateChunks
  rw [limit]
  omega

/-- The update `ncSendConfig` sends for a configuration. -/
def updateOf (nwid random : BitVec 64) {nc : NetworkConfig} {dconf d : Dictionary capacity}
    (written : nc.toDictionary dconf = some d) : ConfigUpdate capacity :=
  ⟨nwid, if random = 0 then 1 else random, d, toDictionary_nonempty written, maxChunkLen, by decide, by decide,
    chunks_of_maxChunkLen d.fits⟩

theorem ncSendConfig_eq (nwid random : BitVec 64) {nc : NetworkConfig} {dconf d : Dictionary capacity}
    (written : nc.toDictionary dconf = some d) :
    ncSendConfig sign nwid random nc dconf = (updateOf nwid random written).sent sign := by
  rw [ncSendConfig, written]
  exact (updateOf nwid random written).sendChunks_eq sign rfl

/-- The chunks of an update that is not complete yet, in any order and any number of times but each at least
once, set the configuration that the sent dictionary reads as, once. -/
theorem configuration_set_once (addressable : capacity ≤ 2 ^ 32) (nwid random : BitVec 64) (nc : NetworkConfig)
    (dconf d : Dictionary capacity) (written : nc.toDictionary dconf = some d) (net : ChunkedNetwork)
    (deliveries : List Delivery) (listens : Listens nwid net)
    (knows : ∀ delivery ∈ deliveries, Knows crypto sign nwid delivery.RR)
    (ids : DistinctIds sign (updateOf nwid random written))
    (pending : ∃ received, Awaits sign (updateOf nwid random written) received net.incoming ∧
      ¬ Complete (updateOf nwid random written) received)
    (only : ∀ delivery ∈ deliveries, delivery.payload ∈ ncSendConfig sign nwid random nc dconf)
    (all : ∀ payload ∈ ncSendConfig sign nwid random nc dconf, ∃ delivery ∈ deliveries, delivery.payload = payload) :
    configurations room limits order crypto net deliveries =
      (NetworkConfig.fromDictionary limits order d).result.toList := by
  obtain ⟨received, awaits, partly⟩ := pending
  rw [ncSendConfig_eq sign nwid random written] at only all
  refine configurations_missing addressable ids knows ?_ awaits listens partly ?_
  · intro delivery member
    exact (ConfigUpdate.mem_sent _).mp (only delivery member)
  · intro number inside _
    exact all _ ((ConfigUpdate.mem_sent _).mpr ⟨number, inside, rfl⟩)

end Transfer

section Small

open NetworkConfig (smallDictionary)

/-- A configuration of network 1000000 for the member 2. -/
def memberConfig : NetworkConfig := { NetworkConfig.smallConfig 0 with networkId := 0x1000000, issuedTo := 2 }

@[irreducible] def memberPayload : List Byte :=
  (ncSendConfig endSignature 0x1000000 7 memberConfig (smallDictionary "")).flatten

/-- It fits into one chunk. -/
theorem memberPayload_sent :
    ncSendConfig endSignature 0x1000000 7 memberConfig (smallDictionary "") = [memberPayload] := by
  decide +kernel

theorem memberConfig_read : (memberConfig.toDictionary (smallDictionary "")).map
    (fun d => ((NetworkConfig.fromDictionary {} smallOrder d).result, d.text.length)) =
      some (some memberConfig, 529) := by
  decide +kernel

theorem memberConfig_written : ∃ d, memberConfig.toDictionary (smallDictionary "") = some d ∧
    (NetworkConfig.fromDictionary {} smallOrder d).result = some memberConfig ∧ d.text.length = 529 := by
  obtain ⟨d, written, same⟩ := Option.map_eq_some_iff.mp memberConfig_read
  exact ⟨d, written, (Prod.mk.inj same).1, (Prod.mk.inj same).2⟩

theorem knows_member : Knows endCrypto endSignature 0x1000000 member where
  identity := by decide
  verifies := fun _ => decide_eq_true rfl

def memberDelivery (RR : RuntimeEnvironment) : Delivery := ⟨RR, 0, 0, 1, List.replicate 28 0, memberPayload⟩

theorem memberDelivery_payload (RR : RuntimeEnvironment) : (memberDelivery RR).payload = memberPayload := rfl

def memberSets (net : ChunkedNetwork) (deliveries : List Delivery) : List NetworkConfig :=
  configurations NetworkConfig.small_room {} smallOrder endCrypto net deliveries

section Single

variable {d : Dictionary 16384} (written : memberConfig.toDictionary (smallDictionary "") = some d)
  (length : d.text.length = 529)

include length

theorem memberUpdate_count : (updateOf 0x1000000 7 written).count = 1 := by
  change (d.text.length + (maxChunkLen - 1)) / maxChunkLen = 1
  rw [length]
  decide

theorem memberUpdate_ids : DistinctIds endSignature (updateOf 0x1000000 7 written) := by
  intro number inside other otherInside _
  rw [memberUpdate_count written length] at inside otherInside
  omega

theorem memberUpdate_awaits : Awaits endSignature (updateOf 0x1000000 7 written) []
    (ChunkedNetwork.initial 0x1000000).incoming ∧ ¬ Complete (updateOf 0x1000000 7 written) [] := by
  refine ⟨Or.inl ⟨rfl, ?_⟩, ?_⟩
  · intro i
    change (0 : BitVec 64) ≠ 7
    decide
  · intro complete
    have one := memberUpdate_count written length
    exact absurd (complete 0 (by omega)) List.not_mem_nil

end Single

/-- A new network sets the configuration once, though its only chunk arrives twice. -/
theorem memberConfig_set_once :
    memberSets (.initial 0x1000000) [memberDelivery member, memberDelivery member] = [memberConfig] := by
  obtain ⟨d, written, read, length⟩ := memberConfig_written
  have once := configuration_set_once (by decide : 0 < 16384) {} smallOrder endCrypto endSignature (by decide)
    0x1000000 7 memberConfig (smallDictionary "") d written (.initial 0x1000000)
    [memberDelivery member, memberDelivery member] ⟨rfl, rfl⟩ ?_ (memberUpdate_ids written length)
    ⟨[], memberUpdate_awaits written length⟩ ?_ ?_
  · rw [memberSets, once, read]
    rfl
  · intro delivery found
    simp only [List.mem_cons, List.not_mem_nil, or_false, or_self] at found
    rw [found]
    exact knows_member
  · intro delivery found
    simp only [List.mem_cons, List.not_mem_nil, or_false, or_self] at found
    rw [memberPayload_sent, found, memberDelivery_payload]
    exact List.mem_singleton_self memberPayload
  · intro payload found
    rw [memberPayload_sent] at found
    refine ⟨memberDelivery member, List.mem_cons_self, ?_⟩
    rw [memberDelivery_payload, List.mem_singleton.mp found]

/-- The only chunk of an update sets nothing when the update was complete before, when the network is
destroyed, and when the controller's identity is not known. -/
theorem configuration_not_set : ∃ (d : Dictionary 16384) (h : HandledChunk 16384),
    memberConfig.toDictionary (smallDictionary "") = some d ∧
      (NetworkConfig.fromDictionary {} smallOrder d).result = some memberConfig ∧
      ncSendConfig endSignature 0x1000000 7 memberConfig (smallDictionary "") = [memberPayload] ∧
      receive (by decide) {} smallOrder endCrypto (.initial 0x1000000) (memberDelivery member) = some h ∧
      memberSets h.net [memberDelivery member] = [] ∧
      memberSets { ChunkedNetwork.initial 0x1000000 with destroyed := true } [memberDelivery member] = [] ∧
      memberSets (.initial 0x1000000) [memberDelivery ⟨⟨2, 0⟩, fun _ => none⟩] = [] := by
  obtain ⟨d, written, read, length⟩ := memberConfig_written
  have one := memberUpdate_count written length
  have sent := ncSendConfig_eq endSignature 0x1000000 7 written
  rw [memberPayload_sent, ConfigUpdate.sent, one] at sent
  have payload : (memberDelivery member).payload = (updateOf 0x1000000 7 written).payload endSignature 0 := by
    rw [memberDelivery_payload]
    exact (List.cons.inj sent).1
  have ids := memberUpdate_ids written length
  have awaits := (memberUpdate_awaits written length).1
  have first := @receive_chunk 16384 (by decide) {} smallOrder endCrypto endSignature _ _ _ (by decide) ids awaits
    ⟨rfl, rfl⟩ (memberDelivery member) knows_member 0 (by omega) payload
  rcases first with ⟨seen, -⟩ | ⟨-, h, handled, fills⟩
  · exact absurd seen List.not_mem_nil
  · refine ⟨d, h, written, read, memberPayload_sent, handled, ?_, ?_, ?_⟩
    · refine configurations_complete (by decide) ids (fills.awaits awaits) fills.listens ?_ ?_ ?_
      · intro number inside
        rw [one] at inside
        rw [show number = 0 by omega]
        exact List.mem_singleton_self 0
      · intro delivery found
        rw [List.mem_singleton.mp found]
        exact knows_member
      · intro delivery found
        rw [List.mem_singleton.mp found]
        exact ⟨0, by omega, payload⟩
    · apply List.eq_nil_of_length_eq_zero
      decide +kernel
    · apply List.eq_nil_of_length_eq_zero
      decide +kernel

end Small

end ZeroTierNode.ConfigDelivery

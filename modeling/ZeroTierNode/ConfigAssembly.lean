import ZeroTierNode.ConfigChunks
import ZeroTierNode.Library.Coverage
import ZeroTierNode.Library.Runs

/-!
Where the chunks of a configuration are written. A slot counts the bytes it was
given and not the positions they went to; the ledger below keeps the chunks a slot
has taken since it was assigned to its update.
-/

namespace ZeroTierNode.ConfigAssembly
open Library Library.Bytes Library.Coverage Library.Runs Buffer

/-- The positions `memcpy` writes to, with 32-bit addresses. -/
def positionsFrom (index : BitVec 32) (length : Nat) : Finset Nat :=
  (Finset.range length).image (fun i => (index + BitVec.ofNat 32 i).toNat)

def positions (s : StoredChunk) : Finset Nat := positionsFrom s.chunkIndex s.chunkLen

theorem offset_toNat (index : BitVec 32) (i : Nat) (small : i < 2 ^ 32) :
    (index + BitVec.ofNat 32 i - index).toNat = i := by
  rw [BitVec.add_comm, BitVec.add_sub_cancel, BitVec.toNat_ofNat, Nat.mod_eq_of_lt small]

theorem memcpy_inside (data : Nat → Byte) (index : BitVec 32) {bytes : List Byte} {i : Nat}
    (inside : i < bytes.length) (small : i < 2 ^ 32) :
    memcpy data index bytes (index + BitVec.ofNat 32 i).toNat = bytes.getD i 0 := by
  unfold memcpy
  dsimp only
  rw [BitVec.ofNat_toNat, BitVec.setWidth_eq, offset_toNat index i small, if_pos inside]

theorem memcpy_outside (data : Nat → Byte) (index : BitVec 32) {bytes : List Byte} {position : Nat}
    (address : position < 2 ^ 32) (outside : position ∉ positionsFrom index bytes.length) :
    memcpy data index bytes position = data position := by
  unfold memcpy
  dsimp only
  rw [if_neg]
  intro inside
  apply outside
  refine Finset.mem_image.mpr ⟨_, Finset.mem_range.mpr inside, ?_⟩
  rw [BitVec.ofNat_toNat, BitVec.setWidth_eq, BitVec.add_comm, BitVec.sub_add_cancel, BitVec.toNat_ofNat,
    Nat.mod_eq_of_lt address]

theorem card_positionsFrom (index : BitVec 32) {length : Nat} (small : length ≤ 2 ^ 32) :
    (positionsFrom index length).card = length := by
  rw [positionsFrom, Finset.card_image_of_injOn, Finset.card_range]
  intro i first j second same
  rw [Finset.mem_coe, Finset.mem_range] at first second
  rw [← offset_toNat index i (by omega), ← offset_toNat index j (by omega), BitVec.eq_of_toNat_eq same]

/-- Below the end of the address space nothing wraps around. -/
theorem position_toNat {index : BitVec 32} {length i : Nat} (straight : index.toNat + length < 2 ^ 32)
    (inside : i < length) : (index + BitVec.ofNat 32 i).toNat = index.toNat + i := by
  rw [BitVec.toNat_add, BitVec.toNat_ofNat, Nat.add_mod_mod, Nat.mod_eq_of_lt (by omega)]

/-- A chunk that passed the bounds check stays inside exactly if the sum of the check did not wrap. -/
theorem positionsFrom_inside_iff {index total : BitVec 32} {length : Nat}
    (checked : (index + BitVec.ofNat 32 length).toNat ≤ total.toNat) :
    (∀ position ∈ positionsFrom index length, position < total.toNat) ↔ index.toNat + length < 2 ^ 32 := by
  have bound := index.isLt
  constructor
  · intro inside
    by_contra wraps
    have last : 2 ^ 32 - 1 ∈ positionsFrom index length := by
      refine Finset.mem_image.mpr ⟨2 ^ 32 - 1 - index.toNat, Finset.mem_range.mpr (by omega), ?_⟩
      rw [BitVec.toNat_add, BitVec.toNat_ofNat, Nat.add_mod_mod]
      omega
    have below := inside _ last
    have limit := total.isLt
    omega
  · intro straight position found
    obtain ⟨i, inside, rfl⟩ := Finset.mem_image.mp found
    rw [Finset.mem_range] at inside
    rw [position_toNat straight inside]
    rw [BitVec.toNat_add, BitVec.toNat_ofNat, Nat.add_mod_mod, Nat.mod_eq_of_lt straight] at checked
    omega

section Reading

variable {capacity : Nat} {chunk data : List Byte} {start : Nat}

theorem field_short {bytes found : List Byte} {start : Nat} {length : BitVec 16}
    (read : fieldAt bytes start length.toNat = some found) :
    found.length < 2 ^ 16 ∧ BitVec.ofNat 32 found.length = length.setWidth 32 := by
  obtain ⟨-, -, same⟩ := fieldAt_some read
  refine ⟨by rw [same]; exact length.isLt, ?_⟩
  rw [same, BitVec.ofNat_toNat]

/-- The checks the fields behind the data have passed. -/
theorem readTail_checked {ptr : Nat} {chunkLen : BitVec 16} {tail : ChunkTail}
    (read : readTail capacity chunk start ptr chunkLen = some (some tail)) :
    (tail.chunkIndex + chunkLen.setWidth 32).toNat ≤ tail.totalLength.toNat ∧ tail.totalLength.toNat < capacity := by
  unfold readTail at read
  simp only [Option.bind_eq_bind, Option.bind_eq_some_iff] at read
  obtain ⟨flags, -, updateId, -, totalLength, -, chunkIndex, -, read⟩ := read
  by_cases refused :
      totalLength.toNat < (chunkIndex + chunkLen.setWidth 32).toNat ∨ capacity ≤ totalLength.toNat
  · rw [if_pos refused] at read
    cases read
  · rw [if_neg refused, Option.bind_eq_some_iff] at read
    obtain ⟨scheme, -, read⟩ := read
    by_cases other : scheme ≠ 1
    · rw [if_pos other] at read
      cases read
    · rw [if_neg other, Option.bind_eq_some_iff] at read
      obtain ⟨length, -, read⟩ := read
      by_cases wrong : length.toNat ≠ signatureLen
      · rw [if_pos wrong] at read
        cases read
      · simp only [if_neg wrong, Option.bind_eq_some_iff] at read
        obtain ⟨signature, -, signed, -, read⟩ := read
        cases read
        rw [not_or, not_lt, not_le] at refused
        exact refused

theorem readChunk_signed {tail : ChunkTail} (read : readChunk capacity chunk start = some (.signed data tail)) :
    data.length < 2 ^ 16 ∧ (tail.chunkIndex + BitVec.ofNat 32 data.length).toNat ≤ tail.totalLength.toNat ∧
      tail.totalLength.toNat < capacity := by
  unfold readChunk at read
  simp only [Option.bind_eq_bind, Option.bind_eq_some_iff] at read
  obtain ⟨chunkLen, -, chunkData, field, read⟩ := read
  obtain ⟨short, width⟩ := field_short field
  by_cases more : start + 10 + chunkLen.toNat < chunk.length
  · rw [if_pos more, Option.bind_eq_some_iff] at read
    obtain ⟨found, tailRead, read⟩ := read
    cases found with
    | none => cases read
    | some found =>
        cases read
        rw [width]
        exact ⟨short, readTail_checked tailRead⟩
  · rw [if_neg more] at read
    by_cases large : capacity ≤ chunkLen.toNat
    · rw [if_pos large] at read
      cases read
    · rw [if_neg large] at read
      cases read

theorem readChunk_legacy (read : readChunk capacity chunk start = some (.legacy data)) :
    data.length < 2 ^ 16 ∧ data.length < capacity := by
  unfold readChunk at read
  simp only [Option.bind_eq_bind, Option.bind_eq_some_iff] at read
  obtain ⟨chunkLen, -, chunkData, field, read⟩ := read
  obtain ⟨short, -⟩ := field_short field
  obtain ⟨-, -, length⟩ := fieldAt_some field
  by_cases more : start + 10 + chunkLen.toNat < chunk.length
  · rw [if_pos more, Option.bind_eq_some_iff] at read
    obtain ⟨found, -, read⟩ := read
    cases found with
    | none => cases read
    | some found => cases read
  · rw [if_neg more] at read
    by_cases large : capacity ≤ chunkLen.toNat
    · rw [if_pos large] at read
      cases read
    · rw [if_neg large] at read
      cases read
      exact ⟨short, by omega⟩

end Reading

section Handling

variable {capacity : Nat} {room : 0 < capacity} {limits : Limits} {order : SortOrder} {crypto : Crypto}
  {RR : RuntimeEnvironment} {net : ChunkedNetwork} {now : Int} {packetId : BitVec 64} {source : Address}
  {chunk : List Byte} {ptr : Nat} {h : HandledChunk capacity}

/-- A call changes nothing, or stores a chunk that was read in one of the two forms. -/
theorem handleConfigChunk_cases
    (handled : handleConfigChunk room limits order crypto RR net now packetId source chunk ptr = some h) :
    h = ignoreChunk net ∨
      (∃ data tail forwarded, readChunk capacity chunk ptr = some (.signed data tail) ∧
        h = storeChunk room limits order RR net now (slotFor net.incoming tail.configUpdateId)
          tail.configUpdateId (chunkIdOf tail.signature) tail.totalLength tail.chunkIndex data forwarded) ∨
      ∃ data, readChunk capacity chunk ptr = some (.legacy data) ∧
        h = storeChunk room limits order RR net now (oldestSlot net.incoming) packetId packetId
          (BitVec.ofNat 32 data.length) 0 data [] := by
  unfold handleConfigChunk at handled
  by_cases destroyed : net.destroyed = true
  · rw [if_pos destroyed] at handled
    exact Or.inl (Option.some.inj handled).symm
  · rw [if_neg destroyed, Option.bind_eq_bind, Option.bind_eq_some_iff] at handled
    obtain ⟨read, found, handled⟩ := handled
    cases read with
    | dropped => exact Or.inl (Option.some.inj handled).symm
    | signed data tail =>
        dsimp only at handled
        split_ifs at handled
        all_goals first
          | exact Or.inl (Option.some.inj handled).symm
          | exact Or.inr (Or.inl ⟨data, tail, _, found, (Option.some.inj handled).symm⟩)
    | legacy data =>
        dsimp only at handled
        split_ifs at handled
        · exact Or.inr (Or.inr ⟨data, found, (Option.some.inj handled).symm⟩)
        · exact Or.inl (Option.some.inj handled).symm

/-- What `storeChunk` says of the chunk it stored. -/
theorem storeChunk_stored {c : Fin 3} {updateId chunkId : BitVec 64} {totalLength chunkIndex : BitVec 32}
    {data : List Byte} {forwarded : List Address} {s : StoredChunk}
    (stored : (storeChunk room limits order RR net now c updateId chunkId totalLength chunkIndex data
      forwarded).stored = some s) :
    s.chunkIndex = chunkIndex ∧ s.chunkLen = data.length ∧ s.totalLength = totalLength ∧
      ∀ position, s.terminator = some position → position = totalLength.toNat := by
  unfold storeChunk at stored
  dsimp only at stored
  split_ifs at stored with full complete
  · cases stored
    refine ⟨rfl, rfl, rfl, ?_⟩
    intro position written
    rw [← Option.some.inj written, complete]
  · cases stored
    exact ⟨rfl, rfl, rfl, fun position written => by cases written⟩

/-- The sum of position and length in a packet with a signed chunk does not wrap around. -/
def SumFits (capacity : Nat) (chunk : List Byte) (ptr : Nat) : Prop :=
  ∀ data tail, readChunk capacity chunk ptr = some (.signed data tail) →
    tail.chunkIndex.toNat + data.length < 2 ^ 32

/-- A chunk that is stored writes below its total length, and its NUL below the capacity, exactly if the
sum in the bounds check did not wrap around. -/
theorem stored_writes_inside_iff {s : StoredChunk}
    (handled : handleConfigChunk room limits order crypto RR net now packetId source chunk ptr = some h)
    (stored : h.stored = some s) :
    ((∀ position ∈ positions s, position < s.totalLength.toNat) ∧
      ∀ position, s.terminator = some position → position < capacity) ↔ SumFits capacity chunk ptr := by
  rcases handleConfigChunk_cases handled with rfl | ⟨data, tail, forwarded, read, rfl⟩ | ⟨data, read, rfl⟩
  · cases stored
  · obtain ⟨index, length, total, ends⟩ := storeChunk_stored stored
    obtain ⟨-, checked, below⟩ := readChunk_signed read
    have fits : SumFits capacity chunk ptr ↔ tail.chunkIndex.toNat + data.length < 2 ^ 32 := by
      constructor
      · intro fits
        exact fits data tail read
      · intro straight other otherTail same
        rw [read] at same
        cases same
        exact straight
    rw [fits, positions, index, length, total, positionsFrom_inside_iff checked]
    apply and_iff_left
    intro position written
    rw [ends position written]
    exact below
  · obtain ⟨index, length, total, ends⟩ := storeChunk_stored stored
    obtain ⟨short, below⟩ := readChunk_legacy read
    have small : (BitVec.ofNat 32 data.length).toNat = data.length := by
      rw [BitVec.toNat_ofNat, Nat.mod_eq_of_lt (by omega)]
    have fits : SumFits capacity chunk ptr := by
      intro other tail same
      rw [read] at same
      cases same
    rw [positions, index, length, total]
    refine iff_of_true ⟨?_, ?_⟩ fits
    · apply (positionsFrom_inside_iff (by rw [BitVec.ofNat_eq_ofNat, BitVec.zero_add])).mpr
      change 0 + data.length < 2 ^ 32
      omega
    · intro position written
      rw [ends position written, small]
      exact below

end Handling

section Small

/-- A member with address 2 that knows its controller. -/
def member : RuntimeEnvironment := ⟨⟨2, 0⟩, fun address => if address = 1 then some ⟨1, 0⟩ else none⟩

/-- A signature that begins with the last 8 bytes of the message. -/
def endSignature (message : List Byte) : Signature :=
  wordOf 64 (message.drop (message.length - 8)) ++ (0 : BitVec 704)

def endCrypto : Crypto := ⟨fun _ message signature => signature = endSignature message, fun _ => 0⟩

/-- A `NETWORK_CONFIG` packet of network 1000000 with a chunk of `length` bytes for the update 7. -/
def smallChunk (totalSize chunkIndex : BitVec 32) (length : Nat) : List Byte :=
  List.replicate 28 0 ++ chunkPacket endSignature 0x1000000 7 totalSize chunkIndex (List.replicate length 0x61)

abbrev smallOrder : SortOrder := ⟨.insertion _, .insertion _⟩

def receiveSmall (net : ChunkedNetwork) (chunk : List Byte) : Option (HandledChunk 16384) :=
  handleConfigChunk (by decide) {} smallOrder endCrypto member net 0 0 1 chunk 28

theorem receiveSmall_stored {net : ChunkedNetwork} {chunk : List Byte} {s : StoredChunk} {reached : Bool}
    (seen : (receiveSmall net chunk).map (fun h => (h.stored, h.assembled.isSome)) = some (some s, reached)) :
    ∃ h, receiveSmall net chunk = some h ∧ h.stored = some s ∧ h.assembled.isSome = reached := by
  obtain ⟨h, handled, same⟩ := Option.map_eq_some_iff.mp seen
  exact ⟨h, handled, (Prod.mk.inj same).1, (Prod.mk.inj same).2⟩

/-- Ten bytes at position 2^32 - 5 pass the bounds check of a text of eight. -/
theorem chunk_written_in_front_of_dictionary : ∃ (net : ChunkedNetwork) (chunk : List Byte)
    (h : HandledChunk 16384) (s : StoredChunk),
    handleConfigChunk (by decide) {} smallOrder endCrypto member net 0 0 1 chunk 28 = some h ∧ h.stored = some s ∧
      ¬ ((∀ position ∈ positions s, position < s.totalLength.toNat) ∧
        ∀ position, s.terminator = some position → position < 16384) := by
  obtain ⟨h, handled, stored, -⟩ := @receiveSmall_stored (.initial 0x1000000) (smallChunk 8 0xfffffffb 10)
    ⟨0, 7, 0x8fffffffb, 8, 0xfffffffb, 10, true, none⟩ false (by decide +kernel)
  refine ⟨_, _, h, _, handled, stored, ?_⟩
  rintro ⟨inside, -⟩
  have front : 0xfffffffb ∈ positions ⟨0, 7, 0x8fffffffb, 8, 0xfffffffb, 10, true, none⟩ := by decide +kernel
  exact absurd (inside _ front) (by decide)

/-- A chunk that is the whole text. -/
theorem whole_text_written_inside : ∃ (h : HandledChunk 16384) (s : StoredChunk),
    receiveSmall (.initial 0x1000000) (smallChunk 10 0 10) = some h ∧ h.stored = some s ∧
      (∀ position ∈ positions s, position < s.totalLength.toNat) ∧
      ∀ position, s.terminator = some position → position < 16384 := by
  obtain ⟨h, handled, stored, -⟩ := @receiveSmall_stored (.initial 0x1000000) (smallChunk 10 0 10)
    ⟨0, 7, 0xa00000000, 10, 0, 10, true, some 10⟩ true (by decide +kernel)
  have fits : SumFits 16384 (smallChunk 10 0 10) 28 := by
    have known : (readChunk 16384 (smallChunk 10 0 10) 28).map (fun read => match read with
        | .signed data tail => decide (tail.chunkIndex.toNat + data.length < 2 ^ 32)
        | _ => true) = some true := by decide +kernel
    intro data tail read
    rw [read] at known
    exact of_decide_eq_true (Option.some.inj known)
  exact ⟨h, _, handled, stored, (stored_writes_inside_iff handled stored).mpr fits⟩

end Small

section Slots

variable {capacity : Nat} {room : 0 < capacity} {limits : Limits} {order : SortOrder} {RR : RuntimeEnvironment}
  {net : ChunkedNetwork} {now : Int}

/-- The slot `storeChunk` leaves behind, apart from the bytes in its memory. -/
theorem storeChunk_slot {c : Fin 3} {updateId chunkId : BitVec 64} {totalLength chunkIndex : BitVec 32}
    {data : List Byte} {forwarded : List Address} {result : HandledChunk capacity}
    (done : result = storeChunk room limits order RR net now c updateId chunkId totalLength chunkIndex data
      forwarded) :
    (∀ other, other ≠ c → result.net.incoming other = net.incoming other) ∧
      (result.net.incoming c).updateId = updateId ∧
      ((result.stored = none ∧ result.assembled = none ∧ (net.incoming c).updateId = updateId ∧
          (result.net.incoming c).haveBytes = (net.incoming c).haveBytes) ∨
        ∃ s, result.stored = some s ∧ s.slot = c ∧ s.updateId = updateId ∧ s.chunkLen = data.length ∧
          s.assigns = decide ((net.incoming c).updateId ≠ updateId) ∧
          (result.net.incoming c).haveBytes =
            (assignSlot (net.incoming c) updateId).haveBytes + BitVec.ofNat 32 data.length ∧
          (result.assembled.isSome = true → (result.net.incoming c).haveBytes = totalLength)) := by
  have kept (slot : IncomingConfigChunk) :
      ∀ other, other ≠ c → Function.update net.incoming c slot other = net.incoming other := by
    intro other different
    rw [Function.update_of_ne different]
  have assigned : (assignSlot (net.incoming c) updateId).updateId = updateId := by
    unfold assignSlot
    split_ifs with same
    · exact same
    · rfl
  subst done
  unfold storeChunk
  dsimp only
  split_ifs with full complete
  · have same : (net.incoming c).updateId = updateId := by
      by_contra other
      rw [assignSlot, if_neg other] at full
      exact absurd full (by simp [maxUpdateChunks])
    refine ⟨kept _, ?_, Or.inl ⟨rfl, rfl, same, ?_⟩⟩
    · simp only [Function.update_self, assigned]
    · simp only [Function.update_self, assignSlot, if_pos same]
  · have incoming (nc : Option NetworkConfig) (first : ChunkedNetwork) (next : NetworkConfig → Network) :
        (nc.elim first (fun nc => { first with toNetwork := next nc })).incoming = first.incoming := by
      cases nc with
      | none => rfl
      | some nc => rfl
    rw [incoming]
    refine ⟨kept _, ?_, Or.inr ⟨_, rfl, rfl, rfl, rfl, rfl, ?_, ?_⟩⟩
    · simp only [Function.update_self, fillSlot, assigned]
    · simp only [Function.update_self, fillSlot]
    · intro reached
      simp only [Function.update_self]
      exact complete
  · refine ⟨kept _, ?_, Or.inr ⟨_, rfl, rfl, rfl, rfl, rfl, ?_, ?_⟩⟩
    · simp only [Function.update_self, fillSlot, assigned]
    · simp only [Function.update_self, fillSlot]
    · intro reached
      cases reached

end Slots

/-- A chunk that arrives, or anything else the network does, which leaves the slots alone. -/
inductive Event
  | chunk (RR : RuntimeEnvironment) (now : Int) (packetId : BitVec 64) (source : Address) (chunk : List Byte)
      (ptr : Nat)
  | elsewhere (network : Network)

/-- A network and, for each slot, the chunks it has taken since it was assigned to its update. -/
structure Assembling where
  net : ChunkedNetwork
  ledger : Fin 3 → List StoredChunk

def Assembling.initial (id : BitVec 64) : Assembling := ⟨.initial id, fun _ => []⟩

/-- A chunk that assigns its slot is the first in the ledger. -/
def enter (ledger : Fin 3 → List StoredChunk) (s : StoredChunk) : Fin 3 → List StoredChunk :=
  Function.update ledger s.slot (if s.assigns then [s] else ledger s.slot ++ [s])

def bytesOf (chunks : List StoredChunk) : Nat := (chunks.map StoredChunk.chunkLen).sum

section Ledger

variable {capacity : Nat} (room : 0 < capacity) (limits : Limits) (order : SortOrder) (crypto : Crypto)

def step (state : Assembling) : Event → Assembling
  | .chunk RR now packetId source chunk ptr =>
      match handleConfigChunk room limits order crypto RR state.net now packetId source chunk ptr with
      | some h => ⟨h.net, h.stored.elim state.ledger (enter state.ledger)⟩
      | none => state
  | .elsewhere network => ⟨{ state.net with toNetwork := network }, state.ledger⟩

/-- A slot counts the bytes of the chunks in its ledger, all of which are of its update. -/
def Counted (state : Assembling) : Prop :=
  ∀ c, (state.net.incoming c).haveBytes = BitVec.ofNat 32 (bytesOf (state.ledger c)) ∧
    ∀ s ∈ state.ledger c, s.updateId = (state.net.incoming c).updateId ∧ s.chunkLen < 2 ^ 16

theorem counted_positions {chunks : List StoredChunk} (short : ∀ s ∈ chunks, s.chunkLen < 2 ^ 16) :
    counted (chunks.map positions) = bytesOf chunks := by
  unfold counted bytesOf
  rw [List.map_map]
  congr 1
  apply List.map_congr_left
  intro s found
  have small := short s found
  exact card_positionsFrom s.chunkIndex (by omega)

theorem counted_initial (id : BitVec 64) : Counted (.initial id) :=
  fun _ => ⟨rfl, fun _ found => absurd found List.not_mem_nil⟩

variable {limits order crypto}

theorem counted_storeChunk {state : Assembling} (counted : Counted state) {RR : RuntimeEnvironment} {now : Int}
    {c : Fin 3} {updateId chunkId : BitVec 64} {totalLength chunkIndex : BitVec 32} {data : List Byte}
    {forwarded : List Address} {h : HandledChunk capacity} (short : data.length < 2 ^ 16)
    (done : h = storeChunk room limits order RR state.net now c updateId chunkId totalLength chunkIndex data
      forwarded) : Counted ⟨h.net, h.stored.elim state.ledger (enter state.ledger)⟩ := by
  obtain ⟨others, assigned, ⟨stored, -, same, bytes⟩ | ⟨s, stored, slot, update, length, assigns, bytes, -⟩⟩ :=
    storeChunk_slot done
  · rw [stored]
    intro other
    by_cases here : other = c
    · rw [here]
      dsimp only [Option.elim]
      rw [bytes, assigned, ← same]
      exact counted c
    · dsimp only [Option.elim]
      rw [others other here]
      exact counted other
  · rw [stored]
    intro other
    dsimp only [Option.elim, enter]
    rw [slot]
    by_cases here : other = c
    · rw [here, Function.update_self, bytes, assigned, assigns]
      obtain ⟨held, listed⟩ := counted c
      by_cases same : (state.net.incoming c).updateId = updateId
      · rw [if_neg (by simpa using same), assignSlot, if_pos same]
        refine ⟨?_, ?_⟩
        · rw [bytesOf, List.map_append, List.sum_append, BitVec.ofNat_add, ← bytesOf]
          simp only [List.map_cons, List.map_nil, List.sum_cons, List.sum_nil, length, held, Nat.add_zero]
        · intro taken found
          rcases List.mem_append.mp found with earlier | last
          · rw [← same]
            exact listed taken earlier
          · rw [List.mem_singleton.mp last, update, length]
            exact ⟨rfl, short⟩
      · rw [if_pos (by simpa using same), assignSlot, if_neg same]
        refine ⟨?_, ?_⟩
        · simp [bytesOf, length]
        · intro taken found
          rw [List.mem_singleton.mp found, update, length]
          exact ⟨rfl, short⟩
    · rw [Function.update_of_ne here, others other here]
      exact counted other

theorem counted_handled {state : Assembling} (counted : Counted state) {RR : RuntimeEnvironment} {now : Int}
    {packetId : BitVec 64} {source : Address} {chunk : List Byte} {ptr : Nat} {h : HandledChunk capacity}
    (handled : handleConfigChunk room limits order crypto RR state.net now packetId source chunk ptr = some h) :
    Counted ⟨h.net, h.stored.elim state.ledger (enter state.ledger)⟩ := by
  rcases handleConfigChunk_cases handled with rfl | ⟨data, tail, forwarded, read, done⟩ | ⟨data, read, done⟩
  · exact counted
  · exact counted_storeChunk room counted (readChunk_signed read).1 done
  · exact counted_storeChunk room counted (readChunk_legacy read).1 done

theorem counted_step (state : Assembling) (event : Event) (counted : Counted state) :
    Counted (step room limits order crypto state event) := by
  cases event with
  | chunk RR now packetId source chunk ptr =>
      unfold step
      dsimp only
      split
      · rename_i h handled
        exact counted_handled room counted handled
      · exact counted
  | elsewhere network => exact counted

/-- A slot whose dictionary is read has been given as many bytes as the last chunk's total length says. -/
theorem assembled_complete {net : ChunkedNetwork} {RR : RuntimeEnvironment} {now : Int} {packetId : BitVec 64}
    {source : Address} {chunk : List Byte} {ptr : Nat} {h : HandledChunk capacity} {s : StoredChunk}
    (handled : handleConfigChunk room limits order crypto RR net now packetId source chunk ptr = some h)
    (stored : h.stored = some s) (reached : h.assembled.isSome = true) :
    (h.net.incoming s.slot).haveBytes = s.totalLength ∧ (h.net.incoming s.slot).updateId = s.updateId := by
  have complete {c : Fin 3} {updateId chunkId : BitVec 64} {totalLength chunkIndex : BitVec 32} {data : List Byte}
      {forwarded : List Address} (done : h = storeChunk room limits order RR net now c updateId chunkId totalLength
        chunkIndex data forwarded) :
      (h.net.incoming s.slot).haveBytes = s.totalLength ∧ (h.net.incoming s.slot).updateId = s.updateId := by
    have total := (storeChunk_stored (done ▸ stored)).2.2.1
    obtain ⟨-, assigned, ⟨nothing, -⟩ | ⟨taken, found, slot, update, -, -, -, whole⟩⟩ := storeChunk_slot done
    · rw [stored] at nothing
      cases nothing
    · rw [stored] at found
      cases found
      rw [slot, total, update]
      exact ⟨whole reached, assigned⟩
  rcases handleConfigChunk_cases handled with rfl | ⟨data, tail, forwarded, read, done⟩ | ⟨data, read, done⟩
  · cases stored
  · exact complete done
  · exact complete done

end Ledger

end ZeroTierNode.ConfigAssembly

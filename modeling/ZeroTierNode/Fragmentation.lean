import ZeroTierNode.Packet

/-!
Fragmentation on the sending side: `Switch::_sendViaSpecificPath` cuts a packet
that exceeds the MTU into a head, which is a prefix of the packet, and fragments
with a header of their own.
-/

namespace ZeroTierNode.Fragmentation
open Library.Bytes

/-- `Packet::setFragmented`. -/
def setFragmented (packet : List Byte) (f : Bool) : List Byte :=
  packet.set 18 (if f then Packet.flags packet ||| 0x40 else Packet.flags packet &&& 0xbf)

/-- The octet of total and number in a fragment's header. -/
def fragmentCounts (fragNo fragTotal : Nat) : Byte :=
  BitVec.ofNat 8 (((fragTotal &&& 0xf) <<< 4) ||| (fragNo &&& 0xf))

/-- `Packet::Fragment::init`; `none` when it throws. -/
def initFragment (p : List Byte) (fragStart fragLen fragNo fragTotal : Nat) : Option (List Byte) :=
  if p.length < fragStart + fragLen ∨ Packet.maxPacketLength < fragLen + Packet.minFragmentLength then none
  else some (p.take 13 ++ [0xff, fragmentCounts fragNo fragTotal, 0] ++ Packet.fieldAt p fragStart fragLen)

/-- `mtu - ZT_PROTO_MIN_FRAGMENT_LENGTH`, an unsigned int that wraps around. -/
def fragmentRoom (mtu : Nat) : Nat :=
  if Packet.minFragmentLength ≤ mtu then mtu - Packet.minFragmentLength
  else 2 ^ 32 - Packet.minFragmentLength + mtu

/-- Head and fragments of a packet of `size` bytes, more than the MTU. An MTU of 16 divides by zero. -/
def totalFragments (mtu size : Nat) : Nat :=
  let remaining := size - mtu
  let fragsRemaining := remaining / fragmentRoom mtu
  if fragsRemaining * fragmentRoom mtu < remaining then fragsRemaining + 2 else fragsRemaining + 1

/-- The loop over the fragments, which an exception ends. -/
def sendFragments (packet : List Byte) (mtu total : Nat) : Nat → Nat → Nat → Nat → List (List Byte)
  | _, _, _, 0 => []
  | fno, fragStart, remaining, count + 1 =>
      let chunkSize := min remaining (fragmentRoom mtu)
      match initFragment packet fragStart chunkSize fno total with
      | none => []
      | some frag =>
          frag :: sendFragments packet mtu total (fno + 1) (fragStart + chunkSize) (remaining - chunkSize) count

/-- The datagrams of a packet that is ready to be sent, over a path whose socket takes them. -/
def transmit (mtu : Nat) (packet : List Byte) : List (List Byte) :=
  let chunkSize := min packet.length mtu
  packet.take chunkSize ::
    if chunkSize < packet.length then
      let total := totalFragments mtu packet.length
      sendFragments packet mtu total 1 chunkSize (packet.length - chunkSize) (total - 1)
    else []

/-- The packet as it is sent; `secure` is `setTrusted`, `armor`, or nothing for a packet that was
already encrypted. -/
def outgoing (secure : List Byte → List Byte) (mtu : Nat) (packet : List Byte) : List Byte :=
  secure (setFragmented packet (min packet.length mtu < packet.length))

/-- `Switch::_sendViaSpecificPath`. -/
def sendViaSpecificPath (secure : List Byte → List Byte) (mtu : Nat) (packet : List Byte) : List (List Byte) :=
  transmit mtu (outgoing secure mtu packet)

/-- `setTrusted` and `armor` write the packet id, the cipher, the MAC and the payload in place. -/
structure KeepsHeader (secure : List Byte → List Byte) : Prop where
  length : ∀ packet, (secure packet).length = packet.length
  addresses : ∀ packet, Packet.fieldAt (secure packet) 8 10 = Packet.fieldAt packet 8 10
  fragmented : ∀ packet, Packet.fragmented (secure packet) = Packet.fragmented packet

theorem keepsHeader_id : KeepsHeader id := ⟨fun _ => rfl, fun _ => rfl, fun _ => rfl⟩

theorem fragmented_setFragmented {packet : List Byte} (long : Packet.minPacketLength ≤ packet.length) (f : Bool) :
    Packet.fragmented (setFragmented packet f) = f := by
  have flags : Packet.flags (setFragmented packet f) =
      if f then Packet.flags packet ||| 0x40 else Packet.flags packet &&& 0xbf := by
    have inside : 18 < packet.length := lt_of_lt_of_le (by decide) long
    rw [Packet.flags, Packet.byteAt, setFragmented, List.getD_eq_getElem?_getD, List.getElem?_set_self inside]
    rfl
  have octets : ∀ octet : Byte, ∀ f : Bool,
      decide ((if f then octet ||| 0x40 else octet &&& 0xbf) &&& 0x40 ≠ 0) = f := by decide
  rw [Packet.fragmented, flags]
  exact octets (Packet.flags packet) f

section Outgoing

variable {secure : List Byte → List Byte} (keeps : KeepsHeader secure) (mtu : Nat) {packet : List Byte}

include keeps

theorem outgoing_length : (outgoing secure mtu packet).length = packet.length := by
  rw [outgoing, keeps.length, setFragmented, List.length_set]

theorem outgoing_addresses : Packet.fieldAt (outgoing secure mtu packet) 8 10 = Packet.fieldAt packet 8 10 := by
  rw [outgoing, keeps.addresses, setFragmented, Packet.fieldAt, Packet.fieldAt, List.drop_set]
  simp only [show ¬ 18 < 8 by decide, if_false]
  rw [List.take_set]
  exact List.set_eq_of_length_le (le_trans (List.length_take_le _ _) (by decide))

theorem outgoing_fragmented (long : Packet.minPacketLength ≤ packet.length) :
    Packet.fragmented (outgoing secure mtu packet) = decide (mtu < packet.length) := by
  rw [outgoing, keeps.fragmented, fragmented_setFragmented long]
  simp only [decide_eq_decide]
  omega

end Outgoing

/-- Addresses are read from bytes 8 to 17. -/
theorem addresses_congr {first second : List Byte}
    (same : Packet.fieldAt first 8 10 = Packet.fieldAt second 8 10) :
    Packet.destination first = Packet.destination second ∧ Packet.source first = Packet.source second ∧
      Packet.byteAt first 13 = Packet.byteAt second 13 := by
  have part (start count : Nat) (inside : start + count ≤ 10) (data : List Byte) :
      Packet.fieldAt data (8 + start) count = Packet.fieldAt (Packet.fieldAt data 8 10) start count := by
    rw [Packet.fieldAt, Packet.fieldAt, Packet.fieldAt, List.drop_take, List.take_take, List.drop_drop]
    congr 1
    omega
  have octet (data : List Byte) : Packet.byteAt data 13 = Packet.byteAt (Packet.fieldAt data 8 10) 5 := by
    simp [Packet.byteAt, Packet.fieldAt, List.getD_eq_getElem?_getD, List.getElem?_drop]
  refine ⟨?_, ?_, ?_⟩
  · rw [Packet.destination, Packet.destination, part 0 5 (by decide), part 0 5 (by decide), same]
  · rw [Packet.source, Packet.source, part 5 5 (by decide), part 5 5 (by decide), same]
  · rw [octet, octet, same]

section Pieces

variable {p : List Byte} {mtu : Nat}

/-- Where the payload of a fragment starts in the packet. -/
def fragmentStart (mtu number : Nat) : Nat := mtu + (number - 1) * fragmentRoom mtu

def fragmentLength (p : List Byte) (mtu number : Nat) : Nat :=
  min (p.length - fragmentStart mtu number) (fragmentRoom mtu)

/-- Fragment `number` of a packet. -/
def fragmentOf (p : List Byte) (mtu number : Nat) : List Byte :=
  p.take 13 ++ [0xff, fragmentCounts number (totalFragments mtu p.length), 0] ++
    Packet.fieldAt p (fragmentStart mtu number) (fragmentLength p mtu number)

theorem fragmentRoom_eq (least : Packet.minPacketLength ≤ mtu) : fragmentRoom mtu = mtu - 16 :=
  if_pos (le_trans (by decide) least)

/-- The fragments but the last one are full, and the last one is not empty. -/
theorem totalFragments_bounds {size : Nat} (room : 0 < fragmentRoom mtu) (large : mtu < size) :
    2 ≤ totalFragments mtu size ∧ size - mtu ≤ (totalFragments mtu size - 1) * fragmentRoom mtu ∧
      (totalFragments mtu size - 2) * fragmentRoom mtu < size - mtu := by
  have division := Nat.div_add_mod (size - mtu) (fragmentRoom mtu)
  have rest := Nat.mod_lt (size - mtu) room
  unfold totalFragments
  dsimp only
  generalize (size - mtu) / fragmentRoom mtu = full at *
  rw [Nat.mul_comm] at division
  split
  · rename_i partly
    refine ⟨by omega, ?_, ?_⟩
    · rw [show full + 2 - 1 = full + 1 by omega, Nat.add_mul]
      omega
    · rw [show full + 2 - 2 = full by omega]
      exact partly
  · have exactly : size - mtu = full * fragmentRoom mtu := by omega
    cases full with
    | zero => omega
    | succ full =>
        refine ⟨by omega, ?_, ?_⟩
        · rw [show full + 1 + 1 - 1 = full + 1 by omega]
          omega
        · rw [exactly, show full + 1 + 1 - 2 = full by omega, Nat.add_mul]
          omega

theorem fragmentRoom_pos (least : Packet.minPacketLength ≤ mtu) : 0 < fragmentRoom mtu := by
  have least' : 28 ≤ mtu := least
  rw [fragmentRoom_eq least]
  omega

theorem totalFragments_covers (least : Packet.minPacketLength ≤ mtu)
    (large : mtu < p.length) :
    2 ≤ totalFragments mtu p.length ∧
      p.length - mtu ≤ (totalFragments mtu p.length - 1) * fragmentRoom mtu ∧
      (totalFragments mtu p.length - 2) * fragmentRoom mtu < p.length - mtu :=
  totalFragments_bounds (fragmentRoom_pos least) large

/-- How large a packet may be for a number of fragments. -/
theorem totalFragments_le_iff {size count : Nat} (room : 0 < fragmentRoom mtu) (large : mtu < size) :
    totalFragments mtu size ≤ count + 1 ↔ size ≤ mtu + count * fragmentRoom mtu := by
  obtain ⟨several, covers, tight⟩ := totalFragments_bounds room large
  constructor
  · intro few
    have most : (totalFragments mtu size - 1) * fragmentRoom mtu ≤ count * fragmentRoom mtu :=
      Nat.mul_le_mul_right _ (by omega)
    omega
  · intro small
    have fewer : (totalFragments mtu size - 2) * fragmentRoom mtu < count * fragmentRoom mtu := by omega
    have below := Nat.lt_of_mul_lt_mul_right fewer
    omega

/-- The loop sends the fragments in order, and no exception ends it. -/
theorem sendFragments_eq (least : Packet.minPacketLength ≤ mtu)
    (fits : p.length ≤ Packet.maxPacketLength) (count fno : Nat) (first : 1 ≤ fno)
    (covers : p.length - fragmentStart mtu fno ≤ count * fragmentRoom mtu)
    (tight : (count - 1) * fragmentRoom mtu < p.length - fragmentStart mtu fno) :
    sendFragments p mtu (totalFragments mtu p.length) fno (fragmentStart mtu fno)
      (p.length - fragmentStart mtu fno) count = (List.range' fno count).map (fragmentOf p mtu) := by
  induction count generalizing fno with
  | zero => rfl
  | succ count ih =>
      have start : mtu ≤ fragmentStart mtu fno := Nat.le_add_right _ _
      have short : fragmentLength p mtu fno ≤ p.length - fragmentStart mtu fno := Nat.min_le_left _ _
      have least' : 28 ≤ mtu := least
      have fits' : p.length ≤ 10024 := fits
      have made : initFragment p (fragmentStart mtu fno) (fragmentLength p mtu fno) fno
          (totalFragments mtu p.length) = some (fragmentOf p mtu fno) := by
        rw [initFragment, if_neg (by
          intro throws
          have bound : Packet.maxPacketLength = 10024 := rfl
          have header : Packet.minFragmentLength = 16 := rfl
          omega)]
        rfl
      have next : fragmentStart mtu (fno + 1) = fragmentStart mtu fno + fragmentRoom mtu := by
        obtain ⟨number, rfl⟩ : ∃ number, fno = number + 1 := ⟨fno - 1, by omega⟩
        simp only [fragmentStart, Nat.add_sub_cancel, Nat.add_mul, one_mul]
        omega
      rw [sendFragments, ← fragmentLength, made, List.range'_succ, List.map_cons]
      cases count with
      | zero => simp only [sendFragments, List.range'_zero, List.map_nil]
      | succ count =>
          rw [show count + 1 + 1 - 1 = count + 1 by omega, Nat.add_mul] at tight
          rw [Nat.add_mul (count + 1)] at covers
          have full : fragmentLength p mtu fno = fragmentRoom mtu := Nat.min_eq_right (by omega)
          rw [full, ← next, ← ih (fno + 1) (by omega) (by omega) (by
            rw [show count + 1 - 1 = count by omega]
            omega)]
          rw [next, Nat.sub_sub]

theorem transmit_fragmented (least : Packet.minPacketLength ≤ mtu)
    (large : mtu < p.length) (fits : p.length ≤ Packet.maxPacketLength) :
    transmit mtu p = p.take mtu ::
      (List.range' 1 (totalFragments mtu p.length - 1)).map (fragmentOf p mtu) := by
  obtain ⟨several, covers, tight⟩ := totalFragments_covers least large
  have start : fragmentStart mtu 1 = mtu := by simp [fragmentStart]
  have sent := sendFragments_eq least fits (totalFragments mtu p.length - 1) 1 (le_refl 1)
    (by rw [start]; exact covers) (by rw [start, Nat.sub_sub]; exact tight)
  rw [start] at sent
  rw [transmit]
  dsimp only
  rw [Nat.min_eq_right (le_of_lt large), if_pos large, sent]

theorem transmit_whole (small : ¬ mtu < p.length) : transmit mtu p = [p] := by
  rw [transmit]
  dsimp only
  rw [Nat.min_eq_left (by omega), if_neg (lt_irrefl _), List.take_length]

/-- The head and the payloads of the fragments make up the packet. -/
theorem fragments_join (count number : Nat) (first : 1 ≤ number)
    (covers : p.length - fragmentStart mtu number ≤ count * fragmentRoom mtu) :
    p.take (fragmentStart mtu number) ++ (List.range' number count).flatMap (fun n =>
      Packet.fieldAt p (fragmentStart mtu n) (fragmentLength p mtu n)) = p := by
  induction count generalizing number with
  | zero =>
      rw [List.range'_zero, List.flatMap_nil, List.append_nil]
      exact List.take_of_length_le (by omega)
  | succ count ih =>
      have next : fragmentStart mtu (number + 1) = fragmentStart mtu number + fragmentRoom mtu := by
        obtain ⟨before, rfl⟩ : ∃ before, number = before + 1 := ⟨number - 1, by omega⟩
        simp only [fragmentStart, Nat.add_sub_cancel, Nat.add_mul, one_mul]
        omega
      have here : Packet.fieldAt p (fragmentStart mtu number) (fragmentLength p mtu number) =
          (p.drop (fragmentStart mtu number)).take (fragmentRoom mtu) := by
        rw [Packet.fieldAt, fragmentLength, Nat.min_comm, ← List.length_drop, ← List.take_eq_take_min]
      rw [Nat.add_mul] at covers
      rw [List.range'_succ, List.flatMap_cons, here, ← List.append_assoc, ← List.take_add, ← next]
      exact ih (number + 1) (by omega) (by rw [next]; omega)

/-- The fields of a fragment are where the receiver reads them. -/
theorem fragmentOf_fields (long : Packet.minPacketLength ≤ p.length) (number : Nat) :
    Packet.packetId (fragmentOf p mtu number) = Packet.packetId p ∧
      Packet.destination (fragmentOf p mtu number) = Packet.destination p ∧
      Packet.isFragment (fragmentOf p mtu number) = true ∧
      Packet.byteAt (fragmentOf p mtu number) 14 = fragmentCounts number (totalFragments mtu p.length) ∧
      Packet.payload (fragmentOf p mtu number) =
        Packet.fieldAt p (fragmentStart mtu number) (fragmentLength p mtu number) := by
  have taken : (p.take 13).length = 13 := by
    have long' : 28 ≤ p.length := long
    rw [List.length_take]
    omega
  have field (start count : Nat) (inside : start + count ≤ 13) :
      Packet.fieldAt (fragmentOf p mtu number) start count = Packet.fieldAt p start count := by
    rw [Packet.fieldAt, Packet.fieldAt, fragmentOf, List.append_assoc,
      List.drop_append_of_le_length (by omega), List.take_append_of_le_length (by
        rw [List.length_drop]; omega), List.drop_take, List.take_take, Nat.min_eq_left (by omega)]
  have behind (position : Nat) : Packet.byteAt (fragmentOf p mtu number) (13 + position) =
      Packet.byteAt ([0xff, fragmentCounts number (totalFragments mtu p.length), 0] ++
        Packet.fieldAt p (fragmentStart mtu number) (fragmentLength p mtu number)) position := by
    rw [Packet.byteAt, fragmentOf, List.append_assoc, List.getD_append_right _ _ _ _ (by omega), taken,
      Nat.add_sub_cancel_left, Packet.byteAt]
  refine ⟨?_, ?_, ?_, behind 1, ?_⟩
  · rw [Packet.packetId, field 0 8 (by decide), ← Packet.packetId]
  · rw [Packet.destination, field 8 5 (by decide), ← Packet.destination]
  · rw [Packet.isFragment, behind 0, Packet.byteAt, List.cons_append, List.getD_cons_zero]
    exact decide_eq_true rfl
  · rw [Packet.payload, fragmentOf, List.append_assoc, List.drop_append, taken,
      List.drop_eq_nil_of_le (by omega), List.nil_append]
    exact List.drop_left' (by rfl)

/-- Four bits hold numbers below 16. -/
theorem fragmentCounts_decode {number total : Nat} (small : number < 16) (few : total < 16) :
    (fragmentCounts number total &&& 0xf).toNat = number ∧ (fragmentCounts number total >>> 4).toNat = total := by
  have all : ∀ number total : Fin 16,
      (fragmentCounts number total &&& 0xf).toNat = number.val ∧
        (fragmentCounts number total >>> 4).toNat = total.val := by decide
  exact all ⟨number, small⟩ ⟨total, few⟩

theorem fragmentCounts_fields {number total : Nat} (small : number < Packet.maxPacketFragments)
    (few : total ≤ Packet.maxPacketFragments) :
    (fragmentCounts number total &&& 0xf).toNat = number ∧ (fragmentCounts number total >>> 4).toNat = total :=
  fragmentCounts_decode (lt_trans small (by decide)) (lt_of_le_of_lt few (by decide))

end Pieces

end ZeroTierNode.Fragmentation

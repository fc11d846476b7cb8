import ZeroTierNode.CredentialDelivery
import ZeroTierNode.Library.Ciphers

/-!
The addresses under which a node can be reached directly. `Peer::received` sends them
in as many packets as it takes, leaving out what is not an IP address, and
`_doPUSH_DIRECT_PATHS` goes through the entries of one packet after another.
-/

namespace ZeroTierNode.DirectPaths
open Library.Bytes Library.Ciphers Buffer CredentialPush CredentialDelivery

/-- An element of `pathsToPush`: `AF_INET`, `AF_INET6`, or any other family. -/
inductive SockAddr
  | inet (ip : BitVec 32) (port : BitVec 16)
  | inet6 (ip : BitVec 128) (port : BitVec 16)
  | other (ss_family : BitVec 16)
deriving DecidableEq, Repr

namespace SockAddr

/-- The IP address with its port. -/
def address : SockAddr → Option InetAddress
  | .inet ip port => some (.v4 ip port)
  | .inet6 ip port => some (.v6 ip port)
  | .other _ => none

/-- The entry: no flags, no extensions, type and length of the address, the address and the port. -/
def entry : SockAddr → Option (List Byte)
  | .inet ip port => some (wordBytes 1 (0 : Byte) ++ wordBytes 2 (0 : BitVec 16) ++ wordBytes 1 (4 : Byte) ++
      wordBytes 1 (6 : Byte) ++ wordBytes 4 ip ++ wordBytes 2 port)
  | .inet6 ip port => some (wordBytes 1 (0 : Byte) ++ wordBytes 2 (0 : BitVec 16) ++ wordBytes 1 (6 : Byte) ++
      wordBytes 1 (18 : Byte) ++ wordBytes 16 ip ++ wordBytes 2 port)
  | .other _ => none

end SockAddr

section Sender

/-- The inner loop, with what `p` still has in front of it: the packet, the count, and what is left. -/
def fill : List SockAddr → List Byte → Option (List Byte × Nat × List SockAddr)
  | [], outp => some (outp, 0, [])
  | p :: rest, outp =>
      if outp.length + 24 < 1200 then
        match p.entry with
        | none => fill rest outp
        | some bytes => do
            let outp ← append outp bytes
            let (outp, count, left) ← fill rest outp
            return (outp, count + 1, left)
      else some (outp, 0, p :: rest)

/-- What a new packet has in it by chance: its initialization vector, and what its memory held before. -/
structure Fresh where
  iv : BitVec 64
  mac : BitVec 64
  gap : BitVec 16

/-- `VERB_PUSH_DIRECT_PATHS`. -/
def verbPushDirectPaths : Byte := 0x10

/-- The outer loop with at most `fuel` looks at its condition: the packets as they are armored, the next one being
the `n`th. -/
def pushFrom (lz4 : List Byte → List Byte) (fresh : Nat → Fresh) (self peer : Address) :
    Nat → Nat → List SockAddr → Option (List (List Byte))
  | 0, _, _ => none
  | fuel + 1, n, left =>
      if left = [] then some []
      else do
        let outp := newPacket (fresh n).iv (fresh n).mac peer self verbPushDirectPaths
        -- leave room for count
        let outp ← append outp (wordBytes 2 (fresh n).gap)
        let (outp, count, left) ← fill left outp
        let others ← pushFrom lz4 fresh self peer fuel (n + 1) left
        return if count ≠ 0 then Packet.compress lz4 (setAt16 outp 28 (BitVec.ofNat 16 count)) :: others else others

/-- The packets for `pathsToPush`. -/
def pushDirectPaths (lz4 : List Byte → List Byte) (fresh : Nat → Fresh) (self peer : Address)
    (pathsToPush : List SockAddr) (fuel : Nat) : Option (List (List Byte)) :=
  pushFrom lz4 fresh self peer fuel 0 pathsToPush

end Sender

section Receiver

/-- The address of an entry; types other than 4 and 6 have none. -/
def readAddress (packet : List Byte) (ptr : Nat) (addrType : Byte) : Option (Option InetAddress) :=
  if addrType = 4 then do
    let ip ← at32 packet ptr
    let port ← at16 packet (ptr + 4)
    return some (.v4 ip port)
  else if addrType = 6 then do
    let ip ← atWord 128 16 packet ptr
    let port ← at16 packet (ptr + 16)
    return some (.v6 ip port)
  else some none

/-- An entry: its flags, its address, and where the next one begins. -/
def readEntry (packet : List Byte) (ptr : Nat) : Option (Byte × Option InetAddress × Nat) := do
  let flags ← at8 packet ptr
  let extLen ← at16 packet (ptr + 1)
  let ptr := ptr + 3 + extLen.toNat -- unused right now
  let addrType ← at8 packet ptr
  let addrLen ← at8 packet (ptr + 1)
  let a ← readAddress packet (ptr + 2) addrType
  return (flags, a, ptr + 2 + addrLen.toNat)

variable {State : Type} (visit : State → Byte → InetAddress → State)

/-- The loop of `_doPUSH_DIRECT_PATHS`, with what is done for each address; whether it ends without an exception. -/
def readPaths (packet : List Byte) : Nat → Nat → State → Bool × State
  | 0, _, s => (true, s)
  | count + 1, ptr, s =>
      match readEntry packet ptr with
      | none => (false, s)
      | some (flags, a, ptr) => readPaths packet count ptr (a.elim s (visit s flags))

/-- `_doPUSH_DIRECT_PATHS` behind its rate gate. -/
def doPUSH_DIRECT_PATHS (packet : List Byte) (s : State) : Bool × State :=
  match at16 packet 28 with
  | none => (false, s)
  | some count => readPaths visit packet count.toNat 30 s

/-- Packets are uncompressed and handled one after another; whether no exception was thrown. -/
def receiveAll (unpack : List Byte → Option (List Byte)) : List (List Byte) → State → Bool × State
  | [], s => (true, s)
  | packet :: rest, s =>
      match Packet.uncompress unpack packet with
      | none => (false, (receiveAll unpack rest s).2)
      | some plain =>
          ((doPUSH_DIRECT_PATHS visit plain s).1 && (receiveAll unpack rest (doPUSH_DIRECT_PATHS visit plain s).2).1,
            (receiveAll unpack rest (doPUSH_DIRECT_PATHS visit plain s).2).2)

end Receiver

/-- The addresses that are sent. -/
def addresses (paths : List SockAddr) : List InetAddress := paths.filterMap SockAddr.address

/-- The entry that an address has, and nothing for other families. -/
def SockAddr.wire (p : SockAddr) : List Byte := p.entry.getD []

section Entries

variable {State : Type} {visit : State → Byte → InetAddress → State}

theorem entry_of_address {p : SockAddr} (sent : p.address.isSome) :
    p.entry = some p.wire ∧ 0 < p.wire.length ∧ p.wire.length ≤ 23 := by
  cases p with
  | inet ip port => simp [SockAddr.wire, SockAddr.entry]
  | inet6 ip port => simp [SockAddr.wire, SockAddr.entry]
  | other ss_family => cases sent

theorem entry_of_other {p : SockAddr} (other : p.address = none) : p.entry = none := by
  cases p with
  | inet ip port => cases other
  | inet6 ip port => cases other
  | other ss_family => rfl

/-- The fields in front of an address: behind them it is read, and the entry ends with it. -/
theorem readEntry_of_fields {addrType addrLen : Byte} {address packet : List Byte} {ptr : Nat}
    (here : Stands (wordBytes 1 (0 : Byte) ++ (wordBytes 2 (0 : BitVec 16) ++ (wordBytes 1 addrType ++
      (wordBytes 1 addrLen ++ address)))) packet ptr) :
    Stands address packet (ptr + 5) ∧ ∀ a, readAddress packet (ptr + 5) addrType = some a →
      readEntry packet ptr = some (0, a, ptr + 5 + addrLen.toNat) := by
  obtain ⟨flags, here⟩ := atWord_of_stands (by decide : 8 ≤ 8 * 1) (by decide) here
  obtain ⟨extLen, here⟩ := atWord_of_stands (by decide : 16 ≤ 8 * 2) (by decide) here
  obtain ⟨type, here⟩ := atWord_of_stands (by decide : 8 ≤ 8 * 1) (by decide) here
  obtain ⟨length, here⟩ := atWord_of_stands (by decide : 8 ≤ 8 * 1) (by decide) here
  simp only [Nat.add_assoc, Nat.reduceAdd] at extLen type length here
  refine ⟨here, fun a read => ?_⟩
  simp [readEntry, at8, at16, flags, extLen, type, length, read, Nat.add_assoc]
  omega

/-- Where an entry stands, it is read, and the next one begins behind it. -/
theorem readEntry_of_stands {p : SockAddr} {a : InetAddress} (sent : p.address = some a) {rest packet : List Byte}
    {ptr : Nat} (here : Stands (p.wire ++ rest) packet ptr) :
    readEntry packet ptr = some (0, some a, ptr + p.wire.length) ∧ Stands rest packet (ptr + p.wire.length) := by
  refine ⟨?_, (stands_append.mp here).2⟩
  cases p with
  | inet ip port =>
      cases sent
      simp only [SockAddr.wire, SockAddr.entry, Option.getD_some, List.append_assoc] at here
      obtain ⟨here, entry⟩ := readEntry_of_fields here
      obtain ⟨address, here⟩ := atWord_of_stands (by decide : 32 ≤ 8 * 4) (by decide) here
      obtain ⟨number, here⟩ := atWord_of_stands (by decide : 16 ≤ 8 * 2) (by decide) here
      rw [entry (some (.v4 ip port)) (by simp [readAddress, at16, at32, address, number])]
      simp [SockAddr.wire, SockAddr.entry]
  | inet6 ip port =>
      cases sent
      simp only [SockAddr.wire, SockAddr.entry, Option.getD_some, List.append_assoc] at here
      obtain ⟨here, entry⟩ := readEntry_of_fields here
      obtain ⟨address, here⟩ := atWord_of_stands (by decide : 128 ≤ 8 * 16) (by decide) here
      obtain ⟨number, here⟩ := atWord_of_stands (by decide : 16 ≤ 8 * 2) (by decide) here
      rw [entry (some (.v6 ip port)) (by simp [readAddress, at16, address, number])]
      simp [SockAddr.wire, SockAddr.entry]
  | other ss_family => cases sent

/-- The entries of a batch are visited one after another. -/
theorem readPaths_of_stands {batch : List SockAddr} (sent : ∀ p ∈ batch, p.address.isSome) {rest packet : List Byte}
    {ptr : Nat} (here : Stands (batch.flatMap SockAddr.wire ++ rest) packet ptr) (s : State) :
    readPaths visit packet batch.length ptr s = (true, (addresses batch).foldl (fun s a => visit s 0 a) s) := by
  induction batch generalizing ptr s with
  | nil => rfl
  | cons p batch ih =>
      obtain ⟨a, address⟩ := Option.isSome_iff_exists.mp (sent p List.mem_cons_self)
      rw [List.flatMap_cons, List.append_assoc] at here
      obtain ⟨entry, behind⟩ := readEntry_of_stands address here
      have later := ih (fun other member => sent other (List.mem_cons_of_mem _ member)) behind (visit s 0 a)
      rw [List.length_cons, readPaths, entry, addresses, List.filterMap_cons_some address, List.foldl_cons]
      exact later

end Entries

section Packets

/-- The inner loop takes what fits, in its order, and leaves out what is not an IP address. -/
theorem fill_spec (paths : List SockAddr) {outp : List Byte} (short : outp.length < 1200) :
    ∃ batch left, fill paths outp = some (outp ++ batch.flatMap SockAddr.wire, batch.length, left) ∧
      (∀ p ∈ batch, p.address.isSome) ∧ (outp ++ batch.flatMap SockAddr.wire).length < 1200 ∧
      addresses paths = addresses batch ++ addresses left ∧ left.length ≤ paths.length ∧
      (outp.length + 24 < 1200 → paths ≠ [] → left.length < paths.length) := by
  induction paths generalizing outp with
  | nil =>
      refine ⟨[], [], by simp [fill], ?_, by simpa using short, rfl, Nat.le_refl _, ?_⟩
      · exact fun p member => absurd member List.not_mem_nil
      · exact fun _ nonempty => absurd rfl nonempty
  | cons p rest ih =>
      rw [fill]
      by_cases room : outp.length + 24 < 1200
      · rw [if_pos room]
        cases address : p.address with
        | none =>
            obtain ⟨batch, left, filled, sent, size, parts, fewer, -⟩ := ih short
            rw [entry_of_other address]
            refine ⟨batch, left, filled, sent, size, ?_, Nat.le_succ_of_le fewer, ?_⟩
            · rw [addresses, List.filterMap_cons_none address]
              exact parts
            · exact fun _ _ => Nat.lt_succ_of_le fewer
        | some a =>
            obtain ⟨entry, -, few⟩ := entry_of_address (by rw [address]; rfl : p.address.isSome)
            have long : (outp ++ p.wire).length < 1200 := by
              rw [List.length_append]
              omega
            have appended : append outp p.wire = some (outp ++ p.wire) := by
              rw [append, if_pos]
              rw [List.length_append] at long
              exact Nat.le_of_lt (Nat.lt_trans long (by decide))
            obtain ⟨batch, left, filled, sent, size, parts, fewer, -⟩ := ih long
            refine ⟨p :: batch, left, ?_, ?_, ?_, ?_, Nat.le_succ_of_le fewer, ?_⟩
            · rw [entry]
              simp [appended, filled]
            · intro other member
              cases List.mem_cons.mp member with
              | inl same => rw [same, address, Option.isSome_some]
              | inr later => exact sent other later
            · rwa [List.flatMap_cons, ← List.append_assoc]
            · unfold addresses at parts ⊢
              rw [List.filterMap_cons_some address, List.filterMap_cons_some address, parts, List.cons_append]
            · exact fun _ _ => Nat.lt_succ_of_le fewer
      · rw [if_neg room]
        refine ⟨[], p :: rest, by simp, ?_, by simpa using short, rfl, Nat.le_refl _, ?_⟩
        · exact fun p member => absurd member List.not_mem_nil
        · exact fun wrong => absurd wrong room

/-- A packet with its count and its entries. -/
def filled (header : List Byte) (batch : List SockAddr) : List Byte :=
  header ++ (wordBytes 2 (BitVec.ofNat 16 batch.length) ++ batch.flatMap SockAddr.wire)

variable {header : List Byte} {batch : List SockAddr}

theorem setAt16_filled (sound : Header header) (gap : BitVec 16) :
    setAt16 (header ++ wordBytes 2 gap ++ batch.flatMap SockAddr.wire) 28 (BitVec.ofNat 16 batch.length) =
      filled header batch := by
  have overwritten (outp : List Byte) : setAt16 outp 28 (BitVec.ofNat 16 batch.length) =
      overwrite outp header.length (wordBytes 2 (BitVec.ofNat 16 batch.length)) := by
    rw [setAt16, overwrite, wordBytes_length, sound.long]
  rw [overwritten, List.append_assoc, overwrite_middle _ _ _ _ (by rw [wordBytes_length, wordBytes_length]), filled]

theorem batch_length (sent : ∀ p ∈ batch, p.address.isSome) : batch.length ≤ (batch.flatMap SockAddr.wire).length := by
  induction batch with
  | nil => exact Nat.le_refl 0
  | cons p batch ih =>
      have positive := (entry_of_address (sent p List.mem_cons_self)).2.1
      have later := ih fun other member => sent other (List.mem_cons_of_mem _ member)
      rw [List.flatMap_cons, List.length_append, List.length_cons]
      omega

/-- A packet is read back as it was filled. -/
theorem read_filled {State : Type} {visit : State → Byte → InetAddress → State} (sound : Header header)
    (sent : ∀ p ∈ batch, p.address.isSome) (few : batch.length < 2 ^ 16) (s : State) :
    doPUSH_DIRECT_PATHS visit (filled header batch) s =
      (true, (addresses batch).foldl (fun s a => visit s 0 a) s) := by
  have here : Stands (wordBytes 2 (BitVec.ofNat 16 batch.length) ++ (batch.flatMap SockAddr.wire ++ []))
      (filled header batch) 28 := by
    rw [List.append_nil, Stands, filled, ← sound.long, List.drop_left]
  obtain ⟨count, entries⟩ := atWord_of_stands (by decide : 16 ≤ 8 * 2) (by decide) here
  have counted : (BitVec.ofNat 16 batch.length).toNat = batch.length := by
    rw [BitVec.toNat_ofNat, Nat.mod_eq_of_lt few]
  rw [doPUSH_DIRECT_PATHS, at16, count]
  dsimp only
  rw [counted]
  exact readPaths_of_stands sent entries s

/-- The entries of a short packet can be counted. -/
theorem few_of_short (sent : ∀ p ∈ batch, p.address.isSome) (short : (filled header batch).length < 1200) :
    batch.length < 2 ^ 16 := by
  have few := batch_length sent
  rw [filled, List.length_append, List.length_append] at short
  omega

end Packets

/-- The entries of a packet, with their flags, and whether it is read to its end. -/
def entries (plain : List Byte) : Bool × List (Byte × InetAddress) :=
  doPUSH_DIRECT_PATHS (fun found flags a => found ++ [(flags, a)]) plain []

/-- What is asked of a packet that is armored and sent. -/
structure Sent (unpack : List Byte → Option (List Byte)) (packet : List Byte) : Prop where
  short : packet.length < 1200
  /-- Uncompressed it is short as well, and it has an entry. -/
  nonempty : ∃ plain, Packet.uncompress unpack packet = some plain ∧ plain.length < 1200 ∧ (entries plain).1 = true ∧
    (entries plain).2 ≠ []

section Batches

theorem foldl_listed (found : List InetAddress) (before : List (Byte × InetAddress)) :
    found.foldl (fun listed a => listed ++ [(0, a)]) before = before ++ found.map fun a => (0, a) := by
  induction found generalizing before with
  | nil => exact (List.append_nil before).symm
  | cons a found ih => rw [List.foldl_cons, ih, List.map_cons, List.append_assoc, List.singleton_append]

variable {pack : List Byte → List Byte} {unpack : List Byte → Option (List Byte)}

theorem sent_of_filled (inverse : Inverse pack unpack) {header : List Byte} {batch : List SockAddr}
    (sound : Header header) (sent : ∀ p ∈ batch, p.address.isSome) (short : (filled header batch).length < 1200) :
    Packet.uncompress unpack (Packet.compress pack (filled header batch)) = some (filled header batch) ∧
      (batch ≠ [] → Sent unpack (Packet.compress pack (filled header batch))) := by
  have long : 28 ≤ (filled header batch).length := by
    rw [filled, List.length_append, sound.long]
    omega
  have plain : Packet.compressed (filled header batch) = false := sound.compressed _
  have fits : (filled header batch).length ≤ Packet.maxPacketLength := Nat.le_of_lt (Nat.lt_trans short (by decide))
  have opened := Packet.uncompress_compress long plain fits (inverse _ (by rw [List.length_drop]; omega))
  refine ⟨opened, ?_⟩
  intro nonempty
  have shorter := Packet.compress_length_le long plain pack
  refine ⟨Nat.lt_of_le_of_lt shorter short, _, opened, short, ?_, ?_⟩
  · rw [entries, read_filled sound sent (few_of_short sent short)]
  · rw [entries, read_filled sound sent (few_of_short sent short)]
    rw [foldl_listed, List.nil_append]
    cases batch with
    | nil => exact absurd rfl nonempty
    | cons p batch =>
        obtain ⟨a, address⟩ := Option.isSome_iff_exists.mp (sent p List.mem_cons_self)
        rw [addresses, List.filterMap_cons_some address, List.map_cons]
        exact List.cons_ne_nil _ _

/-- What is received is visited packet by packet. -/
theorem receiveAll_cons {State : Type} {visit : State → Byte → InetAddress → State} (inverse : Inverse pack unpack)
    {header : List Byte} {batch : List SockAddr} (sound : Header header) (sent : ∀ p ∈ batch, p.address.isSome)
    (short : (filled header batch).length < 1200) (others : List (List Byte)) (s : State) :
    receiveAll visit unpack (Packet.compress pack (filled header batch) :: others) s =
      receiveAll visit unpack others ((addresses batch).foldl (fun s a => visit s 0 a) s) := by
  rw [receiveAll, (sent_of_filled inverse sound sent short).1]
  dsimp only
  rw [read_filled sound sent (few_of_short sent short), Bool.true_and]

/-- The outer loop ends, whatever is left to be sent. -/
theorem pushFrom_spec (inverse : Inverse pack unpack) (fresh : Nat → Fresh) (self peer : Address) (turns n : Nat)
    {left : List SockAddr} (enough : left.length ≤ turns) :
    ∃ packets, (∀ fuel, turns < fuel → pushFrom pack fresh self peer fuel n left = some packets) ∧
      (∀ packet ∈ packets, Sent unpack packet) ∧
      ∀ {State : Type} (visit : State → Byte → InetAddress → State) (s : State),
        receiveAll visit unpack packets s = (true, (addresses left).foldl (fun s a => visit s 0 a) s) := by
  induction turns generalizing n left with
  | zero =>
      have nothing := List.length_eq_zero_iff.mp (Nat.le_zero.mp enough)
      refine ⟨[], ?_, fun packet member => absurd member List.not_mem_nil, fun visit s => by rw [nothing]; rfl⟩
      intro fuel more
      obtain ⟨rest, rfl⟩ := Nat.exists_eq_succ_of_ne_zero (Nat.ne_of_gt more)
      rw [pushFrom, if_pos nothing]
  | succ turns ih =>
      by_cases nothing : left = []
      · refine ⟨[], ?_, fun packet member => absurd member List.not_mem_nil, fun visit s => by rw [nothing]; rfl⟩
        intro fuel more
        obtain ⟨rest, rfl⟩ := Nat.exists_eq_succ_of_ne_zero (Nat.ne_of_gt (Nat.zero_lt_of_lt more))
        rw [pushFrom, if_pos nothing]
      · have sound : Header (newPacket (fresh n).iv (fresh n).mac peer self verbPushDirectPaths) :=
          header_of_verb _ _ _ _ (by decide)
        obtain ⟨header, made⟩ : ∃ header, newPacket (fresh n).iv (fresh n).mac peer self verbPushDirectPaths = header :=
          ⟨_, rfl⟩
        rw [made] at sound
        have size : (header ++ wordBytes 2 (fresh n).gap).length = 30 := by
          rw [List.length_append, sound.long, wordBytes_length]
        have roomy : append header (wordBytes 2 (fresh n).gap) = some (header ++ wordBytes 2 (fresh n).gap) := by
          apply append_eq
          rw [sound.long, wordBytes_length]
          decide
        obtain ⟨batch, later, taken, sent, long, parts, -, progress⟩ :=
          @fill_spec left (header ++ wordBytes 2 (fresh n).gap) (by rw [size]; decide)
        have fewer := progress (by rw [size]; decide) nothing
        obtain ⟨others, ended, good, read⟩ := @ih (n + 1) later (by omega)
        have short : (filled header batch).length < 1200 := by
          rw [List.length_append, size] at long
          rw [filled, List.length_append, List.length_append, wordBytes_length, sound.long]
          omega
        have turn (fuel : Nat) (more : turns + 1 < fuel) : pushFrom pack fresh self peer fuel n left =
            some (if batch.length ≠ 0 then Packet.compress pack (filled header batch) :: others else others) := by
          obtain ⟨rest, rfl⟩ := Nat.exists_eq_succ_of_ne_zero (Nat.ne_of_gt (Nat.zero_lt_of_lt more))
          have finished := ended rest (Nat.lt_of_succ_lt_succ more)
          rw [pushFrom, if_neg nothing]
          simp only [made, roomy, taken, finished, setAt16_filled sound, Option.bind_eq_bind, Option.bind_some]
          rfl
        by_cases empty : batch.length = 0
        · have noBatch := List.length_eq_zero_iff.mp empty
          refine ⟨others, ?_, good, ?_⟩
          · intro fuel more
            rw [turn fuel more, if_neg (by simpa using noBatch)]
          · intro State visit s
            rw [read visit s, parts, noBatch]
            rfl
        · refine ⟨Packet.compress pack (filled header batch) :: others, ?_, ?_, ?_⟩
          · intro fuel more
            rw [turn fuel more, if_pos empty]
          · intro packet member
            cases List.mem_cons.mp member with
            | inl same =>
                rw [same]
                exact (sent_of_filled inverse sound sent short).2 (fun nil => empty (by rw [nil]; rfl))
            | inr other => exact good packet other
          · intro State visit s
            rw [receiveAll_cons inverse sound sent short, read visit, parts, List.foldl_append]

end Batches

/-- For any list of paths the loop ends, what it sends has entries and is shorter than 1200 bytes, and the receiver of
all packets visits exactly the IP addresses, in their order and each once. -/
theorem direct_paths_round_trip (pack : List Byte → List Byte) (unpack : List Byte → Option (List Byte))
    (inverse : Inverse pack unpack) (fresh : Nat → Fresh) (self peer : Address) (paths : List SockAddr) :
    ∃ packets, (∀ fuel, paths.length < fuel → pushDirectPaths pack fresh self peer paths fuel = some packets) ∧
      (∀ packet ∈ packets, Sent unpack packet) ∧
      ∀ {State : Type} (visit : State → Byte → InetAddress → State) (s : State),
        receiveAll visit unpack packets s = (true, (addresses paths).foldl (fun s a => visit s 0 a) s) :=
  pushFrom_spec inverse fresh self peer paths.length 0 (Nat.le_refl _)

/-- An address of another family between two IP addresses. -/
def mixed : List SockAddr := [.inet 0xc0a80001 9993, .other 1, .inet6 0xfd0000000000000000000000000000001 443]

theorem mixed_round_trip :
    ∃ packets, pushDirectPaths literals (fun _ => ⟨3, 0, 0⟩) 9 7 mixed 4 = some packets ∧
      receiveAll (fun found flags a => found ++ [(flags, a)]) (fun block => some (block.drop 2)) packets [] =
        (true, [(0, .v4 0xc0a80001 9993), (0, .v6 0xfd0000000000000000000000000000001 443)]) := by
  obtain ⟨packets, sent, -, read⟩ := direct_paths_round_trip literals (fun block => some (block.drop 2))
    (fun payload _ => rfl) (fun _ => ⟨3, 0, 0⟩) 9 7 mixed
  exact ⟨packets, sent 4 (by decide), read _ []⟩

end ZeroTierNode.DirectPaths

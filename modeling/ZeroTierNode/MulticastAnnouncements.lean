import Mathlib.Data.List.Destutter
import ZeroTierNode.CredentialDelivery
import ZeroTierNode.Hashtable
import ZeroTierNode.Library.Accesses
import ZeroTierNode.Library.Batches
import ZeroTierNode.MulticastGather

/-!
Announcements of multicast groups, from the subscriptions of one node to the calls of
`Multicaster::add` at another. The writer fills one packet after another with records of
18 bytes, and the reader steps through them.
-/

namespace ZeroTierNode.MulticastAnnouncements
open Library.Bytes Library.Accesses Library.Batches MulticastLikes
open CredentialDelivery (Inverse)
open CredentialPush (Header append header_of_verb newPacket)
open MulticastGather (groupBefore)
open Packet (compress maxPacketLength minPacketLength uncompress)

/-- `Network::BROADCAST`. -/
def broadcast : MulticastGroup := ⟨0xffffffffffff, 0⟩

section Groups

/-- What `_allMulticastGroups` reads of a network. -/
structure LocalGroups where
  config : NetworkConfig
  myMulticastGroups : List MulticastGroup
  /-- With the times at which they were seen. -/
  multicastGroupsBehindMe : Hashtable MulticastGroup (BitVec 64)

/-- A configuration with `ZT_NETWORKCONFIG_FLAG_ENABLE_BROADCAST`. -/
def LocalGroups.enableBroadcast (net : LocalGroups) : Bool := net.config.isSet && net.config.flags &&& 2 ≠ 0

/-- `_allMulticastGroups`: sorted, and behind `std::unique`, which drops what equals the element before it. -/
def LocalGroups.allMulticastGroups (net : LocalGroups) : List MulticastGroup :=
  let mgs := net.myMulticastGroups ++ net.multicastGroupsBehindMe.keys
  let mgs := if net.enableBroadcast then mgs ++ [broadcast] else mgs
  (mgs.insertionSort fun first second => groupBefore second first = false).destutter (· ≠ ·)

/-- The place of a group among all groups. -/
def place (mg : MulticastGroup) : Nat := mg.mac.toNat * 2 ^ 32 + mg.adi.toNat

theorem groupBefore_false (first second : MulticastGroup) :
    groupBefore second first = false ↔ place first ≤ place second := by
  have firstAdi := first.adi.isLt
  have secondAdi := second.adi.isLt
  simp only [groupBefore, place, decide_eq_false_iff_not, BitVec.lt_def, ← BitVec.toNat_inj]
  omega

theorem place_injective : Function.Injective place := by
  intro first second same
  have firstAdi := first.adi.isLt
  have secondAdi := second.adi.isLt
  simp only [place] at same
  cases first
  cases second
  rw [MulticastGroup.mk.injEq, ← BitVec.toNat_inj, ← BitVec.toNat_inj]
  dsimp only at same firstAdi secondAdi ⊢
  omega

theorem allMulticastGroups_eq (net : LocalGroups) :
    net.allMulticastGroups =
      List.dedup (((if net.enableBroadcast then
          net.myMulticastGroups ++ net.multicastGroupsBehindMe.keys ++ [broadcast]
        else net.myMulticastGroups ++ net.multicastGroupsBehindMe.keys)).insertionSort
          fun first second => groupBefore second first = false) := by
  have total : Std.Total fun first second : MulticastGroup => groupBefore second first = false := by
    constructor
    intro first second
    rw [groupBefore_false, groupBefore_false]
    exact Nat.le_total _ _
  have transitive : IsTrans MulticastGroup fun first second => groupBefore second first = false := by
    constructor
    intro first second third
    rw [groupBefore_false, groupBefore_false, groupBefore_false]
    exact Nat.le_trans
  have antisymmetric : Std.Antisymm fun first second : MulticastGroup => groupBefore second first = false := by
    constructor
    intro first second
    rw [groupBefore_false, groupBefore_false]
    intro below above
    exact place_injective (Nat.le_antisymm below above)
  exact (List.pairwise_insertionSort _ _).destutter_eq_dedup

theorem nodup_allMulticastGroups (net : LocalGroups) : net.allMulticastGroups.Nodup := by
  rw [allMulticastGroups_eq]
  exact List.nodup_dedup _

theorem mem_allMulticastGroups (net : LocalGroups) (mg : MulticastGroup) :
    mg ∈ net.allMulticastGroups ↔ mg ∈ net.myMulticastGroups ∨ mg ∈ net.multicastGroupsBehindMe.keys ∨
      net.enableBroadcast = true ∧ mg = broadcast := by
  rw [allMulticastGroups_eq, List.mem_dedup, List.mem_insertionSort]
  by_cases enabled : net.enableBroadcast = true
  · rw [if_pos enabled, List.mem_append, List.mem_append, List.mem_singleton, or_assoc]
    simp [enabled]
  · rw [if_neg enabled, List.mem_append]
    simp [enabled]

end Groups

section Sender

/-- `VERB_MULTICAST_LIKE`. -/
def verbMulticastLike : Byte := 0x09

variable (lz4 : List Byte → List Byte) (fresh : Nat → BitVec 64 × BitVec 64) (myAddress peer : Address)
  (nwid : BitVec 64)

/-- The packet object when it is constructed, and when it is `reset` for the `n`th time. -/
def blank (n : Nat) : List Byte := newPacket (fresh n).1 (fresh n).2 peer myAddress verbMulticastLike

/-- Network ID, MAC and ADI. -/
def appendGroup (outp : List Byte) (mg : MulticastGroup) : Option (List Byte) := do
  let outp ← append outp (wordBytes 8 nwid)
  let outp ← append outp (wordBytes 6 mg.mac)
  append outp (wordBytes 4 mg.adi)

/-- The packet that is filled, and those that were sent. -/
structure Announcing where
  outp : List Byte
  sent : List (List Byte)

/-- A turn of the loop. -/
def announceGroup (a : Announcing) (mg : MulticastGroup) : Option Announcing := do
  let a : Announcing :=
    if maxPacketLength ≤ a.outp.length + 24 then
      ⟨blank fresh myAddress peer (a.sent.length + 1), a.sent ++ [compress lz4 a.outp]⟩
    else a
  let outp ← appendGroup nwid a.outp mg
  return { a with outp := outp }

/-- `_announceMulticastGroupsTo`: the packets given to `Switch::send`. -/
def announceMulticastGroupsTo (allMulticastGroups : List MulticastGroup) : Option (List (List Byte)) := do
  let a ← allMulticastGroups.foldlM (announceGroup lz4 fresh myAddress peer nwid) ⟨blank fresh myAddress peer 0, []⟩
  return if minPacketLength < a.outp.length then a.sent ++ [compress lz4 a.outp] else a.sent

/-- A group as it stands in a packet. -/
def record (mg : MulticastGroup) : List Byte := wordBytes 8 nwid ++ (wordBytes 6 mg.mac ++ wordBytes 4 mg.adi)

/-- No room is left, by the guard of the loop. -/
def full (groups : List MulticastGroup) : Bool := maxPacketLength ≤ 28 + 18 * groups.length + 24

/-- The `n`th packet before it is compressed. -/
def built (n : Nat) (groups : List MulticastGroup) : List Byte :=
  blank fresh myAddress peer n ++ groups.flatMap (record nwid)

/-- The writer as a filler of batches. -/
structure Announcing.Shows (a : Announcing) (b : Batching MulticastGroup) : Prop where
  outp : a.outp = built fresh myAddress peer nwid b.closed.length b.current
  sent : a.sent = b.closed.mapIdx fun n groups => compress lz4 (built fresh myAddress peer nwid n groups)

variable {lz4 fresh myAddress peer nwid}

theorem header_blank (n : Nat) : Header (blank fresh myAddress peer n) := header_of_verb _ _ _ _ (by decide)

theorem length_record (mg : MulticastGroup) : (record nwid mg).length = 18 := by
  simp [record]

theorem length_built (n : Nat) (groups : List MulticastGroup) :
    (built fresh myAddress peer nwid n groups).length = 28 + 18 * groups.length := by
  rw [built, List.length_append, (header_blank n).long, Library.Records.length_flatMap_of_size length_record]

theorem appendGroup_some {outp : List Byte} (mg : MulticastGroup) (room : outp.length + 18 ≤ maxPacketLength) :
    appendGroup nwid outp mg = some (outp ++ record nwid mg) := by
  have network : append outp (wordBytes 8 nwid) = some (outp ++ wordBytes 8 nwid) := by
    rw [append, if_pos]
    rw [wordBytes_length]
    omega
  have mac : append (outp ++ wordBytes 8 nwid) (wordBytes 6 mg.mac) =
      some (outp ++ wordBytes 8 nwid ++ wordBytes 6 mg.mac) := by
    rw [append, if_pos]
    rw [List.length_append, wordBytes_length, wordBytes_length]
    omega
  have adi : append (outp ++ wordBytes 8 nwid ++ wordBytes 6 mg.mac) (wordBytes 4 mg.adi) =
      some (outp ++ wordBytes 8 nwid ++ wordBytes 6 mg.mac ++ wordBytes 4 mg.adi) := by
    rw [append, if_pos]
    rw [List.length_append, List.length_append, wordBytes_length, wordBytes_length, wordBytes_length]
    omega
  rw [appendGroup, network, Option.bind_eq_bind, Option.bind_some, mac, Option.bind_some, adi, record,
    List.append_assoc, List.append_assoc]

/-- Every turn finds room for its record. -/
theorem announceGroup_shows {a : Announcing} {b : Batching MulticastGroup}
    (shown : a.Shows lz4 fresh myAddress peer nwid b) (mg : MulticastGroup) :
    ∃ next, announceGroup lz4 fresh myAddress peer nwid a mg = some next ∧
      next.Shows lz4 fresh myAddress peer nwid (b.turn full mg) := by
  have size : a.outp.length = 28 + 18 * b.current.length := by rw [shown.outp, length_built]
  unfold announceGroup
  by_cases flush : full b.current = true
  · have guard : maxPacketLength ≤ a.outp.length + 24 := by
      rw [size]
      simpa [full] using flush
    have count : a.sent.length = b.closed.length := by rw [shown.sent, List.length_mapIdx]
    have room : (blank fresh myAddress peer (a.sent.length + 1)).length + 18 ≤ maxPacketLength := by
      rw [(header_blank _).long]
      decide
    dsimp only
    rw [if_pos guard, appendGroup_some mg room]
    refine ⟨_, rfl, ?_, ?_⟩
    · rw [Batching.turn, if_pos flush, built, List.length_append, List.length_singleton, List.flatMap_singleton, count]
    · rw [Batching.turn, if_pos flush, List.mapIdx_concat, ← shown.sent, ← shown.outp]
  · have guard : ¬maxPacketLength ≤ a.outp.length + 24 := by
      rw [size]
      simpa [full] using flush
    dsimp only
    rw [if_neg guard, appendGroup_some mg (by omega)]
    refine ⟨_, rfl, ?_, ?_⟩
    · rw [Batching.turn, if_neg flush, shown.outp, built, built, List.flatMap_append, List.flatMap_singleton,
        List.append_assoc]
    · rw [Batching.turn, if_neg flush]
      exact shown.sent

theorem foldlM_shows (groups : List MulticastGroup) {a : Announcing} {b : Batching MulticastGroup}
    (shown : a.Shows lz4 fresh myAddress peer nwid b) :
    ∃ last, groups.foldlM (announceGroup lz4 fresh myAddress peer nwid) a = some last ∧
      last.Shows lz4 fresh myAddress peer nwid (b.run full groups) := by
  induction groups generalizing a b with
  | nil => exact ⟨a, rfl, shown⟩
  | cons mg groups ih =>
    obtain ⟨next, turned, nextShows⟩ := announceGroup_shows shown mg
    obtain ⟨last, ended, lastShows⟩ := ih nextShows
    refine ⟨last, ?_, lastShows⟩
    rw [List.foldlM_cons, turned]
    exact ended

/-- The packets are the batches. -/
theorem announceMulticastGroupsTo_eq (groups : List MulticastGroup) :
    announceMulticastGroupsTo lz4 fresh myAddress peer nwid groups =
      some ((batches full groups).mapIdx fun n chunk => compress lz4 (built fresh myAddress peer nwid n chunk)) := by
  have start : Announcing.Shows lz4 fresh myAddress peer nwid ⟨blank fresh myAddress peer 0, []⟩ ⟨[], []⟩ :=
    ⟨by rw [built, List.flatMap_nil, List.append_nil, List.length_nil], rfl⟩
  obtain ⟨last, ended, lastShows⟩ := foldlM_shows groups start
  have size : last.outp.length = 28 + 18 * (Batching.run full ⟨[], []⟩ groups).current.length := by
    rw [lastShows.outp, length_built]
  rw [announceMulticastGroupsTo, ended, Option.bind_eq_bind, Option.bind_some, batches, Batching.finished]
  by_cases none : (Batching.run full ⟨[], []⟩ groups).current = []
  · rw [none, List.length_nil] at size
    rw [if_neg (by unfold minPacketLength; omega), if_pos none, lastShows.sent]
    rfl
  · have more := List.length_pos_iff.mpr none
    rw [if_pos (by unfold minPacketLength; omega), if_neg none, List.mapIdx_concat, lastShows.sent, lastShows.outp]
    rfl

/-- Every packet has a group in it, and fits. -/
theorem batches_fit (groups : List MulticastGroup) :
    ∀ chunk ∈ batches full groups, chunk ≠ [] ∧ 28 + 18 * chunk.length ≤ maxPacketLength := by
  apply forall_batches
  · decide
  · intro chunk mg notFull
    have guard : 28 + 18 * chunk.length + 24 < maxPacketLength := by simpa [full] using notFull
    rw [List.length_append, List.length_singleton]
    exact ⟨by simp, by omega⟩

end Sender

section Receiver

/-- A node when a packet of some peer reaches it. -/
structure Receiver where
  ctx : Context
  networks : Networks
  groups : MulticastLikes.Groups

namespace Receiver

variable (r : Receiver)

/-- The loop before its first turn. -/
def start : Context.Loop := ⟨false, 0, r.networks, r.groups, []⟩

/-- `_doMULTICAST_LIKE`. -/
def handle (packet : List Byte) : Bool × Context.Loop := r.ctx.doMULTICAST_LIKE r.networks r.groups packet

/-- A packet is uncompressed and handled: whether there was no exception, and the calls of `Multicaster::add`. -/
def takes (unpack : List Byte → Option (List Byte)) (packet : List Byte) : Bool × List (BitVec 64 × MulticastGroup) :=
  match uncompress unpack packet with
  | none => (false, [])
  | some plain => ((r.handle plain).1, (r.handle plain).2.added)

/-- The second part of a tuple, as it is read from memory. -/
def readGroup (packet : List Byte) (ptr : Nat) : Access MulticastGroup := do
  let mac ← checkedWord 48 6 packet ((ptr + 8) % 2 ^ 32)
  let adi ← checkedWord 32 4 packet ((ptr + 14) % 2 ^ 32)
  return ⟨mac, adi⟩

/-- The loop of `_doMULTICAST_LIKE` on memory and with a 32-bit pointer; `none` if `fuel` turns do not end it. -/
def readFrom (packet : List Byte) : Nat → Nat → Context.Loop → Option (Access Unit × Context.Loop)
  | 0, _, _ => none
  | fuel + 1, ptr, loop =>
      if ptr < packet.length then
        match checkedWord 64 8 packet ptr with
        | .error fault => some (.error fault, loop)
        | .ok nwid =>
            let loop := r.ctx.authorize loop nwid
            if loop.authorized then
              match readGroup packet ptr with
              | .error fault => some (.error fault, loop)
              | .ok mg => readFrom packet fuel ((ptr + 18) % 2 ^ 32) (r.ctx.like loop nwid mg)
            else readFrom packet fuel ((ptr + 18) % 2 ^ 32) loop
      else some (.ok (), loop)

end Receiver

section Records

variable {ctx : Context} {packet : List Byte} {nwid : BitVec 64}

theorem stands_behind {header : List Byte} (long : header.length = 28) (body : List Byte) :
    Stands body (header ++ body) 28 := by
  have both := (stands_append.mp (stands_self (header ++ body))).2
  rwa [Nat.zero_add, long] at both

/-- What is read where a group stands. -/
theorem read_record {mg : MulticastGroup} {rest : List Byte} {ptr : Nat}
    (stands : Stands (record nwid mg ++ rest) packet ptr) :
    Buffer.at64 packet ptr = some nwid ∧ Buffer.atWord 48 6 packet (ptr + 8) = some mg.mac ∧
      Buffer.at32 packet (ptr + 14) = some mg.adi ∧ Stands rest packet (ptr + 18) := by
  rw [record, List.append_assoc, List.append_assoc] at stands
  obtain ⟨network, behindNetwork⟩ := Buffer.atWord_of_stands (by decide) (by decide) stands
  obtain ⟨mac, behindMac⟩ := Buffer.atWord_of_stands (by decide) (by decide) behindNetwork
  obtain ⟨adi, behind⟩ := Buffer.atWord_of_stands (by decide) (by decide) behindMac
  exact ⟨network, mac, adi, behind⟩

theorem tuples_records (groups : List MulticastGroup) {fuel ptr : Nat} (enough : groups.length ≤ fuel)
    (stands : Stands (groups.flatMap (record nwid)) packet ptr) (size : packet.length = ptr + 18 * groups.length) :
    tuples packet fuel ptr = groups.map fun mg => (nwid, mg) := by
  induction groups generalizing fuel ptr with
  | nil =>
    have absent : Buffer.at64 packet ptr = none := by
      cases read : Buffer.at64 packet ptr with
      | none => rfl
      | some word =>
        have inside := Buffer.atWord_inside read
        rw [List.length_nil] at size
        omega
    cases fuel with
    | zero => rfl
    | succ fuel =>
      rw [tuples, absent]
      rfl
  | cons mg groups ih =>
    rw [List.length_cons] at enough size
    rw [List.flatMap_cons] at stands
    obtain ⟨network, mac, adi, behind⟩ := read_record stands
    cases fuel with
    | zero => omega
    | succ fuel =>
      rw [tuples, network, mac, adi, List.map_cons]
      dsimp only
      rw [ih (by omega) behind (by omega)]

/-- With the flag set for their network, all groups are added. -/
theorem likes_records (groups : List MulticastGroup) {fuel ptr : Nat} {loop : Context.Loop}
    (last : loop.lastNwid = nwid) (authorized : loop.authorized = true) (enough : groups.length ≤ fuel)
    (stands : Stands (groups.flatMap (record nwid)) packet ptr) (size : packet.length = ptr + 18 * groups.length) :
    ctx.likes packet fuel ptr loop = (true, groups.foldl (fun loop mg => ctx.like loop nwid mg) loop) := by
  induction groups generalizing fuel ptr loop with
  | nil =>
    cases fuel with
    | zero => rfl
    | succ fuel =>
      rw [List.length_nil] at size
      rw [Context.likes, if_neg (by omega), List.foldl_nil]
  | cons mg groups ih =>
    rw [List.length_cons] at enough size
    rw [List.flatMap_cons] at stands
    obtain ⟨network, mac, adi, behind⟩ := read_record stands
    have same : ctx.authorize loop nwid = loop := by
      rw [Context.authorize, if_pos last.symm]
    cases fuel with
    | zero => omega
    | succ fuel =>
      rw [Context.likes, if_pos (by omega), network]
      dsimp only
      rw [same, if_pos authorized, mac, adi, List.foldl_cons]
      exact ih last authorized (by omega) behind (by omega)

theorem foldl_added (groups : List MulticastGroup) (loop : Context.Loop) :
    (groups.foldl (fun loop mg => ctx.like loop nwid mg) loop).added =
      loop.added ++ groups.map fun mg => (nwid, mg) := by
  induction groups generalizing loop with
  | nil => rw [List.foldl_nil, List.map_nil, List.append_nil]
  | cons mg groups ih =>
    calc
      _ = (ctx.like loop nwid mg).added ++ groups.map fun mg => (nwid, mg) := ih (ctx.like loop nwid mg)
      _ = loop.added ++ [(nwid, mg)] ++ groups.map fun mg => (nwid, mg) := rfl
      _ = loop.added ++ (mg :: groups).map fun mg => (nwid, mg) := by
        rw [List.append_assoc, List.map_cons, List.singleton_append]

/-- The first turn may look at the flag for the network first. -/
theorem likes_authorize {fuel ptr : Nat} (loop : Context.Loop) (network : Buffer.at64 packet ptr = some nwid) :
    ctx.likes packet (fuel + 1) ptr loop = ctx.likes packet (fuel + 1) ptr (ctx.authorize loop nwid) := by
  have last : (ctx.authorize loop nwid).lastNwid = nwid :=
    (@Context.authorize_spec ctx loop.networks loop nwid rfl).2.1
  have again : ctx.authorize (ctx.authorize loop nwid) nwid = ctx.authorize loop nwid := by
    rw [Context.authorize, if_pos last.symm]
  have inside := Buffer.atWord_inside network
  rw [Context.likes, Context.likes, if_pos (by omega), if_pos (by omega), network]
  dsimp only
  rw [again]

/-- A packet of groups of one network, at a node that lets the sender in. -/
theorem handle_records (r : Receiver) {header : List Byte} (long : header.length = 28) {groups : List MulticastGroup}
    (nonempty : groups ≠ []) (nonzero : nwid ≠ 0) (authorized : r.ctx.Authorized r.networks nwid) :
    (r.handle (header ++ groups.flatMap (record nwid))).1 = true ∧
      (r.handle (header ++ groups.flatMap (record nwid))).2.added = groups.map fun mg => (nwid, mg) := by
  have length : (groups.flatMap (record nwid)).length = 18 * groups.length :=
    Library.Records.length_flatMap_of_size length_record groups
  generalize made : header ++ groups.flatMap (record nwid) = packet
  have size : packet.length = 28 + 18 * groups.length := by
    rw [← made, List.length_append, length, long]
  have stands : Stands (groups.flatMap (record nwid)) packet 28 := made ▸ stands_behind long _
  have spec := @Context.authorize_spec r.ctx r.networks r.start nwid rfl
  have flag : (r.ctx.authorize r.start nwid).authorized = true := by
    rw [spec.2.2, if_neg (show ¬nwid = r.start.lastNwid from nonzero)]
    exact .inl authorized
  obtain ⟨fuel, more⟩ : ∃ fuel, packet.length = fuel + 1 := ⟨27 + 18 * groups.length, by omega⟩
  have first : Buffer.at64 packet 28 = some nwid := by
    cases groups with
    | nil => exact absurd rfl nonempty
    | cons mg groups =>
      rw [List.flatMap_cons] at stands
      exact (read_record stands).1
  have ended : r.handle packet =
      (true, groups.foldl (fun loop mg => r.ctx.like loop nwid mg) (r.ctx.authorize r.start nwid)) := by
    calc
      _ = r.ctx.likes packet (fuel + 1) 28 r.start := by rw [← more]; rfl
      _ = r.ctx.likes packet (fuel + 1) 28 (r.ctx.authorize r.start nwid) := likes_authorize r.start first
      _ = _ := likes_records groups spec.2.1 flag (by omega) stands size
  rw [ended]
  refine ⟨rfl, ?_⟩
  have nothing : (r.ctx.authorize r.start nwid).added = [] :=
    congrArg Prod.snd (r.ctx.authorize_subscriptions r.start nwid)
  rw [foldl_added, nothing, List.nil_append]

end Records

namespace Receiver

variable (r : Receiver) {packet : List Byte}

/-- The end of a run, with an exception for a read that is refused. -/
def ended (result : Bool × Context.Loop) : Access Unit × Context.Loop :=
  (if result.1 then .ok () else .error .threw, result.2)

theorem readGroup_eq {ptr : Nat} (small : ptr ≤ maxPacketLength) :
    readGroup packet ptr = orThrow ((Buffer.atWord 48 6 packet (ptr + 8)).bind fun mac =>
      (Buffer.at32 packet (ptr + 14)).map fun adi => ⟨mac, adi⟩) := by
  have bound : maxPacketLength < 2 ^ 32 - 36 := by decide
  rw [readGroup, Nat.mod_eq_of_lt (by omega), Nat.mod_eq_of_lt (by omega), checkedWord_eq (by omega),
    checkedWord_eq (by omega)]
  change orThrow (Buffer.atWord 48 6 packet (ptr + 8)) >>= _ = _
  change orThrow (Buffer.atWord 48 6 packet (ptr + 8)) >>= (fun mac =>
    orThrow (Buffer.at32 packet (ptr + 14)) >>= fun adi => pure (⟨mac, adi⟩ : MulticastGroup)) = _
  cases Buffer.atWord 48 6 packet (ptr + 8) with
  | none => rfl
  | some mac => cases Buffer.at32 packet (ptr + 14) <;> rfl

/-- No sum wraps around within the capacity, so the loop on memory is the loop on the packet. -/
theorem readFrom_eq (fits : packet.length ≤ maxPacketLength) (turns : Nat) {fuel ptr : Nat} (loop : Context.Loop)
    (enough : packet.length ≤ ptr + 18 * turns) (also : packet.length ≤ ptr + 18 * fuel) :
    r.readFrom packet (turns + 1) ptr loop = some (ended (r.ctx.likes packet fuel ptr loop)) := by
  induction turns generalizing fuel ptr loop with
  | zero =>
    rw [readFrom, if_neg (by omega)]
    cases fuel with
    | zero => rfl
    | succ fuel =>
      rw [Context.likes, if_neg (by omega)]
      rfl
  | succ turns ih =>
    by_cases inside : ptr < packet.length
    · have bound : maxPacketLength < 2 ^ 32 - 36 := by decide
      cases fuel with
      | zero => omega
      | succ fuel =>
        have next (loop : Context.Loop) : r.readFrom packet (turns + 1) ((ptr + 18) % 2 ^ 32) loop =
            some (ended (r.ctx.likes packet fuel (ptr + 18) loop)) := by
          rw [Nat.mod_eq_of_lt (by omega)]
          exact ih loop (by omega) (by omega)
        rw [readFrom, Context.likes, if_pos inside, if_pos inside, checkedWord_eq (by omega)]
        change (match orThrow (Buffer.at64 packet ptr) with
          | .error fault => _
          | .ok nwid => _) = _
        cases Buffer.at64 packet ptr with
        | none => rfl
        | some nwid =>
          dsimp only [orThrow, Option.elim]
          by_cases authorized : (r.ctx.authorize loop nwid).authorized = true
          · rw [if_pos authorized, if_pos authorized, readGroup_eq (by omega)]
            cases Buffer.atWord 48 6 packet (ptr + 8) with
            | none => rfl
            | some mac =>
              cases Buffer.at32 packet (ptr + 14) with
              | none => rfl
              | some adi => exact next _
          · rw [if_neg authorized, if_neg authorized]
            exact next _
    · rw [readFrom, if_neg inside]
      cases fuel with
      | zero => rfl
      | succ fuel =>
        rw [Context.likes, if_neg inside]
        rfl

/-- Whatever a packet holds, the loop ends, by an exception or normally, and reads nothing outside. -/
theorem readFrom_handle (fits : packet.length ≤ maxPacketLength) {turns : Nat}
    (enough : packet.length ≤ 28 + 18 * turns) :
    r.readFrom packet (turns + 1) 28 r.start = some (ended (r.handle packet)) :=
  r.readFrom_eq fits turns r.start enough (by omega)

end Receiver

end Receiver

section Announcement

variable {pack : List Byte → List Byte} {unpack : List Byte → Option (List Byte)}

/-- A packet with these groups of a network and nothing else: it fits, and who receives it from a peer that is let in
adds them, in this order. -/
structure Carries (unpack : List Byte → Option (List Byte)) (nwid : BitVec 64) (packet : List Byte)
    (groups : List MulticastGroup) : Prop where
  fits : packet.length ≤ maxPacketLength
  contents : ∃ plain, uncompress unpack packet = some plain ∧ plain.length = 28 + 18 * groups.length ∧
    plain.length ≤ maxPacketLength ∧ tuples plain plain.length 28 = groups.map fun mg => (nwid, mg)
  handled : nwid ≠ 0 → ∀ r : Receiver, r.ctx.Authorized r.networks nwid →
    r.takes unpack packet = (true, groups.map fun mg => (nwid, mg))

theorem carries_built (inverse : Inverse pack unpack) {fresh : Nat → BitVec 64 × BitVec 64} {myAddress peer : Address}
    {nwid : BitVec 64} (n : Nat) {groups : List MulticastGroup} (nonempty : groups ≠ [])
    (fits : 28 + 18 * groups.length ≤ maxPacketLength) :
    Carries unpack nwid (compress pack (built fresh myAddress peer nwid n groups)) groups := by
  have length : (built fresh myAddress peer nwid n groups).length = 28 + 18 * groups.length := length_built n groups
  have long : (blank fresh myAddress peer n).length = 28 := (header_blank n).long
  have plain : Packet.compressed (built fresh myAddress peer nwid n groups) = false :=
    (header_blank n).compressed (groups.flatMap (record nwid))
  have payload : ((built fresh myAddress peer nwid n groups).drop 28).length ≤ maxPacketLength - 28 := by
    rw [List.length_drop]
    omega
  have opened : uncompress unpack (compress pack (built fresh myAddress peer nwid n groups)) =
      some (built fresh myAddress peer nwid n groups) :=
    Packet.uncompress_compress (by omega) plain (by omega) (inverse _ payload)
  have stands : Stands (groups.flatMap (record nwid)) (built fresh myAddress peer nwid n groups) 28 :=
    stands_behind long _
  constructor
  · have shorter := Packet.compress_length_le (by omega) plain pack
    omega
  · exact ⟨_, opened, length, by omega, tuples_records groups (by omega) stands length⟩
  · intro nonzero r authorized
    have read := handle_records r long nonempty nonzero authorized
    unfold Receiver.takes
    rw [opened]
    exact Prod.ext read.1 read.2

/-- The law of announcements: every group that a node listens to is announced once, every packet fits, and who lets the
node in adds what was announced. No packet makes the reader leave its bytes, or go on for ever. -/
theorem multicast_announcement (inverse : Inverse pack unpack) :
    (∀ net : LocalGroups, net.allMulticastGroups.Nodup ∧
      ∀ mg, mg ∈ net.allMulticastGroups ↔ mg ∈ net.myMulticastGroups ∨ mg ∈ net.multicastGroupsBehindMe.keys ∨
        net.enableBroadcast = true ∧ mg = broadcast) ∧
    (∀ (fresh : Nat → BitVec 64 × BitVec 64) (myAddress peer : Address) (nwid : BitVec 64)
      (groups : List MulticastGroup), ∃ packets chunks,
        announceMulticastGroupsTo pack fresh myAddress peer nwid groups = some packets ∧
        List.Forall₂ (Carries unpack nwid) packets chunks ∧ chunks.flatten = groups) ∧
    ∀ (r : Receiver) (packet : List Byte), packet.length ≤ maxPacketLength →
      ∀ turns, packet.length ≤ 28 + 18 * turns →
        r.readFrom packet (turns + 1) 28 r.start = some (Receiver.ended (r.handle packet)) := by
  refine ⟨fun net => ⟨nodup_allMulticastGroups net, mem_allMulticastGroups net⟩, ?_, ?_⟩
  · intro fresh myAddress peer nwid groups
    refine ⟨_, batches full groups, announceMulticastGroupsTo_eq groups, ?_, flatten_batches groups⟩
    rw [List.forall₂_iff_get]
    refine ⟨List.length_mapIdx, ?_⟩
    intro n _ inside
    have fit := batches_fit groups _ (List.get_mem (batches full groups) ⟨n, inside⟩)
    rw [List.get_eq_getElem, List.getElem_mapIdx]
    exact carries_built inverse n fit.1 fit.2
  · intro r packet fits turns enough
    exact r.readFrom_handle fits enough

end Announcement

section Broadcast

/-- What node 9 sends to node 7 for the broadcast group of a network; it is too short for the compressor. -/
def broadcastPacket (nwid : BitVec 64) : List Byte := built (fun _ => (0, 0)) 9 7 nwid 0 [broadcast]

theorem inverse_id : Inverse id some := fun _ _ => rfl

/-- The public network of node 7 is announced to it by one packet, and node 9 is added. -/
theorem broadcast_added :
    announceMulticastGroupsTo id (fun _ => (0, 0)) 9 7 0x1000001 [broadcast] = some [broadcastPacket 0x1000001] ∧
    Receiver.takes ⟨memberOfOne, joinedOne, fun _ _ => ⟨[], []⟩⟩ some (broadcastPacket 0x1000001) =
      (true, [(0x1000001, broadcast)]) := by
  have sent : announceMulticastGroupsTo id (fun _ => (0, 0)) 9 7 0x1000001 [broadcast] =
      some [broadcastPacket 0x1000001] := by decide +kernel
  obtain ⟨packets, chunks, announced, carried, whole⟩ :=
    (multicast_announcement inverse_id).2.1 (fun _ => (0, 0)) 9 7 0x1000001 [broadcast]
  rw [sent, Option.some.injEq] at announced
  rw [← announced, List.forall₂_cons_left_iff] at carried
  obtain ⟨chunk, rest, carries, none, both⟩ := carried
  have alone : chunk = [broadcast] := by
    rw [both, List.forall₂_nil_left_iff.mp none, List.flatten_singleton] at whole
    exact whole
  have authorized : memberOfOne.Authorized joinedOne 0x1000001 :=
    .inl ⟨publicNetwork, if_pos rfl, by decide +kernel⟩
  rw [alone] at carries
  exact ⟨sent, carries.handled (by decide) ⟨memberOfOne, joinedOne, fun _ _ => ⟨[], []⟩⟩ authorized⟩

/-- A root, for which every peer may announce groups of every network. -/
def rootNode : Receiver := ⟨{ memberOfOne with amUpstream := true }, joinedOne, fun _ _ => ⟨[], []⟩⟩

/-- For the network 0 the root adds nothing: `lastNwid` starts with this id, and the flag is never looked at. -/
theorem network_zero_not_added :
    Inverse id some ∧ rootNode.ctx.Authorized rootNode.networks 0 ∧
    announceMulticastGroupsTo id (fun _ => (0, 0)) 9 7 0 [broadcast] = some [broadcastPacket 0] ∧
    rootNode.takes some (broadcastPacket 0) = (true, []) := by
  refine ⟨inverse_id, .inr (.inl rfl), ?_, ?_⟩
  · decide +kernel
  · decide +kernel

end Broadcast

end ZeroTierNode.MulticastAnnouncements

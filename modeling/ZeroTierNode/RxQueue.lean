import Mathlib.Logic.Function.Basic
import ZeroTierNode.InetAddress
import ZeroTierNode.Packet

/-!
The receive path of `Switch`: the ring of packets that wait for fragments or for
an identity, `onRemotePacket`, and the two functions that retry waiting packets.
Every step also returns what it did, as a list of events. Relaying and sending
leave the ring alone and have no events. Flow ids are always `ZT_QOS_NO_FLOW` and
receive times are never read, so neither is kept.
-/

namespace ZeroTierNode.RxQueue
open Library.Bytes

/-- What a verb handler does with the packet it is run on. Handlers that ask to be called again
leave the packet as it is; an exception in a handler ends the packet like a normal return. -/
inductive HandlerOutcome
  | done (data : List Byte)
  | retry

/-- The rest of the node at the time of a call. Authentication and handlers are left open: the
queue is studied for every `dearmor` and every handler. -/
structure Environment where
  /-- Our own address. -/
  identity : Address
  /-- `Topology::getPeer` and the key shared with the peer. -/
  key : Address → Option (BitVec 384)
  /-- `Packet::dearmor`: acceptance, and the packet after decryption in place. -/
  dearmor : BitVec 384 → List Byte → Bool × List Byte
  lz4 : List Byte → Option (List Byte)
  shouldInboundPathBeTrusted : InetAddress → BitVec 64 → Bool
  handler : Byte → List Byte → HandlerOutcome
  /-- `_doHELLO` of a HELLO in the clear: the packet it leaves behind. -/
  hello : List Byte → List Byte

structure IncomingPacket where
  data : List Byte
  path : InetAddress
  authenticated : Bool

/-- `ZT_RX_QUEUE_SIZE`. -/
abbrev rxQueueSize : Nat := 32

structure RXQueueEntry where
  /-- 0 if the entry is not in use. -/
  timestamp : Int
  packetId : BitVec 64
  frag0 : IncomingPacket
  /-- Later fragments, fragment number less one. -/
  frags : Nat → List Byte
  /-- 0 if only the head was received. -/
  totalFragments : Nat
  haveFragments : BitVec 32
  complete : Bool

structure Switch where
  rxQueue : Fin rxQueueSize → RXQueueEntry
  rxQueuePtr : Nat
  lastCheckedQueues : Int

/-- Where a packet lives: in a queue entry, or in a variable of `onRemotePacket`. -/
abbrev Place := Option (Fin rxQueueSize)

inductive Event
  /-- The entry is given to a packet id. -/
  | allocate (slot : Fin rxQueueSize) (packetId : BitVec 64)
  /-- A head or a whole packet is put in place. -/
  | init (place : Place) (data : List Byte) (path : InetAddress)
  /-- `frags[number - 1]` is set. -/
  | store (slot : Fin rxQueueSize) (number : Nat) (fragment : List Byte) (path : InetAddress)
  /-- The append loop is entered. -/
  | joining (slot : Fin rxQueueSize)
  /-- The payload of `frags[number - 1]` is appended to `frag0`. -/
  | append (slot : Fin rxQueueSize) (number : Nat) (payload : List Byte)
  /-- All fragments of `total` were appended, and the packet goes to `tryDecode`. -/
  | assembled (slot : Fin rxQueueSize) (total : Nat)
  /-- A packet that has to wait is copied into an entry. -/
  | copy (slot : Fin rxQueueSize)
  | tryDecode (place : Place) (data : List Byte)
  /-- The path id of the packet is trusted for the path of its head. -/
  | trusted (place : Place) (data : List Byte)
  | dearmored (place : Place) (key : BitVec 384) (data plain : List Byte)
  | uncompressed (place : Place) (data plain : List Byte)
  | handle (place : Place) (verb : Byte) (data : List Byte)

/-- `tryDecode` from the lookup of the peer on. -/
def decodeFromPeer (env : Environment) (place : Place) (packet : IncomingPacket) :
    Bool × IncomingPacket × List Event :=
  match env.key (Packet.source packet.data) with
  | none => (false, packet, [])
  | some key =>
      let (accepted, data) :=
        if packet.authenticated then (true, packet.data) else env.dearmor key packet.data
      let events := if packet.authenticated then [] else [.dearmored place key packet.data data]
      if accepted then
        match Packet.uncompress env.lz4 data with
        | none => (true, { packet with data := data }, events)
        | some plain =>
            let events := events ++
              [.uncompressed place data plain, .handle place (Packet.verb plain) plain]
            match env.handler (Packet.verb plain) plain with
            | .done after => (true, { packet with data := after, authenticated := true }, events)
            | .retry => (false, { packet with data := plain, authenticated := true }, events)
      else (true, { packet with data := data }, [])

/-- `IncomingPacket::tryDecode`: whether processing is complete, and the packet it leaves. -/
def tryDecode (env : Environment) (place : Place) (packet : IncomingPacket) :
    Bool × IncomingPacket × List Event :=
  let c := Packet.cipher packet.data
  if c = 2 then
    if env.shouldInboundPathBeTrusted packet.path (Packet.trustedPathId packet.data) then
      let (result, after, events) := decodeFromPeer env place { packet with authenticated := true }
      (result, after, .tryDecode place packet.data :: .trusted place packet.data :: events)
    else (true, packet, [.tryDecode place packet.data])
  else if c = 0 ∧ Packet.verb packet.data = 1 then
    (true, { packet with data := env.hello packet.data }, [.tryDecode place packet.data])
  else
    let (result, after, events) := decodeFromPeer env place packet
    (result, after, .tryDecode place packet.data :: events)

/-- `Utils::countBits`. -/
def countBits (v : BitVec 32) : BitVec 32 :=
  let v := v - ((v >>> 1) &&& 0x55555555)
  let v := (v &&& 0x33333333) + ((v >>> 2) &&& 0x33333333)
  (((v + (v >>> 4)) &&& 0xF0F0F0F) * 0x1010101) >>> 24

def fragmentBit (number : Nat) : BitVec 32 := (1 : BitVec 32) <<< number

namespace Switch

/-- Entry `position` of the ring. -/
def slotAt (position : Nat) : Fin rxQueueSize := ⟨position % rxQueueSize, Nat.mod_lt _ (by decide)⟩

def setEntry (sw : Switch) (slot : Fin rxQueueSize) (rq : RXQueueEntry) : Switch :=
  { sw with rxQueue := Function.update sw.rxQueue slot rq }

def inUseFor (rq : RXQueueEntry) (packetId : BitVec 64) : Bool :=
  rq.packetId = packetId ∧ rq.timestamp ≠ 0

/-- `_findRXQueueEntry`: the latest entry in use for the id, or the next one of the ring. -/
def findRXQueueEntry (sw : Switch) (packetId : BitVec 64) : Fin rxQueueSize × Switch :=
  match (List.range rxQueueSize).find?
      (fun k => inUseFor (sw.rxQueue (slotAt (sw.rxQueuePtr + 31 - k))) packetId) with
  | some k => (slotAt (sw.rxQueuePtr + 31 - k), sw)
  | none => (slotAt sw.rxQueuePtr, { sw with rxQueuePtr := sw.rxQueuePtr + 1 })

end Switch

/-- The append loop over fragments `number`, `number + 1`, ...: the data, the events, and whether
it ended without an exception. -/
def appendFragments (slot : Fin rxQueueSize) (frags : Nat → List Byte) :
    Nat → Nat → List Byte → List Byte × List Event × Bool
  | _, 0, data => (data, [], true)
  | number, count + 1, data =>
      let payload := Packet.payload (frags (number - 1))
      if Packet.maxPacketLength < data.length + payload.length then (data, [], false)
      else
        let (final, events, ended) := appendFragments slot frags (number + 1) count (data ++ payload)
        (final, .append slot number payload :: events, ended)

/-- Assemble an entry that has all its fragments and hand it to `tryDecode`. -/
def assemble (env : Environment) (slot : Fin rxQueueSize) (rq : RXQueueEntry) : RXQueueEntry × List Event :=
  let (data, appended, ended) := appendFragments slot rq.frags 1 (rq.totalFragments - 1) rq.frag0.data
  let events := .joining slot :: appended
  let frag0 := { rq.frag0 with data := data }
  if ended then
    let (done, frag0, decoded) := tryDecode env (some slot) frag0
    let events := events ++ .assembled slot rq.totalFragments :: decoded
    if done then ({ rq with frag0 := frag0, timestamp := 0 }, events)
    else ({ rq with frag0 := frag0, complete := true }, events)
  else ({ rq with frag0 := frag0 }, events)

/-- The total and the number of a fragment "appear basically sane". -/
def saneFragment (fragment : List Byte) : Bool :=
  Packet.totalFragments fragment ≤ Packet.maxPacketFragments ∧
    Packet.fragmentNumber fragment < Packet.maxPacketFragments ∧
    0 < Packet.fragmentNumber fragment ∧ 1 < Packet.totalFragments fragment

/-- The entry with a fragment added to it. -/
def addFragment (rq : RXQueueEntry) (fragment : List Byte) : RXQueueEntry :=
  let number := Packet.fragmentNumber fragment
  { rq with frags := Function.update rq.frags (number - 1) fragment
            totalFragments := Packet.totalFragments fragment
            haveFragments := rq.haveFragments ||| fragmentBit number }

/-- A fragment for us. -/
def receiveFragment (env : Environment) (now : Int) (path : InetAddress) (fragment : List Byte)
    (sw : Switch) : Switch × List Event :=
  let id := Packet.packetId fragment
  let number := Packet.fragmentNumber fragment
  let (slot, sw) := sw.findRXQueueEntry id
  let rq := sw.rxQueue slot
  if rq.packetId ≠ id then
    -- no packet found, so this fragment came without its head
    (sw.setEntry slot { addFragment rq fragment with
        timestamp := now, packetId := id, haveFragments := fragmentBit number, complete := false },
      [.allocate slot id, .store slot number fragment path])
  else if rq.haveFragments &&& fragmentBit number = 0 then
    let rq := addFragment rq fragment
    if (countBits rq.haveFragments).toNat = rq.totalFragments then
      let (rq, events) := assemble env slot rq
      (sw.setEntry slot rq, .store slot number fragment path :: events)
    else (sw.setEntry slot rq, [.store slot number fragment path])
  else (sw, [])

/-- `haveFragments |= 1`, which is evaluated only when `totalFragments > 1`. -/
def markHead (rq : RXQueueEntry) : RXQueueEntry :=
  { rq with haveFragments := if 1 < rq.totalFragments then rq.haveFragments ||| 1 else rq.haveFragments }

/-- The head of a fragmented packet for us. -/
def receiveHead (env : Environment) (now : Int) (path : InetAddress) (data : List Byte)
    (sw : Switch) : Switch × List Event :=
  let id := Packet.packetId data
  let (slot, sw) := sw.findRXQueueEntry id
  let rq := sw.rxQueue slot
  if rq.packetId ≠ id then
    let rq := { rq with timestamp := now, packetId := id }
    -- `frag0.init` throws for an oversized head, after the entry got its new id
    if Packet.maxPacketLength < data.length then (sw.setEntry slot rq, [.allocate slot id])
    else
      (sw.setEntry slot { rq with frag0 := ⟨data, path, false⟩, totalFragments := 0,
                                  haveFragments := 1, complete := false },
        [.allocate slot id, .init (some slot) data path])
  else if rq.haveFragments &&& 1 = 0 then
    let rq := markHead rq
    if Packet.maxPacketLength < data.length then (sw.setEntry slot rq, [])
    else
      let rq := { rq with frag0 := ⟨data, path, false⟩ }
      if 1 < rq.totalFragments ∧ (countBits rq.haveFragments).toNat = rq.totalFragments then
        let (rq, events) := assemble env slot rq
        (sw.setEntry slot rq, .init (some slot) data path :: events)
      else (sw.setEntry slot rq, [.init (some slot) data path])
  else (sw, [])

/-- An unfragmented packet for us. -/
def receiveWhole (env : Environment) (now : Int) (path : InetAddress) (data : List Byte)
    (sw : Switch) : Switch × List Event :=
  if Packet.maxPacketLength < data.length then (sw, [])
  else
    let (done, packet, events) := tryDecode env none ⟨data, path, false⟩
    if done then (sw, .init none data path :: events)
    else
      let slot := Switch.slotAt sw.rxQueuePtr
      let sw := { sw with rxQueuePtr := sw.rxQueuePtr + 1 }
      let id := Packet.packetId packet.data
      (sw.setEntry slot { sw.rxQueue slot with timestamp := now, packetId := id, frag0 := packet,
                                               totalFragments := 1, haveFragments := 1, complete := true },
        .init none data path :: (events ++ [.allocate slot id, .copy slot]))

/-- What `onRemotePacket` takes a datagram for. -/
inductive Kind
  | fragment
  | head
  | whole
  | ignored
deriving DecidableEq, Repr

/-- The checks of `onRemotePacket`. Ignored here are datagrams that are dropped or relayed, and
fragments too long for a buffer, whose construction throws. -/
def classify (env : Environment) (data : List Byte) : Kind :=
  if Packet.minFragmentLength < data.length then
    if Packet.isFragment data then
      if data.length ≤ Packet.maxPacketLength ∧ Packet.destination data = env.identity ∧
          saneFragment data then .fragment
      else .ignored
    else if Packet.minPacketLength ≤ data.length then
      if Packet.source data = env.identity then .ignored
      else if Packet.destination data ≠ env.identity then .ignored
      else if Packet.fragmented data then .head
      else .whole
    else .ignored
  else .ignored

/-- `Switch::onRemotePacket`. -/
def onRemotePacket (env : Environment) (now : Int) (path : InetAddress) (data : List Byte)
    (sw : Switch) : Switch × List Event :=
  match classify env data with
  | .fragment => receiveFragment env now path data sw
  | .head => receiveHead env now path data sw
  | .whole => receiveWhole env now path data sw
  | .ignored => (sw, [])

/-- One turn of the retry loops, with `ZT_RECEIVE_QUEUE_TIMEOUT` of 5000. -/
def retryEntry (env : Environment) (now : Int) (slot : Fin rxQueueSize) (rq : RXQueueEntry) :
    RXQueueEntry × List Event :=
  if rq.timestamp ≠ 0 ∧ rq.complete then
    let (done, frag0, events) := tryDecode env (some slot) rq.frag0
    if done ∨ 5000 < now - rq.timestamp then ({ rq with frag0 := frag0, timestamp := 0 }, events)
    else ({ rq with frag0 := frag0 }, events)
  else (rq, [])

/-- The loop over the ring; handlers may change the node between its turns. -/
def retryFrom (envs : Fin rxQueueSize → Environment) (now : Int) (sw : Switch) :
    List (Fin rxQueueSize) → Switch × List Event
  | [] => (sw, [])
  | slot :: slots =>
      let (rq, events) := retryEntry (envs slot) now slot (sw.rxQueue slot)
      let (final, later) := retryFrom envs now (sw.setEntry slot rq) slots
      (final, events ++ later)

/-- The receive half of `Switch::doAnythingWaitingForPeer`. -/
def doAnythingWaitingForPeer (envs : Fin rxQueueSize → Environment) (now : Int) (sw : Switch) :
    Switch × List Event :=
  retryFrom envs now sw (List.finRange rxQueueSize)

/-- The receive half of `Switch::doTimerTasks`, with `ZT_WHOIS_RETRY_DELAY` of 500; the time since
the last check is taken as unsigned. -/
def doTimerTasks (envs : Fin rxQueueSize → Environment) (now : Int) (sw : Switch) :
    Switch × List Event :=
  let timeSinceLastCheck := now - sw.lastCheckedQueues
  if 0 ≤ timeSinceLastCheck ∧ timeSinceLastCheck < 500 then (sw, [])
  else retryFrom envs now { sw with lastCheckedQueues := now } (List.finRange rxQueueSize)

inductive Input
  | datagram (env : Environment) (now : Int) (path : InetAddress) (data : List Byte)
  | doAnythingWaitingForPeer (envs : Fin rxQueueSize → Environment) (now : Int)
  | doTimerTasks (envs : Fin rxQueueSize → Environment) (now : Int)

def react (sw : Switch) : Input → Switch × List Event
  | .datagram env now path data => onRemotePacket env now path data sw
  | .doAnythingWaitingForPeer envs now => doAnythingWaitingForPeer envs now sw
  | .doTimerTasks envs now => doTimerTasks envs now sw

/-- Events of decoding, which touch neither fragments nor the allocation of entries. -/
def Event.decoding : Event → Bool
  | .tryDecode _ _ | .trusted _ _ | .dearmored _ _ _ _ | .uncompressed _ _ _ | .handle _ _ _ => true
  | _ => false

theorem decodeFromPeer_decoding (env : Environment) (place : Place) (packet : IncomingPacket) :
    ∀ event ∈ (decodeFromPeer env place packet).2.2, event.decoding = true := by
  unfold decodeFromPeer
  cases env.key (Packet.source packet.data) with
  | none => simp
  | some key =>
      cases packet.authenticated with
      | true =>
          simp only [if_true]
          split
          · simp
          · split <;> simp [Event.decoding]
      | false =>
          simp only [Bool.false_eq_true, if_false]
          split
          · split
            · simp [Event.decoding]
            · split <;> simp [Event.decoding]
          · simp

theorem tryDecode_decoding (env : Environment) (place : Place) (packet : IncomingPacket) :
    ∀ event ∈ (tryDecode env place packet).2.2, event.decoding = true := by
  have peer := decodeFromPeer_decoding env place
  unfold tryDecode
  dsimp only
  split
  · split
    · intro event member
      simp only [List.mem_cons] at member
      rcases member with same | same | later
      · rw [same]; rfl
      · rw [same]; rfl
      · exact peer _ event later
    · simp [Event.decoding]
  · split
    · simp [Event.decoding]
    · intro event member
      rcases List.mem_cons.mp member with same | later
      · rw [same]; rfl
      · exact peer _ event later

/-- The bit of a fragment number in the mask of received fragments. -/
theorem fragmentBit_getLsbD {number : Nat} (small : number < 32) (position : Nat) :
    (fragmentBit number).getLsbD position = decide (position = number) := by
  rw [fragmentBit, BitVec.getLsbD_shiftLeft]
  by_cases same : position = number
  · subst same
    simp [small]
  · by_cases before : position < number
    · simp [before, same]
    · have later : position - number ≠ 0 := by omega
      simp [later, same]

theorem and_fragmentBit_eq_zero {mask : BitVec 32} {number : Nat} (small : number < 32) :
    mask &&& fragmentBit number = 0 ↔ mask.getLsbD number = false := by
  constructor
  · intro zero
    have bit := congrArg (fun word => word.getLsbD number) zero
    simpa [fragmentBit_getLsbD small] using bit
  · intro clear
    apply BitVec.eq_of_getLsbD_eq
    intro position _
    rw [BitVec.getLsbD_and, fragmentBit_getLsbD small]
    by_cases same : position = number
    · subst same
      simp [clear]
    · simp [same]

/-- `total` bits below position `total` are all the bits there are. -/
theorem full_of_countBits {mask : BitVec 32} {total : Nat} (few : total ≤ Packet.maxPacketFragments)
    (small : mask.toNat < 2 ^ total) (count : (countBits mask).toNat = total) :
    mask.toNat + 1 = 2 ^ total := by
  have all : ∀ total : Fin 8, ∀ value : Fin 128, value.val < 2 ^ total.val →
      (countBits (BitVec.ofNat 32 value.val)).toNat = total.val → value.val + 1 = 2 ^ total.val := by
    decide +kernel
  have bounded : mask.toNat < 128 :=
    lt_of_lt_of_le small (Nat.pow_le_pow_right (by decide) few : 2 ^ total ≤ 2 ^ 7)
  have same : BitVec.ofNat 32 mask.toNat = mask := by simp
  exact all ⟨total, Nat.lt_succ_of_le few⟩ ⟨mask.toNat, bounded⟩ small (by rw [same]; exact count)

theorem getLsbD_of_full {mask : BitVec 32} {total position : Nat} (full : mask.toNat + 1 = 2 ^ total)
    (inside : position < total) : mask.getLsbD position = true := by
  have value : mask.toNat = 2 ^ total - 1 := by omega
  rw [BitVec.getLsbD, value, Nat.testBit_two_pow_sub_one]
  exact decide_eq_true inside

theorem full_of_getLsbD {mask : BitVec 32} {total : Nat}
    (bits : ∀ position, mask.getLsbD position = decide (position < total)) : mask.toNat + 1 = 2 ^ total := by
  have value : mask.toNat = 2 ^ total - 1 := by
    apply Nat.eq_of_testBit_eq
    intro position
    rw [Nat.testBit_two_pow_sub_one, ← bits position, BitVec.getLsbD]
  have positive : 0 < 2 ^ total := Nat.two_pow_pos total
  omega

theorem countBits_of_full {mask : BitVec 32} {total : Nat} (few : total ≤ Packet.maxPacketFragments)
    (full : mask.toNat + 1 = 2 ^ total) : (countBits mask).toNat = total := by
  have all : ∀ total : Fin 8, (countBits (BitVec.ofNat 32 (2 ^ total.val - 1))).toNat = total.val := by
    decide +kernel
  have same : mask = BitVec.ofNat 32 (2 ^ total - 1) := by
    apply BitVec.eq_of_toNat_eq
    rw [BitVec.toNat_ofNat, ← full, Nat.add_sub_cancel, Nat.mod_eq_of_lt mask.isLt]
  rw [same]
  exact all ⟨total, Nat.lt_succ_of_le few⟩

/-- Every entry of the ring is looked at. -/
theorem exists_slotAt (ring : Nat) (slot : Fin rxQueueSize) :
    ∃ k, k < rxQueueSize ∧ Switch.slotAt (ring + 31 - k) = slot := by
  have bound : slot.val < 32 := slot.isLt
  refine ⟨(ring + 31 - slot.val) % 32, Nat.mod_lt _ (by decide), Fin.ext ?_⟩
  change (ring + 31 - (ring + 31 - slot.val) % 32) % 32 = slot.val
  omega

/-- The entry found is in use for the id, or it is the next one and no entry is in use for the id. -/
theorem findRXQueueEntry_spec (sw : Switch) (id : BitVec 64) :
    (∃ slot, sw.findRXQueueEntry id = (slot, sw) ∧ (sw.rxQueue slot).packetId = id ∧
      (sw.rxQueue slot).timestamp ≠ 0) ∨
    (sw.findRXQueueEntry id = (Switch.slotAt sw.rxQueuePtr, { sw with rxQueuePtr := sw.rxQueuePtr + 1 }) ∧
      ∀ slot, (sw.rxQueue slot).packetId = id → (sw.rxQueue slot).timestamp = 0) := by
  unfold Switch.findRXQueueEntry
  split
  · rename_i k found
    have used := List.find?_some found
    simp only [Switch.inUseFor, decide_eq_true_eq] at used
    exact .inl ⟨_, rfl, used⟩
  · rename_i missing
    refine .inr ⟨rfl, fun slot same => ?_⟩
    obtain ⟨k, inside, here⟩ := exists_slotAt sw.rxQueuePtr slot
    have free := List.find?_eq_none.mp missing k (List.mem_range.mpr inside)
    simp only [Switch.inUseFor, here, decide_eq_true_eq, not_and, not_not] at free
    exact free same

/-- A switch as constructed: every entry is free, no head is authenticated, and no fragment is
held; ids, counts and the contents of the head buffers are whatever the memory held. -/
structure Initial (sw : Switch) : Prop where
  free : ∀ slot, (sw.rxQueue slot).timestamp = 0
  unauthenticated : ∀ slot, (sw.rxQueue slot).frag0.authenticated = false
  noFragments : ∀ slot number, (sw.rxQueue slot).frags number = []

/-- A switch whose memory was zero. -/
def zeroSwitch : Switch where
  rxQueue := fun _ => ⟨0, 0, ⟨List.replicate 28 0, .nil, false⟩, fun _ => [], 0, 0, false⟩
  rxQueuePtr := 0
  lastCheckedQueues := 0

theorem initial_zeroSwitch : Initial zeroSwitch := ⟨fun _ => rfl, fun _ => rfl, fun _ _ => rfl⟩

/-- Node 7 with no peers. -/
def lonelyEnv : Environment where
  identity := 7
  key := fun _ => none
  dearmor := fun _ data => (false, data)
  lz4 := fun _ => none
  shouldInboundPathBeTrusted := fun _ _ => false
  handler := fun _ data => .done data
  hello := id

end ZeroTierNode.RxQueue

import Mathlib.Data.Finset.Insert
import ZeroTierNode.Fragmentation
import ZeroTierNode.RxQueue

/-!
Fragmentation, end to end: the datagrams of a packet, received in any order and
more than once among datagrams of other packets, are put together to that packet.
-/

namespace ZeroTierNode.FragmentDelivery
open Library.Bytes RxQueue

/-- A datagram and the node that receives it. -/
structure Datagram where
  env : Environment
  now : Int
  path : InetAddress
  data : List Byte

def receive (sw : Switch) (datagram : Datagram) : Switch × List Event :=
  onRemotePacket datagram.env datagram.now datagram.path datagram.data sw

/-- The packet id for which `tryDecode` is invoked, and the bytes it is invoked on. The id of a
packet in the ring is that of its entry. -/
def decodeCall (sw : Switch) : Event → Option (BitVec 64 × List Byte)
  | .tryDecode (some slot) data => some ((sw.rxQueue slot).packetId, data)
  | .tryDecode none data => some (Packet.packetId data, data)
  | _ => none

def decodeCalls (result : Switch × List Event) : List (BitVec 64 × List Byte) :=
  result.2.filterMap (decodeCall result.1)

/-- All invocations of `tryDecode` in a run. -/
def decoded : Switch → List Datagram → List (BitVec 64 × List Byte)
  | _, [] => []
  | sw, datagram :: datagrams =>
      decodeCalls (receive sw datagram) ++ decoded (receive sw datagram).1 datagrams

/-- The entries of the ring that datagrams of other packets take. -/
def ringEntriesTaken (id : BitVec 64) : Switch → List Datagram → Nat
  | _, [] => 0
  | sw, datagram :: datagrams =>
      let after := (receive sw datagram).1
      (if Packet.packetId datagram.data = id then 0 else after.rxQueuePtr - sw.rxQueuePtr) +
        ringEntriesTaken id after datagrams

/-- A packet cut into a head and fragments that the receiver takes for such. -/
structure Split (receiver : Address) (p : List Byte) where
  total : Nat
  head : List Byte
  fragment : Nat → List Byte
  several : 1 < total
  few : total ≤ Packet.maxPacketFragments
  headKind : ∀ env : Environment, env.identity = receiver → classify env head = .head
  headId : Packet.packetId head = Packet.packetId p
  fragmentKind : ∀ env : Environment, env.identity = receiver → ∀ number, 0 < number → number < total →
    classify env (fragment number) = .fragment
  fragmentId : ∀ number, Packet.packetId (fragment number) = Packet.packetId p
  numbered : ∀ number, 0 < number → number < total →
    Packet.fragmentNumber (fragment number) = number ∧ Packet.totalFragments (fragment number) = total
  joined : head ++ (List.range' 1 (total - 1)).flatMap (fun number => Packet.payload (fragment number)) = p
  fits : p.length ≤ Packet.maxPacketLength

namespace Split

variable {receiver : Address} {p : List Byte}

/-- The head is piece 0, as in the mask of received fragments. -/
def piece (split : Split receiver p) (number : Nat) : List Byte :=
  if number = 0 then split.head else split.fragment number

end Split

section Calls

variable (sw : Switch)

theorem decodeFromPeer_calls (env : Environment) (place : Place) (packet : IncomingPacket) :
    (decodeFromPeer env place packet).2.2.filterMap (decodeCall sw) = [] := by
  unfold decodeFromPeer
  cases env.key (Packet.source packet.data) with
  | none => rfl
  | some key =>
      cases packet.authenticated with
      | true =>
          simp only [if_true]
          split
          · rfl
          · split <;> rfl
      | false =>
          simp only [Bool.false_eq_true, if_false]
          split
          · split
            · rfl
            · split <;> rfl
          · rfl

/-- The id that an invocation of `tryDecode` is for. -/
def placeId (place : Place) (data : List Byte) : BitVec 64 :=
  match place with
  | some slot => (sw.rxQueue slot).packetId
  | none => Packet.packetId data

theorem tryDecode_calls (env : Environment) (place : Place) (packet : IncomingPacket) :
    (tryDecode env place packet).2.2.filterMap (decodeCall sw) = [(placeId sw place packet.data, packet.data)] := by
  have first : decodeCall sw (.tryDecode place packet.data) =
      some (placeId sw place packet.data, packet.data) := by
    cases place <;> rfl
  have trusted (data : List Byte) : decodeCall sw (.trusted place data) = none := rfl
  unfold tryDecode
  dsimp only
  split
  · split
    · rw [List.filterMap_cons_some first, List.filterMap_cons_none (trusted _), decodeFromPeer_calls]
    · rw [List.filterMap_cons_some first, List.filterMap_nil]
  · split
    · rw [List.filterMap_cons_some first, List.filterMap_nil]
    · rw [List.filterMap_cons_some first, decodeFromPeer_calls]

theorem appendFragments_calls (slot : Fin rxQueueSize) (frags : Nat → List Byte) (number count : Nat)
    (data : List Byte) :
    (appendFragments slot frags number count data).2.1.filterMap (decodeCall sw) = [] := by
  induction count generalizing number data with
  | zero => rfl
  | succ count ih =>
      unfold appendFragments
      dsimp only
      split
      · rfl
      · rw [List.filterMap_cons_none rfl]
        exact ih _ _

/-- The append loop ends without an exception when the whole packet fits. -/
theorem appendFragments_joined (slot : Fin rxQueueSize) (frags : Nat → List Byte) (number count : Nat)
    (data : List Byte)
    (fits : (data ++ (List.range' number count).flatMap
      (fun f => Packet.payload (frags (f - 1)))).length ≤ Packet.maxPacketLength) :
    (appendFragments slot frags number count data).1 =
        data ++ (List.range' number count).flatMap (fun f => Packet.payload (frags (f - 1))) ∧
      (appendFragments slot frags number count data).2.2 = true := by
  induction count generalizing number data with
  | zero =>
      rw [List.range'_zero, List.flatMap_nil, List.append_nil]
      exact ⟨rfl, rfl⟩
  | succ count ih =>
      rw [List.range'_succ, List.flatMap_cons, ← List.append_assoc] at fits ⊢
      have here : ¬ Packet.maxPacketLength < data.length + (Packet.payload (frags (number - 1))).length := by
        rw [List.length_append, List.length_append] at fits
        omega
      unfold appendFragments
      dsimp only
      rw [if_neg here]
      exact ih (number + 1) _ fits

theorem assemble_packetId (env : Environment) (slot : Fin rxQueueSize) (rq : RXQueueEntry) :
    (assemble env slot rq).1.packetId = rq.packetId ∧
      (assemble env slot rq).1.haveFragments = rq.haveFragments := by
  unfold assemble
  dsimp only
  split
  · split <;> exact ⟨rfl, rfl⟩
  · exact ⟨rfl, rfl⟩

theorem assemble_calls (env : Environment) (slot : Fin rxQueueSize) (rq : RXQueueEntry) :
    (assemble env slot rq).2.filterMap (decodeCall sw) =
      if (appendFragments slot rq.frags 1 (rq.totalFragments - 1) rq.frag0.data).2.2 then
        [((sw.rxQueue slot).packetId,
          (appendFragments slot rq.frags 1 (rq.totalFragments - 1) rq.frag0.data).1)]
      else [] := by
  have joining : decodeCall sw (.joining slot) = none := rfl
  have assembled : decodeCall sw (.assembled slot rq.totalFragments) = none := rfl
  unfold assemble
  dsimp only
  split
  · split <;> rw [List.cons_append, List.filterMap_cons_none joining, List.filterMap_append,
      appendFragments_calls, List.nil_append, List.filterMap_cons_none assembled, tryDecode_calls] <;> rfl
  · rw [List.filterMap_cons_none joining, appendFragments_calls]

end Calls

section Ring

variable {receiver : Address} {p : List Byte} (split : Split receiver p)

/-- An entry in use for the packet that has received some of its pieces. -/
structure Gathered (received : Finset Nat) (rq : RXQueueEntry) : Prop where
  used : rq.timestamp ≠ 0
  id : rq.packetId = Packet.packetId p
  mask : ∀ number, rq.haveFragments.getLsbD number = decide (number ∈ received)
  inside : ∀ number ∈ received, number < split.total
  head : 0 ∈ received → rq.frag0.data = split.head
  fragments : ∀ number ∈ received, 0 < number → rq.frags (number - 1) = split.fragment number
  total : ∀ number ∈ received, 0 < number → rq.totalFragments = split.total
  nonempty : received.Nonempty

def Collecting (received : Finset Nat) (rq : RXQueueEntry) : Prop :=
  Gathered split received rq ∧ ∃ number, number < split.total ∧ number ∉ received

/-- An entry that has received everything takes no further piece. -/
def Full (rq : RXQueueEntry) : Prop :=
  rq.packetId = Packet.packetId p ∧ ∀ number, number < split.total → rq.haveFragments.getLsbD number = true

/-- A piece enters an entry: the entry goes on collecting, or everything is there and the packet is
handed to `tryDecode`. -/
def Enters (received : Finset Nat) (number : Nat) (sw : Switch) (slot : Fin rxQueueSize)
    (result : Switch × List Event) : Prop :=
  ∃ rq, result.1 = sw.setEntry slot rq ∧
    (Collecting split (insert number received) rq ∧ decodeCalls result = [] ∨
      Full split rq ∧ decodeCalls result = [(Packet.packetId p, p)])

/-- What a piece does with the entry it is given. -/
structure PieceSpec (number : Nat) (sw : Switch) (slot : Fin rxQueueSize) (result : Switch × List Event) :
    Prop where
  fresh : (sw.rxQueue slot).packetId ≠ Packet.packetId p → Enters split ∅ number sw slot result
  collecting : ∀ received, Collecting split received (sw.rxQueue slot) → number ∉ received →
    Enters split received number sw slot result
  duplicate : ∀ received, Collecting split received (sw.rxQueue slot) → number ∈ received → result = (sw, [])
  full : Full split (sw.rxQueue slot) → result = (sw, [])

variable {split}

theorem Split.small {number : Nat} (inside : number < split.total) : number < 32 := by
  have few : split.total ≤ 7 := split.few
  omega

theorem setEntry_at (sw : Switch) (slot : Fin rxQueueSize) (rq : RXQueueEntry) :
    (sw.setEntry slot rq).rxQueue slot = rq := Function.update_self _ _ _

/-- All pieces are there: the packet is put together. -/
theorem assemble_enters {env : Environment} {slot : Fin rxQueueSize} {rq : RXQueueEntry} {sw : Switch}
    {received : Finset Nat} (gathered : Gathered split received rq)
    (all : ∀ number, number < split.total → number ∈ received) {before : List Event}
    (quiet : before.filterMap (decodeCall (sw.setEntry slot (assemble env slot rq).1)) = []) :
    Full split (assemble env slot rq).1 ∧
      decodeCalls (sw.setEntry slot (assemble env slot rq).1, before ++ (assemble env slot rq).2) =
        [(Packet.packetId p, p)] := by
  have kept := assemble_packetId env slot rq
  have several := split.several
  have head := gathered.head (all 0 (by omega))
  have total := gathered.total 1 (all 1 several) (by decide)
  have same : (List.range' 1 (split.total - 1)).flatMap (fun f => Packet.payload (rq.frags (f - 1))) =
      (List.range' 1 (split.total - 1)).flatMap (fun f => Packet.payload (split.fragment f)) := by
    apply List.flatMap_congr
    intro number member
    rw [List.mem_range'_1] at member
    rw [gathered.fragments number (all number (by omega)) (by omega)]
  have whole : split.head ++ (List.range' 1 (split.total - 1)).flatMap
      (fun f => Packet.payload (rq.frags (f - 1))) = p := by
    rw [same, split.joined]
  obtain ⟨data, ended⟩ := appendFragments_joined slot rq.frags 1 (split.total - 1) split.head
    (by rw [whole]; exact split.fits)
  refine ⟨⟨kept.1.trans gathered.id, fun number inside => ?_⟩, ?_⟩
  · rw [kept.2, gathered.mask]
    exact decide_eq_true (all number inside)
  · rw [decodeCalls, List.filterMap_append, quiet, List.nil_append, assemble_calls, total, head, ended,
      if_pos rfl, data, whole, setEntry_at, kept.1, gathered.id]

/-- The mask counts as many bits as there are pieces exactly when all are there. -/
theorem Gathered.countBits {received : Finset Nat} {rq : RXQueueEntry} (gathered : Gathered split received rq) :
    (countBits rq.haveFragments).toNat = split.total ↔
      ∀ number, number < split.total → number ∈ received := by
  have small : rq.haveFragments.toNat < 2 ^ split.total := by
    apply Nat.lt_pow_two_of_testBit
    intro number least
    have outside : number ∉ received := fun member => by
      have below := gathered.inside number member
      omega
    have bit := gathered.mask number
    rw [decide_eq_false outside] at bit
    exact bit
  constructor
  · intro count number below
    have bit := getLsbD_of_full (full_of_countBits split.few small count) below
    rw [gathered.mask number] at bit
    exact of_decide_eq_true bit
  · intro all
    refine countBits_of_full split.few (full_of_getLsbD ?_)
    intro number
    rw [gathered.mask number]
    exact decide_eq_decide.mpr ⟨gathered.inside number, all number⟩

/-- An entry with one piece more. -/
theorem Gathered.insertPiece {received : Finset Nat} {rq rq' : RXQueueEntry} {number : Nat}
    (gathered : Gathered split received rq) (inside : number < split.total)
    (used : rq'.timestamp = rq.timestamp) (id : rq'.packetId = rq.packetId)
    (mask : rq'.haveFragments = rq.haveFragments ||| fragmentBit number)
    (head : (number = 0 → rq'.frag0.data = split.head) ∧ (number ≠ 0 → rq'.frag0 = rq.frag0))
    (fragments : ∀ other, 0 < other → rq'.frags (other - 1) =
      if other = number then split.fragment number else rq.frags (other - 1))
    (total : rq'.totalFragments = split.total ∨ number = 0 ∧ rq'.totalFragments = rq.totalFragments) :
    Gathered split (insert number received) rq' := by
  refine ⟨by rw [used]; exact gathered.used, id.trans gathered.id, ?_, ?_, ?_, ?_, ?_,
    Finset.insert_nonempty number received⟩
  · intro other
    rw [mask, BitVec.getLsbD_or, gathered.mask, fragmentBit_getLsbD (Split.small inside), ← Bool.decide_or,
      decide_eq_decide, Finset.mem_insert, or_comm]
  · intro other member
    rcases Finset.mem_insert.mp member with same | old
    · rw [same]
      exact inside
    · exact gathered.inside other old
  · intro zero
    by_cases first : number = 0
    · exact head.1 first
    · rw [head.2 first]
      exact gathered.head ((Finset.mem_insert.mp zero).resolve_left (fun same => first same.symm))
  · intro other member positive
    rw [fragments other positive]
    by_cases same : other = number
    · rw [if_pos same, same]
    · rw [if_neg same]
      exact gathered.fragments other ((Finset.mem_insert.mp member).resolve_left same) positive
  · intro other member positive
    rcases total with known | ⟨zero, kept⟩
    · exact known
    · rw [kept]
      exact gathered.total other ((Finset.mem_insert.mp member).resolve_left (by omega)) positive

/-- The first piece of a packet in an entry given to it. -/
theorem gathered_singleton {rq : RXQueueEntry} {number : Nat} (inside : number < split.total)
    (used : rq.timestamp ≠ 0) (id : rq.packetId = Packet.packetId p)
    (mask : rq.haveFragments = fragmentBit number) (head : number = 0 → rq.frag0.data = split.head)
    (fragment : 0 < number → rq.frags (number - 1) = split.fragment number ∧
      rq.totalFragments = split.total) :
    Collecting split (insert number ∅) rq := by
  have several := split.several
  refine ⟨⟨used, id, ?_, ?_, ?_, ?_, ?_, Finset.insert_nonempty number ∅⟩, ?_⟩
  · intro other
    rw [mask, fragmentBit_getLsbD (Split.small inside)]
    simp
  · intro other member
    rw [Finset.insert_empty, Finset.mem_singleton] at member
    rw [member]
    exact inside
  · intro zero
    rw [Finset.insert_empty, Finset.mem_singleton] at zero
    exact head zero.symm
  · intro other member positive
    rw [Finset.insert_empty, Finset.mem_singleton] at member
    rw [member] at positive ⊢
    exact (fragment positive).1
  · intro other member positive
    rw [Finset.insert_empty, Finset.mem_singleton] at member
    rw [member] at positive
    exact (fragment positive).2
  · by_cases zero : number = 0
    · exact ⟨1, several, by simp [zero]⟩
    · exact ⟨0, by omega, by simpa using fun same => zero same.symm⟩

theorem receiveFragment_spec {env : Environment} {now : Int} {path : InetAddress} (clock : now ≠ 0)
    {number : Nat} (positive : 0 < number) (inside : number < split.total) {sw sw' : Switch}
    {slot : Fin rxQueueSize} (lookup : sw.findRXQueueEntry (Packet.packetId p) = (slot, sw')) :
    PieceSpec split number sw' slot (receiveFragment env now path (split.fragment number) sw) := by
  obtain ⟨numbered, total⟩ := split.numbered number positive inside
  have small := Split.small inside
  have result : receiveFragment env now path (split.fragment number) sw =
      if (sw'.rxQueue slot).packetId ≠ Packet.packetId p then
        (sw'.setEntry slot { addFragment (sw'.rxQueue slot) (split.fragment number) with
            timestamp := now, packetId := Packet.packetId p, haveFragments := fragmentBit number,
            complete := false },
          [.allocate slot (Packet.packetId p), .store slot number (split.fragment number) path])
      else if (sw'.rxQueue slot).haveFragments &&& fragmentBit number = 0 then
        if (countBits (addFragment (sw'.rxQueue slot) (split.fragment number)).haveFragments).toNat =
            split.total then
          (sw'.setEntry slot (assemble env slot (addFragment (sw'.rxQueue slot) (split.fragment number))).1,
            .store slot number (split.fragment number) path ::
              (assemble env slot (addFragment (sw'.rxQueue slot) (split.fragment number))).2)
        else (sw'.setEntry slot (addFragment (sw'.rxQueue slot) (split.fragment number)),
          [.store slot number (split.fragment number) path])
      else (sw', []) := by
    unfold receiveFragment
    dsimp only
    rw [split.fragmentId, lookup, numbered]
    simp only [addFragment, total]
  have known (bit : (sw'.rxQueue slot).haveFragments.getLsbD number = true)
      (id : (sw'.rxQueue slot).packetId = Packet.packetId p) :
      receiveFragment env now path (split.fragment number) sw = (sw', []) := by
    rw [result, if_neg (not_not.mpr id), if_neg (fun clear => by
      rw [and_fragmentBit_eq_zero small, bit] at clear
      cases clear)]
  refine ⟨?_, ?_, ?_, ?_⟩
  · intro fresh
    rw [result, if_pos fresh]
    refine ⟨_, rfl, .inl ⟨gathered_singleton inside clock rfl rfl (fun zero => by omega) ?_, rfl⟩⟩
    intro _
    simp [addFragment, numbered, total]
  · intro received collecting missing
    have clear : (sw'.rxQueue slot).haveFragments &&& fragmentBit number = 0 := by
      rw [and_fragmentBit_eq_zero small, collecting.1.mask]
      exact decide_eq_false missing
    have gathered : Gathered split (insert number received)
        (addFragment (sw'.rxQueue slot) (split.fragment number)) := by
      refine collecting.1.insertPiece inside rfl rfl (by simp only [addFragment, numbered])
        ⟨fun zero => by omega, fun _ => rfl⟩ ?_ (.inl total)
      intro other low
      simp only [addFragment, numbered, Function.update_apply]
      by_cases same : other = number
      · rw [if_pos same, if_pos (by omega)]
      · rw [if_neg same, if_neg (by omega)]
    rw [result, if_neg (not_not.mpr collecting.1.id), if_pos clear]
    by_cases all : ∀ other, other < split.total → other ∈ insert number received
    · rw [if_pos (gathered.countBits.mpr all)]
      obtain ⟨full, calls⟩ := @assemble_enters receiver p split env slot _ sw' _ gathered all
        [.store slot number (split.fragment number) path] rfl
      exact ⟨_, rfl, .inr ⟨full, calls⟩⟩
    · rw [if_neg (fun count => all (gathered.countBits.mp count))]
      refine ⟨_, rfl, .inl ⟨⟨gathered, ?_⟩, rfl⟩⟩
      simpa only [not_forall, exists_prop] using all
  · intro received collecting member
    exact known (by rw [collecting.1.mask]; exact decide_eq_true member) collecting.1.id
  · intro full
    exact known (full.2 number inside) full.1

theorem receiveHead_spec {env : Environment} {now : Int} {path : InetAddress} (clock : now ≠ 0)
    {sw sw' : Switch} {slot : Fin rxQueueSize}
    (lookup : sw.findRXQueueEntry (Packet.packetId p) = (slot, sw')) :
    PieceSpec split 0 sw' slot (receiveHead env now path split.head sw) := by
  have several := split.several
  have inside : 0 < split.total := by omega
  have fits : ¬ Packet.maxPacketLength < split.head.length := by
    have whole := split.fits
    rw [← split.joined, List.length_append] at whole
    omega
  have result : receiveHead env now path split.head sw =
      if (sw'.rxQueue slot).packetId ≠ Packet.packetId p then
        (sw'.setEntry slot { sw'.rxQueue slot with
            timestamp := now, packetId := Packet.packetId p, frag0 := ⟨split.head, path, false⟩,
            totalFragments := 0, haveFragments := 1, complete := false },
          [.allocate slot (Packet.packetId p), .init (some slot) split.head path])
      else if (sw'.rxQueue slot).haveFragments &&& fragmentBit 0 = 0 then
        let rq := { markHead (sw'.rxQueue slot) with frag0 := ⟨split.head, path, false⟩ }
        if 1 < rq.totalFragments ∧ (countBits rq.haveFragments).toNat = rq.totalFragments then
          (sw'.setEntry slot (assemble env slot rq).1,
            .init (some slot) split.head path :: (assemble env slot rq).2)
        else (sw'.setEntry slot rq, [.init (some slot) split.head path])
      else (sw', []) := by
    unfold receiveHead
    dsimp only
    rw [split.headId, lookup]
    simp only [if_neg fits]
    rfl
  have known (bit : (sw'.rxQueue slot).haveFragments.getLsbD 0 = true)
      (id : (sw'.rxQueue slot).packetId = Packet.packetId p) :
      receiveHead env now path split.head sw = (sw', []) := by
    rw [result, if_neg (not_not.mpr id), if_neg (fun clear => by
      rw [and_fragmentBit_eq_zero (by decide), bit] at clear
      cases clear)]
  refine ⟨?_, ?_, ?_, ?_⟩
  · intro fresh
    rw [result, if_pos fresh]
    exact ⟨_, rfl, .inl ⟨gathered_singleton inside clock rfl rfl (fun _ => rfl) (fun low => by omega), rfl⟩⟩
  · intro received collecting missing
    have clear : (sw'.rxQueue slot).haveFragments &&& fragmentBit 0 = 0 := by
      rw [and_fragmentBit_eq_zero (by decide), collecting.1.mask]
      exact decide_eq_false missing
    -- without its head, the entry knows the total from a fragment
    obtain ⟨other, member⟩ := collecting.1.nonempty
    have positive : 0 < other := Nat.pos_of_ne_zero (fun zero => missing (zero ▸ member))
    have total := collecting.1.total other member positive
    have mask : (markHead (sw'.rxQueue slot)).haveFragments =
        (sw'.rxQueue slot).haveFragments ||| fragmentBit 0 := if_pos (by rw [total]; exact several)
    have gathered : Gathered split (insert 0 received)
        { markHead (sw'.rxQueue slot) with frag0 := ⟨split.head, path, false⟩ } := by
      refine collecting.1.insertPiece inside rfl rfl mask ⟨fun _ => rfl, fun nonzero => absurd rfl nonzero⟩ ?_
        (.inl total)
      intro number low
      rw [if_neg (by omega)]
      rfl
    have known' : (markHead (sw'.rxQueue slot)).totalFragments = split.total := total
    rw [result, if_neg (not_not.mpr collecting.1.id), if_pos clear]
    dsimp only
    by_cases all : ∀ number, number < split.total → number ∈ insert 0 received
    · rw [if_pos ⟨by rw [known']; exact several, by rw [known']; exact gathered.countBits.mpr all⟩]
      obtain ⟨full, calls⟩ := @assemble_enters receiver p split env slot _ sw' _ gathered all
        [.init (some slot) split.head path] rfl
      exact ⟨_, rfl, .inr ⟨full, calls⟩⟩
    · rw [if_neg (fun full => all (gathered.countBits.mp (full.2.trans known')))]
      refine ⟨_, rfl, .inl ⟨⟨gathered, ?_⟩, rfl⟩⟩
      simpa only [not_forall, exists_prop] using all
  · intro received collecting member
    exact known (by rw [collecting.1.mask]; exact decide_eq_true member) collecting.1.id
  · intro full
    exact known (full.2 0 inside) full.1

theorem receive_piece {datagram : Datagram} (identity : datagram.env.identity = receiver)
    (clock : datagram.now ≠ 0) {number : Nat} (inside : number < split.total)
    (same : datagram.data = split.piece number) {sw sw' : Switch} {slot : Fin rxQueueSize}
    (lookup : sw.findRXQueueEntry (Packet.packetId p) = (slot, sw')) :
    PieceSpec split number sw' slot (receive sw datagram) := by
  by_cases zero : number = 0
  · subst zero
    rw [Split.piece, if_pos rfl] at same
    rw [receive, onRemotePacket, same, split.headKind _ identity]
    exact receiveHead_spec clock lookup
  · have positive : 0 < number := Nat.pos_of_ne_zero zero
    rw [Split.piece, if_neg zero] at same
    rw [receive, onRemotePacket, same, split.fragmentKind _ identity number positive inside]
    exact receiveFragment_spec clock positive inside lookup

end Ring

section Others

variable {id : BitVec 64}

/-- `dearmor` decrypts behind the packet id. -/
def KeepsId (env : Environment) : Prop :=
  ∀ key data, Packet.packetId (env.dearmor key data).2 = Packet.packetId data

/-- What a datagram of another packet does to the ring: entries of the packet are lost only to the
allocation of the next entry. -/
structure OthersFrame (id : BitVec 64) (before after : Switch) : Prop where
  ring : before.rxQueuePtr ≤ after.rxQueuePtr
  entries : ∀ slot, after.rxQueue slot = before.rxQueue slot ∨
    (after.rxQueue slot).packetId ≠ id ∧ ((before.rxQueue slot).packetId ≠ id ∨
      slot = Switch.slotAt before.rxQueuePtr ∧ after.rxQueuePtr = before.rxQueuePtr + 1)

theorem OthersFrame.refl (sw : Switch) : OthersFrame id sw sw := ⟨le_refl _, fun _ => .inl rfl⟩

theorem next_frame (sw : Switch) {rq : RXQueueEntry} (other : rq.packetId ≠ id) :
    OthersFrame id sw
      (Switch.setEntry { sw with rxQueuePtr := sw.rxQueuePtr + 1 } (Switch.slotAt sw.rxQueuePtr) rq) := by
  refine ⟨Nat.le_succ _, fun slot => ?_⟩
  rw [Switch.setEntry]
  dsimp only
  by_cases same : slot = Switch.slotAt sw.rxQueuePtr
  · subst same
    rw [Function.update_self]
    exact .inr ⟨other, .inr ⟨rfl, rfl⟩⟩
  · rw [Function.update_of_ne same]
    exact .inl rfl

theorem found_frame {sw sw' : Switch} {otherId : BitVec 64} {slot : Fin rxQueueSize}
    (lookup : sw.findRXQueueEntry otherId = (slot, sw')) (other : otherId ≠ id) :
    OthersFrame id sw sw' ∧ ∀ rq : RXQueueEntry, rq.packetId = otherId → OthersFrame id sw (sw'.setEntry slot rq) := by
  rcases findRXQueueEntry_spec sw otherId with ⟨found, same, held, -⟩ | ⟨same, -⟩
  · rw [same] at lookup
    cases lookup
    refine ⟨.refl sw, fun rq given => ⟨le_refl _, fun place => ?_⟩⟩
    rw [Switch.setEntry]
    dsimp only
    by_cases here : place = slot
    · subst here
      rw [Function.update_self, given]
      exact .inr ⟨other, .inl (by rw [held]; exact other)⟩
    · rw [Function.update_of_ne here]
      exact .inl rfl
  · rw [same] at lookup
    cases lookup
    exact ⟨⟨Nat.le_succ _, fun _ => .inl rfl⟩, fun rq given => next_frame sw (by rw [given]; exact other)⟩

theorem assemble_calls_other {env : Environment} {slot : Fin rxQueueSize} {rq : RXQueueEntry} {sw : Switch}
    {event : Event} (quiet : ∀ sw, decodeCall sw event = none) (other : rq.packetId ≠ id) :
    ∀ call ∈ decodeCalls (sw.setEntry slot (assemble env slot rq).1, event :: (assemble env slot rq).2),
      call.1 ≠ id := by
  intro call member
  rw [decodeCalls, List.filterMap_cons_none (quiet _), assemble_calls, setEntry_at,
    (assemble_packetId env slot rq).1] at member
  split at member
  · rw [List.mem_singleton] at member
    rw [member]
    exact other
  · cases member

theorem receiveFragment_other (env : Environment) (now : Int) (path : InetAddress) (fragment : List Byte)
    (other : Packet.packetId fragment ≠ id) (sw : Switch) :
    (∀ call ∈ decodeCalls (receiveFragment env now path fragment sw), call.1 ≠ id) ∧
      OthersFrame id sw (receiveFragment env now path fragment sw).1 := by
  obtain ⟨slot, sw', lookup⟩ : ∃ slot sw', sw.findRXQueueEntry (Packet.packetId fragment) = (slot, sw') :=
    ⟨_, _, rfl⟩
  obtain ⟨kept, taken⟩ := found_frame lookup other
  unfold receiveFragment
  dsimp only
  rw [lookup]
  dsimp only
  split
  · exact ⟨fun call member => (by cases member), taken _ rfl⟩
  · rename_i sameId
    have held : (addFragment (sw'.rxQueue slot) fragment).packetId = Packet.packetId fragment :=
      not_not.mp sameId
    split
    · split
      · refine ⟨assemble_calls_other (fun _ => rfl) (by rw [held]; exact other), taken _ ?_⟩
        rw [(assemble_packetId env slot _).1, held]
      · exact ⟨fun call member => (by cases member), taken _ held⟩
    · exact ⟨fun call member => (by cases member), kept⟩

theorem receiveHead_other (env : Environment) (now : Int) (path : InetAddress) (data : List Byte)
    (other : Packet.packetId data ≠ id) (sw : Switch) :
    (∀ call ∈ decodeCalls (receiveHead env now path data sw), call.1 ≠ id) ∧
      OthersFrame id sw (receiveHead env now path data sw).1 := by
  obtain ⟨slot, sw', lookup⟩ : ∃ slot sw', sw.findRXQueueEntry (Packet.packetId data) = (slot, sw') :=
    ⟨_, _, rfl⟩
  obtain ⟨kept, taken⟩ := found_frame lookup other
  unfold receiveHead
  dsimp only
  rw [lookup]
  dsimp only
  split
  · split
    · exact ⟨fun call member => (by cases member), taken _ rfl⟩
    · exact ⟨fun call member => (by cases member), taken _ rfl⟩
  · rename_i sameId
    have held : (sw'.rxQueue slot).packetId = Packet.packetId data := not_not.mp sameId
    split
    · split
      · exact ⟨fun call member => (by cases member), taken _ held⟩
      · split
        · refine ⟨assemble_calls_other (fun _ => rfl) (by rw [← held] at other; exact other), taken _ ?_⟩
          rw [(assemble_packetId env slot _).1]
          exact held
        · exact ⟨fun call member => (by cases member), taken _ held⟩
    · exact ⟨fun call member => (by cases member), kept⟩

/-- A packet that has to wait keeps its id. -/
theorem tryDecode_pending_id {env : Environment} (keeps : KeepsId env) (place : Place) (packet : IncomingPacket)
    (pending : (tryDecode env place packet).1 = false) :
    Packet.packetId (tryDecode env place packet).2.1.data = Packet.packetId packet.data := by
  have peer (packet : IncomingPacket) : (decodeFromPeer env place packet).1 = false →
      Packet.packetId (decodeFromPeer env place packet).2.1.data = Packet.packetId packet.data := by
    unfold decodeFromPeer
    cases env.key (Packet.source packet.data) with
    | none => exact fun _ => rfl
    | some key =>
        obtain ⟨accepted, data, checked⟩ : ∃ accepted data,
            (if packet.authenticated = true then (true, packet.data) else env.dearmor key packet.data) =
              (accepted, data) := ⟨_, _, rfl⟩
        have same : Packet.packetId data = Packet.packetId packet.data := by
          split at checked
          · cases checked
            rfl
          · rw [← keeps key packet.data, checked]
        dsimp only
        rw [checked]
        cases accepted with
        | false => exact fun pending => by cases pending
        | true =>
            dsimp only
            rw [if_pos rfl]
            cases opened : Packet.uncompress env.lz4 data with
            | none => exact fun pending => by cases pending
            | some plain =>
                dsimp only
                cases env.handler (Packet.verb plain) plain with
                | done after => exact fun pending => by cases pending
                | retry => exact fun _ => (Packet.uncompress_packetId opened).trans same
  unfold tryDecode at pending ⊢
  dsimp only at pending ⊢
  split
  · rename_i overTrusted
    rw [if_pos overTrusted] at pending
    split
    · rename_i pathTrusted
      rw [if_pos pathTrusted] at pending
      exact peer _ pending
    · rfl
  · rename_i notTrusted
    rw [if_neg notTrusted] at pending
    split
    · rename_i hello
      rw [if_pos hello] at pending
      cases pending
    · rename_i notHello
      rw [if_neg notHello] at pending
      exact peer _ pending

theorem receiveWhole_calls (env : Environment) (now : Int) (path : InetAddress) (data : List Byte)
    (sw : Switch) : decodeCalls (receiveWhole env now path data sw) =
      if Packet.maxPacketLength < data.length then [] else [(Packet.packetId data, data)] := by
  have init (sw : Switch) : decodeCall sw (.init none data path) = none := rfl
  unfold receiveWhole
  split
  · rfl
  · dsimp only
    split
    · rw [decodeCalls, List.filterMap_cons_none (init _), tryDecode_calls]
      rfl
    · rw [decodeCalls, List.filterMap_cons_none (init _), List.filterMap_append, tryDecode_calls]
      rfl

theorem receiveWhole_other {env : Environment} (keeps : KeepsId env) (now : Int) (path : InetAddress)
    (data : List Byte) (other : Packet.packetId data ≠ id) (sw : Switch) :
    (∀ call ∈ decodeCalls (receiveWhole env now path data sw), call.1 ≠ id) ∧
      OthersFrame id sw (receiveWhole env now path data sw).1 := by
  refine ⟨?_, ?_⟩
  · rw [receiveWhole_calls]
    split
    · intro call member
      cases member
    · intro call member
      rw [List.mem_singleton] at member
      rw [member]
      exact other
  · unfold receiveWhole
    split
    · exact .refl sw
    · dsimp only
      split
      · exact .refl sw
      · rename_i pending
        have waiting := tryDecode_pending_id keeps none ⟨data, path, false⟩ (by simpa using pending)
        exact next_frame sw (by rw [waiting]; exact other)

theorem receive_other {datagram : Datagram} (keeps : KeepsId datagram.env)
    (other : Packet.packetId datagram.data ≠ id) (sw : Switch) :
    (∀ call ∈ decodeCalls (receive sw datagram), call.1 ≠ id) ∧
      OthersFrame id sw (receive sw datagram).1 := by
  unfold receive onRemotePacket
  cases classify datagram.env datagram.data with
  | fragment => exact receiveFragment_other _ _ _ _ other sw
  | head => exact receiveHead_other _ _ _ _ other sw
  | whole => exact receiveWhole_other keeps _ _ _ other sw
  | ignored => exact ⟨fun call member => (by cases member), .refl sw⟩

end Others

/-- A datagram that reaches the receiver of a packet sent as `pieces`: one of the pieces, or a datagram
of another packet. -/
structure Arrival (receiver : Address) (p : List Byte) (pieces : List (List Byte)) (datagram : Datagram) :
    Prop where
  identity : datagram.env.identity = receiver
  keepsId : KeepsId datagram.env
  piece : datagram.data ∈ pieces ∨ Packet.packetId datagram.data ≠ Packet.packetId p

section Delivery

variable {receiver : Address} {p : List Byte} {split : Split receiver p} {pieces : List (List Byte)}

theorem Split.pieceId (split : Split receiver p) (number : Nat) :
    Packet.packetId (split.piece number) = Packet.packetId p := by
  unfold Split.piece
  split
  · exact split.headId
  · exact split.fragmentId number

theorem Split.piece_injective (split : Split receiver p) {env : Environment} (identity : env.identity = receiver)
    {first second : Nat} (below : first < split.total) (below' : second < split.total)
    (same : split.piece first = split.piece second) : first = second := by
  have kinds (number : Nat) (inside : number < split.total) :
      classify env (split.piece number) = if number = 0 then .head else .fragment := by
    by_cases zero : number = 0
    · rw [Split.piece, if_pos zero, if_pos zero, split.headKind env identity]
    · rw [Split.piece, if_neg zero, if_neg zero,
        split.fragmentKind env identity number (Nat.pos_of_ne_zero zero) inside]
  have kind := kinds first below
  rw [same, kinds second below'] at kind
  by_cases zero : first = 0
  · by_cases zero' : second = 0
    · rw [zero, zero']
    · rw [if_pos zero, if_neg zero'] at kind
      cases kind
  · by_cases zero' : second = 0
    · rw [if_neg zero, if_pos zero'] at kind
      cases kind
    · rw [Split.piece, Split.piece, if_neg zero, if_neg zero'] at same
      have number := (split.numbered first (Nat.pos_of_ne_zero zero) below).1
      rw [same, (split.numbered second (Nat.pos_of_ne_zero zero') below').1] at number
      exact number.symm

variable (split) in
/-- Entries with the packet's id hold pieces of the packet only. -/
def Sound (sw : Switch) : Prop :=
  ∀ slot, (sw.rxQueue slot).packetId = Packet.packetId p →
    (∃ received, Collecting split received (sw.rxQueue slot)) ∨ Full split (sw.rxQueue slot)

theorem setEntry_sound {sw : Switch} {slot : Fin rxQueueSize} {rq : RXQueueEntry} (sound : Sound split sw)
    (entry : (∃ received, Collecting split received rq) ∨ Full split rq) : Sound split (sw.setEntry slot rq) := by
  intro other held
  by_cases same : other = slot
  · subst same
    rw [setEntry_at]
    exact entry
  · have kept : (sw.setEntry slot rq).rxQueue other = sw.rxQueue other := Function.update_of_ne same _ _
    rw [kept] at held ⊢
    exact sound other held

theorem others_sound {before after : Switch} (frame : OthersFrame (Packet.packetId p) before after)
    (sound : Sound split before) : Sound split after := by
  intro slot held
  rcases frame.entries slot with same | ⟨other, -⟩
  · rw [same] at held ⊢
    exact sound slot held
  · exact absurd held other

theorem Enters.sound {received : Finset Nat} {number : Nat} {sw : Switch} {slot : Fin rxQueueSize}
    {result : Switch × List Event} (enters : Enters split received number sw slot result)
    (sound : Sound split sw) :
    (∀ call ∈ decodeCalls result, call.2 = p) ∧ Sound split result.1 := by
  obtain ⟨rq, state, ⟨collecting, calls⟩ | ⟨full, calls⟩⟩ := enters
  · rw [state, calls]
    exact ⟨fun call member => (by cases member), setEntry_sound sound (.inl ⟨_, collecting⟩)⟩
  · rw [state, calls]
    refine ⟨fun call member => ?_, setEntry_sound sound (.inr full)⟩
    rw [List.mem_singleton] at member
    rw [member]

/-- Whatever entry a piece is given, `tryDecode` sees nothing but the packet. -/
theorem PieceSpec.sound {number : Nat} {sw : Switch} {slot : Fin rxQueueSize} {result : Switch × List Event}
    (spec : PieceSpec split number sw slot result) (sound : Sound split sw) :
    (∀ call ∈ decodeCalls result, call.2 = p) ∧ Sound split result.1 := by
  by_cases held : (sw.rxQueue slot).packetId = Packet.packetId p
  · rcases sound slot held with ⟨received, collecting⟩ | full
    · by_cases member : number ∈ received
      · rw [spec.duplicate received collecting member]
        exact ⟨fun call member => (by cases member), sound⟩
      · exact (spec.collecting received collecting member).sound sound
    · rw [spec.full full]
      exact ⟨fun call member => (by cases member), sound⟩
  · exact (spec.fresh held).sound sound

theorem decoded_sound (complete : ∀ piece ∈ pieces, ∃ number, number < split.total ∧ piece = split.piece number)
    (datagrams : List Datagram) (arrivals : ∀ datagram ∈ datagrams, Arrival receiver p pieces datagram)
    (clock : ∀ datagram ∈ datagrams, datagram.now ≠ 0) (sw : Switch) (sound : Sound split sw) :
    ∀ call ∈ decoded sw datagrams, call.1 = Packet.packetId p → call.2 = p := by
  induction datagrams generalizing sw with
  | nil => exact fun call member => (by cases member)
  | cons datagram datagrams ih =>
      have arrival := arrivals datagram List.mem_cons_self
      have later := ih (fun next member => arrivals next (List.mem_cons_of_mem _ member))
        (fun next member => clock next (List.mem_cons_of_mem _ member))
      intro call member id
      rw [decoded, List.mem_append] at member
      rcases arrival.piece with piece | other
      · obtain ⟨number, inside, same⟩ := complete _ piece
        obtain ⟨slot, sw', lookup⟩ : ∃ slot sw', sw.findRXQueueEntry (Packet.packetId p) = (slot, sw') :=
          ⟨_, _, rfl⟩
        have moved : Sound split sw' := by
          rcases findRXQueueEntry_spec sw (Packet.packetId p) with ⟨found, spec, -⟩ | ⟨spec, -⟩ <;>
            rw [lookup] at spec <;> cases spec <;> exact sound
        obtain ⟨calls, after⟩ :=
          (receive_piece arrival.identity (clock datagram List.mem_cons_self) inside same lookup).sound moved
        rcases member with now | next
        · exact calls call now
        · exact later _ after call next id
      · obtain ⟨calls, frame⟩ := receive_other arrival.keepsId other sw
        rcases member with now | next
        · exact absurd id (calls call now)
        · exact later _ (others_sound frame sound) call next id

variable (split) in
/-- What was received of the packet so far: nothing, or the pieces in an entry that other packets
will not overwrite while they take no more than `budget` entries. -/
def Waiting (received : Finset Nat) (sw : Switch) (budget : Nat) : Prop :=
  (received = ∅ ∧ ∀ slot, (sw.rxQueue slot).packetId ≠ Packet.packetId p) ∨
  ∃ position, Collecting split received (sw.rxQueue (Switch.slotAt position)) ∧ position < sw.rxQueuePtr ∧
    sw.rxQueuePtr + budget ≤ position + rxQueueSize ∧
    ∀ slot, slot ≠ Switch.slotAt position → (sw.rxQueue slot).packetId ≠ Packet.packetId p

theorem slotAt_ne {position ring : Nat} (after : position < ring) (near : ring < position + rxQueueSize) :
    Switch.slotAt position ≠ Switch.slotAt ring := by
  intro same
  have values : position % 32 = ring % 32 := congrArg Fin.val same
  have near' : ring < position + 32 := near
  omega

theorem Waiting.others {received : Finset Nat} {before after : Switch} {budget : Nat}
    (waiting : Waiting split received before (after.rxQueuePtr - before.rxQueuePtr + budget))
    (frame : OthersFrame (Packet.packetId p) before after) : Waiting split received after budget := by
  have ring := frame.ring
  rcases waiting with ⟨none, unheld⟩ | ⟨position, collecting, behind, near, unheld⟩
  · refine .inl ⟨none, fun slot => ?_⟩
    rcases frame.entries slot with same | ⟨other, -⟩
    · rw [same]
      exact unheld slot
    · exact other
  · refine .inr ⟨position, ?_, by omega, by omega, fun slot apart => ?_⟩
    · rcases frame.entries (Switch.slotAt position) with same | ⟨-, other | ⟨here, next⟩⟩
      · rw [same]
        exact collecting
      · exact absurd collecting.1.id other
      · exact absurd here (slotAt_ne behind (by omega))
    · rcases frame.entries slot with same | ⟨other, -⟩
      · rw [same]
        exact unheld slot apart
      · exact other

theorem Enters.waiting {received : Finset Nat} {number budget position : Nat} {sw : Switch}
    {result : Switch × List Event}
    (enters : Enters split received number sw (Switch.slotAt position) result)
    (behind : position < sw.rxQueuePtr) (near : sw.rxQueuePtr + budget ≤ position + rxQueueSize)
    (unheld : ∀ slot, slot ≠ Switch.slotAt position → (sw.rxQueue slot).packetId ≠ Packet.packetId p) :
    Waiting split (insert number received) result.1 budget ∨ (Packet.packetId p, p) ∈ decodeCalls result := by
  obtain ⟨rq, state, ⟨collecting, -⟩ | ⟨-, calls⟩⟩ := enters
  · refine .inl (.inr ⟨position, ?_, ?_, ?_, ?_⟩)
    · rw [state, setEntry_at]
      exact collecting
    · rw [state]
      exact behind
    · rw [state]
      exact near
    · intro slot apart
      have kept : (sw.setEntry (Switch.slotAt position) rq).rxQueue slot = sw.rxQueue slot :=
        Function.update_of_ne apart _ _
      rw [state, kept]
      exact unheld slot apart
  · rw [calls]
    exact .inr (List.mem_singleton.mpr rfl)

/-- A piece is added to what was received, or completes the packet. -/
theorem Waiting.receivePiece {received : Finset Nat} {sw : Switch} {budget number : Nat} {datagram : Datagram}
    (waiting : Waiting split received sw budget) (few : budget < rxQueueSize)
    (identity : datagram.env.identity = receiver) (clock : datagram.now ≠ 0) (inside : number < split.total)
    (same : datagram.data = split.piece number) :
    Waiting split (insert number received) (receive sw datagram).1 budget ∨
      (Packet.packetId p, p) ∈ decodeCalls (receive sw datagram) := by
  rcases waiting with ⟨none, unheld⟩ | ⟨position, collecting, behind, near, unheld⟩
  · rcases findRXQueueEntry_spec sw (Packet.packetId p) with ⟨slot, -, held, -⟩ | ⟨lookup, -⟩
    · exact absurd held (unheld slot)
    · rw [none]
      have spec := receive_piece identity clock inside same lookup
      refine (spec.fresh (unheld _)).waiting (Nat.lt_succ_self _) ?_ (fun slot _ => unheld slot)
      dsimp only
      omega
  · rcases findRXQueueEntry_spec sw (Packet.packetId p) with ⟨slot, lookup, held, -⟩ | ⟨-, free⟩
    · have here : slot = Switch.slotAt position := by
        by_contra apart
        exact unheld slot apart held
      rw [here] at lookup
      have spec := receive_piece identity clock inside same lookup
      by_cases member : number ∈ received
      · rw [spec.duplicate received collecting member, Finset.insert_eq_of_mem member]
        exact .inl (.inr ⟨position, collecting, behind, near, unheld⟩)
      · exact (spec.collecting received collecting member).waiting behind near unheld
    · exact absurd (free _ collecting.1.id) collecting.1.used

theorem decoded_delivers (complete : ∀ piece ∈ pieces, ∃ number, number < split.total ∧ piece = split.piece number)
    (datagrams : List Datagram) (arrivals : ∀ datagram ∈ datagrams, Arrival receiver p pieces datagram)
    (clock : ∀ datagram ∈ datagrams, datagram.now ≠ 0) (received : Finset Nat) (sw : Switch)
    (waiting : Waiting split received sw (ringEntriesTaken (Packet.packetId p) sw datagrams))
    (few : ringEntriesTaken (Packet.packetId p) sw datagrams < rxQueueSize)
    (all : ∀ number, number < split.total → number ∈ received ∨
      ∃ datagram ∈ datagrams, datagram.data = split.piece number) :
    (Packet.packetId p, p) ∈ decoded sw datagrams := by
  induction datagrams generalizing received sw with
  | nil =>
      have several := split.several
      have everything (number : Nat) (inside : number < split.total) : number ∈ received := by
        rcases all number inside with member | ⟨datagram, none, -⟩
        · exact member
        · cases none
      rcases waiting with ⟨none, -⟩ | ⟨position, ⟨-, number, inside, missing⟩, -⟩
      · have first := everything 0 (by omega)
        rw [none] at first
        exact absurd first (Finset.notMem_empty 0)
      · exact absurd (everything number inside) missing
  | cons datagram datagrams ih =>
      have arrival := arrivals datagram List.mem_cons_self
      have later := ih (fun next member => arrivals next (List.mem_cons_of_mem _ member))
        (fun next member => clock next (List.mem_cons_of_mem _ member))
      rw [ringEntriesTaken] at waiting few
      rw [decoded, List.mem_append]
      rcases arrival.piece with piece | other
      · obtain ⟨number, inside, same⟩ := complete _ piece
        rw [same, split.pieceId, if_pos rfl, Nat.zero_add] at waiting few
        rcases waiting.receivePiece few arrival.identity (clock datagram List.mem_cons_self) inside same with next | done
        · refine .inr (later (insert number received) _ next few ?_)
          intro wanted below
          rcases all wanted below with member | ⟨found, member, data⟩
          · exact .inl (Finset.mem_insert_of_mem member)
          · rcases List.mem_cons.mp member with this | rest
            · rw [this, same] at data
              have number_eq := split.piece_injective arrival.identity inside below data
              exact .inl (Finset.mem_insert.mpr (.inl number_eq.symm))
            · exact .inr ⟨found, rest, data⟩
        · exact .inl done
      · rw [if_neg other] at waiting few
        obtain ⟨-, frame⟩ := receive_other arrival.keepsId other sw
        refine .inr (later received _ (waiting.others frame) (by omega) ?_)
        intro wanted below
        rcases all wanted below with member | ⟨found, member, data⟩
        · exact .inl member
        · rcases List.mem_cons.mp member with this | rest
          · rw [this] at data
            rw [data, split.pieceId] at other
            exact absurd rfl other
          · exact .inr ⟨found, rest, data⟩

end Delivery

end ZeroTierNode.FragmentDelivery

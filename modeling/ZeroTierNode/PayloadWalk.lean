import Mathlib.Logic.Relation
import ZeroTierNode.FrameReads

/-!
The payload of an IPv6 frame: `_ipv6GetPayload` in its three copies and the seven places that call
it. Positions are words of 32 bits here, so that over a frame of nearly 2^32 bytes the loop goes
around.
-/

namespace ZeroTierNode.PayloadWalk
open Library.Bytes Library.Readings ZeroTierNode.Filter

section Chains

/-- Hop-by-hop options, routing, destination options and mobility options. -/
def IsExtension (proto : Byte) : Prop := proto = 0 ∨ proto = 43 ∨ proto = 60 ∨ proto = 135

instance (proto : Byte) : Decidable (IsExtension proto) := by
  unfold IsExtension
  infer_instance

variable (frame : Nat → Byte)

/-- An extension header begins with the kind of the next header and its own length, in units of
eight bytes and without the first eight. -/
inductive Follows : Nat × Byte → Nat × Byte → Prop
  | extension (pos : Nat) (proto : Byte) (kind : IsExtension proto) :
      Follows (pos, proto) (pos + ((frame (pos + 1)).toNat * 8 + 8), frame pos)

/-- The chain of extension headers from a header on ends at this payload. -/
def Reaches (header payload : Nat × Byte) : Prop :=
  Relation.ReflTransGen (Follows frame) header payload ∧ ¬ IsExtension payload.2

/-- The IPv6 header has 40 bytes, of which one is the kind of the first header behind it. -/
def firstHeader : Nat × Byte := (40, frame 6)

/-- The extension headers are all inside the frame, and the payload begins here. -/
def PayloadAt (frameLen : Nat) (payload : Nat × Byte) : Prop :=
  Reaches frame (firstHeader frame) payload ∧ payload.1 ≤ frameLen

variable {frame}

theorem Follows.le {header next : Nat × Byte} (follows : Follows frame header next) : header.1 + 8 ≤ next.1 := by
  cases follows
  dsimp only
  omega

theorem Reaches.le {header payload : Nat × Byte} (reaches : Reaches frame header payload) :
    header.1 ≤ payload.1 := by
  induction reaches.1 using Relation.ReflTransGen.head_induction_on with
  | refl => exact Nat.le_refl _
  | head follows rest ih => exact (Nat.le_of_add_right_le follows.le).trans (ih ⟨rest, reaches.2⟩)

/-- The chain ends at a header of another kind. -/
theorem reaches_of_payload {pos : Nat} {proto : Byte} (other : ¬ IsExtension proto) (payload : Nat × Byte) :
    Reaches frame (pos, proto) payload ↔ (pos, proto) = payload := by
  constructor
  · intro reaches
    cases reaches.1.cases_head with
    | inl same => exact same
    | inr further =>
        obtain ⟨next, follows, _⟩ := further
        cases follows with
        | extension pos proto kind => exact absurd kind other
  · intro same
    rw [← same]
    exact ⟨.refl, other⟩

/-- Behind an extension header it goes on at the next one. -/
theorem reaches_of_extension {pos : Nat} {proto : Byte} (kind : IsExtension proto) (payload : Nat × Byte) :
    Reaches frame (pos, proto) payload ↔
      Reaches frame (pos + ((frame (pos + 1)).toNat * 8 + 8), frame pos) payload := by
  constructor
  · intro reaches
    cases reaches.1.cases_head with
    | inl same =>
        have other : ¬ IsExtension (pos, proto).2 := same ▸ reaches.2
        exact absurd kind other
    | inr further =>
        obtain ⟨next, follows, rest⟩ := further
        cases follows
        exact ⟨rest, reaches.2⟩
  · intro reaches
    exact ⟨.head (.extension pos proto kind) reaches.1, reaches.2⟩

/-- The walk in exact positions finds the end of the chain where that lies inside the frame. -/
theorem ipv6Walk_eq_some_iff (frameLen pos : Nat) (proto : Byte) (payload : Nat × Byte) :
    Filter.ipv6Walk frame frameLen pos proto = some payload ↔
      Reaches frame (pos, proto) payload ∧ payload.1 ≤ frameLen := by
  induction pos, proto using Filter.ipv6Walk.induct frame frameLen with
  | case1 pos proto outside =>
      rw [Filter.ipv6Walk, if_pos outside]
      constructor
      · intro found
        cases found
      · intro inside
        have behind : pos ≤ payload.1 := inside.1.le
        omega
  | case2 pos proto inside kind cut =>
      rw [Filter.ipv6Walk, if_neg inside, if_pos kind, if_pos cut, reaches_of_extension kind]
      constructor
      · intro found
        cases found
      · intro inside
        have behind : pos + ((frame (pos + 1)).toNat * 8 + 8) ≤ payload.1 := inside.1.le
        omega
  | case3 pos proto inside kind whole ih =>
      rw [Filter.ipv6Walk, if_neg inside, if_pos kind, if_neg whole, reaches_of_extension kind]
      exact ih
  | case4 pos proto inside other =>
      rw [Filter.ipv6Walk, if_neg inside, if_neg other, reaches_of_payload other, Option.some.injEq]
      constructor
      · intro same
        rw [← same]
        exact ⟨rfl, Nat.le_of_not_lt inside⟩
      · intro found
        exact found.1

end Chains

section Loop

/-- What the caller passes by reference. -/
structure Locals where
  pos : BitVec 32
  proto : BitVec 32
deriving DecidableEq, Repr

/-- One turn of the loop: what it returns, if anything, and the variables. -/
def turn (frameLen : BitVec 32) (v : Locals) : ByteReader (Option Bool × Locals) :=
  -- overflow == invalid
  if frameLen < v.pos then return (some false, v)
  else if v.proto = 0 ∨ v.proto = 43 ∨ v.proto = 60 ∨ v.proto = 135 then
    if frameLen < v.pos + 8 then return (some false, v)
    else
      byteAt v.pos.toNat >>= fun next =>
        byteAt (v.pos + 1).toNat >>= fun units =>
          return (none, ⟨v.pos + (units.setWidth 32 * 8 + 8), next.setWidth 32⟩)
  else return (some true, v)

/-- The loop, for as many turns; `none` where it is not over by then. -/
def loop (frameLen : BitVec 32) : Nat → Locals → ByteReader (Option (Bool × Locals))
  | 0, _ => return none
  | turns + 1, v =>
      turn frameLen v >>= fun turned =>
        match turned.1 with
        | some result => return some (result, turned.2)
        | none => loop frameLen turns turned.2

/-- `_ipv6GetPayload`. For a frame that is too short the variables stay what they are. -/
def ipv6GetPayload (frameLen : BitVec 32) (turns : Nat) (v : Locals) : ByteReader (Option (Bool × Locals)) :=
  if frameLen < 40 then return some (false, v)
  else byteAt 6 >>= fun proto => loop frameLen turns ⟨40, proto.setWidth 32⟩

/-- The copy in `Network.cpp`. -/
def Network.ipv6GetPayload := PayloadWalk.ipv6GetPayload

/-- The copy in `Switch.cpp`. -/
def Switch.ipv6GetPayload := PayloadWalk.ipv6GetPayload

/-- The copy in `IncomingPacket.cpp`. -/
def IncomingPacket.ipv6GetPayload := PayloadWalk.ipv6GetPayload

inductive Copy
  | network
  | switch
  | incomingPacket
deriving DecidableEq, Repr

def Copy.ipv6GetPayload : Copy → BitVec 32 → Nat → Locals → ByteReader (Option (Bool × Locals))
  | network => Network.ipv6GetPayload
  | switch => Switch.ipv6GetPayload
  | incomingPacket => IncomingPacket.ipv6GetPayload

end Loop

section Turns

/-- The variables with a position and a byte in them. -/
def localsAt (pos : Nat) (proto : Byte) : Locals := ⟨BitVec.ofNat 32 pos, proto.setWidth 32⟩

variable {frameLen : BitVec 32} {pos : Nat} {proto : Byte}

theorem toNat_pos (below : pos < 2 ^ 32) : (localsAt pos proto).pos.toNat = pos := by
  rw [localsAt, BitVec.toNat_ofNat, Nat.mod_eq_of_lt below]

/-- The switch sees the same kinds. -/
theorem extension_case : ((localsAt pos proto).proto = 0 ∨ (localsAt pos proto).proto = 43 ∨
    (localsAt pos proto).proto = 60 ∨ (localsAt pos proto).proto = 135) ↔ IsExtension proto := by
  change (proto.setWidth 32 = 0 ∨ proto.setWidth 32 = 43 ∨ proto.setWidth 32 = 60 ∨ proto.setWidth 32 = 135) ↔ _
  revert proto
  decide

theorem outside_iff (below : pos < 2 ^ 32) : frameLen < (localsAt pos proto).pos ↔ frameLen.toNat < pos := by
  rw [BitVec.lt_def, toNat_pos below]

theorem cut_iff (below : pos + 8 < 2 ^ 32) : frameLen < (localsAt pos proto).pos + 8 ↔ frameLen.toNat < pos + 8 := by
  have sum : (localsAt pos proto).pos + 8 = BitVec.ofNat 32 (pos + 8) := by
    rw [localsAt, BitVec.ofNat_add]
    rfl
  rw [sum, BitVec.lt_def, BitVec.toNat_ofNat, Nat.mod_eq_of_lt below]

theorem turn_outside (below : pos < 2 ^ 32) (outside : frameLen.toNat < pos) :
    turn frameLen (localsAt pos proto) = pure (some false, localsAt pos proto) := by
  rw [turn, if_pos ((outside_iff below).mpr outside)]

theorem turn_payload (inside : pos ≤ frameLen.toNat) (other : ¬ IsExtension proto) :
    turn frameLen (localsAt pos proto) = pure (some true, localsAt pos proto) := by
  have below : pos < 2 ^ 32 := Nat.lt_of_le_of_lt inside frameLen.isLt
  have within : ¬ frameLen < (localsAt pos proto).pos := by
    rw [outside_iff below]
    omega
  rw [turn, if_neg within, if_neg (extension_case.not.mpr other)]

theorem turn_cut (below : pos + 8 < 2 ^ 32) (inside : pos ≤ frameLen.toNat) (kind : IsExtension proto)
    (cut : frameLen.toNat < pos + 8) :
    turn frameLen (localsAt pos proto) = pure (some false, localsAt pos proto) := by
  have within : ¬ frameLen < (localsAt pos proto).pos := by
    rw [outside_iff (by omega)]
    omega
  rw [turn, if_neg within, if_pos (extension_case.mpr kind), if_pos ((cut_iff below).mpr cut)]

/-- Behind a whole extension header the next one is read, two bytes of which are looked at. -/
theorem turn_extension (whole : pos + 8 ≤ frameLen.toNat) (kind : IsExtension proto) :
    turn frameLen (localsAt pos proto) =
      byteAt pos >>= fun next =>
        byteAt (pos + 1) >>= fun units => pure (none, localsAt (pos + (units.toNat * 8 + 8)) next) := by
  have small := frameLen.isLt
  have within : ¬ frameLen < (localsAt pos proto).pos := by
    rw [outside_iff (by omega)]
    omega
  have fits : ¬ frameLen < (localsAt pos proto).pos + 8 := by
    rw [cut_iff (by omega)]
    omega
  have second : ((localsAt pos proto).pos + 1).toNat = pos + 1 := by
    rw [BitVec.toNat_add, toNat_pos (by omega)]
    exact Nat.mod_eq_of_lt (show pos + 1 < 2 ^ 32 by omega)
  have next (units : Byte) :
      (localsAt pos proto).pos + (units.setWidth 32 * 8 + 8) = BitVec.ofNat 32 (pos + (units.toNat * 8 + 8)) := by
    rw [localsAt, BitVec.ofNat_add, BitVec.ofNat_add, BitVec.ofNat_mul, BitVec.ofNat_toNat]
    rfl
  rw [turn, if_neg within, if_pos (extension_case.mpr kind), if_neg fits, toNat_pos (by omega), second]
  simp only [next]
  rfl

/-- The loop has returned what the walk in exact positions finds. -/
inductive Agrees (frameLen : Nat) : Option (Nat × Byte) → Bool × Locals → Prop
  | valid (pos : Nat) (proto : Byte) : Agrees frameLen (some (pos, proto)) (true, localsAt pos proto)
  | invalid (pos : Nat) (proto : Byte) (near : pos ≤ frameLen + 2040) (ends : IsExtension proto ∨ frameLen < pos) :
      Agrees frameLen none (false, localsAt pos proto)

/-- What holds of the loop from a header on. -/
structure Sound (frame : Nat → Byte) (frameLen : BitVec 32) (pos : Nat) (proto : Byte) : Prop where
  terminates : ∃ turns, ((loop frameLen turns (localsAt pos proto)).value frame).isSome = true
  inside (turns : Nat) : (loop frameLen turns (localsAt pos proto)).Inside frame frameLen.toNat
  agrees (turns : Nat) (returned : Bool × Locals)
    (ended : (loop frameLen turns (localsAt pos proto)).value frame = some returned) :
    Agrees frameLen.toNat (Filter.ipv6Walk frame frameLen.toNat pos proto) returned

variable {frame : Nat → Byte}

/-- A turn that returns. -/
theorem sound_of_return {result : Bool}
    (turned : turn frameLen (localsAt pos proto) = pure (some result, localsAt pos proto))
    (agrees : Agrees frameLen.toNat (Filter.ipv6Walk frame frameLen.toNat pos proto) (result, localsAt pos proto)) :
    Sound frame frameLen pos proto := by
  have first (turns : Nat) :
      loop frameLen (turns + 1) (localsAt pos proto) = pure (some (result, localsAt pos proto)) := by
    rw [loop, turned]
    rfl
  constructor
  · use 1
    rw [first 0]
    rfl
  · intro turns
    cases turns with
    | zero => exact (inside_pure none).mpr trivial
    | succ turns =>
        rw [first turns]
        exact (inside_pure _).mpr trivial
  · intro turns returned ended
    cases turns with
    | zero => cases ended
    | succ turns =>
        rw [first turns] at ended
        have same : (result, localsAt pos proto) = returned := Option.some.inj ended
        rw [← same]
        exact agrees

/-- A turn that goes on behind an extension header. -/
theorem sound_of_extension (whole : pos + 8 ≤ frameLen.toNat) (kind : IsExtension proto)
    (rest : Sound frame frameLen (pos + ((frame (pos + 1)).toNat * 8 + 8)) (frame pos)) :
    Sound frame frameLen pos proto := by
  have next (turns : Nat) : loop frameLen (turns + 1) (localsAt pos proto) =
      byteAt pos >>= fun next => byteAt (pos + 1) >>= fun units =>
        loop frameLen turns (localsAt (pos + (units.toNat * 8 + 8)) next) := by
    rw [loop, turn_extension whole kind]
    rfl
  have walk : Filter.ipv6Walk frame frameLen.toNat pos proto =
      Filter.ipv6Walk frame frameLen.toNat (pos + ((frame (pos + 1)).toNat * 8 + 8)) (frame pos) := by
    have listed : proto = 0 ∨ proto = 43 ∨ proto = 60 ∨ proto = 135 := kind
    rw [Filter.ipv6Walk, if_neg (by omega), if_pos listed, if_neg (by omega)]
  constructor
  · obtain ⟨turns, ended⟩ := rest.terminates
    use turns + 1
    rw [next, value_byteAt_bind, value_byteAt_bind]
    exact ended
  · intro turns
    cases turns with
    | zero => exact (inside_pure none).mpr trivial
    | succ turns =>
        rw [next, inside_bind, inside_bind, inside_byteAt, inside_byteAt]
        exact ⟨by omega, by omega, rest.inside turns⟩
  · intro turns returned ended
    cases turns with
    | zero => cases ended
    | succ turns =>
        rw [next, value_byteAt_bind, value_byteAt_bind] at ended
        rw [walk]
        exact rest.agrees turns returned ended

/-- The words of the loop are exact where the frame is not too long, or where the chain ends inside it. -/
theorem loop_sound (near : pos ≤ frameLen.toNat + 2040)
    (positions : frameLen.toNat + 2048 ≤ 2 ^ 32 ∨
      ∃ payload, Filter.ipv6Walk frame frameLen.toNat pos proto = some payload) :
    Sound frame frameLen pos proto := by
  have small := frameLen.isLt
  induction pos, proto using Filter.ipv6Walk.induct frame frameLen.toNat with
  | case1 pos proto outside =>
      have none : Filter.ipv6Walk frame frameLen.toNat pos proto = none := by
        rw [Filter.ipv6Walk, if_pos outside]
      have short : frameLen.toNat + 2048 ≤ 2 ^ 32 := by
        rw [none] at positions
        simpa using positions
      apply sound_of_return (turn_outside (by omega) outside)
      rw [none]
      exact .invalid pos proto near (.inr outside)
  | case2 pos proto inside kind cut =>
      have none : Filter.ipv6Walk frame frameLen.toNat pos proto = none := by
        rw [Filter.ipv6Walk, if_neg inside, if_pos kind, if_pos cut]
      have short : frameLen.toNat + 2048 ≤ 2 ^ 32 := by
        rw [none] at positions
        simpa using positions
      apply sound_of_return (turn_cut (by omega) (by omega) kind cut)
      rw [none]
      exact .invalid pos proto near (.inl kind)
  | case3 pos proto inside kind whole ih =>
      have units : (frame (pos + 1)).toNat < 2 ^ 8 := (frame (pos + 1)).isLt
      rw [Filter.ipv6Walk, if_neg inside, if_pos kind, if_neg whole] at positions
      exact sound_of_extension (by omega) kind (ih (by omega) positions)
  | case4 pos proto inside other =>
      apply sound_of_return (turn_payload (by omega) other)
      rw [Filter.ipv6Walk, if_neg inside, if_neg other]
      exact .valid pos proto

end Turns

section Callers

inductive Local
  | pos
  | proto
deriving DecidableEq, Repr

def Locals.get (v : Locals) : Local → BitVec 32
  | .pos => v.pos
  | .proto => v.proto

/-- Code behind a call, as the tree of its uses of the two variables. -/
inductive Lookup (α : Type) where
  | done (value : α)
  | use (name : Local) (next : BitVec 32 → Lookup α)

namespace Lookup

variable {α β : Type}

def bind : Lookup α → (α → Lookup β) → Lookup β
  | done value, next => next value
  | use name rest, next => use name fun word => (rest word).bind next

instance : Monad Lookup where
  pure := done
  bind := bind

/-- What the code computes. -/
def value (v : Locals) : Lookup α → α
  | done value => value
  | use name next => (next (v.get name)).value v

/-- The variables that it uses, in order. -/
def uses (v : Locals) : Lookup α → List Local
  | done _ => []
  | use name next => name :: (next (v.get name)).uses v

end Lookup

def lookup (name : Local) : Lookup (BitVec 32) := .use name .done

theorem value_lookup_bind {α : Type} (v : Locals) (name : Local) (next : BitVec 32 → Lookup α) :
    (lookup name >>= next).value v = (next (v.get name)).value v := rfl

/-- TCP, UDP, SCTP and UDPLite start with their ports. -/
def StartsWithPorts (proto : BitVec 32) : Prop := proto = 0x06 ∨ proto = 0x11 ∨ proto = 0x84 ∨ proto = 0x88

instance (proto : BitVec 32) : Decidable (StartsWithPorts proto) := by
  unfold StartsWithPorts
  infer_instance

/-- `ZT_QOS_NO_FLOW` is -1. -/
abbrev noFlow : BitVec 32 := 0xffffffff

section Frames

variable (frame : Nat → Byte) (frameLen : BitVec 32)

/-- A port. -/
def port (pos : BitVec 32) : BitVec 16 := frame pos.toNat ++ frame (pos + 1).toNat

/-- `MATCH_IP_PROTOCOL` behind the call. -/
def matchIpProtocol (rule : Rule) (valid : Bool) : Lookup Bool :=
  if valid then do
    let proto ← lookup .proto
    return rule.v.ipProtocol = proto.setWidth 8
  else return rule.hardNo

/-- `MATCH_ICMP` behind the call. -/
def matchIcmp (rule : Rule) (valid : Bool) : Lookup Bool :=
  if valid then do
    let proto ← lookup .proto
    if proto = 0x3a then
      let pos ← lookup .pos
      if pos + 2 ≤ frameLen then
        if rule.v.icmpType = frame pos.toNat then
          if rule.v.icmpFlags &&& 0x01 ≠ 0 then return frame (pos + 1).toNat = rule.v.icmpCode
          else return rule.hardYes
        else return rule.hardNo
      else return rule.hardNo
    else return rule.hardNo
  else return rule.hardNo

/-- `MATCH_IP_SOURCE_PORT_RANGE` and `MATCH_IP_DEST_PORT_RANGE` behind the call. -/
def matchPortRange (rule : Rule) (dest : Bool) (valid : Bool) : Lookup Bool :=
  if valid then do
    let proto ← lookup .proto
    if StartsWithPorts proto then
      let pos ← lookup .pos
      if pos + 4 < frameLen then
        let p := port frame (if dest then pos + 2 else pos)
        return 0 < p ∧ rule.v.port0 ≤ p ∧ p ≤ rule.v.port1
      else return false
    else return false
  else return rule.hardNo

/-- The TCP flags of `MATCH_CHARACTERISTICS` behind the call. -/
def matchCharacteristics (valid : Bool) : Lookup (BitVec 64) :=
  if valid then do
    let proto ← lookup .proto
    if proto = 0x06 then
      let pos ← lookup .pos
      if pos + 14 < frameLen then
        return (frame (pos + 13).toNat).setWidth 64 |||
          ((frame (pos + 12).toNat &&& 0x0f).setWidth 64 <<< 8)
      else return 0
    else return 0
  else return 0

/-- The flow id behind the call: whether the packet is valid is not asked. -/
def flowId : Lookup (BitVec 32) := do
  let proto ← lookup .proto
  if StartsWithPorts proto then
    let pos ← lookup .pos
    if pos + 4 < frameLen then
      let srcPort := port frame pos
      let dstPort := port frame (pos + 2)
      return dstPort.setWidth 32 ^^^ srcPort.setWidth 32 ^^^ proto
    else return noFlow
  else return noFlow

end Frames

inductive Caller
  | matchIpProtocol (rule : Rule)
  | matchIcmp (rule : Rule)
  | matchPortRange (rule : Rule) (dest : Bool)
  | matchCharacteristics
  | onLocalEthernet
  | doFRAME
  | doEXT_FRAME

namespace Caller

/-- The file that the caller stands in. -/
def copy : Caller → Copy
  | matchIpProtocol _ | matchIcmp _ | matchPortRange _ _ | matchCharacteristics => .network
  | onLocalEthernet => .switch
  | doFRAME | doEXT_FRAME => .incomingPacket

/-- The frames that it calls for, as far as type and length decide. -/
def calls (etherType frameLen : BitVec 32) : Caller → Bool
  | matchIpProtocol _ | matchIcmp _ | matchPortRange _ _ | matchCharacteristics => etherType = etherTypeIpv6
  | onLocalEthernet | doFRAME | doEXT_FRAME => etherType = etherTypeIpv6 ∧ 40 ≤ frameLen

/-- What the variables may hold before the call: the flow ids begin without initial values. -/
def Declares (v : Locals) : Caller → Prop
  | matchIpProtocol _ | matchIcmp _ | matchPortRange _ _ | matchCharacteristics => v = ⟨0, 0⟩
  | onLocalEthernet | doFRAME | doEXT_FRAME => True

def Result : Caller → Type
  | matchIpProtocol _ | matchIcmp _ | matchPortRange _ _ => Bool
  | matchCharacteristics => BitVec 64
  | onLocalEthernet | doFRAME | doEXT_FRAME => BitVec 32

/-- What it does with the result of the call. -/
def after (frame : Nat → Byte) (frameLen : BitVec 32) (valid : Bool) : (caller : Caller) → Lookup caller.Result
  | matchIpProtocol rule => PayloadWalk.matchIpProtocol rule valid
  | matchIcmp rule => PayloadWalk.matchIcmp frame frameLen rule valid
  | matchPortRange rule dest => PayloadWalk.matchPortRange frame frameLen rule dest valid
  | matchCharacteristics => PayloadWalk.matchCharacteristics frame frameLen valid
  | onLocalEthernet | doFRAME | doEXT_FRAME => flowId frame frameLen

/-- Behind a call for this frame that returns false, the caller uses neither variable. -/
def Checks (caller : Caller) (frame : Nat → Byte) (frameLen : BitVec 32) : Prop :=
  ∀ etherType turns before v, caller.calls etherType frameLen = true → caller.Declares before →
    (caller.copy.ipv6GetPayload frameLen turns before).value frame = some (false, v) →
      (caller.after frame frameLen false).uses v = []

end Caller

end Callers

section Contracts

variable (frame : Nat → Byte) (frameLen : BitVec 32)

/-- What the function is relied on for. -/
structure Walks : Prop where
  terminates (copy : Copy) (before : Locals) :
    ∃ turns, ((copy.ipv6GetPayload frameLen turns before).value frame).isSome = true
  inside (copy : Copy) (turns : Nat) (before : Locals) :
    (copy.ipv6GetPayload frameLen turns before).Inside frame frameLen.toNat
  payload (copy : Copy) (turns : Nat) (before v : Locals)
    (valid : (copy.ipv6GetPayload frameLen turns before).value frame = some (true, v)) :
    40 ≤ v.pos.toNat ∧ ∃ proto : Byte, v.proto = proto.setWidth 32 ∧
      PayloadAt frame frameLen.toNat (v.pos.toNat, proto)
  copies (copy other : Copy) (turns : Nat) (before : Locals) :
    (copy.ipv6GetPayload frameLen turns before).value frame = (other.ipv6GetPayload frameLen turns before).value frame

/-- And what its callers have to do for their part. -/
structure Contract : Prop extends Walks frame frameLen where
  callers (caller : Caller) : caller.Checks frame frameLen

variable {frame frameLen}

theorem copy_ipv6GetPayload (copy : Copy) : copy.ipv6GetPayload = ipv6GetPayload := by
  cases copy <;> rfl

theorem ipv6GetPayload_short (short : frameLen < 40) (turns : Nat) (before : Locals) :
    ipv6GetPayload frameLen turns before = pure (some (false, before)) := by
  rw [ipv6GetPayload, if_pos short]

theorem ipv6GetPayload_long (long : ¬ frameLen < 40) (turns : Nat) (before : Locals) :
    ipv6GetPayload frameLen turns before =
      byteAt 6 >>= fun proto => loop frameLen turns (localsAt 40 proto) := by
  rw [ipv6GetPayload, if_neg long]
  rfl

theorem walks_of_short (short : frameLen < 40) : Walks frame frameLen where
  terminates copy before := by
    use 0
    rw [copy_ipv6GetPayload, ipv6GetPayload_short short]
    rfl
  inside copy turns before := by
    rw [copy_ipv6GetPayload, ipv6GetPayload_short short]
    exact (inside_pure _).mpr trivial
  payload copy turns before v valid := by
    rw [copy_ipv6GetPayload, ipv6GetPayload_short short] at valid
    cases valid
  copies copy other turns before := by
    rw [copy_ipv6GetPayload, copy_ipv6GetPayload]

/-- The payload that the loop finds is where the chain ends. -/
theorem payload_of_agrees {v : Locals} {pos : Nat} {proto : Byte}
    (agrees : Agrees frameLen.toNat (Filter.ipv6Walk frame frameLen.toNat pos proto) (true, v)) :
    ∃ last : Byte, v.proto = last.setWidth 32 ∧ Reaches frame (pos, proto) (v.pos.toNat, last) ∧
      v.pos.toNat ≤ frameLen.toNat := by
  generalize walk : Filter.ipv6Walk frame frameLen.toNat pos proto = found at agrees
  cases agrees with
  | valid last kind =>
      have small := frameLen.isLt
      obtain ⟨reaches, inside⟩ := (ipv6Walk_eq_some_iff frameLen.toNat pos proto (last, kind)).mp walk
      have within : last ≤ frameLen.toNat := inside
      refine ⟨kind, rfl, ?_⟩
      rw [toNat_pos (by omega)]
      exact ⟨reaches, within⟩

theorem walks_of_sound (long : ¬ frameLen < 40) (sound : Sound frame frameLen 40 (frame 6)) :
    Walks frame frameLen where
  terminates copy before := by
    obtain ⟨turns, ended⟩ := sound.terminates
    use turns
    rw [copy_ipv6GetPayload, ipv6GetPayload_long long, value_byteAt_bind]
    exact ended
  inside copy turns before := by
    rw [BitVec.lt_def] at long
    have first : 6 < frameLen.toNat := by
      change ¬ frameLen.toNat < 40 at long
      omega
    rw [copy_ipv6GetPayload, ipv6GetPayload_long long, inside_bind, inside_byteAt]
    exact ⟨first, sound.inside turns⟩
  payload copy turns before v valid := by
    rw [copy_ipv6GetPayload, ipv6GetPayload_long long, value_byteAt_bind] at valid
    obtain ⟨proto, same, reaches, inside⟩ := payload_of_agrees (sound.agrees turns (true, v) valid)
    exact ⟨reaches.le, proto, same, reaches, inside⟩
  copies copy other turns before := by
    rw [copy_ipv6GetPayload, copy_ipv6GetPayload]

/-- The loop over the whole frame. -/
theorem frame_sound (long : ¬ frameLen < 40)
    (positions : frameLen.toNat + 2048 ≤ 2 ^ 32 ∨ ∃ payload, PayloadAt frame frameLen.toNat payload) :
    Sound frame frameLen 40 (frame 6) := by
  have first : 40 ≤ frameLen.toNat := Nat.le_of_not_lt long
  apply loop_sound (by omega)
  cases positions with
  | inl short => exact .inl short
  | inr found =>
      obtain ⟨payload, found⟩ := found
      exact .inr ⟨payload, (ipv6Walk_eq_some_iff frameLen.toNat 40 (frame 6) payload).mpr found⟩

theorem walks (positions : frameLen.toNat + 2048 ≤ 2 ^ 32 ∨ ∃ payload, PayloadAt frame frameLen.toNat payload) :
    Walks frame frameLen := by
  by_cases short : frameLen < 40
  · exact walks_of_short short
  · exact walks_of_sound short (frame_sound short positions)

/-- In positions that do not go around, the copies compute what the rule engine is modelled with. -/
theorem ipv6GetPayload_eq_filter (short : frameLen.toNat + 2048 ≤ 2 ^ 32) {copy : Copy} {turns : Nat}
    {before v : Locals} {valid : Bool}
    (ended : (copy.ipv6GetPayload frameLen turns before).value frame = some (valid, v)) :
    Filter.ipv6GetPayload frame frameLen.toNat =
      if valid then some (v.pos.toNat, v.proto.setWidth 8) else none := by
  rw [copy_ipv6GetPayload] at ended
  unfold Filter.ipv6GetPayload
  by_cases small : frameLen < 40
  · have few : frameLen.toNat < 40 := small
    rw [ipv6GetPayload_short small] at ended
    cases ended
    rw [if_pos few]
    rfl
  · have enough : ¬ frameLen.toNat < 40 := small
    rw [ipv6GetPayload_long small, value_byteAt_bind] at ended
    have agrees := (frame_sound small (.inl short)).agrees turns (valid, v) ended
    rw [if_neg enough]
    generalize walk : Filter.ipv6Walk frame frameLen.toNat 40 (frame 6) = found at agrees
    cases agrees with
    | valid pos proto =>
        have inside : pos ≤ frameLen.toNat := ((ipv6Walk_eq_some_iff _ _ _ _).mp walk).2
        have same : (localsAt pos proto).proto.setWidth 8 = proto := by
          change (proto.setWidth 32).setWidth 8 = proto
          rw [BitVec.setWidth_setWidth_of_le proto (by decide), BitVec.setWidth_eq]
        rw [if_pos rfl, toNat_pos (by omega), same]
    | invalid pos proto near ends => rfl

theorem no_ports {proto : Byte} (kind : IsExtension proto) : ¬ StartsWithPorts (proto.setWidth 32) := by
  revert kind
  revert proto
  decide

/-- Behind a call that returns false there is no flow id, although the variables are used. -/
theorem flowId_of_invalid (long : ¬ frameLen < 40) (short : frameLen.toNat + 2048 ≤ 2 ^ 32) {copy : Copy}
    {turns : Nat} {before v : Locals}
    (invalid : (copy.ipv6GetPayload frameLen turns before).value frame = some (false, v)) :
    (flowId frame frameLen).value v = noFlow := by
  rw [copy_ipv6GetPayload, ipv6GetPayload_long long, value_byteAt_bind] at invalid
  have agrees := (frame_sound long (.inl short)).agrees turns (false, v) invalid
  generalize Filter.ipv6Walk frame frameLen.toNat 40 (frame 6) = found at agrees
  cases agrees with
  | invalid pos proto near ends =>
      rw [flowId, value_lookup_bind]
      cases ends with
      | inl kind =>
          have other : ¬ StartsWithPorts ((localsAt pos proto).get .proto) := by
            exact no_ports kind
          rw [if_neg other]
          rfl
      | inr outside =>
          have behind : ¬ (localsAt pos proto).get .pos + 4 < frameLen := by
            change ¬ ((localsAt pos proto).pos + 4).toNat < frameLen.toNat
            have sum : ((localsAt pos proto).pos + 4).toNat = pos + 4 := by
              rw [BitVec.toNat_add, toNat_pos (by omega)]
              exact Nat.mod_eq_of_lt (show pos + 4 < 2 ^ 32 by omega)
            omega
          split_ifs with ports
          · rw [value_lookup_bind, if_neg behind]
            rfl
          · rfl

/-- The matches of the rule engine look at the result first. -/
theorem checks_of_network (caller : Caller) (network : caller.copy = .network) : caller.Checks frame frameLen := by
  intro etherType turns before v _ _ _
  cases caller with
  | matchIpProtocol | matchIcmp | matchPortRange | matchCharacteristics => rfl
  | onLocalEthernet | doFRAME | doEXT_FRAME => cases network

/-- The flow ids use the kind of payload whatever the result is. -/
theorem flow_caller (caller : Caller) (flow : caller.copy ≠ .network) :
    (∀ etherType, caller.calls etherType frameLen = true ↔ etherType = etherTypeIpv6 ∧ 40 ≤ frameLen) ∧
      (∀ before, caller.Declares before) ∧ ∀ valid v, .proto ∈ (caller.after frame frameLen valid).uses v := by
  cases caller with
  | matchIpProtocol | matchIcmp | matchPortRange | matchCharacteristics => exact absurd rfl flow
  | onLocalEthernet | doFRAME | doEXT_FRAME =>
      exact ⟨fun _ => decide_eq_true_iff, fun _ => trivial, fun _ _ => List.mem_cons_self⟩

/-- They keep their part only where no call returns false. -/
theorem checks_iff (caller : Caller) (flow : caller.copy ≠ .network) :
    caller.Checks frame frameLen ↔
      (¬ frameLen < 40 → ∀ turns before v, (ipv6GetPayload frameLen turns before).value frame ≠ some (false, v)) := by
  obtain ⟨calls, declares, uses⟩ := @flow_caller frame frameLen caller flow
  unfold Caller.Checks
  rw [copy_ipv6GetPayload]
  constructor
  · intro checks long turns before v invalid
    have called : caller.calls etherTypeIpv6 frameLen = true := (calls etherTypeIpv6).mpr ⟨rfl, BitVec.not_lt.mp long⟩
    have used : .proto ∈ (caller.after frame frameLen false).uses v := uses false v
    rw [checks etherTypeIpv6 turns before v called (declares before) invalid] at used
    cases used
  · intro never etherType turns before v called _ invalid
    have long : ¬ frameLen < 40 := BitVec.not_lt.mpr ((calls etherType).mp called).2
    exact absurd invalid (never long turns before v)

/-- Where the payload is inside the frame, the call returns true. -/
theorem not_invalid {payload : Nat × Byte} (found : PayloadAt frame frameLen.toNat payload) (long : ¬ frameLen < 40)
    (turns : Nat) (before v : Locals) : (ipv6GetPayload frameLen turns before).value frame ≠ some (false, v) := by
  intro invalid
  rw [ipv6GetPayload_long long, value_byteAt_bind] at invalid
  have agrees := (frame_sound long (.inr ⟨payload, found⟩)).agrees turns (false, v) invalid
  rw [(ipv6Walk_eq_some_iff frameLen.toNat 40 (frame 6) payload).mpr found] at agrees
  cases agrees

variable (frame frameLen)

/-- `_ipv6GetPayload` and its callers do what they should for the frames that are too short to be
looked at, and for those whose extension headers end inside the frame. The function itself does so
up to lengths where positions go around. -/
theorem payload_walk :
    (Contract frame frameLen ↔ frameLen < 40 ∨ ∃ payload, PayloadAt frame frameLen.toNat payload) ∧
      (frameLen.toNat + 2048 ≤ 2 ^ 32 → Walks frame frameLen) := by
  constructor
  · constructor
    · intro contract
      by_cases short : frameLen < 40
      · exact .inl short
      · obtain ⟨turns, ended⟩ := contract.terminates .switch ⟨0, 0⟩
        obtain ⟨⟨valid, v⟩, returned⟩ := Option.isSome_iff_exists.mp ended
        cases valid with
        | true =>
            obtain ⟨_, proto, _, found⟩ := contract.payload .switch turns ⟨0, 0⟩ v returned
            exact .inr ⟨_, found⟩
        | false =>
            have never := (checks_iff .onLocalEthernet (by decide)).mp (contract.callers .onLocalEthernet) short
            exact absurd returned (never turns ⟨0, 0⟩ v)
    · intro condition
      constructor
      · cases condition with
        | inl short => exact walks_of_short short
        | inr found => exact walks (.inr found)
      · intro caller
        by_cases network : caller.copy = .network
        · exact checks_of_network caller network
        · rw [checks_iff caller network]
          intro long
          cases condition with
          | inl short => exact absurd short long
          | inr found =>
              obtain ⟨payload, found⟩ := found
              exact not_invalid found long
  · intro short
    exact walks (.inl short)

/-- A frame that ends inside its hop-by-hop options, behind which TCP should come. -/
def overrun : Nat → Byte := fun i =>
  if i = 0 then 0x60 else if i = 40 then 0x06 else if i = 41 then 0xff else 0

/-- The walk returns false for it, and the flow id uses the kind of the header outside. -/
theorem overrun_used : ¬ Contract overrun 48 := by
  intro contract
  have invalid : (Copy.switch.ipv6GetPayload 48 2 ⟨0, 0⟩).value overrun = some (false, ⟨2088, 6⟩) := by decide
  have unused := contract.callers .onLocalEthernet etherTypeIpv6 2 ⟨0, 0⟩ ⟨2088, 6⟩ (by decide) trivial invalid
  cases unused

end Contracts

end ZeroTierNode.PayloadWalk

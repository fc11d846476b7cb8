import ZeroTierNode.Library.Hex
import ZeroTierNode.Library.Runs
import ZeroTierNode.Library.Slots
import ZeroTierNode.NetworkConfig

/-!
The state stores of the two ports, both on top of NVS. NVS is taken as a map from
key strings to blobs, a name space that was never opened for writing as an empty
one. `zt_storage_esp` writes the object type and the low 32 bits of the id into its
keys and answers for missing identities with an embedded one; the QEMU wrapper
persists four types, three of them under fixed keys, and ignores deletions.
-/

namespace ZeroTierNode
open Library.Bytes Library.Slots

/-- `ZT_StateObjectType`. -/
inductive StateObjectType
  | null | identityPublic | identitySecret | planet | moon | peer | networkConfig
deriving DecidableEq, Repr

/-- The value of the enumeration. -/
def StateObjectType.toInt : StateObjectType → Nat
  | null => 0 | identityPublic => 1 | identitySecret => 2 | planet => 3 | moon => 4 | peer => 5
  | networkConfig => 6

/-- What a state object is asked for by: its type and the two words of `id`. -/
@[ext] structure StateObject where
  type : StateObjectType
  id : BitVec 64 × BitVec 64
deriving DecidableEq, Repr

/-- The contents of one NVS name space. -/
abbrev Nvs := List Byte → Option (List Byte)

namespace Nvs

def empty : Nvs := fun _ => none

def setBlob (nvs : Nvs) (key data : List Byte) : Nvs := Function.update nvs key (some data)

def eraseKey (nvs : Nvs) (key : List Byte) : Nvs := Function.update nvs key none

/-- `nvs_get_blob` fails when the key is missing and when the blob is longer than the buffer. -/
def getBlob (nvs : Nvs) (key : List Byte) (maxlen : Nat) : Option (List Byte) :=
  (nvs key).filter fun blob => blob.length ≤ maxlen

end Nvs

/-- `snprintf` into a buffer of the size keeps one byte for the terminating zero. -/
def snprintf (size : Nat) (text : List Byte) : List Byte := text.take (size - 1)

namespace Esp

/-- `make_key`, format `zt%d_%08x`: a type has one digit, and the conversion to `unsigned` keeps 32 bits of the id. -/
def makeKey (object : StateObject) : List Byte :=
  snprintf 16 (ascii "zt" ++ Library.Hex.digits 1 object.type.toInt ++ ascii "_" ++
    Library.Hex.digits 8 (object.id.1.setWidth 32).toNat)

/-- `ZT_TEST_PUBLIC`, the text `df429581f6:0:` with the digits of the public key. -/
def testPublic : List Byte :=
  ascii "df429581f6:0:" ++ Library.Hex.digits 128
    0x4951208caea03ceea21857eaae33a5d45e0f38cd30df9f64de8ea4d1b2ecb547e272188d5f1f7588e3698ecfaf7ac20751d0f184138c0487fb79ac56a5175c09

/-- `ZT_TEST_SECRET`, the same with the private key behind it. -/
def testSecret : List Byte :=
  testPublic ++ ascii ":" ++ Library.Hex.digits 128
    0xc908b106c6b0b77df781072e068c450555bed04a3a185b40b44c8c2e4124e6e6510b3d1876753a7a65c18f0ff04abac5592d8b75bb92ccc43bb55429190d5d3e

/-- `zt_state_put_impl`; no data stand for a negative length. -/
def ztStatePutImpl (nvs : Nvs) (object : StateObject) : Option (List Byte) → Nvs
  | none => nvs.eraseKey (makeKey object)
  | some data => nvs.setBlob (makeKey object) data

/-- The answer of `zt_state_get_impl` where NVS has none. -/
def fallback (type : StateObjectType) (maxlen : Nat) : Option (List Byte) :=
  if type = .identitySecret ∧ testSecret.length < maxlen then some testSecret
  else if type = .identityPublic ∧ testPublic.length < maxlen then some testPublic
  else none

/-- `zt_state_get_impl`; none stands for -1. -/
def ztStateGetImpl (nvs : Nvs) (object : StateObject) (maxlen : Nat) : Option (List Byte) :=
  match nvs.getBlob (makeKey object) maxlen with
  | some data => some data
  | none => fallback object.type maxlen

end Esp

namespace Qemu

/-- The key of a type that is persisted. -/
def key (object : StateObject) : Option (List Byte) :=
  match object.type with
  | .identitySecret => some (snprintf 16 (ascii "id_sec"))
  | .identityPublic => some (snprintf 16 (ascii "id_pub"))
  | .planet => some (snprintf 16 (ascii "planet"))
  | .peer => some (snprintf 16 (ascii "p_" ++ Library.Hex.digits 8 (object.id.1 &&& 0xffffffff).toNat))
  | .null => none
  | .moon => none
  | .networkConfig => none

/-- `zt_state_put`; no data stand for a negative length. -/
def ztStatePut (nvs : Nvs) (object : StateObject) : Option (List Byte) → Nvs
  | none => nvs
  | some data =>
      match key object with
      | some key => nvs.setBlob key data
      | none => nvs

/-- `zt_state_get`; none stands for -1. -/
def ztStateGet (nvs : Nvs) (object : StateObject) (maxlen : Nat) : Option (List Byte) :=
  match key object with
  | some key => nvs.getBlob key maxlen
  | none => none

end Qemu

/-- The two ports. -/
inductive Port
  | esp | qemu
deriving DecidableEq, Repr

namespace Port

def put : Port → Nvs → StateObject → Option (List Byte) → Nvs
  | esp => Esp.ztStatePutImpl
  | qemu => Qemu.ztStatePut

def get : Port → Nvs → StateObject → Nat → Option (List Byte)
  | esp => Esp.ztStateGetImpl
  | qemu => Qemu.ztStateGet

end Port

namespace StateStore

/-- A call of the node; a put without data deletes. -/
inductive Call
  | put (object : StateObject) (data : Option (List Byte))
  | get (object : StateObject) (maxlen : Nat)
deriving DecidableEq, Repr

def Call.write : Call → Option (Write StateObject (List Byte))
  | put object data => some ⟨object, data⟩
  | get _ _ => none

def writes (calls : List Call) : List (Write StateObject (List Byte)) := calls.filterMap Call.write

def step (port : Port) (nvs : Nvs) : Call → Nvs
  | .put object data => port.put nvs object data
  | .get _ _ => nvs

/-- The store after calls on an erased partition. -/
def after (port : Port) (calls : List Call) : Nvs := Library.Runs.run (step port) Nvs.empty calls

/-- The store that is asked for: the bytes of the last put for the type and the whole id, unless the object was
deleted since. -/
def kept (calls : List Call) (object : StateObject) : Option (List Byte) :=
  lastWrite (fun other => other = object) (writes calls)

end StateStore

/-- The part of an id that gets into a key. -/
def StateObject.low (object : StateObject) : BitVec 32 := object.id.1.setWidth 32

namespace Esp

theorem makeKey_eq (object : StateObject) :
    makeKey object = ascii "zt" ++ (Library.Hex.digits 1 object.type.toInt ++
      (ascii "_" ++ Library.Hex.digits 8 object.low.toNat)) := by
  rw [makeKey, snprintf, List.append_assoc, List.append_assoc]
  apply List.take_of_length_le
  simp [ascii]

/-- Two objects have one key exactly if they agree in the type and the low 32 bits of the id. -/
theorem makeKey_eq_iff (one other : StateObject) :
    makeKey one = makeKey other ↔ one.type = other.type ∧ one.low = other.low := by
  have small (type : StateObjectType) : type.toInt < 16 ^ 1 := by cases type <;> decide
  have types : one.type.toInt = other.type.toInt ↔ one.type = other.type := by
    cases one.type <;> cases other.type <;> decide
  rw [makeKey_eq, makeKey_eq, List.append_cancel_left_eq]
  constructor
  · intro same
    obtain ⟨type, rest⟩ := List.append_inj same (by simp)
    rw [List.append_cancel_left_eq] at rest
    exact ⟨types.mp ((Library.Hex.digits_inj (small _) (small _)).mp type),
      BitVec.eq_of_toNat_eq ((Library.Hex.digits_inj one.low.isLt other.low.isLt).mp rest)⟩
  · rintro ⟨type, low⟩
    rw [type, low]

theorem ztStatePutImpl_eq (nvs : Nvs) (object : StateObject) (data : Option (List Byte)) :
    ztStatePutImpl nvs object data = write makeKey nvs ⟨object, data⟩ := by
  cases data with
  | none => rfl
  | some data => rfl

/-- The storage after the calls is that of their writes. -/
theorem after_eq (calls : List StateStore.Call) :
    StateStore.after .esp calls = (StateStore.writes calls).foldl (write makeKey) Nvs.empty := by
  have general (nvs : Nvs) : Library.Runs.run (StateStore.step .esp) nvs calls =
      (StateStore.writes calls).foldl (write makeKey) nvs := by
    induction calls generalizing nvs with
    | nil => rfl
    | cons call calls ih =>
        cases call with
        | put object data =>
            rw [Library.Runs.run_cons, ih]
            change _ = (StateStore.writes calls).foldl (write makeKey) (write makeKey nvs ⟨object, data⟩)
            rw [← ztStatePutImpl_eq]
            rfl
        | get object maxlen => exact ih nvs
  exact general Nvs.empty

end Esp

namespace Qemu

theorem low_toNat (object : StateObject) : (object.id.1 &&& 0xffffffff).toNat = object.low.toNat := by
  rw [BitVec.toNat_and, StateObject.low, BitVec.toNat_setWidth]
  exact Nat.and_two_pow_sub_one_eq_mod object.id.1.toNat 32

theorem key_peer {object : StateObject} (peer : object.type = .peer) :
    key object = some (ascii "p_" ++ Library.Hex.digits 8 object.low.toNat) := by
  rw [key, peer]
  dsimp only
  rw [low_toNat, snprintf, List.take_of_length_le (by simp [ascii])]

theorem key_fixed {object : StateObject} (other : object.type ≠ .peer) : key object = key ⟨object.type, (0, 0)⟩ := by
  unfold key
  cases type : object.type with
  | peer => exact absurd type other
  | _ => rfl

theorem fixed_length : ∀ type : StateObjectType, type ≠ .peer → ∀ text ∈ key ⟨type, (0, 0)⟩, text.length = 6 := by
  intro type
  cases type <;> decide

theorem fixed_apart : ∀ one other : StateObjectType, one ≠ .peer → other ≠ .peer →
    (key ⟨other, (0, 0)⟩).isSome → key ⟨one, (0, 0)⟩ = key ⟨other, (0, 0)⟩ → one = other := by
  intro one other
  cases one <;> cases other <;> decide

/-- Two objects that are persisted have one key exactly if their type is the same and, for peers, the low 32 bits
of the id. -/
theorem key_eq_iff {one other : StateObject} (persisted : (key other).isSome) :
    key one = key other ↔ one.type = other.type ∧ (other.type = .peer → one.low = other.low) := by
  have apart {peer fixed : StateObject} (first : peer.type = .peer) (second : fixed.type ≠ .peer) :
      key peer ≠ key fixed := by
    intro same
    rw [key_peer first, key_fixed second] at same
    have short := fixed_length _ second _ same.symm
    simp [ascii] at short
  by_cases first : one.type = .peer
  · by_cases second : other.type = .peer
    · rw [key_peer first, key_peer second, Option.some_inj, List.append_cancel_left_eq,
        Library.Hex.digits_inj one.low.isLt other.low.isLt, ← BitVec.toNat_inj]
      exact ⟨fun low => ⟨first.trans second.symm, fun _ => low⟩, fun both => both.2 second⟩
    · exact iff_of_false (apart first second) (fun both => second (both.1.symm.trans first))
  · by_cases second : other.type = .peer
    · exact iff_of_false (fun same => apart second first same.symm) (fun both => first (both.1.trans second))
    · constructor
      · intro same
        rw [key_fixed second] at persisted
        rw [key_fixed first, key_fixed second] at same
        exact ⟨fixed_apart _ _ first second persisted same, fun peer => absurd peer second⟩
      · rintro ⟨type, -⟩
        rw [key_fixed first, key_fixed second, type]

/-- Whether two names mean one object to the wrapper, by its design: there is one identity and one planet, whatever
the id. -/
def alike (object other : StateObject) : Bool :=
  other.type = object.type ∧ (object.type = .peer → other.id = object.id)

/-- A slot holds what the last put into it left; deletions are not carried out. -/
theorem after_eq (calls : List StateStore.Call) (k : List Byte)
    (undeleted : ∀ w ∈ StateStore.writes calls, key w.name = some k → w.contents.isSome) :
    StateStore.after .qemu calls k = lastWrite (fun other => key other = some k) (StateStore.writes calls) := by
  induction calls using List.reverseRecOn with
  | nil => rfl
  | append_singleton calls call ih =>
      have all : StateStore.writes (calls ++ [call]) = StateStore.writes calls ++ call.write.toList := by
        rw [StateStore.writes, StateStore.writes, List.filterMap_append]
        cases call <;> rfl
      rw [all] at undeleted ⊢
      specialize ih (fun w member => undeleted w (List.mem_append_left _ member))
      have last : StateStore.after .qemu (calls ++ [call]) =
          StateStore.step .qemu (StateStore.after .qemu calls) call := by
        rw [StateStore.after, Library.Runs.run_append]
        rfl
      rw [last]
      cases call with
      | get object maxlen =>
          change StateStore.after .qemu calls k = lastWrite _ (StateStore.writes calls ++ [])
          rw [List.append_nil, ih]
      | put object data =>
          change ztStatePut (StateStore.after .qemu calls) object data k =
            lastWrite _ (StateStore.writes calls ++ [⟨object, data⟩])
          rw [lastWrite_concat, ← ih]
          by_cases here : key object = some k
          · have present := undeleted ⟨object, data⟩ (List.mem_append_right _ (List.mem_singleton.mpr rfl)) here
            obtain ⟨blob, rfl⟩ := Option.isSome_iff_exists.mp present
            rw [if_pos (decide_eq_true here), ztStatePut, here]
            exact Function.update_self ..
          · rw [if_neg (by simpa using here)]
            cases data with
            | none => rfl
            | some blob =>
                rw [ztStatePut]
                cases found : key object with
                | none => rfl
                | some other =>
                    rw [found] at here
                    exact Function.update_of_ne (fun same => here (congrArg some same.symm)) ..

end Qemu

namespace StateStore

/-- Of the objects that the calls put or delete, only the given one has its type and the low 32 bits of its id. -/
def Alone (calls : List Call) (object : StateObject) : Prop :=
  ∀ w ∈ writes calls, w.name.type = object.type → w.name.low = object.low → w.name.id = object.id

theorem esp_get {calls : List Call} {object : StateObject} (alone : Alone calls object) (maxlen : Nat) :
    Port.esp.get (after .esp calls) object maxlen =
      ((kept calls object).filter fun blob => blob.length ≤ maxlen).or (Esp.fallback object.type maxlen) := by
  have slot : after .esp calls (Esp.makeKey object) = kept calls object := by
    rw [Esp.after_eq]
    apply foldl_write_alone
    intro w member same
    obtain ⟨types, low⟩ := (Esp.makeKey_eq_iff _ _).mp same
    exact StateObject.ext types (alone w member types low)
  change (match (after .esp calls (Esp.makeKey object)).filter _ with
    | some data => some data
    | none => Esp.fallback object.type maxlen) = _
  rw [slot]
  cases (kept calls object).filter fun blob => blob.length ≤ maxlen with
  | none => rfl
  | some data => rfl

theorem qemu_get {calls : List Call} {object : StateObject} (alone : Alone calls object)
    (persisted : (Qemu.key object).isSome)
    (undeleted : ∀ w ∈ writes calls, Qemu.alike object w.name → w.contents.isSome) (maxlen : Nat) :
    Port.qemu.get (after .qemu calls) object maxlen =
      (lastWrite (Qemu.alike object) (writes calls)).filter fun blob => blob.length ≤ maxlen := by
  obtain ⟨k, found⟩ := Option.isSome_iff_exists.mp persisted
  have same : ∀ w ∈ writes calls, decide (Qemu.key w.name = some k) = Qemu.alike object w.name := by
    intro w member
    rw [← found, Qemu.alike, decide_eq_decide, Qemu.key_eq_iff persisted]
    apply and_congr_right
    intro type
    apply imp_congr_right
    intro _
    exact ⟨alone w member type, fun ids => by rw [StateObject.low, StateObject.low, ids]⟩
  have slot : after .qemu calls k = lastWrite (Qemu.alike object) (writes calls) := by
    rw [Qemu.after_eq calls k, lastWrite_congr same]
    intro w member here
    exact undeleted w member ((same w member).symm.trans (decide_eq_true here))
  change Qemu.ztStateGet _ _ _ = _
  rw [Qemu.ztStateGet, found, ← slot]
  rfl

/-- A state object is read back as it was last put, in either port, as long as no other object in use has its type
and the low 32 bits of its id: these alone decide which objects share storage. What is missing or does not fit is
-1, except that the first port answers for identities with the embedded one. The wrapper has one identity and one
planet, whatever the id, and is not asked to delete here. -/
theorem objects_read_back (calls : List Call) (object : StateObject) (alone : Alone calls object) (maxlen : Nat) :
    Port.esp.get (after .esp calls) object maxlen =
        ((kept calls object).filter fun blob => blob.length ≤ maxlen).or (Esp.fallback object.type maxlen) ∧
      (∀ other, Esp.makeKey other = Esp.makeKey object ↔ other.type = object.type ∧ other.low = object.low) ∧
      ((Qemu.key object).isSome → (∀ w ∈ writes calls, Qemu.alike object w.name → w.contents.isSome) →
        Port.qemu.get (after .qemu calls) object maxlen =
          (lastWrite (Qemu.alike object) (writes calls)).filter fun blob => blob.length ≤ maxlen) ∧
      ((Qemu.key object).isSome → ∀ other, Qemu.key other = Qemu.key object ↔
        other.type = object.type ∧ (object.type = .peer → other.low = object.low)) :=
  ⟨esp_get alone maxlen, fun other => Esp.makeKey_eq_iff other object,
    fun persisted undeleted => qemu_get alone persisted undeleted maxlen,
    fun persisted _ => Qemu.key_eq_iff persisted⟩

/-- A planet and two peers whose ids differ in the low half. -/
def planetAndPeers : List Call :=
  [.put ⟨.planet, (149604618, 0)⟩ (some [9]), .put ⟨.peer, (0x11deadbeef, 0)⟩ (some [1]),
    .put ⟨.peer, (0x22deadbee0, 0)⟩ (some [2]), .get ⟨.peer, (0x11deadbeef, 0)⟩ 600]

theorem first_peer_read_back :
    Alone planetAndPeers ⟨.peer, (0x11deadbeef, 0)⟩ ∧
      Port.esp.get (after .esp planetAndPeers) ⟨.peer, (0x11deadbeef, 0)⟩ 600 = some [1] ∧
      Port.qemu.get (after .qemu planetAndPeers) ⟨.peer, (0x11deadbeef, 0)⟩ 600 = some [1] := by
  have alone : Alone planetAndPeers ⟨.peer, (0x11deadbeef, 0)⟩ := by
    unfold Alone
    decide
  obtain ⟨esp, -, qemu, -⟩ := objects_read_back planetAndPeers ⟨.peer, (0x11deadbeef, 0)⟩ alone 600
  refine ⟨alone, esp.trans (by decide), (qemu (by decide) ?_).trans (by decide)⟩
  decide

/-- Two peers whose 40-bit addresses differ in the upper 8 bits only overwrite each other in both ports, and a secret
identity that was never put is not missing. -/
theorem peers_share_storage :
    let calls := [Call.put ⟨.peer, (0x11deadbeef, 0)⟩ (some [1]), Call.put ⟨.peer, (0x22deadbeef, 0)⟩ (some [2])]
    kept calls ⟨.peer, (0x11deadbeef, 0)⟩ = some [1] ∧
      Port.esp.get (after .esp calls) ⟨.peer, (0x11deadbeef, 0)⟩ 600 = some [2] ∧
      Port.qemu.get (after .qemu calls) ⟨.peer, (0x11deadbeef, 0)⟩ 600 = some [2] ∧
      kept calls ⟨.identitySecret, (0, 0)⟩ = none ∧
      Port.esp.get (after .esp calls) ⟨.identitySecret, (0, 0)⟩ 2047 = some Esp.testSecret := by
  decide +kernel

end StateStore

end ZeroTierNode

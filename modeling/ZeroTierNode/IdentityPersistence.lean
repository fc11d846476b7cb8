import ZeroTierNode.Dictionary
import ZeroTierNode.StateStore

/-!
The identity of a node across restarts. The constructor of `Node` asks the store
for a secret identity with the id 0, and makes and puts one under the address of
the new identity when there is none. On `zt_storage_esp` these are two different
keys, unless the low half of the address is zero, and the store always answers:
what was put is passed by for the embedded test identity.
-/

namespace ZeroTierNode
open Library.Bytes Library.Runs

/-- Reserved are the nil address and the prefix `0xff`. -/
def Address.isReserved (a : Address) : Bool := a = 0 ∨ a >>> 32 = 0xff

/-- An identity with its private key, if it has one. -/
structure SecretIdentity where
  identity : Identity
  privateKey : Option (BitVec 512)
deriving DecidableEq, Repr

/-- `Identity::locallyValidate`, with the memory-hard hash of the public key: `digest[0]` is below 17, and the last
five bytes are the address. -/
def Identity.locallyValidate (hash : BitVec 512 → BitVec 512) (identity : Identity) : Bool :=
  ¬ identity.address.isReserved ∧ hash identity.publicKey >>> 504 < 17 ∧
    (hash identity.publicKey).setWidth 40 = identity.address

namespace SecretIdentity

/-- The private key behind the last colon. -/
def privateText (includePrivate : Bool) : Option (BitVec 512) → List Byte
  | some key => if includePrivate then ascii ":" ++ Library.Hex.hex (wordBytes 64 key) else []
  | none => []

/-- `Identity::toString`. -/
def toString (includePrivate : Bool) (id : SecretIdentity) : List Byte :=
  Library.Hex.digits 10 id.identity.address.toNat ++ ascii ":0:" ++
    Library.Hex.hex (wordBytes 64 id.identity.publicKey) ++ privateText includePrivate id.privateKey

/-- The tokens that `strtok_r` finds between colons. -/
def tokens (str : List Byte) : List (List Byte) := (str.splitOn 0x3a).filter fun token => token ≠ []

/-- A key of 64 bytes. -/
def readKey (f : List Byte) : Option (BitVec 512) :=
  let bytes := Library.Hex.unhex 64 f
  if bytes.length = 64 then some (wordOf 512 bytes) else none

/-- The first three fields: address, type and public key. -/
def readPublic (address type publicKey : List Byte) : Option Identity := do
  let a := Address.ofInt (Library.Hex.strtoull address)
  if a.isReserved ∨ type ≠ ascii "0" then none
  else do
    let key ← readKey publicKey
    return ⟨a, key⟩

/-- `Identity::fromString`; the text has to fit a buffer of 384 bytes with its terminating zero. -/
def fromString (str : List Byte) : Option SecretIdentity :=
  if 384 ≤ str.length then none
  else
    match tokens str with
    | [address, type, publicKey] => do
        let identity ← readPublic address type publicKey
        return ⟨identity, none⟩
    | [address, type, publicKey, privateKey] => do
        let identity ← readPublic address type publicKey
        let key ← readKey privateKey
        return ⟨identity, some key⟩
    | _ => none

/-- What `Identity::generate` makes: an identity with its private key and the address that its hash gives. -/
def Generated (hash : BitVec 512 → BitVec 512) (id : SecretIdentity) : Prop :=
  id.privateKey.isSome ∧ id.identity.locallyValidate hash

end SecretIdentity

namespace Node

/-- A state object named by an address. -/
def objectOf (type : StateObjectType) (address : Address) : StateObject := ⟨type, (address.toInt, 0)⟩

/-- Both halves of a new identity are put under its address. -/
def putIdentity (port : Port) (nvs : Nvs) (id : SecretIdentity) : Nvs :=
  let nvs := port.put nvs (objectOf .identitySecret id.identity.address) (some (id.toString true))
  port.put nvs (objectOf .identityPublic id.identity.address) (some (id.toString false))

/-- The public identity of a loaded one is put when the stored one differs; `rest` is what the buffer of 384 bytes
holds behind the string that it is compared with. -/
def refreshPublic (port : Port) (rest : List Byte) (nvs : Nvs) (id : SecretIdentity) : Nvs :=
  match port.get nvs (objectOf .identityPublic id.identity.address) 2047 with
  | some tmp =>
      if tmp ≠ [] ∧ tmp.length < 384 ∧ tmp ≠ (id.toString false ++ 0 :: rest).take tmp.length then
        port.put nvs (objectOf .identityPublic id.identity.address) (some (id.toString false))
      else nvs
  | none => nvs

/-- `Node::Node`, as far as the identity goes: the identity, unless the constructor throws, and the store. -/
def construct (port : Port) (hash : BitVec 512 → BitVec 512) (generated : SecretIdentity) (rest : List Byte)
    (nvs : Nvs) : Option SecretIdentity × Nvs :=
  match (port.get nvs ⟨.identitySecret, (0, 0)⟩ 2047).getD [] with
  | [] => (some generated, putIdentity port nvs generated)
  | c :: tmp =>
      match SecretIdentity.fromString (cString (c :: tmp)) with
      | none => (none, nvs)
      | some id =>
          if id.identity.locallyValidate hash then (some id, refreshPublic port rest nvs id) else (none, nvs)

/-- The store answers the constructor with the embedded identity. -/
def UsesEmbedded (nvs : Nvs) : Prop := nvs.getBlob (Esp.makeKey ⟨.identitySecret, (0, 0)⟩) 2047 = none

/-- A construction takes the identity, and takes it from what was put. -/
def Loads (hash : BitVec 512 → BitVec 512) (generated : SecretIdentity) (rest : List Byte) (nvs : Nvs)
    (id : SecretIdentity) : Prop :=
  (construct .esp hash generated rest nvs).1 = some id ∧ ¬ UsesEmbedded nvs

/-- What happens to a store: a node puts the identity that it generated, a node is constructed, or an object is put,
deleted or read. -/
inductive StoreEvent
  | generated (id : SecretIdentity)
  | constructed (generated : SecretIdentity) (rest : List Byte)
  | called (call : StateStore.Call)

/-- Secret identities are not put or deleted in other ways than by the constructor. -/
def StoreEvent.Proper : StoreEvent → Prop
  | generated _ => True
  | constructed _ _ => True
  | called call => ∀ w ∈ call.write, w.name.type ≠ .identitySecret

def StoreEvent.isGenerated : StoreEvent → Bool
  | generated _ => true
  | constructed _ _ => false
  | called _ => false

def storeStep (hash : BitVec 512 → BitVec 512) (nvs : Nvs) : StoreEvent → Nvs
  | .generated id => putIdentity .esp nvs id
  | .constructed generated rest => (construct .esp hash generated rest nvs).2
  | .called call => StateStore.step .esp nvs call

end Node

namespace SecretIdentity

section Text
open Library.Hex

theorem not_mem_digits {count value : Nat} {c : Byte} (other : digitValue c = none) : c ∉ digits count value := by
  intro found
  obtain ⟨d, digit⟩ := mem_digits found
  rw [other] at digit
  cases digit

theorem not_mem_hex {bytes : List Byte} {c : Byte} (other : digitValue c = none) : c ∉ hex bytes := by
  intro found
  obtain ⟨d, digit⟩ := mem_hex found
  rw [other] at digit
  cases digit

theorem readKey_hex (key : BitVec 512) : readKey (hex (wordBytes 64 key)) = some key := by
  have bytes : unhex 64 (hex (wordBytes 64 key)) = wordBytes 64 key := by
    simpa using unhex_hex (wordBytes 64 key)
  rw [readKey]
  rw [bytes, if_pos (wordBytes_length 64 key), wordOf_wordBytes 64 key (by decide)]

theorem readPublic_text (identity : Identity) :
    readPublic (digits 10 identity.address.toNat) (ascii "0") (hex (wordBytes 64 identity.publicKey)) =
      if identity.address.isReserved then none else some identity := by
  have address : Address.ofInt (strtoull (digits 10 identity.address.toNat)) = identity.address := by
    rw [strtoull_digits 10 identity.address (by decide) (by decide), Address.ofInt]
    exact BitVec.setWidth_setWidth_of_le _ (by decide) |>.trans (BitVec.setWidth_eq _)
  rw [readPublic]
  rw [address, readKey_hex]
  by_cases reserved : identity.address.isReserved
  · rw [if_pos (Or.inl reserved), if_pos reserved]
  · rw [if_neg (by simpa using reserved), if_neg reserved]
    rfl

/-- The fields of the text, which have no colons in them. -/
theorem tokens_toString (id : SecretIdentity) :
    tokens (id.toString true) =
      [digits 10 id.identity.address.toNat, ascii "0", hex (wordBytes 64 id.identity.publicKey)] ++
        id.privateKey.toList.map (fun key => hex (wordBytes 64 key)) := by
  have colon : digitValue 0x3a = none := by decide
  have start (rest : List Byte) :
      (digits 10 id.identity.address.toNat ++ (0x3a :: ([0x30] ++ 0x3a :: rest))).splitOn 0x3a =
        digits 10 id.identity.address.toNat :: [0x30] :: rest.splitOn 0x3a := by
    rw [List.splitOn_append_cons_self_of_not_mem (not_mem_digits colon),
      List.splitOn_append_cons_self_of_not_mem (by decide)]
  have filled (count : Nat) (positive : 0 < count) (value : Nat) : digits count value ≠ [] := by
    intro empty
    have length := digits_length count value
    rw [empty] at length
    exact absurd length (Nat.ne_of_lt positive)
  have filledKey (key : BitVec 512) : hex (wordBytes 64 key) ≠ [] := by
    intro empty
    have length := hex_length (wordBytes 64 key)
    rw [empty, wordBytes_length] at length
    exact absurd length (by decide)
  cases secret : id.privateKey with
  | none =>
      have shape : id.toString true = digits 10 id.identity.address.toNat ++
          (0x3a :: ([0x30] ++ 0x3a :: hex (wordBytes 64 id.identity.publicKey))) := by
        simp [toString, secret, privateText, ascii]
      rw [tokens, shape, start, List.splitOn_eq_singleton (not_mem_hex colon)]
      simp [filled, filledKey, ascii]
  | some key =>
      have shape : id.toString true = digits 10 id.identity.address.toNat ++
          (0x3a :: ([0x30] ++ 0x3a :: (hex (wordBytes 64 id.identity.publicKey) ++
            0x3a :: hex (wordBytes 64 key)))) := by
        simp [toString, secret, privateText, ascii]
      rw [tokens, shape, start, List.splitOn_append_cons_self_of_not_mem (not_mem_hex colon),
        List.splitOn_eq_singleton (not_mem_hex colon)]
      simp [filled, filledKey, ascii]

theorem toString_length (id : SecretIdentity) : (id.toString true).length < 384 ∧ id.toString true ≠ [] := by
  have total : (id.toString true).length = 141 + (privateText true id.privateKey).length := by
    simp [toString, ascii]
    omega
  have key : (privateText true id.privateKey).length ≤ 129 := by
    cases id.privateKey with
    | none => decide
    | some key => simp [privateText, ascii]
  refine ⟨by omega, ?_⟩
  intro empty
  rw [empty] at total
  rw [List.length_nil] at total
  omega

/-- A text that `toString` wrote is read back, unless the address is reserved. -/
theorem fromString_toString (id : SecretIdentity) :
    fromString (id.toString true) = if id.identity.address.isReserved then none else some id := by
  rw [fromString, if_neg (Nat.not_le.mpr (toString_length id).1), tokens_toString]
  obtain ⟨identity, privateKey⟩ := id
  cases privateKey with
  | none =>
      change (do
        let identity ← readPublic (digits 10 identity.address.toNat) (ascii "0") (hex (wordBytes 64 identity.publicKey))
        return (⟨identity, none⟩ : SecretIdentity)) = _
      rw [readPublic_text]
      dsimp only
      split <;> rfl
  | some key =>
      change (do
        let identity ← readPublic (digits 10 identity.address.toNat) (ascii "0") (hex (wordBytes 64 identity.publicKey))
        let key ← readKey (hex (wordBytes 64 key))
        return (⟨identity, some key⟩ : SecretIdentity)) = _
      rw [readPublic_text, readKey_hex]
      dsimp only
      split <;> rfl

theorem cString_toString (id : SecretIdentity) : cString (id.toString true) = id.toString true := by
  apply Dictionary.cString_of_not_mem
  have zero : digitValue 0 = none := by decide
  have secret : (0 : Byte) ∉ privateText true id.privateKey := by
    cases id.privateKey with
    | none => exact List.not_mem_nil
    | some key => simpa [privateText, ascii] using not_mem_hex zero
  simpa [toString, ascii] using ⟨not_mem_digits zero, not_mem_hex zero, secret⟩

end Text

end SecretIdentity

namespace Node

/-- What the slot of the id 0 holds. -/
def zeroSlot (nvs : Nvs) : Option (List Byte) := nvs (Esp.makeKey ⟨.identitySecret, (0, 0)⟩)

/-- Only secret identities whose address ends in 32 zero bits get into the slot of the id 0. -/
theorem zeroSlot_put (nvs : Nvs) (object : StateObject) (data : Option (List Byte)) :
    zeroSlot (Port.esp.put nvs object data) =
      if object.type = .identitySecret ∧ object.low = 0 then data else zeroSlot nvs := by
  change (Esp.ztStatePutImpl nvs object data) _ = _
  rw [Esp.ztStatePutImpl_eq]
  have slots := Esp.makeKey_eq_iff object ⟨.identitySecret, (0, 0)⟩
  by_cases same : object.type = .identitySecret ∧ object.low = 0
  · rw [if_pos same, Library.Slots.write, slots.mpr same, Function.update_self]
  · rw [if_neg same]
    exact Function.update_of_ne (fun keys => same (slots.mp keys.symm)) ..

theorem zeroSlot_putIdentity (nvs : Nvs) (id : SecretIdentity) :
    zeroSlot (putIdentity .esp nvs id) =
      if id.identity.address.setWidth 32 = (0 : BitVec 32) then some (id.toString true) else zeroSlot nvs := by
  rw [putIdentity, zeroSlot_put, if_neg (by simp [objectOf]), zeroSlot_put]
  have low : (objectOf .identitySecret id.identity.address).low = id.identity.address.setWidth 32 := by
    rw [StateObject.low, objectOf, Address.toInt, BitVec.setWidth_setWidth_of_le _ (by decide)]
  rw [low]
  simp [objectOf]

theorem zeroSlot_refreshPublic (rest : List Byte) (nvs : Nvs) (id : SecretIdentity) :
    zeroSlot (refreshPublic .esp rest nvs id) = zeroSlot nvs := by
  unfold refreshPublic
  split
  · split
    · rw [zeroSlot_put, if_neg (by simp [objectOf])]
    · rfl
  · rfl

/-- The constructor is always answered. -/
theorem get_zero (nvs : Nvs) :
    Port.esp.get nvs ⟨.identitySecret, (0, 0)⟩ 2047 =
      some (((zeroSlot nvs).filter fun blob => blob.length ≤ 2047).getD Esp.testSecret) := by
  have embedded : Esp.fallback .identitySecret 2047 = some Esp.testSecret := by
    rw [Esp.fallback, if_pos ⟨rfl, by simp [Esp.testSecret, Esp.testPublic, ascii]⟩]
  change (match (zeroSlot nvs).filter _ with
    | some data => some data
    | none => Esp.fallback .identitySecret 2047) = _
  cases (zeroSlot nvs).filter fun blob => blob.length ≤ 2047 with
  | none => exact embedded
  | some data => rfl

/-- The slot of the id 0 is empty or holds an identity that belongs there. -/
def ZeroSlotProper (nvs : Nvs) : Prop :=
  ∀ text ∈ zeroSlot nvs, ∃ id : SecretIdentity,
    id.identity.address.setWidth 32 = (0 : BitVec 32) ∧ text = id.toString true

theorem readable_toString (id : SecretIdentity) :
    (some (id.toString true)).filter (fun blob => blob.length ≤ 2047) = some (id.toString true) := by
  have short := (SecretIdentity.toString_length id).1
  rw [Option.filter_some, if_pos (decide_eq_true (by omega))]

/-- With an identity in the slot, the constructor takes that one or throws. -/
theorem construct_of_slot {nvs : Nvs} {id : SecretIdentity} (slot : zeroSlot nvs = some (id.toString true))
    (hash : BitVec 512 → BitVec 512) (generated : SecretIdentity) (rest : List Byte) :
    construct .esp hash generated rest nvs =
      if id.identity.locallyValidate hash then (some id, refreshPublic .esp rest nvs id) else (none, nvs) := by
  have text := SecretIdentity.cString_toString id
  have read := SecretIdentity.fromString_toString id
  rw [construct, get_zero, slot, readable_toString, Option.getD_some, Option.getD_some]
  cases shape : id.toString true with
  | nil => exact absurd shape (SecretIdentity.toString_length id).2
  | cons c tmp =>
      dsimp only
      rw [← shape, text, read]
      by_cases reserved : id.identity.address.isReserved
      · rw [if_pos reserved, if_neg (by simp [Identity.locallyValidate, reserved])]
      · rw [if_neg reserved]

/-- A construction leaves the slot as it is. -/
theorem zeroSlot_construct {nvs : Nvs} (proper : ZeroSlotProper nvs) (hash : BitVec 512 → BitVec 512)
    (generated : SecretIdentity) (rest : List Byte) :
    zeroSlot (construct .esp hash generated rest nvs).2 = zeroSlot nvs := by
  cases slot : zeroSlot nvs with
  | some text =>
      obtain ⟨id, -, rfl⟩ := proper text slot
      rw [construct_of_slot slot]
      split
      · rw [zeroSlot_refreshPublic, slot]
      · exact slot
  | none =>
      rw [construct, get_zero, slot, Option.filter_none, Option.getD_none, Option.getD_some]
      cases shape : Esp.testSecret with
      | nil => exact absurd (congrArg List.length shape) (by simp [Esp.testSecret, Esp.testPublic, ascii])
      | cons c tmp =>
          dsimp only
          split
          · exact slot
          · split
            · rw [zeroSlot_refreshPublic, slot]
            · exact slot

theorem zeroSlot_called {nvs : Nvs} {call : StateStore.Call}
    (proper : ∀ w ∈ call.write, w.name.type ≠ .identitySecret) :
    zeroSlot (StateStore.step .esp nvs call) = zeroSlot nvs := by
  cases call with
  | put object data =>
      change zeroSlot (Port.esp.put nvs object data) = _
      rw [zeroSlot_put, if_neg (fun both => proper ⟨object, data⟩ rfl both.1)]
  | get object maxlen => rfl

/-- A step other than the putting of an identity leaves the slot as it is. -/
theorem zeroSlot_step {nvs : Nvs} (proper : ZeroSlotProper nvs) (hash : BitVec 512 → BitVec 512)
    {event : StoreEvent} (allowed : event.Proper) (other : event.isGenerated = false) :
    zeroSlot (storeStep hash nvs event) = zeroSlot nvs := by
  cases event with
  | generated id => cases other
  | constructed generated rest => exact zeroSlot_construct proper hash generated rest
  | called call => exact zeroSlot_called allowed

theorem zeroSlotProper_step {nvs : Nvs} (proper : ZeroSlotProper nvs) (hash : BitVec 512 → BitVec 512)
    {event : StoreEvent} (allowed : event.Proper) : ZeroSlotProper (storeStep hash nvs event) := by
  cases event with
  | generated id =>
      intro text held
      change text ∈ zeroSlot (putIdentity .esp nvs id) at held
      rw [zeroSlot_putIdentity] at held
      by_cases low : id.identity.address.setWidth 32 = (0 : BitVec 32)
      · rw [if_pos low] at held
        exact ⟨id, low, (Option.some_inj.mp held).symm⟩
      · rw [if_neg low] at held
        exact proper text held
  | constructed generated rest =>
      intro text held
      rw [zeroSlot_step proper hash allowed rfl] at held
      exact proper text held
  | called call =>
      intro text held
      rw [zeroSlot_step proper hash allowed rfl] at held
      exact proper text held

theorem zeroSlotProper_run {nvs : Nvs} (proper : ZeroSlotProper nvs) (hash : BitVec 512 → BitVec 512)
    {events : List StoreEvent} (allowed : ∀ event ∈ events, event.Proper) :
    ZeroSlotProper (run (storeStep hash) nvs events) := by
  induction events generalizing nvs with
  | nil => exact proper
  | cons event events ih =>
      exact ih (zeroSlotProper_step proper hash (allowed event List.mem_cons_self))
        (fun later member => allowed later (List.mem_cons_of_mem _ member))

/-- Until another identity is put, the slot stays as it is. -/
theorem zeroSlot_run {nvs : Nvs} (proper : ZeroSlotProper nvs) (hash : BitVec 512 → BitVec 512)
    {events : List StoreEvent} (allowed : ∀ event ∈ events, event.Proper)
    (others : ∀ event ∈ events, event.isGenerated = false) :
    zeroSlot (run (storeStep hash) nvs events) = zeroSlot nvs := by
  induction events generalizing nvs with
  | nil => rfl
  | cons event events ih =>
      have first := allowed event List.mem_cons_self
      rw [run_cons, ih (zeroSlotProper_step proper hash first)
        (fun later member => allowed later (List.mem_cons_of_mem _ member))
        (fun later member => others later (List.mem_cons_of_mem _ member)),
        zeroSlot_step proper hash first (others event List.mem_cons_self)]

/-- An identity that a node generated and put is loaded by every construction until another one is put, and the
embedded one left alone, exactly if its address ends in 32 zero bits. -/
theorem generated_identity_loaded_iff (hash : BitVec 512 → BitVec 512) (before later : List StoreEvent)
    (id generated : SecretIdentity) (rest : List Byte) (made : id.Generated hash)
    (allowed : ∀ event ∈ before ++ later, event.Proper) (others : ∀ event ∈ later, event.isGenerated = false) :
    Loads hash generated rest (run (storeStep hash) Nvs.empty (before ++ .generated id :: later)) id ↔
      id.identity.address.setWidth 32 = (0 : BitVec 32) := by
  have empty : ZeroSlotProper Nvs.empty := by
    intro text held
    cases held
  have first := zeroSlotProper_run empty hash (fun event member => allowed event (List.mem_append_left later member))
  have put := @zeroSlotProper_step _ first hash (.generated id) trivial
  have last := zeroSlot_run put hash (fun event member => allowed event (List.mem_append_right before member)) others
  have parts : run (storeStep hash) Nvs.empty (before ++ .generated id :: later) =
      run (storeStep hash) (storeStep hash (run (storeStep hash) Nvs.empty before) (.generated id)) later := by
    rw [run_append]
    rfl
  rw [← parts] at last
  change _ = zeroSlot (putIdentity .esp _ id) at last
  rw [zeroSlot_putIdentity] at last
  generalize run (storeStep hash) Nvs.empty (before ++ .generated id :: later) = nvs at last
  by_cases low : id.identity.address.setWidth 32 = (0 : BitVec 32)
  · rw [if_pos low] at last
    have used : UsesEmbedded nvs ↔ (zeroSlot nvs).filter (fun blob => blob.length ≤ 2047) = none := Iff.rfl
    rw [Loads, construct_of_slot last, if_pos made.2, used, last, readable_toString]
    exact iff_of_true ⟨rfl, Option.some_ne_none _⟩ low
  · rw [if_neg low] at last
    refine iff_of_false ?_ low
    rintro ⟨loaded, present⟩
    cases slot : zeroSlot (run (storeStep hash) Nvs.empty before) with
    | none =>
        apply present
        change (zeroSlot nvs).filter _ = none
        rw [last, slot, Option.filter_none]
    | some text =>
        obtain ⟨other, zero, rfl⟩ := first text slot
        rw [construct_of_slot (last.trans slot)] at loaded
        split at loaded
        · have same : other = id := Option.some_inj.mp loaded
          rw [same] at zero
          exact low zero
        · cases loaded

/-- The known good identity of the self test, and a hash that validates it and the embedded one. -/
def knownGood : SecretIdentity :=
  ⟨⟨0x8e4df28b72, 0xac3d46abe0c21f3cfe7a6c8d6a85cfcffcb82fbd55af6a4d6350657c68200843fa2e16f9418bbd9702cae365f2af5fb4c420908b803a681d4daef6114d78a2d7⟩,
    some 0xbd8dd6e4ce7022d2f812797a80c6ee8ad180dc4ebf301dec8b06d1be08832bddd63a2f1cfa7b2c504474c75bdc8898ba476ef92e8e2d0509f8441985171ff16e⟩

def knownHash (publicKey : BitVec 512) : BitVec 512 :=
  if publicKey = knownGood.identity.publicKey then 0x8e4df28b72 else 0xdf429581f6

theorem knownGood_generated : knownGood.Generated knownHash := ⟨rfl, by decide +kernel⟩

theorem knownGood_lost :
    knownGood.Generated knownHash ∧
      ¬ Loads knownHash knownGood [] (run (storeStep knownHash) Nvs.empty [.generated knownGood]) knownGood := by
  refine ⟨knownGood_generated, ?_⟩
  rw [← List.nil_append [StoreEvent.generated knownGood],
    generated_identity_loaded_iff knownHash [] [] knownGood knownGood [] knownGood_generated (by simp) (by simp)]
  decide

/-- A node that put its identity is constructed again with the embedded one. -/
theorem embedded_identity_loaded :
    knownGood.Generated knownHash ∧
      run (storeStep knownHash) Nvs.empty [.generated knownGood] (Esp.makeKey (objectOf .identitySecret 0x8e4df28b72)) =
        some (knownGood.toString true) ∧
      UsesEmbedded (run (storeStep knownHash) Nvs.empty [.generated knownGood]) ∧
      (construct .esp knownHash knownGood []
        (run (storeStep knownHash) Nvs.empty [.generated knownGood])).1.map (fun id => id.identity.address) =
          some 0xdf429581f6 := by
  refine ⟨knownGood_generated, ?_⟩
  unfold UsesEmbedded
  decide +kernel

end Node

end ZeroTierNode

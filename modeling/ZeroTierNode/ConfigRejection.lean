import ZeroTierNode.ConfigAssembly
import ZeroTierNode.Library.Exits

/-!
`Network::handleConfigChunk` step by step: every read that may throw, every early
return and every write in the order of the source. What a call has changed when it
leaves early is what stands before that exit. The steps are those of the function
in `ConfigChunks`.
-/

namespace ZeroTierNode.ConfigRejection
open Library.Bytes Library.Exits Buffer

/-- The early returns. -/
inductive Refusal
  | destroyed
  | bounds
  | signatureKind
  | duplicate
  | unknownController
  | badSignature
  | notController
  | tooManyChunks
deriving DecidableEq

inductive Exit
  | threw
  | refused (why : Refusal)
deriving DecidableEq

/-- The network, the copies of chunks sent to members, and the objects put in the node's store. -/
structure World where
  net : ChunkedNetwork
  flooded : List (Address × List Byte)
  stored : List (List Byte)

abbrev Handler := EStateM Exit World

/-- Where a chunk goes. -/
structure Target where
  c : Fin 3
  configUpdateId : BitVec 64
  chunkId : BitVec 64
  totalLength : BitVec 32
  chunkIndex : BitVec 32

section Handling

variable (capacity : Nat) (room : 0 < capacity) (limits : Limits) (order : SortOrder) (crypto : Crypto)
  (RR : RuntimeEnvironment)

def refuse {α : Type} (why : Refusal) : Handler α := throw (.refused why)

/-- An early return. -/
def refuseIf (condition : Prop) [Decidable condition] (why : Refusal) : Handler Unit :=
  if condition then refuse why else pure ()

/-- A read of the packet. -/
def reading {α : Type} : Option α → Handler α := orExit .threw

/-- The members that a chunk is sent on to. -/
def otherMembers (source : Address) (net : ChunkedNetwork) : List Address :=
  net.memberships.keys.filter fun a => a ≠ source ∧ a ≠ controllerFor net.id

/-- Verified chunks are flooded to the members. -/
def flood (source : Address) (payload : List Byte) (world : World) : World :=
  { world with flooded := world.flooded ++ (otherMembers source world.net).map fun a => (a, payload) }

/-- The branch of a chunk with fields behind its data, from `ptr` on. -/
def receiveSigned (source : Address) (chunk : List Byte) (start ptr : Nat) (chunkLen : BitVec 16) : Handler Target := do
  let flags ← reading (at8 chunk ptr)
  let configUpdateId ← reading (at64 chunk (ptr + 1))
  let totalLength ← reading (at32 chunk (ptr + 9))
  let chunkIndex ← reading (at32 chunk (ptr + 13))
  refuseIf (totalLength.toNat < (chunkIndex + chunkLen.setWidth 32).toNat ∨ capacity ≤ totalLength.toNat) .bounds
  let scheme ← reading (at8 chunk (ptr + 17))
  refuseIf (scheme ≠ 1) .signatureKind
  let length ← reading (at16 chunk (ptr + 18))
  refuseIf (length.toNat ≠ signatureLen) .signatureKind
  let sig ← reading (atWord 768 96 chunk (ptr + 20))
  let world ← get
  let c := slotFor world.net.incoming configUpdateId
  refuseIf ((world.net.incoming c).updateId = configUpdateId ∧ chunkIdOf sig ∈ (world.net.incoming c).haveChunkIds)
    .duplicate
  let controllerId := RR.getIdentity (controllerFor world.net.id)
  refuseIf (¬controllerId.isSet) .unknownController
  let signed ← reading (fieldAt chunk start (ptr + 17 - start))
  refuseIf (¬controllerId.verify crypto signed sig) .badSignature
  modify fun world => if flags &&& 0x01 ≠ 0 then flood source (chunk.drop start) world else world
  return ⟨c, configUpdateId, chunkIdOf sig, totalLength, chunkIndex⟩

/-- The branch of a whole configuration in the old form. -/
def receiveLegacy (packetId : BitVec 64) (source : Address) (chunkLen : BitVec 16) : Handler Target := do
  let world ← get
  refuseIf (¬(source = controllerFor world.net.id ∨ source = 0)) .notController
  refuseIf (capacity ≤ chunkLen.toNat) .bounds
  return ⟨oldestSlot world.net.incoming, packetId, packetId, chunkLen.setWidth 32, 0⟩

/-- The choice between the two forms: whether anything stands behind the data. -/
def receiveChunk (packetId : BitVec 64) (source : Address) (chunk : List Byte) (start : Nat) (chunkLen : BitVec 16) :
    Handler Target :=
  let ptr := start + 10 + chunkLen.toNat
  if ptr < chunk.length then receiveSigned capacity crypto RR source chunk start ptr chunkLen
  else receiveLegacy capacity packetId source chunkLen

def setSlot (c : Fin 3) (slot : IncomingConfigChunk) (world : World) : World :=
  { world with net := { world.net with incoming := Function.update world.net.incoming c slot } }

/-- `setConfiguration` with `saveToDisk`. -/
def setConfiguration (now : Int) (nconf : NetworkConfig) (world : World) : World :=
  let (result, network) := world.net.toNetwork.setConfiguration RR nconf now
  let saved : Option (Dictionary capacity) := if result = 2 then nconf.toDictionary (.load [] room) else none
  { world with
    net := { world.net with toNetwork := network }
    stored := world.stored ++ saved.toList.map Dictionary.text }

/-- The storing half. -/
def store (now : Int) (target : Target) (chunkData : List Byte) : Handler (BitVec 64) := do
  let world ← get
  let slot := assignSlot (world.net.incoming target.c) target.configUpdateId
  set (setSlot target.c slot world)
  refuseIf (maxUpdateChunks capacity ≤ slot.haveChunkIds.length) .tooManyChunks
  let filled := fillSlot slot target.chunkId target.chunkIndex chunkData
  set (setSlot target.c filled world)
  if filled.haveBytes = target.totalLength then
    -- ensure null terminated
    let whole := { filled with data := Function.update filled.data filled.haveBytes.toNat 0 }
    set (setSlot target.c whole world)
    match (NetworkConfig.fromDictionary limits order (dictionaryOf room whole.data)).result with
    | some nc =>
        modify (setConfiguration capacity room RR now nc)
        return target.configUpdateId
    | none => return 0
  else return 0

def handleConfigChunk (now : Int) (packetId : BitVec 64) (source : Address) (chunk : List Byte) (start : Nat) :
    Handler (BitVec 64) := do
  let world ← get
  refuseIf (world.net.destroyed = true) .destroyed
  let chunkLen ← reading (at16 chunk (start + 8))
  let chunkData ← reading (fieldAt chunk (start + 10) chunkLen.toNat)
  let target ← receiveChunk capacity crypto RR packetId source chunk start chunkLen
  store capacity room limits order RR now target chunkData

end Handling

section Exits

variable {α : Type} {world : World} {exited : Exit → World → Prop}

/-- A read gives what is there or throws, and changes nothing. -/
theorem reading_ends {value : Option α} (absent : value = none → exited .threw world) :
    Ends (reading value) world (fun found after => value = some found ∧ after = world) exited :=
  ends_orExit absent fun _ found => ⟨found, rfl⟩

/-- A check returns early or goes on, and changes nothing. -/
theorem refuseIf_ends {condition : Prop} [Decidable condition] {why : Refusal}
    (failed : condition → exited (.refused why) world) :
    Ends (refuseIf condition why) world (fun _ after => ¬condition ∧ after = world) exited := by
  unfold refuseIf
  split
  · rename_i holds
    exact failed holds
  · rename_i fails
    exact ⟨fails, rfl⟩

theorem get_ends : Ends (get : Handler World) world (fun found after => found = world ∧ after = world) exited :=
  ⟨rfl, rfl⟩

theorem modify_ends (change : World → World) :
    Ends (modify change : Handler PUnit) world (fun _ after => after = change world) exited := rfl

theorem set_ends (next : World) : Ends (set next : Handler PUnit) world (fun _ after => after = next) exited := rfl

end Exits

variable {capacity : Nat} {room : 0 < capacity} {limits : Limits} {order : SortOrder} {crypto : Crypto}
  {RR : RuntimeEnvironment}

/-- A chunk that the loop over the slots takes for a duplicate. -/
def Duplicate (net : ChunkedNetwork) (tail : ChunkTail) : Prop :=
  let slot := net.incoming (slotFor net.incoming tail.configUpdateId)
  slot.updateId = tail.configUpdateId ∧ chunkIdOf tail.signature ∈ slot.haveChunkIds

/-- The controller is known. -/
def KnownController (RR : RuntimeEnvironment) (net : ChunkedNetwork) : Prop :=
  (RR.getIdentity (controllerFor net.id)).isSet = true

/-- The fields of a chunk are signed by the controller. -/
def Verified (crypto : Crypto) (RR : RuntimeEnvironment) (net : ChunkedNetwork) (tail : ChunkTail) : Prop :=
  (RR.getIdentity (controllerFor net.id)).verify crypto tail.signed tail.signature = true

instance (net : ChunkedNetwork) (tail : ChunkTail) : Decidable (Duplicate net tail) := inferInstanceAs (Decidable (_ ∧ _))

instance (RR : RuntimeEnvironment) (net : ChunkedNetwork) : Decidable (KnownController RR net) :=
  inferInstanceAs (Decidable (_ = true))

instance (crypto : Crypto) (RR : RuntimeEnvironment) (net : ChunkedNetwork) (tail : ChunkTail) :
    Decidable (Verified crypto RR net tail) :=
  inferInstanceAs (Decidable (_ = true))

/-- Why a chunk with fields behind its data was not taken. -/
def SignedRefused (crypto : Crypto) (RR : RuntimeEnvironment) (net : ChunkedNetwork)
    (read : Option (Option ChunkTail)) : Exit → Prop
  | .threw => read = none
  | .refused .bounds | .refused .signatureKind => read = some none
  | .refused .duplicate => ∃ tail, read = some (some tail) ∧ Duplicate net tail
  | .refused .unknownController => ∃ tail, read = some (some tail) ∧ ¬Duplicate net tail ∧ ¬KnownController RR net
  | .refused .badSignature => ∃ tail, read = some (some tail) ∧ ¬Duplicate net tail ∧ KnownController RR net ∧
      ¬Verified crypto RR net tail
  | _ => False

/-- The fields in front of the signature, and what is checked of them. -/
theorem readTail_fields {chunk : List Byte} {start ptr : Nat} {chunkLen : BitVec 16} {flags : Byte}
    {configUpdateId : BitVec 64} {totalLength chunkIndex : BitVec 32} (flagsRead : at8 chunk ptr = some flags)
    (idRead : at64 chunk (ptr + 1) = some configUpdateId) (totalRead : at32 chunk (ptr + 9) = some totalLength)
    (indexRead : at32 chunk (ptr + 13) = some chunkIndex) :
    readTail capacity chunk start ptr chunkLen =
      if totalLength.toNat < (chunkIndex + chunkLen.setWidth 32).toNat ∨ capacity ≤ totalLength.toNat then some none
      else (at8 chunk (ptr + 17)).bind fun scheme => if scheme ≠ 1 then some none
        else (at16 chunk (ptr + 18)).bind fun length => if length.toNat ≠ signatureLen then some none
          else (atWord 768 96 chunk (ptr + 20)).bind fun signature =>
            (fieldAt chunk start (ptr + 17 - start)).bind fun signed => some (some
              ⟨flags &&& 0x01 ≠ 0, configUpdateId, totalLength, chunkIndex, signature, signed⟩) := by
  simp only [readTail, flagsRead, idRead, totalRead, indexRead, Option.bind_eq_bind, Option.bind_some]
  rfl

theorem receiveSigned_ends (source : Address) (chunk : List Byte) {start ptr : Nat} (behind : start ≤ ptr)
    (chunkLen : BitVec 16) (world : World) :
    Ends (receiveSigned capacity crypto RR source chunk start ptr chunkLen) world
      (fun target after => ∃ tail, readTail capacity chunk start ptr chunkLen = some (some tail) ∧
        ¬Duplicate world.net tail ∧ KnownController RR world.net ∧ Verified crypto RR world.net tail ∧
        target = ⟨slotFor world.net.incoming tail.configUpdateId, tail.configUpdateId, chunkIdOf tail.signature,
          tail.totalLength, tail.chunkIndex⟩ ∧
        after = if tail.fastPropagate then flood source (chunk.drop start) world else world)
      (fun exit after => after = world ∧
        SignedRefused crypto RR world.net (readTail capacity chunk start ptr chunkLen) exit) := by
  unfold receiveSigned
  refine ends_bind (reading_ends fun absent => ⟨rfl, ?_⟩) ?_
  · simp [SignedRefused, readTail, absent]
  rintro flags _ ⟨flagsRead, rfl⟩
  refine ends_bind (reading_ends fun absent => ⟨rfl, ?_⟩) ?_
  · simp [SignedRefused, readTail, flagsRead, absent]
  rintro configUpdateId _ ⟨idRead, rfl⟩
  refine ends_bind (reading_ends fun absent => ⟨rfl, ?_⟩) ?_
  · simp [SignedRefused, readTail, flagsRead, idRead, absent]
  rintro totalLength _ ⟨totalRead, rfl⟩
  refine ends_bind (reading_ends fun absent => ⟨rfl, ?_⟩) ?_
  · simp [SignedRefused, readTail, flagsRead, idRead, totalRead, absent]
  rintro chunkIndex _ ⟨indexRead, rfl⟩
  have fields := @readTail_fields capacity chunk start ptr chunkLen _ _ _ _ flagsRead idRead totalRead indexRead
  refine ends_bind (refuseIf_ends fun outside => ⟨rfl, ?_⟩) ?_
  · rw [fields, if_pos outside]
    rfl
  rintro ⟨⟩ _ ⟨inside, rfl⟩
  rw [if_neg inside] at fields
  refine ends_bind (reading_ends fun absent => ⟨rfl, ?_⟩) ?_
  · rw [fields, absent]
    rfl
  rintro scheme _ ⟨schemeRead, rfl⟩
  rw [schemeRead, Option.bind_some] at fields
  refine ends_bind (refuseIf_ends fun other => ⟨rfl, ?_⟩) ?_
  · rw [fields, if_pos other]
    rfl
  rintro ⟨⟩ _ ⟨ed25519, rfl⟩
  rw [if_neg ed25519] at fields
  refine ends_bind (reading_ends fun absent => ⟨rfl, ?_⟩) ?_
  · rw [fields, absent]
    rfl
  rintro length _ ⟨lengthRead, rfl⟩
  rw [lengthRead, Option.bind_some] at fields
  refine ends_bind (refuseIf_ends fun other => ⟨rfl, ?_⟩) ?_
  · rw [fields, if_pos other]
    rfl
  rintro ⟨⟩ _ ⟨long, rfl⟩
  rw [if_neg long] at fields
  refine ends_bind (reading_ends fun absent => ⟨rfl, ?_⟩) ?_
  · rw [fields, absent]
    rfl
  rintro sig _ ⟨sigRead, rfl⟩
  rw [sigRead, Option.bind_some] at fields
  -- the signed bytes lie in front of the signature
  have room := atWord_inside sigRead
  obtain ⟨signed, signedRead⟩ : ∃ signed, fieldAt chunk start (ptr + 17 - start) = some signed := by
    rw [fieldAt, if_pos (by omega)]
    exact ⟨_, rfl⟩
  rw [signedRead, Option.bind_some] at fields
  refine ends_bind get_ends ?_
  rintro _ _ ⟨rfl, rfl⟩
  refine ends_bind (refuseIf_ends fun duplicate => ⟨rfl, _, fields, duplicate⟩) ?_
  rintro ⟨⟩ _ ⟨new, rfl⟩
  refine ends_bind (refuseIf_ends fun unknown => ⟨rfl, _, fields, new, unknown⟩) ?_
  rintro ⟨⟩ _ ⟨known, rfl⟩
  refine ends_bind (reading_ends fun absent => ?_) ?_
  · rw [signedRead] at absent
    cases absent
  rintro found _ ⟨foundRead, rfl⟩
  rw [signedRead] at foundRead
  cases foundRead
  refine ends_bind (refuseIf_ends fun bad => ⟨rfl, _, fields, new, not_not.mp known, bad⟩) ?_
  rintro ⟨⟩ _ ⟨verified, rfl⟩
  refine ends_bind (modify_ends _) ?_
  rintro ⟨⟩ _ rfl
  refine ends_pure ⟨_, fields, new, not_not.mp known, not_not.mp verified, rfl, ?_⟩
  simp

theorem receiveLegacy_ends (packetId : BitVec 64) (source : Address) (chunkLen : BitVec 16) (world : World) :
    Ends (receiveLegacy capacity packetId source chunkLen) world
      (fun target after => (source = controllerFor world.net.id ∨ source = 0) ∧ ¬capacity ≤ chunkLen.toNat ∧
        target = ⟨oldestSlot world.net.incoming, packetId, packetId, chunkLen.setWidth 32, 0⟩ ∧ after = world)
      (fun exit after => after = world ∧
        (exit = .refused .notController ∧ ¬(source = controllerFor world.net.id ∨ source = 0) ∨
          exit = .refused .bounds ∧ capacity ≤ chunkLen.toNat)) := by
  unfold receiveLegacy
  refine ends_bind get_ends ?_
  rintro _ _ ⟨rfl, rfl⟩
  refine ends_bind (refuseIf_ends fun other => ⟨rfl, Or.inl ⟨rfl, other⟩⟩) ?_
  rintro ⟨⟩ _ ⟨controller, rfl⟩
  refine ends_bind (refuseIf_ends fun long => ⟨rfl, Or.inr ⟨rfl, long⟩⟩) ?_
  rintro ⟨⟩ _ ⟨fits, rfl⟩
  exact ends_pure ⟨not_not.mp controller, fits, rfl, rfl⟩

/-- What a configuration that was read leaves in the store. -/
def saved (room : 0 < capacity) (RR : RuntimeEnvironment) (net : Network) (now : Int) :
    Option NetworkConfig → List (List Byte)
  | none => []
  | some nconf => (if (net.setConfiguration RR nconf now).1 = 2 then nconf.toDictionary (.load [] room)
      else none : Option (Dictionary capacity)).toList.map Dictionary.text

/-- The world that a call leaves, as the function in `ConfigChunks` says. -/
def worldAfter (room : 0 < capacity) (RR : RuntimeEnvironment) (now : Int) (payload : List Byte) (world : World)
    (h : HandledChunk capacity) : World where
  net := h.net
  flooded := world.flooded ++ h.forwarded.map fun a => (a, payload)
  stored := world.stored ++ saved room RR world.net.toNetwork now h.configured

theorem store_ends (now : Int) (target : Target) (chunkData payload : List Byte) {world : World}
    {h : HandledChunk capacity} (done : h = storeChunk room limits order RR world.net now target.c
      target.configUpdateId target.chunkId target.totalLength target.chunkIndex chunkData []) :
    Ends (store capacity room limits order RR now target chunkData) world
      (fun returned after => returned = h.returned ∧ after = worldAfter room RR now payload world h)
      (fun exit after => exit = .refused .tooManyChunks ∧ h.returned = 0 ∧
        after = worldAfter room RR now payload world h) := by
  unfold store
  refine ends_bind get_ends ?_
  rintro _ _ ⟨rfl, rfl⟩
  rw [storeChunk] at done
  refine ends_bind (set_ends _) ?_
  rintro ⟨⟩ _ rfl
  refine ends_bind (refuseIf_ends fun full => ?_) ?_
  · rw [if_pos full] at done
    rw [done]
    refine ⟨rfl, rfl, ?_⟩
    simp [worldAfter, setSlot, saved]
  rintro ⟨⟩ _ ⟨space, rfl⟩
  refine ends_bind (set_ends _) ?_
  rintro ⟨⟩ _ rfl
  rw [if_neg space] at done
  split
  · rename_i complete
    rw [if_pos complete] at done
    refine ends_bind (set_ends _) ?_
    rintro ⟨⟩ _ rfl
    split
    · rename_i nc read
      dsimp only at read done
      rw [read] at done
      refine ends_bind (modify_ends _) ?_
      rintro ⟨⟩ _ rfl
      refine ends_pure ?_
      rw [done]
      refine ⟨rfl, ?_⟩
      simp only [worldAfter, setSlot, saved, setConfiguration, List.map_nil, List.append_nil]
      rfl
    · rename_i unreadable
      dsimp only at unreadable done
      rw [unreadable] at done
      refine ends_pure ?_
      rw [done]
      refine ⟨rfl, ?_⟩
      simp [worldAfter, setSlot, saved]
  · rename_i incomplete
    rw [if_neg incomplete] at done
    refine ends_pure ?_
    rw [done]
    refine ⟨rfl, ?_⟩
    simp [worldAfter, setSlot, saved]

/-- The chunk carries a signature of the network's controller. -/
def SignedByController (capacity : Nat) (crypto : Crypto) (RR : RuntimeEnvironment) (net : ChunkedNetwork)
    (chunk : List Byte) (start : Nat) : Prop :=
  ∃ data tail, readChunk capacity chunk start = some (.signed data tail) ∧ KnownController RR net ∧
    Verified crypto RR net tail

/-- A whole configuration in the old form, which is not signed. -/
def Legacy (capacity : Nat) (chunk : List Byte) (start : Nat) : Prop :=
  ∃ data, readChunk capacity chunk start = some (.legacy data)

/-- A chunk that may be stored. -/
def Authorized (capacity : Nat) (crypto : Crypto) (RR : RuntimeEnvironment) (net : ChunkedNetwork) (source : Address)
    (chunk : List Byte) (start : Nat) : Prop :=
  SignedByController capacity crypto RR net chunk start ∨
    Legacy capacity chunk start ∧ (source = controllerFor net.id ∨ source = 0)

section Call

variable (now : Int) (packetId : BitVec 64) (source : Address) (chunk : List Byte) (start : Nat) (world : World)

/-- The function in `ConfigChunks`. -/
abbrev abstractly (room : 0 < capacity) (limits : Limits) (order : SortOrder) (crypto : Crypto)
    (RR : RuntimeEnvironment) : Option (HandledChunk capacity) :=
  ZeroTierNode.handleConfigChunk room limits order crypto RR world.net now packetId source chunk start

/-- A chunk was accepted: what is left to do is to store it. -/
def Accepts (room : 0 < capacity) (limits : Limits) (order : SortOrder) (crypto : Crypto) (RR : RuntimeEnvironment)
    (chunkData : List Byte) (target : Target) (after : World) : Prop :=
  ∃ forwarded : List Address,
    after = { world with flooded := world.flooded ++ forwarded.map fun a => (a, chunk.drop start) } ∧
    abstractly now packetId source chunk start world room limits order crypto RR =
      some (storeChunk room limits order RR world.net now target.c target.configUpdateId target.chunkId
        target.totalLength target.chunkIndex chunkData forwarded) ∧
    Authorized capacity crypto RR world.net source chunk start

/-- The call left early and changed nothing. -/
def Declines (room : 0 < capacity) (limits : Limits) (order : SortOrder) (crypto : Crypto) (RR : RuntimeEnvironment)
    (exit : Exit) (after : World) : Prop :=
  after = world ∧ exit ≠ .refused .tooManyChunks ∧
    abstractly now packetId source chunk start world room limits order crypto RR =
      if exit = .threw then none else some (ignoreChunk world.net)

theorem abstractly_unread (active : ¬world.net.destroyed = true) (read : readChunk capacity chunk start = none) :
    abstractly now packetId source chunk start world room limits order crypto RR = none := by
  rw [abstractly, ZeroTierNode.handleConfigChunk, if_neg active, read]
  rfl

theorem abstractly_dropped (active : ¬world.net.destroyed = true)
    (read : readChunk capacity chunk start = some .dropped) :
    abstractly now packetId source chunk start world room limits order crypto RR = some (ignoreChunk world.net) := by
  rw [abstractly, ZeroTierNode.handleConfigChunk, if_neg active, read]
  rfl

theorem abstractly_signed {data : List Byte} {tail : ChunkTail} (active : ¬world.net.destroyed = true)
    (read : readChunk capacity chunk start = some (.signed data tail)) :
    abstractly now packetId source chunk start world room limits order crypto RR = some (
      if Duplicate world.net tail then ignoreChunk world.net
      else if ¬KnownController RR world.net then ignoreChunk world.net
      else if ¬Verified crypto RR world.net tail then ignoreChunk world.net
      else storeChunk room limits order RR world.net now (slotFor world.net.incoming tail.configUpdateId)
        tail.configUpdateId (chunkIdOf tail.signature) tail.totalLength tail.chunkIndex data
        (if tail.fastPropagate then otherMembers source world.net else [])) := by
  rw [abstractly, ZeroTierNode.handleConfigChunk, if_neg active, read]
  by_cases duplicate : Duplicate world.net tail
  · rw [if_pos duplicate]
    exact if_pos duplicate
  · rw [if_neg duplicate]
    refine (if_neg duplicate).trans ?_
    by_cases known : KnownController RR world.net
    · rw [if_neg (not_not.mpr known)]
      refine (if_neg (not_not.mpr known)).trans ?_
      by_cases verified : Verified crypto RR world.net tail
      · rw [if_neg (not_not.mpr verified)]
        exact if_neg (not_not.mpr verified)
      · rw [if_pos verified]
        exact if_pos verified
    · rw [if_pos known]
      exact if_pos known

theorem signed_accepts {chunkLen : BitVec 16} {chunkData : List Byte} (active : ¬world.net.destroyed = true)
    (lengthRead : at16 chunk (start + 8) = some chunkLen)
    (dataRead : fieldAt chunk (start + 10) chunkLen.toNat = some chunkData)
    (more : start + 10 + chunkLen.toNat < chunk.length) :
    Ends (receiveSigned capacity crypto RR source chunk start (start + 10 + chunkLen.toNat) chunkLen) world
      (Accepts now packetId source chunk start world room limits order crypto RR chunkData)
      (Declines now packetId source chunk start world room limits order crypto RR) := by
  have read : readChunk capacity chunk start =
      (readTail capacity chunk start (start + 10 + chunkLen.toNat) chunkLen).map fun tail =>
        tail.elim .dropped (.signed chunkData) := by
    rw [readChunk, lengthRead]
    simp only [Option.bind_eq_bind, Option.bind_some, dataRead, if_pos more]
    cases readTail capacity chunk start (start + 10 + chunkLen.toNat) chunkLen <;> rfl
  have whole {tail : ChunkTail}
      (tailRead : readTail capacity chunk start (start + 10 + chunkLen.toNat) chunkLen = some (some tail)) :
      readChunk capacity chunk start = some (.signed chunkData tail) := by
    rw [read, tailRead]
    rfl
  have start_le : start ≤ start + 10 + chunkLen.toNat := by omega
  refine (receiveSigned_ends source chunk start_le chunkLen world).imp ?_ ?_
  · rintro target after ⟨tail, tailRead, new, known, verified, rfl, rfl⟩
    refine ⟨if tail.fastPropagate then otherMembers source world.net else [], ?_, ?_,
      Or.inl ⟨chunkData, tail, whole tailRead, known, verified⟩⟩
    · split
      · rfl
      · simp
    · rw [abstractly_signed _ _ _ _ _ _ active (whole tailRead), if_neg new, if_neg (not_not.mpr known),
        if_neg (not_not.mpr verified)]
  · rintro exit after ⟨rfl, why⟩
    refine ⟨rfl, ?_, ?_⟩
    · rintro rfl
      exact why
    · match exit, why with
      | .threw, absent =>
          rw [SignedRefused] at absent
          rw [abstractly_unread _ _ _ _ _ _ active (by rw [read, absent]; rfl), if_pos rfl]
      | .refused .bounds, dropped =>
          rw [SignedRefused] at dropped
          rw [abstractly_dropped _ _ _ _ _ _ active (by rw [read, dropped]; rfl)]
          rfl
      | .refused .signatureKind, dropped =>
          rw [SignedRefused] at dropped
          rw [abstractly_dropped _ _ _ _ _ _ active (by rw [read, dropped]; rfl)]
          rfl
      | .refused .duplicate, ⟨tail, tailRead, duplicate⟩ =>
          rw [abstractly_signed _ _ _ _ _ _ active (whole tailRead), if_pos duplicate]
          rfl
      | .refused .unknownController, ⟨tail, tailRead, new, unknown⟩ =>
          rw [abstractly_signed _ _ _ _ _ _ active (whole tailRead), if_neg new, if_pos unknown]
          rfl
      | .refused .badSignature, ⟨tail, tailRead, new, known, bad⟩ =>
          rw [abstractly_signed _ _ _ _ _ _ active (whole tailRead), if_neg new, if_neg (not_not.mpr known), if_pos bad]
          rfl

theorem legacy_accepts {chunkLen : BitVec 16} {chunkData : List Byte} (active : ¬world.net.destroyed = true)
    (lengthRead : at16 chunk (start + 8) = some chunkLen)
    (dataRead : fieldAt chunk (start + 10) chunkLen.toNat = some chunkData)
    (whole : ¬start + 10 + chunkLen.toNat < chunk.length) :
    Ends (receiveLegacy capacity packetId source chunkLen) world
      (Accepts now packetId source chunk start world room limits order crypto RR chunkData)
      (Declines now packetId source chunk start world room limits order crypto RR) := by
  have read : readChunk capacity chunk start =
      some (if capacity ≤ chunkLen.toNat then .dropped else .legacy chunkData) := by
    rw [readChunk, lengthRead]
    simp only [Option.bind_eq_bind, Option.bind_some, dataRead, if_neg whole]
    split <;> rfl
  refine (receiveLegacy_ends packetId source chunkLen world).imp ?_ ?_
  · rintro target after ⟨allowed, fits, rfl, rfl⟩
    rw [if_neg fits] at read
    refine ⟨[], by simp, ?_, Or.inr ⟨⟨chunkData, read⟩, allowed⟩⟩
    rw [abstractly, ZeroTierNode.handleConfigChunk, if_neg active, read, ← (ConfigAssembly.field_short dataRead).2]
    exact if_pos allowed
  · rintro exit after ⟨rfl, why⟩
    have declined : abstractly now packetId source chunk start after room limits order crypto RR =
        some (ignoreChunk after.net) := by
      by_cases long : capacity ≤ chunkLen.toNat
      · rw [if_pos long] at read
        exact abstractly_dropped _ _ _ _ _ _ active read
      · rw [if_neg long] at read
        rw [abstractly, ZeroTierNode.handleConfigChunk, if_neg active, read]
        rcases why with ⟨-, other⟩ | ⟨-, tooLong⟩
        · exact if_neg other
        · exact absurd tooLong long
    rcases why with ⟨rfl, -⟩ | ⟨rfl, -⟩
    · exact ⟨rfl, by decide, declined⟩
    · exact ⟨rfl, by decide, declined⟩

theorem storeChunk_forwarded (net : ChunkedNetwork) (now : Int) (c : Fin 3) (updateId chunkId : BitVec 64)
    (totalLength chunkIndex : BitVec 32) (chunkData : List Byte) (forwarded : List Address) :
    storeChunk room limits order RR net now c updateId chunkId totalLength chunkIndex chunkData forwarded =
      { storeChunk room limits order RR net now c updateId chunkId totalLength chunkIndex chunkData [] with
        forwarded := forwarded } := by
  unfold storeChunk
  dsimp only
  split_ifs <;> rfl

theorem storeChunk_unflooded (net : ChunkedNetwork) (now : Int) (c : Fin 3) (updateId chunkId : BitVec 64)
    (totalLength chunkIndex : BitVec 32) (chunkData : List Byte) :
    (storeChunk room limits order RR net now c updateId chunkId totalLength chunkIndex chunkData []).forwarded = [] := by
  unfold storeChunk
  dsimp only
  split_ifs <;> rfl

/-- The steps do what the function in `ConfigChunks` says, and an early exit other than the last comes before the
first write. -/
theorem handleConfigChunk_ends :
    Ends (handleConfigChunk capacity room limits order crypto RR now packetId source chunk start) world
      (fun returned after => ∃ h, abstractly now packetId source chunk start world room limits order crypto RR = some h ∧
        returned = h.returned ∧ after = worldAfter room RR now (chunk.drop start) world h ∧
        Authorized capacity crypto RR world.net source chunk start)
      (fun exit after => Declines now packetId source chunk start world room limits order crypto RR exit after ∨
        exit = .refused .tooManyChunks ∧
        ∃ h, abstractly now packetId source chunk start world room limits order crypto RR = some h ∧
          h.returned = 0 ∧ after = worldAfter room RR now (chunk.drop start) world h ∧
          Authorized capacity crypto RR world.net source chunk start) := by
  unfold handleConfigChunk
  refine ends_bind get_ends ?_
  rintro _ _ ⟨rfl, rfl⟩
  refine ends_bind (refuseIf_ends fun destroyed => Or.inl ⟨rfl, by decide, if_pos destroyed⟩) ?_
  rintro ⟨⟩ _ ⟨active, rfl⟩
  refine ends_bind (reading_ends fun absent => Or.inl ⟨rfl, by decide, ?_⟩) ?_
  · apply abstractly_unread _ _ _ _ _ _ active
    rw [readChunk, absent]
    rfl
  rintro chunkLen _ ⟨lengthRead, rfl⟩
  refine ends_bind (reading_ends fun absent => Or.inl ⟨rfl, by decide, ?_⟩) ?_
  · apply abstractly_unread _ _ _ _ _ _ active
    rw [readChunk, lengthRead, Option.bind_eq_bind, Option.bind_some, absent]
    rfl
  rintro chunkData world ⟨dataRead, rfl⟩
  have accepted : Ends (receiveChunk capacity crypto RR packetId source chunk start chunkLen) world
      (Accepts now packetId source chunk start world room limits order crypto RR chunkData)
      (Declines now packetId source chunk start world room limits order crypto RR) := by
    unfold receiveChunk
    dsimp only
    split
    · rename_i more
      exact signed_accepts _ _ _ _ _ _ active lengthRead dataRead more
    · rename_i whole
      exact legacy_accepts _ _ _ _ _ _ active lengthRead dataRead whole
  refine ends_bind (accepted.imp (fun _ _ accepts => accepts) fun _ _ declines => Or.inl declines) ?_
  rintro target _ ⟨forwarded, rfl, called, authorized⟩
  rw [storeChunk_forwarded] at called
  have same {h : HandledChunk capacity} (none : h.forwarded = []) :
      worldAfter room RR now (chunk.drop start)
        { world with flooded := world.flooded ++ forwarded.map fun a => (a, chunk.drop start) } h =
      worldAfter room RR now (chunk.drop start) world { h with forwarded := forwarded } := by
    simp [worldAfter, none]
  have unflooded := @storeChunk_unflooded capacity room limits order RR world.net now target.c target.configUpdateId
    target.chunkId target.totalLength target.chunkIndex chunkData
  refine (store_ends now target chunkData (chunk.drop start) rfl).imp ?_ ?_
  · rintro returned after ⟨value, left⟩
    exact ⟨_, called, value, left.trans (same unflooded), authorized⟩
  · rintro exit after ⟨full, value, left⟩
    exact Or.inr ⟨full, _, called, value, left.trans (same unflooded), authorized⟩

/-- A chunk that is rejected changes nothing: not the slots, the configuration or the store, and it is not flooded. A
chunk without the controller's signature changes something only if it is of the old form and comes from the controller
or has no source. -/
theorem rejected_chunk_changes_nothing :
    (∀ exit after, handleConfigChunk capacity room limits order crypto RR now packetId source chunk start world =
        .error exit after → exit ≠ .refused .tooManyChunks → after = world) ∧
      (stateAfter (handleConfigChunk capacity room limits order crypto RR now packetId source chunk start world) ≠ world →
        SignedByController capacity crypto RR world.net chunk start ∨
          Legacy capacity chunk start ∧ (source = controllerFor world.net.id ∨ source = 0)) := by
  have ends := @handleConfigChunk_ends capacity room limits order crypto RR now packetId source chunk start world
  constructor
  · intro exit after ran other
    unfold Ends at ends
    rw [ran] at ends
    rcases ends with declined | ⟨full, -⟩
    · exact declined.1
    · exact absurd full other
  · refine @Ends.stateAfter _ _ _ _ (fun after => after ≠ world →
      Authorized capacity crypto RR world.net source chunk start) _ (ends.imp ?_ ?_)
    · rintro returned after ⟨h, -, -, -, authorized⟩ -
      exact authorized
    · rintro exit after (⟨same, -⟩ | ⟨-, h, -, -, -, authorized⟩) changed
      · exact absurd same changed
      · exact authorized

end Call

section Small

open ConfigAssembly

/-- A member of network 1000000 that has no configuration yet. -/
def smallWorld : World := ⟨.initial 0x1000000, [], []⟩

theorem small_capacity : 0 < 16384 := by decide

def receive (source : Address) (chunk : List Byte) : EStateM.Result Exit World (BitVec 64) :=
  handleConfigChunk 16384 small_capacity {} smallOrder endCrypto member 0 5 source chunk 28 smallWorld

def exitOf : EStateM.Result Exit World (BitVec 64) → Option Exit
  | .ok _ _ => none
  | .error exit _ => some exit

/-- A chunk whose last byte was changed on its way. -/
def tamperedChunk : List Byte := (smallChunk 10 0 10).dropLast ++ [1]

theorem tampered_chunk_rejected :
    ∃ after, receive 9 tamperedChunk = .error (.refused .badSignature) after ∧ after = smallWorld := by
  have exits : exitOf (receive 9 tamperedChunk) = some (.refused .badSignature) := by decide +kernel
  cases ran : receive 9 tamperedChunk with
  | ok value after =>
      rw [ran] at exits
      cases exits
  | error exit after =>
      rw [ran] at exits
      cases exits
      exact ⟨after, rfl, (rejected_chunk_changes_nothing 0 5 9 tamperedChunk 28 smallWorld).1 _ _ ran (by decide)⟩

/-- A whole configuration in the old form. -/
def legacyChunk : List Byte := List.replicate 28 0 ++ wordBytes 8 (0x1000000 : BitVec 64) ++ [0, 3, 0x76, 0x3d, 0x37]

/-- Without a source a chunk in the old form is taken, although it is neither signed nor from the controller. -/
theorem unsourced_chunk_taken :
    stateAfter (receive 0 legacyChunk) ≠ smallWorld ∧
      ¬SignedByController 16384 endCrypto member smallWorld.net legacyChunk 28 ∧ Legacy 16384 legacyChunk 28 ∧
      (0 : Address) ≠ controllerFor smallWorld.net.id := by
  have legacy : readChunk 16384 legacyChunk 28 = some (.legacy [0x76, 0x3d, 0x37]) := by decide +kernel
  refine ⟨fun same => ?_, ?_, ⟨_, legacy⟩, by decide +kernel⟩
  · have moved : ((stateAfter (receive 0 legacyChunk)).net.incoming 0).ts = 1 := by decide +kernel
    rw [same] at moved
    exact absurd moved (by decide)
  · rintro ⟨data, tail, read, -⟩
    rw [legacy] at read
    cases read

end Small

end ZeroTierNode.ConfigRejection

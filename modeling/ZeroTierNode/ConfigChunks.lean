import ZeroTierNode.ConfigDictionary
import ZeroTierNode.Network
import ZeroTierNode.Packet

/-!
Configurations in chunks: `Network::handleConfigChunk` and the controller's side,
`Node::ncSendConfig`. A network keeps three updates in assembly. On this target
`unsigned long` is 32 bits wide, and so are the lengths and positions of a slot.
A controller that is itself the member skips the chunks and sets the configuration.
-/

namespace ZeroTierNode
open Library.Bytes Buffer

/-- An entry of `_incomingConfigChunks`; `haveChunks` is the number of ids. -/
structure IncomingConfigChunk where
  ts : BitVec 64
  updateId : BitVec 64
  haveChunkIds : List (BitVec 64)
  haveBytes : BitVec 32
  data : Nat → Byte

def IncomingConfigChunk.nil : IncomingConfigChunk := ⟨0, 0, [], 0, fun _ => 0⟩

/-- A network with its `ZT_NETWORK_MAX_INCOMING_UPDATES` slots. -/
structure ChunkedNetwork extends Network where
  incoming : Fin 3 → IncomingConfigChunk

/-- A network as its constructor leaves it when no configuration was stored. -/
def ChunkedNetwork.initial (id : BitVec 64) : ChunkedNetwork where
  id := id
  config := .nil
  lastConfigUpdate := 0
  destroyed := false
  memberships := ∅
  incoming := fun _ => .nil

/-- `ZT_NETWORK_MAX_UPDATE_CHUNKS`. -/
def maxUpdateChunks (capacity : Nat) : Nat := capacity / 1024 + 1

/-- The per-chunk id: the first 8 bytes of the signature combined with the next 8. -/
def chunkIdOf (signature : Signature) : BitVec 64 :=
  signature.extractLsb' 704 64 ^^^ signature.extractLsb' 640 64

/-- The signed fields behind the data of a chunk, and the bytes that were signed. -/
structure ChunkTail where
  fastPropagate : Bool
  configUpdateId : BitVec 64
  totalLength : BitVec 32
  chunkIndex : BitVec 32
  signature : Signature
  signed : List Byte
deriving DecidableEq

/-- What the packet holds: a chunk to look at, a whole configuration in the old form, or neither. -/
inductive ReadChunk
  | signed (chunkData : List Byte) (tail : ChunkTail)
  | legacy (chunkData : List Byte)
  | dropped
deriving DecidableEq

/-- The fields behind the data, which end at `ptr`; `none` where reading throws, and no tail where a check
refuses them. The sum in the bounds check is computed with 32 bits. -/
def readTail (capacity : Nat) (chunk : List Byte) (start ptr : Nat) (chunkLen : BitVec 16) :
    Option (Option ChunkTail) := do
  let flags ← at8 chunk ptr
  let configUpdateId ← at64 chunk (ptr + 1)
  let totalLength ← at32 chunk (ptr + 9)
  let chunkIndex ← at32 chunk (ptr + 13)
  if totalLength.toNat < (chunkIndex + chunkLen.setWidth 32).toNat ∨ capacity ≤ totalLength.toNat then return none
  else do
    let scheme ← at8 chunk (ptr + 17)
    if scheme ≠ 1 then return none
    else do
      let length ← at16 chunk (ptr + 18)
      if length.toNat ≠ signatureLen then return none
      else do
        let signature ← atWord 768 96 chunk (ptr + 20)
        let signed ← fieldAt chunk start (ptr + 17 - start)
        return some ⟨flags &&& 0x01 ≠ 0, configUpdateId, totalLength, chunkIndex, signature, signed⟩

/-- The reading half of `handleConfigChunk`; `none` where it throws. -/
def readChunk (capacity : Nat) (chunk : List Byte) (start : Nat) : Option ReadChunk := do
  let chunkLen ← at16 chunk (start + 8)
  let chunkData ← fieldAt chunk (start + 10) chunkLen.toNat
  let ptr := start + 10 + chunkLen.toNat
  if ptr < chunk.length then do
    let tail ← readTail capacity chunk start ptr chunkLen
    return tail.elim .dropped (.signed chunkData)
  else if capacity ≤ chunkLen.toNat then return .dropped
  else return .legacy chunkData

/-- One comparison of the loop over the slots: keep the candidate unless slot `i` has a smaller `ts`. -/
def older (slots : Fin 3 → IncomingConfigChunk) (candidate : Option (Fin 3)) (i : Fin 3) : Option (Fin 3) :=
  match candidate with
  | none => some i
  | some c => if (slots i).ts.toNat < (slots c).ts.toNat then some i else some c

/-- The loop of a signed chunk over the slots still to look at: the slot of the update, else the oldest. -/
def findSlot (slots : Fin 3 → IncomingConfigChunk) (updateId : BitVec 64) :
    List (Fin 3) → Option (Fin 3) → Option (Fin 3)
  | [], candidate => candidate
  | i :: rest, candidate =>
      if (slots i).updateId = updateId then some i else findSlot slots updateId rest (older slots candidate i)

def slotFor (slots : Fin 3 → IncomingConfigChunk) (updateId : BitVec 64) : Fin 3 :=
  (findSlot slots updateId [0, 1, 2] none).getD 0

/-- The loop of a chunk in the old form. -/
def oldestSlot (slots : Fin 3 → IncomingConfigChunk) : Fin 3 :=
  (([0, 1, 2] : List (Fin 3)).foldl (older slots) none).getD 0

/-- `memcpy` to the position `index` of a slot's dictionary, with 32-bit addresses. -/
def memcpy (data : Nat → Byte) (index : BitVec 32) (bytes : List Byte) (position : Nat) : Byte :=
  let offset := (BitVec.ofNat 32 position - index).toNat
  if offset < bytes.length then bytes.getD offset 0 else data position

/-- A chunk that was copied into a slot: where, whether the slot was assigned to its update by it, and
where the terminating NUL went if it was the last one. -/
structure StoredChunk where
  slot : Fin 3
  updateId : BitVec 64
  chunkId : BitVec 64
  totalLength : BitVec 32
  chunkIndex : BitVec 32
  chunkLen : Nat
  assigns : Bool
  terminator : Option Nat
deriving DecidableEq

/-- What a call does: the network after it, its return value, the members the chunk is sent on to, the
slot it touched, the chunk it stored, and the configuration it passed to `setConfiguration`. -/
structure HandledChunk (capacity : Nat) where
  net : ChunkedNetwork
  returned : BitVec 64
  forwarded : List Address
  touched : Option (Fin 3)
  stored : Option StoredChunk
  assembled : Option (Dictionary capacity)
  configured : Option NetworkConfig

section Receiving

variable {capacity : Nat} (room : 0 < capacity) (limits : Limits) (order : SortOrder) (crypto : Crypto)
  (RR : RuntimeEnvironment)

/-- The dictionary in a slot's memory. -/
def dictionaryOf (data : Nat → Byte) : Dictionary capacity := .load ((List.range capacity).map data) room

/-- A call that changes nothing. -/
def ignoreChunk (net : ChunkedNetwork) : HandledChunk capacity := ⟨net, 0, [], none, none, none, none⟩

/-- The slot `c` with its counter moved on, cleared for the update unless it holds it already. -/
def assignSlot (slot : IncomingConfigChunk) (updateId : BitVec 64) : IncomingConfigChunk :=
  if slot.updateId = updateId then { slot with ts := slot.ts + 1 }
  else { slot with ts := slot.ts + 1, updateId := updateId, haveChunkIds := [], haveBytes := 0 }

/-- A slot with one more chunk in it. -/
def fillSlot (slot : IncomingConfigChunk) (chunkId : BitVec 64) (chunkIndex : BitVec 32) (chunkData : List Byte) :
    IncomingConfigChunk :=
  { slot with
    haveChunkIds := slot.haveChunkIds ++ [chunkId]
    haveBytes := slot.haveBytes + BitVec.ofNat 32 chunkData.length
    data := memcpy slot.data chunkIndex chunkData }

/-- The storing half of `handleConfigChunk`. -/
def storeChunk (net : ChunkedNetwork) (now : Int) (c : Fin 3) (updateId chunkId : BitVec 64)
    (totalLength chunkIndex : BitVec 32) (chunkData : List Byte) (forwarded : List Address) :
    HandledChunk capacity :=
  let slot := assignSlot (net.incoming c) updateId
  if maxUpdateChunks capacity ≤ slot.haveChunkIds.length then
    ⟨{ net with incoming := Function.update net.incoming c slot }, 0, forwarded, some c, none, none, none⟩
  else
    let filled := fillSlot slot chunkId chunkIndex chunkData
    let assigns : Bool := (net.incoming c).updateId ≠ updateId
    if filled.haveBytes = totalLength then
      -- ensure null terminated
      let whole := { filled with data := Function.update filled.data filled.haveBytes.toNat 0 }
      let net := { net with incoming := Function.update net.incoming c whole }
      let d := dictionaryOf room whole.data
      let nc := (NetworkConfig.fromDictionary limits order d).result
      { net := nc.elim net (fun nc => { net with toNetwork := (net.toNetwork.setConfiguration RR nc now).2 })
        returned := nc.elim 0 (fun _ => updateId)
        forwarded := forwarded
        touched := some c
        stored := some ⟨c, updateId, chunkId, totalLength, chunkIndex, chunkData.length, assigns,
          some filled.haveBytes.toNat⟩
        assembled := some d
        configured := nc }
    else
      { net := { net with incoming := Function.update net.incoming c filled }
        returned := 0
        forwarded := forwarded
        touched := some c
        stored := some ⟨c, updateId, chunkId, totalLength, chunkIndex, chunkData.length, assigns, none⟩
        assembled := none
        configured := none }

/-- `handleConfigChunk`; `none` where it throws. -/
def handleConfigChunk (net : ChunkedNetwork) (now : Int) (packetId : BitVec 64) (source : Address)
    (chunk : List Byte) (ptr : Nat) : Option (HandledChunk capacity) :=
  if net.destroyed then some (ignoreChunk net)
  else do
    let read ← readChunk capacity chunk ptr
    match read with
    | .dropped => return ignoreChunk net
    | .signed chunkData tail =>
        let chunkId := chunkIdOf tail.signature
        let c := slotFor net.incoming tail.configUpdateId
        if (net.incoming c).updateId = tail.configUpdateId ∧ chunkId ∈ (net.incoming c).haveChunkIds then
          return ignoreChunk net
        else
          let controllerId := RR.getIdentity (controllerFor net.id)
          if ¬controllerId.isSet then return ignoreChunk net
          else if ¬controllerId.verify crypto tail.signed tail.signature then return ignoreChunk net
          else
            let forwarded := if tail.fastPropagate then
                net.memberships.keys.filter (fun a => a ≠ source ∧ a ≠ controllerFor net.id)
              else []
            return storeChunk room limits order RR net now c tail.configUpdateId chunkId tail.totalLength
              tail.chunkIndex chunkData forwarded
    | .legacy chunkData =>
        if source = controllerFor net.id ∨ source = 0 then
          return storeChunk room limits order RR net now (oldestSlot net.incoming) packetId packetId
            (BitVec.ofNat 32 chunkData.length) 0 chunkData []
        else return ignoreChunk net

end Receiving

section Sending

variable (sign : List Byte → Signature)

/-- The part of a chunk that is signed; it carries no flags. -/
def signedPart (nwid updateId : BitVec 64) (totalSize chunkIndex : BitVec 32) (data : List Byte) : List Byte :=
  wordBytes 8 nwid ++ (wordBytes 2 (BitVec.ofNat 16 data.length) ++ (data ++ (wordBytes 1 (0 : Byte) ++
    (wordBytes 8 updateId ++ (wordBytes 4 totalSize ++ wordBytes 4 chunkIndex)))))

/-- What a chunk's packet holds behind its header, or behind the request it answers. -/
def chunkPacket (nwid updateId : BitVec 64) (totalSize chunkIndex : BitVec 32) (data : List Byte) : List Byte :=
  let part := signedPart nwid updateId totalSize chunkIndex data
  part ++ signatureField (sign part)

/-- The data of a chunk leaves room for the header and 256 more bytes in a packet. -/
def maxChunkLen : Nat := Packet.maxPacketLength - (28 + 256)

/-- The loop of `ncSendConfig`; every pass takes at least one byte of the text. -/
def sendChunks (nwid updateId : BitVec 64) (text : List Byte) : Nat → Nat → List (List Byte)
  | 0, _ => []
  | passes + 1, chunkIndex =>
      if chunkIndex < text.length then
        let chunkLen := min (text.length - chunkIndex) maxChunkLen
        chunkPacket sign nwid updateId (BitVec.ofNat 32 text.length) (BitVec.ofNat 32 chunkIndex)
            ((text.drop chunkIndex).take chunkLen) ::
          sendChunks nwid updateId text passes (chunkIndex + chunkLen)
      else []

/-- `Node::ncSendConfig` to another node; `random` is what the generator returns. -/
def ncSendConfig {capacity : Nat} (nwid random : BitVec 64) (nc : NetworkConfig) (dconf : Dictionary capacity) :
    List (List Byte) :=
  match nc.toDictionary dconf with
  | some d => sendChunks sign nwid (if random = 0 then 1 else random) d.text d.text.length 0
  | none => []

end Sending

end ZeroTierNode

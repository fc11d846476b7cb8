import ZeroTierNode.BroadcastPaths

/-!
A HELLO under the outer layer of `armor`. The cipher of such a packet is that of a
HELLO in the clear, and `tryDecode` looks at the verb before the layer comes off.
-/

namespace ZeroTierNode.EncryptedHello
open Library.Bytes Library.Ciphers Armor RxQueue

/-- A HELLO that has room for the ephemeral key. -/
structure Hello (data : List Byte) : Prop where
  long : Packet.minPacketLength ≤ data.length
  verb : Packet.byteAt data 27 = 0x01
  fits : data.length + ephemeralPublicKeyLen ≤ Packet.maxPacketLength

/-- The byte of the outer key stream that the verb is encrypted with. -/
def verbMask (crypto : Primitives) (ephemeral : BitVec 256) (identity : Identity) (data : List Byte) : Byte :=
  crypto.aesCtr (crypto.agree ephemeral (firstHalf identity.publicKey)) (outerStart data) 8

/-- `tryDecode` authenticates what arrives and runs `_doHELLO` on what was sent. -/
def RunsOnDecrypted (env : Environment) (place : Place) (path : InetAddress) (key : BitVec 384)
    (data arrived : List Byte) : Prop :=
  ∃ plain, Packet.packetId plain = Packet.packetId data ∧ plain.drop 27 = data.drop 27 ∧
    (tryDecode env place ⟨arrived, path, false⟩).2.2 =
      [.tryDecode place arrived, .dearmored place key arrived plain, .uncompressed place plain plain,
        .handle place 0x01 plain]

/-- The first byte of the body is the verb. -/
theorem byteAt_verb (p : Parts) : Packet.byteAt p.bytes 27 = Packet.byteAt p.body 0 := by
  rw [Packet.byteAt, Packet.byteAt, List.getD_eq_getElem?_getD, List.getD_eq_getElem?_getD, ← Parts.drop_body p,
    List.getElem?_drop]

/-- A masked verb reads as that of a HELLO exactly if the mask is zero in the bits of the verb. -/
theorem masked_verb (mask : Byte) : ((0x01 : Byte) ^^^ mask) &&& 0x1f = 0x01 ↔ mask &&& 0x1f = 0 := by
  revert mask
  decide

section Arrival

variable {crypto : Primitives} {p arrived q : Parts} {relays : Nat}

theorem arrived_cipher (flags : arrived.flags = nextHop^[relays] (sentFlags p.flags 0 true)) :
    Packet.cipher arrived.bytes = 0 := by
  have kept : arrived.flags &&& 0xf8 = sentFlags p.flags 0 true &&& 0xf8 := by rw [flags, nextHop_kept]
  rw [Packet.cipher, Parts.flags_bytes, (sentFlags_spec (.inl rfl) kept).1]

theorem arrived_verb {stream : Nat → Byte} {ephemeralKey : List Byte} (hello : Packet.byteAt p.bytes 27 = 0x01)
    (some_verb : 0 < p.body.length) (body : arrived.body = xorStream stream p.body ++ ephemeralKey) :
    Packet.verb arrived.bytes = 0x01 ↔ stream 0 &&& 0x1f = 0 := by
  have first : Packet.byteAt arrived.bytes 27 = 0x01 ^^^ stream 0 := by
    rw [byteAt_verb] at hello ⊢
    obtain ⟨verb, rest, cut⟩ := List.exists_cons_of_length_pos some_verb
    rw [cut] at hello body
    rw [body, xorStream, List.mapIdx_cons, ← (show verb = 0x01 from hello)]
    rfl
  rw [Packet.verb, first, masked_verb]

end Arrival

/-- The verb decides which way a packet with this cipher goes. -/
theorem tryDecode_other {env : Environment} {place : Place} {path : InetAddress} {key : BitVec 384}
    {arrived plain : List Byte} (cipher : Packet.cipher arrived = 0) (verb : Packet.verb arrived ≠ 0x01)
    (known : env.key (Packet.source arrived) = some key) (opened : env.dearmor key arrived = (true, plain))
    (hello : Packet.byteAt plain 27 = 0x01) :
    (tryDecode env place ⟨arrived, path, false⟩).2.2 =
      [.tryDecode place arrived, .dearmored place key arrived plain, .uncompressed place plain plain,
        .handle place 0x01 plain] := by
  have clear : Packet.compressed plain = false := by
    rw [Packet.compressed, hello]
    decide
  have untouched : Packet.uncompress env.lz4 plain = some plain := by
    rw [Packet.uncompress, clear, if_neg (by simp)]
  have named : Packet.verb plain = 0x01 := by
    rw [Packet.verb, hello]
    decide
  have proper : ¬ ((0 : Byte) = 2) := by decide
  unfold tryDecode
  dsimp only
  rw [cipher, if_neg proper, if_neg (fun both => verb both.2)]
  unfold decodeFromPeer
  simp only [known, opened, untouched, named, Bool.false_eq_true, if_false, if_true]
  cases env.handler 0x01 plain <;> rfl

theorem tryDecode_clear {env : Environment} {place : Place} {path : InetAddress} {arrived : List Byte}
    (cipher : Packet.cipher arrived = 0) (verb : Packet.verb arrived = 0x01) :
    (tryDecode env place ⟨arrived, path, false⟩).2.2 = [.tryDecode place arrived] := by
  unfold tryDecode
  simp only [cipher, verb]
  rfl

section Ends

variable {crypto : Primitives} (lawful : crypto.Lawful) (sender receiver : Bool) (key : BitVec 384)
  (aesKeys : Option AesKeys) (identity : Identity) (privateKey : BitVec 512) (ephemeral : BitVec 256)
  (ownKey : firstHalf identity.publicKey = crypto.calcPubDH (firstHalf privateKey)) (env : Environment)
  (place : Place) (path : InetAddress) {data : List Byte} (hello : Hello data) (relays : Nat)
  (known : env.key (Packet.source data) = some key)
  (opens : ∀ arrived, env.dearmor key arrived = dearmor crypto receiver key aesKeys privateKey arrived)

include lawful ownKey hello known opens

/-- What arrives, and how `tryDecode` takes it. -/
theorem decode_arrived :
    ∃ armored, armor crypto sender ephemeral key false true none identity data = some armored ∧
      (verbMask crypto ephemeral identity data &&& 0x1f ≠ 0 →
        RunsOnDecrypted env place path key data (incrementHops^[relays] armored)) ∧
      (verbMask crypto ephemeral identity data &&& 0x1f = 0 →
        (tryDecode env place ⟨incrementHops^[relays] armored, path, false⟩).2.2 =
          [.tryDecode place (incrementHops^[relays] armored)]) := by
  have long : 27 ≤ data.length := le_trans (by decide) hello.long
  obtain ⟨p, rfl⟩ : ∃ p : Parts, p.bytes = data := ⟨Parts.cut data long, Parts.bytes_cut data long⟩
  have some_verb : 0 < p.body.length := by
    have whole := hello.long
    rw [Parts.length_bytes, Packet.minPacketLength] at whole
    omega
  obtain ⟨armored, arrived, q, sent, same, opened, ⟨iv, -, -⟩, -, addresses, flags, body⟩ := outer_opens lawful sender
    receiver key identity privateKey ephemeral p relays none aesKeys some_verb ownKey hello.fits
  have verb := arrived_verb hello.verb some_verb body
  have source : Packet.source arrived.bytes = Packet.source p.bytes := by
    apply (Fragmentation.addresses_congr ?_).2.1
    rw [Parts.fieldAt_addresses, Parts.fieldAt_addresses, addresses]
  refine ⟨armored.bytes, sent, ?_, ?_⟩
  · intro masked
    refine ⟨{ q with body := p.body }.bytes, ?_, ?_, ?_⟩
    · rw [Packet.packetId, Packet.packetId, Parts.fieldAt_iv, Parts.fieldAt_iv]
      exact congrArg (wordOf 64) iv
    · rw [Parts.drop_body, Parts.drop_body]
    · rw [same]
      apply tryDecode_other (arrived_cipher flags) (fun clear => masked (verb.mp clear))
      · rw [source, known]
      · rw [opens, opened]
      · rw [byteAt_verb, ← hello.verb, byteAt_verb]
  · intro unmasked
    rw [same]
    exact tryDecode_clear (arrived_cipher flags) (verb.mpr unmasked)

/-- A HELLO under the outer layer is authenticated and handled as it was sent exactly if its verb, encrypted, does
not read as that of a HELLO. -/
theorem encrypted_hello_decoded_iff :
    ∃ armored, armor crypto sender ephemeral key false true none identity data = some armored ∧
      (RunsOnDecrypted env place path key data (incrementHops^[relays] armored) ↔
        verbMask crypto ephemeral identity data &&& 0x1f ≠ 0) := by
  obtain ⟨armored, sent, other, clear⟩ := decode_arrived lawful sender receiver key aesKeys identity privateKey ephemeral
    ownKey env place path hello relays known opens
  refine ⟨armored, sent, ?_, other⟩
  rintro ⟨plain, -, -, events⟩ unmasked
  rw [clear unmasked] at events
  cases events

end Ends

section Small

/-- A HELLO from node 2 to node 1: the versions, a timestamp, the identity, no address, and no worlds. -/
def smallHello : List Byte :=
  [1, 2, 3, 4, 5, 6, 7, 8, 0, 0, 0, 0, 1, 0, 0, 0, 0, 2, 0, 0, 0, 0, 0, 0, 0, 0, 0, 1, 13, 1, 16, 0, 1] ++
    List.replicate 8 0 ++ [0, 0, 0, 0, 2, 0] ++ List.replicate 64 0 ++ [0] ++ [0] ++ List.replicate 16 0 ++ [0, 0]

theorem smallHello_hello : Hello smallHello := ⟨by decide +kernel, by decide, by decide +kernel⟩

/-- Node 1, which knows node 2. -/
def knowsNodeTwo : Environment where
  identity := 1
  key := fun zta => if zta = 2 then some 77 else none
  dearmor := fun key data => dearmor software false key none 0 data
  lz4 := fun _ => none
  shouldInboundPathBeTrusted := fun _ _ => false
  handler := fun _ data => .done data
  hello := fun data => data

theorem hello_decoded :
    ∃ armored, armor software true 5 77 false true none nodeOne smallHello = some armored ∧
      (RunsOnDecrypted knowsNodeTwo none .nil 77 smallHello (incrementHops^[1] armored) ↔
        verbMask software 5 nodeOne smallHello &&& 0x1f ≠ 0) :=
  encrypted_hello_decoded_iff software_lawful true false 77 none nodeOne 0 5 nodeOne_key knowsNodeTwo none .nil
    smallHello_hello 1 (by decide) (fun _ => rfl)

/-- With one ephemeral key in thirty-two, the packet is taken for a HELLO in the clear. -/
theorem encrypted_hello_not_decoded :
    Hello smallHello ∧ ∃ armored, armor software true 16 77 false true none nodeOne smallHello = some armored ∧
      ¬ RunsOnDecrypted knowsNodeTwo none .nil 77 smallHello armored ∧
      (tryDecode knowsNodeTwo none ⟨armored, .nil, false⟩).2.2 = [.tryDecode none armored] := by
  obtain ⟨armored, sent, -, clear⟩ := decode_arrived software_lawful true false 77 none nodeOne 0 16 nodeOne_key
    knowsNodeTwo none .nil smallHello_hello 0 (by decide) (fun _ => rfl)
  have events := clear (by decide)
  refine ⟨smallHello_hello, armored, sent, ?_, events⟩
  rintro ⟨plain, -, -, decrypted⟩
  rw [show incrementHops^[0] armored = armored from rfl] at events
  rw [events] at decrypted
  cases decrypted

end Small

end ZeroTierNode.EncryptedHello

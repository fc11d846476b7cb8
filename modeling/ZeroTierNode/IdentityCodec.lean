import ZeroTierNode.IdentityPersistence
import ZeroTierNode.PeerBinding

/-!
Identities as text and as bytes: what `Identity::generate` makes, and what is left of it
when it is written and read again. Here `fromString` has the identity it is called on.
-/

namespace ZeroTierNode.IdentityCodec
open Library.Bytes Library.Hex Library.Outcomes

section Hash

/-- `SHA512` and `Salsa20`. Eight bytes of a digest or of memory are one word, with the first byte on top. -/
structure Primitives where
  sha512 : List Byte → List (BitVec 64)
  Cipher : Type
  salsa20 : (key iv : List (BitVec 64)) → Cipher
  crypt20 : Cipher → List (BitVec 64) → List (BitVec 64) × Cipher

/-- The words of `ZT_IDENTITY_GEN_MEMORY`. -/
abbrev memoryWords : Nat := 2097152 / 8

variable (prim : Primitives)

/-- The blocks of `genmem`, each the one before it encrypted. -/
def fill : Nat → prim.Cipher → List (BitVec 64) → List (BitVec 64) × prim.Cipher
  | 0, s20, _ => ([], s20)
  | blocks + 1, s20, block =>
      let next := prim.crypt20 s20 block
      let rest := fill blocks next.2 next.1
      (next.1 ++ rest.1, rest.2)

/-- The loop that renders the digest: it swaps a word of the digest with one of `genmem`, and encrypts. -/
def render : Nat → Nat → List (BitVec 64) → List (BitVec 64) → prim.Cipher → List (BitVec 64)
  | 0, _, _, digest, _ => digest
  | turns + 1, i, genmem, digest, s20 =>
      let idx1 := (genmem.getD i 0).toNat % 8
      let idx2 := (genmem.getD (i + 1) 0).toNat % genmem.length
      let tmp := genmem.getD idx2 0
      let next := prim.crypt20 s20 (digest.set idx1 tmp)
      render turns (i + 2) (genmem.set idx2 (digest.getD idx1 0)) next.1 next.2

/-- `_computeMemoryHardHash`: what it leaves in the digest. -/
def computeMemoryHardHash (publicKey : BitVec 512) : BitVec 512 :=
  let digest := prim.sha512 (wordBytes 64 publicKey)
  let filled := fill prim (memoryWords / 8) (prim.salsa20 (digest.take 4) (digest.drop 4 |>.take 1)) (List.replicate 8 0)
  wordOf 512 ((render prim (memoryWords / 2) 0 filled.1 digest filled.2).flatMap (wordBytes 8))

end Hash

section Generate

structure Pair where
  pub : BitVec 512
  priv : BitVec 512

variable (hash : BitVec 512 → BitVec 512)

/-- `ECC::generateSatisfying`, from the `n`th pair that a call comes to: the pair, and the digest that the condition
leaves. -/
def generateSatisfying (pairs : Nat → Pair) : Nat → Nat → Option (Pair × BitVec 512)
  | 0, _ => none
  | fuel + 1, n =>
      let digest := hash (pairs n).pub
      if digest >>> 504 < 17 then some (pairs n, digest) else generateSatisfying pairs fuel (n + 1)

/-- `Identity::generate`, from the `call`th random key on. -/
def generate (random : Nat → Nat → Pair) (fuel : Nat) : Nat → Nat → Option SecretIdentity
  | 0, _ => none
  | calls + 1, call => do
      let (kp, digest) ← generateSatisfying hash (random call) fuel 0
      if Address.isReserved (digest.setWidth 40) then generate random fuel calls (call + 1)
      else return ⟨⟨digest.setWidth 40, kp.pub⟩, some kp.priv⟩

variable {hash}

theorem generateSatisfying_spec {pairs : Nat → Pair} {fuel n : Nat} {kp : Pair} {digest : BitVec 512}
    (found : generateSatisfying hash pairs fuel n = some (kp, digest)) :
    digest = hash kp.pub ∧ digest >>> 504 < 17 := by
  induction fuel generalizing n with
  | zero => cases found
  | succ fuel ih =>
      rw [generateSatisfying] at found
      by_cases satisfied : hash (pairs n).pub >>> 504 < 17
      · rw [if_pos satisfied, Option.some.injEq, Prod.mk.injEq] at found
        obtain ⟨rfl, rfl⟩ := found
        exact ⟨rfl, satisfied⟩
      · rw [if_neg satisfied] at found
        exact ih found

/-- What is generated is valid. -/
theorem generate_valid {random : Nat → Nat → Pair} {fuel calls call : Nat} {made : SecretIdentity}
    (generated : generate hash random fuel calls call = some made) : made.identity.locallyValidate hash = true := by
  induction calls generalizing call with
  | zero => cases generated
  | succ calls ih =>
      rw [generate] at generated
      obtain ⟨⟨kp, digest⟩, found, rest⟩ := Option.bind_eq_some_iff.mp generated
      obtain ⟨hashed, low⟩ := generateSatisfying_spec found
      dsimp only at rest
      by_cases reserved : Address.isReserved (digest.setWidth 40) = true
      · rw [if_pos reserved] at rest
        exact ih rest
      · rw [if_neg reserved] at rest
        cases rest
        subst hashed
        exact decide_eq_true ⟨reserved, low, rfl⟩

end Generate

section Text

/-- `_address.zero()`. -/
def cleared (id : SecretIdentity) : SecretIdentity := { id with identity := { id.identity with address := 0 } }

/-- `Utils::unhex` over a key: whether all of it is written, and the key. -/
def unhexOver (f : List Byte) (key : BitVec 512) : Bool × BitVec 512 :=
  let bytes := unhex 64 f
  (bytes.length = 64, wordOf 512 (bytes ++ (wordBytes 64 key).drop bytes.length))

/-- A field by its number: whether it may be one, and the identity after it. -/
def readField (id : SecretIdentity) (fno : Nat) (f : List Byte) : Bool × SecretIdentity :=
  match fno with
  | 0 =>
      let address := Address.ofInt (strtoull f)
      (¬ address.isReserved, { id with identity := { id.identity with address := address } })
  | 1 => (f = ascii "0", id)
  | 2 =>
      let (full, key) := unhexOver f id.identity.publicKey
      (full, { id with identity := { id.identity with publicKey := key } })
  | 3 =>
      let (full, key) := unhexOver f 0
      (full, { id with privateKey := some key })
  | _ => (false, id)

def readFields (id : SecretIdentity) (fno : Nat) : List (List Byte) → Bool × SecretIdentity
  | [] => if fno < 3 then (false, cleared id) else (true, id)
  | f :: fields =>
      let (right, after) := readField id fno f
      if right then readFields after (fno + 1) fields else (false, cleared after)

/-- `Identity::fromString` of an identity: what it returns and leaves. -/
def fromString (id : SecretIdentity) : Option (List Byte) → Bool × SecretIdentity
  | none => (false, cleared id)
  | some str =>
      if 384 ≤ (cString str).length then (false, cleared id)
      else readFields { id with privateKey := none } 0 (SecretIdentity.tokens (cString str))

/-- An identity has an address and all bytes of a public key, as the fields of a text give them. -/
structure Complete (str : List Byte) (id : SecretIdentity) : Prop where
  address : id.identity.address.isReserved = false
  fields : ∃ address type publicKey rest, SecretIdentity.tokens (cString str) = address :: type :: publicKey :: rest ∧
    Address.ofInt (strtoull address) = id.identity.address ∧ unhex 64 publicKey = wordBytes 64 id.identity.publicKey

theorem unhexOver_spec (f : List Byte) (key : BitVec 512) :
    SecretIdentity.readKey f = if (unhexOver f key).1 then some (unhexOver f key).2 else none := by
  rw [SecretIdentity.readKey, unhexOver]
  by_cases full : (unhex 64 f).length = 64
  · rw [if_pos full]
    dsimp only
    rw [if_pos (decide_eq_true full), full, List.drop_of_length_le (wordBytes_length 64 key).le, List.append_nil]
  · rw [if_neg full]
    dsimp only
    rw [if_neg fun right => full (of_decide_eq_true right)]

theorem unhex_of_readKey {f : List Byte} {key : BitVec 512} (read : SecretIdentity.readKey f = some key) :
    unhex 64 f = wordBytes 64 key := by
  rw [SecretIdentity.readKey] at read
  by_cases full : (unhex 64 f).length = 64
  · rw [if_pos full, Option.some.injEq] at read
    have written := wordBytes_wordOf (unhex 64 f)
    rw [full] at written
    rw [← written, ← read]
  · rw [if_neg full] at read
    cases read

/-- A field that is not as it should be leaves the identity without an address. -/
theorem readFields_of_wrong {id : SecretIdentity} {fno : Nat} {f : List Byte} (fields : List (List Byte))
    (wrong : (readField id fno f).1 = false) :
    (readFields id fno (f :: fields)).1 = false ∧ (readFields id fno (f :: fields)).2.identity.address = 0 := by
  rw [readFields]
  dsimp only
  rw [wrong]
  exact ⟨rfl, rfl⟩

theorem readFields_of_right {id : SecretIdentity} {fno : Nat} {f : List Byte} (fields : List (List Byte))
    (right : (readField id fno f).1 = true) :
    readFields id fno (f :: fields) = readFields (readField id fno f).2 (fno + 1) fields := by
  rw [readFields]
  dsimp only
  rw [right, if_pos rfl]

theorem readFields_nil (id : SecretIdentity) (fno : Nat) :
    readFields id fno [] = if fno < 3 then (false, cleared id) else (true, id) := rfl

/-- There are three fields or four. -/
theorem readFields_count {id : SecretIdentity} {fno : Nat} {fields : List (List Byte)} (inside : fno ≤ 4)
    (count : fno + fields.length < 3 ∨ 4 < fno + fields.length) :
    (readFields id fno fields).1 = false ∧ (readFields id fno fields).2.identity.address = 0 := by
  induction fields generalizing id fno with
  | nil =>
      rw [List.length_nil] at count
      rw [readFields_nil, if_pos (by omega)]
      exact ⟨rfl, rfl⟩
  | cons f fields ih =>
      cases right : (readField id fno f).1 with
      | false => exact readFields_of_wrong fields right
      | true =>
          have below : fno ≠ 4 := by
            intro last
            subst last
            cases right
          rw [List.length_cons] at count
          rw [readFields_of_right fields right]
          exact ih (by omega) (by omega)

/-- What `SecretIdentity.fromString` says of an identity that is read. -/
def Agrees (result : Bool × SecretIdentity) : Option SecretIdentity → Prop
  | some found => result = (true, found)
  | none => result.1 = false ∧ result.2.identity.address = 0

/-- The identity that three or four fields tell. -/
def ofFields (address type publicKey : List Byte) (privateKey : Option (List Byte)) : Option SecretIdentity := do
  let identity ← SecretIdentity.readPublic address type publicKey
  match privateKey with
  | none => return ⟨identity, none⟩
  | some f =>
      let key ← SecretIdentity.readKey f
      return ⟨identity, some key⟩

theorem readFields_spec (id : SecretIdentity) (address type publicKey : List Byte) (privateKey : Option (List Byte)) :
    Agrees (readFields { id with privateKey := none } 0 (address :: type :: publicKey :: privateKey.toList))
      (ofFields address type publicKey privateKey) := by
  rw [ofFields, SecretIdentity.readPublic]
  by_cases reserved : (Address.ofInt (strtoull address)).isReserved = true
  · rw [if_pos (.inl reserved)]
    exact readFields_of_wrong _ (by simp [readField, reserved])
  · rw [readFields_of_right _ (by simp [readField, reserved])]
    by_cases plain : type = ascii "0"
    · rw [if_neg (by simp [reserved, plain]), readFields_of_right _ (by simp [readField, plain])]
      have key := unhexOver_spec publicKey id.identity.publicKey
      cases full : (unhexOver publicKey id.identity.publicKey).1 with
      | false =>
          rw [full, if_neg Bool.false_ne_true] at key
          rw [key]
          exact readFields_of_wrong _ full
      | true =>
          rw [full, if_pos rfl] at key
          rw [key, readFields_of_right]
          swap
          · exact full
          cases privateKey with
          | none => rfl
          | some f =>
              have secret := unhexOver_spec f 0
              cases whole : (unhexOver f 0).1 with
              | false =>
                  rw [whole, if_neg Bool.false_ne_true] at secret
                  dsimp only [Option.toList]
                  rw [secret]
                  exact readFields_of_wrong _ whole
              | true =>
                  rw [whole, if_pos rfl] at secret
                  dsimp only [Option.toList]
                  rw [secret, readFields_of_right]
                  swap
                  · exact whole
                  rfl
    · rw [if_pos (.inr plain)]
      exact readFields_of_wrong _ (by simp [readField, plain])

theorem fromString_spec (id : SecretIdentity) (str : List Byte) :
    Agrees (fromString id (some str)) (SecretIdentity.fromString (cString str)) := by
  rw [fromString, SecretIdentity.fromString]
  by_cases long : 384 ≤ (cString str).length
  · rw [if_pos long, if_pos long]
    exact ⟨rfl, rfl⟩
  · rw [if_neg long, if_neg long]
    rcases SecretIdentity.tokens (cString str) with
      _ | ⟨address, _ | ⟨type, _ | ⟨publicKey, _ | ⟨privateKey, _ | ⟨more, rest⟩⟩⟩⟩⟩
    · exact readFields_count (by decide) (by simp)
    · exact readFields_count (by decide) (by simp)
    · exact readFields_count (by decide) (by simp)
    · exact readFields_spec id address type publicKey none
    · exact readFields_spec id address type publicKey (some privateKey)
    · exact readFields_count (by decide) (by simp)

/-- What is written of an identity. -/
def shown (includePrivate : Bool) (id : SecretIdentity) : SecretIdentity :=
  { id with privateKey := if includePrivate then id.privateKey else none }

theorem toString_shown (includePrivate : Bool) (id : SecretIdentity) :
    id.toString includePrivate = (shown includePrivate id).toString true := by
  obtain ⟨identity, privateKey⟩ := id
  cases includePrivate with
  | true => rfl
  | false => cases privateKey <;> rfl

theorem text_round_trip (before id : SecretIdentity) (includePrivate : Bool)
    (free : id.identity.address.isReserved = false) :
    fromString before (some (id.toString includePrivate)) = (true, shown includePrivate id) := by
  have read := SecretIdentity.fromString_toString (shown includePrivate id)
  have same : (shown includePrivate id).identity = id.identity := rfl
  rw [same, free, if_neg Bool.false_ne_true] at read
  have agrees := fromString_spec before (id.toString includePrivate)
  rw [toString_shown, SecretIdentity.cString_toString, read] at agrees
  rw [toString_shown]
  exact agrees

theorem reserved_text (before id : SecretIdentity) (includePrivate : Bool)
    (reserved : id.identity.address.isReserved = true) :
    (fromString before (some (id.toString includePrivate))).1 = false := by
  have read := SecretIdentity.fromString_toString (shown includePrivate id)
  have same : (shown includePrivate id).identity = id.identity := rfl
  rw [same, reserved, if_pos rfl] at read
  have agrees := fromString_spec before (id.toString includePrivate)
  rw [toString_shown, SecretIdentity.cString_toString, read] at agrees
  rw [toString_shown]
  exact agrees.1

theorem readPublic_some {address type publicKey : List Byte} {identity : Identity}
    (read : SecretIdentity.readPublic address type publicKey = some identity) :
    Address.ofInt (strtoull address) = identity.address ∧ identity.address.isReserved = false ∧
      unhex 64 publicKey = wordBytes 64 identity.publicKey := by
  rw [SecretIdentity.readPublic] at read
  by_cases wrong : (Address.ofInt (strtoull address)).isReserved = true ∨ type ≠ ascii "0"
  · rw [if_pos wrong] at read
    cases read
  · rw [if_neg wrong] at read
    obtain ⟨key, whole, made⟩ := Option.bind_eq_some_iff.mp read
    cases made
    exact ⟨rfl, Bool.eq_false_iff.mpr (not_or.mp wrong).1, unhex_of_readKey whole⟩

theorem complete_of_read {text : List Byte} {found : SecretIdentity}
    (read : SecretIdentity.fromString (cString text) = some found) : Complete text found := by
  rw [SecretIdentity.fromString] at read
  by_cases long : 384 ≤ (cString text).length
  · rw [if_pos long] at read
    cases read
  · rw [if_neg long] at read
    rcases fields : SecretIdentity.tokens (cString text) with
      _ | ⟨address, _ | ⟨type, _ | ⟨publicKey, _ | ⟨privateKey, _ | ⟨more, others⟩⟩⟩⟩⟩
    all_goals rw [fields] at read
    · cases read
    · cases read
    · cases read
    · obtain ⟨identity, right, made⟩ := Option.bind_eq_some_iff.mp read
      cases made
      obtain ⟨named, free, key⟩ := readPublic_some right
      exact ⟨free, address, type, publicKey, [], fields, named, key⟩
    · obtain ⟨identity, right, rest⟩ := Option.bind_eq_some_iff.mp read
      obtain ⟨secret, -, made⟩ := Option.bind_eq_some_iff.mp rest
      cases made
      obtain ⟨named, free, key⟩ := readPublic_some right
      exact ⟨free, address, type, publicKey, [privateKey], fields, named, key⟩
    · cases read

/-- A text gives all of an identity, or none of it. -/
theorem fromString_complete (before : SecretIdentity) (str : Option (List Byte)) :
    (∃ text, str = some text ∧ (fromString before str).1 = true ∧ Complete text (fromString before str).2) ∨
      ((fromString before str).1 = false ∧ (fromString before str).2.identity.isSet = false) := by
  have unset {result : Bool × SecretIdentity} (zero : result.2.identity.address = 0) :
      result.2.identity.isSet = false := by
    rw [Identity.isSet, zero]
    rfl
  cases str with
  | none => exact .inr ⟨rfl, rfl⟩
  | some text =>
      have agrees := fromString_spec before text
      cases read : SecretIdentity.fromString (cString text) with
      | none =>
          rw [read] at agrees
          exact .inr ⟨agrees.1, unset agrees.2⟩
      | some found =>
          rw [read] at agrees
          have result : fromString before (some text) = (true, found) := agrees
          refine .inl ⟨text, rfl, ?_, ?_⟩
          · rw [result]
          · rw [result]
            exact complete_of_read read

end Text

section Bytes

/-- `Identity::serialize`. -/
def serialize (includePrivate : Bool) (id : SecretIdentity) : List Byte :=
  id.identity.address.appendTo ++ wordBytes 1 (0 : Byte) ++ wordBytes 64 id.identity.publicKey ++
    match if includePrivate then id.privateKey else none with
    | some key => wordBytes 1 (64 : Byte) ++ wordBytes 64 key
    | none => wordBytes 1 (0 : Byte)

theorem bytes_round_trip (id : SecretIdentity) (includePrivate : Bool) (before after : List Byte) :
    Identity.deserializeAt (before ++ serialize includePrivate id ++ after) before.length =
      .returned ((id.identity, (shown includePrivate id).privateKey), (serialize includePrivate id).length) := by
  have here : Stands (serialize includePrivate id ++ after) (before ++ serialize includePrivate id ++ after)
      before.length := by
    rw [Stands, List.append_assoc, List.drop_left]
  have secret : (shown includePrivate id).privateKey = if includePrivate then id.privateKey else none := rfl
  have length : (serialize includePrivate id).length = 70 +
      (match if includePrivate then id.privateKey else none with
        | some key => wordBytes 1 (64 : Byte) ++ wordBytes 64 key
        | none => wordBytes 1 (0 : Byte)).length := by
    rw [serialize]
    simp only [List.length_append, Address.appendTo, wordBytes_length]
  generalize before ++ serialize includePrivate id ++ after = b at here ⊢
  rw [length, secret]
  simp only [serialize, List.append_assoc] at here
  obtain ⟨address, here⟩ := Buffer.atWord_of_stands (by decide) (by decide) here
  obtain ⟨type, here⟩ := Buffer.atWord_of_stands (by decide) (by decide) here
  obtain ⟨publicKey, here⟩ := Buffer.atWord_of_stands (by decide) (by decide) here
  rw [Identity.deserializeAt, Address.readAt, address, Buffer.at8, type]
  dsimp only
  rw [if_neg (by decide), publicKey]
  cases written : if includePrivate then id.privateKey else none with
  | none =>
      rw [written] at here
      obtain ⟨privateKeyLength, here⟩ := Buffer.atWord_of_stands (by decide) (by decide) here
      rw [Buffer.at8, privateKeyLength]
      rfl
  | some key =>
      rw [written] at here
      simp only [List.append_assoc] at here
      obtain ⟨privateKeyLength, here⟩ := Buffer.atWord_of_stands (by decide) (by decide) here
      obtain ⟨privateKey, here⟩ := Buffer.atWord_of_stands (by decide) (by decide) here
      rw [Buffer.at8, privateKeyLength]
      dsimp only
      rw [if_pos (by decide), if_neg (by decide), privateKey]
      simp

end Bytes

section Trips

/-- A way to write an identity and read it again: as text, over an identity that is there, or as bytes between others. -/
inductive Trip
  | text (includePrivate : Bool) (before : SecretIdentity)
  | bytes (includePrivate : Bool) (before after : List Byte)

/-- What comes back, if anything. -/
def Trip.take (id : SecretIdentity) : Trip → Option SecretIdentity
  | text includePrivate before =>
      let result := fromString before (some (id.toString includePrivate))
      if result.1 then some result.2 else none
  | bytes includePrivate before after =>
      match Identity.deserializeAt (before ++ serialize includePrivate id ++ after) before.length with
      | .returned ((identity, privateKey), _) => some ⟨identity, privateKey⟩
      | _ => none

def Trip.includesPrivate : Trip → Bool
  | text includePrivate _ | bytes includePrivate _ _ => includePrivate

theorem Trip.take_eq {id : SecretIdentity} (free : id.identity.address.isReserved = false) (trip : Trip) :
    trip.take id = some (shown trip.includesPrivate id) := by
  cases trip with
  | text includePrivate before =>
      rw [Trip.take, text_round_trip before id includePrivate free]
      rfl
  | bytes includePrivate before after =>
      rw [Trip.take, bytes_round_trip]
      rfl

/-- After any trips there is the same address and public key. -/
theorem trips_keep {id : SecretIdentity} (free : id.identity.address.isReserved = false) (trips : List Trip) :
    ∃ back, trips.foldlM Trip.take id = some back ∧ back.identity = id.identity := by
  induction trips generalizing id with
  | nil => exact ⟨id, rfl, rfl⟩
  | cons trip trips ih =>
      obtain ⟨back, taken, same⟩ := @ih (shown trip.includesPrivate id) free
      refine ⟨back, ?_, same⟩
      rw [List.foldlM_cons, Trip.take_eq free]
      exact taken

/-- Identities whose address is not reserved come back as text, all come back as bytes, a text gives all of an identity
or none, and what was generated stays valid. -/
theorem identity_codec (prim : Primitives) :
    (∀ (before id : SecretIdentity) (includePrivate : Bool), id.identity.address.isReserved = false →
      fromString before (some (id.toString includePrivate)) =
        (true, ⟨id.identity, if includePrivate then id.privateKey else none⟩)) ∧
    (∀ (id : SecretIdentity) (includePrivate : Bool) (before after : List Byte),
      Identity.deserializeAt (before ++ serialize includePrivate id ++ after) before.length =
        .returned ((id.identity, if includePrivate then id.privateKey else none), (serialize includePrivate id).length)) ∧
    (∀ (before : SecretIdentity) (str : Option (List Byte)),
      (∃ text, str = some text ∧ (fromString before str).1 = true ∧ Complete text (fromString before str).2) ∨
        ((fromString before str).1 = false ∧ (fromString before str).2.identity.isSet = false)) ∧
    ∀ (random : Nat → Nat → Pair) (fuel calls : Nat) (made : SecretIdentity),
      generate (computeMemoryHardHash prim) random fuel calls 0 = some made → ∀ trips : List Trip,
        ∃ back, trips.foldlM Trip.take made = some back ∧
          back.identity.locallyValidate (computeMemoryHardHash prim) = true := by
  refine ⟨text_round_trip, bytes_round_trip, fromString_complete, ?_⟩
  intro random fuel calls made generated trips
  have valid := generate_valid generated
  have free : made.identity.address.isReserved = false := by
    have parts := of_decide_eq_true valid
    exact Bool.eq_false_iff.mpr parts.1
  obtain ⟨back, taken, same⟩ := trips_keep free trips
  exact ⟨back, taken, by rw [same]; exact valid⟩

/-- An address with the reserved prefix is written, and not read again. -/
theorem reserved_not_read : ¬ ∀ (before id : SecretIdentity) (includePrivate : Bool),
    fromString before (some (id.toString includePrivate)) =
      (true, ⟨id.identity, if includePrivate then id.privateKey else none⟩) := by
  intro all
  have refused := reserved_text ⟨.nil, none⟩ ⟨⟨0xff00000001, 5⟩, none⟩ true (by decide)
  rw [all] at refused
  cases refused

end Trips

end ZeroTierNode.IdentityCodec

import ZeroTierNode.Library.Arrays
import ZeroTierNode.Library.Runs
import ZeroTierNode.WireForms

/-!
A certificate of ownership in memory: the two arrays of `ZT_CERTIFICATEOFOWNERSHIP_MAX_THINGS`
entries, and the count, which `deserialize` takes from the wire as it stands. Its loop looks
at the size of the arrays, and so does `addThing`; `_owns` and `serialize` follow the count.
-/

namespace ZeroTierNode.ThingArrays
open Library.Bytes Library.Accesses Library.Arrays Library.Runs Buffer

/-- `ZT_CERTIFICATEOFOWNERSHIP_MAX_THING_VALUE_SIZE`. -/
abbrev maxThingValueSize : Nat := 16

/-- `CertificateOfOwnership`, with all entries of its arrays. -/
structure Certificate where
  networkId : BitVec 64 := 0
  ts : BitVec 64 := 0
  flags : BitVec 64 := 0
  id : BitVec 32 := 0
  thingCount : BitVec 16 := 0
  thingTypes : Vector Byte maxThings := Vector.replicate maxThings 0
  thingValues : Vector (Vector Byte maxThingValueSize) maxThings :=
    Vector.replicate maxThings (Vector.replicate maxThingValueSize 0)
  issuedTo : Address := 0
  signedBy : Address := 0
  signature : Signature := 0
deriving DecidableEq

namespace Certificate

/-- Set an entry: its type and the first bytes of its value. -/
def setThing (certificate : Certificate) (i : Nat) (type : Byte) (value : List Byte) : Access Certificate := do
  let thingTypes ← store certificate.thingTypes i type
  let old ← load certificate.thingValues i
  let changed ← copyTo old 0 value
  let thingValues ← store certificate.thingValues i changed
  return { certificate with thingTypes, thingValues }

/-- The loop of `deserialize`, with `left` entries to go. -/
def readThings (b : List Byte) : Nat → Nat → Nat → Certificate → Access (Certificate × Nat)
  | 0, _, p, certificate => .ok (certificate, p)
  | left + 1, i, p, certificate =>
      if i < maxThings then do
        let type ← orThrow (at8 b p)
        let value ← orThrow (fieldAt b (p + 1) maxThingValueSize)
        let certificate ← certificate.setThing i type value
        readThings b left (i + 1) (p + 1 + maxThingValueSize) certificate
      else readThings b left (i + 1) p certificate

def deserialize (b : List Byte) (startAt : Nat) : Access (Certificate × Nat) := do
  let networkId ← orThrow (at64 b startAt)
  let ts ← orThrow (at64 b (startAt + 8))
  let flags ← orThrow (at64 b (startAt + 16))
  let id ← orThrow (at32 b (startAt + 24))
  let thingCount ← orThrow (at16 b (startAt + 28))
  let (certificate, p) ← readThings b thingCount.toNat 0 (startAt + 30) { networkId, ts, flags, id, thingCount }
  let issuedTo ← orThrow (Address.readAt b p)
  let signedBy ← orThrow (Address.readAt b (p + 5))
  let (signature, p) ← orThrow (readSignature b (p + 10))
  let stop ← orThrow (skipAdditionalFields b p)
  return ({ certificate with issuedTo, signedBy, signature }, stop - startAt)

/-- The inner loop of `_owns`. -/
def sameBytes (value : Vector Byte maxThingValueSize) : Nat → List Byte → Access Bool
  | _, [] => .ok true
  | k, v :: rest => do
      let byte ← load value k
      if v ≠ byte then return false else sameBytes value (k + 1) rest

/-- `_owns` from entry `i` on. -/
def ownsFrom (certificate : Certificate) (t : Byte) (v : List Byte) : Nat → Nat → Access Bool
  | 0, _ => .ok false
  | left + 1, i => do
      let type ← load certificate.thingTypes i
      if type = t then do
        let value ← load certificate.thingValues i
        let same ← sameBytes value 0 v
        if same then return true else ownsFrom certificate t v left (i + 1)
      else ownsFrom certificate t v left (i + 1)

def ownsThing (certificate : Certificate) (t : Byte) (v : List Byte) : Access Bool :=
  certificate.ownsFrom t v certificate.thingCount.toNat 0

def ownsIp (certificate : Certificate) : InetAddress → Access Bool
  | .v4 ip _ => certificate.ownsThing 2 (wordBytes 4 ip)
  | .v6 ip _ => certificate.ownsThing 3 (wordBytes 16 ip)
  | .nil => .ok false

def ownsMac (certificate : Certificate) (mac : BitVec 48) : Access Bool :=
  certificate.ownsThing 1 (wordBytes 6 mac)

/-- The common part of both `addThing`. -/
def addThing (certificate : Certificate) (type : Byte) (value : List Byte) : Access Certificate :=
  if maxThings ≤ certificate.thingCount.toNat then .ok certificate
  else do
    let certificate ← certificate.setThing certificate.thingCount.toNat type value
    return { certificate with thingCount := certificate.thingCount + 1 }

def addIp (certificate : Certificate) : InetAddress → Access Certificate
  | .v4 ip _ => certificate.addThing 2 (wordBytes 4 ip)
  | .v6 ip _ => certificate.addThing 3 (wordBytes 16 ip)
  | .nil => .ok certificate

def addMac (certificate : Certificate) (mac : BitVec 48) : Access Certificate :=
  certificate.addThing 1 (wordBytes 6 mac)

/-- `append` to a buffer of capacity `C`. -/
def append (C : Nat) (b bytes : List Byte) : Access (List Byte) :=
  if C < b.length + bytes.length then .error .threw else .ok (b ++ bytes)

/-- The loop of `serialize`. -/
def appendThings (certificate : Certificate) (C : Nat) : Nat → Nat → List Byte → Access (List Byte)
  | 0, _, b => .ok b
  | left + 1, i, b => do
      let type ← load certificate.thingTypes i
      let b ← append C b [type]
      let value ← load certificate.thingValues i
      let b ← append C b value.toList
      appendThings certificate C left (i + 1) b

/-- `serialize`, behind what the buffer already holds. -/
def serialize (certificate : Certificate) (C : Nat) (b : List Byte) (forSign : Bool) : Access (List Byte) := do
  let b ← append C b (if forSign then signMark else [])
  let b ← append C b (wordBytes 8 certificate.networkId)
  let b ← append C b (wordBytes 8 certificate.ts)
  let b ← append C b (wordBytes 8 certificate.flags)
  let b ← append C b (wordBytes 4 certificate.id)
  let b ← append C b (wordBytes 2 certificate.thingCount)
  let b ← certificate.appendThings C certificate.thingCount.toNat 0 b
  let b ← append C b certificate.issuedTo.appendTo
  let b ← append C b certificate.signedBy.appendTo
  let b ← append C b (if forSign then [] else signatureField certificate.signature)
  let b ← append C b noAdditionalFields
  append C b (if forSign then signMark else [])

end Certificate

/-- A later call on a certificate. -/
inductive Call
  | ownsIp (ip : InetAddress)
  | ownsMac (mac : BitVec 48)
  | serialize (C : Nat) (b : List Byte) (forSign : Bool)
  | addIp (ip : InetAddress)
  | addMac (mac : BitVec 48)

/-- The certificate after a call. -/
def Call.act (certificate : Certificate) : Call → Access Certificate
  | .ownsIp ip => do
      let _ ← certificate.ownsIp ip
      return certificate
  | .ownsMac mac => do
      let _ ← certificate.ownsMac mac
      return certificate
  | .serialize C b forSign => do
      let _ ← certificate.serialize C b forSign
      return certificate
  | .addIp ip => certificate.addIp ip
  | .addMac mac => certificate.addMac mac

/-- A call that throws, which only `serialize` does, leaves the certificate as it is. -/
def step (certificate : Certificate) (call : Call) : Certificate :=
  match call.act certificate with
  | .ok after => after
  | .error _ => certificate

/-- Whatever was called before, no call leaves the arrays. -/
def StaysInside (certificate : Certificate) : Prop :=
  ∀ calls call, Safe (Call.act (run step certificate calls) call)

namespace Certificate

/-- The entries of the arrays. -/
def entries (certificate : Certificate) : List Thing :=
  List.zipWith (fun type value => ⟨type, wordOf 128 value.toList⟩) certificate.thingTypes.toList
    certificate.thingValues.toList

/-- The certificate with the entries that its count speaks of. -/
def meaning (certificate : Certificate) : CertificateOfOwnership where
  networkId := certificate.networkId
  ts := certificate.ts
  flags := certificate.flags
  id := certificate.id
  thingCount := certificate.thingCount
  things := certificate.entries.take certificate.thingCount.toNat
  issuedTo := certificate.issuedTo
  signedBy := certificate.signedBy
  signature := certificate.signature

theorem entries_length (certificate : Certificate) : certificate.entries.length = maxThings := by
  simp [entries]

section Reading

theorem setThing_inside (certificate : Certificate) {i : Nat} (type : Byte) {value : List Byte}
    (inside : i < maxThings) (short : value.length ≤ maxThingValueSize) :
    ∃ changed : Vector Byte maxThingValueSize,
      certificate.setThing i type value = .ok { certificate with
        thingTypes := certificate.thingTypes.set i type
        thingValues := certificate.thingValues.set i changed } ∧
      changed.toList = value ++ certificate.thingValues[i].toList.drop value.length := by
  have room : 0 + value.length ≤ maxThingValueSize := by omega
  obtain ⟨changed, copied, contents⟩ := @copyTo_inside _ _ certificate.thingValues[i] 0 value room
  refine ⟨changed, ?_, by simpa using contents⟩
  unfold setThing
  rw [store_inside _ _ inside, load_inside _ inside]
  simp only [bind, Except.bind, copied, store_inside _ _ inside]
  rfl

theorem safe_setThing {certificate : Certificate} {i : Nat} {type : Byte} {value : List Byte}
    (inside : i < maxThings) (short : value.length ≤ maxThingValueSize) :
    Safe (certificate.setThing i type value) := by
  obtain ⟨changed, set, -⟩ := certificate.setThing_inside type inside short
  rw [set]
  exact safe_ok _

/-- The loop looks at the size of the arrays, whatever the count is. -/
theorem safe_readThings (b : List Byte) (left i p : Nat) (certificate : Certificate) :
    Safe (readThings b left i p certificate) := by
  induction left generalizing i p certificate with
  | zero => exact safe_ok _
  | succ left ih =>
      apply safe_ite
      · intro inside
        apply safe_bind (safe_orThrow _)
        intro type _
        apply safe_bind (safe_orThrow _)
        intro value read
        have sized : value.length = maxThingValueSize := (fieldAt_some (orThrow_ok read)).2.2
        apply safe_bind (safe_setThing inside (Nat.le_of_eq sized))
        intro certificate _
        exact ih _ _ certificate
      · intro beyond
        exact ih _ _ certificate

theorem safe_deserialize (b : List Byte) (startAt : Nat) : Safe (deserialize b startAt) := by
  apply safe_bind (safe_orThrow _)
  intro networkId _
  apply safe_bind (safe_orThrow _)
  intro ts _
  apply safe_bind (safe_orThrow _)
  intro flags _
  apply safe_bind (safe_orThrow _)
  intro id _
  apply safe_bind (safe_orThrow _)
  intro thingCount _
  apply safe_bind (safe_readThings b _ _ _ _)
  intro read _
  apply safe_bind (safe_orThrow _)
  intro issuedTo _
  apply safe_bind (safe_orThrow _)
  intro signedBy _
  apply safe_bind (safe_orThrow _)
  intro signature _
  apply safe_bind (safe_orThrow _)
  intro stop _
  exact safe_ok _

theorem entries_set (certificate : Certificate) {i : Nat} (inside : i < maxThings) (type : Byte)
    (value : Vector Byte maxThingValueSize) :
    entries { certificate with
      thingTypes := certificate.thingTypes.set i type
      thingValues := certificate.thingValues.set i value } =
    certificate.entries.set i ⟨type, wordOf 128 value.toList⟩ := by
  apply List.ext_getElem
  · simp [entries]
  · intro k before after
    by_cases here : i = k
    · simp [entries, here]
    · simp [entries, here]

theorem readThings_full (b : List Byte) {i : Nat} (full : maxThings ≤ i) (left p : Nat) (certificate : Certificate) :
    readThings b left i p certificate = .ok (certificate, p) := by
  induction left generalizing i with
  | zero => rfl
  | succ left ih =>
      rw [readThings, if_neg (Nat.not_lt.mpr full)]
      exact ih (Nat.le_succ_of_le full)

theorem readThings_of_none {b : List Byte} {left i p : Nat} (certificate : Certificate)
    (read : CertificateOfOwnership.readThings b p (min left (maxThings - i)) = none) :
    readThings b left i p certificate = .error .threw := by
  induction left generalizing i p certificate with
  | zero =>
      rw [Nat.zero_min] at read
      cases read
  | succ left ih =>
      by_cases inside : i < maxThings
      · have more : min (left + 1) (maxThings - i) = min left (maxThings - (i + 1)) + 1 := by omega
        rw [more, CertificateOfOwnership.readThings] at read
        rw [readThings, if_pos inside]
        cases typeRead : at8 b p with
        | none => rfl
        | some type =>
            cases valueRead : fieldAt b (p + 1) maxThingValueSize with
            | none => rfl
            | some value =>
                have sized : value.length = maxThingValueSize := (fieldAt_some valueRead).2.2
                obtain ⟨changed, set, contents⟩ := certificate.setThing_inside type inside (Nat.le_of_eq sized)
                simp only [orThrow, Option.elim, bind, Except.bind, set]
                apply ih
                simp only [typeRead, atWord, valueRead, Option.map_some, Option.bind_eq_bind, Option.bind_some] at read
                cases ended : CertificateOfOwnership.readThings b (p + 17) (min left (maxThings - (i + 1))) with
                | none => rfl
                | some found =>
                    rw [ended] at read
                    cases read
      · have full : maxThings - i = 0 := by omega
        rw [full, Nat.min_zero] at read
        cases read

/-- Where the entries can be read, they stand in the arrays behind what was there. -/
theorem readThings_of_some {b : List Byte} {left i p stop : Nat} {things : List Thing} (certificate : Certificate)
    (read : CertificateOfOwnership.readThings b p (min left (maxThings - i)) = some (things, stop)) :
    ∃ thingTypes thingValues,
      readThings b left i p certificate = .ok ({ certificate with thingTypes, thingValues }, stop) ∧
      (entries { certificate with thingTypes, thingValues }).take (i + things.length) =
        certificate.entries.take i ++ things := by
  induction left generalizing i p certificate things with
  | zero =>
      rw [Nat.zero_min] at read
      cases read
      exact ⟨certificate.thingTypes, certificate.thingValues, rfl, by simp⟩
  | succ left ih =>
      by_cases inside : i < maxThings
      · have more : min (left + 1) (maxThings - i) = min left (maxThings - (i + 1)) + 1 := by omega
        rw [more] at read
        obtain ⟨type, typeRead, read⟩ := Option.bind_eq_some_iff.mp read
        obtain ⟨word, wordRead, read⟩ := Option.bind_eq_some_iff.mp read
        obtain ⟨⟨later, last⟩, rest, read⟩ := Option.bind_eq_some_iff.mp read
        cases read
        obtain ⟨value, valueRead, same⟩ := Option.map_eq_some_iff.mp wordRead
        have sized : value.length = maxThingValueSize := (fieldAt_some valueRead).2.2
        obtain ⟨changed, set, contents⟩ := certificate.setThing_inside type inside (Nat.le_of_eq sized)
        have wordSame : wordOf 128 changed.toList = word := by
          rw [contents, sized, ← same, List.drop_eq_nil_of_le (by simp), List.append_nil]
        obtain ⟨thingTypes, thingValues, finished, taken⟩ := ih _ rest
        refine ⟨thingTypes, thingValues, ?_, ?_⟩
        · rw [readThings, if_pos inside, typeRead, valueRead]
          simp only [orThrow, Option.elim, bind, Except.bind, set]
          exact finished
        · have room : i < certificate.entries.length := by
            rw [entries_length]
            exact inside
          rw [List.length_cons, Nat.add_comm later.length 1, ← Nat.add_assoc, taken, entries_set _ inside, wordSame,
            List.take_add_one, List.take_set_of_le (Nat.le_refl i), List.getElem?_set_self room, List.append_assoc]
          rfl
      · have full : maxThings - i = 0 := by omega
        rw [full, Nat.min_zero] at read
        cases read
        exact ⟨certificate.thingTypes, certificate.thingValues,
          readThings_full b (Nat.not_lt.mp inside) _ _ certificate, by simp⟩

/-- `deserialize` fills the arrays with the entries it finds, and otherwise reads what the class means. -/
theorem deserialize_refines (b : List Byte) (startAt : Nat) :
    (deserialize b startAt).map (fun read => (read.1.meaning, read.2)) =
      orThrow (CertificateOfOwnership.deserialize b startAt) := by
  unfold deserialize CertificateOfOwnership.deserialize
  cases at64 b startAt with
  | none => rfl
  | some networkId =>
  cases at64 b (startAt + 8) with
  | none => rfl
  | some ts =>
  cases at64 b (startAt + 16) with
  | none => rfl
  | some flags =>
  cases at32 b (startAt + 24) with
  | none => rfl
  | some id =>
  cases at16 b (startAt + 28) with
  | none => rfl
  | some thingCount =>
  have most : min thingCount.toNat maxThings = min thingCount.toNat (maxThings - 0) := rfl
  cases read : CertificateOfOwnership.readThings b (startAt + 30) (min thingCount.toNat maxThings) with
  | none =>
      have stopped := readThings_of_none { networkId, ts, flags, id, thingCount } (most ▸ read)
      simp only [orThrow, Option.elim, bind, Except.bind, stopped, read, Option.bind]
      rfl
  | some found =>
      obtain ⟨things, p⟩ := found
      obtain ⟨types, values, filled, taken⟩ := readThings_of_some { networkId, ts, flags, id, thingCount } (most ▸ read)
      simp only [orThrow, Option.elim, bind, Except.bind, filled, read, Option.bind]
      cases Address.readAt b p with
      | none => rfl
      | some issuedTo =>
      cases Address.readAt b (p + 5) with
      | none => rfl
      | some signedBy =>
      cases readSignature b (p + 10) with
      | none => rfl
      | some signature =>
      cases ended : skipAdditionalFields b signature.2 with
      | none =>
          simp only [ended]
          rfl
      | some stop =>
          have sized := CertificateOfOwnership.readThings_length read
          have whole : (entries { thingTypes := types, thingValues := values }).take thingCount.toNat = things := by
            rw [List.take_eq_take_min, entries_length, ← sized, ← Nat.zero_add things.length]
            exact taken
          simp only [ended]
          rw [← whole]
          rfl

/-- The count is the one on the wire. -/
theorem deserialize_count {b : List Byte} {startAt taken : Nat} {certificate : Certificate}
    (read : deserialize b startAt = .ok (certificate, taken)) :
    at16 b (startAt + 28) = some certificate.thingCount := by
  have meant := deserialize_refines b startAt
  rw [read] at meant
  have read := orThrow_ok meant.symm
  obtain ⟨networkId, -, read⟩ := Option.bind_eq_some_iff.mp read
  obtain ⟨ts, -, read⟩ := Option.bind_eq_some_iff.mp read
  obtain ⟨flags, -, read⟩ := Option.bind_eq_some_iff.mp read
  obtain ⟨id, -, read⟩ := Option.bind_eq_some_iff.mp read
  obtain ⟨thingCount, counted, read⟩ := Option.bind_eq_some_iff.mp read
  obtain ⟨⟨things, next⟩, -, read⟩ := Option.bind_eq_some_iff.mp read
  obtain ⟨issuedTo, -, read⟩ := Option.bind_eq_some_iff.mp read
  obtain ⟨signedBy, -, read⟩ := Option.bind_eq_some_iff.mp read
  obtain ⟨⟨signature, behind⟩, -, read⟩ := Option.bind_eq_some_iff.mp read
  obtain ⟨stop, -, read⟩ := Option.bind_eq_some_iff.mp read
  have same : thingCount = certificate.thingCount :=
    congrArg (fun found => CertificateOfOwnership.thingCount (Prod.fst found)) (Option.some.inj read)
  rw [counted, same]

end Reading

section Owning

/-- The first bytes of a value are compared. -/
theorem sameBytes_eq (value : Vector Byte maxThingValueSize) {k : Nat} {v : List Byte}
    (short : k + v.length ≤ maxThingValueSize) :
    sameBytes value k v = .ok (decide (v = (value.toList.drop k).take v.length)) := by
  induction v generalizing k with
  | nil => rfl
  | cons first rest ih =>
      rw [List.length_cons] at short
      have inside : k < maxThingValueSize := by omega
      have sized : k < value.toList.length := by simpa using inside
      have next := @ih (k + 1) (by omega)
      rw [sameBytes, load_inside value inside, List.drop_eq_getElem_cons sized, List.length_cons, List.take_succ_cons,
        Vector.getElem_toList]
      by_cases same : first = value[k]
      · simp [bind, Except.bind, same, next]
      · simp [bind, Except.bind, same]
        rfl

/-- The first bytes of a word are the number that is left when the others are shifted out. -/
theorem wordOf_first (bytes v : List Byte) (sized : bytes.length = maxThingValueSize)
    (short : v.length ≤ maxThingValueSize) :
    v = bytes.take v.length ↔ ((wordOf 128 bytes) >>> (128 - 8 * v.length)).toNat = bigEndianValue v := by
  have split := bigEndianValue_append (bytes.take v.length) (bytes.drop v.length)
  have below := bigEndianValue_lt (bytes.drop v.length)
  have whole := bigEndianValue_lt bytes
  have shifted : 256 ^ (bytes.drop v.length).length = 2 ^ (128 - 8 * v.length) := by
    have size : maxThingValueSize = 16 := rfl
    have bits : 8 * (maxThingValueSize - v.length) = 128 - 8 * v.length := by omega
    rw [List.length_drop, sized, show 256 = 2 ^ 8 from rfl, ← Nat.pow_mul, bits]
  have first : ((wordOf 128 bytes) >>> (128 - 8 * v.length)).toNat = bigEndianValue (bytes.take v.length) := by
    rw [wordOf, BitVec.toNat_ushiftRight, BitVec.toNat_ofNat, Nat.mod_eq_of_lt (by rw [sized] at whole; exact whole),
      Nat.shiftRight_eq_div_pow, ← shifted]
    rw [List.take_append_drop] at split
    rw [split, Nat.add_comm, Nat.add_mul_div_right _ _ (Nat.zero_lt_of_lt below), Nat.div_eq_of_lt below, Nat.zero_add]
  rw [first]
  constructor
  · intro same
    rw [← same]
  · intro same
    have counted : (bytes.take v.length).length = v.length := by
      rw [List.length_take]
      omega
    calc v = bigEndian v.length (bigEndianValue v) := (bigEndian_bigEndianValue v).symm
      _ = bigEndian (bytes.take v.length).length (bigEndianValue (bytes.take v.length)) := by rw [same, counted]
      _ = bytes.take v.length := bigEndian_bigEndianValue _

/-- The entry has the type and begins with the bytes. -/
def Matches (t : Byte) (v : List Byte) (thing : Thing) : Bool :=
  thing.type = t ∧ (thing.value >>> (128 - 8 * v.length)).toNat = bigEndianValue v

/-- The loop answers at the first entry that matches, and without one leaves the arrays if the count does. -/
theorem ownsFrom_eq (certificate : Certificate) (t : Byte) {v : List Byte} (short : v.length ≤ maxThingValueSize)
    (left : Nat) {i : Nat} (start : i ≤ maxThings) :
    certificate.ownsFrom t v left i =
      if ((certificate.entries.drop i).take left).any (Matches t v) then .ok true
      else if i + left ≤ maxThings then .ok false else .error .outOfBounds := by
  induction left generalizing i with
  | zero => simp [ownsFrom, start]
  | succ left ih =>
      by_cases inside : i < maxThings
      · have room : i < certificate.entries.length := by
          rw [entries_length]
          exact inside
        have here : certificate.entries[i] =
            ⟨certificate.thingTypes[i], wordOf 128 certificate.thingValues[i].toList⟩ := by
          simp [entries]
        have later := @ih (i + 1) inside
        have counted : i + (left + 1) = i + 1 + left := by omega
        rw [ownsFrom, load_inside _ inside, load_inside _ inside, List.drop_eq_getElem_cons room, List.take_succ_cons,
          List.any_cons, here, counted]
        have same := wordOf_first certificate.thingValues[i].toList v (by simp) short
        have compared := @sameBytes_eq certificate.thingValues[i] 0 v (by omega)
        rw [List.drop_zero] at compared
        by_cases typed : certificate.thingTypes[i] = t
        · by_cases equal : v = certificate.thingValues[i].toList.take v.length
          · simp only [bind, Except.bind, typed, compared, ← equal, Matches, same.mp equal]
            simp
            rfl
          · simp only [bind, Except.bind, typed, compared, equal, Matches, mt same.mpr equal]
            simp [later]
        · simp only [bind, Except.bind, typed, Matches]
          simp [later]
      · have last : i = maxThings := by omega
        have none_left : certificate.entries.drop i = [] := by
          apply List.drop_eq_nil_of_le
          rw [entries_length]
          omega
        rw [ownsFrom, load_outside _ (Nat.not_lt.mp inside), none_left, List.take_nil, List.any_nil,
          if_neg Bool.false_ne_true, if_neg (by omega)]
        rfl

theorem ownsThing_eq (certificate : Certificate) (t : Byte) {v : List Byte} (short : v.length ≤ maxThingValueSize) :
    certificate.ownsThing t v =
      if (certificate.entries.take certificate.thingCount.toNat).any (Matches t v) then .ok true
      else if certificate.thingCount.toNat ≤ maxThings then .ok false else .error .outOfBounds := by
  rw [ownsThing, ownsFrom_eq certificate t short _ (Nat.zero_le _), List.drop_zero, Nat.zero_add]

/-- `_owns` leaves the arrays when the count does and no entry matches. -/
theorem safe_ownsThing {certificate : Certificate} {t : Byte} {v : List Byte} (short : v.length ≤ maxThingValueSize) :
    Safe (certificate.ownsThing t v) ↔
      certificate.thingCount.toNat ≤ maxThings ∨ ∃ thing ∈ certificate.entries, Matches t v thing = true := by
  rw [ownsThing_eq certificate t short]
  by_cases sized : certificate.thingCount.toNat ≤ maxThings
  · rw [if_pos sized]
    constructor
    · exact fun _ => Or.inl sized
    · intro _
      split
      · exact safe_ok true
      · exact safe_ok false
  · have whole : certificate.entries.take certificate.thingCount.toNat = certificate.entries := by
      apply List.take_of_length_le
      rw [entries_length]
      omega
    rw [whole, if_neg sized]
    by_cases found : certificate.entries.any (Matches t v) = true
    · rw [if_pos found]
      exact ⟨fun _ => Or.inr (List.any_eq_true.mp found), fun _ => safe_ok true⟩
    · rw [if_neg found]
      constructor
      · exact fun safe => absurd rfl safe
      · exact fun other => absurd (List.any_eq_true.mpr (other.resolve_left sized)) found

/-- With a count within the arrays, `_owns` is the ownership that the class means. -/
theorem ownsThing_refines {certificate : Certificate} (t : Byte) (n : Nat) {width : Nat} (value : BitVec width)
    (sized : certificate.thingCount.toNat ≤ maxThings) (covers : width ≤ 8 * n) (short : n ≤ maxThingValueSize) :
    certificate.ownsThing t (wordBytes n value) = .ok (certificate.meaning.ownsThing t n value) := by
  rw [ownsThing_eq certificate t (by rw [wordBytes_length]; exact short), if_pos sized]
  have matched : Matches t (wordBytes n value) =
      fun thing : Thing => decide (thing.type = t ∧ (thing.value >>> (128 - 8 * n)).toNat = value.toNat) := by
    funext thing
    rw [Matches, wordBytes_length, bigEndianValue_wordBytes n value covers]
  rw [CertificateOfOwnership.ownsThing, meaning, List.take_take, Nat.min_self, matched]
  cases (certificate.entries.take certificate.thingCount.toNat).any
    (fun thing : Thing => decide (thing.type = t ∧ (thing.value >>> (128 - 8 * n)).toNat = value.toNat)) with
  | true => rfl
  | false => rfl

theorem ownsIp_refines {certificate : Certificate} (ip : InetAddress)
    (sized : certificate.thingCount.toNat ≤ maxThings) :
    certificate.ownsIp ip = .ok (certificate.meaning.ownsIp ip) := by
  cases ip with
  | nil => rfl
  | v4 ip port => exact ownsThing_refines 2 4 ip sized (by decide) (by decide)
  | v6 ip port => exact ownsThing_refines 3 16 ip sized (by decide) (by decide)

theorem ownsMac_refines {certificate : Certificate} (mac : BitVec 48)
    (sized : certificate.thingCount.toNat ≤ maxThings) :
    certificate.ownsMac mac = .ok (certificate.meaning.ownsMac mac) :=
  ownsThing_refines 1 6 mac sized (by decide) (by decide)

end Owning

section Writing

variable {C : Nat}

theorem safe_append (b bytes : List Byte) : Safe (append C b bytes) := by
  unfold append
  apply safe_ite
  · exact fun _ wrong => nomatch wrong
  · exact fun _ => safe_ok _

/-- What follows an `append` is reached if there was room. -/
theorem safe_append_bind {α : Type} {b bytes : List Byte} {next : List Byte → Access α} :
    Safe (append C b bytes >>= next) ↔ C < b.length + bytes.length ∨ Safe (next (b ++ bytes)) := by
  unfold append
  by_cases full : C < b.length + bytes.length
  · rw [if_pos full]
    exact ⟨fun _ => Or.inl full, fun _ wrong => nomatch wrong⟩
  · rw [if_neg full]
    exact ⟨Or.inr, fun reached => reached.resolve_left full⟩

/-- The loop of `serialize` stays inside the arrays if the count does or the buffer is full before. -/
theorem safe_appendThings (certificate : Certificate) (left : Nat) {i : Nat} {b : List Byte} (start : i ≤ maxThings)
    (held : b.length ≤ C) :
    Safe (certificate.appendThings C left i b) ↔ i + left ≤ maxThings ∨ C < b.length + 17 * (maxThings - i) := by
  induction left generalizing i b with
  | zero => exact ⟨fun _ => Or.inl start, fun _ => safe_ok b⟩
  | succ left ih =>
      by_cases inside : i < maxThings
      · have value : certificate.thingValues[i].toList.length = 16 := Vector.length_toList
        have first : (b ++ [certificate.thingTypes[i]]).length = b.length + 1 := List.length_append
        have both : (b ++ [certificate.thingTypes[i]] ++ certificate.thingValues[i].toList).length = b.length + 17 := by
          rw [List.length_append, first, value]
        rw [appendThings, load_inside _ inside, load_inside _ inside]
        change Safe (append C b [certificate.thingTypes[i]] >>= fun b =>
          append C b certificate.thingValues[i].toList >>= appendThings certificate C left (i + 1)) ↔ _
        rw [safe_append_bind, safe_append_bind, first, value, List.length_singleton]
        by_cases full : C < b.length + 17
        · constructor
          · intro _
            right
            omega
          · intro _
            right
            left
            omega
        · rw [ih inside (by rw [both]; omega), both]
          omega
      · rw [appendThings, load_outside _ (Nat.not_lt.mp inside)]
        constructor
        · exact fun safe => absurd rfl safe
        · omega

/-- The size of what `serialize` writes in front of the entries. -/
def headSize (forSign : Bool) : Nat := (if forSign then 8 else 0) + 30

/-- `serialize` leaves the arrays when the count does and the buffer has room for the entries. -/
theorem safe_serialize {certificate : Certificate} {b : List Byte} {forSign : Bool} :
    Safe (certificate.serialize C b forSign) ↔ certificate.thingCount.toNat ≤ maxThings ∨
      C < b.length + headSize forSign + 17 * maxThings := by
  have mark : (if forSign then signMark else []).length = if forSign then 8 else 0 := by
    cases forSign with
    | true => rfl
    | false => rfl
  have tail (b : List Byte) : Safe (do
      let b ← append C b certificate.issuedTo.appendTo
      let b ← append C b certificate.signedBy.appendTo
      let b ← append C b (if forSign then [] else signatureField certificate.signature)
      let b ← append C b noAdditionalFields
      append C b (if forSign then signMark else [])) := by
    apply safe_bind (safe_append _ _)
    intro b _
    apply safe_bind (safe_append _ _)
    intro b _
    apply safe_bind (safe_append _ _)
    intro b _
    apply safe_bind (safe_append _ _)
    intro b _
    exact safe_append _ _
  unfold serialize
  rw [safe_append_bind, safe_append_bind, safe_append_bind, safe_append_bind, safe_append_bind, safe_append_bind,
    safe_bind_iff tail]
  simp only [List.length_append, wordBytes_length, mark]
  by_cases full : C < b.length + headSize forSign
  · unfold headSize at full ⊢
    constructor
    · intro _
      right
      omega
    · intro _
      right; right; right; right; right; left
      omega
  · unfold headSize at full ⊢
    rw [safe_appendThings certificate _ (Nat.zero_le _)]
    · simp only [List.length_append, wordBytes_length, mark]
      omega
    · simp only [List.length_append, wordBytes_length, mark]
      omega

end Writing

section Calls

theorem addThing_ok (certificate : Certificate) (type : Byte) {value : List Byte}
    (short : value.length ≤ maxThingValueSize) :
    ∃ after, certificate.addThing type value = .ok after ∧
      (certificate.thingCount.toNat ≤ maxThings → after.thingCount.toNat ≤ maxThings) := by
  unfold addThing
  by_cases full : maxThings ≤ certificate.thingCount.toNat
  · rw [if_pos full]
    exact ⟨certificate, rfl, fun sized => sized⟩
  · obtain ⟨changed, set, -⟩ := certificate.setThing_inside type (Nat.not_le.mp full) short
    rw [if_neg full, set]
    refine ⟨_, rfl, ?_⟩
    intro _
    have small : maxThings = 16 := rfl
    change (certificate.thingCount + 1).toNat ≤ maxThings
    rw [BitVec.toNat_add, show (1 : BitVec 16).toNat = 1 from rfl]
    omega

theorem addIp_ok (certificate : Certificate) (ip : InetAddress) :
    ∃ after, certificate.addIp ip = .ok after ∧
      (certificate.thingCount.toNat ≤ maxThings → after.thingCount.toNat ≤ maxThings) := by
  cases ip with
  | nil => exact ⟨certificate, rfl, fun sized => sized⟩
  | v4 ip port => exact certificate.addThing_ok 2 (by rw [wordBytes_length]; decide)
  | v6 ip port => exact certificate.addThing_ok 3 (by rw [wordBytes_length])

theorem addMac_ok (certificate : Certificate) (mac : BitVec 48) :
    ∃ after, certificate.addMac mac = .ok after ∧
      (certificate.thingCount.toNat ≤ maxThings → after.thingCount.toNat ≤ maxThings) :=
  certificate.addThing_ok 1 (by rw [wordBytes_length]; decide)

/-- No call leaves the arrays of a certificate whose count is within them. -/
theorem safe_act {certificate : Certificate} (call : Call) (sized : certificate.thingCount.toNat ≤ maxThings) :
    Safe (call.act certificate) := by
  cases call with
  | ownsIp ip =>
      apply (safe_bind_iff (fun _ => safe_ok certificate)).mpr
      rw [ownsIp_refines ip sized]
      exact safe_ok _
  | ownsMac mac =>
      apply (safe_bind_iff (fun _ => safe_ok certificate)).mpr
      rw [ownsMac_refines mac sized]
      exact safe_ok _
  | serialize C b forSign =>
      apply (safe_bind_iff (fun _ => safe_ok certificate)).mpr
      exact safe_serialize.mpr (Or.inl sized)
  | addIp ip =>
      obtain ⟨after, added, -⟩ := certificate.addIp_ok ip
      change Safe (certificate.addIp ip)
      rw [added]
      exact safe_ok after
  | addMac mac =>
      obtain ⟨after, added, -⟩ := certificate.addMac_ok mac
      change Safe (certificate.addMac mac)
      rw [added]
      exact safe_ok after

/-- Every call keeps the count within the arrays. -/
theorem step_sized {certificate : Certificate} (call : Call) (sized : certificate.thingCount.toNat ≤ maxThings) :
    (step certificate call).thingCount.toNat ≤ maxThings := by
  have reading {α : Type} (first : Access α) : (match (do
      let _ ← first
      return certificate : Access Certificate) with
      | .ok after => after
      | .error _ => certificate) = certificate := by
    cases first <;> rfl
  unfold step
  cases call with
  | ownsIp ip => rwa [Call.act, reading]
  | ownsMac mac => rwa [Call.act, reading]
  | serialize C b forSign => rwa [Call.act, reading]
  | addIp ip =>
      obtain ⟨after, added, kept⟩ := certificate.addIp_ok ip
      rw [Call.act, added]
      exact kept sized
  | addMac mac =>
      obtain ⟨after, added, kept⟩ := certificate.addMac_ok mac
      rw [Call.act, added]
      exact kept sized

/-- All later calls stay inside the arrays exactly if the count does. -/
theorem staysInside_iff (certificate : Certificate) :
    StaysInside certificate ↔ certificate.thingCount.toNat ≤ maxThings := by
  constructor
  · intro inside
    have written := inside [] (.serialize 1000 [] false)
    have serialized := safe_serialize.mp ((safe_bind_iff (fun _ => safe_ok certificate)).mp written)
    refine serialized.resolve_right ?_
    decide
  · intro sized calls call
    have kept : Throughout step (fun certificate => certificate.thingCount.toNat ≤ maxThings) certificate calls :=
      throughout_of_preserved (fun _ call sized => step_sized call sized) sized
    exact safe_act call kept.last

end Calls

end Certificate

open Certificate

/-- The count on the wire is not larger than the arrays. -/
def CountFits (b : List Byte) (startAt : Nat) : Prop :=
  ∀ count, at16 b (startAt + 28) = some count → count.toNat ≤ maxThings

/-- `deserialize` writes inside the arrays, but what it accepts has a count within them, and is safe to use, exactly
if the count on the wire is. -/
theorem things_inside_iff (b : List Byte) (startAt : Nat) :
    Safe (deserialize b startAt) ∧
      ∀ certificate taken, deserialize b startAt = .ok (certificate, taken) →
        (certificate.thingCount.toNat ≤ maxThings ↔ CountFits b startAt) ∧
        (StaysInside certificate ↔ CountFits b startAt) := by
  refine ⟨safe_deserialize b startAt, ?_⟩
  intro certificate taken read
  have counted : CountFits b startAt ↔ certificate.thingCount.toNat ≤ maxThings := by
    unfold CountFits
    rw [deserialize_count read]
    simp
  rw [counted, staysInside_iff]
  exact ⟨Iff.rfl, Iff.rfl⟩

/-- A certificate of member 2 for the IP 10.1.2.3 and the MAC 32:a1:b2:c3:d4:e5, without a signature. -/
def twoThings : List Byte :=
  wordBytes 8 (0x8056c2e21c000001 : BitVec 64) ++ wordBytes 8 (1700000000000 : BitVec 64) ++ List.replicate 8 0 ++
    wordBytes 4 (7 : BitVec 32) ++ [0, 2] ++ (2 :: 10 :: 1 :: 2 :: 3 :: List.replicate 12 0) ++
    (1 :: 0x32 :: 0xa1 :: 0xb2 :: 0xc3 :: 0xd4 :: 0xe5 :: List.replicate 10 0) ++
    [0, 0, 0, 0, 2] ++ [0x80, 0x56, 0xc2, 0xe2, 0x1c] ++ List.replicate 5 0

/-- What `twoThings` says. -/
def twoOwned : Certificate where
  networkId := 0x8056c2e21c000001
  ts := 1700000000000
  id := 7
  thingCount := 2
  thingTypes := #v[2, 1, 0, 0, 0, 0, 0, 0, 0, 0, 0, 0, 0, 0, 0, 0]
  thingValues := ((Vector.replicate maxThings (Vector.replicate maxThingValueSize 0)).set 0
    #v[10, 1, 2, 3, 0, 0, 0, 0, 0, 0, 0, 0, 0, 0, 0, 0]).set 1
      #v[0x32, 0xa1, 0xb2, 0xc3, 0xd4, 0xe5, 0, 0, 0, 0, 0, 0, 0, 0, 0, 0]
  issuedTo := 2
  signedBy := 0x8056c2e21c

/-- Two entries are read, found, and safe to use. -/
theorem two_stay_inside :
    deserialize twoThings 0 = .ok (twoOwned, 79) ∧ twoOwned.ownsMac 0x32a1b2c3d4e5 = .ok true ∧
      StaysInside twoOwned := by
  have read : deserialize twoThings 0 = .ok (twoOwned, 79) := by decide +kernel
  have count : at16 twoThings (0 + 28) = some 2 := by decide +kernel
  refine ⟨read, by decide +kernel, ((things_inside_iff twoThings 0).2 twoOwned 79 read).2.mpr ?_⟩
  intro other same
  rw [← Option.some.inj (count.symm.trans same)]
  decide

/-- A certificate that counts 17 entries, the first 16 being empty. -/
def seventeen : List Byte := List.replicate 29 0 ++ 17 :: List.replicate 287 0

theorem seventeen_leaves_arrays :
    ∃ certificate, deserialize seventeen 0 = .ok (certificate, 317) ∧ ¬ certificate.thingCount.toNat ≤ maxThings ∧
      certificate.ownsMac 0x32a1b2c3d4e5 = .error .outOfBounds ∧
      certificate.serialize 480 [] true = .error .outOfBounds ∧ ¬ StaysInside certificate := by
  refine ⟨{ thingCount := 17 }, ?_, ?_, ?_, ?_, ?_⟩
  · decide +kernel
  · decide
  · decide +kernel
  · decide +kernel
  · intro inside
    exact inside [] (.ownsMac 0x32a1b2c3d4e5) (by decide +kernel)

end ZeroTierNode.ThingArrays

import Mathlib.Data.List.TakeWhile
import ZeroTierNode.ConfigDictionary

/-!
The wire forms read back: what a serializer writes, wherever it stands in a
buffer, is what the matching deserializer returns. Records with counts or types in
them are recovered when they are canonical, and everything a deserializer
returns is.
-/

namespace ZeroTierNode
open Library.Bytes Library.Records Buffer

section Fields

variable {b rest : List Byte} {p : Nat}

theorem at8_of_stands {word : Byte} (here : Stands (wordBytes 1 word ++ rest) b p) :
    at8 b p = some word ∧ Stands rest b (p + 1) := atWord_of_stands (by decide) (by decide) here

theorem at16_of_stands {word : BitVec 16} (here : Stands (wordBytes 2 word ++ rest) b p) :
    at16 b p = some word ∧ Stands rest b (p + 2) := atWord_of_stands (by decide) (by decide) here

theorem at32_of_stands {word : BitVec 32} (here : Stands (wordBytes 4 word ++ rest) b p) :
    at32 b p = some word ∧ Stands rest b (p + 4) := atWord_of_stands (by decide) (by decide) here

theorem at64_of_stands {word : BitVec 64} (here : Stands (wordBytes 8 word ++ rest) b p) :
    at64 b p = some word ∧ Stands rest b (p + 8) := atWord_of_stands (by decide) (by decide) here

theorem address_of_stands {a : Address} (here : Stands (a.appendTo ++ rest) b p) :
    Address.readAt b p = some a ∧ Stands rest b (p + 5) := atWord_of_stands (by decide) (by decide) here

theorem signature_of_stands {signature : Signature} (here : Stands (signatureField signature ++ rest) b p) :
    readSignature b p = some (signature, p + 99) ∧ Stands rest b (p + 99) := by
  simp only [signatureField, List.append_assoc] at here
  obtain ⟨scheme, here⟩ := at8_of_stands here
  obtain ⟨length, here⟩ := at16_of_stands here
  obtain ⟨bytes, here⟩ := atWord_of_stands (by decide : 768 ≤ 8 * 96) (by decide) here
  simp only [Nat.add_assoc, Nat.reduceAdd] at bytes here
  refine ⟨?_, here⟩
  have sized : (BitVec.ofNat 16 signatureLen).toNat = signatureLen := rfl
  simp only [readSignature, scheme, length, bytes, sized, Option.bind_eq_bind, Option.bind_some, if_true,
    Option.pure_def, Nat.add_assoc]
  rfl

theorem additionalFields_of_stands (here : Stands noAdditionalFields b p) :
    skipAdditionalFields b p = some (p + 2) := by
  have inside := here.inside (by decide)
  rw [← List.append_nil noAdditionalFields] at here
  obtain ⟨length, -⟩ := at16_of_stands here
  have within : p + 2 ≤ b.length := inside
  simp [skipAdditionalFields, length, within]

theorem readSignature_next {signature : Signature} {next : Nat}
    (read : readSignature b p = some (signature, next)) : p < next := by
  obtain ⟨scheme, -, read⟩ := Option.bind_eq_some_iff.mp read
  obtain ⟨length, -, read⟩ := Option.bind_eq_some_iff.mp read
  split at read
  · split at read
    · obtain ⟨bytes, -, read⟩ := Option.bind_eq_some_iff.mp read
      cases read
      omega
    · cases read
  · cases read
    omega

theorem skipAdditionalFields_next {next : Nat} (read : skipAdditionalFields b p = some next) : p < next := by
  obtain ⟨length, -, read⟩ := Option.bind_eq_some_iff.mp read
  split at read
  · cases read
    omega
  · cases read

end Fields

namespace InetAddress

theorem recovers (addr : InetAddress) : Recovers deserialize addr.serialize addr := by
  intro b p here
  rw [← List.append_nil addr.serialize] at here
  cases addr with
  | nil =>
      simp only [serialize] at here
      obtain ⟨type, -⟩ := at8_of_stands here
      simp [deserialize, serialize, type]
  | v4 ip port =>
      simp only [serialize, List.append_assoc] at here
      obtain ⟨type, here⟩ := at8_of_stands here
      obtain ⟨ipRead, here⟩ := atWord_of_stands (by decide : 32 ≤ 8 * 4) (by decide) here
      obtain ⟨portRead, -⟩ := at16_of_stands here
      simp only [Nat.add_assoc, Nat.reduceAdd] at portRead
      simp [deserialize, serialize, type, ipRead, portRead]
  | v6 ip port =>
      simp only [serialize, List.append_assoc] at here
      obtain ⟨type, here⟩ := at8_of_stands here
      obtain ⟨ipRead, here⟩ := atWord_of_stands (by decide : 128 ≤ 8 * 16) (by decide) here
      obtain ⟨portRead, -⟩ := at16_of_stands here
      simp only [Nat.add_assoc, Nat.reduceAdd] at portRead
      simp [deserialize, serialize, type, ipRead, portRead]

theorem serialize_ne_nil (addr : InetAddress) : addr.serialize ≠ [] := by
  cases addr <;> simp [serialize, wordBytes, bigEndian]

end InetAddress

namespace Tag

theorem recovers (tag : Tag) : Recovers deserialize (tag.serialize false) tag := by
  intro b p here
  simp only [serialize, Bool.false_eq_true, if_false, List.nil_append, List.append_nil,
    List.append_assoc] at here
  obtain ⟨networkId, here⟩ := at64_of_stands here
  obtain ⟨ts, here⟩ := at64_of_stands here
  obtain ⟨id, here⟩ := at32_of_stands here
  obtain ⟨value, here⟩ := at32_of_stands here
  obtain ⟨issuedTo, here⟩ := address_of_stands here
  obtain ⟨signedBy, here⟩ := address_of_stands here
  obtain ⟨signature, here⟩ := signature_of_stands here
  have stop := additionalFields_of_stands here
  simp only [Nat.add_assoc, Nat.reduceAdd] at ts id value issuedTo signedBy signature stop
  simp [deserialize, networkId, ts, id, value, issuedTo, signedBy, signature, stop, serialize,
    Address.appendTo, signatureField, noAdditionalFields]

theorem serialize_ne_nil (tag : Tag) : tag.serialize false ≠ [] := by
  simp [serialize, wordBytes, bigEndian]

theorem progresses : Progresses deserialize := by
  intro b p tag taken read
  obtain ⟨networkId, -, read⟩ := Option.bind_eq_some_iff.mp read
  obtain ⟨ts, -, read⟩ := Option.bind_eq_some_iff.mp read
  obtain ⟨id, -, read⟩ := Option.bind_eq_some_iff.mp read
  obtain ⟨value, -, read⟩ := Option.bind_eq_some_iff.mp read
  obtain ⟨issuedTo, -, read⟩ := Option.bind_eq_some_iff.mp read
  obtain ⟨signedBy, -, read⟩ := Option.bind_eq_some_iff.mp read
  obtain ⟨⟨signature, next⟩, signed, read⟩ := Option.bind_eq_some_iff.mp read
  obtain ⟨stop, skipped, read⟩ := Option.bind_eq_some_iff.mp read
  have behind := readSignature_next signed
  have further := skipAdditionalFields_next skipped
  cases read
  omega

end Tag

/-- The value holds the members of the rule's type and nothing else. -/
def Rule.Canonical (rule : Rule) : Prop := ∃ b p, readRuleField b p rule.ruleType = some rule.v

/-- What the wire form of a rule keeps of its value. -/
def carriedValue (v : RuleValue) : RuleType → RuleValue
  | .actionTee | .actionWatch | .actionRedirect =>
      { fwdAddress := v.fwdAddress, fwdFlags := v.fwdFlags, fwdLength := v.fwdLength }
  -- five bytes are written of the eight
  | .matchSourceZeroTierAddress | .matchDestZeroTierAddress => { zt := (Address.ofInt v.zt).toInt }
  | .matchVlanId => { vlanId := v.vlanId }
  | .matchVlanPcp => { vlanPcp := v.vlanPcp }
  | .matchVlanDei => { vlanDei := v.vlanDei }
  | .matchMacSource | .matchMacDest => { mac := v.mac }
  | .matchIpv4Source | .matchIpv4Dest => { ipv4Ip := v.ipv4Ip, ipv4Mask := v.ipv4Mask }
  | .matchIpv6Source | .matchIpv6Dest => { ipv6Ip := v.ipv6Ip, ipv6Mask := v.ipv6Mask }
  | .matchIpTos => { ipTosMask := v.ipTosMask, ipTosValue0 := v.ipTosValue0, ipTosValue1 := v.ipTosValue1 }
  | .matchIpProtocol => { ipProtocol := v.ipProtocol }
  | .matchEtherType => { etherType := v.etherType }
  | .matchIcmp => { icmpType := v.icmpType, icmpCode := v.icmpCode, icmpFlags := v.icmpFlags }
  | .matchIpSourcePortRange | .matchIpDestPortRange => { port0 := v.port0, port1 := v.port1 }
  | .matchCharacteristics => { characteristics := v.characteristics }
  | .matchFrameSizeRange => { frameSize0 := v.frameSize0, frameSize1 := v.frameSize1 }
  | .matchRandom => { randomProbability := v.randomProbability }
  | .matchTagsDifference | .matchTagsBitwiseAnd | .matchTagsBitwiseOr | .matchTagsBitwiseXor
  | .matchTagsEqual | .matchTagSender | .matchTagReceiver => { tagId := v.tagId, tagValue := v.tagValue }
  | .matchIntegerRange =>
      { intRangeStart := v.intRangeStart, intRangeEnd := v.intRangeEnd, intRangeIdx := v.intRangeIdx,
        intRangeFormat := v.intRangeFormat }
  | .actionDrop | .actionAccept | .actionBreak | .actionPriority | .unknown => {}

def Rule.carried (rule : Rule) : Rule := ⟨rule.t, carriedValue rule.v rule.ruleType⟩

theorem ruleFieldBytes_length (v : RuleValue) (type : RuleType) :
    (ruleFieldBytes v type).length = ruleFieldLen type := by
  cases type <;> simp [ruleFieldBytes, ruleFieldLen, Address.appendTo]

/-- Where the field data of a value stand, the value is read as far as it is carried. -/
theorem readRuleField_of_stands {b : List Byte} {p : Nat} {type : RuleType} {v : RuleValue}
    (here : Stands (ruleFieldBytes v type) b p) : readRuleField b p type = some (carriedValue v type) := by
  rw [← List.append_nil (ruleFieldBytes v type)] at here
  cases type with
  | actionTee | actionWatch | actionRedirect =>
      simp only [ruleFieldBytes, List.append_assoc] at here
      obtain ⟨first, here⟩ := at64_of_stands here
      obtain ⟨second, here⟩ := at32_of_stands here
      obtain ⟨third, -⟩ := at16_of_stands here
      simp only [Nat.add_assoc, Nat.reduceAdd] at third
      simp [readRuleField, carriedValue, first, second, third]
  | matchSourceZeroTierAddress | matchDestZeroTierAddress =>
      obtain ⟨first, -⟩ := address_of_stands here
      simp [readRuleField, carriedValue, first]
  | matchVlanId | matchEtherType =>
      obtain ⟨first, -⟩ := at16_of_stands here
      simp [readRuleField, carriedValue, first]
  | matchVlanPcp | matchVlanDei | matchIpProtocol =>
      obtain ⟨first, -⟩ := at8_of_stands here
      simp [readRuleField, carriedValue, first]
  | matchMacSource | matchMacDest =>
      obtain ⟨first, -⟩ := atWord_of_stands (by decide : 48 ≤ 8 * 6) (by decide) here
      simp [readRuleField, carriedValue, first]
  | matchIpv4Source | matchIpv4Dest =>
      simp only [ruleFieldBytes, List.append_assoc] at here
      obtain ⟨first, here⟩ := atWord_of_stands (by decide : 32 ≤ 8 * 4) (by decide) here
      obtain ⟨second, -⟩ := at8_of_stands here
      simp [readRuleField, carriedValue, first, second]
  | matchIpv6Source | matchIpv6Dest =>
      simp only [ruleFieldBytes, List.append_assoc] at here
      obtain ⟨first, here⟩ := atWord_of_stands (by decide : 128 ≤ 8 * 16) (by decide) here
      obtain ⟨second, -⟩ := at8_of_stands here
      simp [readRuleField, carriedValue, first, second]
  | matchIpTos | matchIcmp =>
      simp only [ruleFieldBytes, List.append_assoc] at here
      obtain ⟨first, here⟩ := at8_of_stands here
      obtain ⟨second, here⟩ := at8_of_stands here
      obtain ⟨third, -⟩ := at8_of_stands here
      simp only [Nat.add_assoc, Nat.reduceAdd] at third
      simp [readRuleField, carriedValue, first, second, third]
  | matchIpSourcePortRange | matchIpDestPortRange | matchFrameSizeRange =>
      simp only [ruleFieldBytes, List.append_assoc] at here
      obtain ⟨first, here⟩ := at16_of_stands here
      obtain ⟨second, -⟩ := at16_of_stands here
      simp [readRuleField, carriedValue, first, second]
  | matchCharacteristics =>
      obtain ⟨first, -⟩ := at64_of_stands here
      simp [readRuleField, carriedValue, first]
  | matchRandom =>
      obtain ⟨first, -⟩ := at32_of_stands here
      simp [readRuleField, carriedValue, first]
  | matchTagsDifference | matchTagsBitwiseAnd | matchTagsBitwiseOr | matchTagsBitwiseXor | matchTagsEqual
  | matchTagSender | matchTagReceiver =>
      simp only [ruleFieldBytes, List.append_assoc] at here
      obtain ⟨first, here⟩ := at32_of_stands here
      obtain ⟨second, -⟩ := at32_of_stands here
      simp [readRuleField, carriedValue, first, second]
  | matchIntegerRange =>
      simp only [ruleFieldBytes, List.append_assoc] at here
      obtain ⟨first, here⟩ := at64_of_stands here
      obtain ⟨second, here⟩ := at64_of_stands here
      obtain ⟨third, here⟩ := at16_of_stands here
      obtain ⟨fourth, -⟩ := at8_of_stands here
      simp only [Nat.add_assoc, Nat.reduceAdd] at third fourth
      have width : (v.intRangeStart + v.intRangeEnd.setWidth 64 - v.intRangeStart).setWidth 32 =
          v.intRangeEnd := by
        rw [BitVec.add_comm, BitVec.add_sub_cancel, BitVec.setWidth_setWidth_of_le _ (by decide),
          BitVec.setWidth_eq]
      simp only [readRuleField, carriedValue, first, second, third, fourth, width, Option.bind_eq_bind,
        Option.bind_some, Option.pure_def]
  | actionDrop | actionAccept | actionBreak | actionPriority | unknown => rfl

/-- What was read holds nothing that is not carried. -/
theorem carriedValue_of_read {b : List Byte} {p : Nat} {type : RuleType} {v : RuleValue}
    (read : readRuleField b p type = some v) : carriedValue v type = v := by
  cases type with
  | matchSourceZeroTierAddress | matchDestZeroTierAddress =>
      obtain ⟨zt, -, read⟩ := Option.bind_eq_some_iff.mp read
      cases read
      simp [carriedValue, Address.ofInt, Address.toInt, BitVec.setWidth_setWidth_of_le]
  | matchVlanId | matchVlanPcp | matchVlanDei | matchMacSource | matchMacDest | matchIpProtocol | matchEtherType
  | matchCharacteristics | matchRandom =>
      obtain ⟨word, -, read⟩ := Option.bind_eq_some_iff.mp read
      cases read
      rfl
  | matchIpv4Source | matchIpv4Dest | matchIpv6Source | matchIpv6Dest | matchIpSourcePortRange
  | matchIpDestPortRange | matchFrameSizeRange | matchTagsDifference | matchTagsBitwiseAnd | matchTagsBitwiseOr
  | matchTagsBitwiseXor | matchTagsEqual | matchTagSender | matchTagReceiver =>
      obtain ⟨word0, -, read⟩ := Option.bind_eq_some_iff.mp read
      obtain ⟨word1, -, read⟩ := Option.bind_eq_some_iff.mp read
      cases read
      rfl
  | actionTee | actionWatch | actionRedirect | matchIpTos | matchIcmp =>
      obtain ⟨word0, -, read⟩ := Option.bind_eq_some_iff.mp read
      obtain ⟨word1, -, read⟩ := Option.bind_eq_some_iff.mp read
      obtain ⟨word2, -, read⟩ := Option.bind_eq_some_iff.mp read
      cases read
      rfl
  | matchIntegerRange =>
      obtain ⟨start, -, read⟩ := Option.bind_eq_some_iff.mp read
      obtain ⟨stop, -, read⟩ := Option.bind_eq_some_iff.mp read
      obtain ⟨idx, -, read⟩ := Option.bind_eq_some_iff.mp read
      obtain ⟨format, -, read⟩ := Option.bind_eq_some_iff.mp read
      cases read
      rfl
  | actionDrop | actionAccept | actionBreak | actionPriority | unknown =>
      cases read
      rfl

theorem Rule.Canonical.carried_eq {rule : Rule} (canonical : rule.Canonical) : rule.carried = rule := by
  obtain ⟨b, p, read⟩ := canonical
  rw [Rule.carried, carriedValue_of_read read]

theorem deserializeRule_next {b : List Byte} {p next : Nat} {rule : Rule}
    (read : deserializeRule b p = some (rule, next)) : rule.Canonical ∧ p + 2 ≤ next := by
  obtain ⟨t, -, read⟩ := Option.bind_eq_some_iff.mp read
  obtain ⟨fieldLen, -, read⟩ := Option.bind_eq_some_iff.mp read
  obtain ⟨v, field, read⟩ := Option.bind_eq_some_iff.mp read
  cases read
  exact ⟨⟨b, p + 2, field⟩, Nat.le_add_right _ _⟩

theorem deserializeRule_of_stands {b rest : List Byte} {p : Nat} (rule : Rule)
    (here : Stands (serializeRule rule ++ rest) b p) :
    deserializeRule b p = some (rule.carried, p + (serializeRule rule).length) ∧
      Stands rest b (p + (serializeRule rule).length) := by
  have behind := (stands_append.mp here).2
  refine ⟨?_, behind⟩
  simp only [serializeRule, List.append_assoc] at here
  obtain ⟨t, here⟩ := at8_of_stands here
  obtain ⟨fieldLen, here⟩ := at8_of_stands here
  obtain ⟨field, -⟩ := stands_append.mp here
  have again := readRuleField_of_stands field
  simp only [Nat.add_assoc, Nat.reduceAdd] at again
  have small : (BitVec.ofNat 8 (ruleFieldLen rule.ruleType)).toNat = ruleFieldLen rule.ruleType := by
    cases rule.ruleType <;> rfl
  have type : RuleType.ofCode (rule.t &&& 0x3f).toNat = rule.ruleType := rfl
  simp only [deserializeRule, t, fieldLen, Option.bind_eq_bind, Option.bind_some, type, again, small,
    Option.pure_def, Rule.carried, serializeRule, List.length_append, wordBytes_length, ruleFieldBytes_length]
  rw [Nat.add_assoc]

theorem serializeRule_ne_nil (rule : Rule) : serializeRule rule ≠ [] := by
  simp [serializeRule, wordBytes, bigEndian]

theorem readRule_recovers {rule : Rule} (canonical : rule.Canonical) :
    Recovers readRule (serializeRule rule) rule := by
  intro b p here
  rw [← List.append_nil (serializeRule rule)] at here
  rw [readRule, (deserializeRule_of_stands rule here).1, canonical.carried_eq, Option.map_some,
    Nat.add_sub_cancel_left]

theorem readRule_canonical {b : List Byte} {p taken : Nat} {rule : Rule}
    (read : readRule b p = some (rule, taken)) : rule.Canonical := by
  obtain ⟨⟨found, next⟩, first, same⟩ := Option.map_eq_some_iff.mp read
  cases same
  exact (deserializeRule_next first).1

/-- The rules that stand at a position are read, and the loop goes on behind them with the room that is left. -/
theorem deserializeRules_of_stands {b rest : List Byte} {p : Nat} {rules : List Rule} (room : Nat)
    (here : Stands (serializeRules rules ++ rest) b p) :
    deserializeRules b p (rules.length + room) =
      (deserializeRules b (p + (serializeRules rules).length) room).map
        (fun read => (rules.map Rule.carried ++ read.1, read.2)) := by
  induction rules generalizing p with
  | nil =>
      rw [List.length_nil, Nat.zero_add]
      exact (Option.map_id' ..).symm
  | cons rule rules ih =>
      rw [serializeRules, List.flatMap_cons, List.append_assoc] at here
      have inside := (stands_append.mp here).1.inside (serializeRule_ne_nil rule)
      have positive := List.length_pos_iff.mpr (serializeRule_ne_nil rule)
      obtain ⟨first, behind⟩ := deserializeRule_of_stands rule here
      have later := ih behind
      rw [List.length_cons, Nat.add_right_comm, deserializeRules, if_pos (by omega), first]
      simp only [Option.bind_eq_bind, Option.bind_some, later, Option.pure_def, serializeRules, List.flatMap_cons,
        List.length_append, Nat.add_assoc]
      cases deserializeRules b (p + ((serializeRule rule).length + (rules.flatMap serializeRule).length)) room <;> rfl

/-- As many rules as there is room for. -/
theorem deserializeRules_all {b rest : List Byte} {p : Nat} {rules : List Rule}
    (here : Stands (serializeRules rules ++ rest) b p) :
    deserializeRules b p rules.length = some (rules.map Rule.carried, p + (serializeRules rules).length) ∧
      Stands rest b (p + (serializeRules rules).length) := by
  refine ⟨?_, (stands_append.mp here).2⟩
  have read := deserializeRules_of_stands 0 here
  rw [Nat.add_zero] at read
  rw [read, deserializeRules, Option.map_some, List.append_nil]

theorem deserializeRules_canonical {b : List Byte} {p room stop : Nat} {rules : List Rule}
    (read : deserializeRules b p room = some (rules, stop)) :
    (∀ rule ∈ rules, rule.Canonical) ∧ rules.length ≤ room ∧ p ≤ stop := by
  induction room generalizing p rules with
  | zero =>
      cases read
      exact ⟨fun rule found => (by cases found), Nat.le_refl 0, Nat.le_refl _⟩
  | succ room ih =>
      rw [deserializeRules] at read
      split at read
      · obtain ⟨⟨rule, next⟩, first, read⟩ := Option.bind_eq_some_iff.mp read
        obtain ⟨⟨others, last⟩, later, read⟩ := Option.bind_eq_some_iff.mp read
        cases read
        obtain ⟨canonical, forward⟩ := deserializeRule_next first
        obtain ⟨rest, short, behind⟩ := ih later
        refine ⟨?_, Nat.succ_le_succ short, by omega⟩
        intro other found
        rcases List.mem_cons.mp found with same | found
        · rw [same]
          exact canonical
        · exact rest other found
      · cases read
        exact ⟨fun rule found => (by cases found), Nat.zero_le _, Nat.le_refl _⟩

/-- Reading a configuration's rules one by one is `deserializeRules`, with what was read before a throw kept. -/
theorem deserializeRules_eq_readRecords (b : List Byte) (p room : Nat) :
    (deserializeRules b p room).map Prod.fst =
      if (readRecords readRule b room p).2 then some (readRecords readRule b room p).1 else none := by
  induction room generalizing p with
  | zero => rfl
  | succ room ih =>
      by_cases inside : p < b.length
      · cases first : deserializeRule b p with
        | none =>
            have stopped : readRecords readRule b (room + 1) p = ([], false) := by
              simp [readRecords, inside, readRule, first]
            rw [stopped, deserializeRules, if_pos inside, first]
            rfl
        | some read =>
            obtain ⟨rule, next⟩ := read
            have behind := (deserializeRule_next first).2
            have forward : p + (next - p) = next := by omega
            have turned : readRecords readRule b (room + 1) p =
                (rule :: (readRecords readRule b room next).1, (readRecords readRule b room next).2) := by
              simp [readRecords, inside, readRule, first, forward]
            have later := ih next
            rw [turned, deserializeRules, if_pos inside, first]
            cases finished : (readRecords readRule b room next).2 with
            | true =>
                rw [finished, if_pos rfl] at later
                obtain ⟨⟨rules, stop⟩, read, same⟩ := Option.map_eq_some_iff.mp later
                simp [read, ← same]
            | false =>
                rw [finished, if_neg Bool.false_ne_true, Option.map_eq_none_iff] at later
                simp [later]
      · rw [deserializeRules, if_neg inside, readRecords, if_neg inside]
        rfl

namespace Revocation

theorem recovers (rev : Revocation) : Recovers deserialize (rev.serialize false) rev := by
  intro b p here
  simp only [serialize, Bool.false_eq_true, if_false, List.nil_append, List.append_nil,
    List.append_assoc] at here
  obtain ⟨-, here⟩ := at32_of_stands here
  obtain ⟨id, here⟩ := at32_of_stands here
  obtain ⟨networkId, here⟩ := at64_of_stands here
  obtain ⟨-, here⟩ := at32_of_stands here
  obtain ⟨credentialId, here⟩ := at32_of_stands here
  obtain ⟨threshold, here⟩ := at64_of_stands here
  obtain ⟨flags, here⟩ := at64_of_stands here
  obtain ⟨target, here⟩ := address_of_stands here
  obtain ⟨signedBy, here⟩ := address_of_stands here
  obtain ⟨type, here⟩ := at8_of_stands here
  obtain ⟨signature, here⟩ := signature_of_stands here
  have stop := additionalFields_of_stands here
  simp only [Nat.add_assoc, Nat.reduceAdd] at networkId credentialId threshold flags
  simp only [Nat.add_assoc, Nat.reduceAdd] at target signedBy type signature stop
  simp [deserialize, id, networkId, credentialId, threshold, flags, target, signedBy, type, signature, stop,
    serialize, Address.appendTo, signatureField, noAdditionalFields]

end Revocation

namespace CertificateOfOwnership

/-- As many entries are filled as the count asks for and the array has. -/
def Counted (coo : CertificateOfOwnership) : Prop := coo.things.length = min coo.thingCount.toNat maxThings

theorem readThings_of_stands {b rest : List Byte} {p : Nat} {things : List Thing}
    (here : Stands (things.flatMap Thing.bytes ++ rest) b p) :
    readThings b p things.length = some (things, p + (things.flatMap Thing.bytes).length) ∧
      Stands rest b (p + (things.flatMap Thing.bytes).length) := by
  refine ⟨?_, (stands_append.mp here).2⟩
  induction things generalizing p with
  | nil => rfl
  | cons thing things ih =>
      simp only [List.flatMap_cons, Thing.bytes, List.append_assoc] at here
      obtain ⟨type, here⟩ := at8_of_stands here
      obtain ⟨value, here⟩ := atWord_of_stands (by decide : 128 ≤ 8 * 16) (by decide) here
      simp only [Nat.add_assoc, Nat.reduceAdd] at here
      have later := ih here
      rw [List.length_cons, readThings]
      simp only [type, value, Option.bind_eq_bind, Option.bind_some, later, Option.pure_def, List.flatMap_cons,
        List.length_append, Thing.bytes, wordBytes_length, Nat.add_assoc, Nat.reduceAdd]

theorem readThings_length {b : List Byte} {p count stop : Nat} {things : List Thing}
    (read : readThings b p count = some (things, stop)) : things.length = count := by
  induction count generalizing p things with
  | zero =>
      cases read
      rfl
  | succ count ih =>
      obtain ⟨type, -, read⟩ := Option.bind_eq_some_iff.mp read
      obtain ⟨value, -, read⟩ := Option.bind_eq_some_iff.mp read
      obtain ⟨⟨others, last⟩, later, read⟩ := Option.bind_eq_some_iff.mp read
      cases read
      rw [List.length_cons, ih later]

theorem deserialize_counted {b : List Byte} {p taken : Nat} {coo : CertificateOfOwnership}
    (read : deserialize b p = some (coo, taken)) : coo.Counted := by
  obtain ⟨networkId, -, read⟩ := Option.bind_eq_some_iff.mp read
  obtain ⟨ts, -, read⟩ := Option.bind_eq_some_iff.mp read
  obtain ⟨flags, -, read⟩ := Option.bind_eq_some_iff.mp read
  obtain ⟨id, -, read⟩ := Option.bind_eq_some_iff.mp read
  obtain ⟨thingCount, -, read⟩ := Option.bind_eq_some_iff.mp read
  obtain ⟨⟨things, next⟩, counted, read⟩ := Option.bind_eq_some_iff.mp read
  obtain ⟨issuedTo, -, read⟩ := Option.bind_eq_some_iff.mp read
  obtain ⟨signedBy, -, read⟩ := Option.bind_eq_some_iff.mp read
  obtain ⟨⟨signature, behind⟩, -, read⟩ := Option.bind_eq_some_iff.mp read
  obtain ⟨stop, -, read⟩ := Option.bind_eq_some_iff.mp read
  cases read
  exact readThings_length counted

theorem recovers {coo : CertificateOfOwnership} {bytes : List Byte} (counted : coo.Counted)
    (written : coo.serialize false = some bytes) : Recovers deserialize bytes coo := by
  intro b p here
  obtain ⟨things, inArray, written⟩ := Option.bind_eq_some_iff.mp written
  unfold thingsBytes at inArray
  split at inArray
  · rename_i within
    unfold Counted at counted
    have whole : coo.thingCount.toNat = coo.things.length := by omega
    cases inArray
    cases written
    rw [whole, List.take_length] at here ⊢
    simp only [Bool.false_eq_true, if_false, List.nil_append, List.append_nil, List.append_assoc] at here
    obtain ⟨networkId, here⟩ := at64_of_stands here
    obtain ⟨ts, here⟩ := at64_of_stands here
    obtain ⟨flags, here⟩ := at64_of_stands here
    obtain ⟨id, here⟩ := at32_of_stands here
    obtain ⟨thingCount, here⟩ := at16_of_stands here
    obtain ⟨entries, here⟩ := readThings_of_stands here
    obtain ⟨issuedTo, here⟩ := address_of_stands here
    obtain ⟨signedBy, here⟩ := address_of_stands here
    obtain ⟨signature, here⟩ := signature_of_stands here
    have stop := additionalFields_of_stands here
    have room : min coo.thingCount.toNat maxThings = coo.things.length := by omega
    simp only [Nat.add_assoc, Nat.reduceAdd] at ts flags id thingCount entries issuedTo signedBy signature stop
    simp only [deserialize, networkId, ts, flags, id, thingCount, room, entries, issuedTo, signedBy, signature,
      stop, Option.bind_eq_bind, Option.bind_some, Option.pure_def, Nat.add_assoc]
    congr 2
    simp [Address.appendTo, signatureField, noAdditionalFields]
    omega
  · cases inArray

theorem serialize_ne_nil {coo : CertificateOfOwnership} {bytes : List Byte}
    (written : coo.serialize false = some bytes) : bytes ≠ [] := by
  obtain ⟨things, -, written⟩ := Option.bind_eq_some_iff.mp written
  cases written
  simp [wordBytes, bigEndian]

end CertificateOfOwnership

namespace Capability

/-- A rule set and a custody chain within their bounds, every record of the chain having a holder. -/
structure Canonical (cap : Capability) : Prop where
  rules : ∀ rule ∈ cap.rules, rule.Canonical
  ruleCount : cap.rules.length ≤ maxCapabilityRules
  positive : 1 ≤ cap.maxCustodyChainLength
  bounded : cap.maxCustodyChainLength ≤ maxCustodyChain
  chain : cap.custody.length ≤ cap.maxCustodyChainLength
  holders : ∀ record ∈ cap.custody, record.toAddress ≠ 0

/-- The limits of the class, which say nothing of the rules themselves. -/
structure WithinLimits (cap : Capability) : Prop where
  ruleCount : cap.rules.length ≤ maxCapabilityRules
  positive : 1 ≤ cap.maxCustodyChainLength
  bounded : cap.maxCustodyChainLength ≤ maxCustodyChain
  chain : cap.custody.length ≤ cap.maxCustodyChainLength
  holders : ∀ record ∈ cap.custody, record.toAddress ≠ 0

/-- What the wire form of a capability keeps of it. -/
def carried (cap : Capability) : Capability := { cap with rules := cap.rules.map Rule.carried }

theorem Canonical.withinLimits {cap : Capability} (canonical : cap.Canonical) : cap.WithinLimits :=
  ⟨canonical.ruleCount, canonical.positive, canonical.bounded, canonical.chain, canonical.holders⟩

theorem Canonical.carried_eq {cap : Capability} (canonical : cap.Canonical) : cap.carried = cap := by
  have same : cap.rules.map Rule.carried = cap.rules :=
    (List.map_congr_left fun rule found => (canonical.rules rule found).carried_eq).trans (List.map_id _)
  rw [carried, same]

theorem readCustody_holders {b : List Byte} {p room stop : Nat} {custody : List Custody}
    (read : readCustody b p room = some (custody, stop)) :
    custody.length ≤ room ∧ (∀ record ∈ custody, record.toAddress ≠ 0) ∧ p < stop := by
  induction room generalizing p custody with
  | zero =>
      rw [readCustody] at read
      obtain ⟨toAddress, -, read⟩ := Option.bind_eq_some_iff.mp read
      split at read
      · cases read
        exact ⟨Nat.le_refl 0, fun record found => (by cases found), by omega⟩
      · cases read
  | succ room ih =>
      rw [readCustody] at read
      obtain ⟨toAddress, -, read⟩ := Option.bind_eq_some_iff.mp read
      split at read
      · cases read
        exact ⟨Nat.zero_le _, fun record found => (by cases found), by omega⟩
      · rename_i held
        obtain ⟨fromAddress, -, read⟩ := Option.bind_eq_some_iff.mp read
        obtain ⟨⟨signature, next⟩, signed, read⟩ := Option.bind_eq_some_iff.mp read
        obtain ⟨⟨records, last⟩, later, read⟩ := Option.bind_eq_some_iff.mp read
        cases read
        have behind := readSignature_next signed
        obtain ⟨short, holders, forward⟩ := ih later
        refine ⟨Nat.succ_le_succ short, ?_, by omega⟩
        intro record found
        rcases List.mem_cons.mp found with same | found
        · rw [same]
          exact held
        · exact holders record found

theorem deserialize_canonical {b : List Byte} {p taken : Nat} {cap : Capability}
    (read : deserialize b p = some (cap, taken)) : cap.Canonical ∧ 0 < taken := by
  obtain ⟨nwid, -, read⟩ := Option.bind_eq_some_iff.mp read
  obtain ⟨ts, -, read⟩ := Option.bind_eq_some_iff.mp read
  obtain ⟨id, -, read⟩ := Option.bind_eq_some_iff.mp read
  obtain ⟨rc, -, read⟩ := Option.bind_eq_some_iff.mp read
  split at read
  · cases read
  · rename_i few
    obtain ⟨⟨rules, next⟩, ruleSet, read⟩ := Option.bind_eq_some_iff.mp read
    obtain ⟨maxLength, -, read⟩ := Option.bind_eq_some_iff.mp read
    split at read
    · cases read
    · rename_i bounds
      obtain ⟨⟨custody, behind⟩, chain, read⟩ := Option.bind_eq_some_iff.mp read
      obtain ⟨stop, skipped, read⟩ := Option.bind_eq_some_iff.mp read
      cases read
      obtain ⟨canonical, ruleCount, forward⟩ := deserializeRules_canonical ruleSet
      obtain ⟨length, holders, further⟩ := readCustody_holders chain
      have last := skipAdditionalFields_next skipped
      refine ⟨⟨canonical, ?_, ?_, ?_, length, holders⟩, ?_⟩
      all_goals
        dsimp only at *
        omega

theorem progresses : Progresses deserialize := by
  intro b p cap taken read
  exact (deserialize_canonical read).2

theorem readCustody_of_stands {b rest : List Byte} {p room : Nat} {custody : List Custody}
    (short : custody.length ≤ room) (holders : ∀ record ∈ custody, record.toAddress ≠ 0)
    (here : Stands (custody.flatMap Custody.bytes ++ (Address.appendTo 0 ++ rest)) b p) :
    readCustody b p room = some (custody, p + (custody.flatMap Custody.bytes).length + 5) ∧
      Stands rest b (p + (custody.flatMap Custody.bytes).length + 5) := by
  have behind := (address_of_stands (stands_append.mp here).2).2
  refine ⟨?_, behind⟩
  induction custody generalizing p room with
  | nil =>
      obtain ⟨none, -⟩ := address_of_stands here
      rw [readCustody, none]
      simp
  | cons record custody ih =>
      cases room with
      | zero => cases short
      | succ room =>
          simp only [List.flatMap_cons, Custody.bytes, List.append_assoc] at here
          obtain ⟨holder, here⟩ := address_of_stands here
          obtain ⟨giver, here⟩ := address_of_stands here
          obtain ⟨signature, here⟩ := signature_of_stands here
          simp only [Nat.add_assoc, Nat.reduceAdd] at giver signature here
          have rest := (address_of_stands (stands_append.mp here).2).2
          have later := ih (Nat.le_of_succ_le_succ short)
            (fun other found => holders other (List.mem_cons_of_mem _ found)) here rest
          have held := holders record List.mem_cons_self
          rw [readCustody, holder]
          simp only [Option.bind_eq_bind, Option.bind_some, if_neg held, giver, signature, Nat.add_assoc,
            Nat.reduceAdd, later, Option.pure_def, List.flatMap_cons, List.length_append, Custody.bytes,
            Address.appendTo, signatureField, wordBytes_length]

theorem serialize_ne_nil (cap : Capability) : cap.serialize false ≠ [] := by
  simp [serialize, wordBytes, bigEndian]

/-- A capability comes back as far as its rules are carried. -/
theorem recovers_carried {cap : Capability} (limits : cap.WithinLimits) :
    Recovers deserialize (cap.serialize false) cap.carried := by
  intro b p here
  obtain ⟨ruleCount, positive, bounded, chain, holders⟩ := limits
  have whole : (cap.custody.take (min cap.maxCustodyChainLength maxCustodyChain)).takeWhile
      (fun record => decide (record.toAddress ≠ 0)) = cap.custody := by
    rw [List.take_of_length_le (by omega), List.takeWhile_eq_self_iff]
    intro record found
    exact decide_eq_true (holders record found)
  have count : (BitVec.ofNat 16 cap.rules.length).toNat = cap.rules.length := by
    have limit : maxCapabilityRules = 64 := rfl
    rw [BitVec.toNat_ofNat]
    omega
  have length : (BitVec.ofNat 8 cap.maxCustodyChainLength).toNat = cap.maxCustodyChainLength := by
    have limit : maxCustodyChain = 7 := rfl
    rw [BitVec.toNat_ofNat]
    omega
  simp only [serialize, whole, Bool.false_eq_true, if_false, List.nil_append, List.append_nil,
    List.append_assoc] at here
  obtain ⟨nwid, here⟩ := at64_of_stands here
  obtain ⟨ts, here⟩ := at64_of_stands here
  obtain ⟨id, here⟩ := at32_of_stands here
  obtain ⟨rc, here⟩ := at16_of_stands here
  obtain ⟨ruleSet, here⟩ := deserializeRules_all here
  obtain ⟨maxLength, here⟩ := at8_of_stands here
  obtain ⟨custody, here⟩ := readCustody_of_stands chain holders here
  have stop := additionalFields_of_stands here
  simp only [Nat.add_assoc, Nat.reduceAdd] at ts id rc ruleSet maxLength custody stop
  have few : ¬maxCapabilityRules < cap.rules.length := by omega
  have bounds : ¬(cap.maxCustodyChainLength < 1 ∨ maxCustodyChain < cap.maxCustodyChainLength) := by omega
  simp only [deserialize, nwid, ts, id, rc, count, ruleSet, maxLength, length, custody, stop,
    Option.bind_eq_bind, Option.bind_some, if_neg few, if_neg bounds, Option.pure_def, Nat.add_assoc]
  congr 2
  simp only [serialize, whole, Bool.false_eq_true, if_false, List.nil_append, List.append_nil,
    List.length_append, wordBytes_length, Address.appendTo, noAdditionalFields]
  omega

theorem recovers {cap : Capability} (canonical : cap.Canonical) :
    Recovers deserialize (cap.serialize false) cap := by
  have read := recovers_carried canonical.withinLimits
  rw [canonical.carried_eq] at read
  exact read

end Capability

namespace CertificateOfMembership

/-- Qualifiers in non-decreasing order of id from `lastId` on. -/
def Ordered : BitVec 64 → List Qualifier → Prop
  | _, [] => True
  | lastId, qualifier :: qualifiers => lastId.toNat ≤ qualifier.id.toNat ∧ Ordered qualifier.id qualifiers

structure Canonical (com : CertificateOfMembership) : Prop where
  few : com.qualifiers.length ≤ maxQualifiers
  ordered : Ordered 0 com.qualifiers
  signed : com.signedBy = 0 → com.signature = 0

theorem readQualifiers_ordered {b : List Byte} {p numq room stop : Nat} {lastId : BitVec 64}
    {qualifiers : List Qualifier} (read : readQualifiers b p numq room lastId = some (qualifiers, stop)) :
    qualifiers.length ≤ room ∧ Ordered lastId qualifiers := by
  induction numq generalizing p room lastId qualifiers with
  | zero =>
      cases read
      exact ⟨Nat.zero_le _, trivial⟩
  | succ numq ih =>
      rw [readQualifiers] at read
      obtain ⟨qid, -, read⟩ := Option.bind_eq_some_iff.mp read
      split at read
      · cases read
      · rename_i order
        cases room with
        | zero => cases read
        | succ room =>
            obtain ⟨value, -, read⟩ := Option.bind_eq_some_iff.mp read
            obtain ⟨maxDelta, -, read⟩ := Option.bind_eq_some_iff.mp read
            obtain ⟨⟨others, last⟩, later, read⟩ := Option.bind_eq_some_iff.mp read
            cases read
            obtain ⟨short, ordered⟩ := ih later
            exact ⟨Nat.succ_le_succ short, Nat.not_lt.mp order, ordered⟩

theorem deserialize_canonical {b : List Byte} {p taken : Nat} {com : CertificateOfMembership}
    (read : deserialize b p = some (com, taken)) : com.Canonical := by
  obtain ⟨version, -, read⟩ := Option.bind_eq_some_iff.mp read
  split at read
  · cases read
  · obtain ⟨numq, -, read⟩ := Option.bind_eq_some_iff.mp read
    obtain ⟨⟨qualifiers, next⟩, table, read⟩ := Option.bind_eq_some_iff.mp read
    obtain ⟨signedBy, -, read⟩ := Option.bind_eq_some_iff.mp read
    obtain ⟨few, ordered⟩ := readQualifiers_ordered table
    split at read
    · rename_i signed
      obtain ⟨signature, -, read⟩ := Option.bind_eq_some_iff.mp read
      cases read
      exact ⟨few, ordered, fun unsigned => absurd unsigned signed⟩
    · cases read
      exact ⟨few, ordered, fun _ => rfl⟩

theorem readQualifiers_of_stands {b rest : List Byte} {p room : Nat} {lastId : BitVec 64}
    {qualifiers : List Qualifier} (short : qualifiers.length ≤ room) (ordered : Ordered lastId qualifiers)
    (here : Stands (qualifiers.flatMap Qualifier.bytes ++ rest) b p) :
    readQualifiers b p qualifiers.length room lastId =
        some (qualifiers, p + (qualifiers.flatMap Qualifier.bytes).length) ∧
      Stands rest b (p + (qualifiers.flatMap Qualifier.bytes).length) := by
  refine ⟨?_, (stands_append.mp here).2⟩
  induction qualifiers generalizing p room lastId with
  | nil => rfl
  | cons qualifier qualifiers ih =>
      cases room with
      | zero => cases short
      | succ room =>
          simp only [List.flatMap_cons, Qualifier.bytes, List.append_assoc] at here
          obtain ⟨id, here⟩ := at64_of_stands here
          obtain ⟨value, here⟩ := at64_of_stands here
          obtain ⟨maxDelta, here⟩ := at64_of_stands here
          simp only [Nat.add_assoc, Nat.reduceAdd] at maxDelta here
          have later := ih (Nat.le_of_succ_le_succ short) ordered.2 here
          rw [List.length_cons, readQualifiers]
          simp only [id, value, maxDelta, Option.bind_eq_bind, Option.bind_some,
            if_neg (Nat.not_lt.mpr ordered.1), later, Option.pure_def, List.flatMap_cons, List.length_append,
            Qualifier.bytes, wordBytes_length, Nat.add_assoc, Nat.reduceAdd]

theorem recovers {com : CertificateOfMembership} (canonical : com.Canonical) :
    Recovers deserialize com.serialize com := by
  intro b p here
  obtain ⟨few, ordered, unsigned⟩ := canonical
  have count : (BitVec.ofNat 16 com.qualifiers.length).toNat = com.qualifiers.length := by
    have limit : maxQualifiers = 8 := rfl
    rw [BitVec.toNat_ofNat]
    omega
  simp only [serialize, qualifiersBytes, List.append_assoc] at here
  obtain ⟨version, here⟩ := at8_of_stands here
  obtain ⟨numq, here⟩ := at16_of_stands here
  obtain ⟨table, here⟩ := readQualifiers_of_stands few ordered here
  obtain ⟨signedBy, here⟩ := address_of_stands here
  simp only [Nat.add_assoc, Nat.reduceAdd] at numq table signedBy here
  simp only [deserialize, version, Option.bind_eq_bind, Option.bind_some, ne_eq, not_true, if_false, numq, count,
    table, signedBy, Nat.add_assoc]
  by_cases signed : com.signedBy = 0
  · simp only [Option.pure_def, serialize, signed, qualifiersBytes,
      List.length_append, wordBytes_length, Address.appendTo, ne_eq, not_true, if_false, List.length_nil]
    have same : (⟨com.qualifiers, 0, 0⟩ : CertificateOfMembership) = com := by
      rw [← signed, ← unsigned signed]
    rw [same]
    congr 2
    omega
  · rw [if_pos signed, ← List.append_nil (wordBytes 96 com.signature)] at here
    obtain ⟨signature, -⟩ := atWord_of_stands (by decide : 768 ≤ 8 * 96) (by decide) here
    have sized : signatureLen = 96 := rfl
    simp only [signature, Option.bind_some, Option.pure_def, serialize, qualifiersBytes,
      List.length_append, wordBytes_length, Address.appendTo, ne_eq, signed, not_false_iff, if_true]
    congr 2
    omega

end CertificateOfMembership

namespace Route

theorem recovers (route : Route) : Recovers deserialize route.serialize route := by
  intro b p here
  rw [serialize, List.append_assoc, List.append_assoc] at here
  obtain ⟨target, here⟩ := stands_append.mp here
  obtain ⟨via, here⟩ := stands_append.mp here
  obtain ⟨flags, here⟩ := at16_of_stands here
  rw [← List.append_nil (wordBytes 2 route.metric)] at here
  obtain ⟨metric, -⟩ := at16_of_stands here
  simp only [deserialize, route.target.recovers b p target, route.via.recovers b _ via, flags, metric,
    Option.bind_eq_bind, Option.bind_some, Option.pure_def, serialize, List.length_append, wordBytes_length]

theorem serialize_ne_nil (route : Route) : route.serialize ≠ [] := by
  simp [serialize, route.target.serialize_ne_nil]

end Route

theorem readSpecialist_recovers (word : BitVec 64) : Recovers readSpecialist (wordBytes 8 word) word := by
  intro b p here
  rw [← List.append_nil (wordBytes 8 word)] at here
  rw [readSpecialist, (at64_of_stands here).1, Option.map_some, wordBytes_length]

theorem readServers_of_stands {b : List Byte} {p : Nat} {addrs : List InetAddress}
    (here : Stands (addrs.flatMap InetAddress.serialize) b p) : readServers b p addrs.length = some addrs := by
  induction addrs generalizing p with
  | nil => rfl
  | cons addr addrs ih =>
      rw [List.flatMap_cons] at here
      obtain ⟨first, later⟩ := stands_append.mp here
      simp only [List.length_cons, readServers, addr.recovers b p first, Option.bind_eq_bind, Option.bind_some,
        ih later, Option.pure_def]

theorem readServers_length {b : List Byte} {p count : Nat} {addrs : List InetAddress}
    (read : readServers b p count = some addrs) : addrs.length = count := by
  induction count generalizing p addrs with
  | zero =>
      cases read
      rfl
  | succ count ih =>
      obtain ⟨⟨addr, taken⟩, -, read⟩ := Option.bind_eq_some_iff.mp read
      obtain ⟨others, later, read⟩ := Option.bind_eq_some_iff.mp read
      cases read
      rw [List.length_cons, ih later]

/-- A domain array that ends in a NUL and the full number of servers. -/
structure VirtualNetworkDNS.Canonical (dns : VirtualNetworkDNS) : Prop where
  size : dns.domain.length = 128
  terminated : dns.domain.set 127 0 = dns.domain
  servers : dns.serverAddr.length = 4

theorem deserializeDNS_canonical {b : List Byte} {dns : VirtualNetworkDNS}
    (read : deserializeDNS b = some dns) : dns.Canonical := by
  obtain ⟨domain, copied, read⟩ := Option.bind_eq_some_iff.mp read
  obtain ⟨serverAddr, addresses, read⟩ := Option.bind_eq_some_iff.mp read
  cases read
  refine ⟨?_, ?_, readServers_length addresses⟩
  · rw [List.length_set, (fieldAt_some copied).2.2]
  · rw [List.set_set]

theorem deserializeDNS_serializeDNS {dns : VirtualNetworkDNS} (canonical : dns.Canonical) :
    deserializeDNS (serializeDNS dns) = some dns := by
  obtain ⟨size, terminated, servers⟩ := canonical
  obtain ⟨first, later⟩ := stands_append.mp (stands_self (serializeDNS dns))
  have nonempty : dns.domain ≠ [] := by
    rw [ne_eq, ← List.length_eq_zero_iff, size]
    decide
  have domain := fieldAt_of_stands first nonempty
  rw [size] at domain later
  have addresses := readServers_of_stands later
  rw [servers, Nat.zero_add] at addresses
  simp only [deserializeDNS, domain, addresses, Option.bind_eq_bind, Option.bind_some, Option.pure_def, terminated]

end ZeroTierNode

import ZeroTierNode.Filter
import ZeroTierNode.WireForms

/-!
Rules through their wire form and back. The filter reads some members of a rule's
value and the codec carries some; a rule keeps its meaning on the way when the
first are among the second.
-/

namespace ZeroTierNode.RuleCodec
open Library.Bytes ZeroTierNode.Filter

/-- The members of a value that `_doZtFilter` reads for a rule of the type. -/
def filterFields (v : RuleValue) : RuleType → RuleValue
  | .actionPriority => { qosBucket := v.qosBucket }
  | .actionTee | .actionWatch => { fwdAddress := v.fwdAddress, fwdLength := v.fwdLength }
  | .actionRedirect => { fwdAddress := v.fwdAddress }
  | .matchSourceZeroTierAddress | .matchDestZeroTierAddress => { zt := v.zt }
  | .matchVlanId => { vlanId := v.vlanId }
  | .matchVlanPcp => { vlanPcp := v.vlanPcp }
  | .matchVlanDei => { vlanDei := v.vlanDei }
  | .matchMacSource | .matchMacDest => { mac := v.mac }
  | .matchIpv4Source | .matchIpv4Dest => { ipv4Ip := v.ipv4Ip, ipv4Mask := v.ipv4Mask }
  | .matchIpv6Source | .matchIpv6Dest => { ipv6Ip := v.ipv6Ip, ipv6Mask := v.ipv6Mask }
  | .matchIpTos => { ipTosMask := v.ipTosMask, ipTosValue0 := v.ipTosValue0, ipTosValue1 := v.ipTosValue1 }
  | .matchIpProtocol => { ipProtocol := v.ipProtocol }
  | .matchEtherType => { etherType := v.etherType }
  | .matchIcmp => { icmpType := v.icmpType, icmpCode := v.icmpCode, icmpFlags := v.icmpFlags }
  | .matchIpSourcePortRange | .matchIpDestPortRange => { port0 := v.port0, port1 := v.port1 }
  | .matchCharacteristics => { characteristics := v.characteristics }
  | .matchFrameSizeRange => { frameSize0 := v.frameSize0, frameSize1 := v.frameSize1 }
  | .matchRandom => { randomProbability := v.randomProbability }
  | .matchTagsDifference | .matchTagsBitwiseAnd | .matchTagsBitwiseOr | .matchTagsBitwiseXor
  | .matchTagsEqual | .matchTagSender | .matchTagReceiver => { tagId := v.tagId, tagValue := v.tagValue }
  | .matchIntegerRange =>
      { intRangeStart := v.intRangeStart, intRangeEnd := v.intRangeEnd, intRangeIdx := v.intRangeIdx,
        intRangeFormat := v.intRangeFormat }
  | .actionDrop | .actionAccept | .actionBreak | .unknown => {}

/-- The rule as the filter sees it. -/
def filtered (rule : Rule) : Rule := ⟨rule.t, filterFields rule.v rule.ruleType⟩

/-- The two rules have the same type and bits, and agree in every field that `_doZtFilter` reads. -/
def SameToFilter (first second : Rule) : Prop := filtered first = filtered second

section Reads

variable (q : FilterInput)

theorem matchRule_filtered (ztDest : Address) (superAccept : Bool) (rn : Nat) (rule : Rule) :
    matchRule q ztDest superAccept rn (filtered rule) = matchRule q ztDest superAccept rn rule := by
  have type : (filtered rule).ruleType = rule.ruleType := rfl
  have no : (filtered rule).hardNo = rule.hardNo := rfl
  have yes : (filtered rule).hardYes = rule.hardYes := rfl
  have value : (filtered rule).v = filterFields rule.v rule.ruleType := rfl
  unfold matchRule matchIpTos matchIpProtocol matchIcmp matchPortRange matchCharacteristics matchIntegerRange
    frameInteger matchTags matchTagOf compareTags
  rw [type, no, yes, value]
  cases rule.ruleType <;> rfl

theorem takeAction_filtered (rule : Rule) (st : FilterState) :
    takeAction q (filtered rule) st = takeAction q rule st := by
  have type : (filtered rule).ruleType = rule.ruleType := rfl
  have value : (filtered rule).v = filterFields rule.v rule.ruleType := rfl
  unfold takeAction forward
  rw [type, value]
  cases rule.ruleType <;> rfl

theorem passAction_filtered (rule : Rule) (st : FilterState) :
    passAction q (filtered rule) st = passAction q rule st := by
  have forwarding : isForward (filtered rule) = isForward rule := rfl
  have address : isForward rule = true → (filtered rule).v.fwdAddress = rule.v.fwdAddress := by
    unfold isForward filtered
    dsimp only
    cases rule.ruleType <;> simp [filterFields]
  unfold passAction
  rw [forwarding]
  cases forwards : isForward rule with
  | true => rw [address forwards]
  | false => simp

theorem filterStep_filtered (rn : Nat) (rule : Rule) (st : FilterState) :
    filterStep q rn (filtered rule) st = filterStep q rn rule st := by
  have action : (filtered rule).isAction = rule.isAction := rfl
  have alternative : (filtered rule).isOr = rule.isOr := rfl
  have negated : (filtered rule).isNot = rule.isNot := rfl
  unfold filterStep
  rw [action, alternative, negated, takeAction_filtered, passAction_filtered, matchRule_filtered]

theorem filterFrom_filtered (rn : Nat) (st : FilterState) (rules : List Rule) :
    filterFrom q rn st (rules.map filtered) = filterFrom q rn st rules := by
  induction rules generalizing rn st with
  | nil => rfl
  | cons rule rules ih =>
      rw [List.map_cons, filterFrom, filterFrom, filterStep_filtered]
      cases filterStep q rn rule st with
      | inl result => rfl
      | inr st => exact ih (rn + 1) st

/-- No other member of a rule has any influence on the filter. -/
theorem doZtFilter_congr {first second : List Rule} (same : first.map filtered = second.map filtered)
    (out : FilterOutput) : doZtFilter q out first = doZtFilter q out second := by
  unfold doZtFilter
  rw [← filterFrom_filtered q 0 _ first, same, filterFrom_filtered]

end Reads

/-- A QoS bucket other than 0 is not written, and of the address to match only 40 bits are. -/
def FieldsCarried (rule : Rule) : Prop :=
  (rule.ruleType = .actionPriority → rule.v.qosBucket = 0) ∧
    (rule.ruleType = .matchSourceZeroTierAddress ∨ rule.ruleType = .matchDestZeroTierAddress →
      rule.v.zt.toNat < 2 ^ 40)

theorem address_kept_iff (zt : BitVec 64) : (Address.ofInt zt).toInt = zt ↔ zt.toNat < 2 ^ 40 := by
  unfold Address.ofInt Address.toInt
  constructor
  · intro same
    rw [← same, BitVec.toNat_setWidth, BitVec.toNat_setWidth]
    omega
  · intro small
    apply BitVec.eq_of_toNat_eq
    rw [BitVec.toNat_setWidth, BitVec.toNat_setWidth]
    omega

/-- A rule keeps its meaning on the wire exactly if its fields are carried. -/
theorem sameToFilter_carried_iff (rule : Rule) : SameToFilter rule.carried rule ↔ FieldsCarried rule := by
  have fields : SameToFilter rule.carried rule ↔
      filterFields (carriedValue rule.v rule.ruleType) rule.ruleType = filterFields rule.v rule.ruleType := by
    unfold SameToFilter filtered
    rw [Rule.mk.injEq]
    exact and_iff_right rfl
  rw [fields, FieldsCarried]
  cases rule.ruleType with
  | actionPriority =>
      constructor
      · intro same
        exact ⟨fun _ => (congrArg RuleValue.qosBucket same).symm, by simp⟩
      · intro carried
        rw [filterFields, filterFields, carried.1 rfl]
        rfl
  | matchSourceZeroTierAddress | matchDestZeroTierAddress =>
      constructor
      · intro same
        exact ⟨by simp, fun _ => (address_kept_iff _).mp (congrArg RuleValue.zt same)⟩
      · intro carried
        have kept := (address_kept_iff _).mpr (carried.2 (by simp))
        rw [filterFields, filterFields, carriedValue, kept]
  | _ => exact ⟨fun _ => ⟨by simp, by simp⟩, fun _ => rfl⟩

/-- `deserializeRules` on the output of `serializeRules`, with room for the rules: it succeeds, takes all bytes,
and returns rules that mean the same. -/
def Reread (rules : List Rule) : Prop :=
  ∀ room, rules.length ≤ room →
    ∃ read, deserializeRules (serializeRules rules) 0 room = some (read, (serializeRules rules).length) ∧
      List.Forall₂ SameToFilter read rules

theorem deserializeRules_serializeRules (rules : List Rule) {room : Nat} (enough : rules.length ≤ room) :
    deserializeRules (serializeRules rules) 0 room =
      some (rules.map Rule.carried, (serializeRules rules).length) := by
  obtain ⟨spare, same⟩ := Nat.exists_eq_add_of_le enough
  have here : Stands (serializeRules rules ++ []) (serializeRules rules) 0 := by
    rw [List.append_nil]
    exact stands_self _
  have ended : deserializeRules (serializeRules rules) (serializeRules rules).length spare =
      some ([], (serializeRules rules).length) := by
    cases spare with
    | zero => rfl
    | succ spare => rw [deserializeRules, if_neg (Nat.lt_irrefl _)]
  rw [same, deserializeRules_of_stands spare here, Nat.zero_add, ended, Option.map_some, List.append_nil]

theorem rules_reread_iff (rules : List Rule) : Reread rules ↔ ∀ rule ∈ rules, FieldsCarried rule := by
  have pointwise : List.Forall₂ SameToFilter (rules.map Rule.carried) rules ↔
      ∀ rule ∈ rules, FieldsCarried rule := by
    rw [List.forall₂_map_left_iff, List.forall₂_same]
    exact forall₂_congr fun rule _ => sameToFilter_carried_iff rule
  rw [← pointwise]
  constructor
  · intro reread
    obtain ⟨read, result, same⟩ := reread rules.length (Nat.le_refl _)
    rw [deserializeRules_serializeRules rules (Nat.le_refl _)] at result
    cases result
    exact same
  · intro same room enough
    exact ⟨_, deserializeRules_serializeRules rules enough, same⟩

/-- PRIORITY with bucket 2 is written without its bucket and read as PRIORITY with bucket 0. -/
def priorityRule : Rule := ⟨6, { qosBucket := 2 }⟩

theorem priority_lost_on_the_wire : ¬Reread [priorityRule] := by
  intro reread
  obtain ⟨read, result, same⟩ := reread 1 (Nat.le_refl 1)
  rw [deserializeRules_serializeRules _ (Nat.le_refl 1)] at result
  cases result
  have buckets := congrArg (fun rule => rule.v.qosBucket) (List.forall₂_cons.mp same).1
  exact absurd buckets (by decide)

end ZeroTierNode.RuleCodec

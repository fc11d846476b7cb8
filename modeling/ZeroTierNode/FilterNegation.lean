import ZeroTierNode.Filter

/-!
The NOT bit of a rule. A match is inverted by the XOR at the end of a turn; a match
that must not be inverted is pre-inverted by `hardYes` and `hardNo`. Where a frame
carries what the match looks at, a rule and its negation should be opposites.
-/

namespace ZeroTierNode
open Library.Bytes

namespace Rule

/-- The rule with the NOT bit, and without. -/
def setNot (rule : Rule) : Rule := { rule with t := rule.t ||| 0x80 }

def clearNot (rule : Rule) : Rule := { rule with t := rule.t &&& 0x7f }

theorem code_setNot (rule : Rule) : rule.setNot.code = rule.code := by
  have bits : ∀ t : Byte, (t ||| 0x80) &&& 0x3f = t &&& 0x3f := by decide
  exact congrArg BitVec.toNat (bits rule.t)

theorem code_clearNot (rule : Rule) : rule.clearNot.code = rule.code := by
  have bits : ∀ t : Byte, (t &&& 0x7f) &&& 0x3f = t &&& 0x3f := by decide
  exact congrArg BitVec.toNat (bits rule.t)

@[simp] theorem ruleType_setNot (rule : Rule) : rule.setNot.ruleType = rule.ruleType :=
  congrArg RuleType.ofCode (code_setNot rule)

@[simp] theorem ruleType_clearNot (rule : Rule) : rule.clearNot.ruleType = rule.ruleType :=
  congrArg RuleType.ofCode (code_clearNot rule)

@[simp] theorem isAction_setNot (rule : Rule) : rule.setNot.isAction = rule.isAction := by
  rw [isAction, isAction, code_setNot]

@[simp] theorem isAction_clearNot (rule : Rule) : rule.clearNot.isAction = rule.isAction := by
  rw [isAction, isAction, code_clearNot]

@[simp] theorem isOr_setNot (rule : Rule) : rule.setNot.isOr = rule.isOr := by
  have bits : ∀ t : Byte, (t ||| 0x80) &&& 0x40 = t &&& 0x40 := by decide
  rw [isOr, isOr, setNot, bits]

@[simp] theorem isOr_clearNot (rule : Rule) : rule.clearNot.isOr = rule.isOr := by
  have bits : ∀ t : Byte, (t &&& 0x7f) &&& 0x40 = t &&& 0x40 := by decide
  rw [isOr, isOr, clearNot, bits]

@[simp] theorem isNot_setNot (rule : Rule) : rule.setNot.isNot = true := by
  have bits : ∀ t : Byte, (t ||| 0x80) &&& 0x80 ≠ 0 := by decide
  exact decide_eq_true (bits rule.t)

@[simp] theorem isNot_clearNot (rule : Rule) : rule.clearNot.isNot = false := by
  have bits : ∀ t : Byte, ¬ (t &&& 0x7f) &&& 0x80 ≠ 0 := by decide
  exact decide_eq_false (bits rule.t)

@[simp] theorem v_setNot (rule : Rule) : rule.setNot.v = rule.v := rfl

@[simp] theorem v_clearNot (rule : Rule) : rule.clearNot.v = rule.v := rfl

end Rule

namespace Filter

/-- What a set of one rule comes to, from the point where the set begins. -/
def setMatches (q : FilterInput) (rn : Nat) (st : FilterState) (rule : Rule) : Bool :=
  match filterStep q rn rule { st with thisSetMatches := true } with
  | .inl _ => false
  | .inr next => next.thisSetMatches

section Fields

variable (q : FilterInput)

/-- The payload of an IPv6 frame. -/
def ipv6Payload : Option (Nat × Byte) :=
  if q.etherType = etherTypeIpv6 then ipv6GetPayload q.frameData q.frameLen else none

/-- Where an ICMP or ICMPv6 packet begins, if it is long enough for its type and code. -/
def icmpAt : Option Nat :=
  if q.isIpv4 then
    if q.frameData 9 = 0x01 ∧ q.ipv4HeaderLen + 2 ≤ q.frameLen then some q.ipv4HeaderLen else none
  else (ipv6Payload q).bind fun payload =>
    if payload.2 = 0x3a ∧ payload.1 + 2 ≤ q.frameLen then some payload.1 else none

/-- Where a TCP, UDP, SCTP or UDPLite packet begins, if it is long enough for its ports. -/
def portsAt : Option Nat :=
  if q.isIpv4 then
    if hasPorts (q.frameData 9) = true ∧ q.ipv4HeaderLen + 4 ≤ q.frameLen then some q.ipv4HeaderLen else none
  else (ipv6Payload q).bind fun payload =>
    if hasPorts payload.2 = true ∧ payload.1 + 4 ≤ q.frameLen then some payload.1 else none

/-- The frame carries the header field that the match looks at, or the needed tags are known. What
the other matches look at comes with every frame. -/
def Carries (rule : Rule) : Prop :=
  match rule.ruleType with
  | .matchIpv4Source | .matchIpv4Dest => q.isIpv4 = true
  | .matchIpv6Source | .matchIpv6Dest => q.isIpv6 = true
  | .matchIpTos => q.isIpv4 = true ∨ q.isIpv6 = true
  | .matchIpProtocol => q.isIpv4 = true ∨ (ipv6Payload q).isSome = true
  | .matchIcmp => (icmpAt q).isSome = true
  | .matchIpSourcePortRange | .matchIpDestPortRange => (portsAt q).isSome = true
  | .matchTagsDifference | .matchTagsBitwiseAnd | .matchTagsBitwiseOr | .matchTagsBitwiseXor | .matchTagsEqual =>
      (localTag q.nconf rule.v.tagId).isSome = true ∧ (q.remoteTag rule.v.tagId).isSome = true
  | .matchTagSender =>
      (if q.inbound then q.remoteTag rule.v.tagId else localTag q.nconf rule.v.tagId).isSome = true
  | .matchTagReceiver =>
      (if q.inbound then localTag q.nconf rule.v.tagId else q.remoteTag rule.v.tagId).isSome = true
  | _ => True

/-- The match is inverted by the NOT bit: of ICMP only the comparison of the code is, and a target of
the frame takes every tag of the sender and of the receiver for granted. -/
def Inverts (superAccept : Bool) (rule : Rule) : Prop :=
  match rule.ruleType with
  | .matchIcmp => ∀ pos ∈ icmpAt q, rule.v.icmpType = q.frameData pos ∧ rule.v.icmpFlags &&& 0x01 ≠ 0
  | .matchTagSender | .matchTagReceiver => superAccept = false
  | _ => True

end Fields

section Law

variable {q : FilterInput} {rule : Rule}

theorem setMatches_eq (rn : Nat) (st : FilterState) (isMatch : rule.isAction = false) :
    setMatches q rn st rule =
      (rule.isOr || ((matchRule q st.out.ztDest st.superAccept rn rule).1 ^^ rule.isNot)) := by
  unfold setMatches filterStep
  rw [isMatch]
  cases joined : rule.isOr <;> simp

/-- A set of one rule and the set of its negation are opposites if the match computes the same for
both, so that only the XOR at the end makes a difference. -/
theorem opposite_iff (rn : Nat) (st : FilterState) (isMatch : rule.isAction = false) :
    setMatches q rn st rule.setNot = (!setMatches q rn st rule.clearNot) ↔
      rule.isOr = false ∧
        (matchRule q st.out.ztDest st.superAccept rn rule.setNot).1 =
          (matchRule q st.out.ztDest st.superAccept rn rule.clearNot).1 := by
  have negated : rule.setNot.isAction = false := (Rule.isAction_setNot rule).trans isMatch
  have plain : rule.clearNot.isAction = false := (Rule.isAction_clearNot rule).trans isMatch
  rw [setMatches_eq rn st negated, setMatches_eq rn st plain, Rule.isOr_setNot, Rule.isOr_clearNot,
    Rule.isNot_setNot, Rule.isNot_clearNot]
  cases rule.isOr <;> simp

theorem hardYes_setNot : rule.setNot.hardYes = false := by
  rw [Rule.hardYes, Rule.isNot_setNot, Bool.not_true]

theorem hardYes_clearNot : rule.clearNot.hardYes = true := by
  rw [Rule.hardYes, Rule.isNot_clearNot, Bool.not_false]

theorem hardNo_setNot : rule.setNot.hardNo = true := Rule.isNot_setNot rule

theorem hardNo_clearNot : rule.clearNot.hardNo = false := Rule.isNot_clearNot rule

theorem matchIpTos_same (carries : q.isIpv4 = true ∨ q.isIpv6 = true) :
    matchIpTos q rule.setNot = matchIpTos q rule.clearNot := by
  unfold matchIpTos
  cases ipv4 : q.isIpv4 with
  | true => rfl
  | false =>
      rw [ipv4] at carries
      rw [carries.resolve_left Bool.false_ne_true]
      rfl

theorem ipv6Payload_some {payload : Nat × Byte} (found : ipv6Payload q = some payload) :
    q.etherType = etherTypeIpv6 ∧ ipv6GetPayload q.frameData q.frameLen = some payload := by
  unfold ipv6Payload at found
  split at found
  · exact ⟨‹_›, found⟩
  · cases found

theorem matchIpProtocol_same (carries : q.isIpv4 = true ∨ (ipv6Payload q).isSome = true) :
    matchIpProtocol q rule.setNot = matchIpProtocol q rule.clearNot := by
  unfold matchIpProtocol
  cases ipv4 : q.isIpv4 with
  | true => rfl
  | false =>
      rw [ipv4] at carries
      obtain ⟨payload, found⟩ := Option.isSome_iff_exists.mp (carries.resolve_left Bool.false_ne_true)
      have parsed := ipv6Payload_some found
      rw [if_pos parsed.1, if_pos parsed.1, parsed.2]
      rfl

/-- Over IPv4 and over IPv6 an ICMP packet is looked at alike. -/
theorem matchIcmp_eq {pos : Nat} (here : icmpAt q = some pos) :
    matchIcmp q rule =
      if rule.v.icmpType = q.frameData pos then
        if rule.v.icmpFlags &&& 0x01 ≠ 0 then decide (q.frameData (pos + 1) = rule.v.icmpCode) else rule.hardYes
      else rule.hardNo := by
  unfold icmpAt at here
  unfold matchIcmp
  by_cases ipv4 : q.isIpv4 = true
  · rw [if_pos ipv4] at here ⊢
    by_cases whole : q.frameData 9 = 0x01 ∧ q.ipv4HeaderLen + 2 ≤ q.frameLen
    · rw [if_pos whole] at here
      rw [if_pos whole.1, if_pos whole.2, Option.some.inj here]
    · rw [if_neg whole] at here
      cases here
  · rw [if_neg ipv4] at here ⊢
    obtain ⟨payload, found, whole⟩ := Option.bind_eq_some_iff.mp here
    have parsed := ipv6Payload_some found
    by_cases icmp : payload.2 = 0x3a ∧ payload.1 + 2 ≤ q.frameLen
    · rw [if_pos icmp] at whole
      rw [if_pos parsed.1, parsed.2]
      dsimp only
      rw [if_pos icmp, Option.some.inj whole]
    · rw [if_neg icmp] at whole
      cases whole

theorem matchIcmp_same_iff {pos : Nat} (here : icmpAt q = some pos) :
    matchIcmp q rule.setNot = matchIcmp q rule.clearNot ↔
      rule.v.icmpType = q.frameData pos ∧ rule.v.icmpFlags &&& 0x01 ≠ 0 := by
  rw [matchIcmp_eq here, matchIcmp_eq here, hardYes_setNot, hardYes_clearNot, hardNo_setNot, hardNo_clearNot,
    Rule.v_setNot, Rule.v_clearNot]
  by_cases type : rule.v.icmpType = q.frameData pos
  · by_cases flag : rule.v.icmpFlags &&& 0x01 ≠ 0
    · simp only [type, flag, if_true, ne_eq, not_false_eq_true, and_self]
    · rw [if_pos type, if_pos type, if_neg flag, if_neg flag]
      exact ⟨(fun wrong => nomatch wrong), fun both => absurd both.2 flag⟩
  · rw [if_neg type, if_neg type]
    exact ⟨(fun wrong => nomatch wrong), fun both => absurd both.1 type⟩

theorem matchPortRange_same (dest : Bool) (carries : (portsAt q).isSome = true) :
    matchPortRange q rule.setNot dest = matchPortRange q rule.clearNot dest := by
  unfold portsAt at carries
  unfold matchPortRange
  by_cases ipv4 : q.isIpv4 = true
  · rw [if_pos ipv4, if_pos ipv4]
    rfl
  · rw [if_neg ipv4] at carries ⊢
    obtain ⟨pos, whole⟩ := Option.isSome_iff_exists.mp carries
    obtain ⟨payload, found, _⟩ := Option.bind_eq_some_iff.mp whole
    have parsed := ipv6Payload_some found
    rw [if_neg ipv4, if_pos parsed.1, if_pos parsed.1, parsed.2]
    rfl

/-- The comparisons of two tags. -/
def isTagComparison (kind : RuleType) : Prop :=
  kind = .matchTagsDifference ∨ kind = .matchTagsBitwiseAnd ∨ kind = .matchTagsBitwiseOr ∨
    kind = .matchTagsBitwiseXor ∨ kind = .matchTagsEqual

theorem compareTags_same (comparison : isTagComparison rule.ruleType) (ltv rtv : BitVec 32) :
    compareTags rule.setNot ltv rtv = compareTags rule.clearNot ltv rtv := by
  unfold compareTags
  rw [Rule.ruleType_setNot, Rule.ruleType_clearNot]
  rcases comparison with kind | kind | kind | kind | kind <;> rw [kind] <;> rfl

theorem matchTags_same (superAccept : Bool) (comparison : isTagComparison rule.ruleType)
    (ours : (localTag q.nconf rule.v.tagId).isSome = true) (theirs : (q.remoteTag rule.v.tagId).isSome = true) :
    (matchTags q rule.setNot superAccept).1 = (matchTags q rule.clearNot superAccept).1 := by
  obtain ⟨ltag, known⟩ := Option.isSome_iff_exists.mp ours
  obtain ⟨rtag, heard⟩ := Option.isSome_iff_exists.mp theirs
  unfold matchTags
  rw [Rule.v_setNot, Rule.v_clearNot, known]
  dsimp only
  rw [heard]
  exact compareTags_same comparison ltag.value rtag.value

theorem matchTagOf_same_iff (receiver superAccept : Bool)
    (known : (if (!receiver && q.inbound) || (receiver && !q.inbound) then q.remoteTag rule.v.tagId
      else localTag q.nconf rule.v.tagId).isSome = true) :
    (matchTagOf q rule.setNot receiver superAccept).1 = (matchTagOf q rule.clearNot receiver superAccept).1 ↔
      superAccept = false := by
  unfold matchTagOf
  cases superAccept with
  | true =>
      rw [if_pos rfl, if_pos rfl, hardYes_setNot, hardYes_clearNot]
      exact ⟨(fun wrong => nomatch wrong), (fun wrong => nomatch wrong)⟩
  | false =>
      rw [Rule.v_setNot, Rule.v_clearNot, if_neg Bool.false_ne_true, if_neg Bool.false_ne_true]
      by_cases remote : ((!receiver && q.inbound) || (receiver && !q.inbound)) = true
      · rw [if_pos remote] at known ⊢
        obtain ⟨rtag, heard⟩ := Option.isSome_iff_exists.mp known
        rw [if_pos remote, heard]
        exact ⟨fun _ => rfl, fun _ => rfl⟩
      · rw [if_neg remote] at known ⊢
        obtain ⟨ltag, ours⟩ := Option.isSome_iff_exists.mp known
        rw [if_neg remote, ours]
        exact ⟨fun _ => rfl, fun _ => rfl⟩

/-- Which matches compute the same with and without the NOT bit. -/
theorem matchRule_same_iff (ztDest : Address) (superAccept : Bool) (rn : Nat) (carries : Carries q rule) :
    (matchRule q ztDest superAccept rn rule.setNot).1 = (matchRule q ztDest superAccept rn rule.clearNot).1 ↔
      Inverts q superAccept rule := by
  unfold matchRule Inverts
  unfold Carries at carries
  rw [Rule.ruleType_setNot, Rule.ruleType_clearNot]
  cases kind : rule.ruleType
  all_goals rw [kind] at carries
  case matchIpv4Source | matchIpv4Dest | matchIpv6Source | matchIpv6Dest =>
    dsimp only at carries ⊢
    rw [if_pos carries, if_pos carries]
    exact iff_of_true rfl trivial
  case matchIpTos => exact iff_of_true (matchIpTos_same carries) trivial
  case matchIpProtocol => exact iff_of_true (matchIpProtocol_same carries) trivial
  case matchIcmp =>
    obtain ⟨pos, here⟩ := Option.isSome_iff_exists.mp carries
    dsimp only
    rw [matchIcmp_same_iff here, here]
    simp
  case matchIpSourcePortRange => exact iff_of_true (matchPortRange_same false carries) trivial
  case matchIpDestPortRange => exact iff_of_true (matchPortRange_same true carries) trivial
  case matchTagsDifference => exact iff_of_true (matchTags_same superAccept (.inl kind) carries.1 carries.2) trivial
  case matchTagsBitwiseAnd =>
    exact iff_of_true (matchTags_same superAccept (.inr (.inl kind)) carries.1 carries.2) trivial
  case matchTagsBitwiseOr =>
    exact iff_of_true (matchTags_same superAccept (.inr (.inr (.inl kind))) carries.1 carries.2) trivial
  case matchTagsBitwiseXor =>
    exact iff_of_true (matchTags_same superAccept (.inr (.inr (.inr (.inl kind)))) carries.1 carries.2) trivial
  case matchTagsEqual =>
    exact iff_of_true (matchTags_same superAccept (.inr (.inr (.inr (.inr kind)))) carries.1 carries.2) trivial
  case matchTagSender =>
    apply matchTagOf_same_iff false superAccept
    cases inbound : q.inbound <;> simpa [inbound] using carries
  case matchTagReceiver =>
    apply matchTagOf_same_iff true superAccept
    cases inbound : q.inbound <;> simpa [inbound] using carries
  all_goals exact iff_of_true rfl trivial

/-- The law of the NOT bit: a set of one match and the set of its negation are opposites on every frame
that carries what the match looks at, but for ICMP matches of the type, for tags that a target of the
frame takes for granted, and behind an OR, which always holds at the beginning of a set. -/
theorem negation_iff (q : FilterInput) (rn : Nat) (st : FilterState) (rule : Rule) (isMatch : rule.isAction = false)
    (carries : Carries q rule) :
    setMatches q rn st rule.setNot = (!setMatches q rn st rule.clearNot) ↔
      rule.isOr = false ∧ Inverts q st.superAccept rule := by
  rw [opposite_iff rn st isMatch, matchRule_same_iff _ _ rn carries]

end Law

/-- An echo request in an IPv4 frame. -/
def echoRequest : FilterInput where
  identity := 7
  nconf := .nil
  membership := none
  inbound := true
  ztSource := 9
  macSource := 0
  macDest := 0
  frameData := fun i =>
    [0x45, 0, 0, 28, 0, 0, 0, 0, 64, 1, 0, 0, 10, 0, 0, 1, 10, 0, 0, 2, 8, 0, 0, 0, 0, 0, 0, 0].getD i 0
  frameLen := 28
  etherType := 0x0800
  vlanId := 0
  prng := fun _ => 0

/-- The match of a type and its code. -/
def pingRule : Rule := ⟨38, { icmpType := 8, icmpCode := 0, icmpFlags := 1 }⟩

/-- The match of echo replies, whatever their code. -/
def pongRule : Rule := ⟨38, { icmpType := 0 }⟩

theorem echoRequest_carries {rule : Rule} (icmp : rule.ruleType = .matchIcmp) : Carries echoRequest rule := by
  unfold Carries
  rw [icmp]
  dsimp only
  decide

theorem ping_negation :
    setMatches echoRequest 0 (initialState ⟨7, 0, 0, false, 0⟩) pingRule.setNot =
      !setMatches echoRequest 0 (initialState ⟨7, 0, 0, false, 0⟩) pingRule.clearNot := by
  apply (negation_iff echoRequest 0 (initialState ⟨7, 0, 0, false, 0⟩) pingRule rfl (echoRequest_carries rfl)).mpr
  have here : icmpAt echoRequest = some 20 := by decide
  constructor
  · rfl
  · intro pos found
    rw [here] at found
    cases found
    decide

/-- "Not an echo reply" does not match an echo request. -/
theorem not_pong_misses_ping :
    ¬ ∀ (q : FilterInput) (rn : Nat) (st : FilterState) (rule : Rule), rule.isAction = false →
      rule.ruleType ≠ .matchRandom → Carries q rule →
      setMatches q rn st rule.setNot = !setMatches q rn st rule.clearNot := by
  intro law
  have opposite := law echoRequest 0 (initialState ⟨7, 0, 0, false, 0⟩) pongRule rfl (by decide)
    (echoRequest_carries rfl)
  have same : setMatches echoRequest 0 (initialState ⟨7, 0, 0, false, 0⟩) pongRule.setNot =
      setMatches echoRequest 0 (initialState ⟨7, 0, 0, false, 0⟩) pongRule.clearNot := by decide
  rw [same] at opposite
  exact (Bool.eq_not_self _).mp opposite

end Filter

end ZeroTierNode

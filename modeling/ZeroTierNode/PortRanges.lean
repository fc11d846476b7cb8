import ZeroTierNode.Filter

/-!
Port rules over IPv4 and IPv6. A transport segment is carried once behind an IPv4
header with options, once behind an IPv6 header with extension headers; the two
branches of the match find the same ports, but only one of them knows port 0.
-/

namespace ZeroTierNode

namespace Filter
open Library.Bytes

/-- A TCP, UDP, SCTP or UDPLite segment. -/
structure Segment where
  proto : Byte
  bytes : List Byte
  transport : hasPorts proto = true

/-- The source or the destination port. -/
def Segment.port (segment : Segment) (dest : Bool) : BitVec 16 :=
  wordOf 16 ((segment.bytes.drop (if dest then 2 else 0)).take 2)

/-- A segment in an IPv4 frame, behind a header of any length. -/
structure Ipv4Frame (segment : Segment) where
  header : List Byte
  long : 20 ≤ header.length
  ihl : 4 * (header.getD 0 0 &&& 0xf).toNat = header.length
  protocol : header.getD 9 0 = segment.proto

/-- An extension header up to its first byte, which names the header behind it. -/
structure Extension where
  kind : Byte
  units : Byte
  body : List Byte
  skippable : kind = 0 ∨ kind = 43 ∨ kind = 60 ∨ kind = 135
  whole : body.length = units.toNat * 8 + 6

/-- The type of the first header of a chain. -/
def firstHeader (proto : Byte) : List Extension → Byte
  | [] => proto
  | extension :: _ => extension.kind

def chainBytes (proto : Byte) : List Extension → List Byte
  | [] => []
  | extension :: chain =>
      firstHeader proto chain :: extension.units :: (extension.body ++ chainBytes proto chain)

/-- A segment in an IPv6 frame, behind any chain of extension headers. -/
structure Ipv6Frame (segment : Segment) where
  header : List Byte
  chain : List Extension
  whole : header.length = 40
  nextHeader : header.getD 6 0 = firstHeader segment.proto chain

def Ipv4Frame.bytes {segment : Segment} (frame : Ipv4Frame segment) : List Byte := frame.header ++ segment.bytes

def Ipv6Frame.bytes {segment : Segment} (frame : Ipv6Frame segment) : List Byte :=
  frame.header ++ chainBytes segment.proto frame.chain ++ segment.bytes

/-- The same arguments with another frame. -/
def FilterInput.withFrame (q : FilterInput) (etherType : BitVec 32) (bytes : List Byte) : FilterInput :=
  { q with
    etherType := etherType
    frameLen := bytes.length
    frameData := fun i => bytes.getD i (q.frameData i) }

/-- A rule for source or destination ports. -/
structure PortRule where
  rule : Rule
  dest : Bool
  kind : rule.ruleType = if dest then .matchIpDestPortRange else .matchIpSourcePortRange

/-- What a port rule without NOT should come to. -/
def PortRule.Meets (port : PortRule) (segment : Segment) : Prop :=
  4 < segment.bytes.length ∧ port.rule.v.port0 ≤ segment.port port.dest ∧ segment.port port.dest ≤ port.rule.v.port1

instance (port : PortRule) (segment : Segment) : Decidable (port.Meets segment) := by
  unfold PortRule.Meets
  infer_instance

section Memory

variable {memory : Nat → Byte} {bytes : List Byte}

/-- The memory begins with these bytes. -/
def Holds (memory : Nat → Byte) (bytes : List Byte) : Prop := ∀ i (inside : i < bytes.length), memory i = bytes[i]

theorem withFrame_holds (q : FilterInput) (etherType : BitVec 32) (bytes : List Byte) :
    Holds (q.withFrame etherType bytes).frameData bytes := by
  intro i inside
  change bytes.getD i (q.frameData i) = bytes[i]
  rw [List.getD_eq_getElem?_getD, List.getElem?_eq_getElem inside, Option.getD_some]

theorem Holds.getD (holds : Holds memory bytes) {i : Nat} (inside : i < bytes.length) : memory i = bytes.getD i 0 := by
  rw [holds i inside, List.getD_eq_getElem?_getD, List.getElem?_eq_getElem inside, Option.getD_some]

theorem getD_left {before after : List Byte} {i : Nat} (inside : i < before.length) :
    (before ++ after).getD i 0 = before.getD i 0 := by
  rw [List.getD_eq_getElem?_getD, List.getD_eq_getElem?_getD, List.getElem?_append_left inside]

/-- Bytes of the frame as a word. -/
theorem word_of_holds {q : FilterInput} {width count position : Nat} (holds : Holds q.frameData bytes)
    (inside : position + count ≤ bytes.length) :
    q.word width count position = wordOf width ((bytes.drop position).take count) := by
  have same : (List.range count).map (fun i => q.frameData (position + i)) = (bytes.drop position).take count := by
    apply List.ext_getElem
    · simp only [List.length_map, List.length_range, List.length_take, List.length_drop]
      omega
    · intro i _ there
      rw [List.length_take, List.length_drop] at there
      rw [List.getElem_map, List.getElem_range, List.getElem_take, List.getElem_drop]
      exact holds (position + i) (by omega)
  rw [FilterInput.word, same]

theorem hasPorts_payload {proto : Byte} (transport : hasPorts proto = true) :
    ¬ (proto = 0 ∨ proto = 43 ∨ proto = 60 ∨ proto = 135) := by
  revert transport
  revert proto
  decide

/-- The walk goes over a chain of extension headers to the segment. -/
theorem ipv6Walk_chain {proto : Byte} (transport : hasPorts proto = true) (chain : List Extension)
    (before segment : List Byte) (holds : Holds memory (before ++ (chainBytes proto chain ++ segment))) :
    ipv6Walk memory (before ++ (chainBytes proto chain ++ segment)).length before.length (firstHeader proto chain) =
      some (before.length + (chainBytes proto chain).length, proto) := by
  induction chain generalizing before with
  | nil =>
      have inside : ¬ (before ++ (chainBytes proto [] ++ segment)).length < before.length := by
        simp
      rw [ipv6Walk, if_neg inside]
      change (if proto = 0 ∨ proto = 43 ∨ proto = 60 ∨ proto = 135 then _ else _) = _
      rw [if_neg (hasPorts_payload transport)]
      rfl
  | cons extension chain ih =>
      have size := extension.whole
      have length : (before ++ (chainBytes proto (extension :: chain) ++ segment)).length =
          before.length + (8 + extension.units.toNat * 8) + (chainBytes proto chain).length + segment.length := by
        simp only [chainBytes, List.length_append, List.length_cons]
        omega
      have next : memory before.length = firstHeader proto chain := by
        rw [holds.getD (by omega)]
        simp [chainBytes]
      have units : memory (before.length + 1) = extension.units := by
        rw [holds.getD (by omega)]
        simp [chainBytes]
      have regroup : before ++ (chainBytes proto (extension :: chain) ++ segment) =
          (before ++ firstHeader proto chain :: extension.units :: extension.body) ++
            (chainBytes proto chain ++ segment) := by
        simp [chainBytes]
      have here : (before ++ firstHeader proto chain :: extension.units :: extension.body).length =
          before.length + (extension.units.toNat * 8 + 8) := by
        simp only [List.length_append, List.length_cons]
        omega
      rw [ipv6Walk, if_neg (by omega), firstHeader, if_pos extension.skippable, if_neg (by omega), next, units]
      rw [regroup] at holds ⊢
      rw [← here, ih _ holds]
      simp only [chainBytes, List.length_append, List.length_cons]
      congr 2
      omega

end Memory

section Frames

variable {segment : Segment} (q : FilterInput)

/-- The port of a segment behind headers of any kind. -/
theorem word_port {frame : FilterInput} {before : List Byte} (holds : Holds frame.frameData (before ++ segment.bytes))
    (long : 4 < segment.bytes.length) (dest : Bool) :
    frame.word 16 2 (before.length + if dest then 2 else 0) = segment.port dest := by
  have offset : (if dest then 2 else 0) ≤ 2 := by split <;> omega
  rw [word_of_holds holds (by rw [List.length_append]; omega), Segment.port, List.drop_append,
    List.drop_eq_nil_of_le (Nat.le_add_right _ _), List.nil_append, Nat.add_sub_cancel_left]

theorem ipv4_match (frame : Ipv4Frame segment) (port : PortRule) :
    matchPortRange (q.withFrame etherTypeIpv4 frame.bytes) port.rule port.dest = decide (port.Meets segment) := by
  have length : frame.bytes.length = frame.header.length + segment.bytes.length := List.length_append
  have long := frame.long
  have holds := withFrame_holds q etherTypeIpv4 frame.bytes
  have ipv4 : (q.withFrame etherTypeIpv4 frame.bytes).isIpv4 = true :=
    decide_eq_true ⟨rfl, show 20 ≤ frame.bytes.length by omega⟩
  have header (i : Nat) (inside : i < 20) :
      (q.withFrame etherTypeIpv4 frame.bytes).frameData i = frame.header.getD i 0 := by
    rw [holds.getD (by omega), Ipv4Frame.bytes, getD_left (by omega)]
  have headerLen : (q.withFrame etherTypeIpv4 frame.bytes).ipv4HeaderLen = frame.header.length := by
    rw [FilterInput.ipv4HeaderLen, header 0 (by omega), frame.ihl]
  have behind : frame.header.length + 4 < (q.withFrame etherTypeIpv4 frame.bytes).frameLen ↔
      4 < segment.bytes.length := by
    change frame.header.length + 4 < frame.bytes.length ↔ _
    omega
  unfold matchPortRange
  dsimp only
  rw [if_pos ipv4, headerLen, header 9 (by omega), frame.protocol, segment.transport]
  apply decide_eq_decide.mpr
  rw [behind]
  by_cases whole : 4 < segment.bytes.length
  · rw [word_port holds whole]
    simp [PortRule.Meets, whole, BitVec.le_def]
  · simp [PortRule.Meets, whole]

theorem ipv6_payload (frame : Ipv6Frame segment) :
    ipv6GetPayload (q.withFrame etherTypeIpv6 frame.bytes).frameData (q.withFrame etherTypeIpv6 frame.bytes).frameLen =
      some (frame.header.length + (chainBytes segment.proto frame.chain).length, segment.proto) := by
  have holds := withFrame_holds q etherTypeIpv6 frame.bytes
  have whole := frame.whole
  have regroup : frame.bytes = frame.header ++ (chainBytes segment.proto frame.chain ++ segment.bytes) :=
    List.append_assoc _ _ _
  have long : 40 ≤ frame.bytes.length := by
    rw [regroup, List.length_append]
    omega
  have next : (q.withFrame etherTypeIpv6 frame.bytes).frameData 6 = firstHeader segment.proto frame.chain := by
    rw [holds.getD (by omega), regroup, getD_left (by omega), frame.nextHeader]
  unfold ipv6GetPayload
  have fixed : ¬ (q.withFrame etherTypeIpv6 frame.bytes).frameLen < 40 := Nat.not_lt.mpr long
  rw [if_neg fixed, next]
  change ipv6Walk _ frame.bytes.length 40 _ = _
  rw [regroup] at holds ⊢
  rw [← whole]
  exact ipv6Walk_chain segment.transport frame.chain frame.header segment.bytes holds

/-- Over IPv6 port 0 never matches. -/
theorem ipv6_match (frame : Ipv6Frame segment) (port : PortRule) :
    matchPortRange (q.withFrame etherTypeIpv6 frame.bytes) port.rule port.dest =
      decide (port.Meets segment ∧ segment.port port.dest ≠ 0) := by
  have other : (q.withFrame etherTypeIpv6 frame.bytes).isIpv4 ≠ true := by
    intro ipv4
    have wrong : etherTypeIpv6 = etherTypeIpv4 := (of_decide_eq_true ipv4).1
    exact absurd wrong (by decide)
  have holds := withFrame_holds q etherTypeIpv6 frame.bytes
  have behind : frame.header.length + (chainBytes segment.proto frame.chain).length + 4 <
      (q.withFrame etherTypeIpv6 frame.bytes).frameLen ↔ 4 < segment.bytes.length := by
    change _ < frame.bytes.length ↔ _
    rw [Ipv6Frame.bytes, List.length_append, List.length_append]
    omega
  unfold matchPortRange
  dsimp only
  have ipv6 : (q.withFrame etherTypeIpv6 frame.bytes).etherType = etherTypeIpv6 := rfl
  rw [if_neg other, if_pos ipv6, ipv6_payload]
  dsimp only
  rw [segment.transport]
  apply decide_eq_decide.mpr
  rw [behind]
  by_cases whole : 4 < segment.bytes.length
  · have known : 0 < (segment.port port.dest).toNat ↔ segment.port port.dest ≠ 0 := by
      rw [Nat.pos_iff_ne_zero, ne_eq, ne_eq, BitVec.toNat_eq]
      rfl
    rw [← List.length_append, word_port holds whole, known]
    simp [PortRule.Meets, whole, BitVec.le_def, and_comm]
  · simp [PortRule.Meets, whole]

end Frames

section Agreement

variable {segment : Segment} (port : PortRule)

theorem PortRule.isMatch : port.rule.isAction = false := by
  have kinds : ∀ code ≤ 15, ∀ dest : Bool,
      RuleType.ofCode code ≠ if dest then .matchIpDestPortRange else .matchIpSourcePortRange := by decide
  apply decide_eq_false
  intro low
  exact kinds port.rule.code low port.dest port.kind

theorem PortRule.matchRule_eq (q : FilterInput) (ztDest : Address) (superAccept : Bool) (rn : Nat) :
    matchRule q ztDest superAccept rn port.rule = (matchPortRange q port.rule port.dest, false) := by
  have kind := port.kind
  unfold matchRule
  rw [kind]
  cases port.dest <;> rfl

/-- One turn of the loop at a port rule. -/
theorem PortRule.filterStep_eq (q : FilterInput) (rn : Nat) (st : FilterState) :
    filterStep q rn port.rule st =
      if !st.thisSetMatches && !port.rule.isOr then .inr st
      else .inr { st with
        thisSetMatches :=
          if port.rule.isOr then st.thisSetMatches || (matchPortRange q port.rule port.dest ^^ port.rule.isNot)
          else st.thisSetMatches && (matchPortRange q port.rule port.dest ^^ port.rule.isNot)
        skipDrop := st.skipDrop || false } := by
  unfold filterStep
  rw [port.isMatch, if_neg Bool.false_ne_true, port.matchRule_eq]

/-- Two frames on which a port rule has the same result in every set are matched alike. -/
theorem PortRule.filterStep_same_iff (q q' : FilterInput) :
    (∀ rn st, filterStep q rn port.rule st = filterStep q' rn port.rule st) ↔
      matchPortRange q port.rule port.dest = matchPortRange q' port.rule port.dest := by
  constructor
  · intro same
    -- a set that an AND can still end, or an OR can still save
    have step := same 0 ⟨false, !port.rule.isOr, false, ⟨0, 0, 0, false, 0⟩⟩
    rw [port.filterStep_eq, port.filterStep_eq] at step
    cases joined : port.rule.isOr <;> rw [joined] at step
    · have result := congrArg FilterState.thisSetMatches (Sum.inr.inj step)
      simpa using result
    · have result := congrArg FilterState.thisSetMatches (Sum.inr.inj step)
      simpa using result
  · intro same rn st
    rw [port.filterStep_eq, port.filterStep_eq, same]

/-- A port rule has the same result over IPv4 and over IPv6, and without NOT the right one, unless the
port is 0, the segment is long enough to be looked at and the range begins at 0. -/
theorem port_ranges_agree_iff (frame4 : Ipv4Frame segment) (frame6 : Ipv6Frame segment) (q4 q6 : FilterInput) :
    ((∀ rn st, filterStep (q4.withFrame etherTypeIpv4 frame4.bytes) rn port.rule st =
        filterStep (q6.withFrame etherTypeIpv6 frame6.bytes) rn port.rule st) ∧
      (port.rule.isNot = false → ∀ ztDest superAccept rn,
        (matchRule (q4.withFrame etherTypeIpv4 frame4.bytes) ztDest superAccept rn port.rule).1 =
            decide (port.Meets segment) ∧
          (matchRule (q6.withFrame etherTypeIpv6 frame6.bytes) ztDest superAccept rn port.rule).1 =
            decide (port.Meets segment))) ↔
      ¬ (4 < segment.bytes.length ∧ segment.port port.dest = 0 ∧ port.rule.v.port0 = 0) := by
  have zero : 4 < segment.bytes.length ∧ segment.port port.dest = 0 ∧ port.rule.v.port0 = 0 ↔
      port.Meets segment ∧ segment.port port.dest = 0 := by
    constructor
    · intro here
      have low : port.rule.v.port0 ≤ segment.port port.dest := by
        rw [here.2.1, here.2.2]
        exact BitVec.le_refl _
      have high : segment.port port.dest ≤ port.rule.v.port1 := by
        rw [here.2.1]
        exact BitVec.le_def.mpr (Nat.zero_le _)
      exact ⟨⟨here.1, low, high⟩, here.2.1⟩
    · intro here
      have low := here.1.2.1
      rw [here.2] at low
      exact ⟨here.1.1, here.2, BitVec.le_zero_iff.mp low⟩
  rw [port.filterStep_same_iff, zero]
  simp only [port.matchRule_eq, ipv4_match, ipv6_match, true_and]
  by_cases meets : port.Meets segment
  · simp [meets]
    exact fun other _ => other
  · simp [meets]

/-- A segment from port 0. -/
def fromPortZero : Segment := ⟨17, [0, 0, 0, 53, 0, 8, 0, 0], rfl⟩

def fromPortZero4 : Ipv4Frame fromPortZero :=
  ⟨[0x45, 0, 0, 28, 0, 0, 0, 0, 64, 17, 0, 0, 10, 0, 0, 1, 10, 0, 0, 2], by decide, by decide, by decide⟩

def fromPortZero6 : Ipv6Frame fromPortZero :=
  ⟨[0x60, 0, 0, 0, 0, 8, 17, 64, 0xfd, 0, 0, 0, 0, 0, 0, 0, 0, 0, 0, 0, 0, 0, 0, 1, 0xfd, 0, 0, 0, 0, 0, 0, 0, 0, 0, 0,
    0, 0, 0, 0, 2], [], by decide, by decide⟩

/-- The system ports as source. -/
def systemPorts : PortRule := ⟨⟨39, { port0 := 0, port1 := 1023 }⟩, false, by decide⟩

/-- The system ports include port 0 over IPv4, but not over IPv6. -/
theorem port_zero_differs :
    ¬ ∀ (segment : Segment) (port : PortRule) (frame4 : Ipv4Frame segment) (frame6 : Ipv6Frame segment)
      (q4 q6 : FilterInput),
      (∀ rn st, filterStep (q4.withFrame etherTypeIpv4 frame4.bytes) rn port.rule st =
          filterStep (q6.withFrame etherTypeIpv6 frame6.bytes) rn port.rule st) ∧
        (port.rule.isNot = false → ∀ ztDest superAccept rn,
          (matchRule (q4.withFrame etherTypeIpv4 frame4.bytes) ztDest superAccept rn port.rule).1 =
              decide (port.Meets segment) ∧
            (matchRule (q6.withFrame etherTypeIpv6 frame6.bytes) ztDest superAccept rn port.rule).1 =
              decide (port.Meets segment)) := by
  intro agree
  let q : FilterInput := ⟨7, .nil, none, true, 9, 0, 0, fun _ => 0, 0, 0, 0, fun _ => 0⟩
  have same := (systemPorts.filterStep_same_iff _ _).mp
    (agree fromPortZero systemPorts fromPortZero4 fromPortZero6 q q).1
  rw [ipv4_match, ipv6_match] at same
  have meets : systemPorts.Meets fromPortZero := by decide
  have zero : fromPortZero.port systemPorts.dest = 0 := by decide
  simp [meets, zero] at same

end Agreement

end Filter

end ZeroTierNode

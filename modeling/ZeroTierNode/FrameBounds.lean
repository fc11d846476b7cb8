import ZeroTierNode.FrameReads

/-!
All reads of a frame are inside it but those of the TCP flags over IPv4: there
`MATCH_CHARACTERISTICS` trusts the header length of the frame.
-/

namespace ZeroTierNode.FrameReads
open Library.Bytes Library.Readings ZeroTierNode.Filter

/-- An IPv4 frame with a TCP segment that is cut before its flags. -/
def TcpCut (q : FilterInput) : Prop :=
  q.isIpv4 = true ∧ q.frameData 9 = 0x06 ∧ q.frameLen ≤ q.ipv4HeaderLen + 13

instance (q : FilterInput) : Decidable (TcpCut q) := by
  unfold TcpCut
  infer_instance

/-- The turns of the loop: every rule it comes to, with the variables at that point. -/
def turns (q : FilterInput) : Nat → FilterState → List Rule → List (FilterState × Rule)
  | _, _, [] => []
  | rn, st, rule :: rules =>
      (st, rule) :: match Filter.filterStep q rn rule st with
        | .inl _ => []
        | .inr st => turns q (rn + 1) st rules

/-- The turn evaluates a match of the characteristics of the frame. -/
def LooksAtCharacteristics (turn : FilterState × Rule) : Prop :=
  turn.2.isAction = false ∧ (turn.1.thisSetMatches = true ∨ turn.2.isOr = true) ∧
    turn.2.ruleType = .matchCharacteristics

instance (turn : FilterState × Rule) : Decidable (LooksAtCharacteristics turn) := by
  unfold LooksAtCharacteristics
  infer_instance

section Bounds

variable (q : FilterInput)

theorem isIpv4_length (ipv4 : q.isIpv4 = true) : 20 ≤ q.frameLen := (of_decide_eq_true ipv4).2

theorem isIpv6_length (ipv6 : q.isIpv6 = true) : 40 ≤ q.frameLen := (of_decide_eq_true ipv6).2

/-- Extension headers are walked only as far as they are whole. -/
theorem ipv6Walk_inside (memory : Nat → Byte) (frameLen pos : Nat) (proto : Byte) :
    (ipv6Walk frameLen pos proto).Inside memory frameLen := by
  induction pos, proto using ipv6Walk.induct frameLen with
  | case1 pos proto outside =>
      rw [ipv6Walk, if_pos outside]
      exact (inside_pure none).mpr trivial
  | case2 pos proto inside header cut =>
      rw [ipv6Walk, if_neg inside, if_pos header, if_pos cut]
      exact (inside_pure none).mpr trivial
  | case3 pos proto inside header whole ih =>
      have next : pos < frameLen := by omega
      have units : pos + 1 < frameLen := by omega
      rw [ipv6Walk, if_neg inside, if_pos header, if_neg whole, inside_bind, inside_bind, inside_byteAt, inside_byteAt]
      exact ⟨next, units, ih (memory pos) (memory (pos + 1))⟩
  | case4 pos proto inside payload =>
      rw [ipv6Walk, if_neg inside, if_neg payload]
      exact (inside_pure _).mpr trivial

theorem ipv6GetPayload_inside (memory : Nat → Byte) (frameLen : Nat) :
    (ipv6GetPayload frameLen).Inside memory frameLen := by
  unfold ipv6GetPayload
  rw [inside_ite, inside_bind, inside_byteAt]
  constructor
  · intro short
    exact (inside_pure none).mpr trivial
  · intro long
    exact ⟨by omega, ipv6Walk_inside memory frameLen 40 _⟩

variable {q}

theorem word_inside {width count position : Nat} (below : position + count ≤ q.frameLen) :
    (word width count position).Inside q.frameData q.frameLen := by
  rw [word, inside_bind]
  exact ⟨inside_bytesFrom below, (inside_pure _).mpr trivial⟩

theorem ip4At_inside {position : Nat} (below : position + 4 ≤ q.frameLen) :
    (ip4At position).Inside q.frameData q.frameLen := by
  rw [ip4At, inside_bind]
  exact ⟨word_inside below, (inside_pure _).mpr trivial⟩

theorem ip6At_inside {position : Nat} (below : position + 16 ≤ q.frameLen) :
    (ip6At position).Inside q.frameData q.frameLen := by
  rw [ip6At, inside_bind]
  exact ⟨word_inside below, (inside_pure _).mpr trivial⟩

theorem ipv4HeaderLen_inside (below : 0 < q.frameLen) : ipv4HeaderLen.Inside q.frameData q.frameLen := by
  rw [ipv4HeaderLen, inside_bind, inside_byteAt]
  exact ⟨below, (inside_pure _).mpr trivial⟩

theorem tcpFlags_inside_iff (pos : Nat) :
    (tcpFlags pos).Inside q.frameData q.frameLen ↔ pos + 13 < q.frameLen := by
  rw [tcpFlags, inside_bind, inside_bind, inside_byteAt, inside_byteAt]
  constructor
  · intro inside
    exact inside.1
  · intro below
    exact ⟨below, by omega, (inside_pure _).mpr trivial⟩

variable (rule : Rule)

theorem matchAddress_inside {present : Bool} {address : ByteReader InetAddress} (net : InetAddress)
    (inside : present = true → address.Inside q.frameData q.frameLen) :
    (matchAddress present address net rule).Inside q.frameData q.frameLen := by
  rw [matchAddress, inside_ite, inside_bind]
  exact ⟨fun here => ⟨inside here, (inside_pure _).mpr trivial⟩, fun _ => (inside_pure _).mpr trivial⟩

theorem matchIpTos_inside : (matchIpTos q rule).Inside q.frameData q.frameLen := by
  unfold matchIpTos
  simp only [inside_ite, inside_bind, inside_byteAt, inside_pure, and_true, implies_true]
  constructor
  · intro ipv4
    have long := isIpv4_length q ipv4
    omega
  · intro _ ipv6
    have long := isIpv6_length q ipv6
    omega

theorem matchIpProtocol_inside : (matchIpProtocol q rule).Inside q.frameData q.frameLen := by
  unfold matchIpProtocol
  simp only [inside_ite, inside_bind, inside_byteAt, inside_pure, and_true, implies_true]
  constructor
  · intro ipv4
    have long := isIpv4_length q ipv4
    omega
  · intro _ _
    refine ⟨ipv6GetPayload_inside q.frameData q.frameLen, ?_⟩
    cases (ipv6GetPayload q.frameLen).value q.frameData with
    | none => exact (inside_pure _).mpr trivial
    | some payload => exact (inside_pure _).mpr trivial

theorem typeAndCode_inside {pos : Nat} (below : pos + 2 ≤ q.frameLen) :
    (typeAndCode rule pos).Inside q.frameData q.frameLen := by
  unfold typeAndCode
  simp only [inside_ite, inside_bind, inside_byteAt, inside_pure, and_true, implies_true]
  constructor
  · omega
  · intro _ _
    omega

theorem matchIcmp_inside : (matchIcmp q rule).Inside q.frameData q.frameLen := by
  unfold matchIcmp
  simp only [inside_ite, inside_bind, inside_byteAt, inside_pure, and_true, implies_true]
  constructor
  · intro ipv4
    have long := isIpv4_length q ipv4
    exact ⟨by omega, fun _ => ⟨ipv4HeaderLen_inside (by omega), fun whole => typeAndCode_inside rule whole⟩⟩
  · intro _ _
    refine ⟨ipv6GetPayload_inside q.frameData q.frameLen, ?_⟩
    cases (ipv6GetPayload q.frameLen).value q.frameData with
    | none => exact (inside_pure _).mpr trivial
    | some payload =>
        simp only [inside_ite, inside_pure, implies_true, and_true]
        exact fun whole => typeAndCode_inside rule whole.2

theorem matchPortRange_inside (dest : Bool) :
    (matchPortRange q rule dest).Inside q.frameData q.frameLen := by
  have offset : (if dest then 2 else 0) ≤ 2 := by split <;> omega
  unfold matchPortRange
  simp only [inside_ite, inside_bind, inside_byteAt, inside_pure, and_true, implies_true]
  constructor
  · intro ipv4
    have long := isIpv4_length q ipv4
    exact ⟨ipv4HeaderLen_inside (by omega), by omega, fun whole => word_inside (by omega)⟩
  · intro _ _
    refine ⟨ipv6GetPayload_inside q.frameData q.frameLen, ?_⟩
    cases (ipv6GetPayload q.frameLen).value q.frameData with
    | none => exact (inside_pure _).mpr trivial
    | some payload =>
        simp only [inside_ite, inside_bind, inside_pure, implies_true, and_true]
        exact fun whole => word_inside (by omega)

theorem ownershipSource_inside : (ownershipSource q).Inside q.frameData q.frameLen := by
  unfold ownershipSource
  simp only [inside_ite, inside_bind, inside_byteAt, inside_pure, and_true, implies_true]
  constructor
  · intro ipv4
    have long := isIpv4_length q ipv4
    exact ip4At_inside (by omega)
  · intro _
    constructor
    · intro ipv6
      have long := isIpv6_length q ipv6
      have source : (ip6At 8).Inside q.frameData q.frameLen := ip6At_inside (by omega)
      have target (whole : 40 + 8 + 16 ≤ q.frameLen) : (ip6At (40 + 8)).Inside q.frameData q.frameLen :=
        ip6At_inside (by omega)
      simp only [source, implies_true, and_true]
      exact fun whole => ⟨by omega, fun _ => ⟨by omega, trivial, fun _ _ => target whole⟩⟩
    · intro _ arp
      exact ip4At_inside (by omega)

theorem isTcpOverIpv4_inside : (isTcpOverIpv4 q).Inside q.frameData q.frameLen := by
  unfold isTcpOverIpv4
  simp only [inside_ite, inside_bind, inside_byteAt, inside_pure, and_true, implies_true]
  intro ipv4
  have long := isIpv4_length q ipv4
  omega

/-- The flags of a cut segment lie behind the frame. -/
theorem frameTcpFlags_inside_iff : (frameTcpFlags q).Inside q.frameData q.frameLen ↔ ¬ TcpCut q := by
  unfold frameTcpFlags
  rw [inside_bind, isTcpOverIpv4_value, inside_ite, decide_eq_true_eq, inside_bind, ipv4HeaderLen_value,
    tcpFlags_inside_iff]
  constructor
  · intro inside cut
    have below := (inside.2.1 ⟨cut.1, cut.2.1⟩).2
    have behind := cut.2.2
    omega
  · intro whole
    refine ⟨isTcpOverIpv4_inside, ?_, ?_⟩
    · intro tcp
      have long := isIpv4_length q tcp.1
      exact ⟨ipv4HeaderLen_inside (by omega), Nat.lt_of_not_le fun behind => whole ⟨tcp.1, tcp.2, behind⟩⟩
    · intro _
      simp only [inside_ite, inside_bind, inside_pure, and_true, implies_true]
      intro _
      refine ⟨ipv6GetPayload_inside q.frameData q.frameLen, ?_⟩
      cases (ipv6GetPayload q.frameLen).value q.frameData with
      | none => exact (inside_pure _).mpr trivial
      | some payload =>
          simp only [inside_ite, inside_pure, implies_true, and_true]
          intro flags
          exact (tcpFlags_inside_iff payload.1).mpr (by omega)

theorem matchCharacteristics_inside_iff :
    (matchCharacteristics q rule).Inside q.frameData q.frameLen ↔ ¬ TcpCut q := by
  unfold matchCharacteristics
  rw [inside_bind, inside_bind, frameTcpFlags_inside_iff]
  constructor
  · intro inside
    exact inside.2.1
  · intro whole
    exact ⟨ownershipSource_inside, whole, (inside_pure _).mpr trivial⟩

theorem matchIntegerRange_inside : (matchIntegerRange q rule).Inside q.frameData q.frameLen := by
  unfold matchIntegerRange frameInteger
  simp only [inside_ite, inside_bind, inside_pure, and_true, implies_true]
  exact ⟨fun _ whole => inside_bytesFrom whole, fun _ whole => inside_bytesFrom whole⟩

/-- What the `switch` reads is inside the frame, unless it reads flags of a cut segment. -/
theorem matchRule_inside_iff (ztDest : Address) (superAccept : Bool) (rn : Nat) :
    (matchRule q ztDest superAccept rn rule).Inside q.frameData q.frameLen ↔
      ¬ (rule.ruleType = .matchCharacteristics ∧ TcpCut q) := by
  have only (program : ByteReader Bool) :
      (program >>= fun result => pure (result, false)).Inside q.frameData q.frameLen ↔
        program.Inside q.frameData q.frameLen := by
    rw [inside_bind, inside_pure, and_true]
  have plain {program : ByteReader (Bool × Bool)} {kind : RuleType} (inside : program.Inside q.frameData q.frameLen)
      (other : kind ≠ .matchCharacteristics) :
      program.Inside q.frameData q.frameLen ↔ ¬ (kind = .matchCharacteristics ∧ TcpCut q) :=
    ⟨fun _ wrong => other wrong.1, fun _ => inside⟩
  have ipv4 (position : Nat) (field : position + 4 ≤ 20) (net : InetAddress) :
      (matchAddress q.isIpv4 (ip4At position) net rule).Inside q.frameData q.frameLen :=
    matchAddress_inside rule net fun here => ip4At_inside (Nat.le_trans field (isIpv4_length q here))
  have ipv6 (position : Nat) (field : position + 16 ≤ 40) (net : InetAddress) :
      (matchAddress q.isIpv6 (ip6At position) net rule).Inside q.frameData q.frameLen :=
    matchAddress_inside rule net fun here => ip6At_inside (Nat.le_trans field (isIpv6_length q here))
  unfold matchRule
  cases kind : rule.ruleType
  case matchCharacteristics => simp only [only, matchCharacteristics_inside_iff, true_and]
  all_goals refine plain ?_ (fun wrong => nomatch wrong)
  case matchIpv4Source => exact (only _).mpr (ipv4 12 (by omega) _)
  case matchIpv4Dest => exact (only _).mpr (ipv4 16 (by omega) _)
  case matchIpv6Source => exact (only _).mpr (ipv6 8 (by omega) _)
  case matchIpv6Dest => exact (only _).mpr (ipv6 24 (by omega) _)
  case matchIpTos => exact (only _).mpr (matchIpTos_inside rule)
  case matchIpProtocol => exact (only _).mpr (matchIpProtocol_inside rule)
  case matchIcmp => exact (only _).mpr (matchIcmp_inside rule)
  case matchIpSourcePortRange => exact (only _).mpr (matchPortRange_inside rule false)
  case matchIpDestPortRange => exact (only _).mpr (matchPortRange_inside rule true)
  case matchIntegerRange => exact (only _).mpr (matchIntegerRange_inside rule)
  all_goals exact (inside_pure _).mpr trivial

/-- One turn of the loop. -/
theorem filterStep_inside_iff (rn : Nat) (st : FilterState) :
    (filterStep q rn rule st).Inside q.frameData q.frameLen ↔ ¬ (LooksAtCharacteristics (st, rule) ∧ TcpCut q) := by
  unfold filterStep LooksAtCharacteristics
  by_cases action : rule.isAction = true
  · rw [if_pos action, inside_pure]
    simp [action]
  · rw [if_neg action]
    by_cases skipped : (!st.thisSetMatches && !rule.isOr) = true
    · rw [if_pos skipped, inside_pure]
      rw [Bool.and_eq_true, Bool.not_eq_true', Bool.not_eq_true'] at skipped
      simp [skipped.1, skipped.2]
    · rw [if_neg skipped, inside_bind, inside_pure, and_true, matchRule_inside_iff]
      have live : st.thisSetMatches = true ∨ rule.isOr = true := by
        cases matching : st.thisSetMatches <;> cases joined : rule.isOr <;> simp [matching, joined] at skipped ⊢
      simp [action, live]

variable (q)

theorem filterFrom_inside_iff (rules : List Rule) (rn : Nat) (st : FilterState) :
    (filterFrom q rn st rules).Inside q.frameData q.frameLen ↔
      ∀ turn ∈ turns q rn st rules, ¬ (LooksAtCharacteristics turn ∧ TcpCut q) := by
  induction rules generalizing rn st with
  | nil =>
      rw [filterFrom, inside_pure, turns]
      simp
  | cons rule rules ih =>
      rw [filterFrom, inside_bind, filterStep_inside_iff, filterStep_value, turns, List.forall_mem_cons]
      cases Filter.filterStep q rn rule st with
      | inl result => simp
      | inr next => exact and_congr Iff.rfl (ih (rn + 1) next)

/-- The filter reads behind the frame exactly when it evaluates the characteristics of an IPv4
frame whose TCP segment is cut before its flags. -/
theorem doZtFilter_inside_iff (out : FilterOutput) (rules : List Rule) :
    (doZtFilter q out rules).Inside q.frameData q.frameLen ↔
      ¬ (TcpCut q ∧ ∃ turn ∈ turns q 0 (initialState out) rules, LooksAtCharacteristics turn) := by
  rw [doZtFilter, filterFrom_inside_iff]
  constructor
  · intro none both
    obtain ⟨cut, turn, here, looks⟩ := both
    exact none turn here ⟨looks, cut⟩
  · intro none turn here both
    exact none ⟨both.2, turn, here, both.1⟩

end Bounds

/-- A TCP segment that ends with its IPv4 header. -/
def bareHeader : FilterInput where
  identity := 7
  nconf := .nil
  membership := none
  inbound := true
  ztSource := 9
  macSource := 0
  macDest := 0
  frameData := fun i => [0x45, 0, 0, 20, 0, 0, 0, 0, 64, 6, 0, 0, 10, 0, 0, 1, 10, 0, 0, 2].getD i 0
  frameLen := 20
  etherType := 0x0800
  vlanId := 0
  prng := fun _ => 0

/-- A match of the TCP flags reads the byte 33 of a frame of 20 bytes. -/
theorem bare_header_read_behind :
    ¬ ∀ (q : FilterInput) (out : FilterOutput) (rules : List Rule),
      (doZtFilter q out rules).Inside q.frameData q.frameLen := by
  intro inside
  have flags : 33 ∈ (doZtFilter bareHeader ⟨7, 0, 0, false, 0⟩ [⟨41, { characteristics := 2 }⟩]).positions
      bareHeader.frameData := by decide
  have below : 33 < 20 := inside bareHeader _ _ 33 flags
  omega

section Memory

variable (q : FilterInput) (other : Nat → Byte)

/-- The programs only learn the frame by their reads. -/
theorem matchRule_frameless (ztDest : Address) (superAccept : Bool) (rn : Nat) (rule : Rule) :
    matchRule { q with frameData := other } ztDest superAccept rn rule = matchRule q ztDest superAccept rn rule := by
  unfold matchRule Filter.matchRule
  cases rule.ruleType <;> rfl

theorem filterFrom_frameless (rules : List Rule) (rn : Nat) (st : FilterState) :
    filterFrom { q with frameData := other } rn st rules = filterFrom q rn st rules := by
  induction rules generalizing rn st with
  | nil => rfl
  | cons rule rules ih =>
      have step : filterStep { q with frameData := other } rn rule st = filterStep q rn rule st := by
        unfold filterStep
        rw [matchRule_frameless]
        rfl
      rw [filterFrom, filterFrom, step]
      congr 1
      funext found
      cases found with
      | inl result => rfl
      | inr next => exact ih (rn + 1) next

/-- A frame that is not judged by cut flags is judged by its own bytes, whatever lies behind them. -/
theorem doZtFilter_congr (out : FilterOutput) (rules : List Rule)
    (whole : ¬ (TcpCut q ∧ ∃ turn ∈ turns q 0 (initialState out) rules, LooksAtCharacteristics turn))
    (alike : ∀ position < q.frameLen, other position = q.frameData position) :
    Filter.doZtFilter { q with frameData := other } out rules = Filter.doZtFilter q out rules := by
  have inside := (doZtFilter_inside_iff q out rules).mpr whole
  calc Filter.doZtFilter { q with frameData := other } out rules
      = (doZtFilter { q with frameData := other } out rules).value other :=
        (doZtFilter_value { q with frameData := other } out rules).symm
    _ = (doZtFilter q out rules).value other :=
        congrArg (ByteReader.value other) (filterFrom_frameless q other rules 0 (initialState out))
    _ = (doZtFilter q out rules).value q.frameData := inside.value_eq alike
    _ = Filter.doZtFilter q out rules := doZtFilter_value q out rules

end Memory

end ZeroTierNode.FrameReads

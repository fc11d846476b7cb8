import ZeroTierNode.Keepalive
import ZeroTierNode.Library.Minima

/-!
`Peer::getAppropriatePath` without a bond, over the latencies that `Path::updateLatency`
keeps of what others measure and echo. An `int` and a `long` have 32 bits.
-/

namespace ZeroTierNode.PathSelection
open Library.Packing Library.Minima PeerPaths Keepalive

/-- `Path::updateLatency`. -/
def updateLatency (latency l : BitVec 32) : BitVec 32 := if latency < 0xffff then (latency + l) / 2 else l

/-- What `_doOK` takes from the time stamp that an OK(HELLO) echoes. -/
def helloLatency (now timestamp : BitVec 64) : BitVec 32 := (now - timestamp).setWidth 32

/-- What the objects of the paths remember: when something came in last, and what was given to `updateLatency`. -/
structure Paths where
  lastIn : PathObject → Int
  measured : PathObject → List (BitVec 32)

/-- What a `long` is left with; where the value does not fit, this is what the processor leaves. -/
def toLong (v : Int) : Int := v.bmod (2 ^ 32)

/-- The same for an `int64_t`. -/
def toInt64 (v : Int) : Int := v.bmod (2 ^ 64)

/-- `ZT_INETADDRESS_MAX_SCOPE`. -/
abbrev maxScope : Int := 7

namespace Paths

variable (m : Paths) (p : PathObject) (now : Int)

/-- `Path::latency`. -/
def latency : BitVec 32 := (m.measured p).foldl updateLatency 0xffff

def scopeFactor (p : PathObject) : Int := maxScope - p.address.ipScope.code + 1

/-- `Path::quality`. -/
def quality : Int :=
  let l := toLong (m.latency p).toNat
  let age := toLong (min (toInt64 (now - m.lastIn p)) (heartbeatPeriod * 10))
  toLong ((if age < heartbeatPeriod + 5000 then l else toLong (toLong (l + 0xffff) + age)) * scopeFactor p)

end Paths

section Select

variable (m : Paths) (now : Int) (includeExpired : Bool)

def eligible (slot : PeerPath) : Bool := includeExpired ∨ now - slot.lr < pathExpiration

/-- The quality of a path by its priority. -/
def ratio (slot : PeerPath) : Int := (slot.p.elim 0 fun p => m.quality p now).tdiv slot.priority

/-- The loop, with `bestPathQuality` and the entry at `bestPath`. -/
def select : List PeerPath → Int → Option PeerPath → Option PeerPath
  | [], _, best => best
  | slot :: slots, bestPathQuality, best =>
      if slot.p.isSome then
        if eligible now includeExpired slot then
          if ratio m now slot ≤ bestPathQuality then select slots (ratio m now slot) (some slot)
          else select slots bestPathQuality best
        else select slots bestPathQuality best
      else best

/-- `Peer::getAppropriatePath`: the entry whose path it returns. -/
def getAppropriatePath (t : PathTable) : Option PeerPath := select m now includeExpired t.slots 2147483647 none

/-- The entries that may be chosen. -/
def candidates (t : PathTable) : List PeerPath :=
  t.slots.filter fun slot => slot.p.isSome && eligible now includeExpired slot

theorem select_eq_scan (slots : List PeerPath) (bound : Int) (best : Option PeerPath) :
    select m now includeExpired slots bound best =
      scan (ratio m now) ((slots.takeWhile fun slot => slot.p.isSome).filter (eligible now includeExpired)) bound best := by
  induction slots generalizing bound best with
  | nil => rfl
  | cons slot slots ih =>
      rw [select, List.takeWhile_cons]
      by_cases present : slot.p.isSome = true
      · rw [if_pos present, if_pos present, List.filter_cons]
        by_cases may : eligible now includeExpired slot = true
        · rw [if_pos may, if_pos may, scan, ih, ih]
        · rw [if_neg may, if_neg may, ih]
      · rw [if_neg present, if_neg present]
        rfl

theorem getAppropriatePath_eq_scan (t : PathTable) :
    getAppropriatePath m now includeExpired t =
      scan (ratio m now) (candidates now includeExpired t) 2147483647 none := by
  rw [getAppropriatePath, select_eq_scan, t.packed.takeWhile_eq_filter, List.filter_filter, candidates]
  congr 2
  funext slot
  exact Bool.and_comm _ _

theorem toLong_le (v : Int) : toLong v ≤ 2147483647 := by
  have upper := @Int.bmod_lt v (2 ^ 32) (by decide)
  exact Int.lt_add_one_iff.mp (lt_of_lt_of_le upper (by decide))

theorem tdiv_le_of_le {v bound priority : Int} (positive : 1 ≤ priority) (nonneg : 0 ≤ bound) (small : v ≤ bound) :
    v.tdiv priority ≤ bound := by
  by_cases sign : 0 ≤ v
  · exact (Int.tdiv_le_self priority sign).trans small
  · have positive' : 0 ≤ (-v).tdiv priority := Int.tdiv_nonneg (by omega) (by omega)
    rw [Int.neg_tdiv] at positive'
    omega

theorem ratio_le {slot : PeerPath} (positive : 1 ≤ slot.priority) : ratio m now slot ≤ 2147483647 := by
  apply tdiv_le_of_le positive (by decide)
  cases slot.p with
  | none => exact (by decide : (0 : Int) ≤ 2147483647)
  | some p => exact toLong_le _

theorem candidates_bounded (t : PathTable) : ∀ slot ∈ candidates now includeExpired t, ratio m now slot ≤ 2147483647 := by
  intro slot member
  exact ratio_le m now (t.ranked slot (List.mem_filter.mp member).1)

end Select

section Range

/-- A value that a signed integer of some bits can have. -/
def Fits (bits : Nat) (v : Int) : Prop := -2 ^ (bits - 1) ≤ v ∧ v < 2 ^ (bits - 1)

theorem toLong_of_fits {v : Int} (fits : Fits 32 v) : toLong v = v :=
  Int.bmod_eq_of_le fits.1 fits.2

theorem toInt64_of_fits {v : Int} (fits : Fits 64 v) : toInt64 v = v :=
  Int.bmod_eq_of_le fits.1 fits.2

namespace Paths

variable (m : Paths) (p : PathObject) (now : Int)

/-- The age that counts. -/
def age : Int := min (now - m.lastIn p) (heartbeatPeriod * 10)

/-- The quality, were there no bounds. -/
def exactQuality : Int :=
  (if m.age p now < heartbeatPeriod + 5000 then ((m.latency p).toNat : Int)
    else (m.latency p).toNat + 0xffff + m.age p now) * scopeFactor p

/-- Every value that comes up fits its type. -/
structure Exact : Prop where
  elapsed : Fits 64 (now - m.lastIn p)
  latency : Fits 32 (m.latency p).toNat
  age : Fits 32 (m.age p now)
  penalty : ¬ m.age p now < heartbeatPeriod + 5000 →
    Fits 32 ((m.latency p).toNat + 0xffff) ∧ Fits 32 ((m.latency p).toNat + 0xffff + m.age p now)
  product : Fits 32 (m.exactQuality p now)

variable {m p now}

theorem Exact.quality_eq (exact : m.Exact p now) : m.quality p now = m.exactQuality p now := by
  have elapsed := toInt64_of_fits exact.elapsed
  have latency := toLong_of_fits exact.latency
  have age := toLong_of_fits exact.age
  have product := toLong_of_fits exact.product
  unfold Paths.age at age
  unfold quality
  rw [elapsed, latency]
  dsimp only
  rw [age, ← Paths.age]
  unfold exactQuality at product ⊢
  by_cases recent : m.age p now < heartbeatPeriod + 5000
  · rw [if_pos recent] at product ⊢
    rw [if_pos recent, product]
  · obtain ⟨sum, total⟩ := exact.penalty recent
    rw [if_neg recent] at product ⊢
    rw [if_neg recent, toLong_of_fits sum, toLong_of_fits total, product]

theorem scopeFactor_range : 1 ≤ scopeFactor p ∧ scopeFactor p ≤ 8 := by
  unfold scopeFactor
  cases p.address.ipScope with
  | _ => decide

theorem exactQuality_nonneg : 0 ≤ m.exactQuality p now := by
  have positive := (scopeFactor_range (p := p)).1
  apply mul_nonneg
  · split_ifs with recent
    · exact Int.natCast_nonneg _
    · have period : heartbeatPeriod = 14000 := rfl
      omega
  · omega

/-- The exact quality is what it is meant to be of, and small enough. -/
def InRange (m : Paths) (p : PathObject) (now : Int) : Prop :=
  -2 ^ 31 ≤ now - m.lastIn p ∧ now - m.lastIn p < 2 ^ 63 ∧
    if now - m.lastIn p < 19000 then ((m.latency p).toNat : Int) * scopeFactor p < 2 ^ 31
    else ((m.latency p).toNat + 65535 + min (now - m.lastIn p) 140000) * scopeFactor p < 2 ^ 31

theorem recent_iff : m.age p now < heartbeatPeriod + 5000 ↔ now - m.lastIn p < 19000 := by
  have period : heartbeatPeriod = 14000 := rfl
  unfold Paths.age
  omega

theorem exactQuality_eq : m.exactQuality p now =
    if now - m.lastIn p < 19000 then ((m.latency p).toNat : Int) * scopeFactor p
    else ((m.latency p).toNat + 65535 + min (now - m.lastIn p) 140000) * scopeFactor p := by
  have period : heartbeatPeriod * 10 = 140000 := rfl
  unfold exactQuality
  by_cases recent : now - m.lastIn p < 19000
  · rw [if_pos recent, if_pos (recent_iff.mpr recent)]
  · rw [if_neg recent, if_neg fun wrong => recent (recent_iff.mp wrong), Paths.age, period]

theorem exact_iff : m.Exact p now ∧ 0 ≤ m.quality p now ↔ m.InRange p now := by
  have least := (scopeFactor_range (p := p)).1
  have period : heartbeatPeriod * 10 = 140000 := rfl
  unfold InRange
  constructor
  · intro computed
    have aged := computed.1.age.1
    have product := computed.1.product.2
    rw [exactQuality_eq] at product
    unfold Paths.age at aged
    refine ⟨by omega, computed.1.elapsed.2, ?_⟩
    split_ifs with recent
    · rwa [if_pos recent] at product
    · rwa [if_neg recent] at product
  · intro range
    obtain ⟨low, high, small⟩ := range
    have product : m.exactQuality p now < 2 ^ 31 := by
      rw [exactQuality_eq]
      split_ifs with recent
      · rwa [if_pos recent] at small
      · rwa [if_neg recent] at small
    have nonneg := @exactQuality_nonneg m p now
    have exact : m.Exact p now := by
      by_cases recent : now - m.lastIn p < 19000
      · rw [if_pos recent] at small
        have weight : ((m.latency p).toNat : Int) ≤ (m.latency p).toNat * scopeFactor p :=
          le_mul_of_one_le_right (Int.natCast_nonneg _) least
        constructor
        · exact ⟨by omega, high⟩
        · exact ⟨by omega, by omega⟩
        · unfold Paths.age
          exact ⟨by omega, by omega⟩
        · exact fun old => absurd (recent_iff.mpr recent) old
        · exact ⟨by omega, product⟩
      · rw [if_neg recent] at small
        have weight : ((m.latency p).toNat : Int) + 65535 + min (now - m.lastIn p) 140000 ≤
            ((m.latency p).toNat + 65535 + min (now - m.lastIn p) 140000) * scopeFactor p :=
          le_mul_of_one_le_right (by omega) least
        constructor
        · exact ⟨by omega, high⟩
        · exact ⟨by omega, by omega⟩
        · unfold Paths.age
          exact ⟨by omega, by omega⟩
        · intro _
          unfold Paths.age
          rw [period]
          exact ⟨⟨by omega, by omega⟩, ⟨by omega, by omega⟩⟩
        · exact ⟨by omega, product⟩
    exact ⟨exact, exact.quality_eq ▸ nonneg⟩

end Paths

end Range

section Choice

variable (m : Paths) (now : Int) (includeExpired : Bool) (t : PathTable)

/-- Two entries that may be chosen, of one scope and priority: the path of the first is alive and has a measured
latency, that of the second is not alive. -/
structure Rivals (first second : PeerPath) (p q : PathObject) : Prop where
  firstListed : first ∈ t.slots
  secondListed : second ∈ t.slots
  firstEligible : eligible now includeExpired first = true
  secondEligible : eligible now includeExpired second = true
  firstPath : first.p = some p
  secondPath : second.p = some q
  scope : p.address.ipScope = q.address.ipScope
  priority : first.priority = second.priority
  firstAlive : alive m.lastIn now p = true
  measured : m.latency p < 0xffff
  secondSilent : alive m.lastIn now q = false

/-- What the choice of a path is meant to be. -/
structure Selects : Prop where
  exact : ∀ slot ∈ t.slots, ∀ p, slot.p = some p → m.Exact p now ∧ 0 ≤ m.quality p now
  nothing : getAppropriatePath m now includeExpired t = none ↔
    ∀ slot ∈ t.slots, slot.p.isSome → eligible now includeExpired slot = false
  best : ∀ slot, getAppropriatePath m now includeExpired t = some slot →
    (slot ∈ t.slots ∧ slot.p.isSome ∧ eligible now includeExpired slot = true) ∧
      ∀ other ∈ t.slots, other.p.isSome → eligible now includeExpired other = true →
        ratio m now slot ≤ ratio m now other
  alive : ∀ first second p q, Rivals m now includeExpired t first second p q →
    getAppropriatePath m now includeExpired t ≠ some second

/-- The quotient of the exact quality by the priority. -/
def exactRatio (slot : PeerPath) : Int := (slot.p.elim 0 fun p => m.exactQuality p now) / slot.priority

variable {m now includeExpired t}

theorem mem_candidates {slot : PeerPath} : slot ∈ candidates now includeExpired t ↔
    slot ∈ t.slots ∧ slot.p.isSome ∧ eligible now includeExpired slot = true := by
  rw [candidates, List.mem_filter, Bool.and_eq_true]

theorem getAppropriatePath_eq_some_iff {slot : PeerPath} : getAppropriatePath m now includeExpired t = some slot ↔
    LastLeast (ratio m now) (candidates now includeExpired t) slot := by
  rw [getAppropriatePath_eq_scan]
  exact scan_eq_some_iff (candidates_bounded m now includeExpired t)

theorem getAppropriatePath_eq_none_iff : getAppropriatePath m now includeExpired t = none ↔
    ∀ slot ∈ t.slots, slot.p.isSome → eligible now includeExpired slot = false := by
  rw [getAppropriatePath_eq_scan, scan_eq_none_iff (candidates_bounded m now includeExpired t), candidates,
    List.filter_eq_nil_iff]
  simp only [Bool.and_eq_true, not_and, Bool.not_eq_true]

theorem ratio_eq {slot : PeerPath} (exact : ∀ p, slot.p = some p → m.Exact p now) :
    ratio m now slot = exactRatio m now slot := by
  unfold ratio exactRatio
  cases present : slot.p with
  | none => exact (Int.zero_tdiv _).trans (Int.zero_ediv _).symm
  | some p =>
      dsimp only [Option.elim]
      rw [(exact p present).quality_eq]
      exact Int.tdiv_eq_ediv_of_nonneg Paths.exactQuality_nonneg

/-- The penalty of a path that is not alive is worth at least its factor times 19001. -/
theorem Rivals.gap {first second : PeerPath} {p q : PathObject}
    (rivals : Rivals m now includeExpired t first second p q) :
    m.exactQuality p now + 19001 * Paths.scopeFactor q ≤ m.exactQuality q now := by
  have recent : now - m.lastIn p < 19000 := of_decide_eq_true rivals.firstAlive
  have old : ¬ now - m.lastIn q < 19000 := of_decide_eq_false rivals.secondSilent
  have factors : Paths.scopeFactor p = Paths.scopeFactor q := by
    rw [Paths.scopeFactor, Paths.scopeFactor, rivals.scope]
  have least := (Paths.scopeFactor_range (p := q)).1
  have few : (m.latency p).toNat < 65535 := rivals.measured
  rw [Paths.exactQuality_eq, Paths.exactQuality_eq, if_pos recent, if_neg old, factors, ← add_mul]
  apply mul_le_mul_of_nonneg_right
  · omega
  · omega

/-- Where the priority is no more than that, the path that is alive is strictly better. -/
theorem Rivals.less {first second : PeerPath} {p q : PathObject}
    (rivals : Rivals m now includeExpired t first second p q) (low : second.priority ≤ 19001 * Paths.scopeFactor q) :
    exactRatio m now first < exactRatio m now second := by
  have positive : 1 ≤ second.priority := t.ranked second rivals.secondListed
  have gap := rivals.gap
  rw [exactRatio, exactRatio, rivals.firstPath, rivals.secondPath, rivals.priority]
  apply Int.lt_of_add_one_le
  rw [Int.le_ediv_iff_mul_le (by omega), add_mul, one_mul]
  have below := Int.ediv_mul_le (m.exactQuality p now) (b := second.priority) (by omega)
  dsimp only [Option.elim]
  omega

/-- When a path is chosen as it is meant to be. -/
theorem selects_iff (m : Paths) (now : Int) (includeExpired : Bool) (t : PathTable) :
    Selects m now includeExpired t ↔
      (∀ slot ∈ t.slots, ∀ p, slot.p = some p → m.InRange p now) ∧
      ∀ first second p q, Rivals m now includeExpired t first second p q →
        19001 * Paths.scopeFactor q < second.priority →
          ¬ LastLeast (exactRatio m now) (candidates now includeExpired t) second := by
  have ranges : (∀ slot ∈ t.slots, ∀ p, slot.p = some p → m.Exact p now ∧ 0 ≤ m.quality p now) ↔
      ∀ slot ∈ t.slots, ∀ p, slot.p = some p → m.InRange p now := by
    simp only [Paths.exact_iff]
  have measures (inside : ∀ slot ∈ t.slots, ∀ p, slot.p = some p → m.InRange p now) :
      ∀ slot ∈ candidates now includeExpired t, ratio m now slot = exactRatio m now slot := fun slot member =>
    ratio_eq fun p here => (Paths.exact_iff.mpr (inside slot (mem_candidates.mp member).1 p here)).1
  constructor
  · intro selects
    have inside := ranges.mp selects.exact
    refine ⟨inside, ?_⟩
    intro first second p q rivals _ least
    apply selects.alive first second p q rivals
    rw [getAppropriatePath_eq_some_iff]
    exact least.congr fun slot member => (measures inside slot member).symm
  · intro ⟨inside, apart⟩
    constructor
    · exact ranges.mpr inside
    · exact getAppropriatePath_eq_none_iff
    · intro slot chosen
      have found := getAppropriatePath_eq_some_iff.mp chosen
      refine ⟨mem_candidates.mp found.mem, ?_⟩
      intro other member present may
      exact found.le other (mem_candidates.mpr ⟨member, present, may⟩)
    · intro first second p q rivals chosen
      have found := (getAppropriatePath_eq_some_iff.mp chosen).congr (measures inside)
      by_cases high : 19001 * Paths.scopeFactor q < second.priority
      · exact apart first second p q rivals high found
      · have present : first.p.isSome := by rw [rivals.firstPath, Option.isSome_some]
        have worse := found.le first (mem_candidates.mpr ⟨rivals.firstListed, present, rivals.firstEligible⟩)
        have better := rivals.less (not_lt.mp high)
        omega

end Choice

section Bounded

/-- The greatest latency whose quality fits a `long`, however old and of whatever scope the path is. -/
abbrev maxLatency : Nat := 268229920

theorem updateLatency_le {latency l : BitVec 32} (measured : l.toNat ≤ maxLatency) :
    (updateLatency latency l).toNat ≤ maxLatency := by
  unfold updateLatency
  split_ifs with known
  · have small : latency.toNat < 65535 := known
    have bound : maxLatency = 268229920 := rfl
    have two : (2 : BitVec 32).toNat = 2 := rfl
    rw [BitVec.toNat_udiv, BitVec.toNat_add, Nat.mod_eq_of_lt (by omega), two]
    omega
  · exact measured

/-- The latency stays small as long as the measurements do. -/
theorem latency_le {m : Paths} {p : PathObject} (measured : ∀ l ∈ m.measured p, l.toNat ≤ maxLatency) :
    (m.latency p).toNat ≤ maxLatency := by
  have run (measurements : List (BitVec 32)) (small : ∀ l ∈ measurements, l.toNat ≤ maxLatency) (latency : BitVec 32)
      (before : latency.toNat ≤ maxLatency) : (measurements.foldl updateLatency latency).toNat ≤ maxLatency := by
    induction measurements generalizing latency with
    | nil => exact before
    | cons l measurements ih =>
        exact ih (fun other member => small other (List.mem_cons_of_mem _ member)) _
          (updateLatency_le (small l List.mem_cons_self))
  exact run _ measured 0xffff (by decide)

/-- Nothing goes wrong while the measurements are below three days, the priorities not above 19001, and the clock not
twenty-four days behind the last packets. -/
theorem selects_of_bounded {m : Paths} {now : Int} {t : PathTable}
    (measured : ∀ slot ∈ t.slots, ∀ p, slot.p = some p → ∀ l ∈ m.measured p, l.toNat ≤ maxLatency)
    (clock : ∀ slot ∈ t.slots, ∀ p, slot.p = some p → -2 ^ 31 ≤ now - m.lastIn p ∧ now - m.lastIn p < 2 ^ 63)
    (ranks : ∀ slot ∈ t.slots, slot.priority ≤ 19001) (includeExpired : Bool) :
    Selects m now includeExpired t := by
  rw [selects_iff]
  constructor
  · intro slot member p here
    have latency : (m.latency p).toNat ≤ 268229920 := latency_le (measured slot member p here)
    obtain ⟨least, most⟩ := Paths.scopeFactor_range (p := p)
    obtain ⟨low, high⟩ := clock slot member p here
    refine ⟨low, high, ?_⟩
    split_ifs with recent
    · calc ((m.latency p).toNat : Int) * Paths.scopeFactor p ≤ 268229920 * 8 :=
            mul_le_mul (by omega) most (by omega) (by decide)
        _ < 2 ^ 31 := by decide
    · calc ((m.latency p).toNat + 65535 + min (now - m.lastIn p) 140000) * Paths.scopeFactor p
          ≤ (268229920 + 65535 + 140000) * 8 := mul_le_mul (by omega) most (by omega) (by decide)
        _ < 2 ^ 31 := by decide
  · intro first second p q rivals high
    have rank := ranks second rivals.secondListed
    have least := (Paths.scopeFactor_range (p := q)).1
    omega

end Bounded

def globalPath : PathObject := ⟨1, .v4 0x08080808 9993⟩

def onePath : List PeerPath := ⟨1000, some globalPath, 1⟩ :: List.replicate 63 PeerPath.new

theorem onePath_packed : Packed PeerPath.p onePath := (packed_cons_some rfl).mpr (packed_replicate rfl 63)

theorem onePath_ranked : ∀ slot ∈ onePath, 1 ≤ slot.priority := by decide

/-- An OK(HELLO) that echoes a time stamp one millisecond ahead of the clock. -/
def echoedAhead : Paths := ⟨fun _ => 1000, fun _ => [helloLatency 1000 1001]⟩

theorem echo_makes_quality_negative : ¬ ∀ (m : Paths) (now : Int) (includeExpired : Bool) (t : PathTable),
    Selects m now includeExpired t := by
  intro selects
  have chosen := selects echoedAhead 1000 false ⟨onePath, onePath_packed, onePath_ranked⟩
  exact absurd (chosen.exact _ List.mem_cons_self globalPath rfl).2 (by decide)

end ZeroTierNode.PathSelection

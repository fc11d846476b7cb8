import ZeroTierNode.Library.Runs
import ZeroTierNode.Topology

/-!
The rate gates of the node. Each keeps, per key, the time of the last event that it
let through, and zero before the first. The port passes milliseconds since boot.
-/

namespace ZeroTierNode.RateGates
open Library.Bytes Library.Runs Library.Stamps

/-- A clock value of the port: a non-negative `int64_t`. -/
abbrev PortTime := Fin (2 ^ 63)

/-- `ZT_IDENTITY_VALIDATION_SOURCE_RATE_LIMIT` of a processor that is neither AMD64 nor x86. -/
abbrev identityValidationSourceRateLimit : Int := 10000

/-- `ZT_WHOIS_RETRY_DELAY`. -/
abbrev whoisRetryDelay : Int := 500

/-- `ZT_MIN_UNITE_INTERVAL`. -/
abbrev minUniteInterval : Nat := 30000

/-- `ZT_PEER_CREDENTIALS_RATE_LIMIT`. -/
abbrev peerCredentialsRateLimit : Int := 1000

/-- `ZT_PEER_WHOIS_RATE_LIMIT`. -/
abbrev peerWhoisRateLimit : Int := 100

/-- `ZT_PEER_GENERAL_RATE_LIMIT`. -/
abbrev peerGeneralRateLimit : Int := 1000

/-- `ZT_TRY_MEMORIZED_PATH_INTERVAL`. -/
abbrev tryMemorizedPathInterval : Int := 30000

/-- `ZT_LAST_IDENTITY_VERIFICATION_SIZE`. -/
abbrev lastIdentityVerificationSize : Nat := 16384

/-- `InetAddress::rateGateHash`, with an `unsigned long` of 32 bits. -/
def rateGateHash : InetAddress → BitVec 32
  | .v4 ip _ =>
      let h := (ip &&& 0xffffff00) >>> 8
      (h ^^^ (h >>> 14)) &&& 0x3fff
  | .v6 ip _ =>
      (((wordBytes 16 ip).take 6).foldl (fun (h : BitVec 32) byte => (h <<< 1) + byte.setWidth 32) 0) &&& 0x3fff
  | .nil => 0

def identitySlot (addr : InetAddress) : Fin lastIdentityVerificationSize :=
  Fin.ofNat lastIdentityVerificationSize (rateGateHash addr).toNat

/-- `Node::rateGateIdentityVerification`. -/
def rateGateIdentityVerification (last : Fin lastIdentityVerificationSize → Int) (now : Int) (addr : InetAddress) :
    Bool × (Fin lastIdentityVerificationSize → Int) :=
  let (passes, stamp) := letThrough identityValidationSourceRateLimit now (last (identitySlot addr))
  (passes, Function.update last (identitySlot addr) stamp)

/-- `Switch::requestWhois`, up to the request; the table makes a missing entry as zero. -/
def requestWhois (self : Address) (table : Address → Option Int) (now : Int) (addr : Address) :
    Bool × (Address → Option Int) :=
  if addr = self then (false, table)
  else
    let last := (table addr).getD 0
    if now - last < whoisRetryDelay then (false, Function.update table addr (some last))
    else (true, Function.update table addr (some now))

/-- `Switch::_LastUniteKey`: two addresses in ascending order. -/
structure LastUniteKey where
  x : BitVec 64
  y : BitVec 64
deriving DecidableEq, Repr

def lastUniteKey (a1 a2 : Address) : LastUniteKey :=
  if a2 < a1 then ⟨a2.toInt, a1.toInt⟩ else ⟨a1.toInt, a2.toInt⟩

/-- `Switch::_shouldUnite`; the stamps and the difference are unsigned. -/
def shouldUnite (table : LastUniteKey → Option (BitVec 64)) (now : Int) (source destination : Address) :
    Bool × (LastUniteKey → Option (BitVec 64)) :=
  let key := lastUniteKey source destination
  let ts := (table key).getD 0
  if BitVec.ofNat 64 minUniteInterval ≤ BitVec.ofInt 64 now - ts then
    (true, Function.update table key (some (BitVec.ofInt 64 now)))
  else (false, Function.update table key (some ts))

end ZeroTierNode.RateGates

namespace ZeroTierNode.Peer
open Library.Stamps RateGates

def rateGateCredentialsReceived (peer : Peer) (now : Int) : Bool × Peer :=
  let (passes, stamp) := letThrough peerCredentialsRateLimit now peer.lastCredentialsReceived
  (passes, { peer with lastCredentialsReceived := stamp })

def rateGateInboundWhoisRequest (peer : Peer) (now : Int) : Bool × Peer :=
  let (passes, stamp) := letThrough peerWhoisRateLimit now peer.lastWhoisRequestReceived
  (passes, { peer with lastWhoisRequestReceived := stamp })

/-- `tryMemorizedPath`: whether it looks for a path, and where it then tries to make contact. -/
def tryMemorizedPath (externalPathLookup : Address → Option InetAddress) (peer : Peer) (now : Int) :
    Bool × Peer × Option InetAddress :=
  let (passes, stamp) := letThrough tryMemorizedPathInterval now peer.lastTriedMemorizedPath
  (passes, { peer with lastTriedMemorizedPath := stamp },
    if passes then externalPathLookup peer.identity.address else none)

end ZeroTierNode.Peer

namespace ZeroTierNode.Path
open Library.Stamps RateGates

def rateGateEchoRequest (path : Path) (now : Int) : Bool × Path :=
  let (passes, stamp) := letThrough (peerGeneralRateLimit / 6) now path.lastEchoRequestReceived
  (passes, { path with lastEchoRequestReceived := stamp })

end ZeroTierNode.Path

namespace ZeroTierNode.RateGates
open Library.Bytes Library.Runs Library.Stamps

/-- Every stamp that a gate reads. -/
structure Gates where
  /-- Our own address. -/
  identity : Address
  lastIdentityVerification : Fin lastIdentityVerificationSize → Int
  lastSentWhoisRequest : Address → Option Int
  lastUniteAttempt : LastUniteKey → Option (BitVec 64)
  /-- The object that stands for an address at present. -/
  peers : Address → Peer
  paths : Path.HashKey → Path

/-- The state of a new node; objects are made fresh. -/
def Gates.new (identity : Address) (identities : Address → Identity) : Gates :=
  ⟨identity, fun _ => 0, fun _ => none, fun _ => none, fun a => Peer.new (identities a), fun _ => Path.new⟩

inductive Call
  | rateGateIdentityVerification (addr : InetAddress)
  | requestWhois (addr : Address)
  | shouldUnite (source destination : Address)
  | rateGateCredentialsReceived (peer : Address)
  | rateGateInboundWhoisRequest (peer : Address)
  | rateGateEchoRequest (path : Path.HashKey)
  | tryMemorizedPath (peer : Address) (externalPathLookup : Address → Option InetAddress)
  /-- The peer is dropped and made again. -/
  | newPeer (peer : Address) (identity : Identity)
  | newPath (path : Path.HashKey)
  /-- `Switch::doAnythingWaitingForPeer`, which clears the way for the next request. -/
  | doAnythingWaitingForPeer (peer : Address)
  /-- The end of `Switch::doTimerTasks`, where old stamps are dropped. -/
  | doTimerTasks

structure Input where
  now : PortTime
  call : Call

/-- What one gate counts as the same. -/
inductive Key
  | identityVerification (slot : Fin lastIdentityVerificationSize)
  | whois (addr : Address)
  | unite (pair : LastUniteKey)
  | credentials (peer : Address)
  | inboundWhois (peer : Address)
  | echo (path : Path.HashKey)
  | memorizedPath (peer : Address)
deriving DecidableEq

/-- The interval of each gate. -/
def interval : Key → Int
  | .identityVerification _ => identityValidationSourceRateLimit
  | .whois _ => whoisRetryDelay
  | .unite _ => minUniteInterval
  | .credentials _ => peerCredentialsRateLimit
  | .inboundWhois _ => peerWhoisRateLimit
  | .echo _ => peerGeneralRateLimit / 6
  | .memorizedPath _ => tryMemorizedPathInterval

/-- The event of a gate that a call is. A request for our own address is none. -/
def Call.key (self : Address) : Call → Option Key
  | .rateGateIdentityVerification addr => some (.identityVerification (identitySlot addr))
  | .requestWhois addr => if addr = self then none else some (.whois addr)
  | .shouldUnite source destination => some (.unite (lastUniteKey source destination))
  | .rateGateCredentialsReceived peer => some (.credentials peer)
  | .rateGateInboundWhoisRequest peer => some (.inboundWhois peer)
  | .rateGateEchoRequest path => some (.echo path)
  | .tryMemorizedPath peer _ => some (.memorizedPath peer)
  | .newPeer _ _ => none
  | .newPath _ => none
  | .doAnythingWaitingForPeer _ => none
  | .doTimerTasks => none

def Gates.setPeer (gates : Gates) (a : Address) (peer : Peer) : Gates :=
  { gates with peers := Function.update gates.peers a peer }

def Gates.setPath (gates : Gates) (key : Path.HashKey) (path : Path) : Gates :=
  { gates with paths := Function.update gates.paths key path }

/-- Whether the gate lets the event through, and the stamps it leaves. -/
def react (gates : Gates) (now : Int) : Call → Bool × Gates
  | .rateGateIdentityVerification addr =>
      let (passes, last) := rateGateIdentityVerification gates.lastIdentityVerification now addr
      (passes, { gates with lastIdentityVerification := last })
  | .requestWhois addr =>
      let (passes, table) := requestWhois gates.identity gates.lastSentWhoisRequest now addr
      (passes, { gates with lastSentWhoisRequest := table })
  | .shouldUnite source destination =>
      let (passes, table) := shouldUnite gates.lastUniteAttempt now source destination
      (passes, { gates with lastUniteAttempt := table })
  | .rateGateCredentialsReceived a =>
      let (passes, peer) := (gates.peers a).rateGateCredentialsReceived now
      (passes, gates.setPeer a peer)
  | .rateGateInboundWhoisRequest a =>
      let (passes, peer) := (gates.peers a).rateGateInboundWhoisRequest now
      (passes, gates.setPeer a peer)
  | .rateGateEchoRequest key =>
      let (passes, path) := (gates.paths key).rateGateEchoRequest now
      (passes, gates.setPath key path)
  | .tryMemorizedPath a externalPathLookup =>
      let (passes, peer, _) := (gates.peers a).tryMemorizedPath externalPathLookup now
      (passes, gates.setPeer a peer)
  | .newPeer a identity => (false, gates.setPeer a (Peer.new identity))
  | .newPath key => (false, gates.setPath key Path.new)
  | .doAnythingWaitingForPeer a =>
      (false, { gates with lastSentWhoisRequest := Function.update gates.lastSentWhoisRequest a none })
  | .doTimerTasks =>
      (false, { gates with
        lastUniteAttempt := fun pair => (gates.lastUniteAttempt pair).filter fun ts =>
          ¬ BitVec.ofNat 64 (minUniteInterval * 8) ≤ BitVec.ofInt 64 now - ts
        lastSentWhoisRequest := fun a => (gates.lastSentWhoisRequest a).filter fun ts =>
          ¬ whoisRetryDelay * 2 < now - ts })

/-- The keys that a call makes fresh again. -/
def Call.renews : Call → Key → Bool
  | .newPeer a _, .credentials b => a = b
  | .newPeer a _, .inboundWhois b => a = b
  | .newPeer a _, .memorizedPath b => a = b
  | .newPath key, .echo other => key = other
  | .doAnythingWaitingForPeer a, .whois b => a = b
  | _, _ => false

/-- The node, its clock, and when each gate last let an event through since the key was fresh. -/
structure Watched where
  gates : Gates
  clock : Int
  last : Key → Option Int

def start (identity : Address) (identities : Address → Identity) : Watched :=
  ⟨Gates.new identity identities, 0, fun _ => none⟩

def step (w : Watched) (input : Input) : Watched :=
  let (passes, gates) := react w.gates input.now.val input.call
  ⟨gates, input.now.val, fun key =>
    if input.call.key w.gates.identity = some key ∧ passes then some input.now.val
    else if input.call.renews key then none
    else w.last key⟩

/-- The clock does not go back. -/
def Advances (w : Watched) (input : Input) : Prop := w.clock ≤ input.now.val

instance (w : Watched) (input : Input) : Decidable (Advances w input) :=
  inferInstanceAs (Decidable (w.clock ≤ (input.now.val : Int)))

/-- A first event is let through, a later one exactly when the interval is over. -/
def Correct (w : Watched) (input : Input) : Prop :=
  ∀ key, input.call.key w.gates.identity = some key →
    (react w.gates input.now.val input.call).1 = due (interval key) (w.last key) input.now.val

/-- A first event does not come within one interval after boot. -/
def Ripe (w : Watched) (input : Input) : Prop :=
  ∀ key, input.call.key w.gates.identity = some key → w.last key = none → interval key ≤ input.now.val

/-- The stamp behind a key, zero when the table has none. -/
def stamp (gates : Gates) : Key → Int
  | .identityVerification slot => gates.lastIdentityVerification slot
  | .whois a => (gates.lastSentWhoisRequest a).getD 0
  | .unite pair => ((gates.lastUniteAttempt pair).getD 0).toNat
  | .credentials a => (gates.peers a).lastCredentialsReceived
  | .inboundWhois a => (gates.peers a).lastWhoisRequestReceived
  | .echo key => (gates.paths key).lastEchoRequestReceived
  | .memorizedPath a => (gates.peers a).lastTriedMemorizedPath

/-- No stamp lies in the future. -/
def Past (gates : Gates) (clock : Int) : Prop := ∀ key, 0 ≤ stamp gates key ∧ stamp gates key ≤ clock

theorem toNat_ofInt (now : PortTime) : (BitVec.ofInt 64 now.val).toNat = now.val := by
  rw [BitVec.ofInt_natCast, BitVec.toNat_ofNat]
  have bound := now.isLt
  omega

/-- The unsigned difference is the difference when the stamp lies in the past. -/
theorem unsigned_difference (limit : Nat) (small : limit < 2 ^ 64) (now : PortTime) {ts : BitVec 64}
    (past : (ts.toNat : Int) ≤ now.val) :
    BitVec.ofNat 64 limit ≤ BitVec.ofInt 64 now.val - ts ↔ (limit : Int) ≤ now.val - ts.toNat := by
  have bound := now.isLt
  have tsBound := ts.isLt
  rw [BitVec.le_def, BitVec.toNat_sub, toNat_ofInt, BitVec.toNat_ofNat, Nat.mod_eq_of_lt small]
  omega

theorem requestWhois_eq {self addr : Address} (other : addr ≠ self) (table : Address → Option Int) (now : Int) :
    requestWhois self table now addr =
      ((letThrough whoisRetryDelay now ((table addr).getD 0)).1,
        Function.update table addr (some (letThrough whoisRetryDelay now ((table addr).getD 0)).2)) := by
  rw [requestWhois, if_neg other, letThrough]
  dsimp only
  by_cases early : now - (table addr).getD 0 < whoisRetryDelay
  · rw [if_pos early, if_neg (by omega)]
  · rw [if_neg early, if_pos (by omega)]

theorem shouldUnite_eq {table : LastUniteKey → Option (BitVec 64)} {now : PortTime} {source destination : Address}
    {ts : BitVec 64} (found : (table (lastUniteKey source destination)).getD 0 = ts)
    (past : (ts.toNat : Int) ≤ now.val) :
    shouldUnite table now.val source destination =
      ((letThrough minUniteInterval now.val ts.toNat).1,
        Function.update table (lastUniteKey source destination)
          (some (BitVec.ofInt 64 (letThrough minUniteInterval now.val ts.toNat).2))) := by
  have difference := unsigned_difference minUniteInterval (by decide) now past
  rw [shouldUnite, letThrough]
  rw [found]
  by_cases late : (minUniteInterval : Int) ≤ now.val - ts.toNat
  · rw [if_pos (difference.mpr late), if_pos late]
  · rw [if_neg (fun above => late (difference.mp above)), if_neg late, BitVec.ofInt_natCast, BitVec.ofNat_toNat,
      BitVec.setWidth_eq]

/-- A call that is an event of a gate is answered by the stamp behind its key. -/
theorem react_passes {gates : Gates} {now : PortTime} (past : Past gates now.val) {call : Call} {key : Key}
    (event : call.key gates.identity = some key) :
    (react gates now.val call).1 = (letThrough (interval key) now.val (stamp gates key)).1 := by
  cases call with
  | requestWhois addr =>
      rw [Call.key] at event
      by_cases own : addr = gates.identity
      · rw [if_pos own] at event
        cases event
      · rw [if_neg own] at event
        cases event
        exact congrArg Prod.fst (requestWhois_eq own gates.lastSentWhoisRequest now.val)
  | shouldUnite source destination =>
      cases event
      exact congrArg Prod.fst (shouldUnite_eq rfl (past (.unite (lastUniteKey source destination))).2)
  | rateGateIdentityVerification addr => cases event; rfl
  | rateGateCredentialsReceived a => cases event; rfl
  | rateGateInboundWhoisRequest a => cases event; rfl
  | rateGateEchoRequest a => cases event; rfl
  | tryMemorizedPath a lookup => cases event; rfl
  | newPeer a identity => cases event
  | newPath a => cases event
  | doAnythingWaitingForPeer a => cases event
  | doTimerTasks => cases event

/-- The stamp behind a key of a peer's gates. -/
def peerStamp (peer : Peer) : Key → Int
  | .credentials _ => peer.lastCredentialsReceived
  | .inboundWhois _ => peer.lastWhoisRequestReceived
  | .memorizedPath _ => peer.lastTriedMemorizedPath
  | _ => 0

/-- The peer whose gate a key belongs to. -/
def Key.peer : Key → Option Address
  | .credentials a => some a
  | .inboundWhois a => some a
  | .memorizedPath a => some a
  | _ => none

theorem stamp_setPeer (gates : Gates) (a : Address) (peer : Peer) (key : Key) :
    stamp (gates.setPeer a peer) key = if key.peer = some a then peerStamp peer key else stamp gates key := by
  have field (read : Peer → Int) (b : Address) :
      read (Function.update gates.peers a peer b) = if some b = some a then read peer else read (gates.peers b) := by
    by_cases same : b = a
    · simp [same]
    · simp [same]
  cases key with
  | credentials b => exact field Peer.lastCredentialsReceived b
  | inboundWhois b => exact field Peer.lastWhoisRequestReceived b
  | memorizedPath b => exact field Peer.lastTriedMemorizedPath b
  | identityVerification slot => rfl
  | whois b => rfl
  | unite pair => rfl
  | echo path => rfl

theorem stamp_setPath (gates : Gates) (path : Path.HashKey) (value : Path) (key : Key) :
    stamp (gates.setPath path value) key =
      if key = .echo path then value.lastEchoRequestReceived else stamp gates key := by
  cases key with
  | echo other =>
      by_cases same : other = path
      · simp [stamp, Gates.setPath, same]
      · simp [stamp, Gates.setPath, same]
  | identityVerification slot => rfl
  | whois b => rfl
  | unite pair => rfl
  | credentials b => rfl
  | inboundWhois b => rfl
  | memorizedPath b => rfl

/-- The stamp that a gate returns fits its unsigned field. -/
theorem toNat_letThrough (interval : Int) (now : PortTime) (ts : BitVec 64) :
    ((BitVec.ofInt 64 (letThrough interval now.val ts.toNat).2).toNat : Int) = (letThrough interval now.val ts.toNat).2 := by
  unfold letThrough
  by_cases passes : interval ≤ now.val - ts.toNat
  · rw [if_pos passes, toNat_ofInt now]
  · rw [if_neg passes, BitVec.ofInt_natCast, BitVec.ofNat_toNat, BitVec.setWidth_eq]

/-- An event leaves the stamp that the gate returns. -/
theorem react_stamp_event {gates : Gates} {now : PortTime} (past : Past gates now.val) {call : Call} {key : Key}
    (event : call.key gates.identity = some key) :
    stamp (react gates now.val call).2 key = (letThrough (interval key) now.val (stamp gates key)).2 := by
  cases call with
  | requestWhois addr =>
      rw [Call.key] at event
      by_cases own : addr = gates.identity
      · rw [if_pos own] at event
        cases event
      · rw [if_neg own] at event
        cases event
        simp only [react, requestWhois_eq own, stamp, Function.update_self, Option.getD_some]
        rfl
  | shouldUnite source destination =>
      cases event
      have before := past (.unite (lastUniteKey source destination))
      simp only [react, shouldUnite_eq rfl before.2, stamp, Function.update_self, Option.getD_some]
      exact toNat_letThrough minUniteInterval now _
  | rateGateIdentityVerification addr =>
      cases event
      exact Function.update_self ..
  | rateGateCredentialsReceived a =>
      cases event
      exact (stamp_setPeer ..).trans (if_pos rfl)
  | rateGateInboundWhoisRequest a =>
      cases event
      exact (stamp_setPeer ..).trans (if_pos rfl)
  | rateGateEchoRequest a =>
      cases event
      exact (stamp_setPath ..).trans (if_pos rfl)
  | tryMemorizedPath a lookup =>
      cases event
      exact (stamp_setPeer ..).trans (if_pos rfl)
  | newPeer a identity => cases event
  | newPath a => cases event
  | doAnythingWaitingForPeer a => cases event
  | doTimerTasks => cases event

theorem react_stamp_renewed {gates : Gates} {now : Int} {call : Call} {key : Key} (renewed : call.renews key = true) :
    stamp (react gates now call).2 key = 0 := by
  cases call with
  | newPeer a identity =>
      have made := stamp_setPeer gates a (Peer.new identity) key
      have belongs : key.peer = some a := by
        cases key <;> simp_all [Call.renews, Key.peer]
      rw [if_pos belongs] at made
      refine made.trans ?_
      cases key <;> rfl
  | newPath path =>
      cases key with
      | echo other =>
          have same : path = other := by simpa [Call.renews] using renewed
          exact (stamp_setPath gates path Path.new (.echo other)).trans (by rw [same, if_pos rfl]; rfl)
      | identityVerification slot => cases renewed
      | whois b => cases renewed
      | unite pair => cases renewed
      | credentials b => cases renewed
      | inboundWhois b => cases renewed
      | memorizedPath b => cases renewed
  | doAnythingWaitingForPeer a =>
      cases key with
      | whois b =>
          have same : a = b := by simpa [Call.renews] using renewed
          simp [react, stamp, same]
      | identityVerification slot => cases renewed
      | unite pair => cases renewed
      | credentials b => cases renewed
      | inboundWhois b => cases renewed
      | echo path => cases renewed
      | memorizedPath b => cases renewed
  | rateGateIdentityVerification addr => cases renewed
  | requestWhois addr => cases renewed
  | shouldUnite source destination => cases renewed
  | rateGateCredentialsReceived a => cases renewed
  | rateGateInboundWhoisRequest a => cases renewed
  | rateGateEchoRequest a => cases renewed
  | tryMemorizedPath a lookup => cases renewed
  | doTimerTasks => cases renewed

/-- A peer in which at most the stamp behind one key has changed. -/
theorem stamp_setPeer_other (gates : Gates) (a : Address) (peer : Peer) (key : Key)
    (same : key.peer = some a → peerStamp peer key = stamp gates key) :
    stamp (gates.setPeer a peer) key = stamp gates key := by
  rw [stamp_setPeer]
  by_cases belongs : key.peer = some a
  · rw [if_pos belongs, same belongs]
  · rw [if_neg belongs]

/-- The timer drops what no gate asks for any more. -/
theorem doTimerTasks_stamp {gates : Gates} {now : PortTime} (past : Past gates now.val) (key : Key) :
    stamp (react gates now.val .doTimerTasks).2 key = stamp gates key ∨
      (stamp (react gates now.val .doTimerTasks).2 key = 0 ∧ interval key ≤ now.val - stamp gates key) := by
  cases key with
  | whois b =>
      cases found : gates.lastSentWhoisRequest b with
      | none =>
          left
          simp [react, stamp, found]
      | some ts =>
          by_cases old : whoisRetryDelay * 2 < (now.val : Int) - ts
          · right
            simp only [react, stamp, interval, found, Option.filter_some, Option.getD_some]
            rw [if_neg (by simp only [decide_eq_true_eq]; omega)]
            have positive : 0 ≤ whoisRetryDelay := by decide
            exact ⟨rfl, by omega⟩
          · left
            simp only [react, stamp, found, Option.filter_some]
            rw [if_pos (by simp only [decide_eq_true_eq]; omega)]
  | unite pair =>
      cases found : gates.lastUniteAttempt pair with
      | none =>
          left
          simp [react, stamp, found]
      | some ts =>
          have before := past (.unite pair)
          simp only [stamp, found, Option.getD_some] at before
          have difference := unsigned_difference (minUniteInterval * 8) (by decide) now before.2
          by_cases old : ((minUniteInterval * 8 : Nat) : Int) ≤ now.val - ts.toNat
          · right
            simp only [react, stamp, interval, found, Option.filter_some, Option.getD_some]
            rw [if_neg (by simpa using difference.mpr old)]
            exact ⟨rfl, by omega⟩
          · left
            simp only [react, stamp, found, Option.filter_some]
            rw [if_pos (by simpa using fun above => old (difference.mp above))]
  | _ => exact Or.inl rfl

/-- Old stamps may be dropped; any other stamp stays. -/
theorem react_stamp_other {gates : Gates} {now : PortTime} (past : Past gates now.val) {call : Call} {key : Key}
    (other : call.key gates.identity ≠ some key) (kept : call.renews key = false) :
    stamp (react gates now.val call).2 key = stamp gates key ∨
      (stamp (react gates now.val call).2 key = 0 ∧ interval key ≤ now.val - stamp gates key) := by
  cases call with
  | rateGateIdentityVerification addr =>
      left
      cases key with
      | identityVerification slot =>
          have different : slot ≠ identitySlot addr := fun same => other (by rw [same]; rfl)
          exact Function.update_of_ne different ..
      | _ => rfl
  | requestWhois addr =>
      left
      by_cases own : addr = gates.identity
      · simp only [react, requestWhois, if_pos own]
      · cases key with
        | whois b =>
            have different : b ≠ addr := fun same => other (by rw [Call.key, if_neg own, same])
            simp only [react, requestWhois_eq own, stamp, Function.update_of_ne different]
        | _ => rfl
  | shouldUnite source destination =>
      left
      cases key with
      | unite pair =>
          have different : pair ≠ lastUniteKey source destination := fun same => other (by rw [same]; rfl)
          have before := past (.unite (lastUniteKey source destination))
          simp only [react, shouldUnite_eq rfl before.2, stamp, Function.update_of_ne different]
      | _ => rfl
  | rateGateCredentialsReceived a =>
      left
      apply stamp_setPeer_other
      intro belongs
      cases key <;> cases belongs
      · exact absurd rfl other
      · rfl
      · rfl
  | rateGateInboundWhoisRequest a =>
      left
      apply stamp_setPeer_other
      intro belongs
      cases key <;> cases belongs
      · rfl
      · exact absurd rfl other
      · rfl
  | tryMemorizedPath a lookup =>
      left
      apply stamp_setPeer_other
      intro belongs
      cases key <;> cases belongs
      · rfl
      · rfl
      · exact absurd rfl other
  | rateGateEchoRequest path =>
      left
      exact (stamp_setPath ..).trans (if_neg fun same => other (by rw [same]; rfl))
  | newPeer a identity =>
      left
      apply stamp_setPeer_other
      intro belongs
      cases key <;> cases belongs <;> simp [Call.renews] at kept
  | newPath path =>
      left
      refine (stamp_setPath ..).trans (if_neg fun same => ?_)
      rw [same] at kept
      simp [Call.renews] at kept
  | doAnythingWaitingForPeer a =>
      left
      cases key with
      | whois b =>
          have different : b ≠ a := by
            intro same
            simp [Call.renews, same] at kept
          simp only [react, stamp, Function.update_of_ne different]
      | _ => rfl
  | doTimerTasks => exact doTimerTasks_stamp past key

/-- Every gate remembers its last event, and no stamp lies in the future. -/
structure Kept (w : Watched) : Prop where
  past : Past w.gates w.clock
  remembers : ∀ key, Remembers (interval key) w.clock (w.last key) (stamp w.gates key)

theorem kept_start (identity : Address) (identities : Address → Identity) : Kept (start identity identities) := by
  have zero (key : Key) : stamp (start identity identities).gates key = 0 := by
    cases key <;> rfl
  constructor
  · intro key
    rw [zero]
    exact ⟨Int.le_refl 0, Int.le_refl 0⟩
  · intro key
    exact Or.inl (zero key)

theorem Past.later {gates : Gates} {clock clock' : Int} (past : Past gates clock) (forward : clock ≤ clock') :
    Past gates clock' :=
  fun key => ⟨(past key).1, Int.le_trans (past key).2 forward⟩

theorem kept_step {w : Watched} (kept : Kept w) {input : Input} (advances : Advances w input) :
    Kept (step w input) := by
  have past : Past w.gates input.now.val := kept.past.later advances
  constructor
  · intro key
    have before := past key
    by_cases event : input.call.key w.gates.identity = some key
    · have after := react_stamp_event past event
      simp only [step]
      rw [after]
      exact letThrough_bounds before.1 before.2
    · cases renewed : input.call.renews key with
      | true =>
          simp only [step]
          rw [react_stamp_renewed renewed]
          omega
      | false =>
          simp only [step]
          rcases react_stamp_other past event renewed with same | ⟨zero, -⟩
          · rw [same]
            exact before
          · rw [zero]
            omega
  · intro key
    have before := kept.remembers key
    by_cases event : input.call.key w.gates.identity = some key
    · have after := remembers_letThrough before advances
      have notRenewed : input.call.renews key = false := by
        cases call : input.call <;> rw [call] at event <;> cases key <;> first | rfl | cases event
      simp only [step, event, notRenewed, true_and, Bool.false_eq_true, if_false]
      rw [react_stamp_event past event, react_passes past event]
      exact after
    · simp only [step, event, false_and, if_false]
      cases renewed : input.call.renews key with
      | true =>
          rw [react_stamp_renewed renewed, if_pos rfl]
          exact Or.inl rfl
      | false =>
          rw [if_neg (by simp)]
          rcases react_stamp_other past event renewed with same | ⟨zero, elapsed⟩
          · rw [same]
            exact before.later advances
          · rw [zero]
            exact (before.later advances).dropped (past key).1 elapsed

/-- One event is handled correctly exactly when it is not a first one that comes too early. -/
theorem correct_iff_ripe {w : Watched} (kept : Kept w) {input : Input} (advances : Advances w input) :
    Correct w input ↔ Ripe w input := by
  have past : Past w.gates input.now.val := kept.past.later advances
  have single {key : Key} (event : input.call.key w.gates.identity = some key) :=
    letThrough_eq_due_iff (kept.remembers key) advances
  constructor
  · intro correct key event
    have right := correct key event
    rw [react_passes past event] at right
    exact (single event).mp right
  · intro ripe key event
    rw [react_passes past event]
    exact (single event).mpr (ripe key event)

/-- The gates do their work in exactly the runs in which no first event comes within an interval after boot. -/
theorem gates_correct_iff (identity : Address) (identities : Address → Identity) {inputs : List Input}
    (advances : Along step Advances (start identity identities) inputs) :
    Along step Correct (start identity identities) inputs ↔ Along step Ripe (start identity identities) inputs :=
  along_congr (fun _ _ kept forward => kept_step kept forward) (fun _ _ kept forward => correct_iff_ripe kept forward)
    (kept_start identity identities) advances

section Examples

def exampleIdentities (a : Address) : Identity := ⟨a, 0⟩

/-- A node that has just been made. -/
def booted : Watched := start 0x1111111111 exampleIdentities

def peerPath : Path.HashKey := Path.hashKey 3 (.v4 0xc0a80107 0x2709)

/-- One event of each gate. -/
def calls : List Call :=
  [.rateGateIdentityVerification (.v4 0xc0a80107 0x2709), .requestWhois 0x2222222222,
    .shouldUnite 0x2222222222 0x3333333333, .rateGateCredentialsReceived 0x2222222222,
    .rateGateInboundWhoisRequest 0x2222222222, .rateGateEchoRequest peerPath,
    .tryMemorizedPath 0x2222222222 (fun _ => none)]

/-- A first HELLO from a new place, and its repetition. -/
def lateHellos : List Input :=
  [⟨40000, .rateGateIdentityVerification (.v4 0xc0a80107 0x2709)⟩,
    ⟨40500, .rateGateIdentityVerification (.v4 0xc0a80107 0x2709)⟩]

/-- Within the first 100 ms after boot every gate refuses its first event. -/
theorem first_events_refused :
    calls.map (fun call => (react booted.gates 99 call).1) = [false, false, false, false, false, false, false] ∧
      Along step Advances booted [⟨99, .requestWhois 0x2222222222⟩] ∧
      ¬ Along step Correct booted [⟨99, .requestWhois 0x2222222222⟩] := by
  refine ⟨by decide +kernel, ⟨by decide +kernel, trivial⟩, ?_⟩
  rintro ⟨correct, -⟩
  have passes := correct (.whois 0x2222222222) rfl
  revert passes
  decide +kernel

theorem late_hellos_handled :
    Along step Advances booted lateHellos ∧ Along step Correct booted lateHellos := by
  have advances : Along step Advances booted lateHellos := ⟨by decide, by decide, trivial⟩
  refine ⟨advances, (gates_correct_iff 0x1111111111 exampleIdentities advances).mpr ⟨?_, ?_, trivial⟩⟩
  · intro key event first
    cases event
    decide
  · intro key event first
    cases event
    revert first
    decide +kernel

end Examples

end ZeroTierNode.RateGates

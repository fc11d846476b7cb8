import ZeroTierNode.PathSelection
import ZeroTierNode.RateGates

/-!
`SelfAwareness::iam`, the path tables of the peers, and what a change of the
external address does to them. That nothing was reported before, and that a path
was reset, are both written as a time of zero, which the first minutes after boot
take for a recent time.
-/

namespace ZeroTierNode.SelfAwareness
open Library.Packing Library.Runs RateGates InetAddress PeerPaths PathSelection

/-- `ZT_SELFAWARENESS_ENTRY_TIMEOUT`. -/
abbrev entryTimeout : Nat := 600000

/-- `ZT_MAX_PEER_NETWORK_PATHS`. -/
abbrev maxPeerNetworkPaths : Nat := 64

structure PhySurfaceKey where
  reporter : Address
  receivedOnLocalSocket : BitVec 64
  reporterPhysicalAddress : InetAddress
  scope : IpScope
deriving DecidableEq, Repr

structure PhySurfaceEntry where
  mySurface : InetAddress
  ts : BitVec 64
  trusted : Bool
deriving DecidableEq, Repr

/-- The entry that `_phy[key]` makes where there is none. -/
def PhySurfaceEntry.new : PhySurfaceEntry := ⟨.nil, 0, false⟩

abbrev Surfaces := PhySurfaceKey → Option PhySurfaceEntry

/-- The arguments of `iam`. -/
structure Report where
  reporter : Address
  receivedOnLocalSocket : BitVec 64
  reporterPhysicalAddress : InetAddress
  myPhysicalAddress : InetAddress
  trusted : Bool

namespace Report

def scope (report : Report) : IpScope := report.myPhysicalAddress.ipScope

def key (report : Report) : PhySurfaceKey :=
  ⟨report.reporter, report.receivedOnLocalSocket, report.reporterPhysicalAddress, report.scope⟩

/-- Reports across scopes, and of scopes that say nothing, are not looked at. -/
def relevant (report : Report) : Bool :=
  report.scope = report.reporterPhysicalAddress.ipScope ∧ report.scope ≠ .none ∧ report.scope ≠ .loopback ∧
    report.scope ≠ .multicast

end Report

/-- `now - ts`, computed without sign. -/
def elapsed (now : Int) (ts : BitVec 64) : Nat := (BitVec.ofInt 64 now - ts).toNat

/-- `iam`: whether the paths of the scope are reset, and the table it leaves. -/
def iam (phy : Surfaces) (report : Report) (now : Int) : Bool × Surfaces :=
  if report.relevant then
    let entry := (phy report.key).getD .new
    let updated := Function.update phy report.key
      (some ⟨report.myPhysicalAddress, BitVec.ofInt 64 now, report.trusted⟩)
    if report.trusted ∧ elapsed now entry.ts < entryTimeout ∧ ¬ entry.mySurface.ipsEqual report.myPhysicalAddress then
      -- entries of the scope that others reported are dropped, so that they do not reset the paths once more
      (true, fun key =>
        if key.reporterPhysicalAddress ≠ report.reporterPhysicalAddress ∧ key.scope = report.scope then none
        else updated key)
    else (false, updated)
  else (false, phy)

/-- `SelfAwareness::clean`. -/
def clean (phy : Surfaces) (now : Int) : Surfaces :=
  fun key => (phy key).filter fun entry => elapsed now entry.ts < entryTimeout

/-- The table of reports, the objects of the topology and the paths of every peer. -/
structure Node where
  phy : Surfaces
  objects : Path.HashKey → Option PathObject
  paths : Address → List PeerPath

/-- The table of one peer, as its calls see it. -/
def Node.table (node : Node) (peer : Address) : State := ⟨node.objects, node.paths peer⟩

def Node.setTable (node : Node) (peer : Address) (s : State) : Node :=
  { node with objects := s.objects, paths := Function.update node.paths peer s.paths }

/-- `getAppropriatePath` of a peer without a bond. -/
def getAppropriatePath (states : Paths) (now : Int) (includeExpired : Bool) (slots : List PeerPath) :
    Option PathObject :=
  (select states now includeExpired slots 2147483647 none).bind PeerPath.p

inductive Call
  | iam (report : Report)
  | clean
  | received (peer : Address) (localSocket : BitVec 64) (source : InetAddress) (hops : Nat) (ok usable bond : Bool)
      (lastIn : PathObject → Int)
  | getAppropriatePath (peer : Address) (states : Paths) (includeExpired : Bool)
  | doPingAndKeepalive (peer : Address)
  | clusterRedirect (peer : Address) (localSocket : BitVec 64) (source remoteAddress : InetAddress)
  /-- Another part of the node asks for a path. -/
  | getPath (l : BitVec 64) (r : InetAddress)
  /-- `Topology::doPeriodicTasks`, for the objects that are referred to and the peers that it deletes. -/
  | doPeriodicTasks (referenced : Path.HashKey → Bool) (deleted : Address → Bool)

structure Input where
  now : PortTime
  call : Call

/-- The call of a function of one peer. -/
def Call.op (now : Int) : Call → Option (Address × Op)
  | .received peer localSocket source hops ok usable bond lastIn =>
      some (peer, .received localSocket source hops ok usable bond lastIn now)
  | .doPingAndKeepalive peer => some (peer, .doPingAndKeepalive now)
  | .clusterRedirect peer localSocket source remoteAddress =>
      some (peer, .clusterRedirect localSocket source remoteAddress now)
  | _ => none

/-- A call of `iam` resets the paths. -/
def resets (node : Node) (now : Int) : Call → Bool
  | .iam report => (iam node.phy report now).1
  | _ => false

def react (node : Node) (now : Int) (call : Call) : Node :=
  match call.op now with
  | some (peer, op) => node.setTable peer (PeerPaths.step (node.table peer) op)
  | none =>
      match call with
      | .iam report =>
          { node with
            phy := (iam node.phy report now).2
            paths := fun peer =>
              if resets node now call then resetScope report.scope report.myPhysicalAddress.family (node.paths peer)
              else node.paths peer }
      | .clean => { node with phy := clean node.phy now }
      | .getPath l r => { node with objects := (PeerPaths.getPath node.objects l r).2 }
      | .doPeriodicTasks referenced deleted =>
          { node with
            objects := fun key => (node.objects key).filter fun _ => referenced key
            paths := fun peer => if deleted peer then (PeerPaths.start maxPeerNetworkPaths).paths else node.paths peer }
      | _ => node

/-- A surface as it was reported, and when. -/
structure Seen where
  surface : InetAddress
  time : PortTime

/-- The node with its history: what each reporter said last, and which paths were reset and have been silent since. -/
structure Watched where
  node : Node
  last : PhySurfaceKey → Option Seen
  silent : Address → PathObject → Bool

/-- A node that has just been made. -/
def booted : Watched :=
  ⟨⟨fun _ => none, fun _ => none, fun _ => (PeerPaths.start maxPeerNetworkPaths).paths⟩, fun _ => none, fun _ _ => false⟩

/-- The path that a packet came on, and the one that a redirect goes to. -/
def arrivedOn (node : Node) (localSocket : BitVec 64) (source : InetAddress) : PathObject :=
  (PeerPaths.getPath node.objects localSocket source).1

def redirectedTo (node : Node) (localSocket : BitVec 64) (source remoteAddress : InetAddress) : PathObject :=
  (PeerPaths.getPath (PeerPaths.getPath node.objects localSocket source).2 localSocket remoteAddress).1

/-- Whether `resetWithinScope` resets the path. -/
def inScope (scope : IpScope) (family : Family) (path : PathObject) : Bool :=
  path.address.family = family ∧ path.address.ipScope = scope

def silentAfter (w : Watched) (input : Input) : Address → PathObject → Bool :=
  match input.call with
  | .iam report => fun peer path => w.silent peer path ∨ (resets w.node input.now.val input.call ∧
      inScope report.scope report.myPhysicalAddress.family path ∧ path ∈ values PeerPath.p (w.node.paths peer))
  | .received peer localSocket source hops _ _ _ _ => fun other p =>
      w.silent other p ∧ ¬ (hops = 0 ∧ other = peer ∧ p = arrivedOn w.node localSocket source)
  | _ => w.silent

def step (w : Watched) (input : Input) : Watched where
  node := react w.node input.now.val input.call
  last := match input.call with
    | .iam report =>
        if report.relevant then Function.update w.last report.key (some ⟨report.myPhysicalAddress, input.now⟩)
        else w.last
    | _ => w.last
  silent := silentAfter w input

/-- Paths are reset only when a trusted reporter contradicts what it reported within the timeout, and a path that was
reset is not chosen before it has been heard of. -/
def Correct (w : Watched) (input : Input) : Prop :=
  match input.call with
  | .iam report => resets w.node input.now.val input.call = true →
      report.trusted = true ∧ ∃ seen, w.last report.key = some seen ∧
        seen.surface.ipsEqual report.myPhysicalAddress = false ∧
        seen.time.val ≤ input.now.val ∧ input.now.val < seen.time.val + entryTimeout
  | .getAppropriatePath peer states includeExpired => includeExpired = false →
      ∀ path, getAppropriatePath states input.now.val includeExpired (w.node.paths peer) = some path →
        w.silent peer path = false
  | _ => True

/-- What has to be kept away from the first minutes after boot: a trusted report that the table has no entry for, and
the choice of a path that has not expired while there are some that were reset. Besides, nothing redirects a peer to a
path that was reset. -/
def Safe (w : Watched) (input : Input) : Prop :=
  match input.call with
  | .iam report => report.trusted = true → report.relevant = true →
      (w.node.phy report.key).isSome ∨ entryTimeout ≤ input.now.val
  | .getAppropriatePath peer _ includeExpired => includeExpired = false → pathExpiration ≤ input.now.val ∨
      ∀ path ∈ values PeerPath.p (w.node.paths peer), w.silent peer path = false
  | .clusterRedirect peer localSocket source remoteAddress =>
      w.silent peer (redirectedTo w.node localSocket source remoteAddress) = false
  | _ => True

/-- Entries are what was reported last, the tables have no gaps, and paths that were reset and are silent have a time
of zero. -/
structure Kept (w : Watched) : Prop where
  reported : ∀ key entry, w.node.phy key = some entry → ∃ seen, w.last key = some seen ∧
    entry.mySurface = seen.surface ∧ entry.ts = BitVec.ofInt 64 seen.time.val
  packed : ∀ peer, Packed PeerPath.p (w.node.paths peer)
  zero : ∀ peer, ∀ slot ∈ w.node.paths peer, ∀ path, slot.p = some path → w.silent peer path = true → slot.lr = 0

theorem elapsed_lt {now time : PortTime} (recent : elapsed now.val (BitVec.ofInt 64 time.val) < entryTimeout) :
    time.val ≤ now.val ∧ now.val < time.val + entryTimeout := by
  have early := time.isLt
  have late := now.isLt
  rw [elapsed, BitVec.toNat_sub, toNat_ofInt, toNat_ofInt] at recent
  unfold entryTimeout at *
  omega

/-- Everything that `iam` can do. -/
theorem iam_cases (phy : Surfaces) (report : Report) (now : Int) :
    (report.relevant = false ∧ iam phy report now = (false, phy)) ∨
    (report.relevant = true ∧ ∃ resets after, iam phy report now = (resets, after) ∧
      (resets = true → report.trusted = true ∧ elapsed now ((phy report.key).getD .new).ts < entryTimeout ∧
        ((phy report.key).getD .new).mySurface.ipsEqual report.myPhysicalAddress = false) ∧
      after report.key = some ⟨report.myPhysicalAddress, BitVec.ofInt 64 now, report.trusted⟩ ∧
      ∀ key, key ≠ report.key → after key = phy key ∨ after key = none) := by
  unfold iam
  cases relevant : report.relevant with
  | false => exact Or.inl ⟨rfl, rfl⟩
  | true =>
      refine Or.inr ⟨rfl, ?_⟩
      rw [if_pos rfl]
      dsimp only
      split
      · rename_i change
        refine ⟨true, _, rfl, fun _ => ⟨change.1, change.2.1, by simpa using change.2.2⟩, ?_, ?_⟩
        · rw [if_neg fun other => other.1 rfl, Function.update_self]
        · intro key other
          rw [Function.update_of_ne other]
          split
          · exact Or.inr rfl
          · exact Or.inl rfl
      · refine ⟨false, _, rfl, fun reset => absurd reset Bool.false_ne_true, Function.update_self .., ?_⟩
        intro key other
        exact Or.inl (Function.update_of_ne other ..)

section Tables

variable {slots : List PeerPath} {slot : PeerPath} {lastIn : PathObject → Int} {now : Int} {path : PathObject}

theorem mem_refresh {bond : Bool} (found : slot ∈ (refresh lastIn now path bond slots).2) :
    slot ∈ slots ∨ slot.p = some path := by
  induction slots with
  | nil => exact Or.inl found
  | cons first rest ih =>
      unfold refresh at found
      cases here : first.p with
      | none =>
          rw [here] at found
          exact Or.inl found
      | some p =>
          rw [here] at found
          dsimp only at found
          split at found
          · rename_i same
            rcases List.mem_cons.mp found with this | later
            · rw [this]
              exact Or.inr (by rw [← same])
            · exact Or.inl (List.mem_cons_of_mem _ later)
          · split at found
            · exact Or.inl found
            · rcases List.mem_cons.mp found with this | later
              · rw [this]
                exact Or.inl List.mem_cons_self
              · exact (ih later).imp_left (List.mem_cons_of_mem _)

/-- In a table without gaps the loop gets to every path. -/
theorem resetScope_eq (packed : Packed PeerPath.p slots) (scope : IpScope) (family : Family) :
    resetScope scope family slots =
      slots.map fun slot => if slot.p.any (inScope scope family) then { slot with lr := 0 } else slot := by
  induction slots with
  | nil => rfl
  | cons slot slots ih =>
      rw [resetScope, List.map_cons]
      cases here : slot.p with
      | none =>
          have empty := (packed_cons_none here).mp packed
          have same : slots = slots.map fun slot =>
              if slot.p.any (inScope scope family) then { slot with lr := 0 } else slot := by
            conv_lhs => rw [← List.map_id slots]
            apply List.map_congr_left
            intro other member
            rw [empty other member]
            rfl
          rw [← same]
          rfl
      | some p =>
          rw [← ih packed.tail]
          simp only [Option.any_some, inScope, decide_eq_true_eq]

/-- A path that is chosen has been heard of within the expiration. -/
theorem getAppropriatePath_fresh {states : Paths}
    (chosen : getAppropriatePath states now false slots = some path) :
    ∃ slot ∈ slots, slot.p = some path ∧ now - slot.lr < pathExpiration := by
  have loop (bound : Int) (best : Option PeerPath) (rest : List PeerPath) {slot : PeerPath}
      (found : select states now false rest bound best = some slot) :
      best = some slot ∨ slot ∈ rest ∧ eligible now false slot = true := by
    induction rest generalizing bound best with
    | nil => exact Or.inl found
    | cons first rest ih =>
        have later (bound : Int) (best : Option PeerPath) (found : select states now false rest bound best = some slot) :
            best = some slot ∨ slot ∈ first :: rest ∧ eligible now false slot = true :=
          (ih bound best found).imp_right fun both => ⟨List.mem_cons_of_mem _ both.1, both.2⟩
        rw [select] at found
        split at found
        · split at found
          · rename_i may
            split at found
            · rcases later _ _ found with this | rest
              · rw [← Option.some.inj this]
                exact Or.inr ⟨List.mem_cons_self, may⟩
              · exact Or.inr rest
            · exact later _ _ found
          · exact later _ _ found
        · exact Or.inl found
  obtain ⟨slot, found, same⟩ := Option.bind_eq_some_iff.mp chosen
  rcases loop _ _ slots found with none | ⟨member, may⟩
  · cases none
  · refine ⟨slot, member, same, ?_⟩
    simpa [eligible] using may

/-- A packet touches no entry but those of the path it came on. -/
theorem mem_received {s : State} {localSocket : BitVec 64} {source : InetAddress} {hops : Nat} {ok usable bond : Bool}
    (found : slot ∈ (PeerPaths.step s (.received localSocket source hops ok usable bond lastIn now)).paths) :
    slot ∈ s.paths ∨ hops = 0 ∧ slot.p = some (PeerPaths.getPath s.objects localSocket source).1 := by
  unfold PeerPaths.step at found
  dsimp only at found
  split at found
  · rename_i direct
    split at found
    · rename_i path learns
      have same : path = (PeerPaths.getPath s.objects localSocket source).1 := by
        unfold learned at learns
        dsimp only at learns
        split_ifs at learns
        exact (Option.some.inj learns).symm
      rw [same] at found
      rcases mem_learn found with old | new
      · exact (mem_refresh old).imp_right fun this => ⟨direct, this⟩
      · rw [new]
        exact Or.inr ⟨direct, rfl⟩
    · exact (mem_refresh found).imp_right fun new => ⟨direct, new⟩
  · exact Or.inl found

theorem packed_received {s : State} {localSocket : BitVec 64} {source : InetAddress} {hops : Nat}
    {ok usable bond : Bool} (packed : Packed PeerPath.p s.paths) :
    Packed PeerPath.p
      (PeerPaths.step s (.received localSocket source hops ok usable bond lastIn now)).paths := by
  unfold PeerPaths.step
  dsimp only
  split
  · split
    · exact packed_learn (packed_of_undated (refresh_undated ..) packed)
    · exact packed_of_undated (refresh_undated ..) packed
  · exact packed

theorem packed_keepalive : Packed PeerPath.p (keepalive now slots) := (clean_spec _ slots.length rfl).1

theorem mem_keepalive (found : slot ∈ keepalive now slots) : slot ∈ slots ∨ slot = PeerPath.new :=
  (clean_spec _ slots.length rfl).2.2 slot found

theorem packed_start : Packed PeerPath.p (PeerPaths.start maxPeerNetworkPaths).paths := packed_replicate rfl _

end Tables

/-- What was reported last is remembered by every step. -/
theorem reported_step {w : Watched} (kept : Kept w) (input : Input) :
    ∀ key entry, (step w input).node.phy key = some entry → ∃ seen, (step w input).last key = some seen ∧
      entry.mySurface = seen.surface ∧ entry.ts = BitVec.ofInt 64 seen.time.val := by
  intro key entry found
  obtain ⟨now, call⟩ := input
  cases call with
  | iam report =>
      change (iam w.node.phy report now.val).2 key = some entry at found
      change ∃ seen, (if report.relevant = true then Function.update w.last report.key _ else w.last) key = some seen ∧ _
      rcases iam_cases w.node.phy report now.val with ⟨irrelevant, same⟩ | ⟨relevant, resets, after, same, -, own, others⟩
      · rw [same] at found
        rw [irrelevant]
        exact kept.reported key entry found
      · rw [same] at found
        change after key = some entry at found
        rw [if_pos relevant]
        by_cases this : key = report.key
        · rw [this] at found ⊢
          rw [own] at found
          cases found
          exact ⟨_, Function.update_self .., rfl, rfl⟩
        · rw [Function.update_of_ne this]
          rcases others key this with unchanged | dropped
          · rw [unchanged] at found
            exact kept.reported key entry found
          · rw [dropped] at found
            cases found
  | clean => exact kept.reported key entry (Option.filter_eq_some_iff.mp found).1
  | _ => exact kept.reported key entry found

/-- A reset sets the times of exactly the paths that fall silent by it. -/
theorem zero_iam {w : Watched} (kept : Kept w) (now : PortTime) (report : Report) :
    ∀ peer, ∀ slot ∈ (step w ⟨now, .iam report⟩).node.paths peer, ∀ path, slot.p = some path →
      (step w ⟨now, .iam report⟩).silent peer path = true → slot.lr = 0 := by
  intro peer slot found path here silent
  change slot ∈ (if resets w.node now.val (.iam report) = true then _ else w.node.paths peer) at found
  change decide _ = true at silent
  rw [decide_eq_true_eq] at silent
  split at found
  · rw [resetScope_eq (kept.packed peer)] at found
    obtain ⟨earlier, among, same⟩ := List.mem_map.mp found
    by_cases scope : earlier.p.any (inScope report.scope report.myPhysicalAddress.family) = true
    · rw [if_pos scope] at same
      rw [← same]
    · rw [if_neg scope] at same
      rw [← same] at here ⊢
      rcases silent with old | ⟨-, within, -⟩
      · exact kept.zero peer earlier among path here old
      · rw [here] at scope
        exact absurd within scope
  · rename_i unchanged
    rcases silent with old | ⟨resets, -⟩
    · exact kept.zero peer slot found path here old
    · exact absurd resets unchanged

/-- Only `received` and a redirection give a path a new time. -/
theorem zero_step {w : Watched} (kept : Kept w) {input : Input} (safe : Safe w input) :
    ∀ peer, ∀ slot ∈ (step w input).node.paths peer, ∀ path, slot.p = some path →
      (step w input).silent peer path = true → slot.lr = 0 := by
  intro peer slot found path here silent
  obtain ⟨now, call⟩ := input
  -- calls that set the table of one peer leave the others as they were
  have updated {a : Address} {slots : List PeerPath} (there : slot ∈ Function.update w.node.paths a slots peer)
      (own : a = peer → slot ∈ slots → slot.lr = 0) (unheard : w.silent peer path = true) : slot.lr = 0 := by
    by_cases same : peer = a
    · rw [same, Function.update_self] at there
      exact own same.symm there
    · rw [Function.update_of_ne same] at there
      exact kept.zero peer slot there path here unheard
  have old {a : Address} (same : a = peer) (member : slot ∈ w.node.paths a) (unheard : w.silent peer path = true) :
      slot.lr = 0 := kept.zero peer slot (by rw [← same]; exact member) path here unheard
  cases call with
  | iam report => exact zero_iam kept now report peer slot found path here silent
  | clean => exact kept.zero peer slot found path here silent
  | received a localSocket source hops ok usable bond lastIn =>
      change decide _ = true at silent
      rw [decide_eq_true_eq] at silent
      refine updated found (fun same inside => ?_) silent.1
      rcases mem_received inside with member | ⟨direct, new⟩
      · exact old same member silent.1
      · exact absurd ⟨direct, same.symm, Option.some.inj (here.symm.trans new)⟩ silent.2
  | getAppropriatePath a states includeExpired => exact kept.zero peer slot found path here silent
  | doPingAndKeepalive a =>
      refine updated found (fun same inside => ?_) silent
      rcases mem_keepalive inside with member | blank
      · exact old same member silent
      · rw [blank] at here
        cases here
  | clusterRedirect a localSocket source remoteAddress =>
      refine updated found (fun same inside => ?_) silent
      rcases mem_redirect inside with member | new | blank
      · exact old same member silent
      · change w.silent a (redirectedTo w.node localSocket source remoteAddress) = false at safe
        change w.silent peer path = true at silent
        rw [new] at here
        rw [← same, ← Option.some.inj here] at silent
        change w.silent a (redirectedTo w.node localSocket source remoteAddress) = true at silent
        rw [safe] at silent
        cases silent
      · rw [blank] at here
        cases here
  | getPath l r => exact kept.zero peer slot found path here silent
  | doPeriodicTasks referenced deleted =>
      change slot ∈ (if deleted peer = true then _ else w.node.paths peer) at found
      split at found
      · rw [List.eq_of_mem_replicate found] at here
        cases here
      · exact kept.zero peer slot found path here silent

theorem packed_step {w : Watched} (kept : Kept w) (input : Input) :
    ∀ peer, Packed PeerPath.p ((step w input).node.paths peer) := by
  intro peer
  obtain ⟨now, call⟩ := input
  have updated {a : Address} {slots : List PeerPath} (own : Packed PeerPath.p slots) :
      Packed PeerPath.p (Function.update w.node.paths a slots peer) := by
    by_cases same : peer = a
    · rw [same, Function.update_self]
      exact own
    · rw [Function.update_of_ne same]
      exact kept.packed peer
  cases call with
  | iam report =>
      change Packed PeerPath.p (if resets w.node now.val (.iam report) = true then _ else w.node.paths peer)
      split
      · exact packed_of_undated (resetScope_undated ..) (kept.packed peer)
      · exact kept.packed peer
  | received a localSocket source hops ok usable bond lastIn => exact updated (packed_received (kept.packed a))
  | doPingAndKeepalive a => exact updated packed_keepalive
  | clusterRedirect a localSocket source remoteAddress => exact updated (packed_redirect (kept.packed a))
  | doPeriodicTasks referenced deleted =>
      change Packed PeerPath.p (if deleted peer = true then _ else w.node.paths peer)
      split
      · exact packed_start
      · exact kept.packed peer
  | _ => exact kept.packed peer

theorem kept_booted : Kept booted where
  reported _ _ found := by cases found
  packed _ := packed_start
  zero _ _ _ _ _ silent := by cases silent

theorem kept_step {w : Watched} (kept : Kept w) {input : Input} (safe : Safe w input) : Kept (step w input) :=
  ⟨reported_step kept input, packed_step kept input, zero_step kept safe⟩

/-- A report that resets the paths contradicts an entry of the table: without one, the time of zero is too long ago. -/
theorem iam_correct {w : Watched} (kept : Kept w) {now : PortTime} {report : Report}
    (safe : Safe w ⟨now, .iam report⟩) : Correct w ⟨now, .iam report⟩ := by
  intro reset
  change (iam w.node.phy report now.val).1 = true at reset
  rcases iam_cases w.node.phy report now.val with ⟨-, same⟩ | ⟨relevant, resets, after, same, cause, -⟩
  · rw [same] at reset
    cases reset
  · rw [same] at reset
    obtain ⟨trusted, recent, contradicts⟩ := cause reset
    refine ⟨trusted, ?_⟩
    cases entry : w.node.phy report.key with
    | none =>
        rw [entry, Option.getD_none] at recent
        have late : entryTimeout ≤ now.val := by
          rcases safe trusted relevant with there | late
          · rw [entry] at there
            cases there
          · exact late
        have early : now.val < 0 + entryTimeout := (@elapsed_lt now ⟨0, by decide⟩ recent).2
        omega
    | some found =>
        obtain ⟨seen, last, surface, time⟩ := kept.reported _ _ entry
        rw [entry, Option.getD_some] at recent contradicts
        rw [time] at recent
        rw [surface] at contradicts
        exact ⟨seen, last, contradicts, elapsed_lt recent⟩

theorem getAppropriatePath_correct {w : Watched} (kept : Kept w) {now : PortTime} {peer : Address} {states : Paths}
    {includeExpired : Bool} (safe : Safe w ⟨now, .getAppropriatePath peer states includeExpired⟩) :
    Correct w ⟨now, .getAppropriatePath peer states includeExpired⟩ := by
  intro fresh path chosen
  rw [fresh] at chosen
  obtain ⟨slot, among, same, heard⟩ := getAppropriatePath_fresh chosen
  cases silent : w.silent peer path with
  | false => rfl
  | true =>
      have zero := kept.zero peer slot among path same silent
      rcases safe fresh with late | others
      · change pathExpiration ≤ (now.val : Int) at late
        change (now.val : Int) - slot.lr < pathExpiration at heard
        rw [zero] at heard
        omega
      · rw [others path (mem_values.mpr ⟨slot, among, same⟩)] at silent
        cases silent

/-- In every run that keeps both cases away from the first minutes after boot, and redirects no peer to a path that
was reset, paths are reset for a reason and not used before they speak again. -/
theorem paths_reset_correctly {inputs : List Input} (safe : Along step Safe booted inputs) :
    Along step Correct booted inputs := by
  have agree (w : Watched) (input : Input) (kept : Kept w) (safe : Safe w input) : Safe w input ↔ Correct w input := by
    refine iff_of_true safe ?_
    obtain ⟨now, call⟩ := input
    cases call with
    | iam report => exact iam_correct kept safe
    | getAppropriatePath peer states includeExpired => exact getAppropriatePath_correct kept safe
    | _ => trivial
  exact (along_congr (fun _ _ kept safe => kept_step kept safe) agree kept_booted safe).mp safe

section Examples

/-- The path to the root 85.216.167.193. -/
def rootPath : PathObject := ⟨3, .v4 0x55d8a7c1 9993⟩

def idleStates : Paths := ⟨fun _ => 0, fun _ => [20]⟩

/-- The root with address 9 reports the external IP of the node. -/
def rootReport (ip : BitVec 32) : Report := ⟨9, 3, .v4 0x55d8a7c1 9993, .v4 ip 9993, true⟩

/-- The root answers and its path is learned. -/
def answered (now : PortTime) : Input :=
  ⟨now, .received 9 rootPath.localSocket rootPath.address 0 true true false idleStates.lastIn⟩

def reported (now : PortTime) (ip : BitVec 32) : Input := ⟨now, .iam (rootReport ip)⟩

def asked (now : PortTime) : Input := ⟨now, .getAppropriatePath 9 idleStates false⟩

/-- Eleven minutes after boot the first report of the root is only noted; the second resets the path, which is then
not used. -/
theorem late_reports_handled :
    Along step Correct booted
        [answered 700000, reported 700001 0x5e0a0b0c, reported 700002 0x5e0a0b0d, asked 700003] ∧
      resets (run step booted [answered 700000]).node 700001 (.iam (rootReport 0x5e0a0b0c)) = false ∧
      resets (run step booted [answered 700000, reported 700001 0x5e0a0b0c]).node 700002
        (.iam (rootReport 0x5e0a0b0d)) = true ∧
      getAppropriatePath idleStates 700003 false ((run step booted
        [answered 700000, reported 700001 0x5e0a0b0c, reported 700002 0x5e0a0b0d]).node.paths 9) = none := by
  refine ⟨paths_reset_correctly ⟨trivial, fun _ _ => Or.inr ?_, fun _ _ => Or.inr ?_, fun _ => Or.inl ?_, trivial⟩,
    by decide +kernel, by decide +kernel, by decide +kernel⟩
  · decide
  · decide
  · decide

/-- Five seconds after boot the first report of the root resets its path, and the path is used all the same. -/
theorem first_report_resets :
    (run step booted [answered 1000]).last (rootReport 0x5e0a0b0c).key = none ∧
      resets (run step booted [answered 1000]).node 5000 (.iam (rootReport 0x5e0a0b0c)) = true ∧
      (run step booted [answered 1000, reported 5000 0x5e0a0b0c]).silent 9 rootPath = true ∧
      getAppropriatePath idleStates 5001 false
        ((run step booted [answered 1000, reported 5000 0x5e0a0b0c]).node.paths 9) = some rootPath ∧
      ¬ Along step Correct booted [answered 1000, reported 5000 0x5e0a0b0c, asked 5001] := by
  refine ⟨rfl, by decide +kernel, by decide +kernel, by decide +kernel, ?_⟩
  rintro ⟨-, report, -⟩
  obtain ⟨-, seen, last, -⟩ := report (by decide +kernel)
  cases last

end Examples

end ZeroTierNode.SelfAwareness

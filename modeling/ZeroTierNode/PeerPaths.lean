import ZeroTierNode.Topology
import ZeroTierNode.Library.Packing
import ZeroTierNode.Library.Runs

/-!
The table `_paths` in which a `Peer` keeps the paths to it, and the objects that
`Topology::getPath` gives out for them, one for each `Path::HashKey` in use.
-/

namespace ZeroTierNode.PeerPaths
open Library.Packing Library.Runs

/-- `ZT_PATH_HEARTBEAT_PERIOD`. -/
abbrev heartbeatPeriod : Int := 14000

/-- `ZT_PEER_PATH_EXPIRATION`. -/
abbrev pathExpiration : Int := 60000 * 4 + 3000

/-- What a `Path` is made with. There is one object with a key at a time, so it stands for the pointer. -/
structure PathObject where
  localSocket : BitVec 64
  address : InetAddress
deriving DecidableEq, Repr

def PathObject.key (path : PathObject) : Path.HashKey := Path.hashKey path.localSocket path.address

/-- `_PeerPath`. -/
structure PeerPath where
  lr : Int
  p : Option PathObject
  priority : Int
deriving DecidableEq, Repr

/-- The constructor. -/
def PeerPath.new : PeerPath := ⟨0, none, 1⟩

structure State where
  /-- `Topology::_paths`. -/
  objects : Path.HashKey → Option PathObject
  /-- `Peer::_paths`, with `ZT_MAX_PEER_NETWORK_PATHS` entries. -/
  paths : List PeerPath

def start (maxPaths : Nat) : State := ⟨fun _ => none, List.replicate maxPaths PeerPath.new⟩

/-- `Topology::getPath`. -/
def getPath (objects : Path.HashKey → Option PathObject) (l : BitVec 64) (r : InetAddress) :
    PathObject × (Path.HashKey → Option PathObject) :=
  let key := Path.hashKey l r
  let p := (objects key).getD ⟨l, r⟩
  (p, Function.update objects key (some p))

/-- A path is looked up before it is used. -/
def State.getPath (s : State) (l : BitVec 64) (r : InetAddress) : PathObject × State :=
  let found := PeerPaths.getPath s.objects l r
  (found.1, { s with objects := found.2 })

section Received

variable (lastIn : PathObject → Int) (now : Int) (path : PathObject)

/-- `Path::alive`. -/
def alive (p : PathObject) : Bool := now - lastIn p < heartbeatPeriod + 5000

/-- `Path::age`, in the `unsigned int` that `Peer::received` puts it in. -/
def age (p : PathObject) : Nat := ((now - lastIn p) % 2 ^ 32).toNat

def sameEndpoint (p : PathObject) : Bool :=
  p.address.ipsEqual path.address ∧ p.localSocket = path.localSocket

/-- The first loop of `received`: `havePath`, and the table with the time stamp set. -/
def refresh (bond : Bool) : List PeerPath → Bool × List PeerPath
  | [] => (false, [])
  | slot :: slots =>
      match slot.p with
      | none => (false, slot :: slots)
      | some p =>
          if p = path then (true, { slot with lr := now } :: slots)
          else if sameEndpoint path p ∧ alive lastIn now p ∧ ¬ bond then (true, slot :: slots)
          else
            let rest := refresh bond slots
            (rest.1, slot :: rest.2)

/-- The second loop from index `i` on, with `oldestPathIdx` and `oldestPathAge`: `replacePath`, if any. -/
def replacePath : List PeerPath → Nat → Option Nat → Nat → Option Nat
  | [], _, oldestPathIdx, _ => oldestPathIdx
  | slot :: slots, i, oldestPathIdx, oldestPathAge =>
      match slot.p with
      | none => some i
      | some p =>
          if sameEndpoint path p ∧ ¬ alive lastIn now p then some i
          else if oldestPathAge < age lastIn now p then replacePath slots (i + 1) (some i) (age lastIn now p)
          else replacePath slots (i + 1) oldestPathIdx oldestPathAge

def learn (slots : List PeerPath) : List PeerPath :=
  match replacePath lastIn now path slots 0 none 0 with
  | none => slots
  | some i => slots.set i ⟨now, some path, 1⟩

end Received

/-- A `long` of 32 bits; where the sum does not fit, this is what the processor leaves. -/
def longAdd (first second : Int) : Int := (first + second).bmod (2 ^ 32)

/-- The priority of the originating path, if it is in the table. -/
def originPriority (originatingPath : PathObject) : List PeerPath → Int
  | [] => 1
  | slot :: slots =>
      match slot.p with
      | none => 1
      | some p => if p = originatingPath then slot.priority else originPriority originatingPath slots

/-- The entries that a redirect leaves in the table. -/
def keeps (newPriority : Int) (remoteAddress : InetAddress) (slot : PeerPath) : Bool :=
  match slot.p with
  | none => false
  | some p => newPriority ≤ slot.priority ∧ ¬ p.address.ipsEqual2 remoteAddress

/-- The last two loops of `clusterRedirect`. When every entry is kept nothing moves. -/
def redirect (np : PathObject) (newPriority : Int) (remoteAddress : InetAddress) (now : Int)
    (slots : List PeerPath) : List PeerPath :=
  let kept := slots.filter (keeps newPriority remoteAddress)
  if kept.length < slots.length then
    kept ++ ⟨now, some np, newPriority⟩ :: List.replicate (slots.length - kept.length - 1) PeerPath.new
  else slots

/-- The loop of `resetWithinScope`. -/
def resetScope (scope : InetAddress.IpScope) (inetAddressFamily : InetAddress.Family) :
    List PeerPath → List PeerPath
  | [] => []
  | slot :: slots =>
      match slot.p with
      | none => slot :: slots
      | some p =>
          (if p.address.family = inetAddressFamily ∧ p.address.ipScope = scope then { slot with lr := 0 } else slot) ::
            resetScope scope inetAddressFamily slots

def maxPriority (slots : List PeerPath) : Int :=
  (slots.takeWhile fun slot => slot.p.isSome).foldl (fun most slot => max slot.priority most) 0

/-- The second loop of `doPingAndKeepalive` over the last `n` indices. An entry that fills a gap is not looked at. -/
def clean (current : PeerPath → Bool) : Nat → List PeerPath → List PeerPath
  | 0, slots => slots
  | _ + 1, [] => []
  | n + 1, slot :: slots =>
      if slot.p.isSome ∧ current slot then slot :: clean current n slots
      else
        match takeFirst PeerPath.p PeerPath.new slots with
        | none => (if slot.p.isSome then PeerPath.new else slot) :: clean current n slots
        | some (first, rest) => first :: clean current n rest

def keepalive (now : Int) (slots : List PeerPath) : List PeerPath :=
  let most := maxPriority slots
  clean (fun slot => now - slot.lr < pathExpiration ∧ slot.priority = most) slots.length slots

inductive Op
  /-- `received` for a packet with `hops` from an address; `usable` is what the node answers about the path. -/
  | received (localSocket : BitVec 64) (source : InetAddress) (hops : Nat) (ok usable bond : Bool)
      (lastIn : PathObject → Int) (now : Int)
  | clusterRedirect (localSocket : BitVec 64) (source remoteAddress : InetAddress) (now : Int)
  | resetWithinScope (scope : InetAddress.IpScope) (inetAddressFamily : InetAddress.Family)
  | doPingAndKeepalive (now : Int)
  /-- Another part of the node asks for a path. -/
  | getPath (l : BitVec 64) (r : InetAddress)
  /-- `Topology::doPeriodicTasks`, where others than this peer refer to some of the paths. -/
  | doPeriodicTasks (referenced : Path.HashKey → Bool)

/-- The path that the call learns. -/
def learned (s : State) : Op → Option PathObject
  | .received localSocket source hops ok usable bond lastIn now =>
      let path := (s.getPath localSocket source).1
      if hops = 0 ∧ ¬ (refresh lastIn now path bond s.paths).1 ∧ usable ∧ ok then some path else none
  | .clusterRedirect localSocket source remoteAddress _ =>
      some ((s.getPath localSocket source).2.getPath localSocket remoteAddress).1
  | _ => none

/-- The priority that a redirect gives, with that of the originating path. -/
def newPriority (s : State) (localSocket : BitVec 64) (source : InetAddress) : Int :=
  longAdd (originPriority (s.getPath localSocket source).1 s.paths) 2

def step (s : State) : Op → State
  | .received localSocket source hops ok usable bond lastIn now =>
      let found := s.getPath localSocket source
      if hops = 0 then
        let refreshed := (refresh lastIn now found.1 bond s.paths).2
        match learned s (.received localSocket source hops ok usable bond lastIn now) with
        | some path => { found.2 with paths := learn lastIn now path refreshed }
        | none => { found.2 with paths := refreshed }
      else found.2
  | .clusterRedirect localSocket source remoteAddress now =>
      let found := (s.getPath localSocket source).2.getPath localSocket remoteAddress
      { found.2 with paths := redirect found.1 (newPriority s localSocket source) remoteAddress now s.paths }
  | .resetWithinScope scope inetAddressFamily =>
      { s with paths := resetScope scope inetAddressFamily s.paths }
  | .doPingAndKeepalive now => { s with paths := keepalive now s.paths }
  | .getPath l r => (s.getPath l r).2
  | .doPeriodicTasks referenced =>
      { s with
        objects := fun key => (s.objects key).filter fun p =>
          referenced key || decide (∃ slot ∈ s.paths, slot.p = some p) }

/-- A table as it is meant to be: the readers stop at the first empty entry. -/
structure Tidy (slots : List PeerPath) : Prop where
  packed : Packed PeerPath.p slots
  distinct : (values PeerPath.p slots).Nodup
  ranked : ∀ slot ∈ slots, 1 ≤ slot.priority

/-- A path learned while an entry is free is in the table after the call. -/
def Present (s : State) (op : Op) : Prop :=
  ∀ path, learned s op = some path → (∃ slot ∈ s.paths, slot.p = none) →
    path ∈ values PeerPath.p (step s op).paths

/-- A redirect that finds room in the table neither exceeds the greatest `long` nor is given the object of an entry
that it keeps, which then has another address than the one asked for. -/
def Orderly (s : State) : Op → Prop
  | .clusterRedirect localSocket source remoteAddress _ =>
      (∃ slot ∈ s.paths, keeps (newPriority s localSocket source) remoteAddress slot = false) →
        originPriority (s.getPath localSocket source).1 s.paths + 2 < 2 ^ 31 ∧
        ∀ slot ∈ s.paths, keeps (newPriority s localSocket source) remoteAddress slot = true →
          slot.p ≠ some ((s.getPath localSocket source).2.getPath localSocket remoteAddress).1
  | _ => True

section Tables

variable {slots others : List PeerPath}

/-- The entry without its time stamp. -/
def PeerPath.undated (slot : PeerPath) : Option PathObject × Int := (slot.p, slot.priority)

/-- The time stamps do not count. -/
theorem values_of_undated (same : slots.map PeerPath.undated = others.map PeerPath.undated) :
    values PeerPath.p slots = values PeerPath.p others := by
  have first := congrArg (List.filterMap Prod.fst) same
  rw [List.filterMap_map, List.filterMap_map] at first
  exact first

/-- A property of priorities that the entries share is not about time stamps either. -/
theorem priorities_of_undated (P : Int → Prop) (same : slots.map PeerPath.undated = others.map PeerPath.undated)
    (before : ∀ slot ∈ others, P slot.priority) : ∀ slot ∈ slots, P slot.priority := by
  have priority := congrArg (List.map Prod.snd) same
  rw [List.map_map, List.map_map] at priority
  intro slot member
  have moved : (Prod.snd ∘ PeerPath.undated) slot ∈ others.map (Prod.snd ∘ PeerPath.undated) :=
    priority ▸ List.mem_map_of_mem member
  obtain ⟨other, present, equal⟩ := List.mem_map.mp moved
  have holds := before other present
  rw [show other.priority = slot.priority from equal] at holds
  exact holds

/-- Nor are the gaps. -/
theorem packed_of_undated (same : slots.map PeerPath.undated = others.map PeerPath.undated)
    (packed : Packed PeerPath.p others) : Packed PeerPath.p slots := by
  have p : slots.map PeerPath.p = others.map PeerPath.p := by
    have first := congrArg (List.map Prod.fst) same
    rw [List.map_map, List.map_map] at first
    exact first
  rw [packed_iff_map, ← p] at packed
  exact packed_iff_map.mpr packed

theorem Tidy.of_undated (same : slots.map PeerPath.undated = others.map PeerPath.undated) (tidy : Tidy others) :
    Tidy slots := by
  constructor
  · exact packed_of_undated same tidy.packed
  · exact values_of_undated same ▸ tidy.distinct
  · exact priorities_of_undated (1 ≤ ·) same tidy.ranked

theorem refresh_undated (lastIn : PathObject → Int) (now : Int) (path : PathObject) (bond : Bool)
    (slots : List PeerPath) :
    (refresh lastIn now path bond slots).2.map PeerPath.undated = slots.map PeerPath.undated := by
  induction slots with
  | nil => rfl
  | cons slot slots ih =>
      unfold refresh
      split
      · rfl
      · split
        · rfl
        · split
          · rfl
          · simp only [List.map_cons, ih]

/-- The loop that looks for the path sees the whole of a packed table. -/
theorem refresh_absent {lastIn : PathObject → Int} {now : Int} {path : PathObject} {bond : Bool}
    (packed : Packed PeerPath.p slots) (absent : (refresh lastIn now path bond slots).1 = false) :
    path ∉ values PeerPath.p slots := by
  induction slots with
  | nil => exact List.not_mem_nil
  | cons slot slots ih =>
      unfold refresh at absent
      cases here : slot.p with
      | none =>
          rw [mem_values]
          intro ⟨other, member, holds⟩
          rcases List.mem_cons.mp member with same | later
          · rw [same, here] at holds
            cases holds
          · rw [(packed_cons_none here).mp packed other later] at holds
            cases holds
      | some p =>
          rw [here] at absent
          dsimp only at absent
          by_cases same : p = path
          · rw [if_pos same] at absent
            cases absent
          · rw [if_neg same] at absent
            by_cases alike : sameEndpoint path p ∧ alive lastIn now p ∧ ¬ bond
            · rw [if_pos alike] at absent
              cases absent
            · rw [if_neg alike] at absent
              rw [values_cons_some here, List.mem_cons, not_or]
              exact ⟨Ne.symm same, ih packed.tail absent⟩

/-- The index found has only filled entries before it. -/
theorem replacePath_some {lastIn : PathObject → Int} {now : Int} {path : PathObject} {i found : Nat}
    {oldest : Option Nat} {oldestAge : Nat}
    (result : replacePath lastIn now path slots i oldest oldestAge = some found) :
    oldest = some found ∨ ∃ before slot after, slots = before ++ slot :: after ∧ found = i + before.length ∧
      ∀ slot ∈ before, slot.p.isSome := by
  induction slots generalizing i oldest oldestAge with
  | nil => exact .inl result
  | cons slot slots ih =>
      have here : found = i → ∃ before other after, slot :: slots = before ++ other :: after ∧
          found = i + before.length ∧ ∀ slot ∈ before, slot.p.isSome :=
        fun same => ⟨[], slot, slots, rfl, same, fun _ member => absurd member List.not_mem_nil⟩
      unfold replacePath at result
      cases filled : slot.p with
      | none =>
          rw [filled] at result
          exact .inr (here (Option.some.inj result).symm)
      | some p =>
          have later : (∃ before other after, slots = before ++ other :: after ∧ found = i + 1 + before.length ∧
              ∀ slot ∈ before, slot.p.isSome) → ∃ before other after, slot :: slots = before ++ other :: after ∧
              found = i + before.length ∧ ∀ slot ∈ before, slot.p.isSome := by
            intro ⟨before, other, after, split, index, all⟩
            refine ⟨slot :: before, other, after, by rw [split, List.cons_append], ?_, ?_⟩
            · rw [index, List.length_cons]
              omega
            · intro earlier member
              rcases List.mem_cons.mp member with same | inner
              · rw [same, filled, Option.isSome_some]
              · exact all earlier inner
          rw [filled] at result
          dsimp only at result
          by_cases dead : sameEndpoint path p ∧ ¬ alive lastIn now p
          · rw [if_pos dead] at result
            exact .inr (here (Option.some.inj result).symm)
          · rw [if_neg dead] at result
            by_cases older : oldestAge < age lastIn now p
            · rw [if_pos older] at result
              rcases ih result with same | found
              · exact .inr (here (Option.some.inj same).symm)
              · exact .inr (later found)
            · rw [if_neg older] at result
              exact (ih result).imp_right later

/-- With a free entry the search does not fail. -/
theorem replacePath_isSome (lastIn : PathObject → Int) (now : Int) (path : PathObject)
    (free : ∃ slot ∈ slots, slot.p = none) (i : Nat) (oldest : Option Nat) (oldestAge : Nat) :
    (replacePath lastIn now path slots i oldest oldestAge).isSome := by
  induction slots generalizing i oldest oldestAge with
  | nil =>
      obtain ⟨slot, member, _⟩ := free
      cases member
  | cons slot slots ih =>
      unfold replacePath
      cases filled : slot.p with
      | none => rfl
      | some p =>
          have later : ∃ slot ∈ slots, slot.p = none := by
            obtain ⟨other, member, empty⟩ := free
            rcases List.mem_cons.mp member with same | inner
            · rw [same, filled] at empty
              cases empty
            · exact ⟨other, inner, empty⟩
          dsimp only
          split
          · rfl
          · split
            · exact ih later ..
            · exact ih later ..

/-- Learning puts the path in the place of one entry, if it finds one. -/
theorem learn_cases (lastIn : PathObject → Int) (now : Int) (path : PathObject) (slots : List PeerPath) :
    (learn lastIn now path slots = slots ∧ ∀ slot ∈ slots, slot.p ≠ none) ∨
      ∃ before slot after, slots = before ++ slot :: after ∧ (∀ slot ∈ before, slot.p.isSome) ∧
        learn lastIn now path slots = before ++ ⟨now, some path, 1⟩ :: after := by
  unfold learn
  cases result : replacePath lastIn now path slots 0 none 0 with
  | none =>
      refine .inl ⟨rfl, fun slot member empty => ?_⟩
      have found := replacePath_isSome lastIn now path ⟨slot, member, empty⟩ 0 none 0
      rw [result] at found
      cases found
  | some i =>
      rcases replacePath_some result with impossible | ⟨before, slot, after, split, index, all⟩
      · cases impossible
      · refine .inr ⟨before, slot, after, split, all, ?_⟩
        rw [Nat.zero_add] at index
        simp [split, index]

/-- Learning leaves the other entries. -/
theorem mem_learn {lastIn : PathObject → Int} {now : Int} {path : PathObject} {slot : PeerPath}
    (found : slot ∈ learn lastIn now path slots) : slot ∈ slots ∨ slot = ⟨now, some path, 1⟩ := by
  rcases learn_cases lastIn now path slots with ⟨unchanged, _⟩ | ⟨before, old, after, split, _, learnt⟩
  · rw [unchanged] at found
    exact .inl found
  · rw [learnt] at found
    rw [split]
    rcases List.mem_append.mp found with front | rest
    · exact .inl (List.mem_append_left _ front)
    · rcases List.mem_cons.mp rest with new | back
      · exact .inr new
      · exact .inl (List.mem_append_right _ (List.mem_cons_of_mem _ back))

theorem packed_learn {lastIn : PathObject → Int} {now : Int} {path : PathObject} (packed : Packed PeerPath.p slots) :
    Packed PeerPath.p (learn lastIn now path slots) := by
  rcases learn_cases lastIn now path slots with ⟨unchanged, _⟩ | ⟨before, old, after, split, all, learnt⟩
  · rw [unchanged]
    exact packed
  · rw [split, packed_append_filled all] at packed
    rw [learnt, packed_append_filled all]
    exact (packed_cons_some rfl).mpr packed.tail

theorem learn_priorities (P : Int → Prop) {lastIn : PathObject → Int} {now : Int} {path : PathObject} (one : P 1)
    (before : ∀ slot ∈ slots, P slot.priority) : ∀ slot ∈ learn lastIn now path slots, P slot.priority := by
  intro slot member
  rcases mem_learn member with old | new
  · exact before slot old
  · rw [new]
    exact one

theorem learn_tidy {lastIn : PathObject → Int} {now : Int} {path : PathObject} (tidy : Tidy slots)
    (absent : path ∉ values PeerPath.p slots) : Tidy (learn lastIn now path slots) := by
  rcases learn_cases lastIn now path slots with ⟨unchanged, _⟩ | ⟨before, slot, after, split, all, learnt⟩
  · rw [unchanged]
    exact tidy
  · have distinct := tidy.distinct
    rw [split] at distinct absent
    have remaining : (values PeerPath.p before ++ values PeerPath.p after).Sublist
        (values PeerPath.p (before ++ slot :: after)) := by
      rw [← values_append]
      exact ((List.sublist_cons_self slot after).append_left before).filterMap _
    constructor
    · exact packed_learn tidy.packed
    · rw [learnt, values_append, @values_cons_some _ _ PeerPath.p _ _ path rfl, List.nodup_middle, List.nodup_cons]
      exact ⟨fun member => absent (remaining.subset member), distinct.sublist remaining⟩
    · exact learn_priorities (1 ≤ ·) le_rfl tidy.ranked

theorem learn_present {lastIn : PathObject → Int} {now : Int} {path : PathObject}
    (free : ∃ slot ∈ slots, slot.p = none) : path ∈ values PeerPath.p (learn lastIn now path slots) := by
  rcases learn_cases lastIn now path slots with ⟨_, full⟩ | ⟨before, slot, after, _, _, learnt⟩
  · obtain ⟨slot, member, empty⟩ := free
    exact absurd empty (full slot member)
  · rw [learnt, values_append, @values_cons_some _ _ PeerPath.p _ _ path rfl]
    exact List.mem_append_right _ (List.mem_cons_self ..)

theorem keeps_filled {newPriority : Int} {remoteAddress : InetAddress} {slot : PeerPath}
    (kept : keeps newPriority remoteAddress slot = true) : slot.p.isSome := by
  unfold keeps at kept
  cases filled : slot.p with
  | none => simp [filled] at kept
  | some p => rfl

/-- A redirect that keeps every entry of a full table has no effect. -/
theorem redirect_full {np : PathObject} {newPriority : Int} {remoteAddress : InetAddress} {now : Int}
    (full : ¬ ∃ slot ∈ slots, keeps newPriority remoteAddress slot = false) :
    redirect np newPriority remoteAddress now slots = slots := by
  have all : ¬ (slots.filter (keeps newPriority remoteAddress)).length < slots.length := by
    intro shorter
    obtain ⟨slot, member, dropped⟩ := List.length_filter_lt_length_iff_exists.mp shorter
    exact full ⟨slot, member, Bool.eq_false_iff.mpr dropped⟩
  unfold redirect
  exact if_neg all

theorem redirect_room {np : PathObject} {newPriority : Int} {remoteAddress : InetAddress} {now : Int}
    (room : ∃ slot ∈ slots, keeps newPriority remoteAddress slot = false) :
    ∃ rest, redirect np newPriority remoteAddress now slots =
      slots.filter (keeps newPriority remoteAddress) ++
        ⟨now, some np, newPriority⟩ :: List.replicate rest PeerPath.new := by
  obtain ⟨slot, member, dropped⟩ := room
  have shorter : (slots.filter (keeps newPriority remoteAddress)).length < slots.length :=
    List.length_filter_lt_length_iff_exists.mpr ⟨slot, member, Bool.eq_false_iff.mp dropped⟩
  unfold redirect
  exact ⟨_, if_pos shorter⟩

/-- A redirect keeps entries, adds one and empties others. -/
theorem mem_redirect {np : PathObject} {newPriority : Int} {remoteAddress : InetAddress} {now : Int} {slot : PeerPath}
    (found : slot ∈ redirect np newPriority remoteAddress now slots) :
    slot ∈ slots ∨ slot = ⟨now, some np, newPriority⟩ ∨ slot = PeerPath.new := by
  by_cases room : ∃ slot ∈ slots, keeps newPriority remoteAddress slot = false
  · obtain ⟨rest, result⟩ := @redirect_room slots np newPriority remoteAddress now room
    rw [result] at found
    rcases List.mem_append.mp found with kept | added
    · exact .inl (List.mem_of_mem_filter kept)
    · rcases List.mem_cons.mp added with new | blank
      · exact .inr (.inl new)
      · exact .inr (.inr (List.eq_of_mem_replicate blank))
  · rw [redirect_full room] at found
    exact .inl found

theorem packed_redirect {np : PathObject} {newPriority : Int} {remoteAddress : InetAddress} {now : Int}
    (packed : Packed PeerPath.p slots) : Packed PeerPath.p (redirect np newPriority remoteAddress now slots) := by
  by_cases room : ∃ slot ∈ slots, keeps newPriority remoteAddress slot = false
  · obtain ⟨rest, result⟩ := @redirect_room slots np newPriority remoteAddress now room
    rw [result, packed_append_filled fun slot member => keeps_filled (List.of_mem_filter member)]
    exact (packed_cons_some rfl).mpr (packed_replicate rfl rest)
  · rw [redirect_full room]
    exact packed

theorem redirect_priorities (P : Int → Prop) {np : PathObject} {newPriority : Int} {remoteAddress : InetAddress}
    {now : Int} (one : P 1) (new : P newPriority) (before : ∀ slot ∈ slots, P slot.priority) :
    ∀ slot ∈ redirect np newPriority remoteAddress now slots, P slot.priority := by
  intro slot member
  rcases mem_redirect member with old | added | zeroed
  · exact before slot old
  · rw [added]
    exact new
  · rw [zeroed]
    exact one

theorem redirect_tidy_iff {np : PathObject} {newPriority : Int} {remoteAddress : InetAddress} {now : Int}
    (tidy : Tidy slots) (room : ∃ slot ∈ slots, keeps newPriority remoteAddress slot = false) :
    Tidy (redirect np newPriority remoteAddress now slots) ↔
      1 ≤ newPriority ∧ ∀ slot ∈ slots, keeps newPriority remoteAddress slot = true → slot.p ≠ some np := by
  obtain ⟨rest, result⟩ := @redirect_room slots np newPriority remoteAddress now room
  have contents : values PeerPath.p (redirect np newPriority remoteAddress now slots) =
      values PeerPath.p (slots.filter (keeps newPriority remoteAddress)) ++ [np] := by
    rw [result, values_append, @values_cons_some _ _ PeerPath.p _ _ np rfl, values_replicate rfl]
  have old : (values PeerPath.p (slots.filter (keeps newPriority remoteAddress))).Nodup :=
    tidy.distinct.sublist (List.filter_sublist.filterMap _)
  have fresh : np ∉ values PeerPath.p (slots.filter (keeps newPriority remoteAddress)) ↔
      ∀ slot ∈ slots, keeps newPriority remoteAddress slot = true → slot.p ≠ some np := by
    simp only [mem_values, List.mem_filter, not_exists, not_and, and_imp, ne_eq]
  constructor
  · intro after
    constructor
    · apply after.ranked ⟨now, some np, newPriority⟩
      rw [result]
      exact List.mem_append_right _ (List.mem_cons_self ..)
    · have distinct := after.distinct
      rw [contents, List.nodup_middle, List.append_nil, List.nodup_cons] at distinct
      exact fresh.mp distinct.1
  · intro ⟨positive, absent⟩
    refine ⟨packed_redirect tidy.packed, ?_, redirect_priorities (1 ≤ ·) le_rfl positive tidy.ranked⟩
    rw [contents, List.nodup_middle, List.append_nil, List.nodup_cons]
    exact ⟨fresh.mpr absent, old⟩

/-- With room the path is there afterwards. -/
theorem redirect_present {np : PathObject} {newPriority : Int} {remoteAddress : InetAddress} {now : Int}
    (free : ∃ slot ∈ slots, slot.p = none) :
    np ∈ values PeerPath.p (redirect np newPriority remoteAddress now slots) := by
  obtain ⟨slot, member, empty⟩ := free
  have dropped : keeps newPriority remoteAddress slot = false := by
    unfold keeps
    rw [empty]
  obtain ⟨rest, result⟩ := @redirect_room slots np newPriority remoteAddress now ⟨slot, member, dropped⟩
  rw [result, values_append, @values_cons_some _ _ PeerPath.p _ _ np rfl]
  exact List.mem_append_right _ (List.mem_cons_self ..)

theorem resetScope_undated (scope : InetAddress.IpScope) (inetAddressFamily : InetAddress.Family)
    (slots : List PeerPath) :
    (resetScope scope inetAddressFamily slots).map PeerPath.undated = slots.map PeerPath.undated := by
  induction slots with
  | nil => rfl
  | cons slot slots ih =>
      unfold resetScope
      split
      · rfl
      · rw [List.map_cons, List.map_cons, ih]
        split <;> rfl

/-- Deleting and filling gaps packs the table, brings in no path and keeps their order. -/
theorem clean_spec (current : PeerPath → Bool) (n : Nat) (length : slots.length = n) :
    Packed PeerPath.p (clean current n slots) ∧
      (values PeerPath.p (clean current n slots)).Sublist (values PeerPath.p slots) ∧
      ∀ slot ∈ clean current n slots, slot ∈ slots ∨ slot = PeerPath.new := by
  induction n generalizing slots with
  | zero =>
      rw [List.length_eq_zero_iff.mp length]
      exact ⟨packed_nil, List.Sublist.refl _, fun slot member => .inl member⟩
  | succ n ih =>
      cases slots with
      | nil => cases length
      | cons slot slots =>
          have remaining : slots.length = n := Nat.succ.inj length
          unfold clean
          by_cases stays : slot.p.isSome ∧ current slot
          · rw [if_pos stays]
            obtain ⟨packed, order, members⟩ := ih remaining
            obtain ⟨path, filled⟩ := Option.isSome_iff_exists.mp stays.1
            refine ⟨(packed_cons_some stays.1).mpr packed, ?_, ?_⟩
            · rw [values_cons_some filled, values_cons_some filled]
              exact order.cons_cons path
            · intro other member
              rcases List.mem_cons.mp member with same | later
              · exact .inl (same ▸ List.mem_cons_self ..)
              · exact (members other later).imp_left (List.mem_cons_of_mem _)
          · rw [if_neg stays]
            have shorter : (values PeerPath.p slots).Sublist (values PeerPath.p (slot :: slots)) :=
              (List.sublist_cons_self slot slots).filterMap _
            cases taken : takeFirst PeerPath.p PeerPath.new slots with
            | none =>
                have empty := takeFirst_none taken
                obtain ⟨_, order, members⟩ := ih remaining
                have here : (if slot.p.isSome then PeerPath.new else slot).p = none := by
                  split
                  · rfl
                  · exact Option.not_isSome_iff_eq_none.mp (by assumption)
                refine ⟨(packed_cons_none here).mpr ?_, ?_, ?_⟩
                · intro other member
                  rcases members other member with old | new
                  · exact empty other old
                  · rw [new]
                    rfl
                · dsimp only
                  rw [values_cons_none here]
                  exact order.trans shorter
                · intro other member
                  rcases List.mem_cons.mp member with same | later
                  · rw [same]
                    split
                    · exact .inr rfl
                    · exact .inl (List.mem_cons_self ..)
                  · exact (members other later).imp_left (List.mem_cons_of_mem _)
            | some pair =>
                obtain ⟨first, rest⟩ := pair
                obtain ⟨source, filled, same, order, kept⟩ := @takeFirst_some _ _ PeerPath.p _ _ rfl _ _ taken
                obtain ⟨packed, inner, members⟩ := ih (same.trans remaining)
                obtain ⟨path, there⟩ := Option.isSome_iff_exists.mp filled
                refine ⟨(packed_cons_some filled).mpr packed, ?_, ?_⟩
                · refine List.Sublist.trans ?_ shorter
                  rw [order, values_cons_some there, values_cons_some there]
                  exact inner.cons_cons path
                · intro other member
                  rcases List.mem_cons.mp member with same | later
                  · exact .inl (same ▸ List.mem_cons_of_mem _ source)
                  · rcases members other later with old | new
                    · exact (kept other old).imp_left (List.mem_cons_of_mem _)
                    · exact .inr new

theorem keepalive_priorities (P : Int → Prop) (one : P 1) (before : ∀ slot ∈ slots, P slot.priority) (now : Int) :
    ∀ slot ∈ keepalive now slots, P slot.priority := by
  intro slot member
  rcases (clean_spec _ slots.length rfl).2.2 slot member with old | new
  · exact before slot old
  · rw [new]
    exact one

theorem keepalive_tidy (tidy : Tidy slots) (now : Int) : Tidy (keepalive now slots) := by
  obtain ⟨packed, order, _⟩ := @clean_spec slots
    (fun slot => now - slot.lr < pathExpiration ∧ slot.priority = maxPriority slots) slots.length rfl
  exact ⟨packed, tidy.distinct.sublist order, keepalive_priorities (1 ≤ ·) le_rfl tidy.ranked now⟩

end Tables

/-- No priority is more than the greatest `long`. -/
def Bounded (slots : List PeerPath) : Prop := ∀ slot ∈ slots, slot.priority < 2 ^ 31

theorem longAdd_lt (first second : Int) : longAdd first second < 2 ^ 31 := by
  have upper := @Int.bmod_lt (first + second) (2 ^ 32) (by decide)
  exact lt_of_lt_of_le upper (by decide)

/-- The sum is positive only if it fits. -/
theorem one_le_longAdd_iff {first : Int} (positive : 1 ≤ first) (bounded : first < 2 ^ 31) :
    1 ≤ longAdd first 2 ↔ first + 2 < 2 ^ 31 := by
  unfold longAdd
  rw [Int.bmod_def]
  split <;> omega

theorem originPriority_mem (originatingPath : PathObject) (slots : List PeerPath) :
    originPriority originatingPath slots = 1 ∨
      ∃ slot ∈ slots, originPriority originatingPath slots = slot.priority := by
  induction slots with
  | nil => exact .inl rfl
  | cons slot slots ih =>
      unfold originPriority
      split
      · exact .inl rfl
      · split
        · exact .inr ⟨slot, List.mem_cons_self .., rfl⟩
        · exact ih.imp_right fun ⟨other, member, same⟩ => ⟨other, List.mem_cons_of_mem _ member, same⟩

theorem originPriority_range {slots : List PeerPath} (ranked : ∀ slot ∈ slots, 1 ≤ slot.priority)
    (bounded : Bounded slots) (originatingPath : PathObject) :
    1 ≤ originPriority originatingPath slots ∧ originPriority originatingPath slots < 2 ^ 31 := by
  rcases originPriority_mem originatingPath slots with one | ⟨slot, member, same⟩
  · rw [one]
    decide
  · rw [same]
    exact ⟨ranked slot member, bounded slot member⟩

/-- What a received packet does to the table. -/
theorem received_cases (s : State) (localSocket : BitVec 64) (source : InetAddress) (hops : Nat)
    (ok usable bond : Bool) (lastIn : PathObject → Int) (now : Int) :
    ∃ others, others.map PeerPath.undated = s.paths.map PeerPath.undated ∧
      ((learned s (.received localSocket source hops ok usable bond lastIn now) = none ∧
          (step s (.received localSocket source hops ok usable bond lastIn now)).paths = others) ∨
        ∃ path, learned s (.received localSocket source hops ok usable bond lastIn now) = some path ∧
          (refresh lastIn now path bond s.paths).1 = false ∧
          (step s (.received localSocket source hops ok usable bond lastIn now)).paths =
            learn lastIn now path others) := by
  by_cases direct : hops = 0
  · refine ⟨_, refresh_undated lastIn now (s.getPath localSocket source).1 bond s.paths, ?_⟩
    cases result : learned s (.received localSocket source hops ok usable bond lastIn now) with
    | none =>
        refine .inl ⟨rfl, ?_⟩
        simp only [step, if_pos direct, result]
    | some path =>
        have learnt := result
        unfold learned at learnt
        dsimp only at learnt
        split at learnt
        · rename_i conditions
          have same := Option.some.inj learnt
          refine .inr ⟨path, rfl, ?_, ?_⟩
          · rw [← same]
            exact Bool.eq_false_iff.mpr conditions.2.1
          · simp only [step, if_pos direct, result]
        · cases learnt
  · refine ⟨s.paths, rfl, .inl ⟨?_, ?_⟩⟩
    · unfold learned
      exact if_neg fun conditions => direct conditions.1
    · simp only [step, if_neg direct]
      rfl

/-- No call lets a priority exceed a `long`. -/
theorem step_bounded (s : State) (op : Op) (bounded : Bounded s.paths) : Bounded (step s op).paths := by
  cases op with
  | received localSocket source hops ok usable bond lastIn now =>
      obtain ⟨others, undated, ⟨_, result⟩ | ⟨path, _, _, result⟩⟩ :=
        received_cases s localSocket source hops ok usable bond lastIn now
      · rw [result]
        exact priorities_of_undated (· < 2 ^ 31) undated bounded
      · rw [result]
        exact learn_priorities (· < 2 ^ 31) (by decide) (priorities_of_undated (· < 2 ^ 31) undated bounded)
  | clusterRedirect localSocket source remoteAddress now =>
      exact redirect_priorities (· < 2 ^ 31) (by decide) (longAdd_lt ..) bounded
  | resetWithinScope scope inetAddressFamily =>
      exact priorities_of_undated (· < 2 ^ 31) (resetScope_undated scope inetAddressFamily s.paths) bounded
  | doPingAndKeepalive now => exact keepalive_priorities (· < 2 ^ 31) (by decide) bounded now
  | getPath l r => exact bounded
  | doPeriodicTasks referenced => exact bounded

/-- Among all calls only a redirect can spoil the table. -/
theorem step_tidy_iff (s : State) (op : Op) (bounded : Bounded s.paths) (tidy : Tidy s.paths) :
    Tidy (step s op).paths ↔ Orderly s op := by
  cases op with
  | received localSocket source hops ok usable bond lastIn now =>
      refine ⟨fun _ => trivial, fun _ => ?_⟩
      obtain ⟨others, undated, ⟨_, result⟩ | ⟨path, _, absent, result⟩⟩ :=
        received_cases s localSocket source hops ok usable bond lastIn now
      · rw [result]
        exact tidy.of_undated undated
      · rw [result]
        apply learn_tidy (tidy.of_undated undated)
        rw [values_of_undated undated]
        exact refresh_absent tidy.packed absent
  | clusterRedirect localSocket source remoteAddress now =>
      have range := originPriority_range tidy.ranked bounded (s.getPath localSocket source).1
      have fits : 1 ≤ newPriority s localSocket source ↔
          originPriority (s.getPath localSocket source).1 s.paths + 2 < 2 ^ 31 :=
        one_le_longAdd_iff range.1 range.2
      by_cases room : ∃ slot ∈ s.paths, keeps (newPriority s localSocket source) remoteAddress slot = false
      · have exactly := @redirect_tidy_iff s.paths
          ((s.getPath localSocket source).2.getPath localSocket remoteAddress).1
          (newPriority s localSocket source) remoteAddress now tidy room
        constructor
        · intro after _
          obtain ⟨positive, absent⟩ := exactly.mp after
          exact ⟨fits.mp positive, absent⟩
        · intro orderly
          obtain ⟨small, absent⟩ := orderly room
          exact exactly.mpr ⟨fits.mpr small, absent⟩
      · have unchanged : (step s (.clusterRedirect localSocket source remoteAddress now)).paths = s.paths :=
          redirect_full room
        rw [unchanged]
        exact ⟨fun _ found => absurd found room, fun _ => tidy⟩
  | resetWithinScope scope inetAddressFamily =>
      exact ⟨fun _ => trivial, fun _ => tidy.of_undated (resetScope_undated scope inetAddressFamily s.paths)⟩
  | doPingAndKeepalive now => exact ⟨fun _ => trivial, fun _ => keepalive_tidy tidy now⟩
  | getPath l r => exact ⟨fun _ => trivial, fun _ => tidy⟩
  | doPeriodicTasks referenced => exact ⟨fun _ => trivial, fun _ => tidy⟩

theorem values_free {slots others : List PeerPath} (same : slots.map PeerPath.undated = others.map PeerPath.undated)
    (free : ∃ slot ∈ others, slot.p = none) : ∃ slot ∈ slots, slot.p = none := by
  obtain ⟨slot, member, empty⟩ := free
  have moved : slot.undated ∈ slots.map PeerPath.undated := same ▸ List.mem_map_of_mem member
  obtain ⟨other, present, equal⟩ := List.mem_map.mp moved
  exact ⟨other, present, (congrArg Prod.fst equal).trans empty⟩

/-- A path that is learned while there is a free entry is there after the call. -/
theorem step_present (s : State) (op : Op) : Present s op := by
  intro path learnt free
  cases op with
  | received localSocket source hops ok usable bond lastIn now =>
      obtain ⟨others, undated, ⟨nothing, _⟩ | ⟨other, some, _, result⟩⟩ :=
        received_cases s localSocket source hops ok usable bond lastIn now
      · rw [nothing] at learnt
        cases learnt
      · rw [some] at learnt
        rw [result, ← Option.some.inj learnt]
        exact learn_present (values_free undated free)
  | clusterRedirect localSocket source remoteAddress now =>
      rw [← Option.some.inj learnt]
      exact redirect_present free
  | resetWithinScope scope inetAddressFamily => cases learnt
  | doPingAndKeepalive now => cases learnt
  | getPath l r => cases learnt
  | doPeriodicTasks referenced => cases learnt

/-- Nothing but a learned path enters the table. -/
theorem step_values (s : State) (op : Op) {path : PathObject} (member : path ∈ values PeerPath.p (step s op).paths) :
    path ∈ values PeerPath.p s.paths ∨ learned s op = some path := by
  cases op with
  | received localSocket source hops ok usable bond lastIn now =>
      obtain ⟨others, undated, ⟨_, result⟩ | ⟨other, some, _, result⟩⟩ :=
        received_cases s localSocket source hops ok usable bond lastIn now
      · rw [result, values_of_undated undated] at member
        exact .inl member
      · rw [result] at member
        rw [← values_of_undated undated, some]
        rcases learn_cases lastIn now other others with ⟨unchanged, _⟩ | ⟨before, slot, after, split, _, learnt⟩
        · rw [unchanged] at member
          exact .inl member
        · rw [learnt, values_append, @values_cons_some _ _ PeerPath.p _ _ other rfl] at member
          rw [split, values_append]
          rcases List.mem_append.mp member with front | back
          · exact .inl (List.mem_append_left _ front)
          · rcases List.mem_cons.mp back with same | later
            · exact .inr (congrArg _ same.symm)
            · exact .inl (List.mem_append_right _ (((List.sublist_cons_self slot after).filterMap _).subset later))
  | clusterRedirect localSocket source remoteAddress now =>
      by_cases room : ∃ slot ∈ s.paths, keeps (newPriority s localSocket source) remoteAddress slot = false
      · obtain ⟨rest, result⟩ := @redirect_room s.paths
          ((s.getPath localSocket source).2.getPath localSocket remoteAddress).1
          (newPriority s localSocket source) remoteAddress now room
        have table : (step s (.clusterRedirect localSocket source remoteAddress now)).paths = _ := result
        rw [table, values_append, @values_cons_some _ _ PeerPath.p _ _ _ rfl, values_replicate rfl] at member
        rcases List.mem_append.mp member with kept | added
        · exact .inl ((List.filter_sublist.filterMap _).subset kept)
        · exact .inr (congrArg _ (List.mem_singleton.mp added).symm)
      · have table : (step s (.clusterRedirect localSocket source remoteAddress now)).paths = s.paths :=
          redirect_full room
        rw [table] at member
        exact .inl member
  | resetWithinScope scope inetAddressFamily =>
      have same := values_of_undated (resetScope_undated scope inetAddressFamily s.paths)
      exact .inl (same ▸ member)
  | doPingAndKeepalive now => exact .inl ((clean_spec _ s.paths.length rfl).2.1.subset member)
  | getPath l r => exact .inl member
  | doPeriodicTasks referenced => exact .inl member

/-- Every object is found under its key, those in the table included. -/
structure Canonical (s : State) : Prop where
  keyed : ∀ key path, s.objects key = some path → path.key = key
  found : ∀ path ∈ values PeerPath.p s.paths, s.objects path.key = some path

theorem getPath_keeps (s : State) (l : BitVec 64) (r : InetAddress) {key : Path.HashKey} {path : PathObject}
    (present : s.objects key = some path) : (s.getPath l r).2.objects key = some path := by
  unfold State.getPath getPath
  by_cases same : key = Path.hashKey l r
  · dsimp only
    rw [← same, Function.update_self, present, Option.getD_some]
  · exact (Function.update_of_ne same ..).trans present

theorem getPath_keyed {s : State} (keyed : ∀ key path, s.objects key = some path → path.key = key)
    (l : BitVec 64) (r : InetAddress) : (s.getPath l r).1.key = Path.hashKey l r := by
  unfold State.getPath getPath
  dsimp only
  cases present : s.objects (Path.hashKey l r) with
  | none => rfl
  | some path => exact keyed _ path present

theorem getPath_found (s : State) (l : BitVec 64) (r : InetAddress) :
    (s.getPath l r).2.objects (Path.hashKey l r) = some (s.getPath l r).1 :=
  Function.update_self ..

theorem getPath_canonical {s : State} (canonical : Canonical s) (l : BitVec 64) (r : InetAddress) :
    Canonical (s.getPath l r).2 := by
  refine ⟨fun key path present => ?_, fun path member => getPath_keeps s l r (canonical.found path member)⟩
  by_cases same : key = Path.hashKey l r
  · rw [same, getPath_found, Option.some_inj] at present
    rw [← present, same, getPath_keyed canonical.keyed]
  · exact canonical.keyed key path ((Function.update_of_ne same ..).symm.trans present)

/-- The table may change as long as what is new in it was looked up. -/
theorem Canonical.with_paths {s t : State} (canonical : Canonical s) (objects : t.objects = s.objects)
    (found : ∀ path ∈ values PeerPath.p t.paths,
      path ∈ values PeerPath.p s.paths ∨ s.objects path.key = some path) : Canonical t := by
  rw [← objects] at found
  refine ⟨objects ▸ canonical.keyed, fun path member => ?_⟩
  rcases found path member with old | new
  · rw [objects]
    exact canonical.found path old
  · exact new

theorem step_canonical (s : State) (op : Op) (canonical : Canonical s) : Canonical (step s op) := by
  have members := @step_values s op
  cases op with
  | received localSocket source hops ok usable bond lastIn now =>
      have looked := getPath_canonical canonical localSocket source
      have objects : (step s (.received localSocket source hops ok usable bond lastIn now)).objects =
          (s.getPath localSocket source).2.objects := by
        simp only [step]
        split
        · split <;> rfl
        · rfl
      refine looked.with_paths objects fun path member => (members member).imp_right fun learnt => ?_
      unfold learned at learnt
      dsimp only at learnt
      split at learnt
      · rw [← Option.some.inj learnt, getPath_keyed canonical.keyed]
        exact getPath_found ..
      · cases learnt
  | clusterRedirect localSocket source remoteAddress now =>
      have origin := getPath_canonical canonical localSocket source
      have looked := getPath_canonical origin localSocket remoteAddress
      refine looked.with_paths rfl fun path member => (members member).imp_right fun learnt => ?_
      rw [← Option.some.inj learnt, getPath_keyed origin.keyed]
      exact getPath_found ..
  | resetWithinScope scope inetAddressFamily =>
      exact canonical.with_paths rfl fun path member => (members member).imp_right fun learnt => nomatch learnt
  | doPingAndKeepalive now =>
      exact canonical.with_paths rfl fun path member => (members member).imp_right fun learnt => nomatch learnt
  | getPath l r => exact getPath_canonical canonical l r
  | doPeriodicTasks referenced =>
      constructor
      · intro key path present
        exact canonical.keyed key path (Option.filter_eq_some_iff.mp present).1
      · intro path member
        have inTable : ∃ slot ∈ s.paths, slot.p = some path := mem_values.mp member
        refine Option.filter_eq_some_iff.mpr ⟨canonical.found path member, ?_⟩
        rw [decide_eq_true inTable, Bool.or_true]

/-- In every state reached two entries with one key have the same object, so comparing objects compares pointers. -/
theorem run_same_object (maxPaths : Nat) (ops : List Op) {first second : PathObject}
    (one : first ∈ values PeerPath.p (run step (start maxPaths) ops).paths)
    (two : second ∈ values PeerPath.p (run step (start maxPaths) ops).paths) (key : first.key = second.key) :
    first = second := by
  have initially : Canonical (start maxPaths) := by
    refine ⟨fun _ _ present => (nomatch present), fun path member => ?_⟩
    have nothing : values PeerPath.p (start maxPaths).paths = [] := values_replicate rfl maxPaths
    rw [nothing] at member
    cases member
  have canonical : Canonical (run step (start maxPaths) ops) := run_preserves step_canonical initially
  have found := canonical.found first one
  rw [key, canonical.found second two] at found
  exact (Option.some.inj found).symm

theorem ipsEqual2_self (addr : InetAddress) : addr.ipsEqual2 addr = true := by
  unfold InetAddress.ipsEqual2
  cases addr with
  | nil => rfl
  | v4 ip port => exact decide_eq_true (Eq.refl ip)
  | v6 ip port => exact decide_eq_true (Eq.refl (ip >>> 64))

/-- An entry that a redirect keeps although it holds the object for the new address was made for another address
with the same key. -/
theorem kept_twin {s : State} (canonical : Canonical s) {newPriority : Int} {l : BitVec 64} {r : InetAddress}
    {slot : PeerPath} (kept : keeps newPriority r slot = true) (given : slot.p = some (s.getPath l r).1) :
    (s.getPath l r).1 ≠ ⟨l, r⟩ ∧ (s.getPath l r).1.key = Path.hashKey l r := by
  have keyed := getPath_keyed canonical.keyed l r
  refine ⟨fun same => ?_, keyed⟩
  unfold keeps at kept
  rw [given, same] at kept
  simp [ipsEqual2_self r] at kept

/-- The table is tidy and a reader that stops at the first empty entry sees all of it. -/
def Legible (s : State) : Prop :=
  Tidy s.paths ∧
    (s.paths.takeWhile fun slot => slot.p.isSome) = s.paths.filter fun slot => slot.p.isSome

theorem legible_iff (s : State) : Legible s ↔ Tidy s.paths :=
  ⟨And.left, fun tidy => ⟨tidy, tidy.packed.takeWhile_eq_filter⟩⟩

theorem start_tidy (maxPaths : Nat) : Tidy (start maxPaths).paths := by
  have nothing : values PeerPath.p (start maxPaths).paths = [] := values_replicate rfl maxPaths
  refine ⟨packed_replicate rfl maxPaths, nothing ▸ List.nodup_nil, fun slot member => ?_⟩
  rw [List.eq_of_mem_replicate member]
  exact le_rfl

theorem peer_paths_iff (maxPaths : Nat) (ops : List Op) :
    (Throughout step Legible (start maxPaths) ops ∧ Along step Present (start maxPaths) ops) ↔
      Along step Orderly (start maxPaths) ops := by
  have always : ∀ (s : State) (ops : List Op), Along step Present s ops := by
    intro s ops
    induction ops generalizing s with
    | nil => trivial
    | cons op ops ih => exact ⟨step_present s op, ih (step s op)⟩
  have bounded : Bounded (start maxPaths).paths := by
    intro slot member
    rw [List.eq_of_mem_replicate member]
    decide
  have exactly : Throughout step Legible (start maxPaths) ops ↔ Along step Orderly (start maxPaths) ops := by
    refine throughout_iff_along_of_invariant step_bounded ?_ bounded ((legible_iff _).mpr (start_tidy maxPaths))
    intro s op bounded legible
    rw [legible_iff]
    exact step_tidy_iff s op bounded legible.1
  exact ⟨fun both => exactly.mp both.1, fun orderly => ⟨exactly.mpr orderly, always _ ops⟩⟩

/-- Two addresses with one key, 16.0.0.1 with port 0x2710 and an IPv6 address without a port. -/
def twins : InetAddress × InetAddress :=
  (.v6 0x1000000100000000_2710000000000000 0, .v4 0x10000001 0x2710)

/-- Redirected to both of them, the peer has the object of the first in two entries. -/
theorem redirected_twice_to_one_object :
    ¬ ∀ (maxPaths : Nat) (ops : List Op),
      Throughout step Legible (start maxPaths) ops ∧ Along step Present (start maxPaths) ops := by
  intro all
  have holds := (all 64 [.clusterRedirect 1 (.v4 0x10000002 0x2710) twins.1 1000,
    .clusterRedirect 1 (.v4 0x10000002 0x2710) twins.2 1000]).1.last
  have twice : ¬ (values PeerPath.p (run step (start 64) [.clusterRedirect 1 (.v4 0x10000002 0x2710) twins.1 1000,
    .clusterRedirect 1 (.v4 0x10000002 0x2710) twins.2 1000]).paths).Nodup := by
    decide +kernel
  exact twice holds.1.distinct

end ZeroTierNode.PeerPaths

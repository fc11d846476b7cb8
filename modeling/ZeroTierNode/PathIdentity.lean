import ZeroTierNode.PeerPaths
import ZeroTierNode.TrustedPaths

/-!
The paths that `Topology::getPath` gives out, each an object of its own, and what the
words of a `Path::HashKey` leave of the request for which a path was made.
-/

namespace ZeroTierNode.PathIdentity
open Library.Bytes Library.Runs
open TrustedPaths (PathNetwork)

/-- A `Path`, with the number of its allocation in place of its address in memory. -/
structure KeptPath where
  pointer : Nat
  localSocket : BitVec 64
  address : PathNetwork
deriving DecidableEq, Repr

structure State where
  /-- `Topology::_paths`. -/
  paths : Path.HashKey → Option KeptPath
  allocated : Nat

def State.new : State := ⟨fun _ => none, 0⟩

/-- The constructor of `Path::HashKey`; it does not read the flow information and the scope. -/
def hashKey (l : BitVec 64) (r : PathNetwork) : Path.HashKey := Path.hashKey l r.address

def State.getPath (s : State) (l : BitVec 64) (r : PathNetwork) : KeptPath × State :=
  match s.paths (hashKey l r) with
  | some p => (p, s)
  | none =>
      let p : KeptPath := ⟨s.allocated, l, r⟩
      (p, ⟨Function.update s.paths (hashKey l r) (some p), s.allocated + 1⟩)

/-- The part of `Topology::doPeriodicTasks` about paths; `referenced` tells which have more than one reference. -/
def State.doPeriodicTasks (s : State) (referenced : Path.HashKey → Bool) : State :=
  { s with paths := fun key => (s.paths key).filter fun _ => referenced key }

inductive Event
  | getPath (l : BitVec 64) (r : PathNetwork)
  | doPeriodicTasks (referenced : Path.HashKey → Bool)

def step (s : State) : Event → State
  | .getPath l r => (s.getPath l r).2
  | .doPeriodicTasks referenced => s.doPeriodicTasks referenced

section Keys

/-- Four bytes of address, four zeros, two bytes of port and six zeros: what the key of an IPv4 address reads of it. -/
def spread (ip : BitVec 32) (port : BitVec 16) : BitVec 128 :=
  wordOf 128 ((wordBytes 4 ip ++ List.replicate 4 0) ++ (wordBytes 2 port ++ List.replicate 6 0))

/-- The IPv6 address and port that have the same key. -/
def spelled : PathNetwork → BitVec 128 × BitVec 16
  | .unset => (0, 0)
  | .inet ip port => (spread ip port, 0)
  | .inet6 ip port _ _ => (ip, port)

/-- The port of an IPv6 address, in the upper half of the word of the local socket. -/
def portWord (port : BitVec 16) : BitVec 64 := Path.littleEndian (wordBytes 2 port) <<< 32

/-- Two requests with one key: the same sixteen bytes, and local sockets that differ as the ports do. -/
def SameKey (l : BitVec 64) (r : PathNetwork) (m : BitVec 64) (q : PathNetwork) : Prop :=
  (spelled r).1 = (spelled q).1 ∧ portWord (spelled r).2 ^^^ l = portWord (spelled q).2 ^^^ m

theorem littleEndian_zeros (bytes : List Byte) (count : Nat) :
    Path.littleEndian (bytes ++ List.replicate count 0) = Path.littleEndian bytes := by
  have value : bigEndianValue (bytes ++ List.replicate count 0).reverse = bigEndianValue bytes.reverse := by
    rw [List.reverse_append, List.reverse_replicate]
    induction count with
    | zero => rfl
    | succ count ih =>
        rw [List.replicate_succ, List.cons_append]
        exact ih
  exact congrArg (BitVec.ofNat 64) value

theorem littleEndian_inj {bytes others : List Byte} (length : bytes.length = 8) (others_length : others.length = 8)
    (same : Path.littleEndian bytes = Path.littleEndian others) : bytes = others := by
  have back : ∀ list : List Byte, list.length = 8 → wordBytes 8 (Path.littleEndian list) = list.reverse := by
    intro list eight
    have whole := wordBytes_wordOf list.reverse
    rw [List.length_reverse, eight] at whole
    exact whole
  have reversed : bytes.reverse = others.reverse := by
    rw [← back bytes length, same, back others others_length]
  exact List.reverse_inj.mp reversed

theorem spread_bytes (ip : BitVec 32) (port : BitVec 16) :
    wordBytes 16 (spread ip port) =
      (wordBytes 4 ip ++ List.replicate 4 0) ++ (wordBytes 2 port ++ List.replicate 6 0) := by
  have whole := wordBytes_wordOf ((wordBytes 4 ip ++ List.replicate 4 0) ++ (wordBytes 2 port ++ List.replicate 6 0))
  simp only [List.length_append, wordBytes_length, List.length_replicate] at whole
  exact whole

theorem hashKey_spelled (l : BitVec 64) (r : PathNetwork) :
    hashKey l r = Path.hashKey l (.v6 (spelled r).1 (spelled r).2) := by
  cases r with
  | unset =>
      simp only [hashKey, PathNetwork.address, spelled, Path.hashKey, Path.HashKey.mk.injEq]
      exact ⟨by decide, by decide, (BitVec.zero_xor (x := l)).symm⟩
  | inet ip port =>
      have first : ((wordBytes 16 (spread ip port)).take 8) = wordBytes 4 ip ++ List.replicate 4 0 := by
        rw [spread_bytes]
        exact List.take_left' (by simp)
      have second : ((wordBytes 16 (spread ip port)).drop 8) = wordBytes 2 port ++ List.replicate 6 0 := by
        rw [spread_bytes]
        exact List.drop_left' (by simp)
      have bare : portWord 0 ^^^ l = l := BitVec.zero_xor
      simp only [hashKey, PathNetwork.address, spelled, Path.hashKey, Path.HashKey.mk.injEq]
      rw [first, second, littleEndian_zeros, littleEndian_zeros]
      exact ⟨rfl, rfl, bare.symm⟩
  | inet6 ip port flowinfo scopeId => rfl

theorem hashKey_eq_iff (l : BitVec 64) (r : PathNetwork) (m : BitVec 64) (q : PathNetwork) :
    hashKey l r = hashKey m q ↔ SameKey l r m q := by
  rw [hashKey_spelled, hashKey_spelled]
  simp only [Path.hashKey, Path.HashKey.mk.injEq]
  constructor
  · intro same
    have first := littleEndian_inj (by simp) (by simp) same.1
    have second := littleEndian_inj (by simp) (by simp) same.2.1
    have whole : wordBytes 16 (spelled r).1 = wordBytes 16 (spelled q).1 := by
      rw [← List.take_append_drop 8 (wordBytes 16 (spelled r).1), first, second, List.take_append_drop]
    have address : (spelled r).1 = (spelled q).1 := by
      rw [← wordOf_wordBytes 16 (spelled r).1 (by decide), whole, wordOf_wordBytes 16 _ (by decide)]
    exact ⟨address, same.2.2⟩
  · intro same
    rw [same.1]
    exact ⟨rfl, rfl, same.2⟩

end Keys

section Runs

/-- The call returns a path with the socket and the address it was given. -/
def Exact (s : State) : Event → Prop
  | .getPath l r => (s.getPath l r).1.localSocket = l ∧ (s.getPath l r).1.address = r
  | .doPeriodicTasks _ => True

/-- The path under the key has another reference when `doPeriodicTasks` runs. -/
def Event.Keeps (key : Path.HashKey) : Event → Prop
  | .getPath _ _ => True
  | .doPeriodicTasks referenced => referenced key = true

/-- As long as it is kept, the path that the call returns is returned to the same request again. -/
def Stable (s : State) : Event → Prop
  | .getPath l r => ∀ later : List Event, (∀ event ∈ later, event.Keeps (hashKey l r)) →
      ((run step (s.getPath l r).2 later).getPath l r).1 = (s.getPath l r).1
  | .doPeriodicTasks _ => True

/-- No path is kept that was made for another request with the same key. -/
def Apart (s : State) : Event → Prop
  | .getPath l r => ∀ key path, s.paths key = some path → SameKey path.localSocket path.address l r →
      path.localSocket = l ∧ path.address = r
  | .doPeriodicTasks _ => True

/-- Every path is kept under its own key. -/
def Keyed (s : State) : Prop := ∀ key path, s.paths key = some path → hashKey path.localSocket path.address = key

theorem getPath_found {s : State} {l : BitVec 64} {r : PathNetwork} {path : KeptPath}
    (found : s.paths (hashKey l r) = some path) : s.getPath l r = (path, s) := by
  rw [State.getPath, found]

theorem getPath_made {s : State} {l : BitVec 64} {r : PathNetwork} (missing : s.paths (hashKey l r) = none) :
    s.getPath l r = (⟨s.allocated, l, r⟩,
      ⟨Function.update s.paths (hashKey l r) (some ⟨s.allocated, l, r⟩), s.allocated + 1⟩) := by
  rw [State.getPath, missing]

theorem getPath_kept (s : State) (l : BitVec 64) (r : PathNetwork) :
    (s.getPath l r).2.paths (hashKey l r) = some (s.getPath l r).1 := by
  cases present : s.paths (hashKey l r) with
  | some path =>
      rw [getPath_found present]
      exact present
  | none =>
      rw [getPath_made present]
      exact Function.update_self ..

/-- A call takes no path away. -/
theorem getPath_keeps {s : State} (l : BitVec 64) (r : PathNetwork) {key : Path.HashKey} {path : KeptPath}
    (kept : s.paths key = some path) : (s.getPath l r).2.paths key = some path := by
  cases present : s.paths (hashKey l r) with
  | some found =>
      rw [getPath_found present]
      exact kept
  | none =>
      have other : key ≠ hashKey l r := by
        intro same
        rw [same, present] at kept
        cases kept
      rw [getPath_made present]
      exact (Function.update_of_ne other ..).trans kept

theorem step_keeps {s : State} {event : Event} {key : Path.HashKey} {path : KeptPath} (keeps : event.Keeps key)
    (kept : s.paths key = some path) : (step s event).paths key = some path := by
  cases event with
  | getPath l r => exact getPath_keeps l r kept
  | doPeriodicTasks referenced => exact Option.filter_eq_some_iff.mpr ⟨kept, keeps⟩

theorem run_keeps {s : State} {events : List Event} {key : Path.HashKey} {path : KeptPath}
    (keeps : ∀ event ∈ events, event.Keeps key) (kept : s.paths key = some path) :
    (run step s events).paths key = some path := by
  induction events generalizing s with
  | nil => exact kept
  | cons event events ih =>
      have next := step_keeps (keeps event List.mem_cons_self) kept
      exact ih (fun later member => keeps later (List.mem_cons_of_mem event member)) next

theorem step_stable (s : State) (event : Event) : Stable s event := by
  cases event with
  | getPath l r =>
      intro later keeps
      have kept := run_keeps keeps (getPath_kept s l r)
      rw [getPath_found kept]
  | doPeriodicTasks referenced => trivial

theorem step_keyed (s : State) (event : Event) (keyed : Keyed s) : Keyed (step s event) := by
  intro key path kept
  cases event with
  | getPath l r =>
      cases present : s.paths (hashKey l r) with
      | some found =>
          rw [step, getPath_found present] at kept
          exact keyed key path kept
      | none =>
          rw [step, getPath_made present] at kept
          by_cases same : key = hashKey l r
          · rw [same] at kept ⊢
            have made := (Function.update_self ..).symm.trans kept
            rw [← Option.some.inj made]
          · exact keyed key path ((Function.update_of_ne same ..).symm.trans kept)
  | doPeriodicTasks referenced => exact keyed key path (Option.filter_eq_some_iff.mp kept).1

/-- A path made for a request with the same key is the one that is found. -/
theorem Keyed.found {s : State} (keyed : Keyed s) {key : Path.HashKey} {path : KeptPath} {l : BitVec 64}
    {r : PathNetwork} (kept : s.paths key = some path) (same : SameKey path.localSocket path.address l r) :
    s.paths (hashKey l r) = some path := by
  rw [← (hashKey_eq_iff ..).mpr same, keyed key path kept]
  exact kept

theorem exact_iff {s : State} (keyed : Keyed s) (event : Event) : Exact s event ↔ Apart s event := by
  cases event with
  | doPeriodicTasks referenced => exact Iff.rfl
  | getPath l r =>
      simp only [Exact, Apart]
      cases present : s.paths (hashKey l r) with
      | some found =>
          rw [getPath_found present]
          constructor
          · intro requested key path kept same
            have own : some found = some path := present.symm.trans (keyed.found kept same)
            rw [← Option.some.inj own]
            exact requested
          · intro apart
            exact apart _ found present ((hashKey_eq_iff ..).mp (keyed _ found present))
      | none =>
          rw [getPath_made present]
          refine iff_of_true ⟨rfl, rfl⟩ fun key path kept same => ?_
          have own : none = some path := present.symm.trans (keyed.found kept same)
          cases own

theorem path_identity_iff (events : List Event) :
    (Along step Exact State.new events ∧ Along step Stable State.new events) ↔
      Along step Apart State.new events := by
  have stable : ∀ s : State, Along step Stable s events := by
    induction events with
    | nil => exact fun _ => trivial
    | cons event events ih => exact fun s => ⟨step_stable s event, ih (step s event)⟩
  have initially : Keyed State.new := by
    intro key path kept
    cases kept
  have exactly : Along step Exact State.new events ↔ Along step Apart State.new events :=
    along_iff_of_invariant step_keyed (fun s event keyed => exact_iff keyed event) initially
  rw [and_iff_left (stable State.new), exactly]

/-- 16.0.0.1 with port 0x2710, asked for after an IPv6 address without a port. -/
theorem spelled_address_returned :
    ¬ ∀ events : List Event, Along step Exact State.new events ∧ Along step Stable State.new events := by
  intro all
  have requests := (all [.getPath 3 (.inet6 0x1000000100000000_2710000000000000 0 0 0),
    .getPath 3 (.inet 0x10000001 0x2710)]).1
  have second := requests.2.1.2
  revert second
  decide +kernel

end Runs

end ZeroTierNode.PathIdentity

import ZeroTierNode.Hashtable
import ZeroTierNode.Library.Probing
import ZeroTierNode.NetworkConfig
import ZeroTierNode.PathSelection

/-!
The ping check of `Node::processBackgroundTasks`: the addresses that are always to be
contacted, the visit of each peer, which takes its address off them, and the WHOIS for
the addresses that are left.
-/

namespace ZeroTierNode.UpstreamContact
open Hashtable Library.Probing Keepalive PathSelection PeerPaths

/-- What the check needs of a peer beside what `Topology` keeps here. -/
structure Link where
  keepalive : Keepalive.Peer
  lastNontrivialReceive : Int

/-- The node: the table of peers is given with the addresses of its peers, in the order in which `eachPeer` goes over
them, and the networks by their configurations. -/
structure Node where
  topology : Topology
  order : List Address
  listed : ∀ a, a ∈ order ↔ (topology.peers a).isSome = true
  distinct : order.Nodup
  links : Address → Link
  paths : Paths
  configs : List NetworkConfig

/-- What is sent, or asked for. -/
inductive Call
  /-- By `attemptToContactAt`, in `doPingAndKeepalive`. -/
  | contact (a : Address) (p : PathObject)
  /-- By `sendHELLO` on any socket. -/
  | hello (a : Address) (atAddress : InetAddress)
  /-- By `sendHELLO` over a path of the best upstream. -/
  | helloVia (a : Address) (up : PathObject)
  | requestWhois (a : Address)
deriving DecidableEq

/-- `Address::hashCode`. -/
def hashCode (a : Address) : Nat := (a.setWidth 32).toNat

section AlwaysContact

/-- `ips.push_back` of what is not there. -/
def pushNew (ips : List InetAddress) (ip : InetAddress) : List InetAddress := if ip ∈ ips then ips else ips ++ [ip]

/-- A reference to the entry of an address, which is made if it is not there, and what is added to it. -/
abbrev Entry := Address × List InetAddress

def addEntry (malloc : Nat → Bool) (eps : Hashtable Address (List InetAddress)) (entry : Entry) :
    Hashtable Address (List InetAddress) :=
  eps.index hashCode malloc entry.1 fun ips => entry.2.foldl pushNew ips

/-- `Topology::getRootsToContact`: the roots but for this node, and the seeds of moons. -/
def rootEntries (t : Topology) : List Entry :=
  ((t.roots.filter fun root => root.identity ≠ t.identity).map fun root => (root.identity.address, root.stableEndpoints)) ++
    t.moonSeeds.map fun seed => (seed.2, [])

/-- `NetworkConfig::alwaysContactAddresses`. -/
def alwaysContactAddresses (nc : NetworkConfig) : List Address :=
  (nc.specialists.filter fun specialist =>
    specialist &&& (0x0000100000000000 ||| 0x0000080000000000 : BitVec 64) ≠ 0).map (BitVec.setWidth 40)

def Node.entries (n : Node) : List Entry :=
  rootEntries n.topology ++ (n.configs.flatMap alwaysContactAddresses).map fun a => (a, [])

/-- `alwaysContact`. -/
def Node.alwaysContact (malloc : Nat → Bool) (n : Node) : Hashtable Address (List InetAddress) :=
  n.entries.foldl (addEntry malloc) (ofCapacity 64)

end AlwaysContact

section Check

variable (n : Node) (prng : Address → InetAddress.Family → BitVec 64) (now : Int)

/-- `Peer::latency`. -/
def Node.latency (a : Address) : BitVec 32 :=
  match getAppropriatePath n.paths now false (n.links a).keepalive.paths with
  | some slot => slot.p.elim 0xffff n.paths.latency
  | none => 0xffff

/-- `_bestCurrentUpstream`. -/
def Node.bestCurrentUpstream : Option Address :=
  (n.topology.getUpstreamPeer (n.latency now) now).map fun peer => peer.identity.address

/-- `ZT_PATH_HEARTBEAT_PERIOD * roleBasedTimerScale`, of a peer as it is. -/
def Node.interval (a : Address) (peer : Keepalive.Peer) : Int :=
  let leaf : Bool := a ∉ n.topology.upstreamAddresses
  let hasPaths : Bool := peer.paths.slots.takeWhile (fun slot => slot.p.isSome) ≠ []
  heartbeatPeriod * (if ¬ leaf ∧ ¬ hasPaths then 0 else if leaf then 2 else 16)

/-- The loop over the endpoints for a family, from the number that `prng` gives. -/
def endpoint (endpoints : List InetAddress) (family : InetAddress.Family) (ptr : BitVec 64) : Option InetAddress :=
  seek (fun addr => addr.family = family) endpoints endpoints.length (ptr.setWidth 32)

/-- The path of the best upstream, as the peers are at the moment. -/
def Node.upstreamPath (peers : Address → Keepalive.Peer) : Option PathObject := do
  let best ← n.bestCurrentUpstream now
  let slot ← getAppropriatePath n.paths now true (peers best).paths
  slot.p

/-- Peers with what is left of `_alwaysContact`, and the calls so far. -/
structure Check where
  alwaysContact : Hashtable Address (List InetAddress)
  peers : Address → Keepalive.Peer
  calls : List Call

/-- What is sent after `doPingAndKeepalive` that told what it has `sent`. -/
def Node.hellos (a : Address) (endpoints : List InetAddress) (peers : Address → Keepalive.Peer) (sent : BitVec 32) :
    List Call :=
  let inet := if sent &&& 0x1 = 0 then endpoint endpoints .inet (prng a .inet) else none
  let inet6 := if sent &&& 0x2 = 0 then endpoint endpoints .inet6 (prng a .inet6) else none
  let contacted : Bool := sent ≠ 0 ∨ inet.isSome ∨ inet6.isSome
  let up := if contacted then none else n.upstreamPath now peers
  inet.toList.map (.hello a) ++ inet6.toList.map (.hello a) ++ up.toList.map (.helloVia a)

/-- `_PingPeersThatNeedPing::operator()`; `none` where freed memory is read. The numbers of `prng` are told by the
peer and the family they are drawn for. -/
def Node.visit (s : Check) (a : Address) : Option Check :=
  let pinged := (s.peers a).doPingAndKeepalive now
  let peers := Function.update s.peers a pinged.1
  match s.alwaysContact.get hashCode a with
  | some endpoints =>
      if now - (s.peers a).lastSentFullHello ≤ n.interval a (s.peers a) then some s
      else
        (s.alwaysContact.erase hashCode (.value a)).map fun erased =>
          ⟨erased.2, peers, s.calls ++ (pinged.2.1.map (.contact a) ++ n.hellos prng now a endpoints peers pinged.2.2)⟩
  | none =>
      if now - (n.links a).lastNontrivialReceive < peerActivityTimeout then
        some ⟨s.alwaysContact, peers, s.calls ++ pinged.2.1.map (.contact a)⟩
      else some s

/-- The ping check: the calls in their order. -/
def Node.processBackgroundTasks (malloc : Nat → Bool) : Option (List Call) := do
  let visited ← n.order.foldlM (n.visit prng now) ⟨n.alwaysContact malloc, fun a => (n.links a).keepalive, []⟩
  let left ← visited.alwaysContact.pass hashCode (fun _ endpoints => some endpoints) (visited.alwaysContact.size + 1)
    visited.alwaysContact.begin
  return visited.calls ++ left.1.map fun entry => .requestWhois entry.1

end Check

section Entries

variable {malloc : Nat → Bool}

/-- The entries as a map. -/
def gather (m : Address → Option (List InetAddress)) (entry : Entry) : Address → Option (List InetAddress) :=
  Function.update m entry.1 (some (entry.2.foldl pushNew ((m entry.1).getD [])))

/-- The addresses that are always to be contacted, with their endpoints. -/
def Node.contacts (n : Node) : Address → Option (List InetAddress) := n.entries.foldl gather fun _ => none

theorem represents_entries (entries : List Entry) {eps : Hashtable Address (List InetAddress)}
    {m : Address → Option (List InetAddress)} (holds : Represents hashCode eps m) :
    Represents hashCode (entries.foldl (addEntry malloc) eps) (entries.foldl gather m) := by
  induction entries generalizing eps m with
  | nil => exact holds
  | cons entry entries ih => exact ih (holds.index malloc entry.1 _)

theorem represents_alwaysContact (n : Node) : Represents hashCode (n.alwaysContact malloc) n.contacts :=
  represents_entries n.entries (represents_ofCapacity (by decide))

theorem mem_pushNew (added ips : List InetAddress) (addr : InetAddress) :
    addr ∈ added.foldl pushNew ips ↔ addr ∈ ips ∨ addr ∈ added := by
  induction added generalizing ips with
  | nil => simp
  | cons first added ih =>
      rw [List.foldl_cons, ih, pushNew, List.mem_cons]
      by_cases there : first ∈ ips
      · rw [if_pos there]
        constructor
        · exact Or.imp_right .inr
        · rintro (old | rfl | new)
          · exact .inl old
          · exact .inl there
          · exact .inr new
      · rw [if_neg there, List.mem_append, List.mem_singleton, or_assoc]

theorem mem_gathered (entries : List Entry) (m : Address → Option (List InetAddress)) (a : Address) :
    ((entries.foldl gather m a).isSome = true ↔ (m a).isSome = true ∨ ∃ entry ∈ entries, entry.1 = a) ∧
      ∀ addr, addr ∈ (entries.foldl gather m a).getD [] ↔
        addr ∈ (m a).getD [] ∨ ∃ entry ∈ entries, entry.1 = a ∧ addr ∈ entry.2 := by
  induction entries generalizing m with
  | nil => simp
  | cons entry entries ih =>
      rw [List.foldl_cons]
      obtain ⟨keys, endpoints⟩ := ih (gather m entry)
      by_cases own : entry.1 = a
      · subst own
        constructor
        · rw [keys, gather, Function.update_self]
          simp
        · intro addr
          rw [endpoints, gather, Function.update_self, Option.getD_some, mem_pushNew]
          simp [or_assoc]
      · have same : gather m entry a = m a := Function.update_of_ne (Ne.symm own) ..
        constructor
        · rw [keys, same]
          simp [own]
        · intro addr
          rw [endpoints, same]
          simp [own]

/-- The addresses are those of other roots, of seeds of moons, and of relays and replicators of networks. -/
theorem contacts_isSome_iff (n : Node) (a : Address) :
    (n.contacts a).isSome = true ↔ ∃ entry ∈ n.entries, entry.1 = a := by
  rw [Node.contacts, (mem_gathered n.entries _ a).1]
  simp

/-- The endpoints are all those of all roots with the address. -/
theorem mem_contacts (n : Node) (a : Address) (addr : InetAddress) :
    addr ∈ (n.contacts a).getD [] ↔ ∃ entry ∈ n.entries, entry.1 = a ∧ addr ∈ entry.2 := by
  rw [Node.contacts, (mem_gathered n.entries _ a).2]
  simp

end Entries

section Turns

variable (n : Node) (prng : Address → InetAddress.Family → BitVec 64) (now : Int)

namespace Node

/-- The last full HELLO is older than the interval of the peer. -/
def Due (a : Address) : Prop :=
  n.interval a (n.links a).keepalive < now - (n.links a).keepalive.lastSentFullHello

instance Due.decidable (a : Address) : Decidable (n.Due now a) := inferInstanceAs (Decidable (_ < _))

def Active (a : Address) : Prop := now - (n.links a).lastNontrivialReceive < peerActivityTimeout

instance Active.decidable (a : Address) : Decidable (n.Active now a) := inferInstanceAs (Decidable (_ < _))

def pinged (a : Address) : Keepalive.Peer × List PathObject × BitVec 32 :=
  (n.links a).keepalive.doPingAndKeepalive now

/-- A peer after its visit. -/
def after (a : Address) : Keepalive.Peer :=
  if if (n.contacts a).isSome then n.Due now a else n.Active now a then (n.pinged now a).1 else (n.links a).keepalive

/-- The peers while one of them is visited and has been pinged. -/
def peersAt (a b : Address) : Keepalive.Peer :=
  if n.order.idxOf b ≤ n.order.idxOf a then n.after now b else (n.links b).keepalive

/-- The calls of a visit. -/
def turn (a : Address) : List Call :=
  match n.contacts a with
  | some endpoints =>
      if n.Due now a then
        (n.pinged now a).2.1.map (.contact a) ++ n.hellos prng now a endpoints (n.peersAt now a) (n.pinged now a).2.2
      else []
  | none => if n.Active now a then (n.pinged now a).2.1.map (.contact a) else []

/-- The state when some peers were visited. -/
structure Visited (done : List Address) (s : Check) : Prop where
  table : Represents hashCode s.alwaysContact fun a => if a ∈ done ∧ n.Due now a then none else n.contacts a
  peers : s.peers = fun a => if a ∈ done then n.after now a else (n.links a).keepalive
  calls : s.calls = done.flatMap (n.turn prng now)

end Node

variable {n : Node} {prng : Address → InetAddress.Family → BitVec 64} {now : Int}

theorem idxOf_le_iff {order done rest : List Address} {a : Address} (split : order = done ++ a :: rest)
    (distinct : order.Nodup) (b : Address) : order.idxOf b ≤ order.idxOf a ↔ b ∈ done ++ [a] := by
  subst split
  have fresh : a ∉ done := fun member =>
    (List.nodup_append.mp distinct).2.2 a member a List.mem_cons_self rfl
  rw [List.idxOf_append_of_notMem fresh, List.idxOf_cons_self, List.mem_append, List.mem_singleton]
  by_cases first : b ∈ done
  · rw [List.idxOf_append_of_mem first]
    exact iff_of_true (List.idxOf_lt_length_of_mem first).le (.inl first)
  · rw [List.idxOf_append_of_notMem first, or_iff_right first]
    by_cases same : b = a
    · subst same
      simp
    · rw [List.idxOf_cons_ne _ (Ne.symm same)]
      exact iff_of_false (by omega) same

section Visit

variable {done rest : List Address} {a : Address} {s : Check}

/-- With the visited peer, the peers are those after their visits. -/
theorem Node.Visited.peers_update (visited : n.Visited prng now done s) :
    Function.update s.peers a (n.after now a) =
      fun b => if b ∈ done ++ [a] then n.after now b else (n.links b).keepalive := by
  funext b
  by_cases same : b = a
  · subst same
    rw [Function.update_self, if_pos (by simp)]
  · rw [Function.update_of_ne same, visited.peers]
    simp [same]

theorem Node.peersAt_eq (split : n.order = done ++ a :: rest) :
    n.peersAt now a = fun b => if b ∈ done ++ [a] then n.after now b else (n.links b).keepalive := by
  funext b
  rw [Node.peersAt]
  simp only [idxOf_le_iff split n.distinct b]

/-- Of the table only an address that is due is taken. -/
theorem Node.table_eq (same : n.Due now a → n.contacts a = none) :
    (fun b => if b ∈ done ++ [a] ∧ n.Due now b then none else n.contacts b) =
      fun b => if b ∈ done ∧ n.Due now b then none else n.contacts b := by
  funext b
  by_cases here : b = a
  · subst here
    by_cases due : n.Due now b
    · simp [due, same due]
    · simp [due]
  · simp [here]

end Visit

theorem visit_step {done rest : List Address} {a : Address} (split : n.order = done ++ a :: rest) {s : Check}
    (visited : n.Visited prng now done s) :
    ∃ after, n.visit prng now s a = some after ∧ n.Visited prng now (done ++ [a]) after := by
  have fresh : a ∉ done := fun member =>
    (List.nodup_append.mp (split ▸ n.distinct)).2.2 a member a List.mem_cons_self rfl
  have before : s.peers a = (n.links a).keepalive := by
    rw [visited.peers]
    exact if_neg fresh
  have listed : s.alwaysContact.get hashCode a = n.contacts a := by
    rw [get_eq visited.table.wf visited.table.maps, if_neg fun both => fresh both.1]
  have moved := visited.peers_update (a := a)
  have called (calls : List Call) (same : n.turn prng now a = calls) :
      s.calls ++ calls = (done ++ [a]).flatMap (n.turn prng now) := by
    rw [visited.calls, List.flatMap_append, List.flatMap_singleton, same]
  rw [Node.visit, listed, before]
  cases contacts : n.contacts a with
  | some endpoints =>
      by_cases due : n.Due now a
      · have after : n.after now a = (n.pinged now a).1 := by
          rw [Node.after, contacts]
          exact if_pos due
        obtain ⟨left, erased, table⟩ := visited.table.erase (rfl : s.alwaysContact.deref (.value a) = some a)
        rw [← Node.peersAt_eq split, after] at moved
        dsimp only
        rw [if_neg (Int.not_le.mpr due), erased, Option.map_some]
        refine ⟨_, rfl, ?_, ?_, ?_⟩
        · convert table using 2 with b
          by_cases same : b = a
          · simp [same, due]
          · simp [same]
        · rw [← Node.peersAt_eq split]
          exact moved
        · apply called
          rw [Node.turn, contacts, ← moved]
          exact if_pos due
      · have after : n.after now a = s.peers a := by
          rw [Node.after, contacts, before]
          exact if_neg due
        rw [after, Function.update_eq_self] at moved
        dsimp only
        rw [if_pos (Int.not_lt.mp due)]
        refine ⟨s, rfl, ?_, moved, ?_⟩
        · rw [Node.table_eq fun wrong => absurd wrong due]
          exact visited.table
        · have none := called [] (by rw [Node.turn, contacts]; exact if_neg due)
          rwa [List.append_nil] at none
  | none =>
      have table := visited.table
      rw [← Node.table_eq fun _ => contacts] at table
      by_cases active : n.Active now a
      · have after : n.after now a = (n.pinged now a).1 := by
          rw [Node.after, contacts]
          exact if_pos active
        rw [after] at moved
        have recent : now - (n.links a).lastNontrivialReceive < peerActivityTimeout := active
        dsimp only
        rw [if_pos recent]
        refine ⟨_, rfl, table, moved, ?_⟩
        apply called
        rw [Node.turn, contacts]
        exact if_pos active
      · have after : n.after now a = s.peers a := by
          rw [Node.after, contacts, before]
          exact if_neg active
        rw [after, Function.update_eq_self] at moved
        have quiet : ¬ now - (n.links a).lastNontrivialReceive < peerActivityTimeout := active
        dsimp only
        rw [if_neg quiet]
        refine ⟨s, rfl, table, moved, ?_⟩
        have none := called [] (by rw [Node.turn, contacts]; exact if_neg active)
        rwa [List.append_nil] at none

/-- A pass over the rest of the peers, of which none is visited twice. -/
theorem visits_run {done rest : List Address} (split : n.order = done ++ rest) {s : Check}
    (visited : n.Visited prng now done s) :
    ∃ after, rest.foldlM (n.visit prng now) s = some after ∧ n.Visited prng now n.order after := by
  induction rest generalizing done s with
  | nil =>
      rw [List.append_nil] at split
      exact ⟨s, rfl, split ▸ visited⟩
  | cons a rest ih =>
      obtain ⟨next, step, visited'⟩ := visit_step split visited
      obtain ⟨after, run, all⟩ := ih (by rw [split, List.append_assoc, List.singleton_append]) visited'
      refine ⟨after, ?_, all⟩
      rw [List.foldlM_cons, step]
      exact run

/-- The calls of all visits, and of the loop over what they leave. -/
def Node.calls (n : Node) (prng : Address → InetAddress.Family → BitVec 64) (now : Int) (waiting : List Address) :
    List Call :=
  n.order.flatMap (n.turn prng now) ++ waiting.map .requestWhois

/-- The visits, and a WHOIS for every address that no visit has taken. -/
theorem check_spec (n : Node) (prng : Address → InetAddress.Family → BitVec 64) (now : Int) (malloc : Nat → Bool) :
    ∃ waiting : List Address,
      n.processBackgroundTasks prng now malloc = some (n.calls prng now waiting) ∧ waiting.Nodup ∧
      ∀ a, a ∈ waiting ↔ (n.contacts a).isSome = true ∧ ¬ (a ∈ n.order ∧ n.Due now a) := by
  have start : n.Visited prng now [] ⟨n.alwaysContact malloc, fun a => (n.links a).keepalive, []⟩ := by
    refine ⟨?_, ?_, rfl⟩
    · simpa using represents_alwaysContact n
    · simp
  obtain ⟨after, visited, all⟩ := visits_run (List.nil_append n.order).symm start
  obtain ⟨left, passed, -⟩ :=
    pass_begin (fun _ endpoints => some endpoints) all.table (Nat.lt_succ_self after.alwaysContact.size)
  refine ⟨after.alwaysContact.buckets.map Bucket.k, ?_, all.table.wf.keys, ?_⟩
  · rw [Node.processBackgroundTasks, visited]
    change (after.alwaysContact.pass _ _ _ _).bind _ = _
    rw [passed, Node.calls, ← all.calls, Option.bind_some, List.map_map, List.map_map]
    rfl
  · intro a
    rw [← all.table.maps.isSome_iff]
    by_cases gone : a ∈ n.order ∧ n.Due now a
    · simp [gone]
    · simp [gone]

end Turns

section Meaning

/-- The endpoint of a HELLO for a peer. -/
def Call.helloTo (a : Address) : Call → Option InetAddress
  | .hello b atAddress => if b = a then some atAddress else none
  | _ => none

/-- The path of the best upstream over which a HELLO for a peer goes. -/
def Call.helloOver (a : Address) : Call → Option PathObject
  | .helloVia b up => if b = a then some up else none
  | _ => none

def Call.whois : Call → Option Address
  | .requestWhois a => some a
  | _ => none

/-- Whether a HELLO goes to an endpoint of a family: only if it is wanted, and then if there is one. -/
structure Chosen (wanted : Prop) (family : InetAddress.Family) (endpoints : List InetAddress)
    (choice : Option InetAddress) : Prop where
  sound : ∀ addr ∈ choice, wanted ∧ addr ∈ endpoints ∧ addr.family = family
  complete : wanted → (∃ addr ∈ endpoints, addr.family = family) → choice.isSome = true

/-- What a ping check is meant to do. -/
structure Node.Serves (n : Node) (now : Int) (calls : List Call) : Prop where
  whois : ∀ a, .requestWhois a ∈ calls ↔ (n.contacts a).isSome = true ∧ n.topology.peers a = none
  once : (calls.filterMap Call.whois).Nodup
  hello : ∀ a endpoints, (n.topology.peers a).isSome = true → n.contacts a = some endpoints → n.Due now a →
    ∃ inet inet6, calls.filterMap (Call.helloTo a) = inet.toList ++ inet6.toList ∧
      Chosen ((n.pinged now a).2.2 &&& 0x1 = 0) .inet endpoints inet ∧
      Chosen ((n.pinged now a).2.2 &&& 0x2 = 0) .inet6 endpoints inet6 ∧
      calls.filterMap (Call.helloOver a) =
        (if (n.pinged now a).2.2 = 0 ∧ ∀ addr ∈ endpoints, addr.family ≠ .inet ∧ addr.family ≠ .inet6 then
          n.upstreamPath now (n.peersAt now a) else none).toList

/-- If there are endpoints of a family, the walk from a number comes by one of them. -/
def Reaches (ptr : BitVec 64) (family : InetAddress.Family) (endpoints : List InetAddress) : Prop :=
  (∃ addr ∈ endpoints, addr.family = family) →
    ∃ i addr, endpoints[i]? = some addr ∧ addr.family = family ∧ ¬ Skipped (ptr.setWidth 32) endpoints.length i

/-- It is time for every known peer that is always to be contacted, and no walk skips the endpoints it looks for. -/
structure Node.Timely (n : Node) (prng : Address → InetAddress.Family → BitVec 64) (now : Int) : Prop where
  due : ∀ a, (n.topology.peers a).isSome = true → (n.contacts a).isSome = true → n.Due now a
  inet : ∀ a endpoints, (n.topology.peers a).isSome = true → n.contacts a = some endpoints →
    (n.pinged now a).2.2 &&& 0x1 = 0 → Reaches (prng a .inet) .inet endpoints
  inet6 : ∀ a endpoints, (n.topology.peers a).isSome = true → n.contacts a = some endpoints →
    (n.pinged now a).2.2 &&& 0x2 = 0 → Reaches (prng a .inet6) .inet6 endpoints

theorem endpoint_isSome_iff (endpoints : List InetAddress) (family : InetAddress.Family) (ptr : BitVec 64) :
    (endpoint endpoints family ptr).isSome = true ↔
      ∃ i addr, endpoints[i]? = some addr ∧ addr.family = family ∧ ¬ Skipped (ptr.setWidth 32) endpoints.length i := by
  rw [endpoint, seek_isSome_iff]
  constructor
  · intro ⟨tries, few, addr, there, right⟩
    obtain ⟨inside, -⟩ := List.getElem?_eq_some_iff.mp there
    exact ⟨_, addr, there, of_decide_eq_true right, (reached_iff _ inside).mp ⟨tries, few, rfl⟩⟩
  · intro ⟨i, addr, there, right, reached⟩
    obtain ⟨inside, -⟩ := List.getElem?_eq_some_iff.mp there
    obtain ⟨tries, few, rfl⟩ := (reached_iff _ inside).mpr reached
    exact ⟨tries, few, addr, there, decide_eq_true right⟩

/-- The two choices, told apart by their families. -/
theorem mem_choices {first second : Option InetAddress} (inet : ∀ addr ∈ first, addr.family = .inet)
    (inet6 : ∀ addr ∈ second, addr.family = .inet6) (addr : InetAddress) :
    (addr ∈ first ↔ addr ∈ first.toList ++ second.toList ∧ addr.family = .inet) ∧
      (addr ∈ second ↔ addr ∈ first.toList ++ second.toList ∧ addr.family = .inet6) := by
  rw [List.mem_append, Option.mem_toList, Option.mem_toList]
  constructor
  · constructor
    · exact fun there => ⟨.inl there, inet addr there⟩
    · rintro ⟨there | there, family⟩
      · exact there
      · cases (inet6 addr there).symm.trans family
  · constructor
    · exact fun there => ⟨.inr there, inet6 addr there⟩
    · rintro ⟨there | there, family⟩
      · cases (inet addr there).symm.trans family
      · exact there

theorem choices_eq {first second first' second' : Option InetAddress} (inet : ∀ addr ∈ first, addr.family = .inet)
    (inet6 : ∀ addr ∈ second, addr.family = .inet6) (inet' : ∀ addr ∈ first', addr.family = .inet)
    (inet6' : ∀ addr ∈ second', addr.family = .inet6)
    (same : first.toList ++ second.toList = first'.toList ++ second'.toList) : first = first' ∧ second = second' := by
  have one := mem_choices inet inet6
  have other := mem_choices inet' inet6'
  rw [← same] at other
  exact ⟨Option.ext fun addr => (one addr).1.trans (other addr).1.symm,
    Option.ext fun addr => (one addr).2.trans (other addr).2.symm⟩

theorem Chosen.family {wanted : Prop} {family : InetAddress.Family} {endpoints : List InetAddress}
    {choice : Option InetAddress} (chosen : Chosen wanted family endpoints choice) :
    ∀ addr ∈ choice, addr.family = family := fun addr there => (chosen.sound addr there).2.2

/-- Nothing was sent and nothing is chosen exactly if nothing was sent and there is nothing to choose. -/
theorem Chosen.neither_iff {sent : BitVec 32} {endpoints : List InetAddress} {inet inet6 : Option InetAddress}
    (first : Chosen (sent &&& 0x1 = 0) .inet endpoints inet) (second : Chosen (sent &&& 0x2 = 0) .inet6 endpoints inet6) :
    ¬ (sent ≠ 0 ∨ inet.isSome = true ∨ inet6.isSome = true) ↔
      sent = 0 ∧ ∀ addr ∈ endpoints, addr.family ≠ .inet ∧ addr.family ≠ .inet6 := by
  rw [not_or, not_or, not_not]
  apply and_congr_right
  intro nothing
  have wanted : sent &&& 0x1 = 0 ∧ sent &&& 0x2 = 0 := by simp [nothing]
  constructor
  · intro ⟨one, other⟩ addr there
    exact ⟨fun family => one (first.complete wanted.1 ⟨addr, there, family⟩),
      fun family => other (second.complete wanted.2 ⟨addr, there, family⟩)⟩
  · intro empty
    constructor
    · intro found
      obtain ⟨addr, there⟩ := Option.isSome_iff_exists.mp found
      obtain ⟨-, listed, family⟩ := first.sound addr there
      exact (empty addr listed).1 family
    · intro found
      obtain ⟨addr, there⟩ := Option.isSome_iff_exists.mp found
      obtain ⟨-, listed, family⟩ := second.sound addr there
      exact (empty addr listed).2 family

theorem endpoint_sound {endpoints : List InetAddress} {family : InetAddress.Family} {ptr : BitVec 64} {addr : InetAddress}
    (found : endpoint endpoints family ptr = some addr) : addr ∈ endpoints ∧ addr.family = family :=
  (seek_some found).imp_right of_decide_eq_true

end Meaning

section Results

variable {n : Node} {prng : Address → InetAddress.Family → BitVec 64} {now : Int}

/-- The peer that a call is about. -/
def Call.peer : Call → Address
  | .contact a _ | .hello a _ | .helloVia a _ | .requestWhois a => a

/-- A visit asks for nobody, and sends for the peer that is visited. -/
theorem turn_calls {a : Address} {call : Call} (member : call ∈ n.turn prng now a) :
    call.peer = a ∧ call.whois = none := by
  have contacts {paths : List PathObject} (there : call ∈ paths.map (Call.contact a)) :
      call.peer = a ∧ call.whois = none := by
    obtain ⟨p, -, rfl⟩ := List.mem_map.mp there
    exact ⟨rfl, rfl⟩
  rw [Node.turn] at member
  cases listed : n.contacts a with
  | some endpoints =>
      rw [listed] at member
      dsimp only at member
      by_cases due : n.Due now a
      · rw [if_pos due, Node.hellos] at member
        simp only [List.mem_append, List.mem_map] at member
        rcases member with there | (⟨_, -, rfl⟩ | ⟨_, -, rfl⟩) | ⟨_, -, rfl⟩
        · exact contacts (List.mem_map.mpr there)
        · exact ⟨rfl, rfl⟩
        · exact ⟨rfl, rfl⟩
        · exact ⟨rfl, rfl⟩
      · rw [if_neg due] at member
        cases member
  | none =>
      rw [listed] at member
      dsimp only at member
      by_cases active : n.Active now a
      · rw [if_pos active] at member
        exact contacts member
      · rw [if_neg active] at member
        cases member

theorem whois_calls (waiting : List Address) :
    (n.calls prng now waiting).filterMap Call.whois = waiting := by
  have visits : (n.order.flatMap (n.turn prng now)).filterMap Call.whois = [] := by
    apply List.filterMap_eq_nil_iff.mpr
    intro call there
    obtain ⟨a, -, called⟩ := List.mem_flatMap.mp there
    exact (turn_calls called).2
  rw [Node.calls, List.filterMap_append, visits, List.nil_append, List.filterMap_map]
  exact List.filterMap_some

theorem mem_whois {a : Address} {calls : List Call} :
    .requestWhois a ∈ calls ↔ a ∈ calls.filterMap Call.whois := by
  rw [List.mem_filterMap]
  constructor
  · exact fun there => ⟨_, there, rfl⟩
  · rintro ⟨call, there, asks⟩
    cases call with
    | requestWhois b =>
        rw [← Option.some.inj asks]
        exact there
    | contact b p => cases asks
    | hello b atAddress => cases asks
    | helloVia b up => cases asks

/-- What is told about a peer comes from its visit. -/
theorem filterMap_calls {β : Type*} {f : Call → Option β} {a : Address} (about : ∀ call, f call ≠ none → call.peer = a)
    (asked : ∀ b, f (.requestWhois b) = none) (member : a ∈ n.order) (waiting : List Address) :
    (n.calls prng now waiting).filterMap f = (n.turn prng now a).filterMap f := by
  obtain ⟨before, after, split⟩ := List.append_of_mem member
  have distinct := n.distinct
  rw [split, List.nodup_middle, List.nodup_cons] at distinct
  have none {others : List Address} (away : a ∉ others) : (others.flatMap (n.turn prng now)).filterMap f = [] := by
    apply List.filterMap_eq_nil_iff.mpr
    intro call there
    obtain ⟨b, listed, called⟩ := List.mem_flatMap.mp there
    by_contra told
    exact away ((turn_calls called).1.symm.trans (about call told) ▸ listed)
  have left : (waiting.map Call.requestWhois).filterMap f = [] := by
    rw [List.filterMap_map, List.filterMap_eq_nil_iff]
    exact fun b _ => asked b
  rw [Node.calls, List.filterMap_append, left, List.append_nil, split, List.flatMap_append, List.flatMap_cons,
    List.filterMap_append, List.filterMap_append, none fun there => distinct.1 (List.mem_append_left _ there),
    none fun there => distinct.1 (List.mem_append_right _ there), List.nil_append, List.append_nil]

/-- The endpoint of a family to which the visit of a peer sends. -/
def Node.chosen (n : Node) (now : Int) (a : Address) (endpoints : List InetAddress) (bit : BitVec 32)
    (family : InetAddress.Family) (ptr : BitVec 64) : Option InetAddress :=
  if (n.pinged now a).2.2 &&& bit = 0 then endpoint endpoints family ptr else none

theorem turn_hellos {a : Address} {endpoints : List InetAddress} (listed : n.contacts a = some endpoints)
    (due : n.Due now a) :
    (n.turn prng now a).filterMap (Call.helloTo a) =
        (n.chosen now a endpoints 0x1 .inet (prng a .inet)).toList ++
          (n.chosen now a endpoints 0x2 .inet6 (prng a .inet6)).toList ∧
      (n.turn prng now a).filterMap (Call.helloOver a) =
        (if (n.pinged now a).2.2 ≠ 0 ∨ (n.chosen now a endpoints 0x1 .inet (prng a .inet)).isSome = true ∨
            (n.chosen now a endpoints 0x2 .inet6 (prng a .inet6)).isSome = true then none
          else n.upstreamPath now (n.peersAt now a)).toList := by
  have contacts (paths : List PathObject) {β : Type} (f : Call → Option β) (quiet : ∀ p, f (.contact a p) = none) :
      (paths.map (Call.contact a)).filterMap f = [] := by
    rw [List.filterMap_map, List.filterMap_eq_nil_iff]
    exact fun p _ => quiet p
  have called : n.turn prng now a = (n.pinged now a).2.1.map (.contact a) ++
      n.hellos prng now a endpoints (n.peersAt now a) (n.pinged now a).2.2 := by
    rw [Node.turn, listed]
    exact if_pos due
  rw [called, List.filterMap_append, List.filterMap_append, contacts _ _ fun _ => rfl, contacts _ _ fun _ => rfl,
    List.nil_append, List.nil_append, Node.hellos]
  constructor
  · simp [List.filterMap_append, List.filterMap_map, Function.comp_def, Call.helloTo, Node.chosen]
  · simp [List.filterMap_append, List.filterMap_map, Function.comp_def, Call.helloOver, Node.chosen]
    congr

theorem calls_hellos {a : Address} {endpoints : List InetAddress} (member : a ∈ n.order)
    (listed : n.contacts a = some endpoints) (due : n.Due now a) (waiting : List Address) :
    (n.calls prng now waiting).filterMap (Call.helloTo a) =
        (n.chosen now a endpoints 0x1 .inet (prng a .inet)).toList ++
          (n.chosen now a endpoints 0x2 .inet6 (prng a .inet6)).toList ∧
      (n.calls prng now waiting).filterMap (Call.helloOver a) =
        (if (n.pinged now a).2.2 ≠ 0 ∨ (n.chosen now a endpoints 0x1 .inet (prng a .inet)).isSome = true ∨
            (n.chosen now a endpoints 0x2 .inet6 (prng a .inet6)).isSome = true then none
          else n.upstreamPath now (n.peersAt now a)).toList := by
  have endpoints' : ∀ call, Call.helloTo a call ≠ none → call.peer = a := by
    intro call told
    cases call with
    | hello b atAddress =>
        by_contra other
        exact told (if_neg other)
    | contact b p => exact absurd rfl told
    | helloVia b up => exact absurd rfl told
    | requestWhois b => exact absurd rfl told
  have detours : ∀ call, Call.helloOver a call ≠ none → call.peer = a := by
    intro call told
    cases call with
    | helloVia b up =>
        by_contra other
        exact told (if_neg other)
    | contact b p => exact absurd rfl told
    | hello b atAddress => exact absurd rfl told
    | requestWhois b => exact absurd rfl told
  rw [filterMap_calls endpoints' (fun _ => rfl) member, filterMap_calls detours (fun _ => rfl) member]
  exact turn_hellos listed due

theorem chosen_sound {a : Address} {endpoints : List InetAddress} {bit : BitVec 32} {family : InetAddress.Family}
    {ptr : BitVec 64} {addr : InetAddress} (found : addr ∈ (n.chosen now a endpoints bit family ptr).toList) :
    (n.pinged now a).2.2 &&& bit = 0 ∧ addr ∈ endpoints ∧ addr.family = family := by
  rw [Option.mem_toList, Node.chosen] at found
  by_cases wanted : (n.pinged now a).2.2 &&& bit = 0
  · rw [if_pos wanted] at found
    exact ⟨wanted, endpoint_sound found⟩
  · rw [if_neg wanted] at found
    cases found

theorem chosen_family {a : Address} {endpoints : List InetAddress} {bit : BitVec 32} {family : InetAddress.Family}
    {ptr : BitVec 64} : ∀ addr ∈ n.chosen now a endpoints bit family ptr, addr.family = family :=
  fun _ found => (chosen_sound (Option.mem_toList.mpr found)).2.2

theorem chosen_iff {a : Address} {endpoints : List InetAddress} {bit : BitVec 32} {family : InetAddress.Family}
    {ptr : BitVec 64} :
    Chosen ((n.pinged now a).2.2 &&& bit = 0) family endpoints (n.chosen now a endpoints bit family ptr) ↔
      ((n.pinged now a).2.2 &&& bit = 0 → Reaches ptr family endpoints) := by
  constructor
  · intro choice wanted there
    have found := choice.complete wanted there
    rw [Node.chosen, if_pos wanted] at found
    exact (endpoint_isSome_iff endpoints family ptr).mp found
  · intro reached
    constructor
    · exact fun addr found => chosen_sound (Option.mem_toList.mpr found)
    · intro wanted there
      rw [Node.chosen, if_pos wanted]
      exact (endpoint_isSome_iff endpoints family ptr).mpr (reached wanted there)

/-- The ping check does what it is meant to do exactly if it is time for every known peer on the list, and no walk over
endpoints skips what it looks for. -/
theorem upstreams_contacted_iff (n : Node) (prng : Address → InetAddress.Family → BitVec 64) (now : Int)
    (malloc : Nat → Bool) :
    ∃ calls, n.processBackgroundTasks prng now malloc = some calls ∧ (n.Serves now calls ↔ n.Timely prng now) := by
  obtain ⟨waiting, ran, distinct, listed⟩ := check_spec n prng now malloc
  refine ⟨_, ran, ?_⟩
  constructor
  · intro serves
    have due (a : Address) (there : (n.topology.peers a).isSome = true) (always : (n.contacts a).isSome = true) :
        n.Due now a := by
      by_contra early
      have asked : Call.requestWhois a ∈ n.calls prng now waiting := by
        rw [mem_whois, whois_calls, listed]
        exact ⟨always, fun both => early both.2⟩
      rw [((serves.whois a).mp asked).2] at there
      cases there
    have choices {a : Address} {endpoints : List InetAddress} (there : (n.topology.peers a).isSome = true)
        (always : n.contacts a = some endpoints) :
        Chosen ((n.pinged now a).2.2 &&& 0x1 = 0) .inet endpoints (n.chosen now a endpoints 0x1 .inet (prng a .inet)) ∧
          Chosen ((n.pinged now a).2.2 &&& 0x2 = 0) .inet6 endpoints
            (n.chosen now a endpoints 0x2 .inet6 (prng a .inet6)) := by
      have late := due a there (Option.isSome_iff_exists.mpr ⟨_, always⟩)
      obtain ⟨inet, inet6, sent, first, second, -⟩ := serves.hello a endpoints there always late
      rw [(calls_hellos ((n.listed a).mpr there) always late waiting).1] at sent
      obtain ⟨inet_eq, inet6_eq⟩ := choices_eq chosen_family chosen_family first.family second.family sent
      rw [inet_eq, inet6_eq]
      exact ⟨first, second⟩
    exact ⟨due, fun a endpoints there always => chosen_iff.mp (choices there always).1,
      fun a endpoints there always => chosen_iff.mp (choices there always).2⟩
  · intro timely
    constructor
    · intro a
      rw [mem_whois, whois_calls, listed]
      apply and_congr_right
      intro always
      rw [n.listed, ← Option.not_isSome_iff_eq_none, not_iff_not]
      exact ⟨And.left, fun there => ⟨there, timely.due a there always⟩⟩
    · rw [whois_calls]
      exact distinct
    · intro a endpoints there always due
      obtain ⟨hellos, detours⟩ := @calls_hellos n prng now a endpoints ((n.listed a).mpr there) always due waiting
      have first := chosen_iff.mpr (timely.inet a endpoints there always)
      have second := chosen_iff.mpr (timely.inet6 a endpoints there always)
      refine ⟨_, _, hellos, first, second, ?_⟩
      rw [detours, ← ite_not]
      simp only [first.neither_iff second]

end Results

section Example

def rootIdentity : Identity := ⟨0x2000000005, 5⟩

/-- A node that knows the one root there is. -/
def rooted : Topology where
  identity := ⟨0x1000000005, 5⟩
  planet := ⟨.planet, 1, 1, 0, 0, [⟨rootIdentity, [.v4 0x08080808 9993]⟩]⟩
  moons := []
  moonSeeds := []
  upstreamAddresses := [rootIdentity.address]
  amUpstream := false
  peers := fun a => if a = rootIdentity.address then some (Peer.new rootIdentity) else none
  paths := fun _ => none

theorem rooted_listed (a : Address) : a ∈ [rootIdentity.address] ↔ (rooted.peers a).isSome = true := by
  rw [List.mem_singleton]
  by_cases root : a = rootIdentity.address
  · simp [root, rooted]
  · simp [root, rooted]

def rootedNode : Node where
  topology := rooted
  order := [rootIdentity.address]
  listed := rooted_listed
  distinct := List.nodup_singleton _
  links := fun _ => ⟨stalePeer, 0⟩
  paths := ⟨fun _ => 0, fun _ => []⟩
  configs := []

/-- A second after its full HELLO the root is known, and asked for. -/
theorem known_root_asked_for : ¬ ∃ calls,
    rootedNode.processBackgroundTasks (fun _ _ => 0) 1000 (fun _ => true) = some calls ∧ rootedNode.Serves 1000 calls := by
  intro ⟨calls, ran, serves⟩
  obtain ⟨waiting, spec, -, listed⟩ := check_spec rootedNode (fun _ _ => 0) 1000 fun _ => true
  rw [ran, Option.some.injEq] at spec
  subst spec
  have asked : Call.requestWhois rootIdentity.address ∈ rootedNode.calls (fun _ _ => 0) 1000 waiting := by
    rw [mem_whois, whois_calls, listed]
    exact ⟨by decide +kernel, fun both => absurd both.2 (by decide +kernel)⟩
  exact absurd ((serves.whois _).mp asked).2 (by decide +kernel)

end Example

end ZeroTierNode.UpstreamContact

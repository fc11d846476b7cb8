import ZeroTierNode.ContactLimits
import ZeroTierNode.PathSelection

/-!
`Peer::introduce` sends each of two peers the best address of the other, over paths of
one scope and family, and `_doRENDEZVOUS` takes the address from the packet.
-/

namespace ZeroTierNode.Introduction
open Library.Bytes Library.Minima Library.Packing Buffer CredentialPush PeerPaths Keepalive PathSelection ContactLimits

section Sender

variable (m : Paths) (now : Int)

/-- For each scope the best entry for IPv4 and for IPv6, with their qualities. -/
structure Tables where
  best : Kind → Option PeerPath
  quality : Kind → Int

def Tables.start : Tables := ⟨fun _ => none, fun _ => 2147483647⟩

/-- The turn of the loop over the paths for an entry with a path. -/
def Tables.offer (tables : Tables) (slot : PeerPath) (p : PathObject) : Tables :=
  let q := (m.quality p now).tdiv slot.priority
  if p.address.family = .unset then tables
  else if q ≤ tables.quality (kind p.address) then
    { best := Function.update tables.best (kind p.address) (some slot)
      quality := Function.update tables.quality (kind p.address) q }
  else tables

/-- The loop over the paths of a peer. -/
def bestByScope : List PeerPath → Tables → Tables
  | [], tables => tables
  | slot :: slots, tables =>
      match slot.p with
      | none => tables
      | some p => bestByScope slots (tables.offer m now slot p)

/-- The values of the counter of the loop over the scopes. -/
def scopesDown : List InetAddress.IpScope :=
  [.privateUse, .shared, .linkLocal, .global, .pseudoprivate, .loopback, .multicast, .none]

/-- The entries of both peers for a kind. -/
def both (mine theirs : Tables) (k : Kind) : Option (PeerPath × PeerPath) :=
  (mine.best k).bind fun e => (theirs.best k).map fun f => (e, f)

/-- `mine` and `theirs`. -/
def choose (mine theirs : Tables) : Option (PeerPath × PeerPath) :=
  scopesDown.findSome? fun s => (both mine theirs (s, .inet6)).or (both mine theirs (s, .inet))

/-- `VERB_RENDEZVOUS`. -/
def verbRendezvous : Byte := 0x05

/-- The port, the length of the address and the address. Other addresses than these two do not come up. -/
def hint : InetAddress → List Byte
  | .v4 ip port => wordBytes 2 port ++ ([4] ++ wordBytes 4 ip)
  | .v6 ip port => wordBytes 2 port ++ ([16] ++ wordBytes 16 ip)
  | .nil => []

/-- A packet that names a peer and one of its addresses. -/
def rendezvous (iv mac : BitVec 64) (dest self other : Address) (a : InetAddress) : List Byte :=
  newPacket iv mac dest self verbRendezvous ++ ([0] ++ (other.appendTo ++ hint a))

/-- A peer, as far as it is introduced. -/
structure Party where
  address : Address
  paths : PathTable

/-- A packet that is armored with the key of a peer and sent over one of its paths. -/
structure Sent where
  dest : Address
  path : PathObject
  packet : List Byte
deriving DecidableEq

/-- `Peer::introduce`, with the initialization vectors of the packets and what else is in a new one by chance. -/
def introduce (self : Address) (iv mac : Nat → BitVec 64) (prng : BitVec 64) (me other : Party) : List Sent :=
  let found := choose (bestByScope m now me.paths.slots .start) (bestByScope m now other.paths.slots .start)
  match found.bind fun chosen => chosen.1.p.bind fun mine => chosen.2.p.map fun theirs => (mine, theirs) with
  | none => []
  | some (mine, theirs) =>
      let alt := (prng &&& 1).toNat
      -- the loop ends when `alt` has gone up by two
      [alt, alt + 1].map fun alt =>
        if alt &&& 1 = 0 then
          ⟨me.address, mine, rendezvous (iv alt) (mac alt) me.address self other.address theirs.address⟩
        else ⟨other.address, theirs, rendezvous (iv alt) (mac alt) other.address self me.address mine.address⟩

end Sender

section Receiver

/-- What the receiver answers: is the sender an upstream, is there a peer in memory, may an address be used for it. -/
structure Receiver where
  isUpstream : Bool
  getPeer : Address → Bool
  shouldUsePath : Address → InetAddress → Bool

inductive Effect
  /-- A packet of four bytes that does not get far, to open the way. -/
  | putPacket (atAddr : InetAddress)
  | attemptToContactAt (peer : Address) (atAddr : InetAddress)
deriving DecidableEq

/-- `InetAddress(field(..), addrlen, port)`. -/
def readAddress (packet : List Byte) (addrlen : Byte) (port : BitVec 16) : Option InetAddress :=
  if addrlen = 4 then (at32 packet 37).map fun ip => .v4 ip port
  else (atWord 128 16 packet 37).map fun ip => .v6 ip port

/-- `_doRENDEZVOUS`; nothing where it throws. -/
def doRENDEZVOUS (r : Receiver) (packet : List Byte) : Option (List Effect) :=
  if r.isUpstream then do
    let peer ← atWord 40 5 packet 29
    if r.getPeer peer then
      let port ← at16 packet 34
      let addrlen ← at8 packet 36
      if 0 < port ∧ (addrlen = 4 ∨ addrlen = 16) then
        let atAddr ← readAddress packet addrlen port
        return if r.shouldUsePath peer atAddr then [.putPacket atAddr, .attemptToContactAt peer atAddr] else []
      else return []
    else return []
  else some []

end Receiver

section Tables

variable (m : Paths) (now : Int)

/-- The path of the entry has an address of the kind. -/
def ofKind (k : Kind) (slot : PeerPath) : Bool := slot.p.any fun p => kind p.address = k

/-- The entries of a kind. -/
def entriesOf (t : PathTable) (k : Kind) : List PeerPath := t.slots.filter (ofKind k)

/-- The tables hold for each kind what a loop over its entries alone would find. -/
theorem bestByScope_best {k : Kind} (ip : k.2 ≠ .unset) (slots : List PeerPath) (tables : Tables) :
    (bestByScope m now slots tables).best k =
      scan (ratio m now) ((slots.takeWhile fun slot => slot.p.isSome).filter (ofKind k)) (tables.quality k)
        (tables.best k) := by
  induction slots generalizing tables with
  | nil => rfl
  | cons slot slots ih =>
      rw [bestByScope, List.takeWhile_cons]
      cases present : slot.p with
      | none => rfl
      | some p =>
          have ratio' : ratio m now slot = (m.quality p now).tdiv slot.priority := by rw [ratio, present, Option.elim]
          dsimp only
          rw [Option.isSome_some, if_pos rfl, ih, List.filter_cons, ofKind, present, Option.any_some]
          by_cases here : kind p.address = k
          · have family : p.address.family ≠ .unset := by
              rw [← here] at ip
              exact ip
            rw [decide_eq_true here, if_pos rfl, scan, Tables.offer, if_neg family, here, ratio']
            by_cases better : (m.quality p now).tdiv slot.priority ≤ tables.quality k
            · rw [if_pos better, if_pos better]
              dsimp only
              rw [Function.update_self, Function.update_self]
            · rw [if_neg better, if_neg better]
          · rw [decide_eq_false here, if_neg Bool.false_ne_true, Tables.offer]
            split_ifs with other better
            · rfl
            · dsimp only
              rw [Function.update_of_ne (Ne.symm here), Function.update_of_ne (Ne.symm here)]
            · rfl

/-- The best entry of a kind: the last of those with the least quality by priority. -/
def Best (t : PathTable) (k : Kind) (e : PeerPath) : Prop := LastLeast (ratio m now) (entriesOf t k) e

variable {m now}

theorem best_eq_scan (t : PathTable) {k : Kind} (ip : k.2 ≠ .unset) :
    (bestByScope m now t.slots .start).best k = scan (ratio m now) (entriesOf t k) 2147483647 none := by
  have filled : t.slots.filter (fun slot => ofKind k slot && slot.p.isSome) = t.slots.filter (ofKind k) := by
    apply List.filter_congr
    intro slot _
    unfold ofKind
    cases slot.p with
    | none => rfl
    | some p => exact Bool.and_true _
  rw [bestByScope_best m now ip, t.packed.takeWhile_eq_filter, List.filter_filter, filled]
  rfl

theorem entriesOf_bounded (t : PathTable) (k : Kind) : ∀ e ∈ entriesOf t k, ratio m now e ≤ 2147483647 := fun e member =>
  ratio_le m now (t.ranked e (List.mem_filter.mp member).1)

theorem best_eq_some_iff {t : PathTable} {k : Kind} (ip : k.2 ≠ .unset) {e : PeerPath} :
    (bestByScope m now t.slots .start).best k = some e ↔ Best m now t k e := by
  rw [best_eq_scan t ip]
  exact scan_eq_some_iff (entriesOf_bounded t k)

theorem best_eq_none_iff {t : PathTable} {k : Kind} (ip : k.2 ≠ .unset) :
    (bestByScope m now t.slots .start).best k = none ↔ entriesOf t k = [] := by
  rw [best_eq_scan t ip]
  exact scan_eq_none_iff (entriesOf_bounded t k)

/-- A best entry has a path of the kind. -/
theorem Best.path {t : PathTable} {k : Kind} {e : PeerPath} (best : Best m now t k e) :
    ∃ p, e.p = some p ∧ kind p.address = k := by
  have here := (List.mem_filter.mp best.mem).2
  unfold ofKind at here
  cases present : e.p with
  | none =>
      rw [present] at here
      cases here
  | some p =>
      rw [present] at here
      exact ⟨p, rfl, of_decide_eq_true here⟩

end Tables

section Choice

/-- Both peers have a path of the kind. -/
def Common (mine theirs : PathTable) (k : Kind) : Prop :=
  k.2 ≠ .unset ∧ entriesOf mine k ≠ [] ∧ entriesOf theirs k ≠ []

/-- Scopes from low to high, and in each IPv6 above IPv4. -/
def rank (k : Kind) : Nat := 2 * k.1.code + if k.2 = .inet6 then 1 else 0

/-- The highest kind that both peers have. -/
def Highest (mine theirs : PathTable) (k : Kind) : Prop :=
  Common mine theirs k ∧ ∀ other, Common mine theirs other → rank other ≤ rank k

/-- The kinds in the order in which they are tried. -/
def kindsDown : List Kind := scopesDown.flatMap fun s => [(s, .inet6), (s, .inet)]

theorem kindsDown_sorted : kindsDown.Pairwise fun first second => rank second < rank first := by decide

theorem mem_kindsDown {k : Kind} (ip : k.2 ≠ .unset) : k ∈ kindsDown := by
  obtain ⟨scope, family⟩ := k
  cases family with
  | unset => exact absurd rfl ip
  | inet =>
      cases scope with
      | _ => decide
  | inet6 =>
      cases scope with
      | _ => decide

theorem ip_of_mem {k : Kind} (listed : k ∈ kindsDown) : k.2 ≠ .unset := by
  obtain ⟨scope, -, member⟩ := List.mem_flatMap.mp listed
  intro unset
  rcases List.mem_cons.mp member with same | member
  · rw [same] at unset
    cases unset
  · rw [List.mem_singleton.mp member] at unset
    cases unset

theorem choose_eq (mine theirs : Tables) : choose mine theirs = kindsDown.findSome? (both mine theirs) := by
  unfold choose kindsDown
  induction scopesDown with
  | nil => rfl
  | cons s scopes ih =>
      rw [List.flatMap_cons, List.findSome?_append, List.findSome?_cons, ih]
      cases six : both mine theirs (s, .inet6) with
      | some pair => simp [six]
      | none =>
          cases four : both mine theirs (s, .inet) with
          | some pair => simp [six, four]
          | none => simp [six, four]

theorem both_eq_some_iff {mine theirs : Tables} {k : Kind} {e f : PeerPath} :
    both mine theirs k = some (e, f) ↔ mine.best k = some e ∧ theirs.best k = some f := by
  unfold both
  cases mine.best k with
  | none => simp
  | some first =>
      cases theirs.best k with
      | none => simp
      | some second => simp

variable {m : Paths} {now : Int} {mine theirs : PathTable}

theorem common_iff {k : Kind} (ip : k.2 ≠ .unset) : Common mine theirs k ↔
    ∃ e f, both (bestByScope m now mine.slots .start) (bestByScope m now theirs.slots .start) k = some (e, f) := by
  have first := not_congr (@best_eq_none_iff m now mine k ip)
  have second := not_congr (@best_eq_none_iff m now theirs k ip)
  rw [Common, and_iff_right ip, ← ne_eq, ← ne_eq] at *
  simp only [both_eq_some_iff, ← first, ← second, Option.ne_none_iff_exists', exists_and_left, exists_and_right]

/-- The entries chosen are the best ones of the highest common kind. -/
theorem choose_of_highest {k : Kind} (highest : Highest mine theirs k) :
    ∃ e f, choose (bestByScope m now mine.slots .start) (bestByScope m now theirs.slots .start) = some (e, f) ∧
      Best m now mine k e ∧ Best m now theirs k f := by
  have ip := highest.1.1
  obtain ⟨e, f, found⟩ := (@common_iff m now mine theirs k ip).mp highest.1
  refine ⟨e, f, ?_, ?_⟩
  · obtain ⟨before, after, split⟩ := List.append_of_mem (mem_kindsDown ip)
    rw [choose_eq, List.findSome?_eq_some_iff]
    refine ⟨before, k, after, split, found, ?_⟩
    intro other earlier
    have sorted := kindsDown_sorted
    rw [split, List.pairwise_append] at sorted
    have above := sorted.2.2 other earlier k List.mem_cons_self
    have listed : other ∈ kindsDown := by
      rw [split]
      exact List.mem_append_left _ earlier
    by_contra found'
    obtain ⟨⟨e', f'⟩, both'⟩ := Option.ne_none_iff_exists'.mp found'
    have lower := highest.2 other ((common_iff (ip_of_mem listed)).mpr ⟨e', f', both'⟩)
    omega
  · have entries := both_eq_some_iff.mp found
    exact ⟨(best_eq_some_iff ip).mp entries.1, (best_eq_some_iff ip).mp entries.2⟩

theorem choose_of_none (nothing : ∀ k, ¬ Common mine theirs k) :
    choose (bestByScope m now mine.slots .start) (bestByScope m now theirs.slots .start) = none := by
  rw [choose_eq, List.findSome?_eq_none_iff]
  intro k listed
  by_contra found
  obtain ⟨⟨e, f⟩, both'⟩ := Option.ne_none_iff_exists'.mp found
  exact nothing k ((common_iff (ip_of_mem listed)).mpr ⟨e, f, both'⟩)

/-- Of finitely many kinds one is the highest. -/
theorem exists_highest {k : Kind} (common : Common mine theirs k) : ∃ k, Highest mine theirs k := by
  have bounded (other : Kind) : rank other ≤ 15 := by
    obtain ⟨scope, family⟩ := other
    cases scope with
    | _ =>
        cases family with
        | _ => decide
  obtain ⟨n, least⟩ : ∃ n, n = 15 - rank k := ⟨_, rfl⟩
  induction n using Nat.strong_induction_on generalizing k with
  | _ n ih =>
      by_cases highest : ∀ other, Common mine theirs other → rank other ≤ rank k
      · exact ⟨k, common, highest⟩
      · simp only [not_forall, not_le] at highest
        obtain ⟨other, shared, above⟩ := highest
        have limit := bounded other
        exact ih (15 - rank other) (by omega) shared rfl

end Choice

section RoundTrip

def portOf : InetAddress → BitVec 16
  | .v4 _ port => port
  | .v6 _ port => port
  | .nil => 0

variable {iv mac : BitVec 64} {dest self other : Address}

/-- The fields of the packet stand where they are read. -/
theorem rendezvous_stands (a : InetAddress) :
    atWord 40 5 (rendezvous iv mac dest self other a) 29 = some other ∧
      Stands (hint a ++ []) (rendezvous iv mac dest self other a) 34 := by
  have header := (header_of_verb iv mac dest self (by decide : verbRendezvous &&& 0x80 = 0)).long
  have here : Stands ([0] ++ (wordBytes 5 other ++ (hint a ++ []))) (rendezvous iv mac dest self other a) 28 := by
    rw [Stands, rendezvous, ← header, List.drop_left, List.append_nil]
    rfl
  exact atWord_of_stands (by decide) (by decide) (stands_append.mp here).2

/-- The address of the packet is read back. -/
theorem hint_read {a : InetAddress} (ip : a.family ≠ .unset) {packet : List Byte}
    (here : Stands (hint a ++ []) packet 34) :
    at16 packet 34 = some (portOf a) ∧ ∃ addrlen : Byte, at8 packet 36 = some addrlen ∧ (addrlen = 4 ∨ addrlen = 16) ∧
      readAddress packet addrlen (portOf a) = some a := by
  cases a with
  | nil => exact absurd rfl ip
  | v4 ip port =>
      rw [hint, List.append_assoc, List.append_assoc] at here
      obtain ⟨number, behind⟩ := atWord_of_stands (by decide : 16 ≤ 8 * 2) (by decide) here
      have length := stands_append.mp behind
      obtain ⟨four, -⟩ := @atWord_of_stands 8 1 4 [] packet 36 (by decide) (by decide) length.1
      obtain ⟨address, -⟩ := atWord_of_stands (by decide : 32 ≤ 8 * 4) (by decide) length.2
      refine ⟨number, 4, four, .inl rfl, ?_⟩
      rw [readAddress, if_pos rfl]
      exact congrArg _ address
  | v6 ip port =>
      rw [hint, List.append_assoc, List.append_assoc] at here
      obtain ⟨number, behind⟩ := atWord_of_stands (by decide : 16 ≤ 8 * 2) (by decide) here
      have length := stands_append.mp behind
      obtain ⟨sixteen, -⟩ := @atWord_of_stands 8 1 16 [] packet 36 (by decide) (by decide) length.1
      obtain ⟨address, -⟩ := atWord_of_stands (by decide : 128 ≤ 8 * 16) (by decide) length.2
      refine ⟨number, 16, sixteen, .inr rfl, ?_⟩
      rw [readAddress, if_neg (by decide)]
      exact congrArg _ address

/-- The packet leads to the peer and the address that it was made for, or nowhere. -/
theorem doRENDEZVOUS_rendezvous (r : Receiver) {a : InetAddress} (ip : a.family ≠ .unset) :
    doRENDEZVOUS r (rendezvous iv mac dest self other a) =
      some (if r.isUpstream ∧ r.getPeer other ∧ 0 < portOf a ∧ r.shouldUsePath other a then
        [.putPacket a, .attemptToContactAt other a] else []) := by
  obtain ⟨peer, behind⟩ := @rendezvous_stands iv mac dest self other a
  obtain ⟨port, addrlen, length, width, address⟩ := hint_read ip behind
  unfold doRENDEZVOUS
  by_cases upstream : r.isUpstream = true
  · rw [if_pos upstream, peer]
    by_cases known : r.getPeer other = true
    · simp only [Option.bind_eq_bind, Option.bind_some, if_pos known, port, length]
      by_cases open' : 0 < portOf a
      · rw [if_pos ⟨open', width⟩, address]
        by_cases usable : r.shouldUsePath other a = true
        · rw [if_pos (⟨upstream, known, open', usable⟩ : _ ∧ _ ∧ _ ∧ _)]
          simp [usable]
        · simp [usable]
      · rw [if_neg fun all => open' all.1, if_neg fun all => open' all.2.2.1]
        rfl
    · simp [known]
  · rw [if_neg upstream, if_neg fun all => upstream all.1]

end RoundTrip

/-- Which packet goes first is left to chance; there is one for each peer. -/
theorem introduce_perm {m : Paths} {now : Int} {self : Address} {iv mac : Nat → BitVec 64} {prng : BitVec 64}
    {me other : Party} {mine theirs : PeerPath} {p q : PathObject}
    (chosen : choose (bestByScope m now me.paths.slots .start) (bestByScope m now other.paths.slots .start) =
      some (mine, theirs)) (pathMine : mine.p = some p) (pathTheirs : theirs.p = some q) :
    ∃ i j, (introduce m now self iv mac prng me other).Perm
      [⟨me.address, p, rendezvous (iv i) (mac i) me.address self other.address q.address⟩,
        ⟨other.address, q, rendezvous (iv j) (mac j) other.address self me.address p.address⟩] := by
  have sent : introduce m now self iv mac prng me other = [(prng &&& 1).toNat, (prng &&& 1).toNat + 1].map fun alt =>
      if alt &&& 1 = 0 then
        ⟨me.address, p, rendezvous (iv alt) (mac alt) me.address self other.address q.address⟩
      else ⟨other.address, q, rendezvous (iv alt) (mac alt) other.address self me.address p.address⟩ := by
    rw [introduce, chosen]
    simp only [Option.bind_some, pathMine, pathTheirs, Option.map_some]
  have parity : (prng &&& 1).toNat = 0 ∨ (prng &&& 1).toNat = 1 := by
    have one : (1 : BitVec 64).toNat = 1 := rfl
    rw [BitVec.toNat_and, one, Nat.and_one_is_mod]
    omega
  cases parity with
  | inl even =>
      rw [even] at sent
      exact ⟨0, 1, sent ▸ List.Perm.refl _⟩
  | inr odd =>
      rw [odd] at sent
      exact ⟨2, 1, sent ▸ List.Perm.swap _ _ _⟩

/-- What the receiver of an introduction does, if it can. -/
def Receiver.led (r : Receiver) (other : Address) (a : InetAddress) : List Effect :=
  if r.isUpstream ∧ r.getPeer other ∧ 0 < portOf a ∧ r.shouldUsePath other a then
    [.putPacket a, .attemptToContactAt other a] else []

/-- Both peers get one packet each, over and about their best paths of the highest common kind; without a common kind
there is none. The receiver contacts the peer that is named, at the address that is named, if it knows the one and may
use the other. -/
theorem introduction (m : Paths) (now : Int) (self : Address) (iv mac : Nat → BitVec 64) (prng : BitVec 64)
    (me other : Party) :
    ((∀ k, ¬ Common me.paths other.paths k) → introduce m now self iv mac prng me other = []) ∧
    ((∃ k, Common me.paths other.paths k) → ∃ k mine theirs p q toMe toOther,
      Highest me.paths other.paths k ∧ Best m now me.paths k mine ∧ Best m now other.paths k theirs ∧
      mine.p = some p ∧ theirs.p = some q ∧
      (introduce m now self iv mac prng me other).Perm [⟨me.address, p, toMe⟩, ⟨other.address, q, toOther⟩] ∧
      ∀ r : Receiver, doRENDEZVOUS r toMe = some (r.led other.address q.address) ∧
        doRENDEZVOUS r toOther = some (r.led me.address p.address)) := by
  constructor
  · intro nothing
    rw [introduce, choose_of_none nothing]
    rfl
  · intro ⟨_, common⟩
    obtain ⟨k, highest⟩ := exists_highest common
    obtain ⟨mine, theirs, chosen, bestMine, bestTheirs⟩ := @choose_of_highest m now _ _ k highest
    obtain ⟨p, pathMine, kindMine⟩ := bestMine.path
    obtain ⟨q, pathTheirs, kindTheirs⟩ := bestTheirs.path
    have ipMine : p.address.family ≠ .unset := fun unset => highest.1.1 (kindMine ▸ unset)
    have ipTheirs : q.address.family ≠ .unset := fun unset => highest.1.1 (kindTheirs ▸ unset)
    obtain ⟨i, j, sent⟩ := @introduce_perm m now self iv mac prng me other _ _ _ _ chosen pathMine pathTheirs
    exact ⟨k, mine, theirs, p, q, _, _, highest, bestMine, bestTheirs, pathMine, pathTheirs, sent, fun r =>
      ⟨doRENDEZVOUS_rendezvous r ipTheirs, doRENDEZVOUS_rendezvous r ipMine⟩⟩

/-- An upstream names a peer that the receiver has not met. -/
theorem stranger_not_contacted : ¬ ∀ (r : Receiver) (iv mac : BitVec 64) (dest self other : Address) (a : InetAddress),
    a.family ≠ .unset → r.isUpstream = true → portOf a ≠ 0 →
      doRENDEZVOUS r (rendezvous iv mac dest self other a) = some [.putPacket a, .attemptToContactAt other a] := by
  intro contacts
  have met := contacts ⟨true, fun _ => false, fun _ _ => true⟩ 0 0 1 2 3 (.v4 0x08080808 9993) (by decide) rfl (by decide)
  rw [doRENDEZVOUS_rendezvous _ (by decide), Option.some.injEq] at met
  exact absurd met (by decide)

end ZeroTierNode.Introduction

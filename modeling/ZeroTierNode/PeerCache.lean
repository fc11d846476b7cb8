import ZeroTierNode.Hello
import ZeroTierNode.IdentityCodec
import ZeroTierNode.PeerPaths
import ZeroTierNode.WireForms

/-!
A peer in the cache: `Peer::serializeForCache`, and `Peer::deserializeFromCache` with the
HELLOs it sends to the addresses that it finds. One that throws ends the loop; an
identity of a wrong form ends the process.
-/

namespace ZeroTierNode.PeerCache
open Library.Bytes Library.Outcomes Library.Records Buffer PeerPaths

/-- What `serializeForCache` reads of a peer. -/
structure SavedPeer where
  identity : Identity
  vProto : BitVec 16
  vMajor : BitVec 16
  vMinor : BitVec 16
  vRevision : BitVec 16
  /-- `_paths`, with `ZT_MAX_PEER_NETWORK_PATHS` entries. -/
  paths : Vector PeerPath 64

namespace SavedPeer

variable (peer : SavedPeer)

/-- The addresses of the paths that are stored: those in front of the first empty entry. -/
def addresses : List InetAddress :=
  (peer.paths.toList.takeWhile fun slot => slot.p.isSome).filterMap fun slot => slot.p.map PathObject.address

def remembered : Peer.Remembered := ⟨peer.vProto, peer.vMajor, peer.vMinor, peer.vRevision, peer.addresses⟩

def serializeForCache : List Byte := Peer.serializeForCache peer.identity peer.remembered

end SavedPeer

/-- What a node needs for a HELLO to the peer that is loaded. -/
structure Contacting where
  ends : BroadcastPaths.Ends
  encryptedHelloEnabled : Bool
  fresh : BitVec 64 × BitVec 64
  self : Identity
  worlds : Hello.Worlds
  now : BitVec 64
  path : BroadcastPaths.LivePath

/-- `attemptToContactAt` with a full HELLO: whether it returns. It throws if the packet has no room for the moons. -/
def Contacting.attemptToContactAt (c : Contacting) (atAddress : InetAddress) : Bool :=
  (Hello.sendHELLO c.ends c.encryptedHelloEnabled c.fresh c.self c.worlds atAddress c.now c.path).isSome

/-- The addresses that are tried, up to the first one at which it throws. -/
def attempts (c : Contacting) : List InetAddress → List InetAddress
  | [] => []
  | inaddr :: rest => if c.attemptToContactAt inaddr then inaddr :: attempts c rest else [inaddr]

/-- `Peer::deserializeFromCache` of a node with a private key. -/
def deserializeFromCache (c : Contacting) (b : List Byte) : Outcome (Option Peer.Cached) :=
  match (Peer.deserializeFromCache (fun _ => true) b).outcome with
  | .returned found => .returned (found.map fun peer => { peer with tried := attempts c peer.tried })
  | .threw => .threw
  | .aborted => .aborted

section RoundTrip

variable {c : Contacting} {peer : SavedPeer}

theorem length_addresses : peer.addresses.length ≤ 64 := by
  calc peer.addresses.length
      ≤ (peer.paths.toList.takeWhile fun slot => slot.p.isSome).length := List.length_filterMap_le ..
    _ ≤ peer.paths.toList.length := (List.takeWhile_sublist _).length_le
    _ = 64 := peer.paths.length_toList

theorem tryPaths_of_stands {b : List Byte} {addresses : List InetAddress} {ptr : Nat}
    (here : Stands (addresses.flatMap InetAddress.serialize) b ptr) :
    Peer.tryPaths b addresses.length ptr = addresses.filter InetAddress.isSet := by
  induction addresses generalizing ptr with
  | nil => rfl
  | cons inaddr addresses ih =>
      rw [List.flatMap_cons, stands_append] at here
      obtain ⟨first, rest⟩ := here
      rw [List.length_cons, Peer.tryPaths, InetAddress.recovers inaddr b ptr first]
      dsimp only
      rw [ih rest, List.filter_cons]
      by_cases set : inaddr.isSet = true
      · rw [if_pos set, if_pos set]
        rfl
      · rw [if_neg set, if_neg set]
        rfl

/-- All addresses are tried exactly if there is no throw before the last. -/
theorem attempts_eq_iff (addresses : List InetAddress) :
    attempts c addresses = addresses ↔ ∀ addr ∈ addresses.dropLast, c.attemptToContactAt addr = true := by
  induction addresses with
  | nil => simp [attempts]
  | cons inaddr addresses ih =>
      rw [attempts]
      by_cases sent : c.attemptToContactAt inaddr = true
      · rw [if_pos sent, List.cons.injEq, and_iff_right rfl, ih]
        cases addresses with
        | nil => simp
        | cons next addresses => simp [sent]
      · rw [if_neg sent]
        cases addresses with
        | nil => simp
        | cons next addresses => simp [sent]

/-- What is loaded of a peer that was saved. -/
theorem deserialize_saved (c : Contacting) (peer : SavedPeer) :
    deserializeFromCache c peer.serializeForCache =
      .returned (if peer.identity.isSet then
        some ⟨peer.identity, peer.vProto, peer.vMajor, peer.vMinor, peer.vRevision,
          attempts c (peer.addresses.filter InetAddress.isSet)⟩
      else none) := by
  obtain ⟨outcome, here⟩ := Peer.deserializeFromCache_of_stands (stands_self peer.serializeForCache)
  have counted : (BitVec.ofNat 16 peer.remembered.paths.length).toNat = peer.addresses.length := by
    have few := @length_addresses peer
    rw [BitVec.toNat_ofNat]
    exact Nat.mod_eq_of_lt (Nat.lt_of_le_of_lt few (by decide))
  have tried : Peer.tryPaths peer.serializeForCache peer.addresses.length 82 = peer.addresses.filter InetAddress.isSet :=
    tryPaths_of_stands here
  rw [deserializeFromCache, outcome, counted, tried]
  by_cases set : peer.identity.isSet = true
  · rw [if_pos set, if_pos set]
    rfl
  · rw [if_neg set, if_neg set]
    rfl

end RoundTrip

section Reading

variable {c : Contacting} {b : List Byte}

/-- What is read behind the identity. -/
def counters (b : List Byte) (id : Identity) (ptr : Nat) : Reading (Option Peer.Cached) := do
  let vProto ← plainly (at16 b ptr)
  let vMajor ← plainly (at16 b (ptr + 2))
  let vMinor ← plainly (at16 b (ptr + 4))
  let vRevision ← plainly (at16 b (ptr + 6))
  let tryPathCount ← plainly (at16 b (ptr + 8))
  return some ⟨id, vProto, vMajor, vMinor, vRevision, Peer.tryPaths b tryPathCount.toNat (ptr + 10)⟩

theorem counters_cases (id : Identity) (ptr : Nat) :
    (counters b id ptr).outcome = .threw ∨
      ∃ peer, (counters b id ptr).outcome = .returned (some peer) ∧ peer.identity = id := by
  have missing {α β : Type} (next : α → Reading β) : (plainly none >>= next).outcome = .threw := rfl
  have found {α β : Type} (value : α) (next : α → Reading β) : (plainly (some value) >>= next) = next value := rfl
  rw [counters]
  cases at16 b ptr with
  | none => exact .inl (missing _)
  | some vProto =>
      rw [found]
      cases at16 b (ptr + 2) with
      | none => exact .inl (missing _)
      | some vMajor =>
          rw [found]
          cases at16 b (ptr + 4) with
          | none => exact .inl (missing _)
          | some vMinor =>
              rw [found]
              cases at16 b (ptr + 6) with
              | none => exact .inl (missing _)
              | some vRevision =>
                  rw [found]
                  cases at16 b (ptr + 8) with
                  | none => exact .inl (missing _)
                  | some tryPathCount => exact .inr ⟨_, rfl, rfl⟩

theorem outcome_of_identity {id : Identity} {key : Option (BitVec 512)} {taken : Nat} (version : at8 b 0 = some 2)
    (read : Identity.deserializeAt b 1 = .returned ((id, key), taken)) (set : id.isSet = true) :
    (Peer.deserializeFromCache (fun _ => true) b).outcome = (Logged.guarded none (counters b id (1 + taken))).outcome := by
  have same {first second : Reading (Option Peer.Cached)} (ends : first.outcome = second.outcome) :
      (Logged.guarded none first).outcome = (Logged.guarded none second).outcome := by
    unfold Logged.guarded
    cases ended : second.outcome <;> simp [ends, ended]
  unfold Peer.deserializeFromCache Identity.deserialize
  rw [version, read]
  apply same
  change (if ¬ id.isSet = true then (Pure.pure none : Reading (Option Peer.Cached))
    else counters b id (1 + taken)).outcome = _
  rw [if_neg (not_not.mpr set)]

/-- Bytes that are no peer of this version end the call without one; otherwise the identity decides how it goes on. -/
theorem outcome_cases (c : Contacting) (b : List Byte) :
    (at8 b 0 ≠ some 2 ∧ deserializeFromCache c b = .returned none) ∨
      (at8 b 0 = some 2 ∧
        ((Identity.deserializeAt b 1 = .aborted ∧ deserializeFromCache c b = .aborted) ∨
          (Identity.deserializeAt b 1 ≠ .aborted ∧ ∃ found, deserializeFromCache c b = .returned found ∧
            ∀ peer ∈ found, peer.identity.isSet = true ∧
              ∃ key taken, Identity.deserializeAt b 1 = .returned ((peer.identity, key), taken)))) := by
  rw [deserializeFromCache]
  unfold Peer.deserializeFromCache Identity.deserialize
  cases version : at8 b 0 with
  | none => simp [plainly, Logged.ofOption, Bind.bind, Logged.bind, Logged.guarded]
  | some v =>
      by_cases two : v = 2#8
      · subst two
        refine .inr ⟨rfl, ?_⟩
        cases read : Identity.deserializeAt b 1 with
        | aborted => exact .inl ⟨rfl, rfl⟩
        | threw => exact .inr ⟨by simp, none, rfl, fun _ member => absurd member (Option.not_mem_none _)⟩
        | returned value =>
            obtain ⟨⟨id, key⟩, taken⟩ := value
            refine .inr ⟨by simp, ?_⟩
            by_cases set : id.isSet = true
            · have outcome := outcome_of_identity version read set
              unfold Peer.deserializeFromCache Identity.deserialize Logged.guarded at outcome
              rw [version, read] at outcome
              unfold Logged.guarded
              rcases @counters_cases b id (1 + taken) with threw | ⟨peer, returned, same⟩
              · rw [threw] at outcome
                refine ⟨none, ?_, fun _ member => absurd member (Option.not_mem_none _)⟩
                rw [outcome]
                rfl
              · rw [returned] at outcome
                dsimp only at outcome
                rw [returned] at outcome
                refine ⟨some { peer with tried := attempts c peer.tried }, ?_, ?_⟩
                · rw [outcome]
                  rfl
                · intro found member
                  cases member
                  exact ⟨same ▸ set, key, taken, same ▸ rfl⟩
            · refine ⟨none, ?_, fun _ member => absurd member (Option.not_mem_none _)⟩
              simp [plainly, Logged.ofOption, Bind.bind, Logged.bind, Logged.guarded, set, Pure.pure, Logged.pure]
      · simp [plainly, Logged.ofOption, Bind.bind, Logged.bind, Logged.guarded, two, Pure.pure, Logged.pure]

/-- An identity that is read stands there as `serialize` writes it. -/
theorem stands_of_deserializeAt {id : Identity} {key : Option (BitVec 512)} {i taken : Nat}
    (read : Identity.deserializeAt b i = .returned ((id, key), taken)) :
    Stands (IdentityCodec.serialize true ⟨id, key⟩) b i := by
  rw [Identity.deserializeAt] at read
  cases addressRead : Address.readAt b i with
  | none =>
      rw [addressRead] at read
      cases read
  | some address =>
      cases typeRead : at8 b (i + 5) with
      | none =>
          rw [addressRead, typeRead] at read
          cases read
      | some type =>
          rw [addressRead, typeRead] at read
          dsimp only at read
          by_cases right : type = 0
          · subst right
            have address' := @Hello.stands_of_atWord 5 _ _ _ addressRead
            have type' := @Hello.stands_of_atWord 1 _ _ _ typeRead
            rw [if_neg (not_not.mpr rfl)] at read
            cases publicRead : atWord 512 64 b (i + 6) with
            | none =>
                rw [publicRead] at read
                cases read
            | some publicKey =>
                have public' := @Hello.stands_of_atWord 64 _ _ _ publicRead
                have front {rest : List Byte} (behind : Stands rest b (i + 70)) :
                    Stands (address.appendTo ++ wordBytes 1 (0 : Byte) ++ wordBytes 64 publicKey ++ rest) b i :=
                  stands_append.mpr ⟨stands_append.mpr ⟨stands_append.mpr ⟨address', type'⟩, public'⟩, behind⟩
                cases lengthRead : at8 b (i + 70) with
                | none =>
                    rw [publicRead, lengthRead] at read
                    cases read
                | some length =>
                    have length' := @Hello.stands_of_atWord 1 _ _ _ lengthRead
                    rw [publicRead, lengthRead] at read
                    dsimp only at read
                    by_cases none : length = 0
                    · rw [if_neg (not_not.mpr none)] at read
                      cases read
                      exact front (none ▸ length')
                    · rw [if_pos none] at read
                      by_cases whole : length = 64
                      · rw [if_neg (not_not.mpr whole)] at read
                        cases privateRead : atWord 512 64 b (i + 71) with
                        | none =>
                            rw [privateRead] at read
                            cases read
                        | some privateKey =>
                            rw [privateRead] at read
                            cases read
                            exact front (stands_append.mpr
                              ⟨whole ▸ length', @Hello.stands_of_atWord 64 _ _ _ privateRead⟩)
                      · rw [if_pos whole] at read
                        cases read
          · rw [if_pos right] at read
            cases read

end Reading

/-- A peer comes back as it was saved, and each address that was stored is tried once. -/
def RoundTrips (c : Contacting) (peer : SavedPeer) : Prop :=
  deserializeFromCache c peer.serializeForCache =
    .returned (some ⟨peer.identity, peer.vProto, peer.vMajor, peer.vMinor, peer.vRevision, peer.addresses⟩)

/-- The call returns, and if it returns a peer, its identity stands in the bytes as an identity is written. -/
def Reads (c : Contacting) (b : List Byte) : Prop :=
  ∃ found, deserializeFromCache c b = .returned found ∧ ∀ peer ∈ found, peer.identity.isSet = true ∧
    ∃ key, Stands (IdentityCodec.serialize true ⟨peer.identity, key⟩) b 1

/-- Saved peers come back exactly if they have an address and no HELLO but the last throws; other bytes are read exactly
if there is no identity of a wrong form where one is looked for. -/
theorem peer_cache_iff (c : Contacting) :
    (∀ peer : SavedPeer, (∀ addr ∈ peer.addresses, addr.isSet = true) →
      (RoundTrips c peer ↔ peer.identity.isSet = true ∧
        ∀ addr ∈ peer.addresses.dropLast, c.attemptToContactAt addr = true)) ∧
    ∀ b : List Byte, Reads c b ↔ (at8 b 0 = some 2 → Identity.Plain (b, 1)) := by
  constructor
  · intro peer stored
    have kept : peer.addresses.filter InetAddress.isSet = peer.addresses := List.filter_eq_self.mpr stored
    rw [RoundTrips, deserialize_saved, kept, ← attempts_eq_iff]
    by_cases set : peer.identity.isSet = true
    · simp [set]
    · simp [set]
  · intro b
    rcases outcome_cases c b with ⟨other, returned⟩ | ⟨version, ⟨aborts, aborted⟩ | ⟨plain, found, returned, formed⟩⟩
    · refine iff_of_true ⟨none, returned, ?_⟩ fun version => absurd version other
      intro peer member
      cases member
    · refine iff_of_false ?_ fun fine => (Identity.deserializeAt_aborted_iff b 1).mp aborts (fine version)
      intro ⟨found, returned, _⟩
      rw [aborted] at returned
      cases returned
    · refine iff_of_true ⟨found, returned, ?_⟩ fun _ => ?_
      · intro peer member
        obtain ⟨set, key, taken, read⟩ := formed peer member
        exact ⟨set, key, stands_of_deserializeAt read⟩
      · by_contra wrong
        exact plain ((Identity.deserializeAt_aborted_iff b 1).mpr wrong)

/-- An identity of type 1. -/
theorem wrong_type_aborts : ¬ ∃ c : Contacting, Reads c [2, 0, 0, 0, 0, 1, 1] := by
  intro ⟨c, found, returned, _⟩
  have plain : ¬ Identity.Plain ([2, 0, 0, 0, 0, 1, 1], 1) := fun plain =>
    absurd (plain.1 1 (by decide)) (by decide)
  have aborts := (Identity.deserializeAt_aborted_iff _ _).mpr plain
  rcases outcome_cases c [2, 0, 0, 0, 0, 1, 1] with ⟨other, -⟩ | ⟨-, ⟨-, aborted⟩ | ⟨fine, -⟩⟩
  · exact other (by decide)
  · rw [aborted] at returned
    cases returned
  · exact fine aborts

end ZeroTierNode.PeerCache

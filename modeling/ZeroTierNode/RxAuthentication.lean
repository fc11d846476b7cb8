import ZeroTierNode.Library.Monitor
import ZeroTierNode.RxQueue

/-!
Authentication before handling. A ledger follows the events of the receive path:
which bytes were accepted as a whole at each place and not changed since, and over
which paths their pieces arrived. A handler may only be run on bytes the ledger
has as accepted.
-/

namespace ZeroTierNode.RxAuthentication
open Library.Bytes Library.Runs Library.Monitor RxQueue

structure Ledger where
  /-- The bytes accepted at a place and not modified since. -/
  accepted : Place → Option (List Byte)
  /-- The paths over which the bytes at a place arrived. -/
  pieces : Place → List InetAddress
  /-- The path over which a stored fragment arrived. -/
  fragPath : Fin rxQueueSize → Nat → Option InetAddress

namespace Ledger

def nil : Ledger := ⟨fun _ => none, fun _ => [], fun _ _ => none⟩

def accept (ledger : Ledger) (place : Place) (data : List Byte) : Ledger :=
  { ledger with accepted := Function.update ledger.accepted place (some data) }

/-- The bytes at a place are replaced or extended: nothing vouches for them any more. -/
def modify (ledger : Ledger) (place : Place) (pieces : List InetAddress) : Ledger :=
  { ledger with accepted := Function.update ledger.accepted place none
                pieces := Function.update ledger.pieces place pieces }

/-- Record an event; `none` when the event breaks the law. -/
def watch (envAt : Place → Environment) (ledger : Ledger) : Event → Option Ledger
  | .allocate _ _ | .joining _ | .assembled _ _ | .tryDecode _ _ => some ledger
  | .init place _ path => some (ledger.modify place [path])
  | .store slot number _ path => some { ledger with
      fragPath := Function.update ledger.fragPath slot
        (Function.update (ledger.fragPath slot) number (some path)) }
  | .append slot number _ => some (ledger.modify (some slot)
      (ledger.pieces (some slot) ++ (ledger.fragPath slot number).toList))
  | .copy slot => some { ledger with
      accepted := Function.update ledger.accepted (some slot) (ledger.accepted none)
      pieces := Function.update ledger.pieces (some slot) (ledger.pieces none) }
  | .trusted place data =>
      if ∀ path ∈ ledger.pieces place,
          (envAt place).shouldInboundPathBeTrusted path (Packet.trustedPathId data) = true then
        some (ledger.accept place data)
      else none
  | .dearmored place key data plain =>
      if (envAt place).key (Packet.source data) = some key ∧
          (envAt place).dearmor key data = (true, plain) then some (ledger.accept place plain)
      else none
  | .uncompressed place data plain =>
      if ledger.accepted place = some data ∧
          Packet.uncompress (envAt place).lz4 data = some plain then some (ledger.accept place plain)
      else none
  | .handle place _ data => if ledger.accepted place = some data then some ledger else none

end Ledger

/-- The node as the calls of one input see it. -/
def envAt : Input → Place → Environment
  | .datagram env _ _ _, _ => env
  | .doAnythingWaitingForPeer envs _, place => envs (place.getD 0)
  | .doTimerTasks envs _, place => envs (place.getD 0)

/-- The receive path, watched by the ledger. -/
def step : Watched Switch Ledger → Input → Watched Switch Ledger :=
  Library.Monitor.step react (fun input => Ledger.watch (envAt input))

/-- If a packet marked as sent over a trusted path comes with a head that arrived on a path trusted
for its path id, all its pieces arrived on paths trusted for that id. -/
def TrustedTogether (env : Environment) (path : InetAddress) (data : List Byte)
    (pieces : List InetAddress) : Prop :=
  Packet.cipher data = 2 →
    env.shouldInboundPathBeTrusted path (Packet.trustedPathId data) = true →
    ∀ piece ∈ pieces, env.shouldInboundPathBeTrusted piece (Packet.trustedPathId data) = true

/-- The head's bytes with the payloads of fragments `number`, `number + 1`, ... behind them. -/
def assembledData (frags : Nat → List Byte) : Nat → Nat → List Byte → List Byte
  | _, 0, data => data
  | number, count + 1, data =>
      assembledData frags (number + 1) count (data ++ Packet.payload (frags (number - 1)))

/-- The paths of fragments `number`, `number + 1`, ... behind those of the head. -/
def assembledPieces (fragPath : Nat → Option InetAddress) : Nat → Nat → List InetAddress → List InetAddress
  | _, 0, pieces => pieces
  | number, count + 1, pieces =>
      assembledPieces fragPath (number + 1) count (pieces ++ (fragPath number).toList)

/-- A fragment that completes an entry finds the entry's head not yet authenticated. -/
def FragmentMeets (env : Environment) (path : InetAddress) (fragment : List Byte) (sw : Switch)
    (ledger : Ledger) : Prop :=
  let id := Packet.packetId fragment
  let number := Packet.fragmentNumber fragment
  let total := Packet.totalFragments fragment
  let (slot, sw) := sw.findRXQueueEntry id
  let rq := sw.rxQueue slot
  rq.packetId = id → rq.haveFragments &&& fragmentBit number = 0 →
    (countBits (addFragment rq fragment).haveFragments).toNat = total →
    rq.frag0.authenticated = false ∧
      TrustedTogether env rq.frag0.path
        (assembledData (addFragment rq fragment).frags 1 (total - 1) rq.frag0.data)
        (assembledPieces (Function.update (ledger.fragPath slot) number (some path)) 1 (total - 1)
          (ledger.pieces (some slot)))

/-- An oversized head does not take over an entry that is complete and authenticated. -/
def HeadMeets (env : Environment) (path : InetAddress) (data : List Byte) (sw : Switch)
    (ledger : Ledger) : Prop :=
  let id := Packet.packetId data
  let (slot, sw) := sw.findRXQueueEntry id
  let rq := sw.rxQueue slot
  (rq.packetId ≠ id → Packet.maxPacketLength < data.length →
    ¬ (rq.complete = true ∧ rq.frag0.authenticated = true)) ∧
  (rq.packetId = id → rq.haveFragments &&& 1 = 0 → 1 < rq.totalFragments →
    (countBits (rq.haveFragments ||| 1)).toNat = rq.totalFragments →
    TrustedTogether env path (assembledData rq.frags 1 (rq.totalFragments - 1) data)
      (assembledPieces (ledger.fragPath slot) 1 (rq.totalFragments - 1) [path]))

def RetryMeets (envs : Fin rxQueueSize → Environment) (sw : Switch) (ledger : Ledger) : Prop :=
  ∀ slot, (sw.rxQueue slot).timestamp ≠ 0 → (sw.rxQueue slot).complete = true →
    TrustedTogether (envs slot) (sw.rxQueue slot).frag0.path (sw.rxQueue slot).frag0.data
      (ledger.pieces (some slot))

def InputMeets (sw : Switch) (ledger : Ledger) : Input → Prop
  | .datagram env _ path data =>
      match classify env data with
      | .fragment => FragmentMeets env path data sw ledger
      | .head => HeadMeets env path data sw ledger
      | .whole | .ignored => True
  | .doAnythingWaitingForPeer envs _ => RetryMeets envs sw ledger
  | .doTimerTasks envs _ => RetryMeets envs sw ledger

section Watching

variable {envAt : Place → Environment} {ledger : Ledger}

/-- The bytes at a place were accepted as they are and need no further decompression. -/
def Vouched (ledger : Ledger) (place : Place) (data : List Byte) : Prop :=
  ledger.accepted place = some data ∧ ∀ lz4, Packet.uncompress lz4 data = some data

/-- The ledgers differ at most in what is accepted at one place. -/
structure AcceptedOnly (place : Place) (before after : Ledger) : Prop where
  accepted : ∀ other, other ≠ place → after.accepted other = before.accepted other
  pieces : after.pieces = before.pieces
  fragPath : after.fragPath = before.fragPath

theorem AcceptedOnly.refl (place : Place) (ledger : Ledger) : AcceptedOnly place ledger ledger :=
  ⟨fun _ _ => rfl, rfl, rfl⟩

theorem AcceptedOnly.accept {place : Place} {before after : Ledger}
    (only : AcceptedOnly place before after) (data : List Byte) :
    AcceptedOnly place before (after.accept place data) := by
  refine ⟨fun other ne => ?_, only.pieces, only.fragPath⟩
  change Function.update after.accepted place (some data) other = _
  rw [Function.update_of_ne ne]
  exact only.accepted other ne

@[simp] theorem accept_accepted (place : Place) (data : List Byte) :
    (ledger.accept place data).accepted place = some data := Function.update_self _ _ _

@[simp] theorem modify_pieces (place : Place) (pieces : List InetAddress) :
    (ledger.modify place pieces).pieces place = pieces := Function.update_self _ _ _

theorem modify_accepted_ne {place other : Place} (ne : other ≠ place) (pieces : List InetAddress) :
    (ledger.modify place pieces).accepted other = ledger.accepted other := Function.update_of_ne ne _ _

/-- Decompression and handling of bytes the ledger has as accepted. -/
theorem handled_watched {place : Place} {data plain : List Byte}
    (accepted : ledger.accepted place = some data)
    (opened : Packet.uncompress (envAt place).lz4 data = some plain) :
    watchAll (Ledger.watch envAt) ledger [.uncompressed place data plain, .handle place (Packet.verb plain) plain] =
      some (ledger.accept place plain) := by
  simp [Ledger.watch, accepted, opened]

theorem decodeFromPeer_watched {place : Place} {packet : IncomingPacket}
    (held : packet.authenticated = true → ledger.accepted place = some packet.data) :
    ∃ after, watchAll (Ledger.watch envAt) ledger (decodeFromPeer (envAt place) place packet).2.2 = some after ∧
      AcceptedOnly place ledger after ∧
      ((decodeFromPeer (envAt place) place packet).1 = false →
        ((decodeFromPeer (envAt place) place packet).2.1 = packet ∧ after = ledger) ∨
          Vouched after place (decodeFromPeer (envAt place) place packet).2.1.data) := by
  unfold decodeFromPeer
  cases known : (envAt place).key (Packet.source packet.data) with
  | none => exact ⟨ledger, rfl, .refl place ledger, fun _ => .inl ⟨rfl, rfl⟩⟩
  | some key =>
      -- what the packet is after authentication, and the ledger that vouches for it
      obtain ⟨accepted, data, checked⟩ : ∃ accepted data,
          (if packet.authenticated = true then (true, packet.data)
            else (envAt place).dearmor key packet.data) = (accepted, data) := ⟨_, _, rfl⟩
      dsimp only
      rw [checked]
      cases accepted with
      | false => exact ⟨ledger, rfl, .refl place ledger, fun pending => by cases pending⟩
      | true =>
          obtain ⟨vouching, watched, only, vouched⟩ : ∃ vouching,
              watchAll (Ledger.watch envAt) ledger (if packet.authenticated = true then []
                else [.dearmored place key packet.data data]) = some vouching ∧
              AcceptedOnly place ledger vouching ∧ vouching.accepted place = some data := by
            by_cases authenticated : packet.authenticated = true
            · rw [if_pos authenticated] at checked ⊢
              cases checked
              exact ⟨ledger, rfl, .refl place ledger, held authenticated⟩
            · rw [if_neg authenticated] at checked ⊢
              refine ⟨ledger.accept place data, ?_, (AcceptedOnly.refl place ledger).accept data,
                accept_accepted place data⟩
              simp [Ledger.watch, known, checked]
          dsimp only
          rw [if_pos rfl]
          cases opened : Packet.uncompress (envAt place).lz4 data with
          | none => exact ⟨vouching, watched, only, fun pending => by cases pending⟩
          | some plain =>
              have handled : watchAll (Ledger.watch envAt) ledger ((if packet.authenticated = true then []
                  else [.dearmored place key packet.data data]) ++
                    [.uncompressed place data plain, .handle place (Packet.verb plain) plain]) =
                  some (vouching.accept place plain) := by
                rw [watchAll_append, watched, Option.bind_some, handled_watched vouched opened]
              dsimp only
              cases (envAt place).handler (Packet.verb plain) plain with
              | done after =>
                  exact ⟨_, handled, only.accept plain, fun pending => by cases pending⟩
              | retry =>
                  exact ⟨_, handled, only.accept plain, fun _ => .inr
                    ⟨accept_accepted place plain, Packet.uncompress_idempotent _ opened⟩⟩

/-- `tryDecode` keeps the law when an authenticated packet is vouched for, and when the pieces of a
packet sent over a trusted path can be trusted together. -/
theorem tryDecode_watched {place : Place} {packet : IncomingPacket}
    (held : packet.authenticated = true → Packet.cipher packet.data ≠ 2 →
      Vouched ledger place packet.data)
    (together : TrustedTogether (envAt place) packet.path packet.data (ledger.pieces place)) :
    ∃ after, watchAll (Ledger.watch envAt) ledger (tryDecode (envAt place) place packet).2.2 = some after ∧
      AcceptedOnly place ledger after ∧
      ((tryDecode (envAt place) place packet).1 = false →
        (tryDecode (envAt place) place packet).2.1.authenticated = true →
        Packet.cipher (tryDecode (envAt place) place packet).2.1.data ≠ 2 →
          Vouched after place (tryDecode (envAt place) place packet).2.1.data) := by
  unfold tryDecode
  dsimp only
  split
  · rename_i overTrusted
    split
    · rename_i pathTrusted
      obtain ⟨after, watched, only, pending⟩ := @decodeFromPeer_watched envAt
        (ledger.accept place packet.data) place { packet with authenticated := true }
        (fun _ => accept_accepted place packet.data)
      refine ⟨after, ?_, ?_, ?_⟩
      · rw [watchAll_cons, Ledger.watch, Option.bind_some, watchAll_cons, Ledger.watch,
          if_pos (together overTrusted pathTrusted), Option.bind_some]
        exact watched
      · refine ⟨fun other ne => ?_, only.pieces, only.fragPath⟩
        rw [only.accepted other ne]
        exact ((AcceptedOnly.refl place ledger).accept packet.data).accepted other ne
      · intro waiting _ notTrusted
        rcases pending waiting with ⟨same, -⟩ | vouched
        · rw [same] at notTrusted
          exact absurd overTrusted notTrusted
        · exact vouched
    · exact ⟨ledger, rfl, .refl place ledger, fun pending => by cases pending⟩
  · rename_i notTrusted
    split
    · exact ⟨ledger, rfl, .refl place ledger, fun pending => by cases pending⟩
    · obtain ⟨after, watched, only, pending⟩ := @decodeFromPeer_watched envAt ledger place packet
        (fun authenticated => (held authenticated notTrusted).1)
      refine ⟨after, watched, only, ?_⟩
      intro waiting authenticated _
      rcases pending waiting with ⟨same, unchanged⟩ | vouched
      · rw [same] at authenticated ⊢
        rw [unchanged]
        exact held authenticated notTrusted
      · exact vouched

/-- An entry that will be retried with an authenticated packet is vouched for. -/
def EntryVouched (ledger : Ledger) (slot : Fin rxQueueSize) (rq : RXQueueEntry) : Prop :=
  rq.timestamp ≠ 0 → rq.complete = true → rq.frag0.authenticated = true →
    Packet.cipher rq.frag0.data ≠ 2 → Vouched ledger (some slot) rq.frag0.data

def QueueVouched (sw : Switch) (ledger : Ledger) : Prop :=
  ∀ slot, EntryVouched ledger slot (sw.rxQueue slot)

/-- Nothing accepted in other entries is lost. -/
def OtherSlotsKept (slot : Fin rxQueueSize) (before after : Ledger) : Prop :=
  ∀ other : Fin rxQueueSize, other ≠ slot → after.accepted (some other) = before.accepted (some other)

theorem AcceptedOnly.otherSlots {slot : Fin rxQueueSize} {before after : Ledger}
    (only : AcceptedOnly (some slot) before after) : OtherSlotsKept slot before after := by
  intro other ne
  exact only.accepted (some other) (by simpa using ne)

theorem OtherSlotsKept.trans {slot : Fin rxQueueSize} {first second third : Ledger}
    (before : OtherSlotsKept slot first second) (after : OtherSlotsKept slot second third) :
    OtherSlotsKept slot first third := by
  intro other ne
  rw [after other ne, before other ne]

theorem modify_otherSlots (slot : Fin rxQueueSize) (ledger : Ledger) (pieces : List InetAddress) :
    OtherSlotsKept slot ledger (ledger.modify (some slot) pieces) := by
  intro other ne
  exact modify_accepted_ne (by simpa using ne) pieces

theorem setEntry_vouched {sw : Switch} {after : Ledger} {slot : Fin rxQueueSize} {rq : RXQueueEntry}
    (queue : QueueVouched sw ledger) (kept : OtherSlotsKept slot ledger after)
    (entry : EntryVouched after slot rq) : QueueVouched (sw.setEntry slot rq) after := by
  intro other
  by_cases same : other = slot
  · subst same
    rw [Switch.setEntry]
    dsimp only
    rw [Function.update_self]
    exact entry
  · rw [Switch.setEntry]
    dsimp only
    rw [Function.update_of_ne same]
    intro used complete authenticated notTrusted
    have old := queue other used complete authenticated notTrusted
    exact ⟨(kept other same).trans old.1, old.2⟩

/-- The append loop adds the fragments' payloads to the packet and their paths to its pieces. -/
theorem appendFragments_watched (slot : Fin rxQueueSize) (frags : Nat → List Byte) (number count : Nat)
    (data : List Byte) (ledger : Ledger) :
    ∃ after, watchAll (Ledger.watch envAt) ledger (appendFragments slot frags number count data).2.1 = some after ∧
      OtherSlotsKept slot ledger after ∧
      ((appendFragments slot frags number count data).2.2 = true →
        (appendFragments slot frags number count data).1 = assembledData frags number count data ∧
        after.pieces (some slot) = assembledPieces (ledger.fragPath slot) number count
          (ledger.pieces (some slot))) := by
  induction count generalizing number data ledger with
  | zero => exact ⟨ledger, rfl, fun _ _ => rfl, fun _ => ⟨rfl, rfl⟩⟩
  | succ count ih =>
      unfold appendFragments
      dsimp only
      split
      · exact ⟨ledger, rfl, fun _ _ => rfl, fun ended => by cases ended⟩
      · let next := ledger.modify (some slot)
          (ledger.pieces (some slot) ++ (ledger.fragPath slot number).toList)
        obtain ⟨after, watched, kept, ended⟩ :=
          ih (number + 1) (data ++ Packet.payload (frags (number - 1))) next
        refine ⟨after, ?_, (modify_otherSlots slot ledger _).trans kept, ?_⟩
        · rw [watchAll_cons]
          exact watched
        · intro finished
          have rest := ended finished
          have pieces : next.pieces (some slot) =
              ledger.pieces (some slot) ++ (ledger.fragPath slot number).toList := modify_pieces _ _
          rw [pieces] at rest
          exact rest

/-- Assembling an entry whose head is not authenticated keeps the law. -/
theorem assemble_watched (slot : Fin rxQueueSize) (rq : RXQueueEntry)
    (fresh : rq.frag0.authenticated = false)
    (together : TrustedTogether (envAt (some slot)) rq.frag0.path
      (assembledData rq.frags 1 (rq.totalFragments - 1) rq.frag0.data)
      (assembledPieces (ledger.fragPath slot) 1 (rq.totalFragments - 1) (ledger.pieces (some slot)))) :
    ∃ after, watchAll (Ledger.watch envAt) ledger (assemble (envAt (some slot)) slot rq).2 = some after ∧
      OtherSlotsKept slot ledger after ∧
      EntryVouched after slot (assemble (envAt (some slot)) slot rq).1 := by
  obtain ⟨joined, watched, kept, ended⟩ := @appendFragments_watched envAt slot rq.frags 1
    (rq.totalFragments - 1) rq.frag0.data ledger
  unfold assemble
  dsimp only
  split
  · rename_i finished
    obtain ⟨sameData, samePieces⟩ := ended finished
    rw [sameData]
    obtain ⟨after, decoded, only, waiting⟩ := @tryDecode_watched envAt joined (some slot)
      { rq.frag0 with data := assembledData rq.frags 1 (rq.totalFragments - 1) rq.frag0.data }
      (fun authenticated => by rw [fresh] at authenticated; cases authenticated)
      (by rw [samePieces]; exact together)
    have events : watchAll (Ledger.watch envAt) ledger (.joining slot ::
        (appendFragments slot rq.frags 1 (rq.totalFragments - 1) rq.frag0.data).2.1 ++
          .assembled slot rq.totalFragments ::
          (tryDecode (envAt (some slot)) (some slot) { rq.frag0 with
            data := assembledData rq.frags 1 (rq.totalFragments - 1) rq.frag0.data }).2.2) =
        some after := by
      rw [List.cons_append, watchAll_cons, Ledger.watch, Option.bind_some, watchAll_append, watched,
        Option.bind_some, watchAll_cons]
      exact decoded
    split
    · exact ⟨after, events, kept.trans only.otherSlots, fun used => absurd rfl used⟩
    · rename_i pending
      refine ⟨after, events, kept.trans only.otherSlots, ?_⟩
      intro _ _ authenticated notTrusted
      exact waiting (by simpa using pending) authenticated notTrusted
  · refine ⟨joined, by rw [watchAll_cons]; exact watched, kept, ?_⟩
    intro _ _ authenticated _
    rw [fresh] at authenticated
    cases authenticated

theorem findRXQueueEntry_vouched {sw : Switch} (queue : QueueVouched sw ledger) (id : BitVec 64) :
    QueueVouched (sw.findRXQueueEntry id).2 ledger := by
  unfold Switch.findRXQueueEntry
  split <;> exact queue

/-- A frame condition for entries that keep their head, time and completeness. -/
theorem entryVouched_congr {after : Ledger} {slot : Fin rxQueueSize} {rq rq' : RXQueueEntry}
    (entry : EntryVouched ledger slot rq) (accepted : after.accepted = ledger.accepted)
    (timestamp : rq'.timestamp = rq.timestamp) (complete : rq'.complete = rq.complete)
    (frag0 : rq'.frag0 = rq.frag0) : EntryVouched after slot rq' := by
  unfold EntryVouched Vouched
  rw [timestamp, complete, frag0, accepted]
  exact entry

theorem receiveFragment_watched (env : Environment) (now : Int) (path : InetAddress)
    (fragment : List Byte) {sw : Switch} (same : envAt = fun _ => env) (queue : QueueVouched sw ledger)
    (meets : FragmentMeets env path fragment sw ledger) :
    ∃ after, watchAll (Ledger.watch envAt) ledger (receiveFragment env now path fragment sw).2 = some after ∧
      QueueVouched (receiveFragment env now path fragment sw).1 after := by
  have found := findRXQueueEntry_vouched queue (Packet.packetId fragment)
  unfold FragmentMeets at meets
  unfold receiveFragment
  obtain ⟨slot, sw', lookup⟩ : ∃ slot sw', sw.findRXQueueEntry (Packet.packetId fragment) = (slot, sw') :=
    ⟨_, _, rfl⟩
  dsimp only at meets ⊢
  rw [lookup] at meets found ⊢
  dsimp only at meets found ⊢
  -- storing the fragment only tells the ledger where it came from
  let stored : Ledger := { ledger with
    fragPath := Function.update ledger.fragPath slot
      (Function.update (ledger.fragPath slot) (Packet.fragmentNumber fragment) (some path)) }
  have storedKept : OtherSlotsKept slot ledger stored := fun _ _ => rfl
  split
  · refine ⟨stored, by simp [Ledger.watch, stored], setEntry_vouched found storedKept ?_⟩
    intro _ complete
    cases complete
  · rename_i sameId
    split
    · rename_i fresh
      split
      · rename_i full
        obtain ⟨unauthenticated, together⟩ := meets (not_not.mp sameId) fresh full
        have fragPath : stored.fragPath slot =
            Function.update (ledger.fragPath slot) (Packet.fragmentNumber fragment) (some path) :=
          Function.update_self _ _ _
        obtain ⟨after, watched, kept, entry⟩ := @assemble_watched envAt stored slot
          (addFragment (sw'.rxQueue slot) fragment) unauthenticated
          (by rw [same, fragPath]; exact together)
        subst same
        refine ⟨after, ?_, setEntry_vouched found (storedKept.trans kept) entry⟩
        rw [watchAll_cons]
        exact watched
      · refine ⟨stored, by simp [Ledger.watch, stored], setEntry_vouched found storedKept ?_⟩
        exact entryVouched_congr (found slot) rfl rfl rfl rfl
    · exact ⟨ledger, rfl, found⟩

theorem receiveHead_watched (env : Environment) (now : Int) (path : InetAddress) (data : List Byte)
    {sw : Switch} (same : envAt = fun _ => env) (queue : QueueVouched sw ledger)
    (meets : HeadMeets env path data sw ledger) :
    ∃ after, watchAll (Ledger.watch envAt) ledger (receiveHead env now path data sw).2 = some after ∧
      QueueVouched (receiveHead env now path data sw).1 after := by
  have found := findRXQueueEntry_vouched queue (Packet.packetId data)
  unfold HeadMeets at meets
  unfold receiveHead
  obtain ⟨slot, sw', lookup⟩ : ∃ slot sw', sw.findRXQueueEntry (Packet.packetId data) = (slot, sw') :=
    ⟨_, _, rfl⟩
  dsimp only at meets ⊢
  rw [lookup] at meets found ⊢
  dsimp only at meets found ⊢
  let headed := ledger.modify (some slot) [path]
  have headedKept : OtherSlotsKept slot ledger headed := modify_otherSlots slot ledger [path]
  split
  · rename_i otherId
    split
    · rename_i oversized
      refine ⟨ledger, by simp [Ledger.watch], setEntry_vouched found (fun _ _ => rfl) ?_⟩
      intro _ complete authenticated
      exact absurd ⟨complete, authenticated⟩ (meets.1 otherId oversized)
    · refine ⟨headed, by simp [Ledger.watch, headed], setEntry_vouched found headedKept ?_⟩
      intro _ complete
      cases complete
  · rename_i sameId
    split
    · rename_i headless
      split
      · refine ⟨ledger, rfl, setEntry_vouched found (fun _ _ => rfl) ?_⟩
        exact entryVouched_congr (found slot) rfl rfl rfl rfl
      · split
        · rename_i full
          have counted : 1 < (sw'.rxQueue slot).totalFragments := full.1
          have full' : (countBits ((sw'.rxQueue slot).haveFragments ||| 1)).toNat =
              (sw'.rxQueue slot).totalFragments := by
            have all := full.2
            simp only [markHead, if_pos counted] at all
            exact all
          have together := meets.2 (not_not.mp sameId) headless counted full'
          have pieces : headed.pieces (some slot) = [path] := modify_pieces (some slot) [path]
          obtain ⟨after, watched, kept, entry⟩ := @assemble_watched envAt headed slot
            { markHead (sw'.rxQueue slot) with frag0 := ⟨data, path, false⟩ }
            rfl (by rw [same, pieces]; exact together)
          subst same
          refine ⟨after, ?_, setEntry_vouched found (headedKept.trans kept) entry⟩
          rw [watchAll_cons]
          exact watched
        · refine ⟨headed, by simp [Ledger.watch, headed], setEntry_vouched found headedKept ?_⟩
          intro _ _ authenticated
          cases authenticated
    · exact ⟨ledger, rfl, found⟩

theorem receiveWhole_watched (env : Environment) (now : Int) (path : InetAddress) (data : List Byte)
    {sw : Switch} (same : envAt = fun _ => env) (queue : QueueVouched sw ledger) :
    ∃ after, watchAll (Ledger.watch envAt) ledger (receiveWhole env now path data sw).2 = some after ∧
      QueueVouched (receiveWhole env now path data sw).1 after := by
  unfold receiveWhole
  split
  · exact ⟨ledger, rfl, queue⟩
  · let taken := ledger.modify none [path]
    -- the only piece of a whole packet is the path that its head is checked for
    have together : TrustedTogether (envAt none) path data (taken.pieces none) := by
      intro _ pathTrusted piece member
      have pieces : taken.pieces none = [path] := modify_pieces none [path]
      rw [pieces, List.mem_singleton] at member
      rw [member]
      exact pathTrusted
    obtain ⟨after, watched, only, waiting⟩ := @tryDecode_watched envAt taken none ⟨data, path, false⟩
      (fun authenticated => by cases authenticated) together
    have kept (slot : Fin rxQueueSize) : after.accepted (some slot) = ledger.accepted (some slot) := by
      rw [only.accepted (some slot) (by simp)]
      exact modify_accepted_ne (by simp) [path]
    rw [same] at watched waiting
    subst same
    dsimp only
    split
    · refine ⟨after, ?_, ?_⟩
      · rw [watchAll_cons]
        exact watched
      · intro slot used complete authenticated notTrusted
        have old := queue slot used complete authenticated notTrusted
        exact ⟨(kept slot).trans old.1, old.2⟩
    · rename_i pending
      let slot := Switch.slotAt sw.rxQueuePtr
      let copied : Ledger := { after with
        accepted := Function.update after.accepted (some slot) (after.accepted none)
        pieces := Function.update after.pieces (some slot) (after.pieces none) }
      refine ⟨copied, ?_, setEntry_vouched queue ?_ ?_⟩
      · rw [watchAll_cons, Ledger.watch, Option.bind_some, watchAll_append, watched]
        simp [Ledger.watch, copied, slot]
      · intro other ne
        have other' : (some other : Place) ≠ some slot := by simpa using ne
        exact (Function.update_of_ne other' _ _).trans (kept other)
      · intro _ _ authenticated notTrusted
        have vouched := waiting (by simpa using pending) authenticated notTrusted
        exact ⟨(Function.update_self _ _ _).trans vouched.1, vouched.2⟩

theorem retryEntry_watched (now : Int) (slot : Fin rxQueueSize) (rq : RXQueueEntry)
    (entry : EntryVouched ledger slot rq)
    (together : rq.timestamp ≠ 0 → rq.complete = true →
      TrustedTogether (envAt (some slot)) rq.frag0.path rq.frag0.data (ledger.pieces (some slot))) :
    ∃ after, watchAll (Ledger.watch envAt) ledger (retryEntry (envAt (some slot)) now slot rq).2 = some after ∧
      AcceptedOnly (some slot) ledger after ∧
      EntryVouched after slot (retryEntry (envAt (some slot)) now slot rq).1 := by
  unfold retryEntry
  split
  · rename_i ready
    obtain ⟨after, watched, only, waiting⟩ := @tryDecode_watched envAt ledger (some slot) rq.frag0
      (entry ready.1 ready.2) (together ready.1 ready.2)
    dsimp only
    split
    · exact ⟨after, watched, only, fun used => absurd rfl used⟩
    · rename_i pending
      refine ⟨after, watched, only, ?_⟩
      intro _ _ authenticated notTrusted
      exact waiting (by simp only [not_or, Bool.not_eq_true] at pending; exact pending.1)
        authenticated notTrusted
  · exact ⟨ledger, rfl, .refl _ _, entry⟩

/-- The retry loop over distinct entries, each decoded in its own environment. -/
theorem retryFrom_watched (envs : Fin rxQueueSize → Environment) (now : Int)
    (same : ∀ slot, envAt (some slot) = envs slot) (slots : List (Fin rxQueueSize))
    (distinct : slots.Nodup) (sw : Switch) (ledger : Ledger) (queue : QueueVouched sw ledger)
    (together : ∀ slot ∈ slots, (sw.rxQueue slot).timestamp ≠ 0 → (sw.rxQueue slot).complete = true →
      TrustedTogether (envs slot) (sw.rxQueue slot).frag0.path (sw.rxQueue slot).frag0.data
        (ledger.pieces (some slot))) :
    ∃ after, watchAll (Ledger.watch envAt) ledger (retryFrom envs now sw slots).2 = some after ∧
      QueueVouched (retryFrom envs now sw slots).1 after := by
  induction slots generalizing sw ledger with
  | nil => exact ⟨ledger, rfl, queue⟩
  | cons slot slots ih =>
      obtain ⟨notLater, distinct⟩ := List.nodup_cons.mp distinct
      have here := together slot List.mem_cons_self
      rw [← same] at here
      obtain ⟨next, watched, only, entry⟩ := @retryEntry_watched envAt ledger now slot
        (sw.rxQueue slot) (queue slot) here
      have nextQueue := setEntry_vouched queue only.otherSlots entry
      obtain ⟨after, later, final⟩ := ih distinct _ next nextQueue (by
        intro other member used complete
        have ne : other ≠ slot := fun clash => notLater (clash ▸ member)
        have unchanged : (sw.setEntry slot (retryEntry (envAt (some slot)) now slot
            (sw.rxQueue slot)).1).rxQueue other = sw.rxQueue other := Function.update_of_ne ne _ _
        rw [unchanged] at used complete ⊢
        rw [only.pieces]
        exact together other (List.mem_cons_of_mem _ member) used complete)
      rw [same] at watched later final
      refine ⟨after, ?_, final⟩
      rw [retryFrom, watchAll_append, watched]
      exact later

end Watching

theorem retry_watched (envs : Fin rxQueueSize → Environment) (envAt : Place → Environment)
    (same : ∀ slot, envAt (some slot) = envs slot) (now : Int) {sw : Switch} {ledger : Ledger}
    (queue : QueueVouched sw ledger) (meets : RetryMeets envs sw ledger) :
    ∃ after, watchAll (Ledger.watch envAt) ledger (retryFrom envs now sw (List.finRange rxQueueSize)).2 = some after ∧
      QueueVouched (retryFrom envs now sw (List.finRange rxQueueSize)).1 after :=
  retryFrom_watched envs now same _ (List.nodup_finRange _) sw ledger queue
    (fun slot _ => meets slot)

/-- Every step that meets the condition keeps waiting packets vouched for. -/
theorem react_watched (sw : Switch) (ledger : Ledger) (input : Input) (queue : QueueVouched sw ledger)
    (condition : InputMeets sw ledger input) :
    ∃ after, watchAll (Ledger.watch (envAt input)) ledger (react sw input).2 = some after ∧
      QueueVouched (react sw input).1 after := by
  cases input with
  | datagram env now path data =>
      simp only [InputMeets] at condition
      simp only [react, onRemotePacket]
      cases kind : classify env data with
      | fragment =>
          rw [kind] at condition
          exact receiveFragment_watched env now path data rfl queue condition
      | head =>
          rw [kind] at condition
          exact receiveHead_watched env now path data rfl queue condition
      | whole => exact receiveWhole_watched env now path data rfl queue
      | ignored => exact ⟨ledger, rfl, queue⟩
  | doAnythingWaitingForPeer envs now => exact retry_watched envs _ (fun _ => rfl) now queue condition
  | doTimerTasks envs now =>
      simp only [react, doTimerTasks]
      split
      · exact ⟨ledger, rfl, queue⟩
      · exact retry_watched envs _ (fun _ => rfl) now queue condition

/-- In every run whose steps meet the condition, verb handlers are run only on bytes that were
accepted as a whole since they were last modified. -/
theorem handlers_run_on_accepted (sw : Switch) (initial : Initial sw) (inputs : List Input)
    (along : Along step (Meets InputMeets) ⟨sw, some .nil⟩ inputs) :
    Throughout step Lawful ⟨sw, some .nil⟩ inputs :=
  lawful_of_invariant react_watched (fun slot used => absurd (initial.free slot) used) along

/-- Packet 5 from node 9 to node 7 with the given flags: an encrypted NETWORK_CREDENTIALS. -/
def credentialsPacket (flags : Byte) : List Byte :=
  [0, 0, 0, 0, 0, 0, 0, 5] ++ [0, 0, 0, 0, 7] ++ [0, 0, 0, 0, 9] ++ [flags] ++
    [1, 2, 3, 4, 5, 6, 7, 8] ++ [0x0a]

/-- Fragment 1 of 2 of packet 5, with one byte of payload. -/
def secondFragment : List Byte :=
  [0, 0, 0, 0, 0, 0, 0, 5] ++ [0, 0, 0, 0, 7] ++ [0xff, 0x21, 0] ++ [0xee]

/-- Node 7, which shares a key with node 9. `dearmor` accepts what node 9 sent, and a handler that
lacks the signer's identity asks to be run again. -/
def credentialsEnv (sent : List Byte) : Environment where
  identity := 7
  key := fun address => if address = 9 then some 0 else none
  dearmor := fun _ data => (decide (data = sent), data)
  lz4 := fun _ => none
  shouldInboundPathBeTrusted := fun _ _ => false
  handler := fun _ data => if data = sent then .retry else .done data
  hello := id

theorem handlers_run_on_reassembled :
    Throughout step Lawful ⟨zeroSwitch, some .nil⟩
      [.datagram (credentialsEnv (credentialsPacket 0x48 ++ [0xee])) 1 .nil (credentialsPacket 0x48),
        .datagram (credentialsEnv (credentialsPacket 0x48 ++ [0xee])) 2 .nil secondFragment] := by
  refine handlers_run_on_accepted zeroSwitch initial_zeroSwitch _ ⟨?_, ?_, trivial⟩
  · intro ledger _
    have kind : classify (credentialsEnv (credentialsPacket 0x48 ++ [0xee])) (credentialsPacket 0x48) =
      .head := by decide
    simp only [InputMeets, kind]
    exact ⟨fun _ oversized => absurd oversized (by decide), fun same => absurd same (by decide)⟩
  · intro ledger _
    have kind : classify (credentialsEnv (credentialsPacket 0x48 ++ [0xee])) secondFragment =
      .fragment := by decide
    simp only [InputMeets, kind]
    exact fun _ _ _ => ⟨rfl, fun overTrusted => absurd overTrusted (by decide)⟩

/-- A packet that waits for an identity is extended by a fragment nobody authenticated, and the
handler is run on the result. -/
theorem fragment_rides_on_authenticated :
    ∃ sw inputs, Initial sw ∧ ¬ Throughout step Lawful ⟨sw, some .nil⟩ inputs := by
  refine ⟨zeroSwitch,
    [.datagram (credentialsEnv (credentialsPacket 0x08)) 1 .nil (credentialsPacket 0x08),
      .datagram (credentialsEnv (credentialsPacket 0x08)) 2 .nil secondFragment],
    initial_zeroSwitch, ?_⟩
  intro holds
  have lawful := holds.2.2
  unfold Throughout Lawful at lawful
  exact absurd lawful (by decide)

end ZeroTierNode.RxAuthentication

import ZeroTierNode.CredentialPackets
import ZeroTierNode.RxQueue

/-!
Credential packets that wait in the ring for the identity of a signer. The retry
runs the whole handler again, and with it the rate gate that the first attempt has
closed; a packet that the gate refuses counts as processed.
-/

namespace ZeroTierNode.DeferredCredentials
open Library.Bytes RxQueue CredentialPackets

/-- The node at the time of an attempt, as far as credentials go: who is known, the sender's record and the networks. -/
structure Moment where
  crypto : Crypto
  RR : RuntimeEnvironment
  now : Int
  sender : Peer
  receiver : Receiver

namespace Moment

/-- What the handler does with a packet at that time. -/
def attempt (m : Moment) (data : List Byte) : Result × Peer × Receiver :=
  doNetworkCredentials m.crypto m.RR m.now m.sender data m.receiver

/-- The handler seen from `tryDecode`: only a credential that has to wait makes it return false. -/
def outcome (m : Moment) (data : List Byte) : HandlerOutcome :=
  match (m.attempt data).1 with
  | .deferred => .retry
  | .refused => .done data
  | .finished _ => .done data
  | .threw => .done data

/-- An environment with this handler for credentials. -/
def environment (m : Moment) (rest : Environment) : Environment :=
  { rest with handler := fun verb data => if verb = networkCredentials then m.outcome data else rest.handler verb data }

/-- Every credential in the packet that the node has a network for was passed to `Network::addCredential`. -/
def PassesAll (m : Moment) (data : List Byte) : Prop :=
  (m.attempt data).2.2.passed = m.receiver.passed ++ (credentialsIn data).filter (wanted m.receiver)

end Moment

/-- The two functions that retry, when they do. -/
def Retries (sw : Switch) (envs : Fin rxQueueSize → Environment) (now : Int) : Input → Prop
  | .doAnythingWaitingForPeer envs' now' => envs' = envs ∧ now' = now
  | .doTimerTasks envs' now' =>
      envs' = envs ∧ now' = now ∧ ¬ (0 ≤ now - sw.lastCheckedQueues ∧ now - sw.lastCheckedQueues < 500)
  | .datagram _ _ _ _ => False

/-- `tryDecode` gets to the handler of a packet that was authenticated before. -/
def Reaches (env : Environment) (packet : IncomingPacket) : Prop :=
  (env.key (Packet.source packet.data)).isSome ∧
    (Packet.cipher packet.data = 2 → env.shouldInboundPathBeTrusted packet.path (Packet.trustedPathId packet.data))

section Decoding

variable {env : Environment} {place : Place} {packet : IncomingPacket}

/-- The handler is run where the packet is, on what decompression leaves, and its answer is that of `tryDecode`. -/
theorem handled_decodeFromPeer {other : Place} {verb : Byte} {data : List Byte}
    (handled : .handle other verb data ∈ (decodeFromPeer env place packet).2.2) :
    other = place ∧ verb = Packet.verb data ∧ (∃ opened, Packet.uncompress env.lz4 opened = some data) ∧
      ((decodeFromPeer env place packet).1 = false →
        env.handler verb data = .retry ∧
          (decodeFromPeer env place packet).2.1 = { packet with data := data, authenticated := true }) := by
  unfold decodeFromPeer at handled ⊢
  cases known : env.key (Packet.source packet.data) with
  | none =>
      rw [known] at handled
      cases handled
  | some key =>
      rw [known] at handled
      dsimp only at handled ⊢
      generalize (if packet.authenticated = true then (true, packet.data) else env.dearmor key packet.data) = opened
        at handled ⊢
      obtain ⟨accepted, opened⟩ := opened
      cases accepted with
      | false => cases handled
      | true =>
          dsimp only at handled ⊢
          rw [if_pos rfl] at handled
          rw [if_pos rfl]
          cases plain : Packet.uncompress env.lz4 opened with
          | none =>
              rw [plain] at handled
              dsimp only at handled
              split at handled <;> simp at handled
          | some unpacked =>
              rw [plain] at handled
              dsimp only at handled ⊢
              -- whichever answer the handler gives, the events are the same
              have member : other = place ∧ verb = Packet.verb unpacked ∧ data = unpacked := by
                cases answer : env.handler (Packet.verb unpacked) unpacked with
                | done after =>
                    rw [answer] at handled
                    dsimp only at handled
                    split at handled <;> simpa using handled
                | retry =>
                    rw [answer] at handled
                    dsimp only at handled
                    split at handled <;> simpa using handled
              obtain ⟨there, what, same⟩ := member
              rw [what, same]
              refine ⟨there, rfl, ⟨opened, plain⟩, ?_⟩
              cases answer : env.handler (Packet.verb unpacked) unpacked with
              | done after =>
                  intro again
                  cases again
              | retry => exact fun _ => ⟨rfl, rfl⟩

/-- A packet that was authenticated and unpacked before gets to the handler as it is. -/
theorem decodeFromPeer_again (authenticated : packet.authenticated = true)
    (plain : Packet.uncompress env.lz4 packet.data = some packet.data) :
    .handle place (Packet.verb packet.data) packet.data ∈ (decodeFromPeer env place packet).2.2 ↔
      (env.key (Packet.source packet.data)).isSome := by
  unfold decodeFromPeer
  cases known : env.key (Packet.source packet.data) with
  | none => simp
  | some key =>
      rw [authenticated]
      dsimp only
      rw [if_pos rfl, if_pos rfl]
      dsimp only
      rw [if_pos rfl, plain]
      dsimp only
      cases env.handler (Packet.verb packet.data) packet.data with
      | done after => simp
      | retry => simp

/-- The handler as `tryDecode` runs it. -/
theorem handled_tryDecode {other : Place} {verb : Byte} {data : List Byte}
    (handled : .handle other verb data ∈ (tryDecode env place packet).2.2) :
    other = place ∧ verb = Packet.verb data ∧ (∃ opened, Packet.uncompress env.lz4 opened = some data) ∧
      ((tryDecode env place packet).1 = false →
        env.handler verb data = .retry ∧
          (tryDecode env place packet).2.1 = { packet with data := data, authenticated := true }) := by
  unfold tryDecode at handled ⊢
  dsimp only at handled ⊢
  by_cases trusted : Packet.cipher packet.data = 2
  · rw [if_pos trusted] at handled ⊢
    split at handled
    · rename_i accepted
      rw [if_pos accepted]
      simp only [List.mem_cons, reduceCtorEq, false_or] at handled
      exact handled_decodeFromPeer handled
    · simp at handled
  · rw [if_neg trusted] at handled ⊢
    split at handled
    · simp at handled
    · rename_i notHello
      rw [if_neg notHello]
      simp only [List.mem_cons, reduceCtorEq, false_or] at handled
      exact handled_decodeFromPeer handled

theorem tryDecode_again (authenticated : packet.authenticated = true)
    (plain : Packet.uncompress env.lz4 packet.data = some packet.data)
    (credentials : Packet.verb packet.data = networkCredentials) :
    .handle place networkCredentials packet.data ∈ (tryDecode env place packet).2.2 ↔ Reaches env packet := by
  have again := @decodeFromPeer_again env place packet authenticated plain
  rw [credentials] at again
  unfold tryDecode Reaches
  dsimp only
  by_cases trusted : Packet.cipher packet.data = 2
  · rw [if_pos trusted]
    have marked : ({ packet with authenticated := true } : IncomingPacket) = packet := by
      rw [← authenticated]
    by_cases accepted : env.shouldInboundPathBeTrusted packet.path (Packet.trustedPathId packet.data) = true
    · rw [if_pos accepted, marked]
      simpa [accepted] using again
    · rw [if_neg accepted]
      simp [accepted, trusted]
  · rw [if_neg trusted, if_neg (fun both => by rw [credentials] at both; exact absurd both.2 (by decide))]
    simp only [List.mem_cons, reduceCtorEq, false_or]
    exact again.trans (and_iff_left fun same => absurd same trusted).symm

end Decoding

/-- In a run over the ring, the handler of an entry is run in its own turn only, on the entry as it was. -/
theorem handle_mem_retryFrom {envs : Fin rxQueueSize → Environment} {now : Int} {slot : Fin rxQueueSize}
    {slots : List (Fin rxQueueSize)} (once : slots.Nodup) (turn : slot ∈ slots) (sw : Switch) (verb : Byte)
    (data : List Byte) :
    .handle (some slot) verb data ∈ (retryFrom envs now sw slots).2 ↔
      .handle (some slot) verb data ∈ (retryEntry (envs slot) now slot (sw.rxQueue slot)).2 := by
  have elsewhere {other : Fin rxQueueSize} (apart : other ≠ slot) (rq : RXQueueEntry) :
      .handle (some slot) verb data ∉ (retryEntry (envs other) now other rq).2 := by
    intro handled
    unfold retryEntry at handled
    split at handled
    · dsimp only at handled
      have inTurn : .handle (some slot) verb data ∈ (tryDecode (envs other) (some other) rq.frag0).2.2 := by
        split at handled <;> exact handled
      exact apart (Option.some_inj.mp (handled_tryDecode inTurn).1).symm
    · cases handled
  have never {others : List (Fin rxQueueSize)} (absent : slot ∉ others) (sw : Switch) :
      .handle (some slot) verb data ∉ (retryFrom envs now sw others).2 := by
    induction others generalizing sw with
    | nil => exact List.not_mem_nil
    | cons other others ih =>
        rw [retryFrom]
        simp only [List.mem_append, not_or]
        exact ⟨elsewhere (fun same => absent (by rw [same]; exact List.mem_cons_self)) _,
          ih (fun later => absent (List.mem_cons_of_mem _ later)) _⟩
  induction slots generalizing sw with
  | nil => cases turn
  | cons other slots ih =>
      obtain ⟨fresh, once⟩ := List.nodup_cons.mp once
      rw [retryFrom]
      simp only [List.mem_append]
      by_cases same : other = slot
      · rw [same] at fresh ⊢
        exact or_iff_left (never fresh _)
      · have later : slot ∈ slots := (List.mem_cons.mp turn).resolve_left (Ne.symm same)
        refine (or_iff_right (elsewhere same _)).trans ((ih once later _).trans ?_)
        rw [Switch.setEntry]
        dsimp only
        rw [Function.update_of_ne (Ne.symm same)]

/-- A retry runs the handler of a waiting packet if it gets that far. -/
theorem retried_iff {sw : Switch} {envs : Fin rxQueueSize → Environment} {now : Int} {input : Input}
    (retries : Retries sw envs now input) {slot : Fin rxQueueSize} (used : (sw.rxQueue slot).timestamp ≠ 0)
    (complete : (sw.rxQueue slot).complete = true) (verb : Byte) (data : List Byte) :
    .handle (some slot) verb data ∈ (react sw input).2 ↔
      .handle (some slot) verb data ∈ (tryDecode (envs slot) (some slot) (sw.rxQueue slot).frag0).2.2 := by
  have entry : (retryEntry (envs slot) now slot (sw.rxQueue slot)).2 =
      (tryDecode (envs slot) (some slot) (sw.rxQueue slot).frag0).2.2 := by
    unfold retryEntry
    rw [if_pos ⟨used, complete⟩]
    dsimp only
    split <;> rfl
  cases input with
  | datagram env now path data => cases retries
  | doAnythingWaitingForPeer envs' now' =>
      obtain ⟨rfl, rfl⟩ := retries
      change _ ∈ (retryFrom _ _ sw _).2 ↔ _
      rw [handle_mem_retryFrom (List.nodup_finRange _) (List.mem_finRange slot), entry]
  | doTimerTasks envs' now' =>
      obtain ⟨rfl, rfl, due⟩ := retries
      change _ ∈ (doTimerTasks _ _ sw).2 ↔ _
      unfold doTimerTasks
      dsimp only
      rw [if_neg due, handle_mem_retryFrom (List.nodup_finRange _) (List.mem_finRange slot), entry]

theorem passesAll_iff {m : Moment} {data : List Byte}
    (known : ∀ credential ∈ credentialsIn data, SignersKnown m.crypto m.RR credential) :
    m.PassesAll data ↔ 1000 ≤ m.now - m.sender.lastCredentialsReceived ∨
      (credentialsIn data).filter (wanted m.receiver) = [] := by
  unfold Moment.PassesAll Moment.attempt
  rw [doNetworkCredentials_known known]
  by_cases ripe : (1000 : Int) ≤ m.now - m.sender.lastCredentialsReceived
  · rw [if_pos ripe]
    exact iff_of_true (offerAll_passed _ _) (Or.inl ripe)
  · rw [if_neg ripe, or_iff_right ripe]
    exact List.self_eq_append_right

/-- An attempt that ends with waiting was let in, and closes the gate for a second. -/
theorem waited_closes_gate {m : Moment} {data : List Byte} (waited : m.outcome data = .retry) :
    (m.attempt data).2.1.lastCredentialsReceived = m.now := by
  unfold Moment.outcome Moment.attempt doNetworkCredentials Peer.rateGateCredentialsReceived
    Library.Stamps.letThrough at waited
  unfold Moment.attempt doNetworkCredentials Peer.rateGateCredentialsReceived Library.Stamps.letThrough
  by_cases ripe : (1000 : Int) ≤ m.now - m.sender.lastCredentialsReceived
  · rw [if_pos ripe]
    rfl
  · rw [if_neg ripe] at waited
    cases waited

/-- A credential packet that had to wait for a signer closes the sender's gate. The retry passes it on, once the
signers are known, exactly if its sender is still known and its path trusted, and the gate has been open again for
the sender: a second since the last of its credential packets that was let in. -/
theorem deferred_credentials_passed_iff (first m : Moment) (earlier rest : Environment) (place : Place)
    (sent packet : IncomingPacket) (events : List Event) (sw : Switch) (slot : Fin rxQueueSize)
    (envs : Fin rxQueueSize → Environment) (input : Input)
    (deferred : tryDecode (first.environment earlier) place sent = (false, packet, events))
    (credentials : .handle place networkCredentials packet.data ∈ events)
    (waiting : (sw.rxQueue slot).frag0 = packet) (used : (sw.rxQueue slot).timestamp ≠ 0)
    (complete : (sw.rxQueue slot).complete = true) (retries : Retries sw envs m.now input)
    (now : envs slot = m.environment rest)
    (known : ∀ credential ∈ credentialsIn packet.data, SignersKnown m.crypto m.RR credential) :
    (first.attempt packet.data).2.1.lastCredentialsReceived = first.now ∧
      (.handle (some slot) networkCredentials packet.data ∈ (react sw input).2 ∧ m.PassesAll packet.data ↔
        Reaches rest packet ∧ (1000 ≤ m.now - m.sender.lastCredentialsReceived ∨
          (credentialsIn packet.data).filter (wanted m.receiver) = [])) := by
  have handled : .handle place networkCredentials packet.data ∈
      (tryDecode (first.environment earlier) place sent).2.2 := by
    rw [deferred]
    exact credentials
  obtain ⟨-, verb, ⟨opened, unpacked⟩, answer⟩ := handled_tryDecode handled
  rw [deferred] at answer
  have waited : first.outcome packet.data = .retry := by
    have retry := (answer rfl).1
    unfold Moment.environment at retry
    dsimp only at retry
    rwa [if_pos rfl] at retry
  have authenticated : packet.authenticated = true := by
    exact congrArg IncomingPacket.authenticated (answer rfl).2
  have plain := Packet.uncompress_idempotent _ unpacked (envs slot).lz4
  refine ⟨waited_closes_gate waited, ?_⟩
  rw [retried_iff retries used complete, waiting, tryDecode_again authenticated plain verb.symm, passesAll_iff known, now]
  exact Iff.rfl

/-- A tag signed by the controller 1 of its network. -/
def waitingTag : Tag := ⟨5, 6, 0x1000001, 1, 7, 1, 0⟩

/-- A credential packet of node 9 for node 7 with the tag in it. -/
def tagPacket : List Byte :=
  wordBytes 8 (3 : BitVec 64) ++ Address.appendTo 7 ++ Address.appendTo 9 ++ List.replicate 9 0 ++ [0x0a] ++
    [0, 0, 0, 0, 1] ++ waitingTag.serialize false ++ [0, 0, 0, 0]

/-- Node 7, which knows node 9 and has joined the network, with the given peers at a time. -/
def momentWith (peers : Address → Option Identity) (now lastCredentialsReceived : Int) : Moment where
  crypto := ⟨fun _ _ _ => true, fun _ => 0⟩
  RR := ⟨⟨7, 0⟩, peers⟩
  now := now
  sender := { Peer.new ⟨9, 0⟩ with lastCredentialsReceived := lastCredentialsReceived }
  receiver := ⟨fun id => if id = 0x1000001 then some ⟨id, .nil, 0, false, ∅⟩ else none, []⟩

def knowsController : Address → Option Identity := fun a => if a = 1 then some ⟨1, 2⟩ else none

def acceptingEnv : Environment :=
  { lonelyEnv with key := fun _ => some 0, dearmor := fun _ data => (true, data) }

def waitingPacket : IncomingPacket := ⟨tagPacket, .nil, true⟩

/-- The ring with the packet in its first entry. -/
def waitingSwitch : Switch :=
  { zeroSwitch with
    rxQueue := fun slot =>
      if slot.val = 0 then
        { zeroSwitch.rxQueue slot with timestamp := 5000, packetId := 3, frag0 := waitingPacket, complete := true }
      else zeroSwitch.rxQueue slot }

theorem tag_in_packet : credentialsIn tagPacket = [.tag waitingTag] := by decide +kernel

/-- A retry a second after the first attempt passes the tag on. -/
theorem credentials_passed_a_second_later :
    .handle (some 0) networkCredentials tagPacket ∈
        (react waitingSwitch (.doAnythingWaitingForPeer
          (fun _ => (momentWith knowsController 6000 5000).environment acceptingEnv) 6000)).2 ∧
      (momentWith knowsController 6000 5000).PassesAll tagPacket := by
  have known : ∀ credential ∈ credentialsIn tagPacket,
      SignersKnown (momentWith knowsController 6000 5000).crypto (momentWith knowsController 6000 5000).RR credential := by
    rw [tag_in_packet]
    simp only [List.mem_singleton, forall_eq]
    unfold SignersKnown
    decide +kernel
  have waited : tryDecode ((momentWith (fun _ => none) 5000 0).environment acceptingEnv) none
      ⟨tagPacket, .nil, false⟩ = (false, waitingPacket, [.tryDecode none tagPacket, .dearmored none 0 tagPacket tagPacket,
        .uncompressed none tagPacket tagPacket, .handle none networkCredentials tagPacket]) := by
    have clear : Packet.cipher tagPacket = 0 := by decide +kernel
    have verb : Packet.verb tagPacket = networkCredentials := by decide +kernel
    have plain (lz4 : List Byte → Option (List Byte)) : Packet.uncompress lz4 tagPacket = some tagPacket := by
      have uncompressed : Packet.compressed tagPacket = false := by decide +kernel
      rw [Packet.uncompress, uncompressed]
      rfl
    have waits : (momentWith (fun _ => none) 5000 0).outcome tagPacket = .retry := by
      have deferred : ((momentWith (fun _ => none) 5000 0).attempt tagPacket).1 = .deferred := by decide +kernel
      rw [Moment.outcome, deferred]
    rw [tryDecode]
    simp [clear, verb, decodeFromPeer, plain, waits, Moment.environment, acceptingEnv, waitingPacket]
  exact (deferred_credentials_passed_iff (momentWith (fun _ => none) 5000 0) (momentWith knowsController 6000 5000)
    acceptingEnv acceptingEnv none ⟨tagPacket, .nil, false⟩ waitingPacket _ waitingSwitch 0
    (fun _ => (momentWith knowsController 6000 5000).environment acceptingEnv)
    (.doAnythingWaitingForPeer (fun _ => (momentWith knowsController 6000 5000).environment acceptingEnv) 6000)
    waited (by simp [waitingPacket]) rfl (by decide) rfl ⟨rfl, rfl⟩ rfl known).2.mpr
    ⟨⟨rfl, by decide +kernel⟩, Or.inl (by decide)⟩

/-- The packet waits at 5000; once the controller is known, a retry at 6000 would pass it on, and the retry at 5100
drops it: the entry is free and nothing was passed on. -/
theorem credentials_dropped_on_retry :
    (tryDecode ((momentWith (fun _ => none) 5000 0).environment acceptingEnv) none ⟨tagPacket, .nil, false⟩).1 = false ∧
      ((momentWith (fun _ => none) 5000 0).attempt tagPacket).2.1.lastCredentialsReceived = 5000 ∧
      credentialsIn tagPacket = [.tag waitingTag] ∧
      waitingTag.verify (momentWith knowsController 5100 5000).crypto (momentWith knowsController 5100 5000).RR = .ok ∧
      ((momentWith knowsController 6000 5000).attempt tagPacket).2.2.passed = [.tag waitingTag] ∧
      ((momentWith knowsController 5100 5000).attempt tagPacket).2.2.passed = [] ∧
      ((doAnythingWaitingForPeer (fun _ => (momentWith knowsController 5100 5000).environment acceptingEnv) 5100
        waitingSwitch).1.rxQueue 0).timestamp = 0 := by
  decide +kernel

end ZeroTierNode.DeferredCredentials

import ZeroTierNode.Library.Monitor
import ZeroTierNode.RxQueue

/-!
Reassembly. A register notes for every entry what was received for its packet id
since the entry was allocated. An assembly is in order when the head and all
fragments are there, the fragments appended are those, and nothing was appended
before.
-/

namespace ZeroTierNode.RxReassembly
open Library.Bytes Library.Runs Library.Monitor RxQueue

/-- What an entry received for its packet id since it was allocated. -/
structure Received where
  packetId : BitVec 64
  head : Option (List Byte)
  /-- The fragments received, by number. -/
  fragments : Nat → Option (List Byte)
  /-- The append loop was entered. -/
  joined : Bool
  /-- Fragments 1 to `appended` were appended to the head. -/
  appended : Nat

abbrev Register := Fin rxQueueSize → Received

/-- Note an event; `none` when it breaks the law of reassembly. -/
def note (register : Register) : Event → Option Register
  | .allocate slot packetId =>
      some (Function.update register slot ⟨packetId, none, fun _ => none, false, 0⟩)
  | .init (some slot) data _ =>
      if Packet.packetId data = (register slot).packetId then
        some (Function.update register slot { register slot with head := some data })
      else none
  | .store slot number fragment _ =>
      if Packet.packetId fragment = (register slot).packetId ∧ Packet.fragmentNumber fragment = number then
        some (Function.update register slot { register slot with
          fragments := Function.update (register slot).fragments number (some fragment) })
      else none
  | .joining slot =>
      if (register slot).joined then none
      else some (Function.update register slot { register slot with joined := true })
  | .append slot number payload =>
      if number = (register slot).appended + 1 ∧
          ((register slot).fragments number).map Packet.payload = some payload then
        some (Function.update register slot { register slot with appended := number })
      else none
  | .assembled slot total =>
      if (register slot).head.isSome ∧ (register slot).appended + 1 = total then some register else none
  | _ => some register

/-- The receive path, watched by the register. -/
def step : Watched Switch Register → Input → Watched Switch Register :=
  Library.Monitor.step react (fun _ => note)

/-- Nothing is known of the entries before their first allocation. -/
def emptyRegister : Register := fun _ => ⟨0, none, fun _ => none, false, 0⟩

/-- The fragment's number is below its total; an entry that has the packet's id is in use and
agrees on the total as far as it knows it. -/
def FragmentMeets (fragment : List Byte) (sw : Switch) : Prop :=
  Packet.fragmentNumber fragment < Packet.totalFragments fragment ∧
  let (slot, sw) := sw.findRXQueueEntry (Packet.packetId fragment)
  let rq := sw.rxQueue slot
  rq.packetId = Packet.packetId fragment → rq.timestamp ≠ 0 ∧
    (rq.totalFragments = 0 ∨ rq.totalFragments = Packet.totalFragments fragment)

/-- The head fits a packet; an entry that has the packet's id is in use. -/
def HeadMeets (data : List Byte) (sw : Switch) : Prop :=
  data.length ≤ Packet.maxPacketLength ∧
  let (slot, sw) := sw.findRXQueueEntry (Packet.packetId data)
  let rq := sw.rxQueue slot
  rq.packetId = Packet.packetId data → rq.timestamp ≠ 0

def InputMeets (sw : Switch) (_ : Register) : Input → Prop
  | .datagram env _ _ data =>
      match classify env data with
      | .fragment => FragmentMeets data sw
      | .head => HeadMeets data sw
      | .whole | .ignored => True
  | .doAnythingWaitingForPeer _ _ | .doTimerTasks _ _ => True

/-- What the register knows of an entry that collects fragments. -/
structure Tracks (received : Received) (rq : RXQueueEntry) : Prop where
  few : rq.totalFragments ≤ Packet.maxPacketFragments
  /-- Fragment numbers below the total, or only the head. -/
  mask : rq.haveFragments.toNat < 2 ^ max 1 rq.totalFragments
  head : rq.haveFragments.getLsbD 0 = true → received.head.isSome = true
  headless : rq.haveFragments.getLsbD 0 = false → 1 < rq.totalFragments
  fragments : ∀ number, 0 < number → rq.haveFragments.getLsbD number = true →
    received.fragments number = some (rq.frags (number - 1))
  /-- The append loop is entered only after everything was received. -/
  joined : received.joined = true → 1 < rq.totalFragments ∧ rq.haveFragments.toNat + 1 = 2 ^ rq.totalFragments
  unjoined : received.joined = false → received.appended = 0

/-- An entry with one fragment in all holds a whole packet and is not reassembled. -/
def EntryTracked (received : Received) (rq : RXQueueEntry) : Prop :=
  rq.timestamp ≠ 0 → rq.packetId = received.packetId ∧ (rq.totalFragments ≠ 1 → Tracks received rq)

def QueueTracked (sw : Switch) (register : Register) : Prop :=
  ∀ slot, EntryTracked (register slot) (sw.rxQueue slot)

theorem setEntry_tracked {sw : Switch} {register : Register} {slot : Fin rxQueueSize} {rq : RXQueueEntry}
    {received : Received} (queue : QueueTracked sw register) (entry : EntryTracked received rq) :
    QueueTracked (sw.setEntry slot rq) (Function.update register slot received) := by
  intro other
  rw [Switch.setEntry]
  dsimp only
  by_cases same : other = slot
  · subst same
    rw [Function.update_self, Function.update_self]
    exact entry
  · rw [Function.update_of_ne same, Function.update_of_ne same]
    exact queue other

theorem note_decoding {register : Register} {event : Event} (decoding : event.decoding = true) :
    note register event = some register := by
  cases event <;> first | rfl | cases decoding

theorem tryDecode_noted (register : Register) (env : Environment) (place : Place)
    (packet : IncomingPacket) :
    watchAll note register (tryDecode env place packet).2.2 = some register :=
  watchAll_ignored (fun event member => note_decoding (tryDecode_decoding env place packet event member))

/-- The append loop is in order when the fragments it takes were received. -/
theorem appendFragments_noted (slot : Fin rxQueueSize) (frags : Nat → List Byte) (number count : Nat)
    (data : List Byte) (register : Register) (next : (register slot).appended + 1 = number)
    (received : ∀ f, number ≤ f → f < number + count →
      (register slot).fragments f = some (frags (f - 1))) :
    ∃ appended, watchAll note register (appendFragments slot frags number count data).2.1 =
        some (Function.update register slot { register slot with appended := appended }) ∧
      ((appendFragments slot frags number count data).2.2 = true → appended + 1 = number + count) := by
  induction count generalizing number data register with
  | zero =>
      refine ⟨(register slot).appended, ?_, fun _ => next⟩
      rw [appendFragments, watchAll_nil, Function.update_eq_self]
  | succ count ih =>
      unfold appendFragments
      dsimp only
      split
      · refine ⟨(register slot).appended, ?_, fun ended => by cases ended⟩
        rw [watchAll_nil, Function.update_eq_self]
      · let after : Register := Function.update register slot { register slot with appended := number }
        have here : after slot = { register slot with appended := number } := Function.update_self _ _ _
        obtain ⟨appended, watched, ended⟩ := ih (number + 1)
          (data ++ Packet.payload (frags (number - 1))) after (by rw [here]) (by
            intro f least most
            rw [here]
            exact received f (by omega) (by omega))
        refine ⟨appended, ?_, fun finished => by have := ended finished; omega⟩
        have first := received number (le_refl _) (by omega)
        have noted : note register (.append slot number (Packet.payload (frags (number - 1)))) =
            some after := by
          rw [note, if_pos ⟨next.symm, by rw [first, Option.map_some]⟩]
        rw [watchAll_cons, noted, Option.bind_some, watched, here, Function.update_idem]

/-- An entry keeps what the register knows of it when its fragments stay as they are. -/
theorem Tracks.frame {received : Received} {rq rq' : RXQueueEntry} (tracks : Tracks received rq)
    (total : rq'.totalFragments = rq.totalFragments) (have' : rq'.haveFragments = rq.haveFragments)
    (frags : rq'.frags = rq.frags) : Tracks received rq' := by
  obtain ⟨few, mask, head, headless, fragments, joined, unjoined⟩ := tracks
  refine ⟨?_, ?_, ?_, ?_, ?_, ?_, unjoined⟩ <;> simp only [total, have', frags] <;> assumption

/-- The append loop is entered once, when everything was received. -/
theorem assemble_noted (env : Environment) (slot : Fin rxQueueSize) (rq : RXQueueEntry)
    (register : Register) (id : rq.packetId = (register slot).packetId)
    (tracks : Tracks (register slot) rq) (several : 1 < rq.totalFragments)
    (full : rq.haveFragments.toNat + 1 = 2 ^ rq.totalFragments)
    (unjoined : (register slot).joined = false) :
    ∃ received, watchAll note register (assemble env slot rq).2 =
        some (Function.update register slot received) ∧
      EntryTracked received (assemble env slot rq).1 := by
  let entered : Register := Function.update register slot { register slot with joined := true }
  have here : entered slot = { register slot with joined := true } := Function.update_self _ _ _
  have joining : note register (.joining slot) = some entered := by
    rw [note, unjoined]
    rfl
  obtain ⟨appended, watched, ended⟩ := appendFragments_noted slot rq.frags 1 (rq.totalFragments - 1)
    rq.frag0.data entered (by rw [here]; exact congrArg (· + 1) (tracks.unjoined unjoined)) (by
      intro number least most
      rw [here]
      exact tracks.fragments number least (getLsbD_of_full full (by omega)))
  let received : Received := { register slot with joined := true, appended := appended }
  have joined : Tracks received rq :=
    ⟨tracks.few, tracks.mask, tracks.head, tracks.headless, tracks.fragments, fun _ => ⟨several, full⟩,
      fun clear => by cases clear⟩
  have appending : watchAll note register (.joining slot ::
      (appendFragments slot rq.frags 1 (rq.totalFragments - 1) rq.frag0.data).2.1) =
      some (Function.update register slot received) := by
    rw [watchAll_cons, joining, Option.bind_some, watched, here, Function.update_idem]
  refine ⟨received, ?_, ?_⟩
  · unfold assemble
    dsimp only
    split
    · rename_i finished
      have total := ended finished
      have assembled : note (Function.update register slot received) (.assembled slot rq.totalFragments) =
          some (Function.update register slot received) := by
        rw [note, Function.update_self,
          if_pos ⟨tracks.head (getLsbD_of_full full (by omega)), by dsimp only [received]; omega⟩]
      split <;> rw [watchAll_append, appending, Option.bind_some, watchAll_cons, assembled,
        Option.bind_some, tryDecode_noted]
    · exact appending
  · unfold assemble
    dsimp only
    split
    · split
      · exact fun used => absurd rfl used
      · exact fun _ => ⟨id, fun _ => joined.frame rfl rfl rfl⟩
    · exact fun _ => ⟨id, fun _ => joined.frame rfl rfl rfl⟩

theorem findRXQueueEntry_tracked {sw : Switch} {register : Register} (queue : QueueTracked sw register)
    (id : BitVec 64) : QueueTracked (sw.findRXQueueEntry id).2 register := by
  unfold Switch.findRXQueueEntry
  split <;> exact queue

theorem fragmentBit_lt {number total : Nat} (small : number < total) (few : total ≤ Packet.maxPacketFragments) :
    (fragmentBit number).toNat < 2 ^ total := by
  have bits : number < 7 := lt_of_lt_of_le small few
  have power : 2 ^ number < 2 ^ total := Nat.pow_lt_pow_right (by decide) small
  have word : 2 ^ number < 2 ^ 32 := Nat.pow_lt_pow_right (by decide) (by omega)
  have one : (1 : BitVec 32).toNat = 1 := rfl
  rw [fragmentBit, BitVec.toNat_shiftLeft, one, Nat.shiftLeft_eq, one_mul, Nat.mod_eq_of_lt word]
  exact power

theorem sane_bounds {fragment : List Byte} (sane : saneFragment fragment = true) :
    Packet.totalFragments fragment ≤ Packet.maxPacketFragments ∧ 0 < Packet.fragmentNumber fragment ∧
      1 < Packet.totalFragments fragment := by
  simp only [saneFragment, decide_eq_true_eq] at sane
  exact ⟨sane.1, sane.2.2.1, sane.2.2.2⟩

/-- A fragment without its head: the register of a fresh entry. -/
theorem headless_tracks {fragment : List Byte} (sane : saneFragment fragment = true)
    (numbered : Packet.fragmentNumber fragment < Packet.totalFragments fragment)
    {rq : RXQueueEntry} (frags : rq.frags (Packet.fragmentNumber fragment - 1) = fragment)
    (total : rq.totalFragments = Packet.totalFragments fragment)
    (mask : rq.haveFragments = fragmentBit (Packet.fragmentNumber fragment)) (id : BitVec 64) :
    Tracks ⟨id, none, Function.update (fun _ => none) (Packet.fragmentNumber fragment) (some fragment),
      false, 0⟩ rq := by
  obtain ⟨few, positive, several⟩ := sane_bounds sane
  have small : Packet.fragmentNumber fragment < 32 := by
    have : Packet.totalFragments fragment ≤ 7 := few
    omega
  refine ⟨by rw [total]; exact few, ?_, ?_, fun _ => by rw [total]; exact several, ?_,
    fun entered => (by cases entered), fun _ => rfl⟩
  · rw [mask, total, Nat.max_eq_right (by omega)]
    exact fragmentBit_lt numbered few
  · intro zero
    rw [mask, fragmentBit_getLsbD small, decide_eq_true_eq] at zero
    omega
  · intro number _ bit
    rw [mask, fragmentBit_getLsbD small, decide_eq_true_eq] at bit
    subst bit
    dsimp only
    rw [Function.update_self, frags]

/-- A new fragment, for an entry that knows no total or the same. -/
theorem addFragment_tracks {received : Received} {rq : RXQueueEntry} {fragment : List Byte}
    (tracks : Tracks received rq) (sane : saneFragment fragment = true)
    (numbered : Packet.fragmentNumber fragment < Packet.totalFragments fragment)
    (agrees : rq.totalFragments = 0 ∨ rq.totalFragments = Packet.totalFragments fragment)
    (fresh : rq.haveFragments.getLsbD (Packet.fragmentNumber fragment) = false) :
    received.joined = false ∧
      Tracks { received with
        fragments := Function.update received.fragments (Packet.fragmentNumber fragment) (some fragment) }
        (addFragment rq fragment) := by
  obtain ⟨few, positive, several⟩ := sane_bounds sane
  have small : Packet.fragmentNumber fragment < 32 := by
    have : Packet.totalFragments fragment ≤ 7 := few
    omega
  have unjoined : received.joined = false := by
    by_contra entered
    obtain ⟨known, full⟩ := tracks.joined (by simpa using entered)
    have set := getLsbD_of_full full (show Packet.fragmentNumber fragment < rq.totalFragments by omega)
    rw [fresh] at set
    cases set
  have bit (number : Nat) : (addFragment rq fragment).haveFragments.getLsbD number =
      (rq.haveFragments.getLsbD number || decide (number = Packet.fragmentNumber fragment)) := by
    rw [addFragment]
    dsimp only
    rw [BitVec.getLsbD_or, fragmentBit_getLsbD small]
  refine ⟨unjoined, few, ?_, ?_, fun _ => several, ?_, ?_, tracks.unjoined⟩
  · have total : max 1 (Packet.totalFragments fragment) = Packet.totalFragments fragment := by omega
    have old : rq.haveFragments.toNat < 2 ^ Packet.totalFragments fragment := by
      refine lt_of_lt_of_le tracks.mask (Nat.pow_le_pow_right (by decide) ?_)
      omega
    rw [addFragment]
    dsimp only
    rw [total, BitVec.toNat_or]
    exact Nat.or_lt_two_pow old (fragmentBit_lt numbered few)
  · intro zero
    rw [bit] at zero
    have positive' : (0 : Nat) ≠ Packet.fragmentNumber fragment := by omega
    simp only [positive', decide_false, Bool.or_false] at zero
    exact tracks.head zero
  · intro number low set
    rw [bit] at set
    dsimp only [addFragment]
    by_cases same : number = Packet.fragmentNumber fragment
    · rw [same, Function.update_self, Function.update_self]
    · simp only [same, decide_false, Bool.or_false] at set
      rw [Function.update_of_ne same, Function.update_of_ne (by omega)]
      exact tracks.fragments number low set
  · intro entered
    rw [unjoined] at entered
    cases entered

theorem receiveFragment_noted (env : Environment) (now : Int) (path : InetAddress) {fragment : List Byte}
    {sw : Switch} {register : Register} (queue : QueueTracked sw register)
    (sane : saneFragment fragment = true) (meets : FragmentMeets fragment sw) :
    ∃ after, watchAll note register (receiveFragment env now path fragment sw).2 = some after ∧
      QueueTracked (receiveFragment env now path fragment sw).1 after := by
  have found := findRXQueueEntry_tracked queue (Packet.packetId fragment)
  obtain ⟨numbered, agrees⟩ := meets
  unfold receiveFragment
  obtain ⟨slot, sw', lookup⟩ : ∃ slot sw', sw.findRXQueueEntry (Packet.packetId fragment) = (slot, sw') :=
    ⟨_, _, rfl⟩
  dsimp only at agrees ⊢
  rw [lookup] at agrees found ⊢
  dsimp only at agrees found ⊢
  have small : Packet.fragmentNumber fragment < 32 := by
    have : Packet.totalFragments fragment ≤ 7 := (sane_bounds sane).1
    omega
  split
  · refine ⟨Function.update register slot ⟨Packet.packetId fragment, none, Function.update (fun _ => none)
      (Packet.fragmentNumber fragment) (some fragment), false, 0⟩, ?_, setEntry_tracked found ?_⟩
    · simp [note]
    · intro _
      refine ⟨rfl, fun _ => headless_tracks sane numbered ?_ rfl rfl _⟩
      simp [addFragment]
  · rename_i sameId
    have id : (sw'.rxQueue slot).packetId = Packet.packetId fragment := not_not.mp sameId
    obtain ⟨used, agreed⟩ := agrees id
    obtain ⟨known, tracks⟩ := found slot used
    split
    · rename_i fresh
      have several := (sane_bounds sane).2.2
      obtain ⟨unjoined, added⟩ := addFragment_tracks (tracks (by omega)) sane numbered agreed
        ((and_fragmentBit_eq_zero small).mp fresh)
      let received : Received := { register slot with
        fragments := Function.update (register slot).fragments (Packet.fragmentNumber fragment)
          (some fragment) }
      let stored : Register := Function.update register slot received
      have here : stored slot = received := Function.update_self _ _ _
      have store : note register (.store slot (Packet.fragmentNumber fragment) fragment path) =
          some stored := by
        rw [note, if_pos ⟨id.symm.trans known, rfl⟩]
      split
      · rename_i counted
        have full := full_of_countBits added.few (by
          have mask := added.mask
          rw [Nat.max_eq_right (show 1 ≤ (addFragment (sw'.rxQueue slot) fragment).totalFragments from
            le_of_lt several)] at mask
          exact mask) counted
        obtain ⟨after, watched, entry⟩ := assemble_noted env slot (addFragment (sw'.rxQueue slot) fragment)
          stored (by rw [here]; exact known) (by rw [here]; exact added) several full (by
            rw [here]; exact unjoined)
        refine ⟨Function.update register slot after, ?_, setEntry_tracked found entry⟩
        rw [watchAll_cons, store, Option.bind_some, watched, Function.update_idem]
      · refine ⟨stored, by rw [watchAll_cons, store]; rfl, setEntry_tracked found ?_⟩
        exact fun _ => ⟨known, fun _ => added⟩
    · exact ⟨register, rfl, found⟩

/-- The head of an entry that has fragments only. -/
theorem markHead_tracks {received : Received} {rq : RXQueueEntry} (tracks : Tracks received rq)
    (missing : rq.haveFragments.getLsbD 0 = false) (data : List Byte) :
    received.joined = false ∧ Tracks { received with head := some data } (markHead rq) := by
  have several := tracks.headless missing
  have unjoined : received.joined = false := by
    by_contra entered
    obtain ⟨-, full⟩ := tracks.joined (by simpa using entered)
    have set := getLsbD_of_full full (show 0 < rq.totalFragments by omega)
    rw [missing] at set
    cases set
  have mark : (markHead rq).haveFragments = rq.haveFragments ||| fragmentBit 0 := if_pos several
  have bit (number : Nat) : (markHead rq).haveFragments.getLsbD number =
      (rq.haveFragments.getLsbD number || decide (number = 0)) := by
    rw [mark, BitVec.getLsbD_or, fragmentBit_getLsbD (by decide)]
  refine ⟨unjoined, tracks.few, ?_, fun _ => rfl, fun _ => several, ?_, ?_, tracks.unjoined⟩
  · have total : max 1 rq.totalFragments = rq.totalFragments := by omega
    have old := tracks.mask
    rw [total] at old
    change (markHead rq).haveFragments.toNat < 2 ^ max 1 rq.totalFragments
    rw [mark, total, BitVec.toNat_or]
    exact Nat.or_lt_two_pow old (fragmentBit_lt (by omega) tracks.few)
  · intro number low set
    have positive : number ≠ 0 := by omega
    rw [bit] at set
    simp only [positive, decide_false, Bool.or_false] at set
    exact tracks.fragments number low set
  · intro entered
    rw [unjoined] at entered
    cases entered

theorem headOnly_tracks {rq : RXQueueEntry} (total : rq.totalFragments = 0) (mask : rq.haveFragments = 1)
    (id : BitVec 64) (data : List Byte) : Tracks ⟨id, some data, fun _ => none, false, 0⟩ rq := by
  refine ⟨by omega, by rw [mask, total]; decide, fun _ => rfl, ?_, ?_, fun entered => (by cases entered),
    fun _ => rfl⟩
  · intro missing
    rw [mask] at missing
    cases missing
  · intro number low set
    have bit := fragmentBit_getLsbD (show 0 < 32 by decide) number
    rw [mask, show (1 : BitVec 32) = fragmentBit 0 from rfl, bit, decide_eq_true_eq] at set
    omega

theorem receiveHead_noted (env : Environment) (now : Int) (path : InetAddress) {data : List Byte}
    {sw : Switch} {register : Register} (queue : QueueTracked sw register) (meets : HeadMeets data sw) :
    ∃ after, watchAll note register (receiveHead env now path data sw).2 = some after ∧
      QueueTracked (receiveHead env now path data sw).1 after := by
  have found := findRXQueueEntry_tracked queue (Packet.packetId data)
  obtain ⟨fits, inUse⟩ := meets
  unfold receiveHead
  obtain ⟨slot, sw', lookup⟩ : ∃ slot sw', sw.findRXQueueEntry (Packet.packetId data) = (slot, sw') :=
    ⟨_, _, rfl⟩
  dsimp only at inUse ⊢
  rw [lookup] at inUse found ⊢
  dsimp only at inUse found ⊢
  have fits' : ¬ Packet.maxPacketLength < data.length := by omega
  split
  · refine ⟨Function.update register slot ⟨Packet.packetId data, some data, fun _ => none, false, 0⟩, ?_,
      setEntry_tracked found ?_⟩
    · simp [note]
    · exact fun _ => ⟨rfl, fun _ => headOnly_tracks rfl rfl _ _⟩
  · rename_i sameId
    have id : (sw'.rxQueue slot).packetId = Packet.packetId data := not_not.mp sameId
    obtain ⟨known, tracks⟩ := found slot (inUse id)
    split
    · rename_i missing
      let received : Received := { register slot with head := some data }
      let headed : Register := Function.update register slot received
      have here : headed slot = received := Function.update_self _ _ _
      have init : note register (.init (some slot) data path) = some headed := by
        rw [note, if_pos (id.symm.trans known)]
      have clear : (sw'.rxQueue slot).haveFragments.getLsbD 0 = false :=
        (and_fragmentBit_eq_zero (by decide)).mp missing
      split
      · rename_i counted
        have several : 1 < (sw'.rxQueue slot).totalFragments := counted.1
        obtain ⟨unjoined, marked⟩ := markHead_tracks (tracks (by omega)) clear data
        have full := full_of_countBits marked.few (by
          have mask := marked.mask
          rw [Nat.max_eq_right (show 1 ≤ (markHead (sw'.rxQueue slot)).totalFragments from
            le_of_lt several)] at mask
          exact mask) counted.2
        obtain ⟨after, watched, entry⟩ := assemble_noted env slot
          { markHead (sw'.rxQueue slot) with frag0 := ⟨data, path, false⟩ } headed
          (by rw [here]; exact known) (by rw [here]; exact marked.frame rfl rfl rfl) several full (by
            rw [here]; exact unjoined)
        refine ⟨Function.update register slot after, ?_, setEntry_tracked found entry⟩
        rw [watchAll_cons, init, Option.bind_some, watched, Function.update_idem]
      · refine ⟨headed, by rw [watchAll_cons, init]; rfl, setEntry_tracked found ?_⟩
        exact fun _ => ⟨known, fun several =>
          (markHead_tracks (tracks several) clear data).2.frame rfl rfl rfl⟩
    · exact ⟨register, rfl, found⟩

/-- A whole packet that has to wait is in an entry of its own. -/
theorem receiveWhole_noted (env : Environment) (now : Int) (path : InetAddress) (data : List Byte)
    {sw : Switch} {register : Register} (queue : QueueTracked sw register) :
    ∃ after, watchAll note register (receiveWhole env now path data sw).2 = some after ∧
      QueueTracked (receiveWhole env now path data sw).1 after := by
  unfold receiveWhole
  split
  · exact ⟨register, rfl, queue⟩
  · have decoded := tryDecode_noted register env none ⟨data, path, false⟩
    have outside : note register (.init none data path) = some register := rfl
    dsimp only
    split
    · refine ⟨register, ?_, queue⟩
      rw [watchAll_cons, outside, Option.bind_some]
      exact decoded
    · let slot := Switch.slotAt sw.rxQueuePtr
      let id := Packet.packetId (tryDecode env none ⟨data, path, false⟩).2.1.data
      refine ⟨Function.update register slot ⟨id, none, fun _ => none, false, 0⟩, ?_,
        setEntry_tracked queue (fun _ => ⟨rfl, fun several => absurd rfl several⟩)⟩
      rw [watchAll_cons, outside, Option.bind_some, watchAll_append, decoded]
      simp [note, slot, id]

theorem retryEntry_noted (env : Environment) (now : Int) (slot : Fin rxQueueSize) (rq : RXQueueEntry)
    (register : Register) (entry : EntryTracked (register slot) rq) :
    watchAll note register (retryEntry env now slot rq).2 = some register ∧
      EntryTracked (register slot) (retryEntry env now slot rq).1 := by
  have decoded := tryDecode_noted register env (some slot) rq.frag0
  unfold retryEntry
  split
  · dsimp only
    split
    · exact ⟨decoded, fun used => absurd rfl used⟩
    · refine ⟨decoded, fun used => ?_⟩
      obtain ⟨id, tracks⟩ := entry used
      exact ⟨id, fun several => (tracks several).frame rfl rfl rfl⟩
  · exact ⟨rfl, entry⟩

/-- Retries leave the register as it is. -/
theorem retryFrom_noted (envs : Fin rxQueueSize → Environment) (now : Int) (slots : List (Fin rxQueueSize))
    (sw : Switch) (register : Register) (queue : QueueTracked sw register) :
    watchAll note register (retryFrom envs now sw slots).2 = some register ∧
      QueueTracked (retryFrom envs now sw slots).1 register := by
  induction slots generalizing sw with
  | nil => exact ⟨rfl, queue⟩
  | cons slot slots ih =>
      obtain ⟨watched, entry⟩ := retryEntry_noted (envs slot) now slot (sw.rxQueue slot) register
        (queue slot)
      have next := @setEntry_tracked sw register slot _ _ queue entry
      rw [Function.update_eq_self] at next
      obtain ⟨later, final⟩ := ih _ next
      refine ⟨?_, final⟩
      rw [retryFrom, watchAll_append, watched]
      exact later

theorem saneFragment_of_classify {env : Environment} {data : List Byte}
    (kind : classify env data = .fragment) : saneFragment data = true := by
  unfold classify at kind
  split at kind
  · split at kind
    · split at kind
      · rename_i accepted
        exact accepted.2.2
      · cases kind
    · split at kind
      · split at kind
        · cases kind
        · split at kind
          · cases kind
          · split at kind <;> cases kind
      · cases kind
  · cases kind

theorem react_noted (sw : Switch) (register : Register) (input : Input) (queue : QueueTracked sw register)
    (condition : InputMeets sw register input) :
    ∃ after, watchAll note register (react sw input).2 = some after ∧
      QueueTracked (react sw input).1 after := by
  cases input with
  | datagram env now path data =>
      simp only [InputMeets] at condition
      simp only [react, onRemotePacket]
      cases kind : classify env data with
      | fragment =>
          rw [kind] at condition
          exact receiveFragment_noted env now path queue (saneFragment_of_classify kind) condition
      | head =>
          rw [kind] at condition
          exact receiveHead_noted env now path queue condition
      | whole => exact receiveWhole_noted env now path data queue
      | ignored => exact ⟨register, rfl, queue⟩
  | doAnythingWaitingForPeer envs now => exact ⟨register, retryFrom_noted envs now _ sw register queue⟩
  | doTimerTasks envs now =>
      simp only [react, doTimerTasks]
      split
      · exact ⟨register, rfl, queue⟩
      · exact ⟨register, retryFrom_noted envs now _ { sw with lastCheckedQueues := now } register queue⟩

/-- In every run whose steps meet the condition, an entry is handed to `tryDecode` as assembled only
after its head and all its fragments were received, with exactly these appended, and once. -/
theorem assembled_after_all_received (sw : Switch) (initial : Initial sw) (inputs : List Input)
    (along : Along step (Meets InputMeets) ⟨sw, some emptyRegister⟩ inputs) :
    Throughout step Lawful ⟨sw, some emptyRegister⟩ inputs :=
  lawful_of_invariant react_noted (fun slot used => absurd (initial.free slot) used) along

/-- Packet 5 from node 9 to node 7: the head of a fragmented packet. -/
def fragmentedHead : List Byte :=
  [0, 0, 0, 0, 0, 0, 0, 5] ++ [0, 0, 0, 0, 7] ++ [0, 0, 0, 0, 9] ++ [0x48] ++ List.replicate 9 0

/-- A fragment of packet 5 with the given octet of total and number. -/
def fragmentOfFive (counts : Byte) : List Byte :=
  [0, 0, 0, 0, 0, 0, 0, 5] ++ [0, 0, 0, 0, 7] ++ [0xff, counts, 0] ++ [0xee]

theorem assembled_in_any_order :
    Throughout step Lawful ⟨zeroSwitch, some emptyRegister⟩
      [.datagram lonelyEnv 1 .nil (fragmentOfFive 0x21), .datagram lonelyEnv 2 .nil fragmentedHead,
        .datagram lonelyEnv 3 .nil (fragmentOfFive 0x21)] := by
  refine assembled_after_all_received zeroSwitch initial_zeroSwitch _ ⟨?_, ?_, ?_, trivial⟩
  · intro register _
    have kind : classify lonelyEnv (fragmentOfFive 0x21) = .fragment := by decide
    simp only [InputMeets, kind]
    unfold FragmentMeets
    decide
  · intro register _
    have kind : classify lonelyEnv fragmentedHead = .head := by decide
    simp only [InputMeets, kind]
    unfold HeadMeets
    decide
  · intro register _
    have kind : classify lonelyEnv (fragmentOfFive 0x21) = .fragment := by decide
    simp only [InputMeets, kind]
    unfold FragmentMeets
    decide

/-- Fragments 1 and 2 of a packet said to have 2 fragments in all: their count is reached without
the head. -/
theorem assembled_without_head :
    ∃ sw inputs, Initial sw ∧ ¬ Throughout step Lawful ⟨sw, some emptyRegister⟩ inputs := by
  refine ⟨zeroSwitch, [.datagram lonelyEnv 1 .nil (fragmentOfFive 0x21),
    .datagram lonelyEnv 2 .nil (fragmentOfFive 0x22)], initial_zeroSwitch, ?_⟩
  intro holds
  have lawful := holds.2.2
  unfold Throughout Lawful at lawful
  exact absurd lawful (by decide)

end ZeroTierNode.RxReassembly

import Mathlib.Data.Fintype.Card
import ZeroTierNode.ConfigDelivery

/-!
Which slot a new update displaces. The counter of a slot says how often the slot
was touched and not when, so the slot with the least counter need not be the one
that was touched least recently.
-/

namespace ZeroTierNode.ConfigSlots
open Library.Runs Library.Bytes ConfigAssembly ConfigDelivery

/-- With as many places as there are members of a family, the least recently touched place was not touched
since a member without a place could have been there. -/
theorem oldest_before {Place Member : Type*} [Fintype Place] [DecidableEq Member] {family : Finset Member}
    {holder : Place → Member} {touch : Place → Nat} {since : Nat} (enough : family.card ≤ Fintype.card Place)
    (held : ∀ place, since ≤ touch place → holder place ∈ family)
    (once : ∀ place other, since ≤ touch place → since ≤ touch other → holder place = holder other → place = other)
    {newcomer : Member} (member : newcomer ∈ family) (absent : ∀ place, holder place ≠ newcomer) {oldest : Place}
    (least : ∀ place, touch oldest ≤ touch place) : touch oldest < since := by
  by_contra late
  have recent : ∀ place, since ≤ touch place := by
    intro place
    have later := least place
    omega
  have injective : Function.Injective holder := by
    intro place other same
    exact once place other (recent place) (recent other) same
  have inside : Finset.univ.image holder ⊆ family.erase newcomer := by
    intro found image
    obtain ⟨place, -, rfl⟩ := Finset.mem_image.mp image
    exact Finset.mem_erase.mpr ⟨absent place, held place (recent place)⟩
  have few := Finset.card_le_card inside
  have some := Finset.card_pos.mpr ⟨newcomer, member⟩
  rw [Finset.card_image_of_injective _ injective, Finset.card_univ, Finset.card_erase_of_mem member] at few
  omega

/-- A slot's dictionary was read: for which update, and what it was read as. -/
structure Completion (capacity : Nat) where
  updateId : BitVec 64
  dictionary : Dictionary capacity
  configured : Option NetworkConfig

/-- A network with the time each of its slots was last touched, and the updates completed so far. -/
structure Watched (capacity : Nat) where
  net : ChunkedNetwork
  lastTouch : Fin 3 → Nat
  clock : Nat
  completed : List (Completion capacity)

def completion {capacity : Nat} (h : HandledChunk capacity) : Option (Completion capacity) := do
  let s ← h.stored
  let d ← h.assembled
  return ⟨s.updateId, d, h.configured⟩

def watch {capacity : Nat} (state : Watched capacity) (h : HandledChunk capacity) : Watched capacity where
  net := h.net
  lastTouch := h.touched.elim state.lastTouch (fun c => Function.update state.lastTouch c state.clock)
  clock := state.clock + 1
  completed := state.completed ++ (completion h).toList

section Steps

variable {capacity : Nat} (room : 0 < capacity) (limits : Limits) (order : SortOrder) (crypto : Crypto)

def step (state : Watched capacity) (delivery : Delivery) : Watched capacity :=
  (receive room limits order crypto state.net delivery).elim { state with clock := state.clock + 1 } (watch state)

/-- A least recently touched slot is also the first of those that were touched least often. -/
def OldestIsLeast (state : Watched capacity) : Prop :=
  ∃ i, (∀ j, state.lastTouch i ≤ state.lastTouch j) ∧
    ∀ j, (state.net.incoming i).ts.toNat ≤ (state.net.incoming j).ts.toNat ∧
      (j < i → (state.net.incoming i).ts.toNat < (state.net.incoming j).ts.toNat)

/-- The counters agree with the order of the touches when a chunk arrives whose update has no slot. -/
def CountersAgree (state : Watched capacity) (delivery : Delivery) : Prop :=
  ∀ data tail,
    readChunk capacity (delivery.head ++ delivery.payload) delivery.head.length = some (.signed data tail) →
    (∀ i, (state.net.incoming i).updateId ≠ tail.configUpdateId) → OldestIsLeast state

/-- A slot that is assigned to another update is a least recently touched one. -/
def DisplacesOldest (state : Watched capacity) (delivery : Delivery) : Prop :=
  ∀ h c, receive room limits order crypto state.net delivery = some h → h.touched = some c →
    (state.net.incoming c).updateId ≠ (h.net.incoming c).updateId → ∀ j, state.lastTouch c ≤ state.lastTouch j

end Steps

section Invariant

variable {capacity : Nat} (limits : Limits) (order : SortOrder) (sign : List Byte → Signature)

def Seen (u : ConfigUpdate capacity) (processed : List Delivery) (number : Nat) : Prop :=
  ∃ delivery ∈ processed, delivery.payload = u.payload sign number

/-- How an update completes. -/
def completionOf (u : ConfigUpdate capacity) : Completion capacity :=
  ⟨u.updateId, u.d, (NetworkConfig.fromDictionary limits order u.d).result⟩

/-- An update of which no chunk was delivered yet has no slot. Any other has one that was touched since the
start and has received every chunk that was delivered. -/
def Standing (since : Nat) (processed : List Delivery) (state : Watched capacity) (u : ConfigUpdate capacity) : Prop :=
  ((∀ i, (state.net.incoming i).updateId ≠ u.updateId) ∧ ∀ number < u.count, ¬ Seen sign u processed number) ∨
    ∃ i received, Holds sign u received (state.net.incoming i) ∧
      (∀ j, j ≠ i → (state.net.incoming j).updateId ≠ u.updateId) ∧ since ≤ state.lastTouch i ∧
      (∀ number < u.count, Seen sign u processed number → number ∈ received) ∧
      (Complete u received → completionOf limits order u ∈ state.completed)

/-- Every slot that was touched since the start holds one of the updates. -/
structure Settled (updates : List (ConfigUpdate capacity)) (nwid : BitVec 64) (since : Nat) (processed : List Delivery)
    (state : Watched capacity) : Prop where
  listens : Listens nwid state.net
  started : since ≤ state.clock
  recent : ∀ i, since ≤ state.lastTouch i → ∃ u ∈ updates, (state.net.incoming i).updateId = u.updateId
  each : ∀ u ∈ updates, Standing limits order sign since processed state u

variable {limits order sign} {since : Nat} {processed : List Delivery} {state : Watched capacity}
  {u : ConfigUpdate capacity}

theorem Standing.awaits (standing : Standing limits order sign since processed state u) :
    ∃ received, Awaits sign u received state.net.incoming ∧
      (received = [] ∨ ∃ i, (state.net.incoming i).updateId = u.updateId) := by
  rcases standing with ⟨none, -⟩ | ⟨i, received, holds, others, -⟩
  · exact ⟨[], Or.inl ⟨rfl, none⟩, Or.inl rfl⟩
  · exact ⟨received, Or.inr ⟨i, holds, others⟩, Or.inr ⟨i, holds.update⟩⟩

/-- A packet says which update its chunk belongs to, and which chunk it is. -/
theorem payload_update (addressable : capacity ≤ 2 ^ 32) {v : ConfigUpdate capacity} {number other : Nat}
    (inside : number < u.count) (otherInside : other < v.count)
    (same : u.payload sign number = v.payload sign other) : u.updateId = v.updateId := by
  have first := readChunk_payload addressable sign [] inside
  rw [same, readChunk_payload addressable sign [] otherInside] at first
  injection Option.some.inj first with _ tails
  injection tails with _ updates
  exact updates.symm

theorem seen_other (addressable : capacity ≤ 2 ^ 32) {v : ConfigUpdate capacity} (different : v.updateId ≠ u.updateId)
    {delivery : Delivery} {number other : Nat} (inside : number < u.count) (otherInside : other < v.count)
    (sent : delivery.payload = u.payload sign number) (seen : Seen sign v (processed ++ [delivery]) other) :
    Seen sign v processed other := by
  obtain ⟨found, member, payload⟩ := seen
  rcases List.mem_append.mp member with earlier | last
  · exact ⟨found, earlier, payload⟩
  · rw [List.mem_singleton.mp last, sent] at payload
    exact absurd (payload_update addressable inside otherInside payload).symm different

theorem seen_same (addressable : capacity ≤ 2 ^ 32) (ids : DistinctIds sign u) {delivery : Delivery}
    {number other : Nat} (inside : number < u.count) (otherInside : other < u.count)
    (sent : delivery.payload = u.payload sign number) (seen : Seen sign u (processed ++ [delivery]) other) :
    Seen sign u processed other ∨ other = number := by
  obtain ⟨found, member, payload⟩ := seen
  rcases List.mem_append.mp member with earlier | last
  · exact Or.inl ⟨found, earlier, payload⟩
  · rw [List.mem_singleton.mp last, sent] at payload
    exact Or.inr (payload_injective addressable ids inside otherInside payload).symm

/-- A chunk of one update leaves another as it stands, unless it takes the other's slot. -/
theorem Standing.other (addressable : capacity ≤ 2 ^ 32) {v : ConfigUpdate capacity}
    (standing : Standing limits order sign since processed state v) (different : v.updateId ≠ u.updateId)
    {delivery : Delivery} {number : Nat} (inside : number < u.count)
    (sent : delivery.payload = u.payload sign number) {after : Watched capacity} {c : Fin 3}
    (taken : (after.net.incoming c).updateId = u.updateId)
    (others : ∀ j, j ≠ c → after.net.incoming j = state.net.incoming j)
    (touches : ∀ j, j ≠ c → after.lastTouch j = state.lastTouch j)
    (apart : ∀ i, (state.net.incoming i).updateId = v.updateId → since ≤ state.lastTouch i → i ≠ c)
    (completed : ∀ old ∈ state.completed, old ∈ after.completed) :
    Standing limits order sign since (processed ++ [delivery]) after v := by
  rcases standing with ⟨none, nothing⟩ | ⟨i, received, holds, unique, touched, every, whole⟩
  · refine Or.inl ⟨?_, fun other otherInside seen =>
      nothing other otherInside (seen_other addressable different inside otherInside sent seen)⟩
    intro j
    by_cases place : j = c
    · rw [place, taken]
      exact different.symm
    · rw [others j place]
      exact none j
  · have place := apart i holds.update touched
    refine Or.inr ⟨i, received, ?_, ?_, ?_, fun other otherInside seen =>
      every other otherInside (seen_other addressable different inside otherInside sent seen),
      fun complete => completed _ (whole complete)⟩
    · rw [others i place]
      exact holds
    · intro j notHere
      by_cases there : j = c
      · rw [there, taken]
        exact different.symm
      · rw [others j there]
        exact unique j notHere
    · rw [touches i place]
      exact touched

theorem Standing.again {later : List Delivery} (standing : Standing limits order sign since processed state u)
    (same : ∀ number < u.count, Seen sign u later number → Seen sign u processed number) (clock : Nat) :
    Standing limits order sign since later { state with clock := clock } u := by
  rcases standing with ⟨none, nothing⟩ | ⟨i, received, holds, unique, touched, every, whole⟩
  · exact Or.inl ⟨none, fun number inside seen => nothing number inside (same number inside seen)⟩
  · exact Or.inr ⟨i, received, holds, unique, touched,
      fun number inside seen => every number inside (same number inside seen), whole⟩

end Invariant

section Run

variable {capacity : Nat} {room : 0 < capacity} {limits : Limits} {order : SortOrder} {crypto : Crypto}
  {sign : List Byte → Signature} {updates : List (ConfigUpdate capacity)} {nwid : BitVec 64}
  (addressable : capacity ≤ 2 ^ 32) (few : updates.length ≤ 3)
  (distinct : (updates.map ConfigUpdate.updateId).Nodup) (network : ∀ u ∈ updates, u.nwid = nwid)
  (ids : ∀ u ∈ updates, DistinctIds sign u) {since : Nat} {processed : List Delivery} {state : Watched capacity}

include distinct in
theorem update_eq {u v : ConfigUpdate capacity} (first : u ∈ updates) (second : v ∈ updates)
    (same : u.updateId = v.updateId) : u = v :=
  List.inj_on_of_nodup_map distinct first second same

include few distinct in
/-- A slot that is given to an update without one was not touched since the start. -/
theorem displaced_before (settled : Settled limits order sign updates nwid since processed state)
    {u : ConfigUpdate capacity} (member : u ∈ updates) (absent : ∀ i, (state.net.incoming i).updateId ≠ u.updateId)
    {c : Fin 3} (least : ∀ j, state.lastTouch c ≤ state.lastTouch j) : state.lastTouch c < since := by
  apply @oldest_before (Fin 3) (BitVec 64) _ _ (updates.map ConfigUpdate.updateId).toFinset
    (fun i => (state.net.incoming i).updateId) state.lastTouch since ?_ ?_ ?_ u.updateId ?_ absent c least
  · rw [List.toFinset_card_of_nodup distinct, List.length_map, Fintype.card_fin]
    exact few
  · intro i recent
    obtain ⟨v, found, same⟩ := settled.recent i recent
    exact List.mem_toFinset.mpr (List.mem_map.mpr ⟨v, found, same.symm⟩)
  · intro i j recent _ same
    obtain ⟨v, found, here⟩ := settled.recent i recent
    rcases settled.each v found with ⟨none, -⟩ | ⟨place, received, -, unique, -⟩
    · exact absurd here (none i)
    · by_contra different
      by_cases first : i = place
      · exact unique j (fun second => different (first.trans second.symm)) (same.symm.trans here)
      · exact unique i first here
  · exact List.mem_toFinset.mpr (List.mem_map.mpr ⟨u, member, rfl⟩)

include addressable in
/-- An update without a slot gets the one that was touched least recently. -/
theorem CountersAgree.least {u : ConfigUpdate capacity} {delivery : Delivery} {number : Nat}
    (agrees : CountersAgree state delivery) (inside : number < u.count)
    (sent : delivery.payload = u.payload sign number) (absent : ∀ i, (state.net.incoming i).updateId ≠ u.updateId) :
    ∀ j, state.lastTouch (slotFor state.net.incoming u.updateId) ≤ state.lastTouch j := by
  have read := readChunk_payload addressable sign delivery.head inside
  rw [← sent] at read
  obtain ⟨i, least, first⟩ := agrees _ _ read absent
  have chosen : slotFor state.net.incoming u.updateId = i := by
    have mine := slotFor_least absent i
    have yours := first (slotFor state.net.incoming u.updateId)
    rcases lt_trichotomy (slotFor state.net.incoming u.updateId) i with before | same | behind
    · have smaller := yours.2 before
      omega
    · exact same
    · have smaller := mine.2 behind
      omega
  rw [chosen]
  exact least

theorem watch_ignoreChunk (state : Watched capacity) :
    watch state (ignoreChunk state.net) = { state with clock := state.clock + 1 } := by
  have same : state.completed ++ [] = state.completed := List.append_nil _
  change (⟨state.net, state.lastTouch, state.clock + 1, state.completed ++ []⟩ : Watched capacity) = _
  rw [same]

theorem completion_of_fills {u : ConfigUpdate capacity} {received : List Nat} {net : ChunkedNetwork}
    {h : HandledChunk capacity} (fills : Fills limits order sign u received net h) (complete : Complete u received) :
    completion h = some (completionOf limits order u) := by
  obtain ⟨s, stored, update⟩ := Option.map_eq_some_iff.mp fills.update
  obtain ⟨assembled, configured⟩ := fills.complete complete
  rw [completion, stored, assembled, configured, completionOf, ← update]
  rfl

include addressable distinct network ids in
/-- A chunk that fills a slot, when that slot was not one that another update was given since the start. -/
theorem settled_fills (settled : Settled limits order sign updates nwid since processed state)
    {u : ConfigUpdate capacity} (member : u ∈ updates) {delivery : Delivery} {number : Nat} (inside : number < u.count)
    (sent : delivery.payload = u.payload sign number) {received : List Nat}
    (awaits : Awaits sign u received state.net.incoming)
    (every : ∀ other < u.count, Seen sign u processed other → other ∈ received) {h : HandledChunk capacity}
    (fills : Fills limits order sign u (received ++ [number]) state.net h)
    (apart : ∀ v ∈ updates, v.updateId ≠ u.updateId → ∀ i, (state.net.incoming i).updateId = v.updateId →
      since ≤ state.lastTouch i → i ≠ slotFor state.net.incoming u.updateId) :
    Settled limits order sign updates nwid since (processed ++ [delivery]) (watch state h) := by
  have started := settled.started
  have touches : ∀ j, j ≠ slotFor state.net.incoming u.updateId →
      (watch state h).lastTouch j = state.lastTouch j := by
    intro j other
    rw [watch, fills.touched]
    exact Function.update_of_ne other _ _
  have touched : (watch state h).lastTouch (slotFor state.net.incoming u.updateId) = state.clock := by
    rw [watch, fills.touched]
    exact Function.update_self _ _ _
  refine ⟨?_, Nat.le_succ_of_le started, ?_, ?_⟩
  · rw [← network u member]
    exact fills.listens
  · intro i recent
    by_cases place : i = slotFor state.net.incoming u.updateId
    · rw [place]
      exact ⟨u, member, fills.holds.update⟩
    · rw [touches i place] at recent
      change ∃ v ∈ updates, (h.net.incoming i).updateId = v.updateId
      rw [fills.others i place]
      exact settled.recent i recent
  · intro v found
    by_cases same : v.updateId = u.updateId
    · rw [update_eq distinct found member same]
      obtain ⟨-, unique, -⟩ := awaits.slot
      refine Or.inr ⟨slotFor state.net.incoming u.updateId, received ++ [number], fills.holds, ?_, ?_, ?_, ?_⟩
      · intro j other
        change (h.net.incoming j).updateId ≠ u.updateId
        rw [fills.others j other]
        exact unique j other
      · rw [touched]
        exact started
      · intro other otherInside seen
        rcases seen_same addressable (ids u member) inside otherInside sent seen with before | now
        · exact List.mem_append_left _ (every other otherInside before)
        · rw [now]
          exact List.mem_append_right _ (List.mem_singleton_self number)
      · intro complete
        apply List.mem_append_right
        rw [completion_of_fills fills complete]
        exact List.mem_singleton_self _
    · exact (settled.each v found).other addressable same inside sent fills.holds.update fills.others touches
        (apart v found same) (fun old kept => List.mem_append_left _ kept)

include addressable few distinct network ids in
theorem settled_step (settled : Settled limits order sign updates nwid since processed state) {delivery : Delivery}
    (knows : Knows crypto sign nwid delivery.RR) (only : ∃ u ∈ updates, delivery.payload ∈ u.sent sign)
    (agrees : CountersAgree state delivery) :
    DisplacesOldest room limits order crypto state delivery ∧
      Settled limits order sign updates nwid since (processed ++ [delivery])
        (step room limits order crypto state delivery) := by
  obtain ⟨u, member, payload⟩ := only
  obtain ⟨number, inside, sent⟩ := u.mem_sent.mp payload
  have knowsThis : Knows crypto sign u.nwid delivery.RR := (network u member).symm ▸ knows
  have listens : Listens u.nwid state.net := (network u member).symm ▸ settled.listens
  rcases settled.each u member with ⟨absent, nothing⟩ | ⟨i, received, holds, unique, recent, every, whole⟩
  · have awaits : Awaits sign u [] state.net.incoming := Or.inl ⟨rfl, absent⟩
    have least := agrees.least addressable inside sent absent
    rcases receive_chunk addressable (ids u member) awaits listens knowsThis inside sent with
      ⟨seen, -⟩ | ⟨-, h, handled, fills⟩
    · exact absurd seen List.not_mem_nil
    · refine ⟨?_, ?_⟩
      · intro result c received touched _
        rw [handled] at received
        rw [← Option.some.inj received, fills.touched] at touched
        rw [← Option.some.inj touched]
        exact least
      · rw [step, handled]
        apply settled_fills addressable distinct network ids settled member inside sent awaits ?_ fills
        · intro v found _ j _ late same
          have before := displaced_before few distinct settled member absent least
          rw [same] at late
          omega
        · intro other otherInside seen
          exact absurd seen (nothing other otherInside)
  · have awaits : Awaits sign u received state.net.incoming := Or.inr ⟨i, holds, unique⟩
    have place := slotFor_holder holds.update unique
    rcases receive_chunk addressable (ids u member) awaits listens knowsThis inside sent with
      ⟨seen, ignored⟩ | ⟨new, h, handled, fills⟩
    · refine ⟨?_, ?_⟩
      · intro result c received touched _
        rw [ignored] at received
        rw [← Option.some.inj received] at touched
        cases touched
      · rw [step, ignored, Option.elim_some, watch_ignoreChunk]
        refine ⟨settled.listens, Nat.le_succ_of_le settled.started, settled.recent, ?_⟩
        intro v found
        by_cases same : v.updateId = u.updateId
        · rw [update_eq distinct found member same]
          refine Or.inr ⟨i, received, holds, unique, recent, ?_, whole⟩
          intro other otherInside otherSeen
          rcases seen_same addressable (ids u member) inside otherInside sent otherSeen with before | now
          · exact every other otherInside before
          · rw [now]
            exact seen
        · exact (settled.each v found).again (fun other otherInside otherSeen =>
            seen_other addressable same inside otherInside sent otherSeen) _
    · refine ⟨?_, ?_⟩
      · intro result c received touched displaced
        rw [handled] at received
        rw [← Option.some.inj received, fills.touched] at touched
        rw [← Option.some.inj received, ← Option.some.inj touched, fills.holds.update, place] at displaced
        exact absurd holds.update displaced
      · rw [step, handled]
        apply settled_fills addressable distinct network ids settled member inside sent awaits every fills
        intro v found different j here _ same
        rw [same, place, holds.update] at here
        exact different here.symm

include addressable few distinct network ids in
theorem settled_run {deliveries : List Delivery}
    (settled : Settled limits order sign updates nwid since processed state)
    (knows : ∀ delivery ∈ deliveries, Knows crypto sign nwid delivery.RR)
    (only : ∀ delivery ∈ deliveries, ∃ u ∈ updates, delivery.payload ∈ u.sent sign)
    (agrees : Along (step room limits order crypto) CountersAgree state deliveries) :
    Along (step room limits order crypto) (DisplacesOldest room limits order crypto) state deliveries ∧
      Settled limits order sign updates nwid since (processed ++ deliveries)
        (run (step room limits order crypto) state deliveries) := by
  induction deliveries generalizing processed state with
  | nil =>
      rw [List.append_nil]
      exact ⟨trivial, settled⟩
  | cons delivery deliveries ih =>
      obtain ⟨displaces, next⟩ := settled_step addressable few distinct network ids settled
        (knows delivery List.mem_cons_self) (only delivery List.mem_cons_self) agrees.1
      have rest := ih next (fun later member => knows later (List.mem_cons_of_mem _ member))
        (fun later member => only later (List.mem_cons_of_mem _ member)) agrees.2
      rw [List.append_assoc] at rest
      exact ⟨⟨displaces, rest.1⟩, rest.2⟩

end Run

/-- Up to three new updates, their chunks interleaved in any way: when the counters agree with the order in
which the slots were touched, every slot that is given away is a least recently touched one, and every update
of which all chunks arrive completes. -/
theorem interleaved_updates_complete {capacity : Nat} (room : 0 < capacity) (limits : Limits) (order : SortOrder)
    (crypto : Crypto) (sign : List Byte → Signature) (addressable : capacity ≤ 2 ^ 32) (nwid : BitVec 64)
    (updates : List (ConfigUpdate capacity)) (few : updates.length ≤ 3)
    (distinct : (updates.map ConfigUpdate.updateId).Nodup) (network : ∀ u ∈ updates, u.nwid = nwid)
    (ids : ∀ u ∈ updates, DistinctIds sign u) (start : Watched capacity) (listens : Listens nwid start.net)
    (past : ∀ i, start.lastTouch i < start.clock)
    (fresh : ∀ u ∈ updates, ∀ i, (start.net.incoming i).updateId ≠ u.updateId) (deliveries : List Delivery)
    (knows : ∀ delivery ∈ deliveries, Knows crypto sign nwid delivery.RR)
    (only : ∀ delivery ∈ deliveries, ∃ u ∈ updates, delivery.payload ∈ u.sent sign)
    (agrees : Along (step room limits order crypto) CountersAgree start deliveries) :
    Along (step room limits order crypto) (DisplacesOldest room limits order crypto) start deliveries ∧
      ∀ u ∈ updates, (∀ payload ∈ u.sent sign, ∃ delivery ∈ deliveries, delivery.payload = payload) →
        completionOf limits order u ∈ (run (step room limits order crypto) start deliveries).completed := by
  have settled : Settled limits order sign updates nwid start.clock [] start := by
    refine ⟨listens, Nat.le_refl _, ?_, ?_⟩
    · intro i recent
      have before := past i
      omega
    · intro u member
      refine Or.inl ⟨fresh u member, ?_⟩
      rintro number inside ⟨delivery, found, -⟩
      exact List.not_mem_nil found
  obtain ⟨displaces, after⟩ := settled_run addressable few distinct network ids settled knows only agrees
  refine ⟨displaces, ?_⟩
  intro u member all
  have seen : ∀ number < u.count, Seen sign u ([] ++ deliveries) number := by
    intro number inside
    obtain ⟨delivery, found, payload⟩ := all _ (u.mem_sent.mpr ⟨number, inside, rfl⟩)
    exact ⟨delivery, found, payload⟩
  rcases after.each u member with ⟨-, nothing⟩ | ⟨i, received, -, -, -, every, whole⟩
  · have first : 0 < u.count := (u.lt_count_iff 0).mpr (by rw [ConfigUpdate.chunkStart, Nat.zero_mul]; exact u.total_pos)
    exact absurd (seen 0 first) (nothing 0 first)
  · apply whole
    intro number inside
    exact every number inside (seen number inside)

section Small

/-- A text of two bytes in two chunks. -/
def tinyUpdate (updateId : BitVec 64) : ConfigUpdate 16384 where
  nwid := 0x1000000
  updateId := updateId
  d := ⟨[0x61, 0x61], by decide, by decide⟩
  nonempty := by decide
  size := 1
  positive := Nat.one_pos
  short := by decide
  few := by decide

def tinyDelivery (updateId : BitVec 64) (number : Nat) : Delivery :=
  ⟨member, 0, 0, 1, List.replicate 28 0, (tinyUpdate updateId).payload endSignature number⟩

abbrev tinyStep : Watched 16384 → Delivery → Watched 16384 := step NetworkConfig.small_room {} smallOrder endCrypto

def newNetwork : Watched 16384 := ⟨.initial 0x1000000, fun _ => 0, 1, []⟩

/-- Both chunks of the updates 2, 3 and 4, the first ones first. -/
def threeUpdates : List Delivery :=
  [tinyDelivery 2 0, tinyDelivery 3 0, tinyDelivery 4 0, tinyDelivery 2 1, tinyDelivery 3 1, tinyDelivery 4 1]

def threeTinyUpdates : List (ConfigUpdate 16384) := [tinyUpdate 2, tinyUpdate 3, tinyUpdate 4]

theorem tinyUpdate_ids : ∀ u ∈ threeTinyUpdates, DistinctIds endSignature u := by
  intro u member
  simp only [threeTinyUpdates, List.mem_cons, List.not_mem_nil, or_false] at member
  unfold DistinctIds
  rcases member with rfl | rfl | rfl <;> decide +kernel

theorem threeUpdates_known : ∀ delivery ∈ threeUpdates, Knows endCrypto endSignature 0x1000000 delivery.RR := by
  intro delivery member
  simp only [threeUpdates, List.mem_cons, List.not_mem_nil, or_false] at member
  rcases member with rfl | rfl | rfl | rfl | rfl | rfl <;> exact knows_member

theorem threeUpdates_only :
    ∀ delivery ∈ threeUpdates, ∃ u ∈ threeTinyUpdates, delivery.payload ∈ u.sent endSignature := by
  decide +kernel

theorem threeUpdates_all : ∀ u ∈ threeTinyUpdates, ∀ payload ∈ u.sent endSignature,
    ∃ delivery ∈ threeUpdates, delivery.payload = payload := by
  decide +kernel

/-- On a new network all three complete. -/
theorem three_updates_complete :
    threeTinyUpdates.Forall fun u =>
      completionOf {} smallOrder u ∈ (run tinyStep newNetwork threeUpdates).completed := by
  have agrees : Along tinyStep CountersAgree newNetwork threeUpdates := by
    refine ⟨?_, ?_, ?_, ?_, ?_, ?_, trivial⟩
    all_goals
      intro _ _ _ _
      unfold OldestIsLeast
      decide +kernel
  have done := interleaved_updates_complete (by decide : 0 < 16384) {} smallOrder endCrypto endSignature (by decide)
    0x1000000 threeTinyUpdates (by decide) (by decide +kernel) (by decide +kernel) tinyUpdate_ids newNetwork
    ⟨rfl, rfl⟩ (by decide) (by decide +kernel) threeUpdates threeUpdates_known threeUpdates_only agrees
  rw [List.forall_iff_forall_mem]
  intro u member
  exact done.2 u member (threeUpdates_all u member)

/-- After an update that touched its slot twice, the third of three new updates displaces the first one, whose
chunk arrived later than those of the old update, and the first one does not complete. -/
theorem new_update_displaces_active_one : ∃ start : Watched 16384,
    start = run tinyStep newNetwork [tinyDelivery 1 0, tinyDelivery 1 1] ∧
      (∀ u ∈ threeTinyUpdates, ∀ payload ∈ u.sent endSignature,
        ∃ delivery ∈ threeUpdates, delivery.payload = payload) ∧
      ¬ Along tinyStep (DisplacesOldest (by decide) {} smallOrder endCrypto) start threeUpdates ∧
      ∃ u ∈ threeTinyUpdates, completionOf {} smallOrder u ∉ (run tinyStep start threeUpdates).completed := by
  let start := run tinyStep newNetwork [tinyDelivery 1 0, tinyDelivery 1 1]
  refine ⟨start, rfl, threeUpdates_all, ?_, tinyUpdate 2, List.mem_cons_self, ?_⟩
  · intro along
    have seen : (receive (by decide : 0 < 16384) {} smallOrder endCrypto
        (run tinyStep start [tinyDelivery 2 0, tinyDelivery 3 0]).net (tinyDelivery 4 0)).map
        (fun h => (h.touched, (h.net.incoming 1).updateId)) = some (some 1, 4) := by decide +kernel
    obtain ⟨h, handled, same⟩ := Option.map_eq_some_iff.mp seen
    have held : ((run tinyStep start [tinyDelivery 2 0, tinyDelivery 3 0]).net.incoming 1).updateId = 2 := by
      decide +kernel
    obtain ⟨-, law, -⟩ := (along_append start [tinyDelivery 2 0, tinyDelivery 3 0]
      [tinyDelivery 4 0, tinyDelivery 2 1, tinyDelivery 3 1, tinyDelivery 4 1]).mp along
    have displaced := law h 1 handled (Prod.mk.inj same).1 (by
      rw [held, (Prod.mk.inj same).2]
      decide) 0
    have later : ¬ (run tinyStep start [tinyDelivery 2 0, tinyDelivery 3 0]).lastTouch 1 ≤
        (run tinyStep start [tinyDelivery 2 0, tinyDelivery 3 0]).lastTouch 0 := by decide +kernel
    exact later displaced
  · intro found
    have completed : (run tinyStep start threeUpdates).completed.map Completion.updateId = [1, 4] := by
      decide +kernel
    have listed : (2 : BitVec 64) ∈ (run tinyStep start threeUpdates).completed.map Completion.updateId :=
      List.mem_map.mpr ⟨_, found, rfl⟩
    rw [completed] at listed
    exact absurd listed (by decide)

end Small

end ZeroTierNode.ConfigSlots

import ZeroTierNode.Buffer
import ZeroTierNode.Network

/-!
Multicast subscriptions: the members of multicast groups, and the packets with
which peers announce the groups that they listen to. One packet names any number
of networks, and the sender has to be authorized for each of them.
-/

namespace ZeroTierNode.MulticastLikes
open Library.Bytes Buffer

structure MulticastGroup where
  mac : BitVec 48
  adi : BitVec 32
deriving DecidableEq, Repr

/-- A multicast that waits for members; its frame is not part of this state. -/
structure OutboundMulticast where
  limit : Nat
  alreadySentTo : List Address

namespace OutboundMulticast

def atLimit (tx : OutboundMulticast) : Bool := tx.limit ≤ tx.alreadySentTo.length

/-- `sendIfNew`, as far as it logs the address. -/
def sendIfNew (tx : OutboundMulticast) (toAddr : Address) : OutboundMulticast :=
  if toAddr ∈ tx.alreadySentTo then tx else { tx with alreadySentTo := tx.alreadySentTo ++ [toAddr] }

/-- A turn of the loop over the queue of `_add`; a multicast that is done leaves the queue. -/
def offer (tx : OutboundMulticast) (member : Address) : Option OutboundMulticast :=
  if tx.atLimit then none
  else if (tx.sendIfNew member).atLimit then none else some (tx.sendIfNew member)

end OutboundMulticast

structure MulticastGroupMember where
  address : Address
  timestamp : Int

structure MulticastGroupStatus where
  members : List MulticastGroupMember
  txQueue : List OutboundMulticast

/-- `_groups[key]` creates a missing entry as an empty group. -/
abbrev Groups := BitVec 64 → MulticastGroup → MulticastGroupStatus

/-- The loop over the queue of `_add`. -/
def flushTo (member : Address) (txQueue : List OutboundMulticast) : List OutboundMulticast :=
  txQueue.filterMap fun tx => tx.offer member

/-- `Multicaster::_add`; the members are in the order of their addresses. -/
def addMember (self : Address) (now : Int) (gs : MulticastGroupStatus) (member : Address) : MulticastGroupStatus :=
  if member = self then gs
  else
    let before := gs.members.takeWhile fun m => m.address < member
    match gs.members.dropWhile fun m => m.address < member with
    | m :: behind =>
        if m.address = member then { gs with members := before ++ { m with timestamp := now } :: behind }
        else ⟨before ++ ⟨member, now⟩ :: m :: behind, flushTo member gs.txQueue⟩
    | [] => ⟨before ++ [⟨member, now⟩], flushTo member gs.txQueue⟩

/-- `Multicaster::add`. -/
def Groups.add (groups : Groups) (self : Address) (now : Int) (nwid : BitVec 64) (mg : MulticastGroup)
    (member : Address) : Groups :=
  fun otherNwid otherMg =>
    if otherNwid = nwid ∧ otherMg = mg then addMember self now (groups nwid mg) member
    else groups otherNwid otherMg

/-- Members are kept in the order in which `std::lower_bound` looks for them. -/
def Ordered (gs : MulticastGroupStatus) : Prop := gs.members.Pairwise fun first second => first.address < second.address

theorem ordered_addMember (self : Address) (now : Int) {gs : MulticastGroupStatus} (member : Address)
    (ordered : Ordered gs) : Ordered (addMember self now gs member) := by
  have split : gs.members.takeWhile (fun m => m.address < member) ++ gs.members.dropWhile (fun m => m.address < member) =
      gs.members := List.takeWhile_append_dropWhile
  have below : ∀ m ∈ gs.members.takeWhile (fun m => m.address < member), m.address < member := by
    intro m found
    simpa using List.all_eq_true.mp List.all_takeWhile m found
  unfold Ordered at ordered
  rw [← split, List.pairwise_append] at ordered
  obtain ⟨before, behind, between⟩ := ordered
  unfold addMember Ordered
  by_cases own : member = self
  · rw [if_pos own, ← split, List.pairwise_append]
    exact ⟨before, behind, between⟩
  · rw [if_neg own]
    dsimp only
    cases rest : gs.members.dropWhile (fun m => m.address < member) with
    | nil =>
        dsimp only
        rw [List.pairwise_append]
        exact ⟨before, List.pairwise_singleton _ _, fun m found other last => List.mem_singleton.mp last ▸ below m found⟩
    | cons m tail =>
        have notBelow : ¬ m.address < member := by
          have head := List.head?_dropWhile_not (fun m : MulticastGroupMember => decide (m.address < member)) gs.members
          rw [rest] at head
          simpa using head
        rw [rest] at behind between
        obtain ⟨first, later⟩ := List.pairwise_cons.mp behind
        dsimp only
        by_cases known : m.address = member
        · rw [if_pos known, List.pairwise_append, List.pairwise_cons]
          refine ⟨before, ⟨first, later⟩, ?_⟩
          intro one found other listed
          rcases List.mem_cons.mp listed with same | listed
          · rw [same]
            exact between one found m List.mem_cons_self
          · exact between one found other (List.mem_cons_of_mem _ listed)
        · have above : member < m.address := by
            rw [BitVec.lt_def] at notBelow ⊢
            have different : m.address.toNat ≠ member.toNat := fun same => known (BitVec.eq_of_toNat_eq same)
            omega
          rw [if_neg known, List.pairwise_append, List.pairwise_cons]
          refine ⟨before, ⟨?_, behind⟩, ?_⟩
          · intro other listed
            rcases List.mem_cons.mp listed with same | listed
            · rw [same]
              exact above
            · exact BitVec.lt_trans above (first other listed)
          · intro one found other listed
            rcases List.mem_cons.mp listed with same | listed
            · rw [same]
              exact below one found
            · exact between one found other listed

/-- Whoever is added is a member, as of now. -/
theorem mem_addMember {self : Address} {now : Int} {gs : MulticastGroupStatus} {member : Address} (other : member ≠ self) :
    ∃ m ∈ (addMember self now gs member).members, m.address = member ∧ m.timestamp = now := by
  unfold addMember
  rw [if_neg other]
  dsimp only
  cases gs.members.dropWhile (fun m => m.address < member) with
  | nil => exact ⟨⟨member, now⟩, List.mem_append_right _ (List.mem_singleton.mpr rfl), rfl, rfl⟩
  | cons m behind =>
      dsimp only
      by_cases known : m.address = member
      · rw [if_pos known]
        exact ⟨{ m with timestamp := now }, List.mem_append_right _ List.mem_cons_self, known, rfl⟩
      · rw [if_neg known]
        exact ⟨⟨member, now⟩, List.mem_append_right _ List.mem_cons_self, rfl, rfl⟩

/-- What the handler reads and does not change. -/
structure Context where
  crypto : Crypto
  self : Address
  peer : Identity
  now : Int
  amUpstream : Bool
  /-- The times at which the local controller has authorized a member of a network. -/
  localControllerAuthorizations : BitVec 64 → Address → Option Int

/-- The joined networks. -/
abbrev Networks := BitVec 64 → Option Network

namespace Context

variable (ctx : Context)

/-- `Node::localControllerHasAuthorized`, with `ZT_NETWORK_AUTOCONF_DELAY` of 60000. -/
def localControllerHasAuthorized (nwid : BitVec 64) : Bool :=
  (ctx.localControllerAuthorizations nwid ctx.peer.address).any fun at_ => ctx.now - at_ < 60000 * 3

/-- The variables of the loop, the state that it changes, and the calls of `Multicaster::add` so far. -/
structure Loop where
  authorized : Bool
  lastNwid : BitVec 64
  networks : Networks
  groups : Groups
  added : List (BitVec 64 × MulticastGroup)

/-- A change of the network id. The flag is left alone where the network is not joined. -/
def authorize (loop : Loop) (nwid : BitVec 64) : Loop :=
  if nwid = loop.lastNwid then loop
  else
    let gated : Loop :=
      match loop.networks nwid with
      | some network =>
          let (admitted, network) := network.gate ctx.crypto ctx.peer ctx.now
          { loop with authorized := admitted, networks := Function.update loop.networks nwid (some network) }
      | none => loop
    { gated with
      lastNwid := nwid
      authorized := gated.authorized || ctx.amUpstream || ctx.localControllerHasAuthorized nwid }

/-- The call of `Multicaster::add`. -/
def like (loop : Loop) (nwid : BitVec 64) (mg : MulticastGroup) : Loop :=
  { loop with
    groups := loop.groups.add ctx.self ctx.now nwid mg ctx.peer.address
    added := loop.added ++ [(nwid, mg)] }

/-- The loop of `_doMULTICAST_LIKE`; a packet that ends inside a tuple throws there. -/
def likes (packet : List Byte) : Nat → Nat → Loop → Bool × Loop
  | 0, _, loop => (true, loop)
  | fuel + 1, ptr, loop =>
      if ptr < packet.length then
        match at64 packet ptr with
        | none => (false, loop)
        | some nwid =>
            let loop := ctx.authorize loop nwid
            if loop.authorized then
              match atWord 48 6 packet (ptr + 8), at32 packet (ptr + 14) with
              | some mac, some adi => likes packet fuel (ptr + 18) (ctx.like loop nwid ⟨mac, adi⟩)
              | _, _ => (false, loop)
            else likes packet fuel (ptr + 18) loop
      else (true, loop)

/-- `IncomingPacket::_doMULTICAST_LIKE`: whether it gets to the end, and what it leaves behind. -/
def doMULTICAST_LIKE (networks : Networks) (groups : Groups) (packet : List Byte) : Bool × Loop :=
  ctx.likes packet packet.length 28 ⟨false, 0, networks, groups, []⟩

/-- The sender is authorized for a network. -/
def Authorized (networks : Networks) (nwid : BitVec 64) : Prop :=
  (∃ network, networks nwid = some network ∧ (network.gate ctx.crypto ctx.peer ctx.now).1 = true) ∨
    ctx.amUpstream = true ∨ ctx.localControllerHasAuthorized nwid = true

end Context

/-- The complete tuples of a packet. -/
def tuples (packet : List Byte) : Nat → Nat → List (BitVec 64 × MulticastGroup)
  | 0, _ => []
  | fuel + 1, ptr =>
      match at64 packet ptr, atWord 48 6 packet (ptr + 8), at32 packet (ptr + 14) with
      | some nwid, some mac, some adi => (nwid, ⟨mac, adi⟩) :: tuples packet fuel (ptr + 18)
      | _, _, _ => []

/-- The networks of a packet's tuples. -/
def networkIds (packet : List Byte) : List (BitVec 64) := (tuples packet packet.length 28).map Prod.fst

namespace Context

variable (ctx : Context)

/-- One tuple. -/
def likeTuple (loop : Loop) (tuple : BitVec 64 × MulticastGroup) : Loop :=
  let loop := ctx.authorize loop tuple.1
  if loop.authorized then ctx.like loop tuple.1 tuple.2 else loop

/-- The groups and the calls that led to them. -/
def Loop.subscriptions (loop : Loop) : Groups × List (BitVec 64 × MulticastGroup) := (loop.groups, loop.added)

theorem authorize_subscriptions (loop : Loop) (nwid : BitVec 64) :
    (ctx.authorize loop nwid).subscriptions = loop.subscriptions := by
  unfold authorize
  by_cases same : nwid = loop.lastNwid
  · rw [if_pos same]
  · rw [if_neg same]
    cases loop.networks nwid <;> rfl

/-- A tuple that is cut off is the last one. -/
theorem likes_behind (packet : List Byte) (fuel : Nat) {ptr : Nat} (loop : Loop) (outside : packet.length ≤ ptr) :
    (ctx.likes packet fuel ptr loop).2 = loop := by
  cases fuel with
  | zero => rfl
  | succ fuel =>
      unfold likes
      rw [if_neg (by omega)]

/-- The subscriptions depend on the complete tuples alone. -/
theorem likes_subscriptions (packet : List Byte) (fuel ptr : Nat) (loop : Loop) :
    (ctx.likes packet fuel ptr loop).2.subscriptions =
      ((tuples packet fuel ptr).foldl ctx.likeTuple loop).subscriptions := by
  have outside {width count i : Nat} (absent : atWord width count packet i = none) : packet.length < i + count := by
    by_contra inside
    have read := (atWord_isSome width count packet i).mpr (by omega)
    rw [absent] at read
    cases read
  induction fuel generalizing ptr loop with
  | zero => rfl
  | succ fuel ih =>
      unfold likes tuples
      by_cases inside : ptr < packet.length
      · rw [if_pos inside]
        cases idRead : at64 packet ptr with
        | none => rfl
        | some nwid =>
            have cutOff (short : packet.length < ptr + 18) :
                (if (ctx.authorize loop nwid).authorized = true then (false, ctx.authorize loop nwid)
                  else ctx.likes packet fuel (ptr + 18) (ctx.authorize loop nwid)).2.subscriptions = loop.subscriptions := by
              by_cases authorized : (ctx.authorize loop nwid).authorized = true
              · rw [if_pos authorized]
                exact ctx.authorize_subscriptions loop nwid
              · rw [if_neg authorized, ctx.likes_behind packet fuel _ (by omega)]
                exact ctx.authorize_subscriptions loop nwid
            cases macRead : atWord 48 6 packet (ptr + 8) with
            | none =>
                have short := outside macRead
                exact cutOff (by omega)
            | some mac =>
                cases adiRead : at32 packet (ptr + 14) with
                | none =>
                    have short := outside adiRead
                    exact cutOff (by omega)
                | some adi =>
                    dsimp only
                    rw [List.foldl_cons]
                    by_cases authorized : (ctx.authorize loop nwid).authorized = true
                    · rw [if_pos authorized, ih, likeTuple, if_pos authorized]
                    · rw [if_neg authorized, ih, likeTuple, if_neg authorized]
      · have absent : at64 packet ptr = none := by
          cases read : at64 packet ptr with
          | none => rfl
          | some word =>
              have behind := atWord_inside read
              omega
        rw [if_neg inside, absent]
        rfl

section Exactness

variable {ctx : Context} {networks : Networks}

/-- What `gate` says about every joined network, for the sender and at this time. -/
def verdicts (ctx : Context) (networks : Networks) (nwid : BitVec 64) : Option Bool :=
  (networks nwid).map fun network => (network.gate ctx.crypto ctx.peer ctx.now).1

/-- A peer that was let in is let in again. -/
theorem gate_stable (network : Network) :
    ((network.gate ctx.crypto ctx.peer ctx.now).2.gate ctx.crypto ctx.peer ctx.now).1 =
      (network.gate ctx.crypto ctx.peer ctx.now).1 := by
  have kept (m : Membership) : (m.multicastLikeGate ctx.now).2.isAllowedOnNetwork ctx.crypto network.config ctx.peer =
      m.isAllowedOnNetwork ctx.crypto network.config ctx.peer := by
    unfold Membership.multicastLikeGate
    by_cases due : 60000 ≤ ctx.now - m.lastUpdatedMulticast
    · rw [if_pos due]
      rfl
    · rw [if_neg due]
  unfold Network.gate
  dsimp only
  by_cases configured : network.config.isSet = true
  · rw [if_pos configured]
    by_cases admitted : (network.config.isPublic || (network.memberships.lookup ctx.peer.address).any fun m =>
        m.isAllowedOnNetwork ctx.crypto network.config ctx.peer) = true
    · rw [if_pos admitted, if_pos configured, if_pos]
      rw [AList.lookup_insert, Option.any_some, kept]
      cases listed : network.memberships.lookup ctx.peer.address with
      | none =>
          rw [listed, Option.any_none, Bool.or_false] at admitted
          rw [admitted, Bool.true_or]
      | some m =>
          rw [listed] at admitted
          exact admitted
    · rw [if_neg admitted, if_pos configured, if_neg admitted]
  · rw [if_neg configured, if_neg configured]

theorem authorized_iff (nwid : BitVec 64) :
    ctx.Authorized networks nwid ↔
      verdicts ctx networks nwid = some true ∨ ctx.amUpstream = true ∨ ctx.localControllerHasAuthorized nwid = true := by
  unfold Authorized verdicts
  rw [Option.map_eq_some_iff]

/-- The flag and the state after a change of the network. -/
theorem authorize_spec (loop : Loop) (nwid : BitVec 64) (stable : verdicts ctx loop.networks = verdicts ctx networks) :
    verdicts ctx (ctx.authorize loop nwid).networks = verdicts ctx networks ∧
    (ctx.authorize loop nwid).lastNwid = nwid ∧
    ((ctx.authorize loop nwid).authorized = true ↔
      if nwid = loop.lastNwid then loop.authorized = true
      else ctx.Authorized networks nwid ∨ networks nwid = none ∧ loop.authorized = true) := by
  have here := congrFun stable nwid
  unfold authorize
  by_cases same : nwid = loop.lastNwid
  · rw [if_pos same, if_pos same]
    exact ⟨stable, same.symm, Iff.rfl⟩
  · rw [if_neg same, if_neg same, authorized_iff]
    cases joined : loop.networks nwid with
    | none =>
        unfold verdicts at here ⊢
        rw [joined, Option.map_none] at here
        have unknown : networks nwid = none := Option.map_eq_none_iff.mp here.symm
        refine ⟨stable, rfl, ?_⟩
        rw [unknown]
        simp only [Bool.or_eq_true, Option.map_none, reduceCtorEq, false_or, true_and]
        constructor
        · rintro ((before | upstream) | controller)
          · exact .inr before
          · exact .inl (.inl upstream)
          · exact .inl (.inr controller)
        · rintro ((upstream | controller) | before)
          · exact .inl (.inr upstream)
          · exact .inr controller
          · exact .inl (.inl before)
    | some network =>
        unfold verdicts at here
        rw [joined, Option.map_some] at here
        obtain ⟨known, found, verdict⟩ := Option.map_eq_some_iff.mp here.symm
        refine ⟨?_, rfl, ?_⟩
        · rw [← stable]
          funext other
          unfold verdicts
          by_cases this : other = nwid
          · subst this
            dsimp only
            rw [Function.update_self, joined, Option.map_some, Option.map_some, gate_stable]
          · dsimp only
            rw [Function.update_of_ne this]
        · unfold verdicts
          rw [← here, found]
          simp only [Bool.or_eq_true, Option.some.injEq, reduceCtorEq, false_and, or_false, or_assoc]

/-- The flag says whether the sender is authorized for the last network. -/
structure Exact (ctx : Context) (networks : Networks) (loop : Loop) : Prop where
  stable : verdicts ctx loop.networks = verdicts ctx networks
  flag : loop.authorized = true ↔ ctx.Authorized networks loop.lastNwid
  calls : ∀ call ∈ loop.added, ctx.Authorized networks call.1

theorem likeTuple_spec (loop : Loop) (tuple : BitVec 64 × MulticastGroup) :
    (ctx.likeTuple loop tuple).networks = (ctx.authorize loop tuple.1).networks ∧
    (ctx.likeTuple loop tuple).lastNwid = (ctx.authorize loop tuple.1).lastNwid ∧
    (ctx.likeTuple loop tuple).authorized = (ctx.authorize loop tuple.1).authorized ∧
    (ctx.likeTuple loop tuple).added =
      if (ctx.authorize loop tuple.1).authorized then loop.added ++ [tuple] else loop.added := by
  unfold likeTuple
  dsimp only
  have added := congrArg Prod.snd (ctx.authorize_subscriptions loop tuple.1)
  by_cases authorized : (ctx.authorize loop tuple.1).authorized = true
  · rw [if_pos authorized, if_pos authorized]
    exact ⟨rfl, rfl, rfl, congrArg (fun calls => calls ++ [tuple]) added⟩
  · rw [if_neg authorized, if_neg authorized]
    exact ⟨rfl, rfl, rfl, added⟩

/-- A tuple keeps the flag exact if the network is joined, or authorized, or follows one that is not. -/
theorem Exact.likeTuple {loop : Loop} {tuple : BitVec 64 × MulticastGroup}
    (stable : verdicts ctx loop.networks = verdicts ctx networks)
    (calls : ∀ call ∈ loop.added, ctx.Authorized networks call.1)
    (flag : (ctx.authorize loop tuple.1).authorized = true ↔ ctx.Authorized networks tuple.1) :
    Exact ctx networks (ctx.likeTuple loop tuple) ∧ (ctx.likeTuple loop tuple).lastNwid = tuple.1 := by
  obtain ⟨sameNetworks, sameNwid, sameFlag, added⟩ := @likeTuple_spec ctx loop tuple
  obtain ⟨later, last, -⟩ := authorize_spec loop tuple.1 stable
  refine ⟨⟨by rw [sameNetworks, later], by rw [sameFlag, sameNwid, last, flag], ?_⟩, by rw [sameNwid, last]⟩
  intro call found
  rw [added] at found
  by_cases authorized : (ctx.authorize loop tuple.1).authorized = true
  · rw [if_pos authorized] at found
    rcases List.mem_append.mp found with earlier | this
    · exact calls call earlier
    · rw [List.mem_singleton.mp this]
      exact flag.mp authorized
  · rw [if_neg authorized] at found
    exact calls call found

theorem added_subset (loop : Loop) (rest : List (BitVec 64 × MulticastGroup)) :
    loop.added ⊆ (rest.foldl ctx.likeTuple loop).added := by
  induction rest generalizing loop with
  | nil => exact List.Subset.refl _
  | cons tuple rest ih =>
      refine List.Subset.trans ?_ (ih (ctx.likeTuple loop tuple))
      rw [(likeTuple_spec loop tuple).2.2.2]
      by_cases authorized : (ctx.authorize loop tuple.1).authorized = true
      · rw [if_pos authorized]
        exact List.subset_append_left _ _
      · rw [if_neg authorized]
        exact List.Subset.refl _

/-- An unjoined network for which the sender is not authorized does not follow one for which it is. -/
def Follows (ctx : Context) (networks : Networks) (first second : BitVec 64) : Prop :=
  ctx.Authorized networks first → networks second = none → ctx.Authorized networks second

/-- From an exact flag on, the calls are authorized exactly if no tuple follows a wrong one. -/
theorem authorized_calls_iff (rest : List (BitVec 64 × MulticastGroup)) {loop : Loop} (exact : Exact ctx networks loop) :
    (∀ call ∈ (rest.foldl ctx.likeTuple loop).added, ctx.Authorized networks call.1) ↔
      List.IsChain (Follows ctx networks) (loop.lastNwid :: rest.map Prod.fst) := by
  induction rest generalizing loop with
  | nil => exact iff_of_true exact.calls (List.IsChain.singleton _)
  | cons tuple rest ih =>
      have step := (authorize_spec loop tuple.1 exact.stable).2.2
      rw [List.map_cons, List.isChain_cons_cons, List.foldl_cons]
      by_cases follows : Follows ctx networks loop.lastNwid tuple.1
      · have flag : (ctx.authorize loop tuple.1).authorized = true ↔ ctx.Authorized networks tuple.1 := by
          rw [step]
          by_cases same : tuple.1 = loop.lastNwid
          · rw [if_pos same, same, exact.flag]
          · rw [if_neg same]
            constructor
            · rintro (authorized | ⟨unknown, before⟩)
              · exact authorized
              · exact follows (exact.flag.mp before) unknown
            · exact .inl
        obtain ⟨next, last⟩ := Exact.likeTuple exact.stable exact.calls flag
        rw [ih next, last]
        exact ⟨fun chain => ⟨follows, chain⟩, fun both => both.2⟩
      · apply iff_of_false
        · -- the flag stays set, and the tuple is added
          rw [Follows, Classical.not_imp, Classical.not_imp] at follows
          obtain ⟨before, unknown, refused⟩ := follows
          intro all
          apply refused
          have different : tuple.1 ≠ loop.lastNwid := fun same => refused (same ▸ before)
          have leaked : (ctx.authorize loop tuple.1).authorized = true := by
            rw [step, if_neg different]
            exact .inr ⟨unknown, exact.flag.mpr before⟩
          have added := (@likeTuple_spec ctx loop tuple).2.2.2
          rw [if_pos leaked] at added
          apply all tuple
          apply added_subset (ctx.likeTuple loop tuple) rest
          rw [added]
          exact List.mem_append_right _ (List.mem_singleton.mpr rfl)
        · exact fun both => follows both.1

/-- Tuples for the network 0 in front are not even looked at. -/
theorem foldl_zeros (ts : List (BitVec 64 × MulticastGroup)) {loop : Loop} (unset : loop.authorized = false)
    (zero : loop.lastNwid = 0) :
    ts.foldl ctx.likeTuple loop = (ts.dropWhile fun tuple => tuple.1 = 0).foldl ctx.likeTuple loop := by
  induction ts with
  | nil => rfl
  | cons tuple rest ih =>
      by_cases here : tuple.1 = 0
      · have skipped : ctx.likeTuple loop tuple = loop := by
          unfold likeTuple authorize
          dsimp only
          rw [here, zero, if_pos rfl, if_neg (by rw [unset]; decide)]
        rw [List.foldl_cons, skipped, List.dropWhile_cons_of_pos (by simpa using here), ih]
      · rw [List.dropWhile_cons_of_neg (by simpa using here)]

end Exactness

/-- The calls of a whole packet. -/
theorem packet_calls_iff (ctx : Context) (networks : Networks) (groups : Groups) (packet : List Byte) :
    (∀ call ∈ (ctx.doMULTICAST_LIKE networks groups packet).2.added, ctx.Authorized networks call.1) ↔
      List.IsChain (Follows ctx networks) ((networkIds packet).dropWhile fun nwid => nwid = 0) := by
  have ids : (networkIds packet).dropWhile (fun nwid => nwid = 0) =
      ((tuples packet packet.length 28).dropWhile fun tuple => tuple.1 = 0).map Prod.fst := by
    rw [networkIds, List.dropWhile_map]
    rfl
  have added := congrArg Prod.snd (ctx.likes_subscriptions packet packet.length 28 ⟨false, 0, networks, groups, []⟩)
  rw [foldl_zeros _ rfl rfl] at added
  change (ctx.doMULTICAST_LIKE networks groups packet).2.added = Loop.added _ at added
  rw [added, ids]
  cases named : (tuples packet packet.length 28).dropWhile (fun tuple => tuple.1 = 0) with
  | nil => exact iff_of_true (fun call found => nomatch found) List.IsChain.nil
  | cons tuple rest =>
      have nonzero : tuple.1 ≠ 0 := by
        intro zero
        have head := List.head_dropWhile_not (fun tuple : BitVec 64 × MulticastGroup => decide (tuple.1 = 0))
          (show (tuples packet packet.length 28).dropWhile _ ≠ [] by rw [named]; exact List.cons_ne_nil _ _)
        simp only [named, List.head_cons] at head
        simp [zero] at head
      let start : Loop := ⟨false, 0, networks, groups, []⟩
      have flag : (ctx.authorize start tuple.1).authorized = true ↔ ctx.Authorized networks tuple.1 := by
        rw [(authorize_spec start tuple.1 rfl).2.2, if_neg nonzero]
        exact or_iff_left fun both => Bool.false_ne_true both.2
      obtain ⟨next, last⟩ := @Exact.likeTuple ctx networks start tuple rfl (fun call found => nomatch found) flag
      rw [List.foldl_cons, authorized_calls_iff rest next, last]
      rfl

/-- The peer is added to groups of networks for which it is authorized, and to no others, exactly if, behind
tuples for the network 0, no tuple for an unjoined network without authorization follows one with it. -/
theorem multicast_like_authorized_iff (ctx : Context) (networks : Networks) (groups : Groups) (packet : List Byte) :
    (∀ nwid mg, (nwid, mg) ∈ (ctx.doMULTICAST_LIKE networks groups packet).2.added → ctx.Authorized networks nwid) ↔
      List.IsChain (Follows ctx networks) ((networkIds packet).dropWhile fun nwid => nwid = 0) := by
  rw [← packet_calls_iff ctx networks groups packet]
  exact ⟨fun all call found => all call.1 call.2 found, fun all nwid mg found => all (nwid, mg) found⟩

theorem likeTuple_groups (loop : Loop) (tuple : BitVec 64 × MulticastGroup) :
    (ctx.likeTuple loop tuple).groups =
      if (ctx.authorize loop tuple.1).authorized then
        loop.groups.add ctx.self ctx.now tuple.1 tuple.2 ctx.peer.address
      else loop.groups := by
  have kept := congrArg Prod.fst (ctx.authorize_subscriptions loop tuple.1)
  unfold likeTuple
  dsimp only
  by_cases authorized : (ctx.authorize loop tuple.1).authorized = true
  · rw [if_pos authorized, if_pos authorized]
    exact congrArg (fun groups : Groups => groups.add ctx.self ctx.now tuple.1 tuple.2 ctx.peer.address) kept
  · rw [if_neg authorized, if_neg authorized]
    exact kept

/-- A group changes only by a call for it. -/
theorem foldl_groups (ts : List (BitVec 64 × MulticastGroup)) (loop : Loop) {nwid : BitVec 64} {mg : MulticastGroup}
    (uncalled : (nwid, mg) ∉ (ts.foldl ctx.likeTuple loop).added) :
    (ts.foldl ctx.likeTuple loop).groups nwid mg = loop.groups nwid mg := by
  induction ts generalizing loop with
  | nil => rfl
  | cons tuple rest ih =>
      rw [List.foldl_cons] at uncalled ⊢
      rw [ih _ uncalled]
      have notHere : (nwid, mg) ∉ (ctx.likeTuple loop tuple).added := fun found =>
        uncalled (added_subset (ctx.likeTuple loop tuple) rest found)
      rw [(likeTuple_spec loop tuple).2.2.2] at notHere
      rw [likeTuple_groups]
      by_cases authorized : (ctx.authorize loop tuple.1).authorized = true
      · rw [if_pos authorized] at notHere ⊢
        have different : ¬ (nwid = tuple.1 ∧ mg = tuple.2) := fun same =>
          notHere (List.mem_append_right _ (List.mem_singleton.mpr (Prod.ext same.1 same.2)))
        rw [Groups.add, if_neg different]
      · rw [if_neg authorized]

/-- The groups stay in order, and every call makes the peer a member. -/
structure Kept (ctx : Context) (loop : Loop) : Prop where
  ordered : ∀ nwid mg, Ordered (loop.groups nwid mg)
  listed : ∀ call ∈ loop.added, ∃ m ∈ (loop.groups call.1 call.2).members,
    m.address = ctx.peer.address ∧ m.timestamp = ctx.now

theorem Kept.likeTuple {ctx : Context} (other : ctx.peer.address ≠ ctx.self) {loop : Loop} (kept : Kept ctx loop)
    (tuple : BitVec 64 × MulticastGroup) : Kept ctx (ctx.likeTuple loop tuple) := by
  have added := (@likeTuple_spec ctx loop tuple).2.2.2
  have groups := ctx.likeTuple_groups loop tuple
  by_cases authorized : (ctx.authorize loop tuple.1).authorized = true
  · rw [if_pos authorized] at added groups
    constructor
    · intro nwid mg
      rw [groups, Groups.add]
      by_cases here : nwid = tuple.1 ∧ mg = tuple.2
      · rw [if_pos here]
        exact ordered_addMember ctx.self ctx.now ctx.peer.address (kept.ordered tuple.1 tuple.2)
      · rw [if_neg here]
        exact kept.ordered nwid mg
    · intro call found
      rw [groups, Groups.add]
      by_cases here : call.1 = tuple.1 ∧ call.2 = tuple.2
      · rw [if_pos here]
        exact mem_addMember other
      · rw [if_neg here]
        rw [added] at found
        rcases List.mem_append.mp found with earlier | this
        · exact kept.listed call earlier
        · rw [List.mem_singleton.mp this] at here
          exact absurd ⟨rfl, rfl⟩ here
  · rw [if_neg authorized] at added groups
    constructor
    · rw [groups]
      exact kept.ordered
    · rw [added, groups]
      exact kept.listed

/-- Whatever the packet, the groups stay in order and every call makes the peer a member. -/
theorem kept_doMULTICAST_LIKE {ctx : Context} (other : ctx.peer.address ≠ ctx.self) (networks : Networks)
    {groups : Groups} (ordered : ∀ nwid mg, Ordered (groups nwid mg)) (packet : List Byte) :
    Kept ctx (ctx.doMULTICAST_LIKE networks groups packet).2 := by
  have all (ts : List (BitVec 64 × MulticastGroup)) (loop : Loop) (kept : Kept ctx loop) :
      Kept ctx (ts.foldl ctx.likeTuple loop) := by
    induction ts generalizing loop with
    | nil => exact kept
    | cons tuple rest ih => exact ih _ (kept.likeTuple other tuple)
  have same := ctx.likes_subscriptions packet packet.length 28 ⟨false, 0, networks, groups, []⟩
  have kept := all (tuples packet packet.length 28) ⟨false, 0, networks, groups, []⟩
    ⟨ordered, fun call found => nomatch found⟩
  have final : (ctx.doMULTICAST_LIKE networks groups packet).2.groups = _ := congrArg Prod.fst same
  have calls : (ctx.doMULTICAST_LIKE networks groups packet).2.added = _ := congrArg Prod.snd same
  constructor
  · rw [final]
    exact kept.ordered
  · rw [calls, final]
    exact kept.listed

/-- Without such a sequence of tuples, the groups of a network are out of reach of a peer that is not authorized
for it. -/
theorem unauthorized_groups_kept (networks : Networks) (groups : Groups) (packet : List Byte)
    (chain : List.IsChain (Follows ctx networks) ((networkIds packet).dropWhile fun nwid => nwid = 0))
    {nwid : BitVec 64} (refused : ¬ ctx.Authorized networks nwid) (mg : MulticastGroup) :
    (ctx.doMULTICAST_LIKE networks groups packet).2.groups nwid mg = groups nwid mg := by
  have kept := ctx.likes_subscriptions packet packet.length 28 ⟨false, 0, networks, groups, []⟩
  have final : (ctx.doMULTICAST_LIKE networks groups packet).2.groups = _ := congrArg Prod.fst kept
  have calls : (ctx.doMULTICAST_LIKE networks groups packet).2.added = _ := congrArg Prod.snd kept
  rw [final]
  apply ctx.foldl_groups
  intro called
  apply refused
  apply (packet_calls_iff ctx networks groups packet).mpr chain (nwid, mg)
  rw [calls]
  exact called

end Context

/-- A public network, which lets everyone in. -/
def publicNetwork : Network :=
  ⟨0x1000001, { NetworkConfig.nil with networkId := 0x1000001, issuedTo := 7, type := 1 }, 0, false, ∅⟩

/-- Node 7 has joined this network and no other, and hears from node 9. -/
def memberOfOne : Context where
  crypto := ⟨fun _ _ _ => false, fun _ => 0⟩
  self := 7
  peer := ⟨9, 0⟩
  now := 100
  amUpstream := false
  localControllerAuthorizations := fun _ _ => none

def joinedOne : Networks := fun nwid => if nwid = 0x1000001 then some publicNetwork else none

/-- Node 9 names the public network and then a network that node 7 has not joined. -/
def twoNetworks : List Byte :=
  List.replicate 27 0 ++ [9] ++ [0, 0, 0, 0, 1, 0, 0, 1] ++ List.replicate 10 0xff ++
    [0, 0, 0, 0, 1, 0, 0, 2] ++ List.replicate 10 0xff

/-- The authorization for the first network carries over to the second. -/
theorem authorization_carried_over :
    (0x1000002, ⟨0xffffffffffff, 0xffffffff⟩) ∈
      (memberOfOne.doMULTICAST_LIKE joinedOne (fun _ _ => ⟨[], []⟩) twoNetworks).2.added ∧
    ¬ memberOfOne.Authorized joinedOne 0x1000002 := by
  constructor
  · decide +kernel
  · rintro (⟨network, found, -⟩ | upstream | controller)
    · cases found
    · cases upstream
    · cases controller

end ZeroTierNode.MulticastLikes

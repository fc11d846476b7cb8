import Mathlib.Data.List.Lex
import Mathlib.Order.Lattice
import ZeroTierNode.FragmentLimits
import ZeroTierNode.Prefixes
import ZeroTierNode.Library.OrderedMaps

/-!
Physical networks that are configured with an MTU and a trusted path id, and the
packets that are taken for authentic because of them.
-/

namespace ZeroTierNode.TrustedPaths
open Library.Bytes Library.OrderedMaps RxQueue FragmentLimits

/-- The socket address of a network, with the prefix length in the port. -/
inductive PathNetwork
  | unset
  | inet (ip : BitVec 32) (bits : BitVec 16)
  | inet6 (ip : BitVec 128) (bits : BitVec 16) (flowinfo scopeId : BitVec 32)
deriving DecidableEq, Repr

namespace PathNetwork

def address : PathNetwork → InetAddress
  | unset => .nil
  | inet ip bits => .v4 ip bits
  | inet6 ip bits _ _ => .v6 ip bits

/-- A field in network byte order, as the processor reads it. -/
def raw (bytes : List Byte) : Nat := bigEndianValue bytes.reverse

/-- What `operator<` compares, one after another; the address of IPv6 is compared with `memcmp`. -/
def sortKey : PathNetwork → List Nat
  | unset => [0]
  | inet ip bits => [2, raw (wordBytes 2 bits), raw (wordBytes 4 ip)]
  | inet6 ip bits flowinfo scopeId => [10, raw (wordBytes 2 bits), flowinfo.toNat, ip.toNat, scopeId.toNat]

theorem raw_inj {count width : Nat} (covers : width ≤ 8 * count) {first second : BitVec width}
    (same : raw (wordBytes count first) = raw (wordBytes count second)) : first = second := by
  have bytes : (wordBytes count first).reverse = (wordBytes count second).reverse := by
    rw [← bigEndian_bigEndianValue (wordBytes count first).reverse,
      ← bigEndian_bigEndianValue (wordBytes count second).reverse, List.length_reverse, List.length_reverse,
      wordBytes_length, wordBytes_length]
    exact congrArg _ same
  rw [← wordOf_wordBytes count first covers, ← wordOf_wordBytes count second covers, List.reverse_inj.mp bytes]

theorem sortKey_injective : Function.Injective sortKey := by
  intro first second same
  cases first with
  | unset => cases second <;> simp [sortKey] at same ⊢
  | inet ip bits =>
      cases second with
      | unset => simp [sortKey] at same
      | inet other also =>
          simp only [sortKey, List.cons.injEq, true_and, and_true] at same
          rw [raw_inj (by decide) same.1, raw_inj (by decide) same.2]
      | inet6 other also flowinfo scopeId => simp [sortKey] at same
  | inet6 ip bits flowinfo scopeId =>
      cases second with
      | unset => simp [sortKey] at same
      | inet other also => simp [sortKey] at same
      | inet6 other also flow scope =>
          simp only [sortKey, List.cons.injEq, true_and, and_true] at same
          obtain ⟨port, info, address, scope⟩ := same
          rw [raw_inj (by decide) port, BitVec.eq_of_toNat_eq info, BitVec.eq_of_toNat_eq address,
            BitVec.eq_of_toNat_eq scope]

/-- `operator<`. -/
instance : LinearOrder PathNetwork := LinearOrder.lift' sortKey sortKey_injective

end PathNetwork

/-- `ZT_PhysicalPathConfiguration`. -/
structure PathConfiguration where
  trustedPathId : BitVec 64
  mtu : Int
deriving DecidableEq, Repr

/-- The copy that is stored, with an MTU within the limits. -/
def PathConfiguration.stored (pathConfig : PathConfiguration) : PathConfiguration :=
  { pathConfig with mtu := configuredMtu pathConfig.mtu }

/-- `ZT_MAX_CONFIGURABLE_PATHS`. -/
abbrev maxConfigurablePaths : Nat := 32

/-- `_physicalPathConfig`, as far as it is in use. -/
abbrev PhysicalPaths := List (PathNetwork × PathConfiguration)

/-- The arguments of `setPhysicalPathConfiguration`: a null network clears, a null configuration removes. -/
structure Call where
  pathNetwork : Option PathNetwork
  pathConfig : Option PathConfiguration
deriving DecidableEq, Repr

/-- What the call does to the map of networks. -/
def Call.change (call : Call) (cpaths : PhysicalPaths) : PhysicalPaths :=
  match call.pathNetwork with
  | none => []
  | some pathNetwork =>
      match call.pathConfig with
      | some pathConfig => insert pathNetwork pathConfig.stored cpaths
      | none => erase pathNetwork cpaths

def setPhysicalPathConfiguration (paths : PhysicalPaths) (call : Call) : PhysicalPaths :=
  (call.change (ofList paths)).take maxConfigurablePaths

/-- The table after a sequence of calls. -/
def configured (calls : List Call) : PhysicalPaths := calls.foldl setPhysicalPathConfiguration []

def shouldInboundPathBeTrusted (paths : PhysicalPaths) (physicalAddress : InetAddress)
    (trustedPathId : BitVec 64) : Bool :=
  paths.any fun entry =>
    entry.2.trustedPathId = trustedPathId ∧ entry.1.address.containsAddress physicalAddress

/-- The node with this table of networks. -/
def withPaths (paths : PhysicalPaths) (env : Environment) : Environment :=
  { env with shouldInboundPathBeTrusted := shouldInboundPathBeTrusted paths }

section Meaning

/-- The call is about the network. -/
def Call.concerns (net : PathNetwork) (call : Call) : Bool := call.pathNetwork = none ∨ call.pathNetwork = some net

/-- What a call leaves of the networks that it is about. -/
def Call.setting (call : Call) : Option PathConfiguration :=
  match call.pathNetwork with
  | none => none
  | some _ => call.pathConfig.map PathConfiguration.stored

/-- The last call about a network says how it is configured. -/
def lastSetting (calls : List Call) (net : PathNetwork) : Option PathConfiguration :=
  (calls.reverse.find? (Call.concerns net)).bind Call.setting

/-- The networks that are configured, were there no limit to their number. -/
def unlimited (calls : List Call) : PhysicalPaths := calls.foldl (fun cpaths call => call.change cpaths) []

/-- There were never more networks than the table has room for. -/
def Roomy (calls : List Call) : Prop := ∀ n, (unlimited (calls.take n)).length ≤ maxConfigurablePaths

/-- The table holds the last settings, in order, and all of them as long as there is room. -/
structure Faithful (calls : List Call) : Prop where
  sorted : Sorted (configured calls)
  few : (configured calls).length ≤ maxConfigurablePaths
  sound : ∀ net pathConfig, (net, pathConfig) ∈ configured calls → lastSetting calls net = some pathConfig
  complete : Roomy calls → ∀ net pathConfig, lastSetting calls net = some pathConfig →
    (net, pathConfig) ∈ configured calls

/-- The addresses agree in the bits of the prefix. -/
def Contains : InetAddress → InetAddress → Prop
  | .v4 net bits, .v4 ip _ => ∀ i < bits.toNat, ip.getMsbD i = net.getMsbD i
  | .v6 net bits, .v6 ip _ => ∀ i < bits.toNat, ip.getMsbD i = net.getMsbD i
  | _, _ => False

/-- `tryDecode` takes the packet for authentic because of its path. -/
def TakenAsTrusted (calls : List Call) (env : Environment) (place : Place) (packet : IncomingPacket) : Prop :=
  Event.trusted place packet.data ∈ (tryDecode (withPaths (configured calls) env) place packet).2.2

/-- What that is to mean. -/
def Trustworthy (calls : List Call) (packet : IncomingPacket) : Prop :=
  Packet.trustedPathId packet.data ≠ 0 ∧
    ∃ entry ∈ configured calls, Contains entry.1.address packet.path ∧
      entry.2.trustedPathId = Packet.trustedPathId packet.data

/-- The packet is not marked with the id zero, or it did not come from a network that is configured without an id. -/
def Unmistakable (calls : List Call) (packet : IncomingPacket) : Prop :=
  Packet.cipher packet.data = 2 → Packet.trustedPathId packet.data = 0 →
    ∀ entry ∈ configured calls, entry.2.trustedPathId = 0 →
      entry.1.address.containsAddress packet.path = false

end Meaning

section Table

theorem mem_change {cpaths : PhysicalPaths} (sorted : Sorted cpaths) (call : Call) (net : PathNetwork)
    (pathConfig : PathConfiguration) : (net, pathConfig) ∈ call.change cpaths ↔
      if call.concerns net then call.setting = some pathConfig else (net, pathConfig) ∈ cpaths := by
  unfold Call.change Call.concerns Call.setting
  cases call.pathNetwork with
  | none => simp
  | some other =>
      by_cases same : other = net
      · subst same
        cases call.pathConfig with
        | none => simp [mem_erase]
        | some new => simp [mem_insert sorted, eq_comm]
      · have different : net ≠ other := Ne.symm same
        cases call.pathConfig with
        | none => simp [mem_erase, same, different]
        | some new => simp [mem_insert sorted, same, different]

theorem sorted_change {cpaths : PhysicalPaths} (sorted : Sorted cpaths) (call : Call) :
    Sorted (call.change cpaths) := by
  unfold Call.change
  split
  · exact List.Pairwise.nil
  · split
    · exact sorted_insert sorted
    · exact sorted_erase sorted

theorem lastSetting_concat (calls : List Call) (call : Call) (net : PathNetwork) :
    lastSetting (calls ++ [call]) net = if call.concerns net then call.setting else lastSetting calls net := by
  unfold lastSetting
  rw [List.reverse_append, List.reverse_singleton, List.singleton_append, List.find?_cons]
  cases call.concerns net <;> rfl

theorem unlimited_concat (calls : List Call) (call : Call) :
    unlimited (calls ++ [call]) = call.change (unlimited calls) := by
  rw [unlimited, List.foldl_append]
  rfl

theorem sorted_unlimited (calls : List Call) : Sorted (unlimited calls) := by
  induction calls using List.reverseRecOn with
  | nil => exact List.Pairwise.nil
  | append_singleton calls call ih =>
      rw [unlimited_concat]
      exact sorted_change ih call

theorem mem_unlimited (calls : List Call) (net : PathNetwork) (pathConfig : PathConfiguration) :
    (net, pathConfig) ∈ unlimited calls ↔ lastSetting calls net = some pathConfig := by
  induction calls using List.reverseRecOn with
  | nil => simp [unlimited, lastSetting]
  | append_singleton calls call ih =>
      rw [unlimited_concat, mem_change (sorted_unlimited calls), lastSetting_concat, ih]
      split <;> rfl

theorem sorted_configured (calls : List Call) : Sorted (configured calls) := by
  induction calls using List.reverseRecOn with
  | nil => exact List.Pairwise.nil
  | append_singleton calls call ih =>
      rw [configured, List.foldl_append]
      change Sorted (setPhysicalPathConfiguration (configured calls) call)
      rw [setPhysicalPathConfiguration, ofList_sorted ih]
      exact sorted_take (sorted_change ih call) _

theorem configured_concat (calls : List Call) (call : Call) :
    configured (calls ++ [call]) = (call.change (configured calls)).take maxConfigurablePaths := by
  have step : configured (calls ++ [call]) = setPhysicalPathConfiguration (configured calls) call := by
    rw [configured, List.foldl_append]
    rfl
  rw [step, setPhysicalPathConfiguration, ofList_sorted (sorted_configured calls)]

/-- What the limit cuts off is lost, but what remains is right. -/
theorem configured_sound (calls : List Call) (net : PathNetwork) (pathConfig : PathConfiguration)
    (member : (net, pathConfig) ∈ configured calls) : lastSetting calls net = some pathConfig := by
  induction calls using List.reverseRecOn generalizing net pathConfig with
  | nil => cases member
  | append_singleton calls call ih =>
      rw [configured_concat] at member
      have changed := (mem_change (sorted_configured calls) call net pathConfig).mp (List.mem_of_mem_take member)
      rw [lastSetting_concat]
      split at changed
      · rw [if_pos (by assumption)]
        exact changed
      · rw [if_neg (by assumption)]
        exact ih net pathConfig changed

theorem configured_roomy (calls : List Call) (roomy : Roomy calls) : configured calls = unlimited calls := by
  induction calls using List.reverseRecOn with
  | nil => rfl
  | append_singleton calls call ih =>
      have before : Roomy calls := by
        intro n
        have earlier := roomy (min n calls.length)
        rw [List.take_append_of_le_length (Nat.min_le_right ..)] at earlier
        rwa [List.take_eq_take_min]
      have now := roomy (calls ++ [call]).length
      rw [List.take_length, unlimited_concat] at now
      rw [configured_concat, ih before, unlimited_concat, List.take_of_length_le now]

/-- Whatever is set, replaced, removed and cleared. -/
theorem configured_faithful (calls : List Call) : Faithful calls where
  sorted := sorted_configured calls
  few := by
    cases calls using List.reverseRecOn with
    | nil => exact Nat.zero_le _
    | append_singleton calls call =>
        rw [configured_concat]
        exact List.length_take_le ..
  sound := configured_sound calls
  complete := by
    intro roomy net pathConfig last
    rw [configured_roomy calls roomy]
    exact (mem_unlimited calls net pathConfig).mpr last

end Table

section Containment

theorem contains_of_containsAddress {net addr : InetAddress} (contained : net.containsAddress addr = true) :
    Contains net addr := by
  cases net with
  | nil => simp [InetAddress.containsAddress] at contained
  | v4 net bits =>
      cases addr with
      | nil => simp [InetAddress.containsAddress] at contained
      | v6 ip port => simp [InetAddress.containsAddress] at contained
      | v4 ip port =>
          intro i inside
          rcases of_decide_eq_true contained with none | same
          · rw [none] at inside
            cases inside
          · by_cases small : i < 32
            · have moved := congrArg (fun word => word.getMsbD (i + (32 - bits.toNat))) same
              have within : i + (32 - bits.toNat) < 32 := by omega
              simpa [BitVec.getMsbD_ushiftRight, within] using moved
            · rw [BitVec.getMsbD_of_ge _ _ (by omega), BitVec.getMsbD_of_ge _ _ (by omega)]
  | v6 net bits =>
      cases addr with
      | nil => simp [InetAddress.containsAddress] at contained
      | v4 ip port => simp [InetAddress.containsAddress] at contained
      | v6 ip port => exact (Prefixes.contains6_iff.mp contained).1

end Containment

section Decoding

theorem decodeFromPeer_untrusted (env : Environment) (place : Place) (packet : IncomingPacket) (data : List Byte) :
    Event.trusted place data ∉ (decodeFromPeer env place packet).2.2 := by
  unfold decodeFromPeer
  cases env.key (Packet.source packet.data) with
  | none => exact List.not_mem_nil
  | some key =>
      dsimp only
      by_cases known : packet.authenticated = true
      · simp only [known, if_true]
        cases Packet.uncompress env.lz4 packet.data with
        | none => exact List.not_mem_nil
        | some plain =>
            dsimp only
            cases env.handler (Packet.verb plain) plain with
            | done after => simp
            | retry => simp
      · simp only [Bool.eq_false_iff.mpr known, Bool.false_eq_true, if_false]
        by_cases authentic : (env.dearmor key packet.data).1 = true
        · rw [if_pos authentic]
          cases Packet.uncompress env.lz4 (env.dearmor key packet.data).2 with
          | none => simp
          | some plain =>
              dsimp only
              cases env.handler (Packet.verb plain) plain with
              | done after => simp
              | retry => simp
        · rw [if_neg authentic]
          exact List.not_mem_nil

/-- The mark, and a network with the id, are all that it takes. -/
theorem takenAsTrusted_iff (calls : List Call) (env : Environment) (place : Place) (packet : IncomingPacket) :
    TakenAsTrusted calls env place packet ↔ Packet.cipher packet.data = 2 ∧
      ∃ entry ∈ configured calls, entry.2.trustedPathId = Packet.trustedPathId packet.data ∧
        entry.1.address.containsAddress packet.path = true := by
  have trusted : shouldInboundPathBeTrusted (configured calls) packet.path (Packet.trustedPathId packet.data) = true ↔
      ∃ entry ∈ configured calls, entry.2.trustedPathId = Packet.trustedPathId packet.data ∧
        entry.1.address.containsAddress packet.path = true := by
    simp [shouldInboundPathBeTrusted]
  rw [← trusted, TakenAsTrusted, tryDecode]
  have never := decodeFromPeer_untrusted (withPaths (configured calls) env) place
  by_cases marked : Packet.cipher packet.data = 2
  · rw [if_pos marked]
    by_cases known : shouldInboundPathBeTrusted (configured calls) packet.path
        (Packet.trustedPathId packet.data) = true
    · have asked : (withPaths (configured calls) env).shouldInboundPathBeTrusted packet.path
          (Packet.trustedPathId packet.data) = true := known
      rw [if_pos asked]
      simp [marked, known]
    · have asked : ¬ (withPaths (configured calls) env).shouldInboundPathBeTrusted packet.path
          (Packet.trustedPathId packet.data) = true := known
      rw [if_neg asked]
      simp [marked, known]
  · rw [if_neg marked]
    refine ⟨fun member => ?_, fun both => absurd both.1 marked⟩
    split at member
    · simp at member
    · simp [never packet packet.data] at member

end Decoding

/-- The table is what was set, and a packet is taken for authentic only because of the id of its network, exactly if
the packet does not name the id zero from a network that is configured without one. -/
theorem trusted_paths_iff (calls : List Call) (env : Environment) (place : Place) (packet : IncomingPacket) :
    (Faithful calls ∧ (TakenAsTrusted calls env place packet → Trustworthy calls packet)) ↔
      Unmistakable calls packet := by
  rw [takenAsTrusted_iff]
  constructor
  · intro ⟨_, trustworthy⟩ marked zero entry member without
    by_contra contained
    have taken := trustworthy ⟨marked, entry, member, without.trans zero.symm, Bool.not_eq_false _ |>.mp contained⟩
    exact taken.1 zero
  · intro unmistakable
    refine ⟨configured_faithful calls, fun ⟨marked, entry, member, same, contained⟩ => ⟨fun zero => ?_, ?_⟩⟩
    · have outside := unmistakable marked zero entry member (same.trans zero)
      rw [contained] at outside
      cases outside
    · exact ⟨entry, member, contains_of_containsAddress contained, same⟩

/-- 10.0.0.0/8 with an MTU and no trusted path id. -/
def mtuOnly : List Call := [⟨some (.inet 0x0a000000 8), some ⟨0, 1400⟩⟩]

/-- A packet from 10.1.2.3 that is marked with the id zero. -/
def markedZero : IncomingPacket := ⟨List.replicate 18 0 ++ 0x10 :: List.replicate 9 0, .v4 0x0a010203 9993, false⟩

theorem mtu_only_is_trusted (env : Environment) (place : Place) : TakenAsTrusted mtuOnly env place markedZero := by
  rw [takenAsTrusted_iff]
  refine ⟨by decide, (.inet 0x0a000000 8, ⟨0, 1400⟩), ?_, by decide, by decide⟩
  exact List.mem_singleton.mpr rfl

/-- A node without keys. -/
def keyless : Environment := ⟨7, fun _ => none, fun _ data => (false, data), fun _ => none, fun _ _ => false,
  fun _ data => .done data, fun data => data⟩

theorem zero_id_is_trusted :
    ¬ ∀ (calls : List Call) (env : Environment) (place : Place) (packet : IncomingPacket),
      Faithful calls ∧ (TakenAsTrusted calls env place packet → Trustworthy calls packet) := by
  intro all
  have trustworthy := (all mtuOnly keyless none markedZero).2 (mtu_only_is_trusted keyless none)
  exact trustworthy.1 (by decide)

end ZeroTierNode.TrustedPaths

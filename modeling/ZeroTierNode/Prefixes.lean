import ZeroTierNode.InetAddress
import ZeroTierNode.Library.Shifts

/-!
The prefix arithmetic of `InetAddress`, with the shifts as C defines them: `none` where a
count is not below the width of what is shifted.
-/

namespace ZeroTierNode.Prefixes
open Library.Shifts InetAddress

/-- `netmaskBits`, an `unsigned int`. -/
def netmaskBits : InetAddress → BitVec 32
  | .v4 _ port | .v6 _ port => port.setWidth 32
  | .nil => 0

/-- The mask of an IPv4 prefix. The difference wraps, as one of `unsigned int`s. -/
def mask4 (bits : BitVec 32) : Option (BitVec 32) := shiftLeft (BitVec.allOnes 32) (32 - bits)

/-- `nm[0]` and `nm[1]`, the mask of an IPv6 prefix. -/
def high6 (bits : BitVec 32) : Option (BitVec 64) :=
  if 64 ≤ bits.toNat then some (BitVec.allOnes 64) else shiftLeft (BitVec.allOnes 64) (64 - bits)

def low6 (bits : BitVec 32) : Option (BitVec 64) :=
  if bits.toNat ≤ 64 then some 0 else shiftLeft (BitVec.allOnes 64) (128 - bits)

def mask6 (bits : BitVec 32) : Option (BitVec 128) := (high6 bits).bind fun high => (low6 bits).map (high ++ ·)

/-- The mask in `netmask`, which has a case of its own for the empty prefix. -/
def netmaskWords (bits : BitVec 32) : Option (BitVec 128) := if bits ≠ 0 then mask6 bits else some 0

def netmask (addr : InetAddress) : Option InetAddress :=
  match addr with
  | .v4 _ port => (mask4 (netmaskBits addr)).map fun mask => .v4 mask port
  | .v6 _ port => (netmaskWords (netmaskBits addr)).map fun nm => .v6 nm port
  | .nil => some .nil

def broadcast (addr : InetAddress) : Option InetAddress :=
  match addr with
  | .v4 ip port => (shiftRight (BitVec.allOnes 32) (netmaskBits addr)).map fun host => .v4 (ip ||| host) port
  | _ => some .nil

def network (addr : InetAddress) : Option InetAddress :=
  match addr with
  | .v4 ip port => (mask4 (netmaskBits addr)).map fun mask => .v4 (ip &&& mask) port
  | .v6 ip port => (mask6 (netmaskBits addr)).map fun nm => .v6 (ip &&& nm) port
  | .nil => some .nil

/-- `containsAddress`; its loop over the bytes of IPv6 addresses compares the words. -/
def containsAddress (net addr : InetAddress) : Option Bool :=
  match net, addr with
  | .v4 own _, .v4 ip _ =>
      let bits := netmaskBits net
      if bits = 0 then some true
      else do
        let theirs ← shiftRight ip (32 - bits)
        let ours ← shiftRight own (32 - bits)
        return theirs = ours
  | .v6 own _, .v6 ip _ => (netmaskWords (netmaskBits net)).map fun mask => ip &&& mask = own
  | _, _ => some false

def isNetwork (addr : InetAddress) : Option Bool :=
  let bits := netmaskBits addr
  match addr with
  | .v4 ip _ =>
      if bits.toNat = 0 ∨ 32 ≤ bits.toNat then some false
      else (shiftRight (BitVec.allOnes 32) bits).map fun host => ip &&& host = 0
  | .v6 ip _ =>
      if bits.toNat = 0 ∨ 128 ≤ bits.toNat then some false
      else
        let p := bits.toNat / 8
        (shiftRight (0xff : BitVec 32) (bits % 8)).map fun rest =>
          (byte6 ip p).setWidth 32 &&& rest = 0 ∧ zeros6 ip (p + 1) 16
  | .nil => some false

section Meaning

/-- No shift is by the width or more, whatever address is looked for. -/
structure Defined (addr : InetAddress) : Prop where
  netmask : (netmask addr).isSome = true
  broadcast : (broadcast addr).isSome = true
  network : (network addr).isSome = true
  isNetwork : (isNetwork addr).isSome = true
  containsAddress : ∀ other, (containsAddress addr other).isSome = true

/-- What is asked of the functions for a prefix of some of the `w` bits of an address. -/
structure Exact {w : Nat} (make : BitVec w → InetAddress) (bits : Nat) (ip : BitVec w) : Prop where
  netmask : ∃ mask, netmask (make ip) = some (make mask) ∧ ∀ i < w, mask.getMsbD i = decide (i < bits)
  network : ∃ net, network (make ip) = some (make net) ∧
    ∀ i < w, net.getMsbD i = (ip.getMsbD i && decide (i < bits))
  idempotent : (Prefixes.network (make ip)).bind Prefixes.network = Prefixes.network (make ip)
  isNetwork : 0 < bits → bits < w →
    (isNetwork (make ip) = some true ↔ Prefixes.network (make ip) = some (make ip))

/-- What is asked of `broadcast`. -/
def ExactBroadcast (ip : BitVec 32) (port : BitVec 16) : Prop :=
  ∃ all, broadcast (.v4 ip port) = some (.v4 all port) ∧
    ∀ i < 32, all.getMsbD i = (ip.getMsbD i || decide (port.toNat ≤ i))

/-- What is asked of an address with any prefix length. -/
def Sound : InetAddress → Prop
  | .v4 ip port => Defined (.v4 ip port) ∧
      (port.toNat ≤ 32 → Exact (fun word => .v4 word port) port.toNat ip ∧ ExactBroadcast ip port)
  | .v6 ip port => Defined (.v6 ip port) ∧
      (port.toNat ≤ 128 → Exact (fun word => .v6 word port) port.toNat ip)
  | .nil => True

/-- An IPv4 prefix that is not empty and not a whole address, or an IPv6 prefix that is not empty. -/
def Between : InetAddress → Prop
  | .v4 _ port => 0 < port.toNat ∧ port.toNat < 32
  | .v6 _ port => 0 < port.toNat ∧ port.toNat ≤ 128
  | .nil => True

end Meaning

section Masks

variable {bits : BitVec 32}

theorem mask4_eq (some_bits : 0 < bits.toNat) (valid : bits.toNat ≤ 32) :
    mask4 bits = some (firstBits 32 bits.toNat) := by
  have count : (32 - bits).toNat = 32 - bits.toNat := by bv_omega
  rw [mask4, shiftLeft, if_pos (by omega), count, firstBits]

theorem mask4_isSome : (mask4 bits).isSome = true ↔ 0 < bits.toNat ∧ bits.toNat ≤ 32 := by
  rw [mask4, shiftLeft_isSome]
  bv_omega

theorem high6_eq (some_bits : 0 < bits.toNat) : high6 bits = some (firstBits 64 bits.toNat) := by
  unfold high6
  by_cases full : 64 ≤ bits.toNat
  · rw [if_pos full, firstBits, Nat.sub_eq_zero_of_le full]
    rfl
  · have count : (64 - bits).toNat = 64 - bits.toNat := by bv_omega
    rw [if_neg full, shiftLeft, if_pos (by omega), count, firstBits]

theorem high6_isSome : (high6 bits).isSome = true ↔ 0 < bits.toNat := by
  unfold high6
  by_cases full : 64 ≤ bits.toNat
  · rw [if_pos full]
    exact ⟨fun _ => by omega, fun _ => rfl⟩
  · rw [if_neg full, shiftLeft_isSome]
    bv_omega

theorem low6_eq (valid : bits.toNat ≤ 128) : low6 bits = some (firstBits 64 (bits.toNat - 64)) := by
  unfold low6
  by_cases none : bits.toNat ≤ 64
  · rw [if_pos none, firstBits, Nat.sub_eq_zero_of_le none]
    rfl
  · have count : (128 - bits).toNat = 128 - bits.toNat := by bv_omega
    have same : 64 - (bits.toNat - 64) = 128 - bits.toNat := by omega
    rw [if_neg none, shiftLeft, if_pos (by omega), count, firstBits, same]

theorem low6_isSome : (low6 bits).isSome = true ↔ bits.toNat ≤ 128 := by
  unfold low6
  by_cases none : bits.toNat ≤ 64
  · rw [if_pos none]
    exact ⟨fun _ => by omega, fun _ => rfl⟩
  · rw [if_neg none, shiftLeft_isSome]
    bv_omega

theorem mask6_eq (some_bits : 0 < bits.toNat) (valid : bits.toNat ≤ 128) :
    mask6 bits = some (firstBits 128 bits.toNat) := by
  rw [mask6, high6_eq some_bits, low6_eq valid]
  exact congrArg some (firstBits_append 64)

theorem mask6_isSome : (mask6 bits).isSome = true ↔ 0 < bits.toNat ∧ bits.toNat ≤ 128 := by
  rw [← high6_isSome, ← low6_isSome, mask6]
  cases high6 bits <;> simp

theorem netmaskWords_eq (valid : bits.toNat ≤ 128) : netmaskWords bits = some (firstBits 128 bits.toNat) := by
  unfold netmaskWords
  by_cases none : bits = 0
  · subst none
    rfl
  · have some_bits : 0 < bits.toNat := by bv_omega
    rw [if_pos none, mask6_eq some_bits valid]

end Masks

section Four

variable {ip : BitVec 32} {port : BitVec 16}

theorem toNat_netmaskBits (port : BitVec 16) : (port.setWidth 32).toNat = port.toNat := by
  rw [BitVec.toNat_setWidth]
  omega

theorem network4_eq (some_bits : 0 < port.toNat) (valid : port.toNat ≤ 32) :
    network (.v4 ip port) = some (.v4 (ip &&& firstBits 32 port.toNat) port) := by
  have mask : mask4 (port.setWidth 32) = _ := mask4_eq (by rwa [toNat_netmaskBits]) (by rwa [toNat_netmaskBits])
  rw [toNat_netmaskBits] at mask
  show (mask4 (port.setWidth 32)).map _ = _
  rw [mask]
  rfl

theorem isNetwork4_eq (some_bits : 0 < port.toNat) (fewer : port.toNat < 32) :
    isNetwork (.v4 ip port) = some (decide (ip &&& lastBits 32 port.toNat = 0)) := by
  have bits := toNat_netmaskBits port
  unfold isNetwork
  simp only [netmaskBits, bits]
  rw [if_neg (by omega), shiftRight, if_pos (by omega), bits]
  rfl

theorem exact4 (some_bits : 0 < port.toNat) (valid : port.toNat ≤ 32) :
    Exact (fun word => .v4 word port) port.toNat ip where
  netmask := by
    have mask : mask4 (port.setWidth 32) = _ := mask4_eq (by rwa [toNat_netmaskBits]) (by rwa [toNat_netmaskBits])
    rw [toNat_netmaskBits] at mask
    exact ⟨_, congrArg (Option.map _) mask, fun i inside => getMsbD_firstBits inside⟩
  network := by
    refine ⟨_, network4_eq some_bits valid, fun i inside => ?_⟩
    rw [BitVec.getMsbD_and, getMsbD_firstBits inside]
  idempotent := by
    rw [network4_eq some_bits valid, Option.bind_some, network4_eq some_bits valid, BitVec.and_assoc, BitVec.and_self]
  isNetwork := by
    intro _ fewer
    rw [network4_eq some_bits valid, isNetwork4_eq some_bits fewer]
    simp only [Option.some.injEq, decide_eq_true_eq, InetAddress.v4.injEq, and_true]
    exact and_lastBits_eq_zero_iff.trans and_firstBits_self_iff.symm

theorem exactBroadcast (fewer : port.toNat < 32) : ExactBroadcast ip port := by
  have bits := toNat_netmaskBits port
  have host : shiftRight (BitVec.allOnes 32) (port.setWidth 32) = some (lastBits 32 port.toNat) := by
    rw [shiftRight, if_pos (by omega), bits]
    rfl
  refine ⟨_, congrArg (Option.map _) host, fun i inside => ?_⟩
  rw [BitVec.getMsbD_or, getMsbD_lastBits inside]

theorem containsAddress4_eq {theirs : BitVec 32} {other : BitVec 16} (valid : port.toNat ≤ 32) :
    containsAddress (.v4 ip port) (.v4 theirs other) =
      some (InetAddress.containsAddress (.v4 ip port) (.v4 theirs other)) := by
  have bits : netmaskBits (.v4 ip port) = port.setWidth 32 := rfl
  dsimp only [containsAddress, InetAddress.containsAddress]
  by_cases none : port = 0
  · subst none
    rfl
  · have some_bits : netmaskBits (.v4 ip port) ≠ 0 := by bv_omega
    have small : (32 - netmaskBits (.v4 ip port)).toNat < 32 := by bv_omega
    have count : (32 - netmaskBits (.v4 ip port)).toNat = 32 - port.toNat := by bv_omega
    rw [if_neg some_bits, shiftRight, shiftRight, if_pos small, if_pos small, count]
    simp only [Option.bind_eq_bind, Option.bind_some, Option.pure_def, Option.some.injEq, decide_eq_decide]
    exact (or_iff_right none).symm

/-- IPv4 addresses are compared without the bits behind the prefix. -/
theorem contains4_iff {theirs : BitVec 32} {other : BitVec 16} (valid : port.toNat ≤ 32) :
    InetAddress.containsAddress (.v4 ip port) (.v4 theirs other) = true ↔ Agree port.toNat theirs ip := by
  rw [← shiftRight_eq_iff valid]
  dsimp only [InetAddress.containsAddress]
  rw [decide_eq_true_iff]
  constructor
  · intro contained
    rcases contained with none | same
    · rw [none]
      exact (shiftRight_eq_iff (Nat.zero_le 32)).mpr fun _ before => absurd before (Nat.not_lt_zero _)
    · exact same
  · intro same
    exact .inr same

theorem defined4_iff : Defined (.v4 ip port) ↔ Between (.v4 ip port) := by
  have bits := toNat_netmaskBits port
  constructor
  · intro defined
    have network := defined.network
    have broadcast := defined.broadcast
    unfold Prefixes.network at network
    unfold Prefixes.broadcast at broadcast
    rw [Option.isSome_map, mask4_isSome, netmaskBits, bits] at network
    rw [Option.isSome_map, shiftRight_isSome, netmaskBits, bits] at broadcast
    exact ⟨network.1, broadcast⟩
  · intro ⟨some_bits, fewer⟩
    have exact' := @exact4 ip port some_bits (Nat.le_of_lt fewer)
    obtain ⟨_, netmask, -⟩ := exact'.netmask
    obtain ⟨_, network, -⟩ := exact'.network
    obtain ⟨_, broadcast, -⟩ := @exactBroadcast ip port fewer
    refine ⟨Option.isSome_of_eq_some netmask, Option.isSome_of_eq_some broadcast, Option.isSome_of_eq_some network,
      Option.isSome_of_eq_some (isNetwork4_eq some_bits fewer), fun other => ?_⟩
    cases other with
    | nil => rfl
    | v6 _ _ => rfl
    | v4 theirs _ =>
        rw [containsAddress4_eq (Nat.le_of_lt fewer)]
        rfl

end Four

section Six

variable {ip : BitVec 128} {port : BitVec 16}

theorem getMsbD_byte6 {i j : Nat} (within : i < 16) (inside : j < 8) :
    (byte6 ip i).getMsbD j = ip.getMsbD (8 * i + j) := by
  have place : 8 * (15 - i) + (7 - j) = 127 - (8 * i + j) := by omega
  simp [byte6, BitVec.getMsbD_eq_getLsbD, inside, show 8 * i + j < 128 by omega, show 7 - j < 8 by omega, place]

theorem byte6_eq_zero_iff {i : Nat} (within : i < 16) :
    byte6 ip i = 0 ↔ ∀ j < 8, ip.getMsbD (8 * i + j) = false := by
  constructor
  · intro none j inside
    rw [← getMsbD_byte6 within inside, none]
    exact BitVec.getMsbD_zero
  · intro none
    apply BitVec.eq_of_getMsbD_eq
    intro j inside
    rw [getMsbD_byte6 within inside, none j inside]
    exact BitVec.getMsbD_zero.symm

/-- The test of the byte in which the prefix ends. -/
theorem partial_byte {rest : Nat} (few : rest < 8) (byte : BitVec 8) :
    byte.setWidth 32 &&& (0xff : BitVec 32) >>> rest = 0 ↔ Bare rest byte := by
  have mask : (0xff : BitVec 32) >>> rest = (lastBits 8 rest).setWidth 32 := by
    have all : ∀ rest < 8, (0xff : BitVec 32) >>> rest = (lastBits 8 rest).setWidth 32 := by decide
    exact all rest few
  rw [mask, ← and_lastBits_eq_zero_iff, ← BitVec.setWidth_and]
  constructor
  · intro none
    have cut := congrArg (BitVec.setWidth 8) none
    rw [BitVec.setWidth_setWidth_of_le _ (by decide), BitVec.setWidth_eq] at cut
    exact cut
  · intro none
    rw [none]
    rfl

theorem zeros6_iff {first : Nat} : zeros6 ip first 16 = true ↔ ∀ i, first ≤ i → i < 16 → byte6 ip i = 0 := by
  simp only [zeros6, List.all_eq_true, List.mem_range'_1, decide_eq_true_eq]
  constructor
  · intro none i low high
    exact none i ⟨low, by omega⟩
  · intro none i range
    exact none i range.1 (by omega)

/-- The bits behind a prefix, byte by byte. -/
theorem bare_iff_bytes {bits : Nat} (fewer : bits < 128) :
    Bare bits ip ↔ Bare (bits % 8) (byte6 ip (bits / 8)) ∧ ∀ i, bits / 8 + 1 ≤ i → i < 16 → byte6 ip i = 0 := by
  constructor
  · intro bare
    constructor
    · intro j behind
      by_cases inside : j < 8
      · rw [getMsbD_byte6 (by omega) inside]
        exact bare _ (by omega)
      · exact BitVec.getMsbD_of_ge _ _ (by omega)
    · intro i later within
      rw [byte6_eq_zero_iff within]
      exact fun j inside => bare _ (by omega)
  · intro ⟨here, later⟩ k behind
    by_cases inside : k < 128
    · have place : k = 8 * (k / 8) + k % 8 := by omega
      by_cases same : k / 8 = bits / 8
      · rw [place, same, ← getMsbD_byte6 (by omega) (by omega)]
        exact here _ (by omega)
      · rw [place]
        exact (byte6_eq_zero_iff (by omega)).mp (later (k / 8) (by omega) (by omega)) _ (by omega)
    · exact BitVec.getMsbD_of_ge _ _ (by omega)

theorem network6_eq (some_bits : 0 < port.toNat) (valid : port.toNat ≤ 128) :
    network (.v6 ip port) = some (.v6 (ip &&& firstBits 128 port.toNat) port) := by
  have nm : mask6 (port.setWidth 32) = _ := mask6_eq (by rwa [toNat_netmaskBits]) (by rwa [toNat_netmaskBits])
  rw [toNat_netmaskBits] at nm
  exact congrArg (Option.map _) nm

theorem netmask6_eq (valid : port.toNat ≤ 128) :
    netmaskWords (port.setWidth 32) = some (firstBits 128 port.toNat) := by
  have nm : netmaskWords (port.setWidth 32) = _ := netmaskWords_eq (by rwa [toNat_netmaskBits])
  rwa [toNat_netmaskBits] at nm

theorem toNat_mod_eight (bits : BitVec 32) : (bits % 8).toNat = bits.toNat % 8 := BitVec.toNat_umod

theorem netmask6_eq_firstBits (bits : Nat) : InetAddress.netmask6 bits = firstBits 128 bits := by
  have halves : InetAddress.netmask6 bits = firstBits 64 bits ++ firstBits 64 (bits - 64) := by
    unfold InetAddress.netmask6
    by_cases none : bits = 0
    · subst none
      rfl
    rw [if_neg none]
    congr 1
    · by_cases full : 64 ≤ bits
      · rw [if_pos full, firstBits, Nat.sub_eq_zero_of_le full]
        rfl
      · rw [if_neg full, firstBits]
    · by_cases low : bits ≤ 64
      · rw [if_pos low, firstBits, Nat.sub_eq_zero_of_le low]
        rfl
      · have same : 64 - (bits - 64) = 128 - bits := by omega
        rw [if_neg low, firstBits, same]
  exact halves.trans (firstBits_append 64)

/-- Of an IPv6 prefix the bits behind it are compared as well, with zeros. -/
theorem contains6_iff {theirs : BitVec 128} {other : BitVec 16} :
    InetAddress.containsAddress (.v6 ip port) (.v6 theirs other) = true ↔
      Agree port.toNat theirs ip ∧ Bare port.toNat ip := by
  rw [← and_firstBits_eq_iff, ← netmask6_eq_firstBits]
  exact decide_eq_true_iff

theorem containsAddress6_eq {theirs : BitVec 128} {other : BitVec 16} (valid : port.toNat ≤ 128) :
    containsAddress (.v6 ip port) (.v6 theirs other) =
      some (InetAddress.containsAddress (.v6 ip port) (.v6 theirs other)) := by
  show (netmaskWords (port.setWidth 32)).map _ = _
  rw [netmask6_eq valid, ← netmask6_eq_firstBits]
  rfl

theorem isNetwork6_defined : ∃ answer, isNetwork (.v6 ip port) = some answer := by
  have small : (netmaskBits (.v6 ip port) % 8).toNat < 32 := by
    rw [toNat_mod_eight]
    omega
  dsimp only [isNetwork]
  split
  · exact ⟨false, rfl⟩
  · rw [shiftRight, if_pos small]
    exact ⟨_, rfl⟩

theorem isNetwork6_iff (some_bits : 0 < port.toNat) (fewer : port.toNat < 128) :
    isNetwork (.v6 ip port) = some true ↔ Bare port.toNat ip := by
  have bits : (netmaskBits (.v6 ip port)).toNat = port.toNat := toNat_netmaskBits port
  have rest : (netmaskBits (.v6 ip port) % 8).toNat = port.toNat % 8 := by rw [toNat_mod_eight, bits]
  dsimp only [isNetwork]
  rw [if_neg (by omega), shiftRight, if_pos (by omega), rest, bits, Option.map_some, Option.some.injEq, decide_eq_true_eq,
    partial_byte (Nat.mod_lt _ (by decide)), zeros6_iff, bare_iff_bytes fewer]

theorem exact6 (some_bits : 0 < port.toNat) (valid : port.toNat ≤ 128) :
    Exact (fun word => .v6 word port) port.toNat ip where
  netmask := ⟨_, congrArg (Option.map _) (netmask6_eq valid), fun i inside => getMsbD_firstBits inside⟩
  network := by
    refine ⟨_, network6_eq some_bits valid, fun i inside => ?_⟩
    rw [BitVec.getMsbD_and, getMsbD_firstBits inside]
  idempotent := by
    rw [network6_eq some_bits valid, Option.bind_some, network6_eq some_bits valid, BitVec.and_assoc, BitVec.and_self]
  isNetwork := by
    intro _ fewer
    rw [network6_eq some_bits valid, isNetwork6_iff some_bits fewer]
    simp only [Option.some.injEq, InetAddress.v6.injEq, and_true]
    exact and_firstBits_self_iff.symm

theorem defined6_iff : Defined (.v6 ip port) ↔ Between (.v6 ip port) := by
  have bits := toNat_netmaskBits port
  constructor
  · intro defined
    have network := defined.network
    unfold Prefixes.network at network
    rwa [Option.isSome_map, mask6_isSome, netmaskBits, bits] at network
  · intro ⟨some_bits, valid⟩
    have exact' := @exact6 ip port some_bits valid
    obtain ⟨_, netmask, -⟩ := exact'.netmask
    obtain ⟨_, network, -⟩ := exact'.network
    obtain ⟨_, isNetwork⟩ := @isNetwork6_defined ip port
    refine ⟨Option.isSome_of_eq_some netmask, rfl, Option.isSome_of_eq_some network,
      Option.isSome_of_eq_some isNetwork, fun other => ?_⟩
    cases other with
    | nil => rfl
    | v4 _ _ => rfl
    | v6 _ _ =>
        rw [containsAddress6_eq valid]
        rfl

end Six

/-- The prefix arithmetic is right, and nowhere undefined, for prefixes strictly inside an IPv4 address and for IPv6
prefixes that are not empty. -/
theorem sound_iff (addr : InetAddress) : Sound addr ↔ Between addr := by
  cases addr with
  | nil => exact Iff.rfl
  | v4 ip port =>
      constructor
      · intro sound
        exact defined4_iff.mp sound.1
      · intro between
        exact ⟨defined4_iff.mpr between, fun valid => ⟨exact4 between.1 valid, exactBroadcast between.2⟩⟩
  | v6 ip port =>
      constructor
      · intro sound
        exact defined6_iff.mp sound.1
      · intro between
        exact ⟨defined6_iff.mpr between, fun valid => exact6 between.1 valid⟩

/-- The prefix of a default route: only `netmask` of IPv6 and `containsAddress` expect it. -/
theorem default_route_undefined : netmask (.v4 0 0) = none ∧ network (.v4 0 0) = none ∧ network (.v6 0 0) = none ∧
    netmask (.v6 0 0) = some (.v6 0 0) ∧ ¬ Sound (.v4 0 0) := by
  refine ⟨rfl, rfl, rfl, rfl, fun sound => ?_⟩
  exact absurd sound.1.network (by decide)

end ZeroTierNode.Prefixes

import Mathlib.Data.Option.Basic
import Mathlib.Logic.Function.Basic
import ZeroTierNode.Library.Buckets
import ZeroTierNode.Library.Runs

/-!
The hash table of the core. Chains are lists in the order of the `next` pointers. A
bucket has an address, which names it among the buckets of its table, so that a
reference into the table can be told from a copy of a key.
-/

namespace ZeroTierNode
open Library.Buckets Library.Runs

/-- `_Bucket`. -/
structure Bucket (K V : Type*) where
  address : Nat
  k : K
  v : V
deriving DecidableEq, Repr

/-- `_t`, whose length is `_bc`, and `_s`. New buckets get the address `fresh`. -/
structure Hashtable (K V : Type*) where
  t : List (List (Bucket K V))
  s : Nat
  fresh : Nat
deriving DecidableEq, Repr

/-- What a `const K&` refers to: a key of the caller, or the key in a bucket. -/
inductive Ref (K : Type*) where
  | value (k : K)
  | key (address : Nat)

namespace Hashtable

variable {K V : Type*}

/-- `_bc`. -/
def bc (ht : Hashtable K V) : Nat := ht.t.length

/-- All buckets, in the order in which loops over the table see them. -/
def buckets (ht : Hashtable K V) : List (Bucket K V) := ht.t.flatten

/-- `Hashtable(bc)`. -/
def ofCapacity (bc : Nat) : Hashtable K V := ⟨List.replicate bc [], 0, 0⟩

/-- The copy constructor. It goes through each chain from the front and puts the copies in front. -/
def copy (ht : Hashtable K V) : Hashtable K V := { ht with t := ht.t.map List.reverse }

def clear (ht : Hashtable K V) : Hashtable K V :=
  if ht.s = 0 then ht else { ht with t := ht.t.map fun _ => [], s := 0 }

def keys (ht : Hashtable K V) : List K := if ht.s = 0 then [] else ht.buckets.map Bucket.k

def entries (ht : Hashtable K V) : List (K × V) := if ht.s = 0 then [] else ht.buckets.map fun b => (b.k, b.v)

def size (ht : Hashtable K V) : Nat := ht.s

/-- The bucket at an address of a chain, with its `next`. -/
def linkAt (address : Nat) : List (Bucket K V) → Option (Bucket K V × Option Nat)
  | [] => none
  | b :: rest => if b.address = address then some (b, rest.head?.map Bucket.address) else linkAt address rest

/-- Read the bucket at an address; `none` when there is none, or no more. -/
def read (ht : Hashtable K V) (address : Nat) : Option (Bucket K V × Option Nat) :=
  ht.t.findSome? (linkAt address)

def deref (ht : Hashtable K V) : Ref K → Option K
  | .value k => some k
  | .key address => (ht.read address).map fun link => link.1.k

/-- Write through a pointer to the value of the bucket at an address. -/
def write (ht : Hashtable K V) (address : Nat) (v : V) : Hashtable K V :=
  { ht with t := ht.t.map (List.map fun b => if b.address = address then { b with v := v } else b) }

section Hashed

variable [DecidableEq K] (hc : K → Nat)

/-- The loop of `get`, `contains`, `set` and `operator[]` over a chain. -/
def find (ht : Hashtable K V) (k : K) : Option (Bucket K V) :=
  (ht.t.getD (hc k % ht.bc) []).find? fun b => b.k = k

def get (ht : Hashtable K V) (k : K) : Option V := (ht.find hc k).map Bucket.v

def contains (ht : Hashtable K V) (k : K) : Bool := (ht.find hc k).isSome

/-- `_grow`. Memory for the new chains may be refused, and the table stays as it is. -/
def grow (malloc : Nat → Bool) (ht : Hashtable K V) : Hashtable K V :=
  if malloc ht.s = true then { ht with t := scatter (fun b => hc b.k) (ht.bc * 2) ht.buckets } else ht

/-- The second half of `set` and `operator[]`: a new bucket. -/
def insert (malloc : Nat → Bool) (ht : Hashtable K V) (k : K) (v : V) : Hashtable K V :=
  let grown := if ht.bc ≤ ht.s then ht.grow hc malloc else ht
  { t := push (fun b => hc b.k) grown.t ⟨grown.fresh, k, v⟩, s := grown.s + 1, fresh := grown.fresh + 1 }

def set (malloc : Nat → Bool) (ht : Hashtable K V) (k : K) (v : V) : Hashtable K V :=
  match ht.find hc k with
  | some b => ht.write b.address v
  | none => ht.insert hc malloc k v

/-- `operator[]`, followed by what the caller does to the value through the reference it gets. -/
def index [Inhabited V] (malloc : Nat → Bool) (ht : Hashtable K V) (k : K) (change : V → V) : Hashtable K V :=
  match ht.find hc k with
  | some b => ht.write b.address (change b.v)
  | none => ht.insert hc malloc k (change default)

/-- `erase`. The reference is read for the last time before `delete b`; `none` when it already dangles. -/
def erase (ht : Hashtable K V) (ref : Ref K) : Option (Bool × Hashtable K V) :=
  (ht.deref ref).map fun k =>
    if ht.contains hc k then
      (true, { ht with t := ht.t.modify (hc k % ht.bc) (List.eraseP fun b => b.k = k), s := ht.s - 1 })
    else (false, ht)

/-- `operator=`, once the table is cleared. The source is read after that, and can be the same table. -/
def assign (malloc : Nat → Bool) (cleared source : Hashtable K V) : Hashtable K V :=
  if source.s = 0 then cleared else source.buckets.foldl (fun ht b => ht.set hc malloc b.k b.v) cleared

end Hashed

/-- `Iterator`, whose bucket pointer is an address. -/
structure Iterator where
  idx : Nat
  b : Option Nat

/-- `_t[idx]`. -/
def first (ht : Hashtable K V) (idx : Nat) : Option Nat := (ht.t.getD idx []).head?.map Bucket.address

def begin (ht : Hashtable K V) : Iterator := ⟨0, ht.first 0⟩

/-- `Iterator::next`. The bucket whose key and value the caller gets; the outer `none` is a read of freed memory. -/
def next (ht : Hashtable K V) (i : Iterator) : Option (Option (Bucket K V) × Iterator) :=
  match i.b with
  | some address => (ht.read address).map fun link => (some link.1, { i with b := link.2 })
  | none => if _ : i.idx + 1 < ht.bc then ht.next ⟨i.idx + 1, ht.first (i.idx + 1)⟩ else some (none, ⟨i.idx + 1, none⟩)
termination_by ht.bc - i.idx

section Passes

variable [DecidableEq K] (hc : K → Nat)

/-- What the caller does with an entry: erase it, with the reference that the iterator gave, or leave a value there. -/
def treat (visit : K → V → Option V) (ht : Hashtable K V) (b : Bucket K V) : Option (Hashtable K V) :=
  match visit b.k b.v with
  | some v => some (ht.write b.address v)
  | none => (ht.erase hc (.key b.address)).map Prod.snd

/-- `while (i.next(k, v))`, with the entries the caller gets. -/
def pass (visit : K → V → Option V) : Nat → Hashtable K V → Iterator → Option (List (K × V) × Hashtable K V)
  | 0, _, _ => none
  | fuel + 1, ht, i => do
      let reached ← ht.next i
      match reached.1 with
      | none => some ([], ht)
      | some b =>
          let treated ← ht.treat hc visit b
          let rest ← pass visit fuel treated reached.2
          some ((b.k, b.v) :: rest.1, rest.2)

end Passes

/-- What every operation keeps. -/
structure WellFormed (hc : K → Nat) (ht : Hashtable K V) : Prop where
  nonzero : 0 < ht.bc
  placed : Placed (fun b => hc b.k) ht.t
  keys : (ht.buckets.map Bucket.k).Nodup
  addresses : (ht.buckets.map Bucket.address).Nodup
  fresh : ∀ b ∈ ht.buckets, b.address < ht.fresh
  counted : ht.s = ht.buckets.length

/-- The table holds the entries of a map. -/
def Maps (ht : Hashtable K V) (m : K → Option V) : Prop :=
  ∀ k v, m k = some v ↔ ∃ b ∈ ht.buckets, b.k = k ∧ b.v = v

section Entries

variable {hc : K → Nat} {ht : Hashtable K V} {m : K → Option V}

theorem WellFormed.same_of_key (wf : WellFormed hc ht) {b b' : Bucket K V} (member : b ∈ ht.buckets)
    (member' : b' ∈ ht.buckets) (same : b.k = b'.k) : b = b' :=
  List.inj_on_of_nodup_map wf.keys member member' same

theorem WellFormed.same_of_address (wf : WellFormed hc ht) {b b' : Bucket K V} (member : b ∈ ht.buckets)
    (member' : b' ∈ ht.buckets) (same : b.address = b'.address) : b = b' :=
  List.inj_on_of_nodup_map wf.addresses member member' same

theorem Maps.isSome_iff (maps : ht.Maps m) {k : K} : (m k).isSome = true ↔ k ∈ ht.buckets.map Bucket.k := by
  rw [Option.isSome_iff_exists, List.mem_map]
  constructor
  · rintro ⟨v, held⟩
    obtain ⟨b, member, same, -⟩ := (maps k v).mp held
    exact ⟨b, member, same⟩
  · rintro ⟨b, member, same⟩
    exact ⟨b.v, (maps k b.v).mpr ⟨b, member, same, rfl⟩⟩

theorem keys_eq (wf : WellFormed hc ht) : ht.keys = ht.buckets.map Bucket.k := by
  unfold Hashtable.keys
  split
  · rename_i empty
    rw [List.length_eq_zero_iff.mp (wf.counted.symm.trans empty), List.map_nil]
  · rfl

theorem entries_eq (wf : WellFormed hc ht) : ht.entries = ht.buckets.map fun b => (b.k, b.v) := by
  unfold entries
  split
  · rename_i empty
    rw [List.length_eq_zero_iff.mp (wf.counted.symm.trans empty), List.map_nil]
  · rfl

/-- The same buckets in other chains, in any order. -/
theorem WellFormed.of_perm (wf : WellFormed hc ht) {t : List (List (Bucket K V))} (nonzero : 0 < t.length)
    (placed : Placed (fun b => hc b.k) t) (perm : t.flatten.Perm ht.buckets) :
    WellFormed hc { ht with t := t } where
  nonzero := nonzero
  placed := placed
  keys := (perm.map Bucket.k).nodup_iff.mpr wf.keys
  addresses := (perm.map Bucket.address).nodup_iff.mpr wf.addresses
  fresh b member := wf.fresh b (perm.mem_iff.mp member)
  counted := wf.counted.trans perm.length_eq.symm

theorem Maps.of_perm (maps : ht.Maps m) {t : List (List (Bucket K V))} (perm : t.flatten.Perm ht.buckets) :
    Maps { ht with t := t } m := by
  intro k v
  rw [maps k v]
  apply exists_congr
  intro b
  exact and_congr_left' perm.mem_iff.symm

theorem wellFormed_ofCapacity {bc : Nat} (nonzero : 0 < bc) : WellFormed hc (ofCapacity bc : Hashtable K V) := by
  have none : (ofCapacity bc : Hashtable K V).buckets = [] := flatten_replicate_nil bc
  constructor
  · exact lt_of_lt_of_eq nonzero List.length_replicate.symm
  · exact placed_replicate bc
  · rw [none]
    exact List.nodup_nil
  · rw [none]
    exact List.nodup_nil
  · rw [none]
    exact fun _ member => absurd member List.not_mem_nil
  · rw [none]
    rfl

theorem maps_of_buckets_nil (none : ht.buckets = []) : ht.Maps fun _ => Option.none := by
  intro k v
  rw [none]
  simp

theorem WellFormed.copy (wf : WellFormed hc ht) : WellFormed hc ht.copy := by
  apply wf.of_perm _ _ (perm_reversed ht.t)
  · rw [List.length_map]
    exact wf.nonzero
  · exact wf.placed.map fun chain b member => ⟨b, List.mem_reverse.mp member, rfl⟩

theorem Maps.copy (maps : ht.Maps m) : ht.copy.Maps m := maps.of_perm (perm_reversed ht.t)

theorem buckets_clear (wf : WellFormed hc ht) : ht.clear.buckets = [] := by
  unfold clear
  split
  · rename_i empty
    exact List.length_eq_zero_iff.mp (wf.counted.symm.trans empty)
  · apply List.flatten_eq_nil_iff.mpr
    intro chain listed
    obtain ⟨earlier, -, rfl⟩ := List.mem_map.mp listed
    rfl

theorem size_clear : ht.clear.s = 0 := by
  unfold clear
  split
  · assumption
  · rfl

theorem WellFormed.clear (wf : WellFormed hc ht) : WellFormed hc ht.clear := by
  have none := buckets_clear wf
  constructor
  · unfold Hashtable.clear
    split
    · exact wf.nonzero
    · exact lt_of_lt_of_eq wf.nonzero (List.length_map _).symm
  · unfold Hashtable.clear
    split
    · exact wf.placed
    · exact wf.placed.map fun chain b member => absurd member List.not_mem_nil
  · rw [none]
    exact List.nodup_nil
  · rw [none]
    exact List.nodup_nil
  · rw [none]
    exact fun _ member => absurd member List.not_mem_nil
  · rw [none]
    exact size_clear

end Entries

section Lookup

variable [DecidableEq K] {hc : K → Nat} {ht : Hashtable K V} {m : K → Option V}

theorem key_of_find {k : K} {b : Bucket K V} (found : ht.find hc k = some b) : b.k = k := by
  unfold find at found
  exact of_decide_eq_true (List.find?_some found :)

theorem mem_of_find {k : K} {b : Bucket K V} (found : ht.find hc k = some b) : b ∈ ht.buckets :=
  mem_flatten_of_mem_getD (List.mem_of_find?_eq_some found)

theorem find_eq_some (wf : WellFormed hc ht) {k : K} {b : Bucket K V} :
    ht.find hc k = some b ↔ b ∈ ht.buckets ∧ b.k = k := by
  constructor
  · intro found
    exact ⟨mem_of_find found, key_of_find found⟩
  · rintro ⟨member, rfl⟩
    have there := wf.placed.mem_getD member
    cases found : ht.find hc b.k with
    | none => exact absurd (List.find?_eq_none.mp found b there) (by simp)
    | some other => rw [wf.same_of_key (mem_of_find found) member (key_of_find found)]

theorem get_eq (wf : WellFormed hc ht) (maps : ht.Maps m) (k : K) : ht.get hc k = m k := by
  apply Option.ext
  intro v
  rw [maps k v, get, Option.map_eq_some_iff]
  apply exists_congr
  intro b
  rw [find_eq_some wf, and_assoc]

theorem contains_eq (wf : WellFormed hc ht) (maps : ht.Maps m) (k : K) : ht.contains hc k = (m k).isSome := by
  rw [← get_eq wf maps, get, Option.isSome_map]
  rfl

end Lookup

/-- What becomes of a bucket when the value of a key is changed, or the key removed. -/
def amend [DecidableEq K] (k : K) (change : V → Option V) (b : Bucket K V) : Option (Bucket K V) :=
  if b.k = k then (change b.v).map fun v => { b with v := v } else some b

section Changes

variable [DecidableEq K] {hc : K → Nat} {ht : Hashtable K V} {m : K → Option V} {k : K} {change : V → Option V}

theorem amend_other {b : Bucket K V} (other : b.k ≠ k) : amend k change b = some b := if_neg other

theorem amend_same {b b' : Bucket K V} (made : amend k change b = some b') :
    b'.k = b.k ∧ b'.address = b.address := by
  unfold amend at made
  split at made
  · obtain ⟨v, -, rfl⟩ := Option.map_eq_some_iff.mp made
    exact ⟨rfl, rfl⟩
  · rw [← Option.some.inj made]
    exact ⟨rfl, rfl⟩

/-- Changed in its chains, the table is changed as a whole. -/
theorem buckets_amended (t : List (List (Bucket K V))) :
    (t.map (List.filterMap (amend k change))).flatten = t.flatten.filterMap (amend k change) :=
  List.filterMap_flatten.symm

/-- Parts that a change leaves alone thin out with the list. -/
theorem sublist_map_amended {α : Type*} (part : Bucket K V → α)
    (kept : ∀ b b', amend k change b = some b' → part b' = part b) (bs : List (Bucket K V)) :
    ((bs.filterMap (amend k change)).map part).Sublist (bs.map part) := by
  induction bs with
  | nil => exact List.Sublist.refl _
  | cons b bs ih =>
      cases made : amend k change b with
      | none =>
          rw [List.filterMap_cons_none made]
          exact ih.cons _
      | some b' =>
          rw [List.filterMap_cons_some made, List.map_cons, List.map_cons, kept b b' made]
          exact ih.cons_cons _

theorem WellFormed.amended (wf : WellFormed hc ht) {s : Nat}
    (counted : s = (ht.buckets.filterMap (amend k change)).length) :
    WellFormed hc { ht with t := ht.t.map (List.filterMap (amend k change)), s := s } := by
  have all := @buckets_amended K V _ k change ht.t
  constructor
  · exact lt_of_lt_of_eq wf.nonzero (List.length_map _).symm
  · apply wf.placed.map
    intro chain b member
    obtain ⟨earlier, there, made⟩ := List.mem_filterMap.mp member
    exact ⟨earlier, there, congrArg hc (amend_same made).1.symm⟩
  · unfold buckets
    rw [all]
    exact wf.keys.sublist (sublist_map_amended _ (fun _ _ made => (amend_same made).1) ht.buckets)
  · unfold buckets
    rw [all]
    exact wf.addresses.sublist (sublist_map_amended _ (fun _ _ made => (amend_same made).2) ht.buckets)
  · unfold buckets
    rw [all]
    intro b member
    obtain ⟨earlier, there, made⟩ := List.mem_filterMap.mp member
    rw [(amend_same made).2]
    exact wf.fresh earlier there
  · unfold buckets
    rw [all]
    exact counted

theorem Maps.amended (maps : ht.Maps m) (s : Nat) :
    Maps { ht with t := ht.t.map (List.filterMap (amend k change)), s := s }
      (Function.update m k ((m k).bind change)) := by
  intro k' v
  unfold buckets
  rw [buckets_amended]
  by_cases this : k' = k
  · subst this
    rw [Function.update_self, Option.bind_eq_some_iff]
    constructor
    · rintro ⟨old, held, changed⟩
      obtain ⟨b, member, same, rfl⟩ := (maps k' old).mp held
      refine ⟨{ b with v := v }, List.mem_filterMap.mpr ⟨b, member, ?_⟩, same, rfl⟩
      rw [amend, if_pos same, changed, Option.map_some]
    · rintro ⟨b', member, same, rfl⟩
      obtain ⟨b, there, made⟩ := List.mem_filterMap.mp member
      have key := (amend_same made).1.symm.trans same
      rw [amend, if_pos key] at made
      obtain ⟨v, changed, rfl⟩ := Option.map_eq_some_iff.mp made
      exact ⟨b.v, (maps k' b.v).mpr ⟨b, there, key, rfl⟩, changed⟩
  · rw [Function.update_of_ne this, maps k' v]
    constructor
    · rintro ⟨b, member, same, value⟩
      exact ⟨b, List.mem_filterMap.mpr ⟨b, member, amend_other (same ▸ this)⟩, same, value⟩
    · rintro ⟨b', member, same, value⟩
      obtain ⟨b, there, made⟩ := List.mem_filterMap.mp member
      have key := (amend_same made).1.symm.trans same
      rw [amend_other (key ▸ this)] at made
      exact ⟨b, there, key, Option.some.inj made ▸ value⟩

/-- A value written at the address of a bucket is written for its key. -/
theorem write_eq (wf : WellFormed hc ht) {b : Bucket K V} (member : b ∈ ht.buckets) (v : V) :
    ht.write b.address v = { ht with t := ht.t.map (List.filterMap (amend b.k fun _ => some v)) } := by
  unfold write
  congr 1
  apply List.map_congr_left
  intro chain listed
  rw [← List.filterMap_eq_map]
  apply List.filterMap_congr
  intro other inside
  have there : other ∈ ht.buckets := List.mem_flatten_of_mem listed inside
  rw [Function.comp_apply]
  by_cases same : other.address = b.address
  · rw [wf.same_of_address there member same, if_pos rfl, amend, if_pos rfl, Option.map_some]
  · have different : other.k ≠ b.k := fun key => same (congrArg _ (wf.same_of_key there member key))
    rw [if_neg same, amend_other different]

theorem eraseP_eq {bs : List (Bucket K V)} (distinct : (bs.map Bucket.k).Nodup) :
    (bs.eraseP fun b => b.k = k) = bs.filterMap (amend k fun _ => none) := by
  induction bs with
  | nil => rfl
  | cons b bs ih =>
      rw [List.map_cons, List.nodup_cons] at distinct
      by_cases this : b.k = k
      · have others : ∀ other ∈ bs, amend k (fun _ => none) other = some other := by
          intro other member
          apply amend_other
          intro same
          exact distinct.1 (List.mem_map.mpr ⟨other, member, same.trans this.symm⟩)
        rw [List.eraseP_cons_of_pos (by simpa using this), List.filterMap_cons_none (by rw [amend, if_pos this]; rfl),
          List.filterMap_congr others, List.filterMap_some]
      · rw [List.eraseP_cons_of_neg (by simpa using this), List.filterMap_cons_some (amend_other this), ih distinct.2]

/-- Taken out of its chain, a key is taken out of the table. -/
theorem unlink_eq (wf : WellFormed hc ht) (k : K) :
    ht.t.modify (hc k % ht.bc) (List.eraseP fun b => b.k = k) = ht.t.map (List.filterMap (amend k fun _ => none)) := by
  rw [modify_eq_map]
  · apply List.map_congr_left
    intro chain listed
    apply eraseP_eq
    exact wf.keys.sublist ((List.sublist_flatten_of_mem listed).map _)
  · intro j inside elsewhere
    apply List.eraseP_of_forall_not
    intro b member same
    have home : hc b.k % ht.bc = j := wf.placed j inside b member
    rw [of_decide_eq_true same] at home
    exact elsewhere home.symm

end Changes

/-- A table that is well formed and holds the map. -/
structure Represents (hc : K → Nat) (ht : Hashtable K V) (m : K → Option V) : Prop where
  wf : WellFormed hc ht
  maps : ht.Maps m

section Moves

variable {hc : K → Nat} {ht : Hashtable K V} {m : K → Option V}

theorem represents_ofCapacity {bc : Nat} (nonzero : 0 < bc) :
    Represents hc (ofCapacity bc : Hashtable K V) fun _ => none :=
  ⟨wellFormed_ofCapacity nonzero, maps_of_buckets_nil (flatten_replicate_nil bc)⟩

theorem WellFormed.represents_clear (wf : WellFormed hc ht) : Represents hc ht.clear fun _ => none :=
  ⟨wf.clear, maps_of_buckets_nil (buckets_clear wf)⟩

theorem Represents.copy (holds : Represents hc ht m) : Represents hc ht.copy m := ⟨holds.wf.copy, holds.maps.copy⟩

theorem Represents.grow (holds : Represents hc ht m) (malloc : Nat → Bool) :
    Represents hc (ht.grow hc malloc) m := by
  unfold Hashtable.grow
  split
  · have enough : 0 < ht.bc * 2 := Nat.mul_pos holds.wf.nonzero (by decide)
    have perm := @perm_scatter _ (fun b : Bucket K V => hc b.k) _ ht.buckets enough
    constructor
    · apply holds.wf.of_perm _ (placed_scatter _ enough) perm
      rwa [length_scatter _ enough]
    · exact holds.maps.of_perm perm
  · exact holds

end Moves

section Operations

variable [DecidableEq K] {hc : K → Nat} {ht : Hashtable K V} {m : K → Option V}

theorem Represents.insert (holds : Represents hc ht m) (malloc : Nat → Bool) {k : K} (missing : m k = none) (v : V) :
    Represents hc (ht.insert hc malloc k v) (Function.update m k (some v)) := by
  unfold Hashtable.insert
  dsimp only
  have grown : Represents hc (if ht.bc ≤ ht.s then ht.grow hc malloc else ht) m := by
    split
    · exact holds.grow malloc
    · exact holds
  generalize (if ht.bc ≤ ht.s then ht.grow hc malloc else ht) = ht at grown ⊢
  let new : Bucket K V := ⟨ht.fresh, k, v⟩
  have perm := @perm_push _ (fun b : Bucket K V => hc b.k) ht.t grown.wf.nonzero new
  have unused : k ∉ ht.buckets.map Bucket.k := by
    rw [← grown.maps.isSome_iff, missing]
    exact Bool.false_ne_true
  constructor
  · constructor
    · change 0 < (push (fun b => hc b.k) ht.t new).length
      rw [length_push]
      exact grown.wf.nonzero
    · exact grown.wf.placed.push _
    · exact (perm.map Bucket.k).nodup_iff.mpr (List.nodup_cons.mpr ⟨unused, grown.wf.keys⟩)
    · apply (perm.map Bucket.address).nodup_iff.mpr
      apply List.nodup_cons.mpr ⟨_, grown.wf.addresses⟩
      intro taken
      obtain ⟨b, member, same⟩ := List.mem_map.mp taken
      exact absurd (grown.wf.fresh b member) (same ▸ Nat.lt_irrefl _)
    · intro b member
      rcases List.mem_cons.mp (perm.mem_iff.mp member) with this | earlier
      · rw [this]
        exact Nat.lt_succ_self _
      · exact Nat.lt_succ_of_lt (grown.wf.fresh b earlier)
    · exact (congrArg (· + 1) grown.wf.counted).trans perm.length_eq.symm
  · intro k' v'
    have split : (∃ b ∈ (push (fun b => hc b.k) ht.t new).flatten, b.k = k' ∧ b.v = v') ↔
        (k = k' ∧ v = v') ∨ m k' = some v' := by
      rw [grown.maps k' v']
      simp only [perm.mem_iff, List.mem_cons, exists_eq_or_imp]
      rfl
    apply Iff.trans _ split.symm
    by_cases this : k' = k
    · subst this
      rw [Function.update_self, missing]
      simp
    · rw [Function.update_of_ne this]
      simp [Ne.symm this]

theorem Represents.write (holds : Represents hc ht m) {b : Bucket K V} (member : b ∈ ht.buckets) (v : V) :
    Represents hc (ht.write b.address v) (Function.update m b.k (some v)) := by
  have held : m b.k = some b.v := (holds.maps b.k b.v).mpr ⟨b, member, rfl, rfl⟩
  have same : (ht.write b.address v).buckets.length = ht.buckets.length := by
    unfold Hashtable.write buckets
    rw [← List.map_flatten, List.length_map]
  have changed := write_eq holds.wf member v
  have counted : ht.s = (ht.buckets.filterMap (amend b.k fun _ => some v)).length := by
    rw [holds.wf.counted, ← same, changed]
    exact congrArg List.length (buckets_amended ht.t)
  have maps := @Maps.amended K V _ ht m b.k (fun _ => some v) holds.maps ht.s
  rw [held] at maps
  rw [changed]
  exact ⟨holds.wf.amended counted, maps⟩

theorem Represents.set (holds : Represents hc ht m) (malloc : Nat → Bool) (k : K) (v : V) :
    Represents hc (ht.set hc malloc k v) (Function.update m k (some v)) := by
  unfold Hashtable.set
  have got := get_eq holds.wf holds.maps k
  unfold get at got
  cases found : ht.find hc k with
  | none =>
      rw [found] at got
      exact holds.insert malloc got.symm v
  | some b =>
      have written := holds.write (mem_of_find found) v
      rwa [key_of_find found] at written

theorem Represents.index [Inhabited V] (holds : Represents hc ht m) (malloc : Nat → Bool) (k : K) (change : V → V) :
    Represents hc (ht.index hc malloc k change) (Function.update m k (some (change ((m k).getD default)))) := by
  unfold Hashtable.index
  have got := get_eq holds.wf holds.maps k
  unfold get at got
  cases found : ht.find hc k with
  | none =>
      rw [found] at got
      rw [← got]
      exact holds.insert malloc got.symm _
  | some b =>
      rw [found] at got
      rw [← got]
      have written := holds.write (mem_of_find found) (change b.v)
      rwa [key_of_find found] at written

/-- Erasing through any reference that is good at the call. -/
theorem Represents.erase (holds : Represents hc ht m) {ref : Ref K} {k : K} (refers : ht.deref ref = some k) :
    ∃ after, ht.erase hc ref = some ((m k).isSome, after) ∧ Represents hc after (Function.update m k none) := by
  unfold Hashtable.erase
  rw [refers, Option.map_some]
  have there := contains_eq holds.wf holds.maps k
  by_cases present : ht.contains hc k = true
  · rw [if_pos present, ← there, present, unlink_eq holds.wf]
    refine ⟨_, rfl, ?_, ?_⟩
    · apply holds.wf.amended
      obtain ⟨b, found⟩ := Option.isSome_iff_exists.mp present
      rw [← eraseP_eq holds.wf.keys, holds.wf.counted]
      exact (List.length_eraseP_of_mem (mem_of_find found) (by simpa using key_of_find found)).symm
    · have maps := @Maps.amended K V _ ht m k (fun _ => none) holds.maps (ht.s - 1)
      rwa [show (m k).bind (fun _ => none) = none by cases m k <;> rfl] at maps
  · have missing := Bool.eq_false_iff.mpr present
    rw [if_neg present, ← there, missing]
    refine ⟨ht, rfl, ?_⟩
    rw [missing] at there
    have none : m k = Option.none := Option.isSome_eq_false_iff.mp there.symm |> Option.isNone_iff_eq_none.mp
    rw [← none, Function.update_eq_self]
    exact holds

theorem Represents.setAll (holds : Represents hc ht m) (malloc : Nat → Bool) (source : List (Bucket K V)) :
    Represents hc (source.foldl (fun ht b => ht.set hc malloc b.k b.v) ht)
      (source.foldl (fun m b => Function.update m b.k (some b.v)) m) := by
  induction source generalizing ht m with
  | nil => exact holds
  | cons b source ih => exact ih (holds.set malloc b.k b.v)

/-- The entries of a map, set one after the other in an empty map. -/
theorem foldl_update {bs : List (Bucket K V)} (distinct : (bs.map Bucket.k).Nodup) (m : K → Option V) (k : K) (v : V) :
    (bs.foldl (fun (m : K → Option V) b => Function.update m b.k (some b.v)) m) k = some v ↔
      (∃ b ∈ bs, b.k = k ∧ b.v = v) ∨ (k ∉ bs.map Bucket.k ∧ m k = some v) := by
  induction bs generalizing m with
  | nil => simp
  | cons b bs ih =>
      rw [List.map_cons, List.nodup_cons] at distinct
      rw [List.foldl_cons, ih distinct.2]
      by_cases this : k = b.k
      · subst this
        have elsewhere : ¬ ∃ other ∈ bs, other.k = b.k ∧ other.v = v := fun ⟨other, member, same, _⟩ =>
          distinct.1 (List.mem_map.mpr ⟨other, member, same⟩)
        rw [Function.update_self]
        simp [elsewhere, distinct.1]
      · rw [Function.update_of_ne this]
        simp [this, Ne.symm this]

theorem WellFormed.represents (wf : WellFormed hc ht) : Represents hc ht (ht.get hc) := by
  refine ⟨wf, fun k v => ?_⟩
  unfold get
  rw [Option.map_eq_some_iff]
  apply exists_congr
  intro b
  rw [find_eq_some wf, and_assoc]

theorem represents_assign {source : Hashtable K V} (wf : WellFormed hc ht) (holds : Represents hc source m)
    (malloc : Nat → Bool) : Represents hc (ht.clear.assign hc malloc source) m := by
  have all := wf.represents_clear.setAll malloc source.buckets
  have made :
      source.buckets.foldl (fun (m : K → Option V) b => Function.update m b.k (some b.v)) (fun _ => none) = m := by
    funext k
    apply Option.ext
    intro v
    rw [foldl_update holds.wf.keys, holds.maps k v]
    simp
  rw [made] at all
  unfold assign
  split
  · rename_i empty
    rw [List.length_eq_zero_iff.mp (holds.wf.counted.symm.trans empty)] at all
    exact all
  · exact all

end Operations

/-- Where an iterator stands: these buckets are still to come. -/
def Ahead (ht : Hashtable K V) (i : Iterator) (rest : List (Bucket K V)) : Prop :=
  ∃ before passed coming after, ht.t = before ++ (passed ++ coming) :: after ∧ i.idx = before.length ∧
    i.b = coming.head?.map Bucket.address ∧ rest = coming ++ after.flatten

section Iteration

variable {hc : K → Nat} {ht : Hashtable K V}

theorem linkAt_of_notMem {address : Nat} {chain : List (Bucket K V)} (missing : address ∉ chain.map Bucket.address) :
    linkAt address chain = none := by
  induction chain with
  | nil => rfl
  | cons b chain ih =>
      rw [List.map_cons, List.mem_cons, not_or] at missing
      rw [linkAt, if_neg (Ne.symm missing.1), ih missing.2]

theorem linkAt_append {b : Bucket K V} {passed coming : List (Bucket K V)}
    (missing : b.address ∉ passed.map Bucket.address) :
    linkAt b.address (passed ++ b :: coming) = some (b, coming.head?.map Bucket.address) := by
  induction passed with
  | nil => exact if_pos rfl
  | cons other passed ih =>
      rw [List.map_cons, List.mem_cons, not_or] at missing
      rw [List.cons_append, linkAt, if_neg (Ne.symm missing.1), ih missing.2]

/-- A bucket is found at its address, with the next one of its chain. -/
theorem read_eq (wf : WellFormed hc ht) {before after : List (List (Bucket K V))} {passed coming : List (Bucket K V)}
    {b : Bucket K V} (split : ht.t = before ++ (passed ++ b :: coming) :: after) :
    ht.read b.address = some (b, coming.head?.map Bucket.address) := by
  have distinct := wf.addresses
  unfold buckets at distinct
  rw [split, List.flatten_append, List.flatten_cons, List.append_assoc, ← List.append_assoc, List.map_append] at distinct
  have missing : b.address ∉ (before.flatten ++ passed).map Bucket.address := by
    intro earlier
    exact (List.nodup_append.mp distinct).2.2 _ earlier b.address (List.mem_cons_self ..) rfl
  rw [List.map_append, List.mem_append, not_or] at missing
  unfold read
  rw [split, List.findSome?_append, List.findSome?_cons, linkAt_append missing.2]
  have none : before.findSome? (linkAt b.address) = none := by
    apply List.findSome?_eq_none_iff.mpr
    intro chain listed
    apply linkAt_of_notMem
    intro member
    obtain ⟨other, inside, same⟩ := List.mem_map.mp member
    exact missing.1 (List.mem_map.mpr ⟨other, List.mem_flatten_of_mem listed inside, same⟩)
  rw [none, Option.none_or]

theorem read_of_mem (wf : WellFormed hc ht) {b : Bucket K V} (member : b ∈ ht.buckets) :
    ∃ next, ht.read b.address = some (b, next) := by
  obtain ⟨chain, listed, inside⟩ := List.mem_flatten.mp member
  obtain ⟨before, after, split⟩ := List.append_of_mem listed
  obtain ⟨passed, coming, rfl⟩ := List.append_of_mem inside
  exact ⟨_, read_eq wf split⟩

theorem deref_key (wf : WellFormed hc ht) {b : Bucket K V} (member : b ∈ ht.buckets) :
    ht.deref (.key b.address) = some b.k := by
  obtain ⟨next, found⟩ := read_of_mem wf member
  change (ht.read b.address).map _ = _
  rw [found, Option.map_some]

theorem ahead_begin (wf : WellFormed hc ht) : ht.Ahead ht.begin ht.buckets := by
  unfold begin first buckets
  have nonzero := wf.nonzero
  unfold bc at nonzero
  cases split : ht.t with
  | nil =>
      rw [split] at nonzero
      cases nonzero
  | cons chain after => exact ⟨[], [], chain, after, split, rfl, rfl, List.flatten_cons⟩

/-- The rest of the chain is not empty. -/
theorem next_here (wf : WellFormed hc ht) {i : Iterator} {before after : List (List (Bucket K V))}
    {passed coming : List (Bucket K V)} {b : Bucket K V} (split : ht.t = before ++ (passed ++ b :: coming) :: after)
    (here : i.idx = before.length) (stands : i.b = some b.address) :
    ∃ i', ht.next i = some (some b, i') ∧ ht.Ahead i' (coming ++ after.flatten) := by
  refine ⟨⟨i.idx, coming.head?.map Bucket.address⟩, ?_, before, passed ++ [b], coming, after, ?_, here, rfl, rfl⟩
  · rw [next, stands]
    dsimp only
    rw [read_eq wf split]
    rfl
  · rw [split, List.append_assoc passed [b] coming]
    rfl

/-- The iterator gives the next bucket that is to come, if there is one. -/
theorem next_eq (wf : WellFormed hc ht) {i : Iterator} {rest : List (Bucket K V)} (ahead : ht.Ahead i rest) :
    ∃ i', ht.next i = some (rest.head?, i') ∧ (rest ≠ [] → ht.Ahead i' rest.tail) := by
  obtain ⟨before, passed, coming, after, split, here, stands, rfl⟩ := ahead
  induction after generalizing i before passed coming with
  | nil =>
      cases coming with
      | cons b coming =>
          obtain ⟨i', found, ahead⟩ := next_here wf split here stands
          exact ⟨i', found, fun _ => ahead⟩
      | nil =>
          have last : ¬ i.idx + 1 < ht.bc := by
            unfold bc
            rw [split, here]
            simp
          refine ⟨⟨i.idx + 1, none⟩, ?_, fun some => absurd rfl some⟩
          rw [next, stands]
          dsimp only [List.head?_nil, Option.map_none]
          rw [dif_neg last]
          rfl
  | cons chain after ih =>
      cases coming with
      | cons b coming =>
          obtain ⟨i', found, ahead⟩ := next_here wf split here stands
          exact ⟨i', found, fun _ => ahead⟩
      | nil =>
          have more : i.idx + 1 < ht.bc := by
            unfold bc
            rw [split, here]
            simp
          have shifted : ht.t = (before ++ [passed]) ++ ([] ++ chain) :: after := by
            rw [split, List.append_nil, List.nil_append, List.append_assoc, List.singleton_append]
          have length : i.idx + 1 = (before ++ [passed]).length := by
            rw [here, List.length_append, List.length_singleton]
          have first : ht.first (i.idx + 1) = chain.head?.map Bucket.address := by
            unfold first
            rw [shifted, length, List.getD_append_right _ _ _ _ (Nat.le_refl _), Nat.sub_self]
            rfl
          have step : ht.next i = ht.next ⟨i.idx + 1, ht.first (i.idx + 1)⟩ := by
            rw [next, stands]
            dsimp only [List.head?_nil, Option.map_none]
            rw [dif_pos more]
          rw [step]
          exact ih (before ++ [passed]) [] chain shifted length first

theorem Ahead.sublist {i : Iterator} {rest : List (Bucket K V)} (ahead : ht.Ahead i rest) : rest.Sublist ht.buckets := by
  obtain ⟨before, passed, coming, after, split, -, -, rfl⟩ := ahead
  unfold buckets
  rw [split, List.flatten_append, List.flatten_cons, List.append_assoc, ← List.append_assoc]
  exact List.sublist_append_right _ _

end Iteration

section Visits

variable [DecidableEq K] {hc : K → Nat} {ht : Hashtable K V} {m : K → Option V} {i : Iterator}
  {rest : List (Bucket K V)}

/-- An iterator is not disturbed by changes to keys that are not to come. -/
theorem Ahead.amended (ahead : ht.Ahead i rest) {k : K} {change : V → Option V} (gone : ∀ b ∈ rest, b.k ≠ k) (s : Nat) :
    Ahead { ht with t := ht.t.map (List.filterMap (amend k change)), s := s } i rest := by
  obtain ⟨before, passed, coming, after, split, here, stands, rfl⟩ := ahead
  have same : ∀ bs : List (Bucket K V), (∀ b ∈ bs, b.k ≠ k) → bs.filterMap (amend k change) = bs := by
    intro bs others
    rw [List.filterMap_congr fun b member => amend_other (others b member), List.filterMap_some]
  have first := same coming fun b member => gone b (List.mem_append_left _ member)
  have later : after.map (List.filterMap (amend k change)) = after := by
    rw [← List.map_id after, List.map_map]
    apply List.map_congr_left
    intro chain listed
    exact same chain fun b member => gone b (List.mem_append_right _ (List.mem_flatten_of_mem listed member))
  refine ⟨before.map (List.filterMap (amend k change)), passed.filterMap (amend k change), coming, after, ?_, ?_,
    stands, rfl⟩
  · rw [split, List.map_append, List.map_cons, List.filterMap_append, first, later]
  · rw [here, List.length_map]

/-- Erasing with the reference to the key in a bucket: it is good until the bucket goes. -/
theorem erase_key (wf : WellFormed hc ht) {b : Bucket K V} (member : b ∈ ht.buckets) :
    ht.erase hc (.key b.address) =
      some (true, { ht with t := ht.t.map (List.filterMap (amend b.k fun _ => none)), s := ht.s - 1 }) := by
  have present : ht.contains hc b.k = true := by
    rw [contains, (find_eq_some wf).mpr ⟨member, rfl⟩]
    rfl
  unfold Hashtable.erase
  rw [deref_key wf member, Option.map_some, if_pos present, unlink_eq wf]

theorem treat_eq (visit : K → V → Option V) (holds : Represents hc ht m) {b : Bucket K V} (member : b ∈ ht.buckets)
    (ahead : ht.Ahead i rest) (gone : ∀ other ∈ rest, other.k ≠ b.k) :
    ∃ treated, ht.treat hc visit b = some treated ∧ treated.Ahead i rest ∧
      Represents hc treated (Function.update m b.k ((m b.k).bind (visit b.k))) := by
  have held : m b.k = some b.v := (holds.maps b.k b.v).mpr ⟨b, member, rfl, rfl⟩
  unfold treat
  rw [held, Option.bind_some]
  cases visit b.k b.v with
  | some v =>
      refine ⟨ht.write b.address v, rfl, ?_, holds.write member v⟩
      rw [write_eq holds.wf member]
      exact ahead.amended gone ht.s
  | none =>
      have erased := erase_key holds.wf member
      obtain ⟨after, done, represents⟩ := holds.erase (deref_key holds.wf member)
      rw [erased] at done
      have this := congrArg Prod.snd (Option.some.inj done)
      dsimp only at this
      rw [← this] at represents
      dsimp only
      rw [erased]
      exact ⟨_, rfl, ahead.amended gone _, represents⟩

/-- A pass over the rest of the table gives each bucket once, never reads freed memory, and ends. -/
theorem pass_eq (visit : K → V → Option V) {fuel : Nat} (holds : Represents hc ht m) (ahead : ht.Ahead i rest)
    (enough : rest.length < fuel) :
    ∃ final, pass hc visit fuel ht i = some (rest.map fun b => (b.k, b.v), final) ∧
      Represents hc final fun k => if k ∈ rest.map Bucket.k then (m k).bind (visit k) else m k := by
  induction rest generalizing fuel ht i m with
  | nil =>
      obtain ⟨fuel, rfl⟩ := Nat.exists_eq_succ_of_ne_zero (Nat.ne_of_gt enough)
      obtain ⟨i', found, -⟩ := next_eq holds.wf ahead
      refine ⟨ht, ?_, ?_⟩
      · rw [pass, found]
        rfl
      · simpa using holds
  | cons b rest ih =>
      obtain ⟨fuel, rfl⟩ := Nat.exists_eq_succ_of_ne_zero (Nat.ne_of_gt (Nat.zero_lt_of_lt enough))
      obtain ⟨i', found, forth⟩ := next_eq holds.wf ahead
      have distinct := holds.wf.keys.sublist (ahead.sublist.map Bucket.k)
      rw [List.map_cons, List.nodup_cons] at distinct
      have gone : ∀ other ∈ rest, other.k ≠ b.k := fun other member same =>
        distinct.1 (List.mem_map.mpr ⟨other, member, same⟩)
      have member := ahead.sublist.subset List.mem_cons_self
      obtain ⟨treated, done, ahead', holds'⟩ := treat_eq visit holds member (forth (List.cons_ne_nil b rest)) gone
      obtain ⟨final, passed, represents⟩ := ih holds' ahead' (Nat.lt_of_succ_lt_succ enough)
      refine ⟨final, ?_, ?_⟩
      · rw [pass, found]
        change (ht.treat hc visit b).bind _ = _
        rw [done, Option.bind_some]
        change (pass hc visit fuel treated i').bind _ = _
        rw [passed]
        rfl
      · convert represents using 2 with k
        by_cases this : k = b.k
        · subst this
          simp [distinct.1]
        · simp [this]

/-- A pass from the beginning goes over the whole table. -/
theorem pass_begin (visit : K → V → Option V) {fuel : Nat} (holds : Represents hc ht m) (enough : ht.size < fuel) :
    ∃ final, ht.pass hc visit fuel ht.begin = some (ht.buckets.map fun b => (b.k, b.v), final) ∧
      Represents hc final fun k => (m k).bind (visit k) := by
  have longer : ht.buckets.length < fuel := lt_of_eq_of_lt holds.wf.counted.symm enough
  obtain ⟨final, passed, represents⟩ := pass_eq visit holds (ahead_begin holds.wf) longer
  have everywhere : (fun k => if k ∈ ht.buckets.map Bucket.k then (m k).bind (visit k) else m k) =
      fun k => (m k).bind (visit k) := by
    funext k
    by_cases there : k ∈ ht.buckets.map Bucket.k
    · rw [if_pos there]
    · have none : m k = Option.none := Option.not_isSome_iff_eq_none.mp (mt holds.maps.isSome_iff.mp there)
      rw [if_neg there, none, Option.bind_none]
  rw [everywhere] at represents
  exact ⟨final, passed, represents⟩

end Visits

end Hashtable

end ZeroTierNode

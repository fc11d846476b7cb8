import Mathlib.Data.Option.Basic
import ZeroTierNode.Hashtable
import ZeroTierNode.Library.Runs

/-!
Hash tables against finite maps. A program holds tables under names, and changes
them with the members of `Hashtable`; next to each table stands the map that it is
meant to be.
-/

namespace ZeroTierNode.Hashtable
open Library.Runs

variable {K V : Type*}

/-- Calls on one table. Each says whether `_grow` gets memory, by the number of entries. -/
inductive Call (K V : Type*) where
  | set (malloc : Nat → Bool) (k : K) (v : V)
  /-- `operator[]`, and what is made of the value. -/
  | index (malloc : Nat → Bool) (k : K) (change : V → V)
  /-- The key may be passed as a reference to the one in the table. -/
  | erase (k : K) (own : Bool)
  | clear
  /-- A pass with an iterator that leaves a value in each entry, or erases it by the key it was given. -/
  | iterate (visit : K → V → Option V)

/-- What a program does with its tables. -/
inductive Op (K V : Type*) where
  | construct (name : Nat) (bc : { bc : Nat // 0 < bc })
  | copy (name source : Nat)
  | assign (malloc : Nat → Bool) (name source : Nat)
  | call (name : Nat) (call : Call K V)
  | destroy (name : Nat)

/-- The tables of a program, and the maps they stand for. -/
structure State (K V : Type*) where
  tables : Nat → Option (Hashtable K V)
  maps : Nat → Option (K → Option V)

/-- No tables. -/
def State.start : State K V := ⟨fun _ => none, fun _ => none⟩

section Steps

variable [DecidableEq K] [Inhabited V] (hc : K → Nat)

/-- A reference to the key in the table, where there is one. -/
def refTo (ht : Hashtable K V) (k : K) (own : Bool) : Ref K :=
  if own then ((ht.find hc k).map fun b => Ref.key b.address).getD (.value k) else .value k

/-- The table after a call; `none` when it has read freed memory. -/
def Call.run (ht : Hashtable K V) : Call K V → Option (Hashtable K V)
  | .set malloc k v => some (ht.set hc malloc k v)
  | .index malloc k change => some (ht.index hc malloc k change)
  | .erase k own => (ht.erase hc (ht.refTo hc k own)).map Prod.snd
  | .clear => some ht.clear
  | .iterate visit => (ht.pass hc visit (ht.size + 1) ht.begin).map Prod.snd

/-- The map after a call. -/
def Call.apply (m : K → Option V) : Call K V → K → Option V
  | .set _ k v => Function.update m k (some v)
  | .index _ k change => Function.update m k (some (change ((m k).getD default)))
  | .erase k _ => Function.update m k none
  | .clear => fun _ => none
  | .iterate visit => fun k => (m k).bind (visit k)

def stepTables (tables : Nat → Option (Hashtable K V)) : Op K V → Nat → Option (Hashtable K V)
  | .construct name bc => Function.update tables name (some (ofCapacity bc))
  | .copy name source =>
      match tables source with
      | some ht => Function.update tables name (some ht.copy)
      | none => tables
  | .assign malloc name source =>
      match tables name with
      | some ht =>
          let cleared := Function.update tables name (some ht.clear)
          match cleared source with
          | some source => Function.update tables name (some (ht.clear.assign hc malloc source))
          | none => tables
      | none => tables
  | .call name call => Function.update tables name ((tables name).bind fun ht => call.run hc ht)
  | .destroy name => Function.update tables name none

def stepMaps (maps : Nat → Option (K → Option V)) : Op K V → Nat → Option (K → Option V)
  | .construct name _ => Function.update maps name (some fun _ => none)
  | .copy name source =>
      match maps source with
      | some m => Function.update maps name (some m)
      | none => maps
  | .assign _ name source =>
      match maps name, maps source with
      | some _, some m => Function.update maps name (some m)
      | _, _ => maps
  | .call name call => Function.update maps name ((maps name).map call.apply)
  | .destroy name => Function.update maps name none

def step (s : State K V) (op : Op K V) : State K V := ⟨stepTables hc s.tables op, stepMaps s.maps op⟩

end Steps

section Meaning

variable [DecidableEq K] (hc : K → Nat)

/-- What the members that only read show of a table is the map. -/
structure Shows (ht : Hashtable K V) (m : K → Option V) : Prop where
  get : ∀ k, ht.get hc k = m k
  contains : ∀ k, ht.contains hc k = (m k).isSome
  keys : ht.keys.Nodup ∧ ∀ k, k ∈ ht.keys ↔ (m k).isSome = true
  size : ht.size = ht.keys.length
  entries : ht.entries.map Prod.fst = ht.keys ∧ ∀ k v, (k, v) ∈ ht.entries ↔ m k = some v

/-- What is asked of a table: that it shows the map, that `erase` tells whether the key was there, and that a pass
visits every entry once, whatever is erased in it. -/
structure Behaves (ht : Hashtable K V) (m : K → Option V) : Prop where
  shows_map : Shows hc ht m
  erase : ∀ ref k, ht.deref ref = some k → ∃ after, ht.erase hc ref = some ((m k).isSome, after)
  pass : ∀ visit fuel, ht.size < fuel → ∃ visited final, ht.pass hc visit fuel ht.begin = some (visited, final) ∧
    (visited.map Prod.fst).Nodup ∧ (∀ k v, (k, v) ∈ visited ↔ m k = some v) ∧
      Shows hc final fun k => (m k).bind (visit k)

/-- Every table is the map it stands for. -/
def Refines (s : State K V) : Prop := ∀ name, Option.Rel (Behaves hc) (s.tables name) (s.maps name)

/-- No table that holds something is assigned to itself. -/
def NotItself (s : State K V) : Op K V → Prop
  | .assign _ name source => name = source → ∀ ht, s.tables name = some ht → ht.size = 0
  | _ => True

/-- All tables are well formed. -/
def Sound (s : State K V) : Prop := ∀ name ht, s.tables name = some ht → WellFormed hc ht

end Meaning

section Tables

variable [DecidableEq K] {hc : K → Nat} {ht : Hashtable K V} {m : K → Option V}

theorem Represents.shows (holds : Represents hc ht m) : Shows hc ht m where
  get := get_eq holds.wf holds.maps
  contains := contains_eq holds.wf holds.maps
  keys := by
    rw [keys_eq holds.wf]
    exact ⟨holds.wf.keys, fun k => holds.maps.isSome_iff.symm⟩
  size := by
    rw [keys_eq holds.wf, List.length_map]
    exact holds.wf.counted
  entries := by
    rw [keys_eq holds.wf, entries_eq holds.wf, List.map_map]
    refine ⟨rfl, fun k v => ?_⟩
    simp [holds.maps k v]

theorem Represents.behaves (holds : Represents hc ht m) : Behaves hc ht m where
  shows_map := holds.shows
  erase ref k refers := by
    obtain ⟨after, erased, -⟩ := holds.erase refers
    exact ⟨after, erased⟩
  pass visit fuel enough := by
    obtain ⟨final, passed, represents⟩ := pass_begin visit holds enough
    refine ⟨ht.buckets.map fun b => (b.k, b.v), final, passed, ?_, ?_, represents.shows⟩
    · rw [List.map_map]
      exact holds.wf.keys
    · intro k v
      simp [holds.maps k v]

/-- A well-formed table behaves like the map that `get` shows, and like no other. -/
theorem behaves_iff (wf : WellFormed hc ht) : Behaves hc ht m ↔ Represents hc ht m := by
  constructor
  · intro behaves
    have same : ht.get hc = m := funext behaves.shows_map.get
    exact same ▸ wf.represents
  · exact Represents.behaves

theorem deref_refTo (wf : WellFormed hc ht) (k : K) (own : Bool) : ht.deref (ht.refTo hc k own) = some k := by
  unfold refTo
  cases own with
  | false => rfl
  | true =>
      cases found : ht.find hc k with
      | none => rfl
      | some b => exact (deref_key wf (mem_of_find found)).trans (congrArg some (key_of_find found))

/-- Each call does to the table what it does to the map. -/
theorem Represents.call [Inhabited V] (holds : Represents hc ht m) (call : Call K V) :
    ∃ after, call.run hc ht = some after ∧ Represents hc after (call.apply m) := by
  cases call with
  | set malloc k v => exact ⟨_, rfl, holds.set malloc k v⟩
  | index malloc k change => exact ⟨_, rfl, holds.index malloc k change⟩
  | erase k own =>
      obtain ⟨after, erased, represents⟩ := holds.erase (deref_refTo holds.wf k own)
      exact ⟨after, by rw [Call.run, erased, Option.map_some], represents⟩
  | clear => exact ⟨_, rfl, holds.wf.represents_clear⟩
  | iterate visit =>
      obtain ⟨final, passed, represents⟩ := pass_begin visit holds (Nat.lt_succ_self ht.size)
      exact ⟨final, by rw [Call.run, passed, Option.map_some], represents⟩

end Tables

/-- Every table is well formed and holds the map it stands for. -/
def Simulates (hc : K → Nat) (s : State K V) : Prop :=
  ∀ name, Option.Rel (Represents hc) (s.tables name) (s.maps name)

theorem rel_congr {α β : Type*} {R R' : α → β → Prop} {a : Option α} {b : Option β}
    (same : ∀ x y, a = some x → (R x y ↔ R' x y)) : Option.Rel R a b ↔ Option.Rel R' a b := by
  cases a with
  | none => cases b <;> simp
  | some x =>
      cases b with
      | none => simp
      | some y => simpa using same x y rfl

theorem rel_cases {α β : Type*} {R : α → β → Prop} {a : Option α} {b : Option β} (rel : Option.Rel R a b) :
    (a = none ∧ b = none) ∨ ∃ x y, a = some x ∧ b = some y ∧ R x y := by
  cases rel with
  | none => exact .inl ⟨rfl, rfl⟩
  | some related => exact .inr ⟨_, _, rfl, rfl, related⟩

theorem rel_update {α β : Type*} {R : α → β → Prop} {f : Nat → Option α} {g : Nat → Option β}
    (rel : ∀ name, Option.Rel R (f name) (g name)) (name : Nat) {a : Option α} {b : Option β} (new : Option.Rel R a b)
    (other : Nat) : Option.Rel R (Function.update f name a other) (Function.update g name b other) := by
  by_cases this : other = name
  · rw [this, Function.update_self, Function.update_self]
    exact new
  · rw [Function.update_of_ne this, Function.update_of_ne this]
    exact rel other

/-- Only an empty table can be cleared unnoticed. -/
theorem Represents.clear_iff {hc : K → Nat} {ht : Hashtable K V} {m : K → Option V} (holds : Represents hc ht m) :
    Represents hc ht.clear m ↔ ht.size = 0 := by
  constructor
  · intro cleared
    have none : ht.buckets = [] := by
      apply List.eq_nil_iff_forall_not_mem.mpr
      intro b member
      obtain ⟨other, there, -⟩ := (cleared.maps b.k b.v).mp ((holds.maps b.k b.v).mpr ⟨b, member, rfl, rfl⟩)
      rw [buckets_clear holds.wf] at there
      exact absurd there List.not_mem_nil
    exact holds.wf.counted.trans (congrArg List.length none)
  · intro empty
    have unchanged : ht.clear = ht := if_pos empty
    rwa [unchanged]

section Runs

variable {hc : K → Nat} {s : State K V}

theorem Simulates.sound (simulates : Simulates hc s) : Sound hc s := by
  intro name ht held
  have here := simulates name
  rw [held] at here
  generalize s.maps name = m at here
  cases here with
  | some represents => exact represents.wf

variable [DecidableEq K]

theorem Sound.simulates (sound : Sound hc s) :
    Simulates hc ⟨s.tables, fun name => (s.tables name).map (Hashtable.get hc)⟩ := by
  intro name
  dsimp only
  cases held : s.tables name with
  | none => exact Option.Rel.none
  | some ht => exact Option.Rel.some (sound name ht held).represents

theorem refines_iff (sound : Sound hc s) : Refines hc s ↔ Simulates hc s := by
  apply forall_congr'
  intro name
  apply rel_congr
  intro ht m held
  exact behaves_iff (sound name ht held)

variable [Inhabited V]

/-- Assigned to itself, a table is cleared, and then found empty. -/
theorem stepTables_assign_self (malloc : Nat → Bool) {tables : Nat → Option (Hashtable K V)} {name : Nat}
    {ht : Hashtable K V} (target : tables name = some ht) :
    stepTables hc tables (.assign malloc name name) = Function.update tables name (some ht.clear) := by
  have nothing : ht.clear.assign hc malloc ht.clear = ht.clear := if_pos size_clear
  unfold stepTables
  dsimp only
  rw [target]
  dsimp only
  rw [Function.update_self]
  dsimp only
  rw [nothing]

theorem stepTables_assign_other (malloc : Nat → Bool) {tables : Nat → Option (Hashtable K V)} {name source : Nat}
    {ht from_ : Hashtable K V} (target : tables name = some ht) (other : name ≠ source)
    (found : tables source = some from_) :
    stepTables hc tables (.assign malloc name source) =
      Function.update tables name (some (ht.clear.assign hc malloc from_)) := by
  unfold stepTables
  dsimp only
  rw [target]
  dsimp only
  rw [Function.update_of_ne other.symm, found]

theorem Simulates.step_iff (simulates : Simulates hc s) (op : Op K V) :
    Simulates hc (step hc s op) ↔ NotItself s op := by
  cases op with
  | construct name bc =>
      exact iff_of_true (rel_update simulates name (.some (represents_ofCapacity bc.2))) trivial
  | copy name source =>
      apply iff_of_true _ trivial
      unfold Simulates Hashtable.step stepTables stepMaps
      dsimp only
      rcases rel_cases (simulates source) with ⟨found, held⟩ | ⟨ht, m, found, held, represents⟩
      · rw [found, held]
        exact simulates
      · rw [found, held]
        exact rel_update simulates name (.some represents.copy)
  | assign malloc name source =>
      rcases rel_cases (simulates name) with ⟨target, old⟩ | ⟨ht, m, target, old, represents⟩
      · have unchanged : Hashtable.step hc s (.assign malloc name source) = s := by
          unfold Hashtable.step stepTables stepMaps
          dsimp only
          rw [target, old]
        rw [unchanged]
        apply iff_of_true simulates
        intro _ ht held
        rw [target] at held
        cases held
      · by_cases itself : name = source
        · subst itself
          have same : stepMaps s.maps (.assign malloc name name) = Function.update s.maps name (some m) := by
            unfold stepMaps
            dsimp only
            rw [old]
          have next : Hashtable.step hc s (.assign malloc name name) =
              ⟨Function.update s.tables name (some ht.clear), Function.update s.maps name (some m)⟩ := by
            rw [Hashtable.step, stepTables_assign_self malloc target, same]
          rw [next]
          constructor
          · intro kept _ ht' held
            rw [target] at held
            rw [← Option.some.inj held]
            have here := kept name
            dsimp only at here
            rw [Function.update_self, Function.update_self] at here
            cases here with
            | some cleared => exact represents.clear_iff.mp cleared
          · intro empty
            exact rel_update simulates name (.some (represents.clear_iff.mpr (empty rfl ht target)))
        · apply iff_of_true _ fun wrong => absurd wrong itself
          rcases rel_cases (simulates source) with ⟨found, held⟩ | ⟨from_, m', found, held, represents'⟩
          · have unchanged : Hashtable.step hc s (.assign malloc name source) = s := by
              unfold Hashtable.step stepTables stepMaps
              dsimp only
              rw [target, old, held]
              dsimp only
              rw [Function.update_of_ne (Ne.symm itself), found]
            rw [unchanged]
            exact simulates
          · have same : stepMaps s.maps (.assign malloc name source) = Function.update s.maps name (some m') := by
              unfold stepMaps
              dsimp only
              rw [old, held]
            have next : Hashtable.step hc s (.assign malloc name source) =
                ⟨Function.update s.tables name (some (ht.clear.assign hc malloc from_)),
                  Function.update s.maps name (some m')⟩ := by
              rw [Hashtable.step, stepTables_assign_other malloc target itself found, same]
            rw [next]
            exact rel_update simulates name (.some (represents_assign represents.wf represents' malloc))
  | call name call =>
      apply iff_of_true _ trivial
      apply rel_update simulates name
      have here := simulates name
      generalize s.tables name = ht at here
      generalize s.maps name = m at here
      cases here with
      | none => exact .none
      | some represents =>
          obtain ⟨after, done, kept⟩ := represents.call call
          rw [Option.bind_some, done, Option.map_some]
          exact .some kept
  | destroy name => exact iff_of_true (rel_update simulates name .none) trivial

theorem Sound.step (sound : Sound hc s) (op : Op K V) : Sound hc (step hc s op) := by
  have next := sound.simulates.step_iff op
  by_cases ok : NotItself (⟨s.tables, fun name => (s.tables name).map (Hashtable.get hc)⟩ : State K V) op
  · exact fun name => (next.mpr ok).sound name
  · cases op with
    | assign malloc name source =>
        rw [NotItself, Classical.not_imp] at ok
        obtain ⟨rfl, full⟩ := ok
        rw [not_forall] at full
        obtain ⟨ht, full⟩ := full
        rw [Classical.not_imp] at full
        intro other ht' held
        unfold Hashtable.step at held
        dsimp only at held
        rw [stepTables_assign_self malloc full.1] at held
        by_cases this : other = name
        · rw [this, Function.update_self] at held
          exact Option.some.inj held ▸ (sound name ht full.1).clear
        · rw [Function.update_of_ne this] at held
          exact sound other ht' held
    | construct name bc => exact absurd trivial ok
    | copy name source => exact absurd trivial ok
    | call name call => exact absurd trivial ok
    | destroy name => exact absurd trivial ok

end Runs

/-- Tables are finite maps in every state of a run exactly if no table that holds something is assigned to itself. -/
theorem hashtable_refines_iff [DecidableEq K] [Inhabited V] (hc : K → Nat) (ops : List (Op K V)) :
    Throughout (step hc) (Refines hc) State.start ops ↔ Along (step hc) NotItself State.start ops := by
  have none : Sound hc (State.start : State K V) := fun _ _ held => nomatch held
  apply throughout_iff_along_of_invariant (fun _ op sound => sound.step op) _ none
  · exact fun _ => Option.Rel.none
  · intro s op sound refines
    rw [refines_iff (sound.step op), ((refines_iff sound).mp refines).step_iff]

/-- A table with one entry, assigned to itself. -/
def assignedToItself : List (Op Nat Nat) :=
  [.construct 0 ⟨1, by decide⟩, .call 0 (.set (fun _ => true) 1 2), .assign (fun _ => true) 0 0]

/-- The entry is gone. -/
theorem self_assignment_clears :
    ¬ ∀ (hc : Nat → Nat) (ops : List (Op Nat Nat)), Throughout (step hc) (Refines hc) State.start ops := by
  intro always
  rcases rel_cases ((always id assignedToItself).last 0) with ⟨gone, -⟩ | ⟨ht, m, held, meant, behaves⟩
  · cases gone
  · have shown := behaves.shows_map.get 1
    rw [← Option.some.inj held, ← Option.some.inj meant] at shown
    exact absurd shown (by decide)

end ZeroTierNode.Hashtable

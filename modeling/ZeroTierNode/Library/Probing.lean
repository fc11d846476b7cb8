import Mathlib.Algebra.Group.Nat.Defs
import Mathlib.Data.List.Basic

/-!
Linear probing with a counter that wraps around: the elements of an array are tried
one after another, from any start, until one is found that is not taken yet.
-/

namespace ZeroTierNode.Library.Probing

variable {α : Type*} [DecidableEq α] {w : Nat}

/-- Try the elements whose indexes are the counter modulo `n`; none after `fuel` tries, or if `n` is zero. -/
def probe (xs taken : List α) (n : Nat) : Nat → BitVec w → Option α
  | 0, _ => none
  | fuel + 1, counter =>
      if n = 0 then none
      else (xs[counter.toNat % n]?).bind fun x => if x ∈ taken then probe xs taken n fuel (counter + 1) else some x

/-- As long as the counter does not start again at zero, every index is reached in one round. -/
theorem reached_before_wrap (counter : BitVec w) {n target : Nat} (inside : target < n)
    (straight : counter.toNat + n ≤ 2 ^ w) :
    ∃ tries < n, (counter + BitVec.ofNat w tries).toNat % n = target := by
  have positive : 0 < n := Nat.zero_lt_of_lt inside
  have first : counter.toNat % n < n := Nat.mod_lt _ positive
  have short : (target + n - counter.toNat % n) % n < n := Nat.mod_lt _ positive
  refine ⟨(target + n - counter.toNat % n) % n, short, ?_⟩
  have exactly : (counter + BitVec.ofNat w ((target + n - counter.toNat % n) % n)).toNat =
      counter.toNat + (target + n - counter.toNat % n) % n := by
    rw [BitVec.toNat_add, BitVec.toNat_ofNat, Nat.add_mod_mod]
    exact Nat.mod_eq_of_lt (by omega)
  calc (counter + BitVec.ofNat w ((target + n - counter.toNat % n) % n)).toNat % n
      = (counter.toNat % n + (target + n - counter.toNat % n)) % n := by
        rw [exactly, Nat.add_mod_mod, Nat.mod_add_mod]
    _ = (target + n) % n := by
        congr 1
        omega
    _ = target := by rw [Nat.add_mod_right, Nat.mod_eq_of_lt inside]

/-- From where the counter starts again at zero. -/
theorem toNat_restarted (counter : BitVec w) {i : Nat} (small : i < 2 ^ w) :
    (counter + BitVec.ofNat w (2 ^ w - counter.toNat + i)).toNat = i := by
  have below := counter.isLt
  have restarted : counter.toNat + (2 ^ w - counter.toNat + i) = i + 2 ^ w := by omega
  rw [BitVec.toNat_add, BitVec.toNat_ofNat, Nat.add_mod_mod, restarted, Nat.add_mod_right, Nat.mod_eq_of_lt small]

/-- Every index is reached, at the latest after the counter has started again at zero. -/
theorem counter_reaches (counter : BitVec w) {n target : Nat} (inside : target < n) (small : n ≤ 2 ^ w) :
    ∃ tries < 2 * n, (counter + BitVec.ofNat w tries).toNat % n = target := by
  by_cases straight : counter.toNat + n ≤ 2 ^ w
  · obtain ⟨tries, few, reached⟩ := reached_before_wrap counter inside straight
    exact ⟨tries, by omega, reached⟩
  · refine ⟨2 ^ w - counter.toNat + target, by omega, ?_⟩
    rw [toNat_restarted counter (by omega), Nat.mod_eq_of_lt inside]

theorem probe_succ {xs : List α} {counter : BitVec w} {x : α} (here : xs[counter.toNat % xs.length]? = some x)
    (taken : List α) (fuel : Nat) :
    probe xs taken xs.length (fuel + 1) counter =
      if x ∈ taken then probe xs taken xs.length fuel (counter + 1) else some x := by
  have positive : xs.length ≠ 0 := by
    intro empty
    rw [List.length_eq_zero_iff.mp empty] at here
    cases here
  rw [probe, if_neg positive, here, Option.bind_some]

/-- A probe gets no further than to an element that is not taken. -/
theorem probe_stops {xs taken : List α} {x : α} (fresh : x ∉ taken) (tries : Nat) (counter : BitVec w)
    (there : xs[(counter + BitVec.ofNat w tries).toNat % xs.length]? = some x) :
    ∃ found ∈ xs, found ∉ taken ∧ ∀ fuel, tries < fuel → probe xs taken xs.length fuel counter = some found := by
  induction tries generalizing counter with
  | zero =>
      have same : counter + BitVec.ofNat w 0 = counter := by simp
      rw [same] at there
      refine ⟨x, List.mem_of_getElem? there, fresh, ?_⟩
      intro fuel enough
      obtain ⟨rest, rfl⟩ := Nat.exists_eq_succ_of_ne_zero (Nat.ne_of_gt enough)
      rw [probe_succ there, if_neg fresh]
  | succ tries ih =>
      have positive : 0 < xs.length := List.length_pos_of_mem (List.mem_of_getElem? there)
      obtain ⟨y, here⟩ : ∃ y, xs[counter.toNat % xs.length]? = some y :=
        ⟨_, List.getElem?_eq_getElem (Nat.mod_lt counter.toNat positive)⟩
      by_cases met : y ∈ taken
      · have next : counter + 1 + BitVec.ofNat w tries = counter + BitVec.ofNat w (tries + 1) := by
          rw [BitVec.add_assoc, BitVec.ofNat_add, BitVec.add_comm (BitVec.ofNat w tries)]
          rfl
        obtain ⟨found, member, free, finds⟩ := ih (counter + 1) (by rw [next]; exact there)
        refine ⟨found, member, free, ?_⟩
        intro fuel enough
        obtain ⟨rest, rfl⟩ := Nat.exists_eq_succ_of_ne_zero (Nat.ne_of_gt (Nat.zero_lt_of_lt enough))
        rw [probe_succ here, if_pos met]
        exact finds rest (Nat.lt_of_succ_lt_succ enough)
      · refine ⟨_, List.mem_of_getElem? here, met, ?_⟩
        intro fuel enough
        obtain ⟨rest, rfl⟩ := Nat.exists_eq_succ_of_ne_zero (Nat.ne_of_gt (Nat.zero_lt_of_lt enough))
        rw [probe_succ here, if_neg met]

/-- As long as something is not taken, a probe finds such an element, and further tries change nothing. -/
theorem probe_finds {xs taken : List α} {x : α} (listed : x ∈ xs) (fresh : x ∉ taken) (small : xs.length ≤ 2 ^ w)
    (counter : BitVec w) :
    ∃ found ∈ xs, found ∉ taken ∧
      ∀ fuel, 2 * xs.length ≤ fuel → probe xs taken xs.length fuel counter = some found := by
  obtain ⟨target, inside, there⟩ := List.getElem_of_mem listed
  obtain ⟨tries, few, index⟩ := counter_reaches counter inside small
  have reached : xs[(counter + BitVec.ofNat w tries).toNat % xs.length]? = some x := by
    rw [index, List.getElem?_eq_getElem inside, there]
  obtain ⟨found, member, free, finds⟩ := probe_stops fresh tries counter reached
  exact ⟨found, member, free, fun fuel enough => finds fuel (by omega)⟩

section Walk

variable {α : Type*} {w : Nat} {p : α → Bool} {xs : List α}

/-- Try the elements in the same way for one that is wanted. -/
def seek (p : α → Bool) (xs : List α) : Nat → BitVec w → Option α
  | 0, _ => none
  | fuel + 1, counter =>
      (xs[counter.toNat % xs.length]?).bind fun x => if p x then some x else seek p xs fuel (counter + 1)

theorem seek_some {fuel : Nat} {counter : BitVec w} {x : α} (found : seek p xs fuel counter = some x) :
    x ∈ xs ∧ p x = true := by
  induction fuel generalizing counter with
  | zero => cases found
  | succ fuel ih =>
      obtain ⟨y, here, rest⟩ := Option.bind_eq_some_iff.mp found
      by_cases wanted : p y = true
      · rw [if_pos wanted, Option.some.injEq] at rest
        subst rest
        exact ⟨List.mem_of_getElem? here, wanted⟩
      · rw [if_neg wanted] at rest
        exact ih rest

theorem seek_isSome_iff (fuel : Nat) (counter : BitVec w) :
    (seek p xs fuel counter).isSome = true ↔
      ∃ tries < fuel, ∃ x, xs[(counter + BitVec.ofNat w tries).toNat % xs.length]? = some x ∧ p x = true := by
  induction fuel generalizing counter with
  | zero => simp [seek]
  | succ fuel ih =>
      have next (tries : Nat) : counter + BitVec.ofNat w (tries + 1) = counter + 1 + BitVec.ofNat w tries := by
        rw [BitVec.add_assoc, BitVec.ofNat_add, BitVec.add_comm (BitVec.ofNat w tries)]
        rfl
      have first : counter + BitVec.ofNat w 0 = counter := BitVec.add_zero counter
      rw [Nat.exists_lt_succ_left, first]
      simp only [next]
      rw [seek]
      cases here : xs[counter.toNat % xs.length]? with
      | none =>
          have empty : xs = [] := by
            by_contra nonempty
            rw [List.getElem?_eq_getElem (Nat.mod_lt _ (List.length_pos_of_ne_nil nonempty))] at here
            cases here
          simp [empty]
      | some y =>
          by_cases wanted : p y = true
          · simp [wanted]
          · simp only [Option.bind_some, if_neg wanted, ih]
            constructor
            · exact .inr
            · rintro (⟨x, same, right⟩ | later)
              · rw [← Option.some.inj same] at right
                exact absurd right wanted
              · exact later

/-- The counter starts again at zero, in general at another place than the one that is next. What lies behind what it
has reached by then, and behind what it still reaches, is left out. -/
def Skipped (counter : BitVec w) (n i : Nat) : Prop :=
  2 ^ w < counter.toNat + n ∧ (2 ^ w ≤ i ∨
    (n - (2 ^ w - counter.toNat) ≤ i ∧ 2 ^ w % n ≤ i ∧ i < n - (2 ^ w - counter.toNat - 2 ^ w % n)))

/-- The indexes in front of the point where the counter starts again. -/
theorem sub_mod_eq {total n j : Nat} (short : j < n) (inside : j ≤ total) :
    (total - j) % n = if j ≤ total % n then total % n - j else n + total % n - j := by
  have split := Nat.div_add_mod total n
  have below : total % n < n := Nat.mod_lt _ (Nat.zero_lt_of_lt short)
  by_cases near : j ≤ total % n
  · rw [if_pos near]
    calc (total - j) % n
        = (n * (total / n) + (total % n - j)) % n := by
          congr 1
          omega
      _ = total % n - j := by
          rw [Nat.mul_add_mod]
          exact Nat.mod_eq_of_lt (by omega)
  · rw [if_neg near]
    obtain ⟨q, rounds⟩ : ∃ q, total / n = q + 1 := by
      apply Nat.exists_eq_succ_of_ne_zero
      intro zero
      rw [zero] at split
      omega
    rw [rounds, Nat.mul_succ] at split
    calc (total - j) % n
        = (n * q + (n + total % n - j)) % n := by
          congr 1
          omega
      _ = n + total % n - j := by
          rw [Nat.mul_add_mod]
          exact Nat.mod_eq_of_lt (by omega)

/-- In as many tries as there are elements, every index is reached that is not skipped. -/
theorem reached_iff (counter : BitVec w) {n i : Nat} (inside : i < n) :
    (∃ tries < n, (counter + BitVec.ofNat w tries).toNat % n = i) ↔ ¬ Skipped counter n i := by
  have below := counter.isLt
  have straight {tries : Nat} (few : tries < 2 ^ w - counter.toNat) :
      (counter + BitVec.ofNat w tries).toNat = 2 ^ w - (2 ^ w - counter.toNat - tries) := by
    rw [BitVec.toNat_add, BitVec.toNat_ofNat, Nat.add_mod_mod, Nat.mod_eq_of_lt (by omega)]
    omega
  rcases Nat.lt_or_ge (2 ^ w) (counter.toNat + n) with wraps | short
  · rcases Nat.lt_or_ge (2 ^ w) n with long | fits
    · -- every number is reached, and is its own index
      have whole : 2 ^ w % n = 2 ^ w := Nat.mod_eq_of_lt long
      have skips : Skipped counter n i ↔ 2 ^ w ≤ i := by
        rw [Skipped, whole]
        omega
      rw [skips, Nat.not_le]
      constructor
      · intro ⟨tries, _, reached⟩
        have number := (counter + BitVec.ofNat w tries).isLt
        rwa [← reached, Nat.mod_eq_of_lt (by omega)]
      · intro number
        by_cases passed : counter.toNat ≤ i
        · refine ⟨i - counter.toNat, by omega, ?_⟩
          rw [straight (by omega), Nat.mod_eq_of_lt (by omega)]
          omega
        · refine ⟨2 ^ w - counter.toNat + i, by omega, ?_⟩
          rw [toNat_restarted counter number, Nat.mod_eq_of_lt inside]
    · have last : 2 ^ w % n < n := Nat.mod_lt _ (by omega)
      have reaches {j : Nat} (positive : 0 < j) (early : j ≤ 2 ^ w - counter.toNat) :
          ∃ tries < n, (counter + BitVec.ofNat w tries).toNat % n =
            if j ≤ 2 ^ w % n then 2 ^ w % n - j else n + 2 ^ w % n - j := by
        refine ⟨2 ^ w - counter.toNat - j, by omega, ?_⟩
        rw [straight (by omega), ← sub_mod_eq (by omega) (by omega)]
        congr 1
        omega
      constructor
      · rintro ⟨tries, few, reached⟩ ⟨-, skipped⟩
        rcases Nat.lt_or_ge tries (2 ^ w - counter.toNat) with early | late
        · rw [straight early, sub_mod_eq (by omega) (by omega)] at reached
          split at reached
          · omega
          · omega
        · obtain ⟨k, rfl⟩ := Nat.exists_eq_add_of_le late
          rw [toNat_restarted counter (by omega), Nat.mod_eq_of_lt (by omega)] at reached
          omega
      · intro free
        rcases Nat.lt_or_ge i (n - (2 ^ w - counter.toNat)) with front | back
        · refine ⟨2 ^ w - counter.toNat + i, by omega, ?_⟩
          rw [toNat_restarted counter (by omega), Nat.mod_eq_of_lt inside]
        · rcases Nat.lt_or_ge i (2 ^ w % n) with near | far
          · have reached := @reaches (2 ^ w % n - i) (by omega) (by omega)
            rwa [if_pos (by omega), Nat.sub_sub_self (Nat.le_of_lt near)] at reached
          · have behind : n - (2 ^ w - counter.toNat - 2 ^ w % n) ≤ i :=
              Nat.not_lt.mp fun within => free ⟨wraps, .inr ⟨back, far, within⟩⟩
            have reached := @reaches (n + 2 ^ w % n - i) (by omega) (by omega)
            rwa [if_neg (by omega), Nat.sub_sub_self (by omega)] at reached
  · exact iff_of_true (reached_before_wrap counter inside short) fun skipped => absurd skipped.1 (by omega)

end Walk

end ZeroTierNode.Library.Probing

import Mathlib.Algebra.Group.Nat.Defs
import Mathlib.Algebra.Order.Group.Nat
import Mathlib.Logic.Function.Basic

/-!
Quotas kept by counters of a fixed width. Items come with a key; the counter of the
key goes up with each of them, and an item is admitted while the counter is within
the limit. A counter that wraps around admits items again.
-/

namespace ZeroTierNode.Library.Quotas

variable {α κ : Type*} {w : Nat} [DecidableEq κ]

/-- The counters, and what was admitted. -/
structure Tally (α κ : Type*) (w : Nat) where
  count : κ → BitVec w
  admitted : List α

/-- Count an item and admit it if the count is within the limit. -/
def Tally.take (limit : Nat) (key : α → κ) (t : Tally α κ w) (a : α) : Tally α κ w where
  count := Function.update t.count (key a) (t.count (key a) + 1)
  admitted := if (t.count (key a) + 1).toNat ≤ limit then t.admitted ++ [a] else t.admitted

def Tally.start : Tally α κ w := ⟨fun _ => 0, []⟩

/-- How many of `n` items with one key are admitted. -/
def granted (w limit : Nat) : Nat → Nat
  | 0 => 0
  | n + 1 => granted w limit n + if (n + 1) % 2 ^ w ≤ limit then 1 else 0

theorem granted_le_succ (limit n : Nat) : granted w limit n ≤ granted w limit (n + 1) := Nat.le_add_right _ _

theorem granted_mono (limit : Nat) {m n : Nat} (less : m ≤ n) : granted w limit m ≤ granted w limit n := by
  induction less with
  | refl => exact Nat.le_refl _
  | step _ ih => exact ih.trans (granted_le_succ limit _)

/-- Before the counter wraps around, the limit is kept. -/
theorem granted_of_lt (limit : Nat) {n : Nat} (small : n < 2 ^ w) : granted w limit n = min n limit := by
  induction n with
  | zero => exact (Nat.zero_min limit).symm
  | succ n ih =>
      rw [granted, ih (Nat.lt_of_succ_lt small), Nat.mod_eq_of_lt small]
      split_ifs with within
      · omega
      · omega

/-- The limit is kept exactly as long as the counter has not come back to zero. -/
theorem granted_le_iff {limit : Nat} (narrow : limit < 2 ^ w) (n : Nat) :
    granted w limit n ≤ limit ↔ n < 2 ^ w := by
  constructor
  · intro kept
    by_contra wrapped
    have positive : 0 < 2 ^ w := Nat.two_pow_pos w
    have before : granted w limit (2 ^ w - 1) = limit := by
      rw [granted_of_lt limit (by omega)]
      omega
    have again : granted w limit (2 ^ w) = limit + 1 := by
      have last : 2 ^ w = 2 ^ w - 1 + 1 := by omega
      rw [last, granted, before, ← last, Nat.mod_self, if_pos (Nat.zero_le limit)]
    have more := granted_mono (w := w) limit (Nat.le_of_not_lt wrapped)
    omega
  · intro small
    rw [granted_of_lt limit small]
    exact Nat.min_le_right n limit

variable {limit : Nat} {key : α → κ}

section Step

variable {t : Tally α κ w} {a : α} {k : κ}

theorem count_take_of_eq (here : key a = k) : (t.take limit key a).count k = t.count k + 1 := by
  subst here
  exact Function.update_self _ _ _

theorem count_take_of_ne (elsewhere : key a ≠ k) : (t.take limit key a).count k = t.count k :=
  Function.update_of_ne (Ne.symm elsewhere) _ _

theorem admitted_take_of_eq (here : key a = k) :
    ((t.take limit key a).admitted.filter fun a => key a = k).length =
      (t.admitted.filter fun a => key a = k).length + if (t.count k + 1).toNat ≤ limit then 1 else 0 := by
  subst here
  simp only [Tally.take]
  split_ifs with within
  · simp
  · rfl

theorem admitted_take_of_ne (elsewhere : key a ≠ k) :
    ((t.take limit key a).admitted.filter fun a => key a = k) = t.admitted.filter fun a => key a = k := by
  simp only [Tally.take]
  split_ifs with within
  · simp [elsewhere]
  · rfl

end Step

/-- What a stream of items does to the counter of a key, and to what is admitted under it. -/
theorem take_run (t : Tally α κ w) (items : List α) (k : κ) (n : Nat) (counted : t.count k = BitVec.ofNat w n)
    (before : (t.admitted.filter fun a => key a = k).length = granted w limit n) :
    ((items.foldl (Tally.take limit key) t).admitted.filter fun a => key a = k).length =
      granted w limit (n + (items.filter fun a => key a = k).length) := by
  induction items generalizing t n with
  | nil => exact before
  | cons a items ih =>
      rw [List.foldl_cons]
      by_cases here : key a = k
      · have next : BitVec.ofNat w n + 1 = BitVec.ofNat w (n + 1) := (BitVec.ofNat_add n 1).symm
        have later := ih (t.take limit key a) (n + 1) (by rw [count_take_of_eq here, counted, next])
          (by rw [admitted_take_of_eq here, before, counted, next, BitVec.toNat_ofNat, granted])
        rw [later, List.filter_cons_of_pos (by simpa using here), List.length_cons]
        congr 1
        omega
      · rw [List.filter_cons_of_neg (by simpa using here)]
        exact ih (t.take limit key a) n (by rw [count_take_of_ne here, counted])
          (by rw [admitted_take_of_ne here, before])

/-- From empty counters, a key gets no more than its quota exactly if its items do not make the counter wrap around. -/
theorem within_quota_iff (narrow : limit < 2 ^ w) (items : List α) (k : κ) :
    ((items.foldl (Tally.take limit key) (Tally.start : Tally α κ w)).admitted.filter fun a => key a = k).length ≤ limit ↔
      (items.filter fun a => key a = k).length < 2 ^ w := by
  rw [take_run Tally.start items k 0 rfl rfl, Nat.zero_add]
  exact granted_le_iff narrow _

end ZeroTierNode.Library.Quotas

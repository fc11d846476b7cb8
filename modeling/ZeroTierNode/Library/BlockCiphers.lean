import Mathlib.Data.Fintype.EquivFin

/-!
Maps of words that respect the exclusive or, and ciphers that alternate a substitution,
such a map and a round key. The inverse of one may use its own rounds in the same order,
with round keys that are mapped beforehand.
-/

namespace ZeroTierNode.Library.BlockCiphers

section Additive

variable {n m k : Nat}

/-- The map respects the exclusive or. -/
def Additive (g : BitVec n → BitVec m) : Prop := ∀ a b, g (a ^^^ b) = g a ^^^ g b

theorem Additive.zero {g : BitVec n → BitVec m} (additive : Additive g) : g 0 = 0 := by
  calc g 0 = g (0 ^^^ 0) := congrArg g BitVec.xor_self.symm
    _ = g 0 ^^^ g 0 := additive 0 0
    _ = 0 := BitVec.xor_self

theorem Additive.comp {g : BitVec m → BitVec k} {h : BitVec n → BitVec m} (outer : Additive g) (inner : Additive h) :
    Additive fun w => g (h w) := by
  intro a b
  show g (h (a ^^^ b)) = _
  rw [inner, outer]

theorem Additive.xor {g h : BitVec n → BitVec m} (first : Additive g) (second : Additive h) :
    Additive fun w => g w ^^^ h w := by
  intro a b
  show g (a ^^^ b) ^^^ h (a ^^^ b) = (g a ^^^ h a) ^^^ (g b ^^^ h b)
  rw [first, second]
  ac_rfl

theorem additive_id : Additive fun w : BitVec n => w := fun _ _ => rfl

theorem additive_and (mask : BitVec n) : Additive fun w => w &&& mask := by
  intro a b
  ext i inside
  simp [Bool.and_xor_distrib_right]

theorem additive_shiftLeft (count : Nat) : Additive fun w : BitVec n => w <<< count :=
  fun a b => BitVec.shiftLeft_xor_distrib a b count

theorem additive_shiftRight (count : Nat) : Additive fun w : BitVec n => w >>> count :=
  fun a b => BitVec.ushiftRight_xor_distrib a b count

theorem additive_rotateRight (count : Nat) : Additive fun w : BitVec n => w.rotateRight count := by
  intro a b
  ext i inside
  simp only [BitVec.getElem_rotateRight, BitVec.getElem_xor]
  split <;> rfl

theorem additive_setWidth (wide : Nat) : Additive fun w : BitVec n => w.setWidth wide := fun _ _ => BitVec.setWidth_xor

/-- The lowest `count` bits of a word, put together one by one. -/
def lowBits (w : BitVec n) : Nat → BitVec n
  | 0 => 0
  | i + 1 => lowBits w i ^^^ if w.getLsbD i then BitVec.twoPow n i else 0

theorem getLsbD_lowBits (w : BitVec n) (count j : Nat) :
    (lowBits w count).getLsbD j = (decide (j < count) && w.getLsbD j) := by
  induction count with
  | zero => simp [lowBits]
  | succ i ih =>
      rw [lowBits, BitVec.getLsbD_xor, ih]
      by_cases last : j = i
      · rw [last]
        cases bit : w.getLsbD i with
        | false => simp
        | true => simp [BitVec.lt_of_getLsbD bit]
      · have before : decide (j < i + 1) = decide (j < i) := decide_eq_decide.mpr (by omega)
        have other : (if w.getLsbD i then BitVec.twoPow n i else 0).getLsbD j = false := by
          split
          · rw [BitVec.getLsbD_twoPow, decide_eq_false (Ne.symm last), Bool.and_false]
          · exact BitVec.getLsbD_zero
        rw [before, other, Bool.xor_false]

theorem lowBits_all (w : BitVec n) : lowBits w n = w := by
  apply BitVec.eq_of_getLsbD_eq
  intro j inside
  rw [getLsbD_lowBits, decide_eq_true inside, Bool.true_and]

/-- An additive map is known by its values on single bits. -/
theorem Additive.ext {g h : BitVec n → BitVec m} (first : Additive g) (second : Additive h)
    (bits : ∀ i < n, g (BitVec.twoPow n i) = h (BitVec.twoPow n i)) (w : BitVec n) : g w = h w := by
  have parts : ∀ count ≤ n, g (lowBits w count) = h (lowBits w count) := by
    intro count inside
    induction count with
    | zero => exact first.zero.trans second.zero.symm
    | succ i ih =>
        rw [lowBits, first, second, ih (by omega)]
        split
        · rw [bits i (by omega)]
        · exact congrArg _ (first.zero.trans second.zero.symm)
  rw [← lowBits_all w]
  exact parts n le_rfl

end Additive

section Rounds

variable {S : Type*} (xor : S → S → S) (sub mix isub imix : S → S)

/-- The rounds with the keys `ks`, between the first key and the last round, which does not mix. -/
def encryptRounds (first last : S) (ks : List S) (x : S) : S :=
  xor (sub (ks.foldl (fun s k => xor (mix (sub s)) k) (xor x first))) last

/-- The same rounds turned round, with keys that come mapped by `imix`. -/
def decryptRounds (first last : S) (ks : List S) (y : S) : S :=
  xor (isub (ks.foldl (fun s k => xor (imix (isub s)) k) (xor y first))) last

variable {xor sub mix isub imix}

theorem unmixed_rounds (cancel : ∀ a b, xor (xor a b) b = a) (unsub : ∀ s, isub (sub s) = s)
    (unmix : ∀ s, imix (mix s) = s) (additive : ∀ a b, imix (xor a b) = xor (imix a) (imix b)) (ks : List S) (s : S) :
    (ks.reverse.map imix).foldl (fun s k => xor (imix (isub s)) k)
      (sub (ks.foldl (fun s k => xor (mix (sub s)) k) s)) = sub s := by
  induction ks generalizing s with
  | nil => rfl
  | cons k ks ih =>
      rw [List.reverse_cons, List.map_append, List.foldl_append, List.foldl_cons, ih]
      show xor (imix (isub (sub (xor (mix (sub s)) k)))) (imix k) = sub s
      rw [unsub, additive, unmix, cancel]

theorem decryptRounds_encryptRounds (cancel : ∀ a b, xor (xor a b) b = a) (unsub : ∀ s, isub (sub s) = s)
    (unmix : ∀ s, imix (mix s) = s) (additive : ∀ a b, imix (xor a b) = xor (imix a) (imix b))
    (first last : S) (ks : List S) (x : S) :
    decryptRounds xor isub imix last first (ks.reverse.map imix) (encryptRounds xor sub mix first last ks x) = x := by
  rw [decryptRounds, encryptRounds, cancel, unmixed_rounds cancel unsub unmix additive, unsub, cancel]

/-- On finitely many blocks an inverse on one side is one on the other. -/
theorem right_inverse [Finite S] {f g : S → S} (undone : ∀ x, g (f x) = x) (y : S) : f (g y) = y := by
  have onto : Function.Surjective f := Finite.surjective_of_injective (Function.LeftInverse.injective undone)
  obtain ⟨x, rfl⟩ := onto y
  rw [undone]

end Rounds

end ZeroTierNode.Library.BlockCiphers

import ZeroTierNode.Library.BackReferences

/-!
Code with pointers into two buffers, a source that it only reads and a memory that it writes. Every access is checked:
the code stops where it leaves a buffer, and where it copies between regions that overlap.
-/

namespace ZeroTierNode.Library.CheckedCode
open Library.Bytes Library.StreamBuffers Library.BackReferences

abbrev Code := StateT Memory Option

/-- From `m` the code comes to its end, with a value and a memory as `post` says. -/
def Meets {α : Type} (code : Code α) (m : Memory) (post : α → Memory → Prop) : Prop :=
  ∃ value left, code.run m = some (value, left) ∧ post value left

/-- A byte of the source. -/
def sourceByte (source : List Byte) (p : Nat) : Code Byte := StateT.lift source[p]?

/-- A byte of the memory, which has `size` bytes. -/
def load (size a : Nat) : Code Byte := fun m => if a < size then some (m a, m) else none

/-- Bytes stored from `a` on. -/
def store (size a : Nat) (bytes : Nat → Byte) (count : Nat) : Code Unit := fun m =>
  if a + count ≤ size then some ((), written a bytes count m) else none

/-- `memcpy` from the source. -/
def copyIn (source : List Byte) (size a p count : Nat) : Code Unit :=
  if p + count ≤ source.length then store size a (fun i => source.getD (p + i) 0) count else failure

/-- `memcpy` inside the memory. -/
def copyWithin (size a b count : Nat) : Code Unit := fun m =>
  if b + count ≤ size ∧ (b + count ≤ a ∨ a + count ≤ b) then store size a (fun i => m (b + i)) count m else none

/-- Eight bytes at a time, until the end is reached or passed. -/
def copyChunks (copy8 : Nat → Nat → Code Unit) (e : Nat) : Nat → Nat → Nat → Code Unit
  | 0, _, _ => failure
  | fuel + 1, d, s => do
      copy8 d s
      if d + 8 < e then copyChunks copy8 e fuel (d + 8) (s + 8)

/-- Bytes one at a time, until the end is reached. -/
def copyBytes (size e : Nat) : Nat → Nat → Nat → Code Unit
  | 0, _, _ => failure
  | fuel + 1, d, s =>
    if d < e then do
      let b ← load size s
      store size d (fun _ => b) 1
      copyBytes size e fuel (d + 1) (s + 1)
    else pure ()

section Rules

variable {α β : Type} {m : Memory} {post : α → Memory → Prop}

theorem Meets.mono {code : Code α} {other : α → Memory → Prop} (meets : Meets code m post)
    (weaker : ∀ value left, post value left → other value left) : Meets code m other := by
  obtain ⟨value, left, ran, holds⟩ := meets
  exact ⟨value, left, ran, weaker value left holds⟩

theorem meets_pure {value : α} (holds : post value m) : Meets (pure value) m post := ⟨value, m, rfl, holds⟩

theorem meets_bind {first : Code β} {next : β → Code α}
    (meets : Meets first m fun value left => Meets (next value) left post) : Meets (first >>= next) m post := by
  obtain ⟨value, left, ran, result, last, ran', holds⟩ := meets
  refine ⟨result, last, ?_, holds⟩
  rw [StateT.run_bind, ran]
  exact ran'

theorem meets_sourceByte {source : List Byte} {p : Nat} {post : Byte → Memory → Prop} (inside : p < source.length)
    (holds : post source[p] m) : Meets (sourceByte source p) m post := by
  refine ⟨source[p], m, ?_, holds⟩
  simp [sourceByte, StateT.lift, StateT.run, List.getElem?_eq_getElem inside]

theorem meets_load {size a : Nat} {post : Byte → Memory → Prop} (inside : a < size) (holds : post (m a) m) :
    Meets (load size a) m post := by
  refine ⟨m a, m, ?_, holds⟩
  rw [StateT.run, load, if_pos inside]

variable {post : Unit → Memory → Prop} {size a count : Nat}

theorem meets_store {bytes : Nat → Byte} (inside : a + count ≤ size) (holds : post () (written a bytes count m)) :
    Meets (store size a bytes count) m post := by
  refine ⟨(), _, ?_, holds⟩
  rw [StateT.run, store, if_pos inside]

theorem meets_copyIn {source : List Byte} {p : Nat} (readable : p + count ≤ source.length)
    (inside : a + count ≤ size) (holds : post () (written a (fun i => source.getD (p + i) 0) count m)) :
    Meets (copyIn source size a p count) m post := by
  rw [copyIn, if_pos readable]
  exact meets_store inside holds

theorem meets_copyWithin {b : Nat} (readable : b + count ≤ size) (inside : a + count ≤ size)
    (apart : b + count ≤ a ∨ a + count ≤ b) (holds : post () (written a (fun i => m (b + i)) count m)) :
    Meets (copyWithin size a b count) m post := by
  obtain ⟨value, left, ran, holds'⟩ : Meets (store size a (fun i => m (b + i)) count) m post := meets_store inside holds
  refine ⟨value, left, ?_, holds'⟩
  rw [StateT.run, copyWithin, if_pos ⟨readable, apart⟩]
  exact ran

end Rules

/-- From `d` to `e` each byte of `left` is the one `distance` before it, and `left` is as `m` before `d`. -/
structure Trails (m left : Memory) (distance d e : Nat) : Prop where
  before : ∀ x < d, left x = m x
  copied : ∀ x, d ≤ x → x < e → left x = left (x - distance)

section Chunks

variable {m : Memory} {size d e s fuel : Nat}

theorem trails_join {middle left : Memory} {distance b : Nat} (order : d ≤ b) (first : Trails m middle distance d b)
    (second : Trails middle left distance b e) : Trails m left distance d e where
  before := by
    intro x early
    rw [second.before x (by omega), first.before x early]
  copied := by
    intro x start upto
    by_cases early : x < b
    · rw [second.before x early, second.before (x - distance) (by omega), first.copied x start early]
    · exact second.copied x (by omega) upto

theorem Trails.shrink {left : Memory} {distance k : Nat} (trails : Trails m left distance d e) (less : k ≤ e) :
    Trails m left distance d k where
  before := trails.before
  copied := fun x start upto => trails.copied x start (by omega)

theorem Trails.repeats {left : Memory} {distance : Nat} (trails : Trails m left distance d e) (behind : 0 < distance) :
    Repeats left distance d e := by
  intro x start upto
  rw [if_neg (by omega), trails.copied x start upto]

/-- Bytes that do not overlap with those they are copied from. -/
theorem trails_written {distance count : Nat} (apart : count ≤ distance) (back : distance ≤ d) :
    Trails m (written d (fun i => m (d - distance + i)) count m) distance d (d + count) where
  before := fun x early => written_outside (Or.inl early)
  copied := by
    intro x start upto
    obtain ⟨i, rfl⟩ : ∃ i, x = d + i := ⟨x - d, by omega⟩
    rw [written_inside (by omega), written_outside (by omega)]
    congr 1
    omega

theorem meets_copyBytes {distance : Nat} (behind : 0 < distance) (back : distance ≤ d) (inside : e ≤ size)
    (enough : e < d + fuel) (turn : 0 < fuel) :
    Meets (copyBytes size e fuel d (d - distance)) m fun _ left => Trails m left distance d e := by
  induction fuel generalizing d m with
  | zero => omega
  | succ fuel ih =>
      rw [copyBytes]
      by_cases more : d < e
      · rw [if_pos more]
        apply meets_bind (meets_load (by omega) ?_)
        apply meets_bind (meets_store (by omega) ?_)
        have one : Trails m (written d (fun _ => m (d - distance)) 1 m) distance d (d + 1) := by
          have same : written d (fun _ => m (d - distance)) 1 m = written d (fun i => m (d - distance + i)) 1 m := by
            apply written_congr
            intro i below
            rw [show i = 0 by omega, Nat.add_zero]
          rw [same]
          exact trails_written (by omega) back
        have source : d - distance + 1 = d + 1 - distance := by omega
        rw [source]
        exact (ih (by omega) (by omega) (by omega)).mono fun _ left rest => trails_join (by omega) one rest
      · rw [if_neg more]
        exact meets_pure ⟨fun _ _ => rfl, fun x start upto => by omega⟩

/-- Bytes that are copied to where they are. -/
theorem meets_copyBytes_same (inside : e ≤ size) (enough : e < d + fuel) (turn : 0 < fuel) :
    Meets (copyBytes size e fuel d d) m fun _ left => left = m := by
  induction fuel generalizing d with
  | zero => omega
  | succ fuel ih =>
      rw [copyBytes]
      by_cases more : d < e
      · have same : written d (fun _ => m d) 1 m = m := by
          funext x
          by_cases here : x = d
          · rw [here]
            exact @written_inside d 1 0 _ m Nat.one_pos
          · exact written_outside (by omega)
        rw [if_pos more]
        apply meets_bind (meets_load (by omega) ?_)
        apply meets_bind (meets_store (by omega) ?_)
        rw [same]
        exact ih (by omega) (by omega)
      · rw [if_neg more]
        exact meets_pure rfl

/-- Chunks within one memory, from at least their size before. -/
theorem meets_copyChunks_within {distance : Nat} (apart : 8 ≤ distance) (back : distance ≤ d)
    (room : d + 8 ≤ size) (inside : e + 7 ≤ size) (enough : e < d + fuel) (turn : 0 < fuel) :
    Meets (copyChunks (fun a b => copyWithin size a b 8) e fuel d (d - distance)) m fun _ left =>
      Trails m left distance d (max e (d + 8)) := by
  induction fuel generalizing d m with
  | zero => omega
  | succ fuel ih =>
      rw [copyChunks]
      apply meets_bind (meets_copyWithin (by omega) room (by omega) ?_)
      have first : Trails m (written d (fun i => m (d - distance + i)) 8 m) distance d (d + 8) :=
        trails_written apart back
      by_cases more : d + 8 < e
      · have source : d - distance + 8 = d + 8 - distance := by omega
        rw [if_pos more, source]
        apply (ih (by omega) (by omega) (by omega) (by omega)).mono
        intro _ left rest
        have reached : max e (d + 8 + 8) = max (max e (d + 8)) (d + 8 + 8) := by omega
        have all := trails_join (by omega) first rest
        exact ⟨all.before, fun x start upto => all.copied x start (by omega)⟩
      · rw [if_neg more]
        refine meets_pure ⟨first.before, fun x start upto => first.copied x start (by omega)⟩

/-- Chunks of the source. -/
theorem meets_copyChunks_in {source : List Byte} {n : Nat} (readable : s + n + 8 ≤ source.length)
    (inside : d + n + 8 ≤ size) (last : e = d + n) (enough : n < fuel) :
    Meets (copyChunks (fun a p => copyIn source size a p 8) e fuel d s) m fun _ left =>
      (∀ x < d, left x = m x) ∧ ∀ i < n, left (d + i) = source.getD (s + i) 0 := by
  induction fuel generalizing d s m n with
  | zero => omega
  | succ fuel ih =>
      rw [copyChunks]
      apply meets_bind (meets_copyIn (by omega) (by omega) ?_)
      by_cases more : d + 8 < e
      · rw [if_pos more]
        apply (ih (n := n - 8) (by omega) (by omega) (by omega) (by omega)).mono
        rintro _ left ⟨before, copied⟩
        refine ⟨fun x early => by rw [before x (by omega), written_outside (Or.inl early)], ?_⟩
        intro i below
        by_cases here : i < 8
        · rw [before (d + i) (by omega), written_inside here]
        · have later := copied (i - 8) (by omega)
          rw [show d + 8 + (i - 8) = d + i by omega, show s + 8 + (i - 8) = s + i by omega] at later
          exact later
      · rw [if_neg more]
        refine meets_pure ⟨fun x early => written_outside (Or.inl early), ?_⟩
        intro i below
        exact written_inside (by omega)

end Chunks

section Words

/-- The words of two and of four bytes in little-endian order. -/
def word16 (bytes : Nat → Byte) : BitVec 16 := bytes 1 ++ bytes 0

def word32 (bytes : Nat → Byte) : BitVec 32 := bytes 3 ++ bytes 2 ++ bytes 1 ++ bytes 0

/-- `memcpy` of a word from the source. -/
def sourceWord16 (source : List Byte) (p : Nat) : Code (BitVec 16) :=
  if p + 2 ≤ source.length then pure (word16 fun i => source.getD (p + i) 0) else failure

def sourceWord32 (source : List Byte) (p : Nat) : Code (BitVec 32) :=
  if p + 4 ≤ source.length then pure (word32 fun i => source.getD (p + i) 0) else failure

theorem word16_byte (bytes : Nat → Byte) {i : Nat} (inside : i < 2) :
    (word16 bytes).extractLsb' (8 * i) 8 = bytes i := by
  have position : i = 0 ∨ i = 1 := by omega
  unfold word16
  rcases position with rfl | rfl
  all_goals
    simp (disch := omega) only [BitVec.extractLsb'_append_eq_of_le, BitVec.extractLsb'_append_eq_right,
      Nat.mul_zero, Nat.reduceMul, Nat.reduceSub, BitVec.extractLsb'_eq_self]

theorem word32_byte (bytes : Nat → Byte) {i : Nat} (inside : i < 4) :
    (word32 bytes).extractLsb' (8 * i) 8 = bytes i := by
  have position : i = 0 ∨ i = 1 ∨ i = 2 ∨ i = 3 := by omega
  unfold word32
  rcases position with rfl | rfl | rfl | rfl
  all_goals
    simp (disch := omega) only [BitVec.extractLsb'_append_eq_of_le, BitVec.extractLsb'_append_eq_right,
      Nat.reduceMul, Nat.reduceSub, Nat.mul_zero, BitVec.extractLsb'_eq_self]

variable {f g : Nat → Byte}

theorem word16_eq_iff : word16 f = word16 g ↔ ∀ i < 2, f i = g i := by
  constructor
  · intro same i inside
    rw [← word16_byte f inside, ← word16_byte g inside, same]
  · intro same
    rw [word16, word16, same 0 (by decide), same 1 (by decide)]

theorem word32_eq_iff : word32 f = word32 g ↔ ∀ i < 4, f i = g i := by
  constructor
  · intro same i inside
    rw [← word32_byte f inside, ← word32_byte g inside, same]
  · intro same
    rw [word32, word32, same 0 (by decide), same 1 (by decide), same 2 (by decide), same 3 (by decide)]

theorem word32_bit (bytes : Nat → Byte) {i j : Nat} (inside : i < 4) (bit : j < 8) :
    (word32 bytes).getLsbD (8 * i + j) = (bytes i).getLsbD j := by
  rw [← word32_byte bytes inside, BitVec.getLsbD_extractLsb', decide_eq_true bit, Bool.true_and]

/-- Where two words differ first, from the zeros at the low end of their difference. -/
theorem first_difference (differ : word32 f ^^^ word32 g ≠ 0) :
    (word32 f ^^^ word32 g).ctz.toNat / 8 < 4 ∧
      (∀ i < (word32 f ^^^ word32 g).ctz.toNat / 8, f i = g i) ∧
      f ((word32 f ^^^ word32 g).ctz.toNat / 8) ≠ g ((word32 f ^^^ word32 g).ctz.toNat / 8) := by
  have below : (word32 f ^^^ word32 g).ctz.toNat < 32 := by
    have less := BitVec.ctz_lt_iff_ne_zero.mpr differ
    rw [BitVec.lt_def] at less
    simpa using less
  have set := BitVec.getLsbD_true_ctz_of_ne_zero differ
  generalize zeros : (word32 f ^^^ word32 g).ctz.toNat = n at below set
  have clear (i : Nat) (early : i < n) : (word32 f ^^^ word32 g).getLsbD i = false := by
    apply BitVec.getLsbD_false_of_lt_ctz
    omega
  refine ⟨by omega, fun i early => ?_, fun same => ?_⟩
  · apply BitVec.eq_of_getLsbD_eq
    intro j bit
    have equal := clear (8 * i + j) (by omega)
    rw [BitVec.getLsbD_xor, word32_bit f (by omega) bit, word32_bit g (by omega) bit] at equal
    simpa using equal
  · have parts : 8 * (n / 8) + n % 8 = n := Nat.div_add_mod n 8
    rw [← parts, BitVec.getLsbD_xor, word32_bit f (by omega) (by omega), word32_bit g (by omega) (by omega), same,
      Bool.xor_self] at set
    exact absurd set (by decide)

variable {m : Memory} {source : List Byte} {p : Nat}

theorem meets_sourceWord16 {post : BitVec 16 → Memory → Prop} (inside : p + 2 ≤ source.length)
    (holds : post (word16 fun i => source.getD (p + i) 0) m) : Meets (sourceWord16 source p) m post := by
  rw [sourceWord16, if_pos inside]
  exact meets_pure holds

theorem meets_sourceWord32 {post : BitVec 32 → Memory → Prop} (inside : p + 4 ≤ source.length)
    (holds : post (word32 fun i => source.getD (p + i) 0) m) : Meets (sourceWord32 source p) m post := by
  rw [sourceWord32, if_pos inside]
  exact meets_pure holds

end Words

end ZeroTierNode.Library.CheckedCode

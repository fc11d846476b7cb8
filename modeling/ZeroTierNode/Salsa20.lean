import Mathlib.Data.Fin.VecNotation
import ZeroTierNode.Library.CheckedCode
import ZeroTierNode.Armor

/-!
`Salsa20::crypt12` and `Salsa20::crypt20` on memory, with the buffer on the stack that a last partial block goes
through. The rounds are those of the cipher's definition on a square of words, and any sequence of calls encrypts with
its key stream, whole blocks of which each call uses up.
-/

namespace ZeroTierNode.Salsa20
open Library.Bytes Library.Ciphers Library.StreamBuffers Library.CheckedCode
open Armor (salsaStep salsaState)

/-- A call: where the input and the output are, and how many bytes. -/
structure Call where
  input : Nat
  output : Nat
  bytes : Nat

section Code

/-- So many of the blocks of assignments marked "2X round". -/
def doubleRounds (count : Nat) (x : List (BitVec 32)) : List (BitVec 32) :=
  (List.replicate count Armor.doubleRound).flatten.foldl salsaStep x

/-- "x0 = PLUS(x0, j0)" and those below it -/
def sums (count : Nat) (j : List (BitVec 32)) : Nat → BitVec 32 :=
  let x := doubleRounds count j
  fun k => x.getD k 0 + j.getD k 0

/-- `U32TO8_LITTLE(c + 4 * k, XOR(xk, U8TO32_LITTLE(m + 4 * k)))` for the first words. -/
def putWords (x : Nat → BitVec 32) (m c : Nat) : Nat → Memory → Memory
  | 0, memory => memory
  | k + 1, memory =>
      let memory := putWords x m c k memory
      let word := x k ^^^ word32 fun i => memory (m + 4 * k + i)
      written (c + 4 * k) (fun i => word.extractLsb' (8 * i) 8) 4 memory

/-- "if (! (++j8)) ++j9" -/
def nextBlock (j : List (BitVec 32)) : List (BitVec 32) :=
  let j := j.set 8 (j.getD 8 0 + 1)
  if j.getD 8 0 = 0 then j.set 9 (j.getD 9 0 + 1) else j

/-- The loop, with the buffer on the stack at `tmp`. -/
def cryptLoop (count tmp : Nat) (j : List (BitVec 32)) (m c bytes : Nat) (memory : Memory) :
    List (BitVec 32) × Memory :=
  if bytes < 64 then
    let memory := eachByte tmp (fun memory i => memory (m + i)) bytes memory
    let memory := putWords (sums count j) tmp tmp 16 memory
    (nextBlock j, eachByte c (fun memory i => memory (tmp + i)) bytes memory)
  else
    let memory := putWords (sums count j) m c 16 memory
    if bytes ≤ 64 then (nextBlock j, memory)
    else cryptLoop count tmp (nextBlock j) (m + 64) (c + 64) (bytes - 64) memory
termination_by bytes

/-- `crypt12` has six double rounds and `crypt20` ten. -/
def crypt (count tmp : Nat) (s : List (BitVec 32) × Memory) (call : Call) : List (BitVec 32) × Memory :=
  if call.bytes = 0 then s else cryptLoop count tmp s.1 call.input call.output call.bytes s.2

def init (key iv : List Byte) : List (BitVec 32) := salsaState key iv 0

end Code

section Rounds

/-- The definition of the cipher, on a square of words. -/
abbrev Square := Fin 4 → Fin 4 → BitVec 32

def quarterround (y : Fin 4 → BitVec 32) : Fin 4 → BitVec 32 :=
  let z1 := y 1 ^^^ (y 0 + y 3).rotateLeft 7
  let z2 := y 2 ^^^ (z1 + y 0).rotateLeft 9
  let z3 := y 3 ^^^ (z2 + z1).rotateLeft 13
  let z0 := y 0 ^^^ (z3 + z2).rotateLeft 18
  ![z0, z1, z2, z3]

/-- Rows and columns start at the diagonal. -/
def rowround (x : Square) : Square := fun r c => quarterround (fun i => x r (r + i)) (c - r)

def columnround (x : Square) : Square := fun r c => quarterround (fun i => x (c + i) c) (r - c)

def doubleround (x : Square) : Square := rowround (columnround x)

def squareOf (x : List (BitVec 32)) : Square := fun r c => x.getD (4 * r.val + c.val) 0

/-- Four assignments, on words at these places. -/
def quarter (p : Fin 4 → Nat) : List (Nat × Nat × Nat × Nat) :=
  [(p 1, p 0, p 3, 7), (p 2, p 1, p 0, 9), (p 3, p 2, p 1, 13), (p 0, p 3, p 2, 18)]

/-- The places of a row and of a column, from the diagonal on. -/
def rowPlace (r i : Fin 4) : Nat := 4 * r.val + (r + i).val

def columnPlace (c i : Fin 4) : Nat := 4 * (c + i).val + c.val

variable {x : List (BitVec 32)}

/-- One assignment. -/
theorem salsaStep_getD {t a b r : Nat} (inside : t < x.length) (k : Nat) :
    (salsaStep x (t, a, b, r)).getD k 0 =
      if k = t then x.getD t 0 ^^^ (x.getD a 0 + x.getD b 0).rotateLeft r else x.getD k 0 := by
  by_cases this_word : k = t
  · rw [if_pos this_word, this_word, salsaStep, List.getD_eq_getElem?_getD, List.getElem?_set_self inside,
      Option.getD_some]
  · rw [if_neg this_word, salsaStep, List.getD_eq_getElem?_getD, List.getElem?_set_ne (Ne.symm this_word),
      ← List.getD_eq_getElem?_getD]

theorem length_salsaStep (step : Nat × Nat × Nat × Nat) : (salsaStep x step).length = x.length := List.length_set

theorem length_steps (steps : List (Nat × Nat × Nat × Nat)) : (steps.foldl salsaStep x).length = x.length := by
  induction steps generalizing x with
  | nil => rfl
  | cons step steps ih => rw [List.foldl_cons, ih, length_salsaStep]

/-- Four assignments are a quarter round of their words. -/
theorem quarter_getD {p : Fin 4 → Nat} (whole : x.length = 16) (inside : ∀ i, p i < 16) (apart : Function.Injective p)
    (i : Fin 4) : ((quarter p).foldl salsaStep x).getD (p i) 0 = quarterround (fun j => x.getD (p j) 0) i := by
  have place (i j : Fin 4) (other : i ≠ j) : p i ≠ p j := fun same => other (apart same)
  have differ : p 0 ≠ p 1 ∧ p 0 ≠ p 2 ∧ p 0 ≠ p 3 ∧ p 1 ≠ p 2 ∧ p 1 ≠ p 3 ∧ p 2 ≠ p 3 :=
    ⟨place 0 1 (by decide), place 0 2 (by decide), place 0 3 (by decide), place 1 2 (by decide), place 1 3 (by decide),
      place 2 3 (by decide)⟩
  obtain ⟨d01, d02, d03, d12, d13, d23⟩ := differ
  have four : ∀ i : Fin 4, i = 0 ∨ i = 1 ∨ i = 2 ∨ i = 3 := by decide
  simp only [quarter, List.foldl_cons, List.foldl_nil]
  rcases four i with rfl | rfl | rfl | rfl
  all_goals
    simp only [salsaStep_getD, length_salsaStep, whole, inside, d01, d02, d03, d12, d13, d23, d01.symm, d02.symm,
      d03.symm, d12.symm, d13.symm, d23.symm, if_true, if_false]
    rfl

theorem quarter_others {p : Fin 4 → Nat} (whole : x.length = 16) (inside : ∀ i, p i < 16) {k : Nat}
    (other : ∀ i, k ≠ p i) : ((quarter p).foldl salsaStep x).getD k 0 = x.getD k 0 := by
  simp only [quarter, List.foldl_cons, List.foldl_nil, salsaStep_getD, length_salsaStep, whole, inside, other, if_false]

/-- Quarter rounds of words at different places do not meet. -/
theorem quarters_getD {place : Fin 4 → Fin 4 → Nat} (inside : ∀ c i, place c i < 16)
    (apart : ∀ c i d j, place c i = place d j → c = d ∧ i = j) (cs : List (Fin 4)) (once : cs.Nodup)
    (whole : x.length = 16) (c i : Fin 4) :
    ((cs.flatMap fun c => quarter (place c)).foldl salsaStep x).getD (place c i) 0 =
      if c ∈ cs then quarterround (fun j => x.getD (place c j) 0) i else x.getD (place c i) 0 := by
  induction cs generalizing x with
  | nil => rfl
  | cons d cs ih =>
      obtain ⟨absent, once'⟩ := List.nodup_cons.mp once
      rw [List.flatMap_cons, List.foldl_append, ih once' ((length_steps _).trans whole)]
      by_cases same : c = d
      · have injective : Function.Injective (place d) := fun i j equal => (apart d i d j equal).2
        rw [same, if_neg absent, if_pos List.mem_cons_self, quarter_getD whole (inside d) injective]
      · have kept (j : Fin 4) : ((quarter (place d)).foldl salsaStep x).getD (place c j) 0 = x.getD (place c j) 0 :=
          quarter_others whole (inside d) fun i equal => same (apart c j d i equal).1
        have members : (c ∈ d :: cs) = (c ∈ cs) := by
          rw [List.mem_cons, eq_iff_iff]
          exact or_iff_right same
        simp only [kept, members]

theorem doubleRound_quarters : Armor.doubleRound =
    ((List.finRange 4).flatMap fun c => quarter (columnPlace c)) ++
      (List.finRange 4).flatMap fun r => quarter (rowPlace r) := by decide

theorem doubleRound_square (whole : x.length = 16) :
    squareOf (Armor.doubleRound.foldl salsaStep x) = doubleround (squareOf x) := by
  have columns : squareOf (((List.finRange 4).flatMap fun c => quarter (columnPlace c)).foldl salsaStep x) =
      columnround (squareOf x) := by
    funext r c
    have place : columnPlace c (r - c) = 4 * r.val + c.val := by rw [columnPlace, add_sub_cancel]
    rw [squareOf, ← place, quarters_getD (by decide) (by decide) _ (List.nodup_finRange 4) whole,
      if_pos (List.mem_finRange c)]
    rfl
  have long : (((List.finRange 4).flatMap fun c => quarter (columnPlace c)).foldl salsaStep x).length = 16 :=
    (length_steps _).trans whole
  rw [doubleRound_quarters, List.foldl_append, doubleround, ← columns]
  funext r c
  have place : rowPlace r (c - r) = 4 * r.val + c.val := by rw [rowPlace, add_sub_cancel]
  conv_lhs => rw [squareOf, ← place]
  rw [quarters_getD (by decide) (by decide) _ (List.nodup_finRange 4) long, if_pos (List.mem_finRange r)]
  rfl

/-- The words that a block is encrypted with are those of the definition, for any number of double rounds. -/
theorem sums_square (count : Nat) (whole : x.length = 16) (r c : Fin 4) :
    sums count x (4 * r.val + c.val) = (doubleround^[count] (squareOf x)) r c + squareOf x r c := by
  have rounds : squareOf (doubleRounds count x) = doubleround^[count] (squareOf x) := by
    rw [doubleRounds]
    clear r c
    induction count generalizing x with
    | zero => rfl
    | succ count ih =>
        rw [List.replicate_succ, List.flatten_cons, List.foldl_append, ih ((length_steps _).trans whole),
          doubleRound_square whole, Function.iterate_succ_apply]
  rw [← rounds]
  rfl

end Rounds

section Loop

/-- Byte `i` of the key stream from a state on. -/
def streamByte (count : Nat) (j : List (BitVec 32)) (i : Nat) : Byte :=
  (sums count (nextBlock^[i / 64] j) (i % 64 / 4)).extractLsb' (8 * (i % 4)) 8

/-- Two memories that are alike but for the buffer on the stack. -/
def Alike (tmp : Nat) (m m' : Memory) : Prop := ∀ x, x < tmp ∨ tmp + 64 ≤ x → m x = m' x

/-- The input is the output or apart from it, and neither is on the stack. -/
structure Call.Placed (call : Call) (tmp : Nat) : Prop where
  apart : call.input = call.output ∨ call.input + call.bytes ≤ call.output ∨ call.output + call.bytes ≤ call.input
  input : call.input + call.bytes ≤ tmp ∨ tmp + 64 ≤ call.input
  output : call.output + call.bytes ≤ tmp ∨ tmp + 64 ≤ call.output

variable {count tmp m c bytes : Nat} {j : List (BitVec 32)} {memory : Memory}

theorem streamByte_next (i : Nat) : streamByte count j (64 + i) = streamByte count (nextBlock j) i := by
  have block : (64 + i) / 64 = i / 64 + 1 := by omega
  have word : (64 + i) % 64 = i % 64 := by omega
  have byte : (64 + i) % 4 = i % 4 := by omega
  rw [streamByte, block, word, byte, Function.iterate_succ_apply, streamByte]

/-- The words of a block, put one after the other, encrypt it. -/
theorem putWords_spec {k : Nat} (few : k ≤ 16) (apart : m = c ∨ m + 64 ≤ c ∨ c + 64 ≤ m) :
    putWords (sums count j) m c k memory = written c (fun i => memory (m + i) ^^^ streamByte count j i) (4 * k) memory := by
  induction k with
  | zero => rw [putWords, Nat.mul_zero, written_zero]
  | succ k ih =>
      have length : 4 * (k + 1) = 4 * k + 4 := Nat.mul_succ 4 k
      rw [putWords, ih (by omega), length, ← written_written]
      apply written_congr
      intro i small
      have unread : written c (fun i => memory (m + i) ^^^ streamByte count j i) (4 * k) memory (m + 4 * k + i) =
          memory (m + (4 * k + i)) := by
        rw [written_outside (by omega), Nat.add_assoc]
      have block : (4 * k + i) / 64 = 0 := by omega
      have word : (4 * k + i) % 64 / 4 = k := by omega
      have byte : (4 * k + i) % 4 = i := by omega
      rw [BitVec.extractLsb'_xor, word32_byte _ small, unread, streamByte, block, word, byte, BitVec.xor_comm]
      rfl

/-- The loop encrypts the bytes and counts the blocks. -/
theorem cryptLoop_spec (some : 0 < bytes) (placed : Call.Placed ⟨m, c, bytes⟩ tmp) :
    (cryptLoop count tmp j m c bytes memory).1 = nextBlock^[(bytes + 63) / 64] j ∧
      Alike tmp (cryptLoop count tmp j m c bytes memory).2
        (written c (fun i => memory (m + i) ^^^ streamByte count j i) bytes memory) := by
  obtain ⟨apart, input, output⟩ := placed
  dsimp only at apart input output
  induction bytes using Nat.strong_induction_on generalizing m c j memory with
  | _ bytes ih =>
    rw [cryptLoop]
    by_cases short : bytes < 64
    · have one : (bytes + 63) / 64 = 1 := by omega
      have copied : eachByte tmp (fun memory i => memory (m + i)) bytes memory =
          written tmp (fun i => memory (m + i)) bytes memory :=
        eachByte_eq fun i below => written_outside (by omega)
      rw [if_pos short, one]
      dsimp only
      rw [copied, putWords_spec (Nat.le_refl 16) (Or.inl rfl)]
      refine ⟨rfl, ?_⟩
      intro x elsewhere
      rw [@eachByte_eq _ _ _ fun i => memory (m + i) ^^^ streamByte count j i]
      · by_cases inside : c ≤ x ∧ x < c + bytes
        · rw [written, if_pos inside, written, if_pos inside]
        · rw [written_outside (by omega), written_outside (by omega), written_outside (by omega),
            written_outside (by omega)]
      · intro i below
        rw [written_outside (by omega), written_inside (by omega), written_inside below]
    · rw [if_neg short]
      dsimp only
      rw [putWords_spec (Nat.le_refl 16) (by omega)]
      by_cases last : bytes ≤ 64
      · have whole : bytes = 64 := by omega
        rw [if_pos last, whole]
        exact ⟨rfl, fun x elsewhere => rfl⟩
      · have turns : (bytes + 63) / 64 = (bytes - 64 + 63) / 64 + 1 := by omega
        have rest : bytes = 64 + (bytes - 64) := by omega
        obtain ⟨state, alike⟩ := @ih (bytes - 64) (by omega) (m + 64) (c + 64) (nextBlock j)
          (written c (fun i => memory (m + i) ^^^ streamByte count j i) 64 memory) (by omega) (by omega) (by omega)
          (by omega)
        rw [if_neg last, turns, Function.iterate_succ_apply]
        refine ⟨state, fun x elsewhere => (alike x elsewhere).trans ?_⟩
        conv_rhs => rw [rest, ← written_written]
        apply congrFun
        apply written_congr
        intro i below
        rw [written_outside (by omega), streamByte_next, Nat.add_assoc]

theorem crypt_spec {call : Call} (placed : call.Placed tmp) :
    (crypt count tmp (j, memory) call).1 = nextBlock^[(call.bytes + 63) / 64] j ∧
      Alike tmp (crypt count tmp (j, memory) call).2
        (written call.output (fun i => memory (call.input + i) ^^^ streamByte count j i) call.bytes memory) := by
  by_cases none : call.bytes = 0
  · rw [crypt, if_pos none, none, written_zero]
    exact ⟨rfl, fun x elsewhere => rfl⟩
  · rw [crypt, if_neg none]
    exact cryptLoop_spec (Nat.pos_of_ne_zero none) placed

end Loop

section Runs

variable {count tmp : Nat} {key iv : List Byte}

/-- The two words of the counter are one number. -/
theorem nextBlock_salsaState (key iv : List Byte) (block : Nat) :
    nextBlock (salsaState key iv block) = salsaState key iv (block + 1) := by
  have low : BitVec.ofNat 32 block + 1 = BitVec.ofNat 32 (block + 1) := (BitVec.ofNat_add block 1).symm
  simp only [nextBlock, salsaState, List.set_cons_succ, List.set_cons_zero, List.getD_cons_succ, List.getD_cons_zero]
  rw [low]
  by_cases wrapped : BitVec.ofNat 32 (block + 1) = 0
  · have multiple : (block + 1) % 2 ^ 32 = 0 := congrArg BitVec.toNat wrapped
    have carried : BitVec.ofNat 32 (block / 2 ^ 32) + 1 = BitVec.ofNat 32 ((block + 1) / 2 ^ 32) := by
      have quotient : (block + 1) / 2 ^ 32 = block / 2 ^ 32 + 1 := by omega
      rw [quotient]
      exact (BitVec.ofNat_add _ 1).symm
    rw [if_pos wrapped, carried]
  · have between : (block + 1) % 2 ^ 32 ≠ 0 := fun multiple => wrapped (BitVec.eq_of_toNat_eq multiple)
    have quotient : (block + 1) / 2 ^ 32 = block / 2 ^ 32 := by omega
    rw [if_neg wrapped, quotient]

theorem nextBlock_iterate (key iv : List Byte) (start blocks : Nat) :
    nextBlock^[blocks] (salsaState key iv start) = salsaState key iv (start + blocks) := by
  induction blocks with
  | zero => rfl
  | succ blocks ih => rw [Function.iterate_succ_apply', ih, nextBlock_salsaState, Nat.add_assoc]

/-- The key stream of a key and an initialization vector. -/
def stream (count : Nat) (key iv : List Byte) : Nat → Byte := streamByte count (init key iv)

theorem stream_block (block i : Nat) :
    streamByte count (salsaState key iv block) i = stream count key iv (64 * block + i) := by
  have turn : (64 * block + i) / 64 = block + i / 64 := by omega
  have word : (64 * block + i) % 64 = i % 64 := by omega
  have byte : (64 * block + i) % 4 = i % 4 := by omega
  rw [stream, init, streamByte, streamByte, turn, word, byte, nextBlock_iterate, nextBlock_iterate, Nat.zero_add]

/-- The key stream is that of the definition, on the square of the constants, key, vector and counter. -/
theorem stream_defined (count : Nat) (key iv : List Byte) (block : Nat) (r c b : Fin 4) :
    stream count key iv (64 * block + 16 * r.val + 4 * c.val + b.val) =
      ((doubleround^[count] (squareOf (salsaState key iv block))) r c +
        squareOf (salsaState key iv block) r c).extractLsb' (8 * b.val) 8 := by
  have turn : (64 * block + 16 * r.val + 4 * c.val + b.val) / 64 = block := by omega
  have word : (64 * block + 16 * r.val + 4 * c.val + b.val) % 64 / 4 = 4 * r.val + c.val := by omega
  have byte : (64 * block + 16 * r.val + 4 * c.val + b.val) % 4 = b.val := by omega
  rw [stream, streamByte, init, turn, word, byte, nextBlock_iterate, Nat.zero_add, sums_square count rfl]

/-- With six double rounds it is the key stream that packets are encrypted with. -/
theorem stream_salsa2012 (key iv : List Byte) : stream 6 key iv = Armor.salsa2012 key iv := by
  have rounds (round : List (Nat × Nat × Nat × Nat)) :
      (List.replicate 6 round).flatten = round ++ round ++ round ++ round ++ round ++ round := by
    simp only [List.replicate_succ, List.replicate_zero, List.flatten_cons, List.flatten_nil, List.append_nil,
      List.append_assoc]
  have byte (w : BitVec 32) (k : Nat) : w.extractLsb' (8 * k) 8 = BitVec.ofNat 8 (w.toNat / 256 ^ k) := by
    apply BitVec.eq_of_toNat_eq
    rw [BitVec.extractLsb'_toNat, BitVec.toNat_ofNat, Nat.shiftRight_eq_div_pow, Nat.pow_mul]
  funext i
  rw [stream, streamByte, init, nextBlock_iterate, Nat.zero_add, byte, sums, doubleRounds, rounds, Armor.salsa2012]

/-- A call on the cipher as packets use it: a key stream, and the number of the next block. -/
def plainCrypt (s : Armor.Salsa20 × Memory) (call : Call) : Armor.Salsa20 × Memory :=
  let (output, s20) := s.1.crypt12 ((List.range call.bytes).map fun i => s.2 (call.input + i))
  (s20, written call.output (fun i => output.getD i 0) call.bytes s.2)

theorem plainCrypt_eq (keyStream : Nat → Byte) (block : Nat) (m : Memory) (call : Call) :
    plainCrypt (⟨keyStream, block⟩, m) call =
      (⟨keyStream, block + (call.bytes + 63) / 64⟩,
        written call.output (fun i => m (call.input + i) ^^^ keyStream (64 * block + i)) call.bytes m) := by
  have length : ((List.range call.bytes).map fun i => m (call.input + i)).length = call.bytes := by
    rw [List.length_map, List.length_range]
  rw [plainCrypt, Armor.Salsa20.crypt12]
  dsimp only
  rw [length]
  congr 1
  apply written_congr
  intro i below
  simp only [xorStream, List.getD_eq_getElem?_getD, List.getElem?_mapIdx, List.getElem?_map, List.getElem?_range below,
    Option.map_some, Option.getD_some]

variable {calls : List Call}

/-- Calls from a block on, on memories that differ on the stack only. -/
theorem run_refines (block : Nat) {m m' : Memory} (placed : ∀ call ∈ calls, call.Placed tmp) (alike : Alike tmp m m') :
    (calls.foldl (crypt count tmp) (salsaState key iv block, m)).1 =
        salsaState key iv (calls.foldl plainCrypt (⟨stream count key iv, block⟩, m')).1.block ∧
      Alike tmp (calls.foldl (crypt count tmp) (salsaState key iv block, m)).2
        (calls.foldl plainCrypt (⟨stream count key iv, block⟩, m')).2 := by
  induction calls generalizing block m m' with
  | nil => exact ⟨rfl, alike⟩
  | cons call calls ih =>
      have here := placed call List.mem_cons_self
      obtain ⟨state, encrypted⟩ := @crypt_spec count tmp (salsaState key iv block) m call here
      rw [nextBlock_iterate] at state
      have next : Alike tmp (crypt count tmp (salsaState key iv block, m) call).2
          (written call.output (fun i => m' (call.input + i) ^^^ stream count key iv (64 * block + i)) call.bytes m') := by
        intro x elsewhere
        rw [encrypted x elsewhere]
        by_cases inside : call.output ≤ x ∧ x < call.output + call.bytes
        · have outside : call.input + (x - call.output) < tmp ∨ tmp + 64 ≤ call.input + (x - call.output) := by
            have apart := here.input
            omega
          rw [written, if_pos inside, written, if_pos inside, alike _ outside, stream_block]
        · rw [written, if_neg inside, written, if_neg inside, alike x elsewhere]
      have both : crypt count tmp (salsaState key iv block, m) call =
          (salsaState key iv (block + (call.bytes + 63) / 64), (crypt count tmp (salsaState key iv block, m) call).2) :=
        Prod.ext state rfl
      rw [List.foldl_cons, List.foldl_cons, both, plainCrypt_eq]
      exact ih _ (fun later member => placed later (List.mem_cons_of_mem call member)) next

/-- Calls encrypt what the cipher's definition encrypts, however they place and cut the data. -/
theorem crypts_refine (count tmp : Nat) (key iv : List Byte) (calls : List Call) (m : Memory)
    (placed : ∀ call ∈ calls, call.Placed tmp) :
    (calls.foldl (crypt count tmp) (init key iv, m)).1 =
        salsaState key iv (calls.foldl plainCrypt (⟨stream count key iv, 0⟩, m)).1.block ∧
      Alike tmp (calls.foldl (crypt count tmp) (init key iv, m)).2
        (calls.foldl plainCrypt (⟨stream count key iv, 0⟩, m)).2 :=
  run_refines 0 placed fun _ _ => rfl

/-- Two calls in place and one from elsewhere. -/
def threeCalls : List Call := [⟨0x1000, 0x1000, 32⟩, ⟨0x2000, 0x1020, 130⟩, ⟨0x1000, 0x1000, 7⟩]

theorem three_calls_encrypted :
    (∀ call ∈ threeCalls, call.Placed 0x8000) ∧
      (threeCalls.foldl (crypt 6 0x8000) (init [] [], fun _ => 0)).1 =
        salsaState [] [] (threeCalls.foldl plainCrypt (⟨stream 6 [] [], 0⟩, fun _ => 0)).1.block ∧
      Alike 0x8000 (threeCalls.foldl (crypt 6 0x8000) (init [] [], fun _ => 0)).2
        (threeCalls.foldl plainCrypt (⟨stream 6 [] [], 0⟩, fun _ => 0)).2 := by
  have placed : ∀ call ∈ threeCalls, call.Placed 0x8000 := by
    intro call member
    simp only [threeCalls, List.mem_cons, List.not_mem_nil, or_false] at member
    rcases member with rfl | rfl | rfl
    all_goals exact ⟨by decide, by decide, by decide⟩
  exact ⟨placed, crypts_refine 6 0x8000 [] [] threeCalls _ placed⟩

/-- What calls in place do to each byte of memory. -/
def mask (keyStream : Nat → Byte) : Nat → List Call → Nat → Byte
  | _, [], _ => 0
  | block, call :: calls, x =>
      (if call.output ≤ x ∧ x < call.output + call.bytes then keyStream (64 * block + (x - call.output)) else 0) ^^^
        mask keyStream (block + (call.bytes + 63) / 64) calls x

theorem run_masked (keyStream : Nat → Byte) (block : Nat) (m : Memory)
    (same : ∀ call ∈ calls, call.input = call.output) :
    (calls.foldl plainCrypt (⟨keyStream, block⟩, m)).2 = fun x => m x ^^^ mask keyStream block calls x := by
  induction calls generalizing block m with
  | nil =>
      funext x
      exact BitVec.xor_zero.symm
  | cons call calls ih =>
      rw [List.foldl_cons, plainCrypt_eq, ih _ _ fun later member => same later (List.mem_cons_of_mem call member)]
      funext x
      dsimp only [mask]
      by_cases inside : call.output ≤ x ∧ x < call.output + call.bytes
      · have position : call.output + (x - call.output) = x := by omega
        rw [written, if_pos inside, if_pos inside, same call List.mem_cons_self, position, BitVec.xor_assoc]
      · rw [written, if_neg inside, if_neg inside]
        exact congrArg (m x ^^^ ·) BitVec.zero_xor.symm

/-- What is encrypted in place is restored by the same calls on a new cipher with the key. -/
theorem crypts_restore (count tmp : Nat) (key iv : List Byte) (calls : List Call) (m : Memory)
    (placed : ∀ call ∈ calls, call.Placed tmp) (same : ∀ call ∈ calls, call.input = call.output) :
    Alike tmp (calls.foldl (crypt count tmp) (init key iv, (calls.foldl (crypt count tmp) (init key iv, m)).2)).2 m := by
  intro x elsewhere
  have run (m : Memory) : (calls.foldl (crypt count tmp) (salsaState key iv 0, m)).2 x =
      m x ^^^ mask (stream count key iv) 0 calls x := by
    rw [(run_refines 0 placed fun _ _ => rfl).2 x elsewhere, run_masked _ _ m same]
  calc
    (calls.foldl (crypt count tmp) (init key iv, (calls.foldl (crypt count tmp) (init key iv, m)).2)).2 x
      = (calls.foldl (crypt count tmp) (init key iv, m)).2 x ^^^ mask (stream count key iv) 0 calls x := run _
    _ = m x ^^^ mask (stream count key iv) 0 calls x ^^^ mask (stream count key iv) 0 calls x := by rw [init, run]
    _ = m x := by rw [BitVec.xor_assoc, BitVec.xor_self, BitVec.xor_zero]

theorem in_place_restored :
    Alike 0x8000 ([⟨0x1000, 0x1000, 70⟩, ⟨0x1010, 0x1010, 5⟩].foldl (crypt 10 0x8000) (init [] [],
      ([⟨0x1000, 0x1000, 70⟩, ⟨0x1010, 0x1010, 5⟩].foldl (crypt 10 0x8000) (init [] [], fun _ => 1)).2)).2
      fun _ => 1 := by
  apply crypts_restore
  · intro call member
    simp only [List.mem_cons, List.not_mem_nil, or_false] at member
    rcases member with rfl | rfl
    all_goals exact ⟨by decide, by decide, by decide⟩
  · intro call member
    simp only [List.mem_cons, List.not_mem_nil, or_false] at member
    rcases member with rfl | rfl
    all_goals rfl

end Runs

end ZeroTierNode.Salsa20

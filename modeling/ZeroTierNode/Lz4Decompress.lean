import ZeroTierNode.Library.CheckedCode
import ZeroTierNode.Lz4Blocks

/-!
`LZ4_decompress_safe`, pointer by pointer in a 32-bit address space: lengths with their checks for a wrapped address,
copies of eight bytes that write past their end, and the tables for matches nearer than eight bytes. Where no pointer
can wrap it leaves its buffers for one kind of input only, and otherwise does what the plain decoder of the block format
does; a block that the plain decoder takes is decoded wherever the buffers lie.
-/

namespace ZeroTierNode.Lz4Decompress
open Library.Bytes Library.StreamBuffers Library.BackReferences Library.CheckedCode Lz4Blocks

/-- The buffers of a call, where they lie in the 32-bit address space and what the source has. Nothing lies so low that
the constants which are subtracted from the ends go below zero. -/
structure Buffers where
  source : List Byte
  sourceAt : Nat
  destAt : Nat
  /-- `maxDecompressedSize` -/
  size : Nat
  sourceRoom : 16 ≤ sourceAt ∧ sourceAt + source.length < 2 ^ 32
  destRoom : 16 ≤ destAt ∧ destAt + size < 2 ^ 32
  ints : source.length < 2 ^ 31 ∧ size < 2 ^ 31

section Code

/-- A pointer into the source; indices and addresses are words of 32 bits. -/
def Buffers.src (b : Buffers) (ip : Nat) : Nat := (b.sourceAt + ip) % 2 ^ 32

/-- A pointer into the output. -/
def Buffers.dest (b : Buffers) (op : Nat) : Nat := (b.destAt + op) % 2 ^ 32

/-- `p - n` -/
def before (p n : Nat) : Nat := (p + 2 ^ 32 - n) % 2 ^ 32

/-- `(uptrval)p + length < (uptrval)p` -/
def wraps (p length : Nat) : Bool := (p + length) % 2 ^ 32 < p

/-- The loop of the literals' length, with the length and `ip` after it. -/
def moreLiterals (b : Buffers) : Nat → Nat → Nat → Code (Nat × Nat)
  | 0, _, _ => failure
  | fuel + 1, length, ip => do
    let s ← sourceByte b.source ip
    let length := (length + s.toNat) % 2 ^ 32
    if b.src (ip + 1) < before (b.src b.source.length) 15 ∧ s = 255 then moreLiterals b fuel length (ip + 1)
    else pure (length, ip + 1)

/-- No length stands for `goto _output_error`. -/
def literalLength (b : Buffers) (token : Byte) (ip op : Nat) : Code (Option Nat × Nat) :=
  if token.toNat / 16 = 15 then do
    let more ← moreLiterals b b.source.length 15 ip
    if wraps (b.dest op) more.1 ∨ wraps (b.src more.2) more.1 then pure (none, more.2)
    else pure (some more.1, more.2)
  else pure (some (token.toNat / 16), ip)

/-- The loop of the match's length. -/
def moreMatch (b : Buffers) : Nat → Nat → Nat → Code (Option Nat × Nat)
  | 0, _, _ => failure
  | fuel + 1, length, ip => do
    let s ← sourceByte b.source ip
    let length' := (length + s.toNat) % 2 ^ 32
    if before (b.src b.source.length) 5 < b.src (ip + 1) then pure (none, ip + 1)
    else if s = 255 then moreMatch b fuel length' (ip + 1)
    else pure (some length', ip + 1)

def matchLength (b : Buffers) (token : Byte) (ip op : Nat) : Code (Option Nat × Nat) :=
  if token.toNat % 16 = 15 then do
    let more ← moreMatch b b.source.length 15 ip
    pure (more.1.filter fun length => !wraps (b.dest op) length, more.2)
  else pure (some (token.toNat % 16), ip)

def dec32table : List Nat := [0, 1, 2, 1, 4, 4, 4, 4]

def dec64table : List Int := [0, 0, 0, -1, 0, 1, 2, 3]

/-- The first eight bytes of a match at `p`, and where to go on reading. -/
def copyFirst (size op p offset : Nat) : Code Nat :=
  if offset < 8 then do
    copyBytes size (op + 4) 5 op p
    let p := p + dec32table.getD offset 0
    copyWithin size (op + 4) p 4
    pure (p - dec64table.getD offset 0).toNat
  else do
    copyWithin size op p 8
    pure (p + 8)

/-- A match within the block; false stands for `goto _output_error`. -/
def copyMatch (b : Buffers) (op offset length : Nat) : Code Bool := do
  let p ← copyFirst b.size op (before op offset) offset
  let cpy := b.dest (op + length)
  let op := op + 8
  if before (b.dest b.size) 12 < cpy then
    let oCopyLimit := b.size - 7
    if before (b.dest b.size) 5 < cpy then pure false
    else if op < oCopyLimit then do
      copyChunks (fun d s => copyWithin b.size d s 8) oCopyLimit (b.size + 1) op p
      copyBytes b.size (cpy - b.destAt) (b.size + 1) oCopyLimit (p + (oCopyLimit - op))
      pure true
    else do
      copyBytes b.size (cpy - b.destAt) (b.size + 1) op p
      pure true
  else do
    copyWithin b.size op p 8
    if 16 < length then
      copyChunks (fun d s => copyWithin b.size d s 8) (cpy - b.destAt) (b.size + 1) (op + 8) (p + 8)
    pure true

def outputError (ip : Nat) : Int := -(ip : Int) - 1

/-- The part of a sequence behind its literals: the result of the call, or `ip` and `op` for the next sequence. -/
def matchPart (b : Buffers) (token : Byte) (ip op : Nat) : Code (Int ⊕ Nat × Nat) := do
  let low ← sourceByte b.source ip
  let high ← sourceByte b.source (ip + 1)
  let offset := low.toNat + 256 * high.toNat
  if before (b.dest op) offset < b.destAt then pure (.inl (outputError (ip + 2)))
  else do
    store b.size op (fun i => (BitVec.ofNat 32 offset).extractLsb' (8 * i) 8) 4
    let rest ← matchLength b token (ip + 2) op
    match rest.1 with
    | none => pure (.inl (outputError rest.2))
    | some length => do
      let length := (length + 4) % 2 ^ 32
      let copied ← copyMatch b op offset length
      if copied then pure (.inr (rest.2, (op + length) % 2 ^ 32)) else pure (.inl (outputError rest.2))

/-- A turn of the main loop. -/
def sequence (b : Buffers) (ip op : Nat) : Code (Int ⊕ Nat × Nat) := do
  let token ← sourceByte b.source ip
  let run ← literalLength b token (ip + 1) op
  match run.1 with
  | none => pure (.inl (outputError run.2))
  | some length =>
    let ip := run.2
    let cpy := b.dest (op + length)
    if before (b.dest b.size) 12 < cpy ∨ before (b.src b.source.length) 8 < b.src (ip + length) then
      if b.src (ip + length) ≠ b.src b.source.length ∨ b.dest b.size < cpy then pure (.inl (outputError ip))
      else do
        copyIn b.source b.size op ip length
        pure (.inl (op + length))
    else do
      copyChunks (fun d s => copyIn b.source b.size d s 8) (cpy - b.destAt) (length + 1) op ip
      matchPart b token ((ip + length) % 2 ^ 32) ((op + length) % 2 ^ 32)

def sequences (b : Buffers) : Nat → Nat → Nat → Code Int
  | 0, _, _ => failure
  | fuel + 1, ip, op => do
    let next ← sequence b ip op
    match next with
    | .inl result => pure result
    | .inr place => sequences b fuel place.1 place.2

def decompressSafe (b : Buffers) : Code Int :=
  if b.size = 0 then
    if b.source.length = 1 then do
      let first ← sourceByte b.source 0
      pure (if first = 0 then 0 else -1)
    else pure (-1)
  else sequences b (b.source.length + 1) 0 0

end Code

section Addresses

variable {b : Buffers} {ip op : Nat}

/-- No length that the source can announce reaches over the end of the address space, and no offset goes back over its
start. -/
structure Clear (b : Buffers) : Prop where
  low : 2 ^ 16 ≤ b.destAt
  source : b.sourceAt + 256 * b.source.length + 16 < 2 ^ 32
  dest : b.destAt + b.size + 255 * b.source.length + 20 < 2 ^ 32

theorem src_eq (word : b.sourceAt + ip < 2 ^ 32) : b.src ip = b.sourceAt + ip := Nat.mod_eq_of_lt word

theorem dest_eq (word : b.destAt + op < 2 ^ 32) : b.dest op = b.destAt + op := Nat.mod_eq_of_lt word

theorem before_eq {p n : Nat} (small : n ≤ p) (word : p < 2 ^ 32) : before p n = p - n := by
  rw [before]
  omega

/-- The comparisons with the ends, for pointers that do not wrap. -/
theorem src_passes {n : Nat} (small : n ≤ 16) (word : b.sourceAt + ip < 2 ^ 32) :
    before (b.src b.source.length) n < b.src ip ↔ b.source.length < ip + n := by
  have room := b.sourceRoom
  rw [src_eq word, src_eq room.2, before_eq (by omega) room.2]
  omega

theorem dest_passes {n : Nat} (small : n ≤ 16) (word : b.destAt + op < 2 ^ 32) :
    before (b.dest b.size) n < b.dest op ↔ b.size < op + n := by
  have room := b.destRoom
  rw [dest_eq word, dest_eq room.2, before_eq (by omega) room.2]
  omega

/-- A pointer wraps only behind the end of every buffer. -/
theorem wraps_iff {p length : Nat} (word : p < 2 ^ 32) (short : length < 2 ^ 32) :
    wraps p length = true ↔ 2 ^ 32 ≤ p + length := by
  rw [wraps, decide_eq_true_eq]
  omega

end Addresses

section Lengths

variable {m : Memory} {source : List Byte} {b : Buffers} {fuel length ip : Nat}

theorem drop_source (inside : ip < source.length) : source.drop ip = source[ip] :: source.drop (ip + 1) :=
  List.drop_eq_getElem_cons inside

/-- The loop reads the length that is there, or comes to one that no literals are left for. -/
structure LiteralsRead (source : List Byte) (length ip : Nat) (r : Nat × Nat) : Prop where
  forward : ip < r.2 ∧ r.2 ≤ source.length
  most : r.1 ≤ length + 255 * (r.2 - ip)
  read : (∃ more, r.1 = length + more ∧ moreLength (source.drop ip) = some (more, source.drop r.2)) ∨
    source.length < r.2 + r.1 ∧
      ∀ more input, moreLength (source.drop ip) = some (more, input) → input.length < more

/-- The length is summed up in a word. -/
theorem meets_moreLiterals (inside : ip < b.source.length) (enough : b.source.length ≤ ip + fuel) :
    Meets (moreLiterals b fuel (length % 2 ^ 32) ip) m fun r left => left = m ∧
      ∃ sum, r.1 = sum % 2 ^ 32 ∧ LiteralsRead b.source length ip (sum, r.2) := by
  induction fuel generalizing length ip with
  | zero => omega
  | succ fuel ih =>
      have here := drop_source inside
      have room := b.sourceRoom
      have more : b.src (ip + 1) < before (b.src b.source.length) 15 ↔ ip + 1 + 15 < b.source.length := by
        rw [src_eq (by omega), src_eq room.2, before_eq (by omega) room.2]
        omega
      have byte : b.source[ip].toNat < 2 ^ 8 := b.source[ip].isLt
      rw [moreLiterals]
      apply meets_bind (meets_sourceByte inside ?_)
      dsimp only
      simp only [more, Nat.mod_add_mod]
      by_cases full : b.source[ip] = 255
      · rw [full] at here
        have value : (255 : Byte).toNat = 255 := rfl
        by_cases far : ip + 1 + 15 < b.source.length
        · rw [if_pos ⟨far, full⟩, full, value]
          refine Meets.mono (ih (by omega) (by omega)) ?_
          rintro r left ⟨same, sum, word, forward, most, read⟩
          refine ⟨same, sum, word, ⟨by omega, forward.2⟩, by dsimp only at most forward ⊢; omega, ?_⟩
          cases read with
          | inl exactly =>
              obtain ⟨more, total, found⟩ := exactly
              refine .inl ⟨255 + more, by omega, ?_⟩
              rw [here, moreLength_full]
              exact ⟨more, rfl, found⟩
          | inr beyond =>
              refine .inr ⟨beyond.1, fun more input found => ?_⟩
              rw [here, moreLength_full] at found
              obtain ⟨inner, total, found'⟩ := found
              have less := beyond.2 inner input found'
              omega
        · rw [if_neg fun both => far both.1, full, value]
          refine meets_pure ⟨rfl, length + 255, rfl, ⟨Nat.lt_succ_self ip, by omega⟩, by dsimp only; omega,
            .inr ⟨by dsimp only; omega, fun more input found => ?_⟩⟩
          rw [here, moreLength_full] at found
          obtain ⟨inner, total, found'⟩ := found
          have less := length_moreLength found'
          rw [List.length_drop] at less
          omega
      · rw [if_neg fun both => full both.2]
        refine meets_pure ⟨rfl, length + b.source[ip].toNat, rfl, ⟨Nat.lt_succ_self ip, by omega⟩,
          by dsimp only; omega, .inl ⟨b.source[ip].toNat, rfl, ?_⟩⟩
        rw [here, moreLength, if_neg full]

/-- The same for the length of a match, which leaves `LASTLITERALS`. -/
structure MatchRead (source : List Byte) (length ip : Nat) (r : Option Nat × Nat) : Prop where
  forward : ip < r.2 ∧ r.2 ≤ source.length
  read : (∃ more, r.1 = some (length + more) ∧ more ≤ 255 * (r.2 - ip) ∧ r.2 + 5 ≤ source.length ∧
      moreLength (source.drop ip) = some (more, source.drop r.2)) ∨
    r.1 = none ∧ ∀ more input, moreLength (source.drop ip) = some (more, input) → input.length < 5

theorem meets_moreMatch (inside : ip < b.source.length) (enough : b.source.length ≤ ip + fuel) :
    Meets (moreMatch b fuel (length % 2 ^ 32) ip) m fun r left => left = m ∧
      ∃ sum : Option Nat, r.1 = sum.map (· % 2 ^ 32) ∧ MatchRead b.source length ip (sum, r.2) := by
  induction fuel generalizing length ip with
  | zero => omega
  | succ fuel ih =>
      have here := drop_source inside
      have room := b.sourceRoom
      have byte : b.source[ip].toNat < 2 ^ 8 := b.source[ip].isLt
      rw [moreMatch]
      apply meets_bind (meets_sourceByte inside ?_)
      dsimp only
      have near' : before (b.src b.source.length) 5 < b.src (ip + 1) ↔ b.source.length < ip + 1 + 5 :=
        src_passes (by omega) (by omega)
      simp only [near', Nat.mod_add_mod]
      by_cases near : b.source.length < ip + 1 + 5
      · rw [if_pos near]
        refine meets_pure ⟨rfl, none, rfl, ⟨Nat.lt_succ_self ip, by omega⟩, .inr ⟨rfl, fun more input found => ?_⟩⟩
        have less := length_moreLength found
        rw [List.length_drop] at less
        omega
      · rw [if_neg near]
        by_cases full : b.source[ip] = 255
        · rw [full] at here
          rw [if_pos full, full, show (255 : Byte).toNat = 255 from rfl]
          refine Meets.mono (ih (by omega) (by omega)) ?_
          rintro r left ⟨same, sum, word, forward, read⟩
          refine ⟨same, sum, word, ⟨by omega, forward.2⟩, ?_⟩
          rw [here]
          cases read with
          | inl exactly =>
              obtain ⟨more, total, most, leaves, found⟩ := exactly
              exact .inl ⟨255 + more, by rw [total, Nat.add_assoc], by dsimp only at most forward ⊢; omega, leaves,
                moreLength_full.mpr ⟨more, rfl, found⟩⟩
          | inr beyond =>
              refine .inr ⟨beyond.1, fun more input found => ?_⟩
              obtain ⟨inner, -, found'⟩ := moreLength_full.mp found
              exact beyond.2 inner input found'
        · rw [if_neg full]
          refine meets_pure ⟨rfl, some (length + b.source[ip].toNat), rfl, ⟨Nat.lt_succ_self ip, by omega⟩,
            .inl ⟨b.source[ip].toNat, rfl, by dsimp only; omega, by dsimp only; omega, ?_⟩⟩
          rw [here, moreLength, if_neg full]

variable {token : Byte} {op : Nat}

/-- The length of the literals as the plain decoder reads it, or one that it rejects too; neither pointer wraps. -/
structure RunRead (b : Buffers) (token : Byte) (ip op : Nat) (r : Option Nat × Nat) : Prop where
  forward : ip ≤ r.2 ∧ r.2 ≤ b.source.length
  words : ∀ run, r.1 = some run → b.sourceAt + r.2 + run < 2 ^ 32 ∧ b.destAt + op + run < 2 ^ 32
  read : (∃ run, r.1 = some run ∧ lengthField (token.toNat / 16) (b.source.drop ip) = some (run, b.source.drop r.2)) ∨
    (∀ run, r.1 = some run → b.source.length < r.2 + run) ∧
      ∀ run input, lengthField (token.toNat / 16) (b.source.drop ip) = some (run, input) →
        input.length < run ∨ b.size < op + run

/-- Nothing can wrap, or the literals are there and have room. -/
def RunTame (b : Buffers) (token : Byte) (ip op : Nat) : Prop :=
  Clear b ∨ ∃ run input, lengthField (token.toNat / 16) (b.source.drop ip) = some (run, input) ∧
    run ≤ input.length ∧ op + run ≤ b.size

/-- A length that the format has is the one read, or too long. -/
theorem LiteralsRead.field {sum next : Nat} (reads : LiteralsRead source 15 ip (sum, next))
    (full : token.toNat / 16 = 15) {run : Nat} {input : List Byte}
    (field : lengthField (token.toNat / 16) (source.drop ip) = some (run, input)) :
    (run = sum ∧ input.length = source.length - next) ∨ input.length < run := by
  obtain ⟨inner, total, found⟩ := (lengthField_full full).mp field
  cases reads.read with
  | inl exactly =>
      obtain ⟨more, sumEq, found'⟩ := exactly
      rw [found', Option.some.injEq, Prod.mk.injEq] at found
      dsimp only at sumEq
      refine .inl ⟨by omega, ?_⟩
      rw [← found.2, List.length_drop]
  | inr beyond =>
      have less := beyond.2 inner input found
      exact .inr (by omega)

/-- The sum of a tame run is its length in the word too. -/
theorem RunTame.small {sum next : Nat} (tame : RunTame b token ip op) (full : token.toNat / 16 = 15)
    (reads : LiteralsRead b.source 15 ip (sum, next)) : sum < 2 ^ 32 := by
  have sourceRoom := b.sourceRoom
  obtain ⟨forward, most, read⟩ := reads
  dsimp only at forward most
  rcases tame with clear | ⟨run, input, field, there, -⟩
  · have source := clear.source
    omega
  · rcases LiteralsRead.field ⟨forward, most, read⟩ full field with ⟨same, rest⟩ | less
    · omega
    · omega

theorem meets_literalLength (inside : ip ≤ b.source.length) (reached : op ≤ b.size)
    (readable : token.toNat / 16 = 15 → ip < b.source.length) (tame : RunTame b token ip op) :
    Meets (literalLength b token ip op) m fun r left => left = m ∧ RunRead b token ip op r := by
  have destRoom := b.destRoom
  have sourceRoom := b.sourceRoom
  rw [literalLength]
  by_cases full : token.toNat / 16 = 15
  · rw [if_pos full]
    apply meets_bind
    refine Meets.mono (@meets_moreLiterals m b b.source.length 15 ip (readable full) (by omega)) ?_
    rintro more left ⟨same, sum, word, reads⟩
    have small := tame.small full reads
    have forward := reads.forward
    dsimp only at forward
    rw [Nat.mod_eq_of_lt small] at word
    rw [word, dest_eq (by omega), src_eq (by omega)]
    have wrapsDest : wraps (b.destAt + op) sum = true ↔ 2 ^ 32 ≤ b.destAt + op + sum := wraps_iff (by omega) small
    have wrapsSource : wraps (b.sourceAt + more.2) sum = true ↔ 2 ^ 32 ≤ b.sourceAt + more.2 + sum :=
      wraps_iff (by omega) small
    simp only [wrapsDest, wrapsSource]
    by_cases wrapped : 2 ^ 32 ≤ b.destAt + op + sum ∨ 2 ^ 32 ≤ b.sourceAt + more.2 + sum
    · rw [if_pos wrapped]
      refine meets_pure ⟨same, ⟨by omega, forward.2⟩, nofun, .inr ⟨nofun, fun run input field => ?_⟩⟩
      rcases reads.field full field with ⟨run_eq, rest⟩ | less
      · rcases wrapped with high | high
        · exact .inr (by omega)
        · exact .inl (by omega)
      · exact .inl less
    · rw [if_neg wrapped]
      refine meets_pure ⟨same, ⟨by omega, forward.2⟩, fun run found => ?_, ?_⟩
      · rw [Option.some.injEq] at found
        rw [← found]
        omega
      cases reads.read with
      | inl exactly =>
          obtain ⟨k, total, found⟩ := exactly
          exact .inl ⟨sum, rfl, (lengthField_full full).mpr ⟨k, total, found⟩⟩
      | inr beyond =>
          have past := beyond.1
          dsimp only at past
          refine .inr ⟨fun run found => ?_, fun run input field => ?_⟩
          · rw [Option.some.injEq] at found
            rw [← found]
            exact past
          · rcases reads.field full field with ⟨run_eq, rest⟩ | less
            · exact .inl (by omega)
            · exact .inl less
  · have plain : lengthField (token.toNat / 16) (b.source.drop ip) = some (token.toNat / 16, b.source.drop ip) := by
      rw [lengthField, if_neg full]
    have byte : token.toNat < 2 ^ 8 := token.isLt
    rw [if_neg full]
    refine meets_pure ⟨rfl, ⟨Nat.le_refl ip, inside⟩, fun run found => ?_, .inl ⟨_, rfl, plain⟩⟩
    rw [Option.some.injEq] at found
    rw [← found]
    rcases tame with clear | ⟨run, input, field, there, room⟩
    · have source := clear.source
      have dest := clear.dest
      dsimp only
      omega
    · rw [plain, Option.some.injEq, Prod.mk.injEq] at field
      rw [← field.1, ← field.2, List.length_drop] at there
      rw [← field.1] at room
      dsimp only
      omega

/-- The length of the match, or one that the plain decoder rejects too. -/
structure RestRead (b : Buffers) (token : Byte) (ip op : Nat) (r : Option Nat × Nat) : Prop where
  forward : ip ≤ r.2 ∧ r.2 ≤ b.source.length
  words : ∀ length, r.1 = some length → b.destAt + op + length + 4 < 2 ^ 32
  read : (∃ length, r.1 = some length ∧ r.2 + 5 ≤ b.source.length ∧
      lengthField (token.toNat % 16) (b.source.drop ip) = some (length, b.source.drop r.2)) ∨
    r.1 = none ∧ ∀ length input, lengthField (token.toNat % 16) (b.source.drop ip) = some (length, input) →
      input.length < 5 ∨ b.size < op + length + 9

/-- Nothing can wrap, or the match ends in time. -/
def RestTame (b : Buffers) (token : Byte) (ip op : Nat) : Prop :=
  Clear b ∨ ∃ length input, lengthField (token.toNat % 16) (b.source.drop ip) = some (length, input) ∧
    op + length + 9 ≤ b.size

theorem meets_matchLength (inside : ip + 6 ≤ b.source.length) (reached : op ≤ b.size)
    (tame : RestTame b token ip op) :
    Meets (matchLength b token ip op) m fun r left => left = m ∧ RestRead b token ip op r := by
  have destRoom := b.destRoom
  rw [matchLength]
  by_cases full : token.toNat % 16 = 15
  · rw [if_pos full]
    apply meets_bind
    refine Meets.mono (@meets_moreMatch m b b.source.length 15 ip (by omega) (by omega)) ?_
    rintro more left ⟨same, sum, word, forward, read⟩
    cases read with
    | inl exactly =>
        obtain ⟨k, total, most, leaves, found⟩ := exactly
        have field : lengthField (token.toNat % 16) (b.source.drop ip) = some (15 + k, b.source.drop more.2) :=
          (lengthField_full full).mpr ⟨k, rfl, found⟩
        have small : b.destAt + op + (15 + k) + 4 < 2 ^ 32 := by
          rcases tame with clear | ⟨length, input, field', room⟩
          · have dest := clear.dest
            dsimp only at most leaves
            omega
          · rw [field, Option.some.injEq, Prod.mk.injEq] at field'
            omega
        have value : more.1 = some (15 + k) := by
          rw [word, show sum = some (15 + k) from total, Option.map_some, Nat.mod_eq_of_lt (by omega)]
        have kept : ¬ wraps (b.dest op) (15 + k) = true := by
          rw [dest_eq (by omega), wraps_iff (by omega) (by omega)]
          omega
        have stays : more.1.filter (fun length => !wraps (b.dest op) length) = some (15 + k) := by
          simp [value, kept]
        rw [stays]
        refine meets_pure ⟨same, ⟨Nat.le_of_lt forward.1, forward.2⟩, fun length found => ?_,
          .inl ⟨15 + k, rfl, leaves, field⟩⟩
        rw [Option.some.injEq] at found
        rw [← found]
        exact small
    | inr beyond =>
        have none' : more.1 = none := by rw [word, show sum = none from beyond.1, Option.map_none]
        rw [none']
        refine meets_pure ⟨same, ⟨Nat.le_of_lt forward.1, forward.2⟩, nofun, .inr ⟨rfl, fun length input found => ?_⟩⟩
        obtain ⟨inner, -, found'⟩ := (lengthField_full full).mp found
        exact .inl (beyond.2 inner input found')
  · have plain : lengthField (token.toNat % 16) (b.source.drop ip) = some (token.toNat % 16, b.source.drop ip) := by
      rw [lengthField, if_neg full]
    rw [if_neg full]
    refine meets_pure ⟨rfl, ⟨Nat.le_refl ip, by omega⟩, fun length found => ?_, .inl ⟨_, rfl, by omega, plain⟩⟩
    rw [Option.some.injEq] at found
    rw [← found]
    rcases tame with clear | ⟨length, input, field, room⟩
    · have dest := clear.dest
      omega
    · rw [plain, Option.some.injEq, Prod.mk.injEq] at field
      omega

end Lengths

section Matches

variable {m : Memory} {text : List Byte} {size op offset length : Nat}

/-- What the tables do: from the distances after the first four and eight bytes the match goes on repeating. -/
theorem tables : ∀ offset < 8, dec32table.getD offset 0 ≤ offset ∧
    4 ≤ 4 + offset - dec32table.getD offset 0 ∧ Carries offset 4 (4 + offset - dec32table.getD offset 0) ∧
    ∃ distance < 16, 8 ≤ distance ∧ distance ≤ 8 + offset ∧ Carries offset 8 distance ∧
      (distance : Int) = 8 + offset - dec32table.getD offset 0 + dec64table.getD offset 0 := by
  decide

/-- The first eight bytes repeat what stands before, and what is read next does as well. -/
structure FirstCopied (m left : Memory) (op offset p distance : Nat) : Prop where
  apart : 8 ≤ distance
  back : distance ≤ op + 8
  next : p = op + 8 - distance
  carries : Carries offset 8 distance
  repeats : Repeats left offset op (op + 8)
  before : ∀ x < op, left x = m x

theorem meets_copyFirst (known : offset ≤ op) (room : op + 12 ≤ size)
    (zeros : offset = 0 → ∀ i < 4, m (op + i) = 0) :
    Meets (copyFirst size op (op - offset) offset) m fun p left =>
      ∃ distance, FirstCopied m left op offset p distance := by
  rw [copyFirst]
  by_cases near : offset < 8
  · obtain ⟨low, four, carries, distance, -, eight, back, carries', sum⟩ := tables offset near
    have begun : Meets (copyBytes size (op + 4) 5 op (op - offset)) m fun _ left =>
        (∀ x < op, left x = m x) ∧ Repeats left offset op (op + 4) := by
      by_cases zero : offset = 0
      · rw [zero, Nat.sub_zero]
        apply (meets_copyBytes_same (by omega) (by omega) (by omega)).mono
        intro _ left same
        rw [same]
        refine ⟨fun _ _ => rfl, repeats_zero fun x start upto => ?_⟩
        have byte := zeros zero (x - op) (by omega)
        rw [Nat.add_sub_cancel' start] at byte
        exact byte
      · apply (meets_copyBytes (by omega) known (by omega) (by omega) (by omega)).mono
        intro _ left trails
        exact ⟨trails.before, trails.repeats (by omega)⟩
    rw [if_pos near]
    apply meets_bind
    apply begun.mono
    rintro _ first ⟨before, repeats⟩
    have source : op - offset + dec32table.getD offset 0 = op + 4 - (4 + offset - dec32table.getD offset 0) := by omega
    dsimp only
    apply meets_bind (meets_copyWithin (by omega) (by omega) (by omega) ?_)
    have trails := trails_written (m := first) (d := op + 4) four (by omega)
    rw [← source] at trails
    apply meets_pure
    refine ⟨distance, eight, by omega, by omega, carries', ?_, ?_⟩
    · have carries'' : Carries offset (op + 4 - op) (4 + offset - dec32table.getD offset 0) := by
        rw [Nat.add_sub_cancel_left]
        exact carries
      exact repeats_extend carries'' (by omega) (repeats_congr repeats trails.before) trails.copied
    · intro x early
      rw [trails.before x (by omega), before x early]
  · rw [if_neg near]
    apply meets_bind (meets_copyWithin (by omega) (by omega) (by omega) ?_)
    have trails : Trails m _ offset op (op + 8) := trails_written (by omega) known
    apply meets_pure
    refine ⟨offset, by omega, by omega, by omega, ?_, trails.repeats (by omega), trails.before⟩
    rw [Carries, if_neg (by omega)]
    exact ⟨by omega, dvd_rfl, by omega⟩

/-- However the rest of a match is copied, the text goes on as the format says. -/
theorem begins_match {first left : Memory} {p distance : Nat} (begins : Begins m text) (known : offset ≤ text.length)
    (copied : FirstCopied m first text.length offset p distance)
    (trails : Trails first left distance (text.length + 8) (text.length + length)) :
    Begins left (copyBack offset length text) := by
  have kept : Begins left text := by
    apply begins_congr begins
    intro x early
    rw [trails.before x (by omega), copied.before x early]
  have carries : Carries offset (text.length + 8 - text.length) distance := by
    rw [Nat.add_sub_cancel_left]
    exact copied.carries
  exact begins_copyBack kept known
    (repeats_extend carries (by omega) (repeats_congr copied.repeats trails.before) trails.copied)

/-- A match is copied as the format says, unless it ends too near to the end of the buffer. -/
theorem meets_copyMatch {b : Buffers} (begins : Begins m text) (known : offset ≤ text.length)
    (room : text.length + 12 ≤ b.size) (zeros : offset = 0 → ∀ i < 4, m (text.length + i) = 0) (long : 4 ≤ length)
    (word : b.destAt + (text.length + length) < 2 ^ 32) :
    Meets (copyMatch b text.length offset length) m fun copied left =>
      if copied then text.length + length + 5 ≤ b.size ∧ Begins left (copyBack offset length text)
      else b.size < text.length + length + 5 := by
  have destRoom := b.destRoom
  have twelve : before (b.dest b.size) 12 < b.destAt + (text.length + length) ↔
      b.size < text.length + length + 12 := by
    rw [← dest_eq word, dest_passes (by omega) word]
  have five : before (b.dest b.size) 5 < b.destAt + (text.length + length) ↔ b.size < text.length + length + 5 := by
    rw [← dest_eq word, dest_passes (by omega) word]
  rw [copyMatch, before_eq known (by omega)]
  apply meets_bind
  apply (meets_copyFirst known room zeros).mono
  rintro p first ⟨distance, copied⟩
  have apart := copied.apart
  have back := copied.back
  have next := copied.next
  dsimp only
  rw [dest_eq word, Nat.add_sub_cancel_left]
  by_cases near : b.size < text.length + length + 12
  · rw [if_pos (twelve.mpr near)]
    by_cases beyond : b.size < text.length + length + 5
    · rw [if_pos (five.mpr beyond)]
      exact meets_pure (by simpa using beyond)
    · rw [if_neg fun passes => beyond (five.mp passes)]
      by_cases early : text.length + 8 < b.size - 7
      · rw [if_pos early, next]
        apply meets_bind
        apply (meets_copyChunks_within apart back (by omega) (by omega) (by omega) (by omega)).mono
        intro _ middle chunks
        have source : text.length + 8 - distance + (b.size - 7 - (text.length + 8)) = b.size - 7 - distance := by omega
        rw [source]
        apply meets_bind
        apply (meets_copyBytes (by omega) (by omega) (by omega) (by omega) (by omega)).mono
        intro _ left bytes
        have trails := trails_join (by omega) (chunks.shrink (k := b.size - 7) (by omega)) bytes
        exact meets_pure (by simpa using ⟨by omega, begins_match begins known copied trails⟩)
      · rw [if_neg early, next]
        apply meets_bind
        apply (meets_copyBytes (by omega) back (by omega) (by omega) (by omega)).mono
        intro _ left trails
        exact meets_pure (by simpa using ⟨by omega, begins_match begins known copied trails⟩)
  · rw [if_neg fun passes => near (twelve.mp passes), next]
    apply meets_bind (meets_copyWithin (by omega) (by omega) (by omega) ?_)
    have eight := trails_written (m := first) apart back
    by_cases more : 16 < length
    · have source : text.length + 8 - distance + 8 = text.length + 8 + 8 - distance := by omega
      rw [if_pos more, source]
      apply meets_bind
      apply (meets_copyChunks_within apart (by omega) (by omega) (by omega) (by omega) (by omega)).mono
      intro _ left chunks
      have trails := trails_join (by omega) eight (chunks.shrink (k := text.length + length) (by omega))
      exact meets_pure (by simpa using ⟨by omega, begins_match begins known copied trails⟩)
    · rw [if_neg more]
      have trails := eight.shrink (k := text.length + length) (by omega)
      exact meets_bind (meets_pure (meets_pure (by simpa using ⟨by omega, begins_match begins known copied trails⟩)))

end Matches

/-- What a call returns and leaves, beside what the plain decoder makes of its input. -/
def Agrees (plain : Option (List Byte)) (result : Int) (left : Memory) : Prop :=
  (∃ out, plain = some out ∧ result = out.length ∧ Begins left out) ∨ plain = none ∧ result < 0

theorem outputError_neg (ip : Nat) : outputError ip < 0 := by
  rw [outputError]
  omega

section Sequences

variable {b : Buffers} {m : Memory} {text : List Byte} {token : Byte} {ip op fuel : Nat}

/-- The place of the next sequence, with the text so far. -/
structure Continues (b : Buffers) (place : Nat × Nat) (left : Memory) (input text : List Byte) : Prop where
  rest : input = b.source.drop place.1
  reached : place.2 = text.length
  begins : Begins left text
  source : place.1 + 5 ≤ b.source.length
  room : text.length ≤ b.size

def MatchDone (b : Buffers) (ip : Nat) (plain : Option (List Byte × List Byte)) : Int ⊕ Nat × Nat → Memory → Prop
  | .inl result, _ => plain = none ∧ result < 0
  | .inr place, left => ip < place.1 ∧ ∃ input text, plain = some (input, text) ∧ Continues b place left input text

/-- Nothing can wrap, or the plain decoder takes the match. -/
def MatchTame (b : Buffers) (token : Byte) (ip : Nat) (text : List Byte) : Prop :=
  Clear b ∨ ∃ next, plainMatch b.size token (b.source.drop ip) text = some next

/-- The bytes of an offset in front of what follows it. -/
theorem drop_offset (inside : ip + 2 ≤ b.source.length) :
    b.source.drop ip = b.source[ip] :: b.source[ip + 1] :: b.source.drop (ip + 2) := by
  rw [drop_source (by omega), drop_source (by omega)]

/-- The check of the offset is that of the plain decoder. -/
theorem MatchTame.unknown_iff (inside : ip + 2 ≤ b.source.length) (reached : text.length ≤ b.size)
    (tame : MatchTame b token ip text) :
    before (b.dest text.length) (b.source[ip].toNat + 256 * b.source[ip + 1].toNat) < b.destAt ↔
      text.length < b.source[ip].toNat + 256 * b.source[ip + 1].toNat := by
  have destRoom := b.destRoom
  have low : b.source[ip].toNat < 2 ^ 8 := b.source[ip].isLt
  have high : b.source[ip + 1].toNat < 2 ^ 8 := b.source[ip + 1].isLt
  rw [dest_eq (by omega)]
  rcases tame with clear | ⟨next, found⟩
  · have start := clear.low
    rw [before_eq (by omega) (by omega)]
    omega
  · rw [drop_offset inside, plainMatch] at found
    by_cases unknown : text.length < b.source[ip].toNat + 256 * b.source[ip + 1].toNat
    · rw [if_pos unknown] at found
      cases found
    · rw [before_eq (by omega) (by omega)]
      omega

theorem MatchTame.rest (inside : ip + 2 ≤ b.source.length) (tame : MatchTame b token ip text) :
    RestTame b token (ip + 2) text.length := by
  refine tame.imp_right ?_
  rintro ⟨next, found⟩
  rw [drop_offset inside, plainMatch] at found
  by_cases unknown : text.length < b.source[ip].toNat + 256 * b.source[ip + 1].toNat
  · rw [if_pos unknown] at found
    cases found
  · rw [if_neg unknown] at found
    obtain ⟨field, read, result⟩ := Option.bind_eq_some_iff.mp found
    by_cases bad : field.2.length < 5 ∨ b.size < text.length + field.1 + 9
    · rw [if_pos bad] at result
      cases result
    · exact ⟨field.1, field.2, read, by omega⟩

theorem meets_matchPart (begins : Begins m text) (inside : ip + 8 ≤ b.source.length)
    (room : text.length + 12 ≤ b.size) (tame : MatchTame b token ip text) :
    Meets (matchPart b token ip text.length) m (MatchDone b ip (plainMatch b.size token (b.source.drop ip) text)) := by
  have destRoom := b.destRoom
  have outside := tame.unknown_iff (by omega) (by omega)
  have rest := tame.rest (by omega)
  rw [matchPart, drop_offset (by omega), plainMatch]
  apply meets_bind (meets_sourceByte (by omega) ?_)
  apply meets_bind (meets_sourceByte (by omega) ?_)
  dsimp only
  generalize b.source[ip].toNat + 256 * b.source[ip + 1].toNat = offset at outside ⊢
  by_cases unknown : text.length < offset
  · rw [if_pos unknown, if_pos (outside.mpr unknown)]
    exact meets_pure ⟨rfl, outputError_neg _⟩
  rw [if_neg unknown, if_neg fun other => unknown (outside.mp other)]
  apply meets_bind (meets_store (by omega) ?_)
  have kept : Begins (written text.length (fun i => (BitVec.ofNat 32 offset).extractLsb' (8 * i) 8) 4 m) text :=
    begins_written begins (Nat.le_refl _)
  have zeros : offset = 0 → ∀ i < 4,
      written text.length (fun i => (BitVec.ofNat 32 offset).extractLsb' (8 * i) 8) 4 m (text.length + i) = 0 := by
    intro zero i below
    rw [written_inside below, zero]
    exact BitVec.extractLsb'_zero
  apply meets_bind
  refine Meets.mono (meets_matchLength (by omega) (by omega) rest) ?_
  rintro rest left ⟨same, forward, words, read⟩
  rw [same]
  cases read with
  | inl exactly =>
      obtain ⟨length, found, leaves, field⟩ := exactly
      have word := words length found
      rw [found, field, Option.bind_some]
      dsimp only
      rw [Nat.mod_eq_of_lt (show length + 4 < 2 ^ 32 by omega),
        Nat.mod_eq_of_lt (show text.length + (length + 4) < 2 ^ 32 by omega)]
      apply meets_bind
      apply (meets_copyMatch kept (by omega) room zeros (Nat.le_add_left 4 length) (by omega)).mono
      intro copied last result
      by_cases fine : copied = true
      · rw [if_pos fine] at result
        rw [if_pos fine, List.length_drop, if_neg (by omega)]
        have size := length_copyBack offset (length + 4) text
        exact meets_pure ⟨by omega, _, _, rfl, ⟨rfl, size.symm, result.2, leaves, by omega⟩⟩
      · rw [if_neg fine] at result
        rw [if_neg fine, if_pos (by omega)]
        exact meets_pure ⟨rfl, outputError_neg _⟩
  | inr rejected =>
      obtain ⟨found, bad⟩ := rejected
      rw [found]
      apply meets_pure
      refine ⟨?_, outputError_neg _⟩
      rw [Option.bind_eq_none_iff]
      rintro ⟨length, input⟩ field
      have wrong := bad length input field
      exact if_pos (by omega)

def Stepped (b : Buffers) (ip : Nat) (text : List Byte) : Int ⊕ Nat × Nat → Memory → Prop
  | .inl result, left => ∀ fuel, Agrees (plainDecode b.size (fuel + 1) (b.source.drop ip) text) result left
  | .inr place, left => ip < place.1 ∧ ∃ input text', Continues b place left input text' ∧
      ∀ fuel, plainDecode b.size (fuel + 1) (b.source.drop ip) text = plainDecode b.size fuel input text'

/-- Nothing can wrap, or the plain decoder comes to an end with a text. -/
def Tame (b : Buffers) (fuel ip : Nat) (text : List Byte) : Prop :=
  Clear b ∨ ∃ out, plainDecode b.size fuel (b.source.drop ip) text = some out

theorem Tame.run (inside : ip < b.source.length) (tame : Tame b (fuel + 1) ip text) :
    RunTame b b.source[ip] (ip + 1) text.length := by
  refine tame.imp_right ?_
  rintro ⟨out, decoded⟩
  rw [drop_source inside, plainDecode] at decoded
  obtain ⟨field, read, result⟩ := Option.bind_eq_some_iff.mp decoded
  refine ⟨field.1, field.2, read, ?_⟩
  by_cases last : b.size < text.length + field.1 + 12 ∨ field.2.length < field.1 + 8
  · rw [if_pos last] at result
    by_cases fine : field.2.length = field.1 ∧ text.length + field.1 ≤ b.size
    · omega
    · rw [if_neg fine] at result
      cases result
  · omega

/-- The comparisons behind a run are those of the plain decoder, when neither pointer wraps. -/
theorem ends_iff {length : Nat} (words : b.sourceAt + ip + length < 2 ^ 32 ∧ b.destAt + op + length < 2 ^ 32) :
    (before (b.dest b.size) 12 < b.dest (op + length) ∨ before (b.src b.source.length) 8 < b.src (ip + length) ↔
      b.size < op + length + 12 ∨ b.source.length < ip + length + 8) ∧
    (b.src (ip + length) ≠ b.src b.source.length ∨ b.dest b.size < b.dest (op + length) ↔
      ip + length ≠ b.source.length ∨ b.size < op + length) := by
  have destRoom := b.destRoom
  have sourceRoom := b.sourceRoom
  refine ⟨or_congr (dest_passes (by omega) (by omega)) (src_passes (by omega) (by omega)), ?_⟩
  rw [src_eq (by omega), src_eq (by omega), dest_eq (by omega), dest_eq (by omega)]
  omega

/-- The literals that a block ends with. -/
theorem meets_lastLiterals {length : Nat} (begins : Begins m text) (whole : ip + length = b.source.length)
    (room : text.length + length ≤ b.size) :
    Meets (copyIn b.source b.size text.length ip length) m fun _ left => Begins left (text ++ b.source.drop ip) := by
  refine meets_copyIn (by omega) (by omega) ?_
  apply begins_append (begins_written begins (Nat.le_refl _))
  intro i below
  rw [List.length_drop] at below
  rw [written_inside (by omega), List.getD_eq_getElem?_getD, List.getD_eq_getElem?_getD, List.getElem?_drop]

/-- Literals that are followed by a match. -/
theorem meets_moreParts {length : Nat} (begins : Begins m text) (inside : ip + length + 8 ≤ b.source.length)
    (room : text.length + length + 12 ≤ b.size)
    (tame : MatchTame b token (ip + length) (text ++ (b.source.drop ip).take length)) :
    Meets (do
      copyChunks (fun d s => copyIn b.source b.size d s 8) (text.length + length) (length + 1) text.length ip
      matchPart b token (ip + length) (text.length + length)) m
      (MatchDone b (ip + length) (plainMatch b.size token (b.source.drop (ip + length))
        (text ++ (b.source.drop ip).take length))) := by
  apply meets_bind
  apply (meets_copyChunks_in (n := length) (by omega) (by omega) rfl (by omega)).mono
  rintro _ middle ⟨before, copied⟩
  have taken : ((b.source.drop ip).take length).length = length := by
    rw [List.length_take, List.length_drop]
    omega
  have more : Begins middle (text ++ (b.source.drop ip).take length) := by
    apply begins_append (begins_congr begins before)
    intro i below
    rw [copied i (by omega), List.getD_eq_getElem?_getD, List.getD_eq_getElem?_getD,
      List.getElem?_take_of_lt (by omega), List.getElem?_drop]
  have size : (text ++ (b.source.drop ip).take length).length = text.length + length := by
    rw [List.length_append, taken]
  rw [← size]
  exact meets_matchPart more (by omega) (by omega) tame

/-- One turn of the main loop is one sequence of the plain decoder. -/
theorem meets_sequence (begins : Begins m text) (inside : ip < b.source.length) (reached : text.length ≤ b.size)
    (readable : ip + 1 < b.source.length ∨ b.source[ip].toNat / 16 ≠ 15) (tame : Tame b (fuel + 1) ip text) :
    Meets (sequence b ip text.length) m (Stepped b ip text) := by
  have here := drop_source inside
  rw [sequence]
  apply meets_bind (meets_sourceByte inside ?_)
  apply meets_bind
  refine Meets.mono (meets_literalLength (by omega) reached (fun full => by omega) (tame.run inside)) ?_
  rintro run left ⟨same, forward, words, read⟩
  rw [same]
  cases read with
  | inl exactly =>
      obtain ⟨length, found, field⟩ := exactly
      have word := words length found
      have plain (fuel : Nat) : plainDecode b.size (fuel + 1) (b.source.drop ip) text =
          if b.size < text.length + length + 12 ∨ (b.source.drop run.2).length < length + 8 then
            if (b.source.drop run.2).length = length ∧ text.length + length ≤ b.size then
              some (text ++ b.source.drop run.2) else none
          else (plainMatch b.size b.source[ip] ((b.source.drop run.2).drop length)
            (text ++ (b.source.drop run.2).take length)).bind fun next => plainDecode b.size fuel next.1 next.2 := by
        rw [here, plainDecode, field, Option.bind_some]
      obtain ⟨ends, wrongs⟩ := ends_iff word
      rw [found]
      dsimp only
      rw [List.length_drop, List.drop_drop] at plain
      by_cases last : b.size < text.length + length + 12 ∨ b.source.length < run.2 + length + 8
      · rw [if_pos (ends.mpr last)]
        by_cases wrong : run.2 + length ≠ b.source.length ∨ b.size < text.length + length
        · rw [if_pos (wrongs.mpr wrong)]
          apply meets_pure
          intro fuel
          refine .inr ⟨?_, outputError_neg _⟩
          rw [plain, if_pos (by omega), if_neg (by omega)]
        · rw [if_neg fun other => wrong (wrongs.mp other)]
          apply meets_bind
          apply (meets_lastLiterals begins (by omega) (by omega)).mono
          intro _ left copied
          apply meets_pure
          intro fuel
          refine .inl ⟨text ++ b.source.drop run.2, ?_, ?_, copied⟩
          · rw [plain, if_pos (by omega), if_pos (by omega)]
          · rw [List.length_append, List.length_drop]
            push_cast
            omega
      · rw [if_neg fun other => last (ends.mp other), dest_eq (show b.destAt + (text.length + length) < 2 ^ 32 by omega),
          Nat.add_sub_cancel_left, Nat.mod_eq_of_lt (show run.2 + length < 2 ^ 32 by omega),
          Nat.mod_eq_of_lt (show text.length + length < 2 ^ 32 by omega)]
        have goesOn (fuel : Nat) : plainDecode b.size (fuel + 1) (b.source.drop ip) text =
            (plainMatch b.size b.source[ip] (b.source.drop (run.2 + length))
              (text ++ (b.source.drop run.2).take length)).bind fun next => plainDecode b.size fuel next.1 next.2 := by
          rw [plain, if_neg (by omega)]
        have matchTame : MatchTame b b.source[ip] (run.2 + length) (text ++ (b.source.drop run.2).take length) := by
          refine tame.imp_right ?_
          rintro ⟨out, decoded⟩
          rw [goesOn] at decoded
          obtain ⟨next, found, -⟩ := Option.bind_eq_some_iff.mp decoded
          exact ⟨next, found⟩
        apply (meets_moreParts begins (by omega) (by omega) matchTame).mono
        rintro (result | place) last'
        · rintro ⟨none', negative⟩ fuel
          exact .inr ⟨by rw [goesOn, none', Option.bind_none], negative⟩
        · rintro ⟨further, input, text', decoded, continues⟩
          refine ⟨by omega, input, text', continues, fun fuel => ?_⟩
          rw [goesOn, decoded, Option.bind_some]
  | inr rejected =>
      obtain ⟨wrong, bad⟩ := rejected
      have plain (fuel : Nat) : plainDecode b.size (fuel + 1) (b.source.drop ip) text = none := by
        rw [here, plainDecode, Option.bind_eq_none_iff]
        rintro ⟨length, input⟩ field
        have none' := bad length input field
        dsimp only
        rw [if_pos (by omega), if_neg (by omega)]
      cases found : run.1 with
      | none => exact meets_pure fun fuel => .inr ⟨plain fuel, outputError_neg _⟩
      | some length =>
          have past := wrong length found
          obtain ⟨ends, wrongs⟩ := ends_iff (words length found)
          dsimp only
          rw [if_pos (ends.mpr (by omega)), if_pos (wrongs.mpr (by omega))]
          exact meets_pure fun fuel => .inr ⟨plain fuel, outputError_neg _⟩

/-- The main loop comes to its end with what the plain decoder says. -/
theorem meets_sequences (begins : Begins m text) (inside : ip < b.source.length) (reached : text.length ≤ b.size)
    (readable : ip + 1 < b.source.length ∨ b.source[ip].toNat / 16 ≠ 15) (enough : b.source.length < ip + fuel)
    (tame : Tame b fuel ip text) :
    Meets (sequences b fuel ip text.length) m fun result left =>
      Agrees (plainDecode b.size fuel (b.source.drop ip) text) result left := by
  induction fuel generalizing ip text m with
  | zero => omega
  | succ fuel ih =>
      rw [sequences]
      apply meets_bind
      apply (meets_sequence begins inside reached readable tame).mono
      rintro (result | place) left
      · intro stepped
        exact meets_pure (stepped fuel)
      · rintro ⟨further, input, text', continues, decoded⟩
        have source := continues.source
        rw [Tame, decoded fuel, continues.rest] at tame
        rw [decoded fuel, continues.rest]
        dsimp only
        rw [continues.reached]
        exact ih continues.begins (by omega) continues.room (.inl (by omega)) (by omega) tame

end Sequences

section Calls

variable {b : Buffers} {m : Memory}

/-- Inputs that the call reads without leaving them. The length of the literals is read before it is known to be there. -/
def Readable (b : Buffers) : Prop :=
  b.size = 0 ∨ 2 ≤ b.source.length ∨ ∃ token, b.source = [token] ∧ token.toNat < 0xf0

theorem meets_decompressSafe (output : 0 < b.size) (readable : Readable b)
    (tame : Tame b (b.source.length + 1) 0 []) :
    Meets (decompressSafe b) m fun result left =>
      Agrees (plainDecode b.size (b.source.length + 1) b.source []) result left := by
  have start : Begins m [] := fun _ below => absurd below (Nat.not_lt_zero _)
  have run (inside : 0 < b.source.length) (more : 0 + 1 < b.source.length ∨ b.source[0].toNat / 16 ≠ 15) :
      Meets (sequences b (b.source.length + 1) 0 ([] : List Byte).length) m _ :=
    meets_sequences start inside (Nat.zero_le _) more (by omega) tame
  rw [decompressSafe, if_neg (by omega)]
  rw [List.length_nil] at run
  rcases readable with none | long | ⟨token, one, low⟩
  · omega
  · exact run (by omega) (.inl (by omega))
  · have inside : 0 < b.source.length := by rw [one, List.length_singleton]; exact Nat.one_pos
    have first : b.source[0] = token := by simp only [one, List.getElem_cons_zero]
    exact run inside (.inr (by rw [first]; omega))

theorem readable_of_run (ran : ((decompressSafe b).run m).isSome) : Readable b := by
  by_contra unreadable
  simp only [Readable, not_or] at unreadable
  obtain ⟨output, short, high⟩ := unreadable
  rw [decompressSafe, if_neg output] at ran
  cases shape : b.source with
  | nil => simp [shape, sequences, sequence, sourceByte] at ran
  | cons token rest =>
      have alone : rest = [] := by
        rw [shape, List.length_cons] at short
        exact List.eq_nil_of_length_eq_zero (by omega)
      rw [alone] at shape
      have full : token.toNat / 16 = 15 := by
        have byte : token.toNat < 2 ^ 8 := token.isLt
        have large : ¬token.toNat < 0xf0 := fun less => high ⟨token, shape, less⟩
        omega
      simp [shape, sequences, sequence, sourceByte, literalLength, full, moreLiterals] at ran

/-- A call whose pointers cannot wrap stays inside its buffers exactly if its input is none of the two that are too
short for their token. -/
theorem decompressSafe_inside_iff (b : Buffers) (clear : Clear b) (m : Memory) :
    ((decompressSafe b).run m).isSome ↔ Readable b := by
  constructor
  · exact readable_of_run
  · intro readable
    by_cases output : 0 < b.size
    · obtain ⟨result, left, ran, -⟩ := meets_decompressSafe (m := m) output readable (.inl clear)
      rw [ran]
      rfl
    · rw [decompressSafe, if_pos (by omega)]
      by_cases one : b.source.length = 1
      · rw [if_pos one]
        have ends : Meets (do let first ← sourceByte b.source 0; pure (if first = 0 then 0 else -1) : Code Int) m
            fun _ _ => True := meets_bind (meets_sourceByte (by omega) (meets_pure trivial))
        obtain ⟨result, left, ran, -⟩ := ends
        rw [ran]
        rfl
      · rw [if_neg one]
        rfl

/-- Three literals, the same three and one again, and five literals, in a buffer of twenty bytes. -/
def smallBuffers : Buffers :=
  ⟨[0x30, 1, 2, 3, 3, 0, 0x50, 4, 5, 6, 7, 8], 0x3ffb0000, 0x3ffc0000, 20, by decide, by decide, by decide⟩

theorem smallBuffers_clear : Clear smallBuffers := ⟨by decide, by decide, by decide⟩

/-- A token that announces more than fourteen literals, and nothing else. -/
def loneToken : Buffers := ⟨[0xf0], 0x3ffb0000, 0x3ffc0000, 20, by decide, by decide, by decide⟩

theorem smallBuffers_inside : ((decompressSafe smallBuffers).run fun _ => 0xa5).isSome ∧
    ¬ ((decompressSafe loneToken).run fun _ => 0xa5).isSome := by
  rw [decompressSafe_inside_iff smallBuffers smallBuffers_clear,
    decompressSafe_inside_iff loneToken ⟨by decide, by decide, by decide⟩]
  refine ⟨.inr (.inl (by decide)), ?_⟩
  rintro (never | never | ⟨token, one, low⟩)
  · exact absurd never (by decide)
  · exact absurd never (by decide)
  · rw [show token = 0xf0 from (List.singleton_inj.mp one).symm] at low
    exact absurd low (by decide)

/-- A match of 4096 bytes at the end of the address space: the check for a wrapped pointer lets all but the last four
of them pass. -/
def highBuffers : Buffers :=
  ⟨[0x0f, 0, 0] ++ List.replicate 15 255 ++ [252, 0x50, 1, 2, 3, 4, 5], 0x3ffb0000, 0xfffff000, 4000, by decide,
    by decide, by decide⟩

example : (decompressSafe highBuffers).run (fun _ => 0) = none := rfl

/-- What a call makes of its input is what the plain decoder makes of it. -/
theorem decompressSafe_plain (clear : Clear b) (output : 0 < b.size) {result : Int} {left : Memory}
    (ran : (decompressSafe b).run m = some (result, left)) :
    Agrees (plainDecode b.size (b.source.length + 1) b.source []) result left := by
  have readable : Readable b := readable_of_run (by rw [ran]; rfl)
  obtain ⟨result', left', ran', agrees⟩ := meets_decompressSafe (m := m) output readable (.inl clear)
  rw [ran, Option.some.injEq, Prod.mk.injEq] at ran'
  rw [ran'.1, ran'.2]
  exact agrees

theorem smallBuffers_plain : ∃ left, (decompressSafe smallBuffers).run (fun _ => 0xa5) = some (12, left) ∧
    Agrees (plainDecode 20 13 smallBuffers.source []) 12 left :=
  ⟨_, rfl, decompressSafe_plain (b := smallBuffers) smallBuffers_clear (by decide) rfl⟩

end Calls

end ZeroTierNode.Lz4Decompress

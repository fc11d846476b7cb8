import ZeroTierNode.Lz4Decompress

/-!
`LZ4_compress_generic` as a packet's compression calls it: a table of 16-bit positions, no dictionary, and no check of
the output, which has room for `LZ4_compressBound`. What it writes is an encoding of its input.
-/

namespace ZeroTierNode.Lz4Compress
open Library.Bytes Library.StreamBuffers Library.BackReferences Library.CheckedCode Lz4Blocks

section Code

/-- `LZ4_hash4` for `byU16`, with `LZ4_HASHLOG + 1` bits. -/
def hash4 (sequence : BitVec 32) : Nat := ((sequence * 2654435761#32) >>> 19).toNat

def hashPosition (source : List Byte) (p : Nat) : Code Nat := do
  let sequence ← sourceWord32 source p
  pure (hash4 sequence)

/-- `hashTable` as an array of `U16`: twice `LZ4_HASH_SIZE_U32` entries. -/
abbrev Table := Nat → Nat

def putPositionOnHash (p h : Nat) (table : Table) : Code Table :=
  if h < 2 ^ 13 then pure (Function.update table h (p % 2 ^ 16)) else failure

def putPosition (source : List Byte) (p : Nat) (table : Table) : Code Table := do
  let h ← hashPosition source p
  putPositionOnHash p h table

def getPositionOnHash (h : Nat) (table : Table) : Code Nat := if h < 2 ^ 13 then pure (table h) else failure

/-- "Find a match": `ip` and `match`, or none for `goto _last_literals`. The number of tries is counted for the step. -/
def findMatch (source : List Byte) : Nat → Table → Nat → Nat → Nat → Nat → Code (Option (Nat × Nat) × Table)
  | 0, _, _, _, _, _ => failure
  | fuel + 1, table, forwardIp, step, searchMatchNb, forwardH => do
    let h := forwardH
    let ip := forwardIp
    let forwardIp := forwardIp + step
    let step := searchMatchNb / 2 ^ 6
    if source.length < forwardIp + 12 then pure (none, table)
    else do
      let p ← getPositionOnHash h table
      let forwardH ← hashPosition source forwardIp
      let table ← putPositionOnHash ip h table
      let there ← sourceWord32 source p
      let here ← sourceWord32 source ip
      if there ≠ here then findMatch source fuel table forwardIp step (searchMatchNb + 1) forwardH
      else pure (some (ip, p), table)

/-- "Catch up" -/
def catchUp (source : List Byte) (anchor : Nat) : Nat → Nat → Nat → Code (Nat × Nat)
  | 0, _, _ => failure
  | fuel + 1, ip, p =>
    if anchor < ip ∧ 0 < p then do
      let here ← sourceByte source (ip - 1)
      let there ← sourceByte source (p - 1)
      if here = there then catchUp source anchor fuel (ip - 1) (p - 1) else pure (ip, p)
    else pure (ip, p)

/-- `__builtin_ctz(val) >> 3` -/
def nbCommonBytes (val : BitVec 32) : Nat := val.ctz.toNat / 8

/-- The end of `LZ4_count`: two bytes if they are there and the same, and one. -/
def countTwo (source : List Byte) (limit pIn pMatch : Nat) : Code Nat :=
  if pIn + 1 < limit then do
    let there ← sourceWord16 source pMatch
    let here ← sourceWord16 source pIn
    pure (if there = here then 2 else 0)
  else pure 0

def countOne (source : List Byte) (limit pIn pMatch : Nat) : Code Nat :=
  if pIn < limit then do
    let there ← sourceByte source pMatch
    let here ← sourceByte source pIn
    pure (if there = here then pIn + 1 else pIn)
  else pure pIn

def countTail (source : List Byte) (limit pIn pMatch : Nat) : Code Nat := do
  let two ← countTwo source limit pIn pMatch
  countOne source limit (pIn + two) (pMatch + two)

/-- The loop of `LZ4_count`: where `pIn` comes to. -/
def countFrom (source : List Byte) (limit : Nat) : Nat → Nat → Nat → Code Nat
  | 0, _, _ => failure
  | fuel + 1, pIn, pMatch =>
    if pIn + 3 < limit then do
      let there ← sourceWord32 source pMatch
      let here ← sourceWord32 source pIn
      if there ^^^ here = 0 then countFrom source limit fuel (pIn + 4) (pMatch + 4)
      else pure (pIn + nbCommonBytes (there ^^^ here))
    else countTail source limit pIn pMatch

def count (source : List Byte) (pIn pMatch limit : Nat) : Code Nat := do
  let stop ← countFrom source limit (source.length + 1) pIn pMatch
  pure (stop - pIn)

/-- `for (; len >= 255; len -= 255) *op++ = 255; *op++ = (BYTE)len;` -/
def lengthLoop (size : Nat) : Nat → Nat → Nat → Code Nat
  | 0, _, _ => failure
  | fuel + 1, op, len =>
    if 255 ≤ len then do
      store size op (fun _ => 255) 1
      lengthLoop size fuel (op + 1) (len - 255)
    else do
      store size op (fun _ => BitVec.ofNat 8 len) 1
      pure (op + 1)

/-- The token at `op` and the length of the literals behind it. -/
def putRun (size op litLength : Nat) : Code Nat :=
  if 15 ≤ litLength then do
    store size op (fun _ => 0xf0) 1
    lengthLoop size (litLength + 1) (op + 1) (litLength - 15)
  else do
    store size op (fun _ => BitVec.ofNat 8 (litLength * 16)) 1
    pure (op + 1)

/-- "Encode Literals" -/
def putLiterals (source : List Byte) (size op anchor ip : Nat) : Code Nat := do
  let litLength := ip - anchor
  let op ← putRun size op litLength
  copyChunks (fun d s => copyIn source size d s 8) (op + litLength) (litLength + 1) op anchor
  pure (op + litLength)

/-- `LZ4_write32(op, 0xFFFFFFFF); while (matchCode >= 4 * 255) { ... }`, after its first word. -/
def fillLoop (size : Nat) : Nat → Nat → Nat → Code (Nat × Nat)
  | 0, _, _ => failure
  | fuel + 1, op, matchCode =>
    if 4 * 255 ≤ matchCode then do
      store size (op + 4) (fun _ => 255) 4
      fillLoop size fuel (op + 4) (matchCode - 4 * 255)
    else pure (op, matchCode)

/-- The length of a match, in its token and at `op`. -/
def putMatchLength (size token op matchCode : Nat) : Code Nat := do
  let half ← load size token
  if 15 ≤ matchCode then do
    store size token (fun _ => half + 15) 1
    store size op (fun _ => 255) 4
    let filled ← fillLoop size (matchCode + 1) op (matchCode - 15)
    let op := filled.1 + filled.2 / 255
    store size op (fun _ => BitVec.ofNat 8 (filled.2 % 255)) 1
    pure (op + 1)
  else do
    store size token (fun _ => half + BitVec.ofNat 8 matchCode) 1
    pure op

/-- From `_next_match` on: the offset and the length of the match, with `ip` and `op` behind it. -/
def putMatch (source : List Byte) (size ip p token op : Nat) : Code (Nat × Nat) := do
  store size op (fun i => (BitVec.ofNat 16 (ip - p)).extractLsb' (8 * i) 8) 2
  let matchCode ← count source (ip + 4) (p + 4) (source.length - 5)
  let op ← putMatchLength size token (op + 2) matchCode
  pure (ip + (4 + matchCode), op)

/-- Where the main loop is: before a search, or at `_next_match`. -/
inductive Stage where
  | search (ip forwardH : Nat)
  | matched (ip p token : Nat)

/-- The main loop: `anchor` and `op` when it is left for the last literals. -/
def mainLoop (source : List Byte) (size : Nat) : Nat → Stage → Nat → Nat → Table → Code (Nat × Nat)
  | 0, _, _, _, _ => failure
  | fuel + 1, .search ip forwardH, anchor, op, table => do
    let found ← findMatch source (source.length + 1) table ip 1 (1 * 2 ^ 6) forwardH
    match found.1 with
    | none => pure (anchor, op)
    | some (ip, p) => do
      let place ← catchUp source anchor (ip + 1) ip p
      let token := op
      let op ← putLiterals source size op anchor place.1
      mainLoop source size fuel (.matched place.1 place.2 token) anchor op found.2
  | fuel + 1, .matched ip p token, _, op, table => do
    let next ← putMatch source size ip p token op
    let ip := next.1
    let op := next.2
    let anchor := ip
    if source.length < ip + 12 then pure (anchor, op)
    else do
      let table ← putPosition source (ip - 2) table
      let h ← hashPosition source ip
      let p ← getPositionOnHash h table
      let table ← putPosition source ip table
      let there ← sourceWord32 source p
      let here ← sourceWord32 source ip
      if ip ≤ p + 65535 ∧ there = here then do
        store size op (fun _ => 0) 1
        mainLoop source size fuel (.matched ip p op) anchor (op + 1) table
      else do
        let forwardH ← hashPosition source (ip + 1)
        mainLoop source size fuel (.search (ip + 1) forwardH) anchor op table

/-- "Encode Last Literals" -/
def putLast (source : List Byte) (size op anchor : Nat) : Code Nat := do
  let lastRun := source.length - anchor
  let op ← putRun size op lastRun
  copyIn source size op anchor lastRun
  pure (op + lastRun)

/-- `LZ4_compress_generic` for `notLimited`, `byU16`, `noDict` and `noDictIssue`, with an acceleration of one and a table
of zeros (`LZ4_resetStream`), into a buffer of `size` bytes. -/
def compressGeneric (source : List Byte) (size : Nat) : Code Nat :=
  if 0x7E000000 < source.length then pure 0
  else if 2 ^ 16 + 11 ≤ source.length then pure 0
  else if source.length < 13 then putLast source size 0 0
  else do
    let table ← putPosition source 0 fun _ => 0
    let forwardH ← hashPosition source 1
    let stopped ← mainLoop source size (2 * source.length) (.search 1 forwardH) 0 0 table
    putLast source size stopped.2 stopped.1

/-- `LZ4_COMPRESSBOUND` -/
def compressBound (n : Nat) : Nat := if 0x7E000000 < n then 0 else n + n / 255 + 16

end Code

/-- The source has the same `k` bytes at `a` and at `b`. -/
def Matches (source : List Byte) (a b k : Nat) : Prop := ∀ j < k, source.getD (a + j) 0 = source.getD (b + j) 0

section Counting

variable {m : Memory} {source : List Byte} {limit fuel pIn pMatch a b k n : Nat}

theorem matches_join (first : Matches source a b k) (second : Matches source (a + k) (b + k) n) :
    Matches source a b (k + n) := by
  intro j below
  by_cases early : j < k
  · exact first j early
  · have later := second (j - k) (by omega)
    rw [show a + k + (j - k) = a + j by omega, show b + k + (j - k) = b + j by omega] at later
    exact later

theorem matches_rest (both : Matches source a b (k + n)) : Matches source (a + k) (b + k) n := by
  intro j below
  have later := both (k + j) (by omega)
  rw [← Nat.add_assoc, ← Nat.add_assoc] at later
  exact later

theorem matches_word : Matches source a b 4 ↔
    (word32 fun i => source.getD (a + i) 0) = word32 fun i => source.getD (b + i) 0 := word32_eq_iff.symm

/-- `stop` is the end of the longest match from `pIn` on, within the limit. -/
structure Counted (source : List Byte) (limit pIn pMatch stop : Nat) : Prop where
  range : pIn ≤ stop ∧ stop ≤ limit
  same : Matches source pIn pMatch (stop - pIn)
  longest : ∀ k, pIn + k ≤ limit → Matches source pIn pMatch k → pIn + k ≤ stop

/-- Bytes that match can be counted before the others. -/
theorem counted_behind {stop : Nat} (same : Matches source pIn pMatch k)
    (rest : Counted source limit (pIn + k) (pMatch + k) stop) : Counted source limit pIn pMatch stop where
  range := by
    have range := rest.range
    omega
  same := by
    have range := rest.range
    have split : stop - pIn = k + (stop - (pIn + k)) := by omega
    rw [split]
    exact matches_join same rest.same
  longest := by
    intro j within both
    have range := rest.range
    by_cases early : j ≤ k
    · omega
    · obtain ⟨i, rfl⟩ : ∃ i, j = k + i := ⟨j - k, by omega⟩
      have far := rest.longest i (by omega) (matches_rest both)
      omega

/-- A match that ends where two bytes differ. -/
theorem counted_differ (within : pIn + k ≤ limit) (same : Matches source pIn pMatch k)
    (differ : source.getD (pIn + k) 0 ≠ source.getD (pMatch + k) 0) : Counted source limit pIn pMatch (pIn + k) where
  range := ⟨Nat.le_add_right pIn k, within⟩
  same := by
    rw [Nat.add_sub_cancel_left]
    exact same
  longest := by
    intro j _ both
    by_contra longer
    exact differ (both k (by omega))

theorem counted_limit (order : pIn ≤ limit) (same : Matches source pIn pMatch (limit - pIn)) :
    Counted source limit pIn pMatch limit where
  range := ⟨order, Nat.le_refl limit⟩
  same := same
  longest := fun _ within _ => within

theorem getD_of_lt {i : Nat} (inside : i < source.length) : source[i] = source.getD i 0 :=
  (List.getD_eq_getElem source 0 inside).symm

theorem matches_one (same : source.getD pMatch 0 = source.getD pIn 0) : Matches source pIn pMatch 1 := by
  intro j below
  rw [show j = 0 by omega]
  exact same.symm

theorem matches_zero : Matches source pIn pMatch 0 := fun j below => absurd below (Nat.not_lt_zero j)

/-- One byte more, where no second one can match. -/
theorem meets_countOne (order : pIn ≤ limit) (before : pMatch < pIn) (inside : limit ≤ source.length)
    (short : limit ≤ pIn + 1 ∨ ¬Matches source pIn pMatch 2) :
    Meets (countOne source limit pIn pMatch) m fun stop left => left = m ∧ Counted source limit pIn pMatch stop := by
  rw [countOne]
  by_cases more : pIn < limit
  · rw [if_pos more]
    apply meets_bind (meets_sourceByte (by omega) ?_)
    apply meets_bind (meets_sourceByte (by omega) ?_)
    rw [getD_of_lt, getD_of_lt]
    by_cases same : source.getD pMatch 0 = source.getD pIn 0
    · rw [if_pos same]
      have one := matches_one same
      cases short with
      | inl last =>
          have stop : pIn + 1 = limit := by omega
          rw [stop]
          apply meets_pure
          refine ⟨rfl, counted_limit order ?_⟩
          rw [← stop, Nat.add_sub_cancel_left]
          exact one
      | inr second =>
          refine meets_pure ⟨rfl, counted_differ (by omega) one fun equal => second ?_⟩
          exact matches_join (n := 1) one (matches_one equal.symm)
    · rw [if_neg same]
      exact meets_pure ⟨rfl, counted_differ (k := 0) order matches_zero (Ne.symm same)⟩
  · rw [if_neg more, show pIn = limit by omega]
    refine meets_pure ⟨rfl, counted_limit (Nat.le_refl limit) ?_⟩
    rw [Nat.sub_self]
    exact matches_zero

theorem meets_countTail (short : limit ≤ pIn + 3) (order : pIn ≤ limit) (before : pMatch < pIn)
    (inside : limit ≤ source.length) : Meets (countTail source limit pIn pMatch) m fun stop left =>
      left = m ∧ Counted source limit pIn pMatch stop := by
  rw [countTail, countTwo]
  by_cases two : pIn + 1 < limit
  · rw [if_pos two]
    apply meets_bind
    apply meets_bind (meets_sourceWord16 (by omega) ?_)
    apply meets_bind (meets_sourceWord16 (by omega) ?_)
    apply meets_pure
    have matches_two : ((word16 fun i => source.getD (pMatch + i) 0) = word16 fun i => source.getD (pIn + i) 0) ↔
        Matches source pIn pMatch 2 := by
      rw [eq_comm]
      exact word16_eq_iff
    by_cases both : Matches source pIn pMatch 2
    · rw [if_pos (matches_two.mpr both)]
      apply (meets_countOne (by omega) (by omega) inside (.inl (by omega))).mono
      rintro stop left ⟨kept, counted⟩
      exact ⟨kept, counted_behind both counted⟩
    · rw [if_neg fun same => both (matches_two.mp same)]
      exact meets_countOne order before inside (.inr both)
  · rw [if_neg two]
    exact meets_bind (meets_pure (meets_countOne order before inside (.inl (by omega))))

theorem meets_countFrom (order : pIn ≤ limit) (before : pMatch < pIn) (inside : limit ≤ source.length)
    (enough : limit < pIn + fuel) : Meets (countFrom source limit fuel pIn pMatch) m fun stop left =>
      left = m ∧ Counted source limit pIn pMatch stop := by
  induction fuel generalizing pIn pMatch with
  | zero => omega
  | succ fuel ih =>
      rw [countFrom]
      by_cases long : pIn + 3 < limit
      · rw [if_pos long]
        apply meets_bind (meets_sourceWord32 (by omega) ?_)
        apply meets_bind (meets_sourceWord32 (by omega) ?_)
        by_cases same : ((word32 fun i => source.getD (pMatch + i) 0) ^^^ word32 fun i => source.getD (pIn + i) 0) = 0
        · rw [if_pos same]
          have both : Matches source pIn pMatch 4 := matches_word.mpr (BitVec.xor_eq_zero_iff.mp same).symm
          refine Meets.mono (ih (by omega) (by omega) (by omega)) ?_
          rintro stop left ⟨kept, counted⟩
          exact ⟨kept, counted_behind both counted⟩
        · rw [if_neg same]
          obtain ⟨low, equal, differ⟩ := first_difference same
          exact meets_pure ⟨rfl, counted_differ (by rw [nbCommonBytes]; omega) (fun j below => (equal j below).symm)
            (Ne.symm differ)⟩
      · rw [if_neg long]
        exact meets_countTail (by omega) order before inside

/-- `LZ4_count` gives the length of the longest match. -/
theorem meets_count (order : pIn ≤ limit) (before : pMatch < pIn) (inside : limit ≤ source.length) :
    Meets (count source pIn pMatch limit) m fun length left => left = m ∧ pIn + length ≤ limit ∧
      Matches source pIn pMatch length ∧ ∀ k, pIn + k ≤ limit → Matches source pIn pMatch k → k ≤ length := by
  rw [count]
  apply meets_bind
  apply (meets_countFrom order before inside (by omega)).mono
  rintro stop left ⟨kept, ⟨range, same, longest⟩⟩
  refine meets_pure ⟨kept, by omega, same, fun k within both => ?_⟩
  have far := longest k within both
  omega

end Counting

section Lengths

variable {m : Memory} {text : List Byte} {size fuel len : Nat}

theorem begins_store_one {b : Byte} (begins : Begins m text) :
    Begins (written text.length (fun _ => b) 1 m) (text ++ [b]) :=
  begins_store begins (Nat.le_refl 1) fun i below => by
    rw [List.length_singleton] at below
    rw [show i = 0 by omega]
    rfl

/-- A text behind the first, whose length is where the pointer stands. -/
structure Puts (left : Memory) (text : List Byte) (op : Nat) : Prop where
  reached : op = text.length
  begins : Begins left text

theorem meets_lengthLoop (begins : Begins m text) (enough : len < fuel) (room : text.length + len / 255 + 1 ≤ size) :
    Meets (lengthLoop size fuel text.length len) m fun op left =>
      Puts left (text ++ (List.replicate (len / 255) 255 ++ [BitVec.ofNat 8 (len % 255)])) op := by
  induction fuel generalizing text len m with
  | zero => omega
  | succ fuel ih =>
      rw [lengthLoop]
      by_cases long : 255 ≤ len
      · rw [if_pos long]
        apply meets_bind (meets_store (by omega) ?_)
        have next := begins_store_one (b := 255) begins
        have one : (text ++ [(255 : Byte)]).length = text.length + 1 := by rw [List.length_append, List.length_singleton]
        have quotient : len / 255 = (len - 255) / 255 + 1 := by omega
        have remainder : len % 255 = (len - 255) % 255 := by omega
        have rest : Meets (lengthLoop size fuel (text ++ [255]).length (len - 255)) _ _ := ih next (by omega) (by omega)
        rw [one] at rest
        apply rest.mono
        intro op left puts
        rw [quotient, remainder, List.replicate_succ, List.cons_append, List.append_cons]
        exact puts
      · rw [if_neg long]
        apply meets_bind (meets_store (by omega) ?_)
        apply meets_pure
        rw [Nat.div_eq_of_lt (by omega), Nat.mod_eq_of_lt (by omega), List.replicate_zero, List.nil_append]
        exact ⟨by rw [List.length_append, List.length_singleton], begins_store_one begins⟩

/-- The token of literals before the length of a match is added to it. -/
theorem meets_putRun {n : Nat} (begins : Begins m text) (room : text.length + 1 + (lengthBytes n).length ≤ size) :
    Meets (putRun size text.length n) m fun op left => Puts left (text ++ (tokenFor n 0 :: lengthBytes n)) op := by
  rw [length_lengthBytes] at room
  rw [putRun]
  by_cases long : 15 ≤ n
  · rw [if_neg (by omega)] at room
    rw [if_pos long]
    apply meets_bind (meets_store (by omega) ?_)
    have token : tokenFor n 0 = 0xf0 := by
      rw [tokenFor, Nat.min_eq_right long]
      rfl
    have first := begins_store_one (b := 0xf0) begins
    have one : (text ++ [(0xf0 : Byte)]).length = text.length + 1 := by rw [List.length_append, List.length_singleton]
    have rest : Meets (lengthLoop size (n + 1) (text ++ [0xf0]).length (n - 15)) _ _ :=
      meets_lengthLoop first (by omega) (by omega)
    rw [one] at rest
    apply rest.mono
    intro op left puts
    rw [token, lengthBytes, if_neg (by omega), List.append_cons]
    exact puts
  · rw [if_neg long]
    apply meets_bind (meets_store (by omega) ?_)
    apply meets_pure
    have token : tokenFor n 0 = BitVec.ofNat 8 (n * 16) := by
      rw [tokenFor, Nat.min_eq_left (by omega)]
      rfl
    rw [token, lengthBytes, if_pos (by omega)]
    exact ⟨by rw [List.length_append, List.length_singleton], begins_store_one begins⟩

theorem begins_words (begins : Begins m text) {n k : Nat} (enough : n ≤ k) :
    Begins (written text.length (fun _ => 255) k m) (text ++ List.replicate n 255) := by
  apply begins_store begins (by rw [List.length_replicate]; exact enough)
  intro i below
  rw [List.length_replicate] at below
  rw [List.getD_replicate _ below]

/-- What is left of a length after the words of 255, with four more of them behind it. -/
structure Filled (left : Memory) (text : List Byte) (len : Nat) (r : Nat × Nat) : Prop where
  small : r.2 < 4 * 255
  forward : text.length ≤ r.1
  reached : r.1 + r.2 / 255 = text.length + len / 255
  remainder : r.2 % 255 = len % 255
  begins : Begins left (text ++ (List.replicate (len / 255 - r.2 / 255) 255 ++ List.replicate 4 255))

theorem meets_fillLoop (begins : Begins m (text ++ List.replicate 4 255)) (enough : len < fuel)
    (room : text.length + len / 255 + 4 ≤ size) :
    Meets (fillLoop size fuel text.length len) m fun r left => Filled left text len r := by
  induction fuel generalizing text len m with
  | zero => omega
  | succ fuel ih =>
      rw [fillLoop]
      by_cases long : 4 * 255 ≤ len
      · have size' : (text ++ List.replicate 4 (255 : Byte)).length = text.length + 4 := by
          rw [List.length_append, List.length_replicate]
        have next := begins_words (k := 4) begins (Nat.le_refl 4)
        rw [size'] at next
        rw [if_pos long]
        apply meets_bind (meets_store (by omega) ?_)
        have rest : Meets (fillLoop size fuel (text ++ List.replicate 4 255).length (len - 4 * 255)) _ _ :=
          ih next (by omega) (by omega)
        rw [size'] at rest
        apply rest.mono
        rintro r left ⟨small, forward, reached, remainder, begins'⟩
        refine ⟨small, by omega, by omega, by omega, ?_⟩
        have split : len / 255 - r.2 / 255 = 4 + ((len - 4 * 255) / 255 - r.2 / 255) := by omega
        rw [split, List.replicate_add, List.append_assoc, ← List.append_assoc text]
        exact begins'
      · rw [if_neg long]
        refine meets_pure ⟨by omega, Nat.le_refl _, rfl, rfl, ?_⟩
        rw [Nat.sub_self, List.replicate_zero, List.nil_append]
        exact begins

/-- The length of a match is put in its token, and what does not fit in it behind the text. -/
theorem meets_putMatchLength {before after : List Byte} {lit : Nat} (n : Nat)
    (begins : Begins m (before ++ tokenFor lit 0 :: after))
    (room : (before ++ tokenFor lit 0 :: after).length + (lengthBytes n).length + 3 ≤ size) :
    Meets (putMatchLength size before.length (before ++ tokenFor lit 0 :: after).length n) m fun op left =>
      Puts left (before ++ tokenFor lit n :: (after ++ lengthBytes n)) op := by
  have half : m before.length = tokenFor lit 0 := by
    rw [begins before.length (by rw [List.length_append, List.length_cons]; omega),
      List.getD_append_right _ _ _ _ (Nat.le_refl _), Nat.sub_self]
    rfl
  have length : (before ++ tokenFor lit 0 :: after).length = before.length + 1 + after.length := by
    rw [List.length_append, List.length_cons]
    omega
  have sum (k : Nat) : tokenFor lit 0 + BitVec.ofNat 8 (min k 15) = tokenFor lit k := by
    rw [tokenFor, tokenFor, ← BitVec.ofNat_add]
    rfl
  rw [length_lengthBytes] at room
  rw [putMatchLength]
  apply meets_bind (meets_load (by omega) ?_)
  by_cases long : 15 ≤ n
  · rw [if_neg (by omega)] at room
    rw [if_pos long, half]
    apply meets_bind (meets_store (by omega) ?_)
    have token : tokenFor lit 0 + 15 = tokenFor lit n := by
      rw [← sum n, Nat.min_eq_right long]
      rfl
    rw [token]
    have replaced := begins_replace (tokenFor lit n) begins
    have length' : (before ++ tokenFor lit n :: after).length = (before ++ tokenFor lit 0 :: after).length := by
      rw [List.length_append, List.length_append, List.length_cons, List.length_cons]
    rw [← length'] at room ⊢
    apply meets_bind (meets_store (by omega) ?_)
    apply meets_bind
    apply (meets_fillLoop (begins_words replaced (Nat.le_refl 4)) (by omega) (by omega)).mono
    rintro r left ⟨small, forward, reached, remainder, begins'⟩
    -- the last word has more bytes of 255 than are left
    have counted : List.replicate 4 (255 : Byte) =
        List.replicate (r.2 / 255) 255 ++ List.replicate (4 - r.2 / 255) 255 := by
      rw [← List.replicate_add]
      congr 1
      omega
    have whole : (n - 15) / 255 - r.2 / 255 + r.2 / 255 = (n - 15) / 255 := by omega
    rw [counted, ← List.append_assoc, ← List.append_assoc] at begins'
    have filled := begins_of_append begins'
    rw [List.append_assoc, ← List.replicate_add, whole] at filled
    have stop : r.1 + r.2 / 255 = (before ++ tokenFor lit n :: after ++ List.replicate ((n - 15) / 255) 255).length := by
      rw [List.length_append, List.length_replicate]
      exact reached
    dsimp only
    rw [stop, remainder]
    apply meets_bind (meets_store ?_ ?_)
    · rw [← stop]
      omega
    · apply meets_pure
      have last := begins_store_one (b := BitVec.ofNat 8 ((n - 15) % 255)) filled
      have shape : before ++ tokenFor lit n :: after ++ List.replicate ((n - 15) / 255) 255 ++
          [BitVec.ofNat 8 ((n - 15) % 255)] = before ++ tokenFor lit n :: (after ++ lengthBytes n) := by
        rw [lengthBytes, if_neg (by omega)]
        simp only [List.append_assoc, List.cons_append]
      rw [← shape]
      have one (whole : List Byte) (b : Byte) : whole.length + 1 = (whole ++ [b]).length := by
        rw [List.length_append, List.length_singleton]
      exact ⟨one _ _, last⟩
  · rw [if_neg long, half]
    apply meets_bind (meets_store (by omega) ?_)
    apply meets_pure
    have token : tokenFor lit 0 + BitVec.ofNat 8 n = tokenFor lit n := by
      rw [← sum n, Nat.min_eq_left (by omega)]
    have replaced := begins_replace (tokenFor lit n) begins
    rw [token, lengthBytes, if_pos (by omega), List.append_nil]
    refine ⟨?_, replaced⟩
    rw [List.length_append, List.length_append, List.length_cons, List.length_cons]

end Lengths

/-- The source from the anchor to `ip`. -/
def literals (source : List Byte) (anchor ip : Nat) : List Byte := (source.drop anchor).take (ip - anchor)

/-- What is written before `op` encodes the source before the anchor. -/
structure Written (source : List Byte) (left : Memory) (anchor op : Nat) (bytes : List Byte) : Prop where
  encodes : Encodes source.length bytes (source.take anchor)
  puts : Puts left bytes op
  ends : anchor = 0 ∨ anchor + 5 ≤ source.length

section Sequences

variable {m : Memory} {source bytes : List Byte} {size anchor ip op p : Nat}

theorem length_literals (source : List Byte) {anchor ip : Nat} (order : anchor ≤ ip) (inside : ip ≤ source.length) :
    (literals source anchor ip).length = ip - anchor := by
  rw [literals, List.length_take, List.length_drop]
  omega

theorem take_literals (order : anchor ≤ ip) : source.take anchor ++ literals source anchor ip = source.take ip := by
  have split : anchor + (ip - anchor) = ip := by omega
  rw [literals, ← List.take_add, split]

theorem getD_literals {i : Nat} (below : i < ip - anchor) :
    (literals source anchor ip).getD i 0 = source.getD (anchor + i) 0 := by
  rw [literals, List.getD_eq_getElem?_getD, List.getD_eq_getElem?_getD, List.getElem?_take_of_lt below,
    List.getElem?_drop]

theorem length_le_of_written (inside : anchor ≤ source.length)
    (encodes : Encodes source.length bytes (source.take anchor)) : bytes.length ≤ anchor + anchor / 255 := by
  have bound := (length_le_of_encodes encodes).1
  rw [List.length_take_of_le inside] at bound
  exact bound

theorem meets_putLiterals (puts : Puts m bytes op) (order : anchor ≤ ip) (inside : ip + 8 ≤ source.length)
    (room : bytes.length + (lastBytes (literals source anchor ip)).length + 8 ≤ size) :
    Meets (putLiterals source size op anchor ip) m fun op left =>
      Puts left (bytes ++ lastBytes (literals source anchor ip)) op := by
  have length := length_literals source order (by omega)
  rw [length_lastBytes, length] at room
  rw [putLiterals, puts.reached]
  apply meets_bind
  apply (meets_putRun (n := ip - anchor) puts.begins (by omega)).mono
  rintro op' first ⟨reached, begins⟩
  have size' : (bytes ++ (tokenFor (ip - anchor) 0 :: lengthBytes (ip - anchor))).length =
      bytes.length + 1 + (lengthBytes (ip - anchor)).length := by
    rw [List.length_append, List.length_cons]
    omega
  apply meets_bind
  apply (meets_copyChunks_in (n := ip - anchor) (by omega) (by omega) rfl (by omega)).mono
  rintro _ left ⟨before, copied⟩
  apply meets_pure
  have shape : bytes ++ lastBytes (literals source anchor ip) =
      bytes ++ (tokenFor (ip - anchor) 0 :: lengthBytes (ip - anchor)) ++ literals source anchor ip := by
    rw [lastBytes, length]
    simp only [List.append_assoc, List.cons_append]
  rw [shape]
  refine ⟨by rw [List.length_append, length, reached], ?_⟩
  rw [reached] at before copied
  apply begins_append (begins_congr begins before)
  intro i below
  rw [length] at below
  rw [copied i below, getD_literals below]

theorem offset_bytes (offset : Nat) : ∀ i < 2, (BitVec.ofNat 16 offset).extractLsb' (8 * i) 8 =
    [BitVec.ofNat 8 offset, BitVec.ofNat 8 (offset / 256)].getD i 0 := by
  intro i below
  have position : i = 0 ∨ i = 1 := by omega
  apply BitVec.eq_of_toNat_eq
  rcases position with rfl | rfl
  · simp only [BitVec.extractLsb'_toNat, BitVec.toNat_ofNat, Nat.mul_zero, Nat.shiftRight_zero, List.getD_cons_zero]
    omega
  · simp only [BitVec.extractLsb'_toNat, BitVec.toNat_ofNat, Nat.mul_one, Nat.shiftRight_eq_div_pow, List.getD_cons_succ,
      List.getD_cons_zero]
    omega

/-- The sequence of the literals from the anchor to `ip` and of a match there. -/
theorem encodes_sequence (encodes : Encodes source.length bytes (source.take anchor)) (order : anchor ≤ ip)
    (inside : ip + 12 ≤ source.length) (small : source.length < 2 ^ 16 + 11) (before : p < ip) {n : Nat}
    (within : ip + (4 + n) + 5 ≤ source.length) (same : Matches source ip p (4 + n)) :
    ∃ s : Sequence, s.literals = literals source anchor ip ∧ s.offset = ip - p ∧ s.length - 4 = n ∧
      Encodes source.length (bytes ++ s.bytes) (source.take (ip + (4 + n))) ∧
      (bytes ++ s.bytes).length + 5 ≤ source.length + source.length / 255 := by
  have length := length_literals source order (by omega)
  have taken : (source.take anchor).length = anchor := List.length_take_of_le (by omega)
  generalize made : (⟨literals source anchor ip, ip - p, 4 + n, by omega, by omega⟩ : Sequence) = s
  have text : s.literals = literals source anchor ip := by rw [← made]
  have offset : s.offset = ip - p := by rw [← made]
  have long : s.length = 4 + n := by rw [← made]
  have extended : s.extend (source.take anchor) = source.take (ip + (4 + n)) := by
    rw [Sequence.extend, text, offset, long, take_literals order]
    apply copyBack_take (by omega) (by omega) (by omega)
    intro j below
    rw [show ip + j - (ip - p) = p + j by omega]
    exact same j below
  have more : Encodes source.length (bytes ++ s.bytes) (s.extend (source.take anchor)) := by
    apply Encodes.next s encodes
    · rw [taken, text, length]
      omega
    · rw [taken, text, length, offset]
      omega
    · rw [taken, text, length, long]
      omega
  rw [extended] at more
  have bound := length_le_of_written (by omega) more
  exact ⟨s, text, offset, by omega, more, by omega⟩

/-- From `_next_match` on the text is extended by the longest match. -/
theorem meets_putMatch (encodes : Encodes source.length bytes (source.take anchor))
    (puts : Puts m (bytes ++ lastBytes (literals source anchor ip)) op) (order : anchor ≤ ip)
    (inside : ip + 12 ≤ source.length) (small : source.length < 2 ^ 16 + 11) (before : p < ip)
    (four : Matches source ip p 4) (room : source.length + source.length / 255 ≤ size) :
    Meets (putMatch source size ip p bytes.length op) m fun r left =>
      (∃ bytes, Written source left r.1 r.2 bytes) ∧ ip + 4 ≤ r.1 ∧
        ∀ k, ip + k + 5 ≤ source.length → Matches source ip p k → ip + k ≤ r.1 := by
  have length := length_literals source order (by omega)
  have head : bytes ++ lastBytes (literals source anchor ip) =
      bytes ++ tokenFor (ip - anchor) 0 :: (lengthBytes (ip - anchor) ++ literals source anchor ip) := by
    rw [lastBytes, length]
  have size' : (bytes ++ lastBytes (literals source anchor ip)).length =
      bytes.length + 1 + (lengthBytes (ip - anchor)).length + (ip - anchor) := by
    rw [List.length_append, length_lastBytes, length]
    omega
  obtain ⟨least, leastText, -, leastLength, -, leastBound⟩ :=
    encodes_sequence (n := 0) encodes order inside small before (by omega) four
  rw [List.length_append, length_bytes, leastText, length] at leastBound
  rw [putMatch, puts.reached]
  apply meets_bind (meets_store (by omega) ?_)
  have offset : Begins _ (_ ++ [BitVec.ofNat 8 (ip - p), BitVec.ofNat 8 ((ip - p) / 256)]) :=
    begins_store puts.begins (Nat.le_refl 2) (offset_bytes (ip - p))
  apply meets_bind
  apply (meets_count (by omega) (by omega) (by omega)).mono
  rintro matchCode left ⟨kept, within, rest, longest⟩
  rw [kept]
  have same : Matches source ip p (4 + matchCode) := matches_join four rest
  obtain ⟨s, text, back, code, more, bound⟩ :=
    encodes_sequence (n := matchCode) encodes order inside small before (by omega) same
  have begins : Begins (written (bytes ++ lastBytes (literals source anchor ip)).length
      (fun i => (BitVec.ofNat 16 (ip - p)).extractLsb' (8 * i) 8) 2 m)
      (bytes ++ tokenFor (ip - anchor) 0 :: (lengthBytes (ip - anchor) ++ (literals source anchor ip ++
        [BitVec.ofNat 8 (ip - p), BitVec.ofNat 8 ((ip - p) / 256)]))) := by
    rw [head, List.append_assoc, List.cons_append, List.append_assoc] at offset
    rw [head]
    exact offset
  have place : (bytes ++ lastBytes (literals source anchor ip)).length + 2 =
      (bytes ++ tokenFor (ip - anchor) 0 :: (lengthBytes (ip - anchor) ++ (literals source anchor ip ++
        [BitVec.ofNat 8 (ip - p), BitVec.ofNat 8 ((ip - p) / 256)]))).length := by
    rw [size']
    simp only [List.length_append, List.length_cons, List.length_nil, length]
    omega
  rw [List.length_append, length_bytes, text, length, code] at bound
  have put := meets_putMatchLength matchCode begins (Nat.le_of_lt (by omega : _ < size))
  rw [← place] at put
  apply meets_bind
  apply put.mono
  rintro op' last ⟨reached, begins'⟩
  have shape : bytes ++ tokenFor (ip - anchor) matchCode :: (lengthBytes (ip - anchor) ++ (literals source anchor ip ++
      [BitVec.ofNat 8 (ip - p), BitVec.ofNat 8 ((ip - p) / 256)]) ++ lengthBytes matchCode) = bytes ++ s.bytes := by
    rw [Sequence.bytes, text, back, code, length]
    simp only [List.append_assoc, List.cons_append, List.nil_append]
  rw [shape] at reached begins'
  refine meets_pure ⟨⟨bytes ++ s.bytes, more, ⟨reached, begins'⟩, .inr ?_⟩, ?_, fun k within' both => ?_⟩
  · dsimp only
    omega
  · dsimp only
    omega
  · obtain less | ⟨j, rfl⟩ : k < 4 ∨ ∃ j, k = 4 + j := by
      by_cases less : k < 4
      · exact .inl less
      · exact .inr ⟨k - 4, by omega⟩
    · dsimp only
      omega
    · have far := longest j (by omega) (matches_rest both)
      dsimp only
      omega

end Sequences

section Search

variable {m : Memory} {source : List Byte} {size anchor ip p fuel h : Nat} {table : Table}

theorem hash4_lt (sequence : BitVec 32) : hash4 sequence < 2 ^ 13 := by
  rw [hash4, BitVec.toNat_ushiftRight, Nat.shiftRight_eq_div_pow]
  have small := (sequence * 2654435761#32).isLt
  omega

/-- The hash of what stands at a position. -/
def hashAt (source : List Byte) (p : Nat) : Nat := hash4 (word32 fun i => source.getD (p + i) 0)

theorem hashAt_lt (source : List Byte) (p : Nat) : hashAt source p < 2 ^ 13 := hash4_lt _

theorem meets_hashPosition {post : Nat → Memory → Prop} (inside : p + 4 ≤ source.length)
    (holds : post (hashAt source p) m) : Meets (hashPosition source p) m post := by
  rw [hashPosition]
  exact meets_bind (meets_sourceWord32 inside (meets_pure holds))

theorem meets_getPositionOnHash {post : Nat → Memory → Prop} (holds : post (table (hashAt source p)) m) :
    Meets (getPositionOnHash (hashAt source p) table) m post := by
  rw [getPositionOnHash, if_pos (hashAt_lt _ _)]
  exact meets_pure holds

theorem meets_putPositionOnHash {post : Table → Memory → Prop} {q : Nat} (small : p < 2 ^ 16)
    (holds : post (Function.update table (hashAt source q) p) m) :
    Meets (putPositionOnHash p (hashAt source q) table) m post := by
  rw [putPositionOnHash, if_pos (hashAt_lt _ _), Nat.mod_eq_of_lt small]
  exact meets_pure holds

theorem meets_putPosition {post : Table → Memory → Prop} (inside : p + 4 ≤ source.length) (small : p < 2 ^ 16)
    (holds : post (Function.update table (hashAt source p) p) m) : Meets (putPosition source p table) m post := by
  rw [putPosition]
  exact meets_bind (meets_hashPosition inside (meets_putPositionOnHash small holds))

theorem update_lt {bound value : Nat} (below : ∀ i, table i < bound) (less : value < bound) :
    ∀ i, Function.update table h value i < bound := by
  intro i
  by_cases here : i = h
  · rw [here, Function.update_self]
    exact less
  · rw [Function.update_of_ne here]
    exact below i

/-- What a search finds: the same four bytes at `ip` and at an earlier position, and no later one in the table. -/
structure Found (source : List Byte) (start : Nat) (place : Nat × Nat) (table : Table) : Prop where
  order : start ≤ place.1
  inside : place.1 + 13 ≤ source.length
  before : place.2 < place.1
  same : Matches source place.1 place.2 4
  below : ∀ i, table i < place.1 + 1

theorem meets_findMatch {step tries : Nat} (inside : ip + 4 ≤ source.length) (forward : 1 ≤ step)
    (counted : 2 ^ 6 ≤ tries) (small : source.length < 2 ^ 16 + 11) (below : ∀ i, table i < ip) (enough : source.length < ip + fuel) :
    Meets (findMatch source fuel table ip step tries (hashAt source ip)) m fun found left =>
      left = m ∧ ∀ place, found.1 = some place → Found source ip place found.2 := by
  induction fuel generalizing ip step tries table with
  | zero => omega
  | succ fuel ih =>
      rw [findMatch]
      by_cases stop : source.length < ip + step + 12
      · rw [if_pos stop]
        exact meets_pure ⟨rfl, fun place found => by cases found⟩
      · rw [if_neg stop]
        apply meets_bind (meets_getPositionOnHash ?_)
        apply meets_bind (meets_hashPosition (by omega) ?_)
        apply meets_bind (meets_putPositionOnHash (by omega) ?_)
        have known := below (hashAt source ip)
        have next : ∀ i, Function.update table (hashAt source ip) ip i < ip + 1 :=
          update_lt (fun i => Nat.lt_succ_of_lt (below i)) (Nat.lt_succ_self ip)
        apply meets_bind (meets_sourceWord32 (by omega) ?_)
        apply meets_bind (meets_sourceWord32 (by omega) ?_)
        by_cases same : Matches source ip (table (hashAt source ip)) 4
        · rw [if_neg (not_not.mpr (matches_word.mp same).symm)]
          refine meets_pure ⟨rfl, fun place found => ?_⟩
          rw [Option.some.injEq] at found
          rw [← found]
          exact ⟨Nat.le_refl ip, by dsimp only; omega, known, same, next⟩
        · rw [if_pos fun words => same (matches_word.mpr words.symm)]
          refine Meets.mono (ih (by omega) (by omega) (by omega) (fun i => Nat.lt_of_lt_of_le (next i) (by omega))
            (by omega)) ?_
          rintro found left ⟨kept, result⟩
          refine ⟨kept, fun place some' => ?_⟩
          obtain ⟨order, inside', before, same', below'⟩ := result place some'
          exact ⟨by omega, inside', before, same', below'⟩

/-- Going back over bytes that match as well. -/
structure CaughtUp (source : List Byte) (anchor ip p : Nat) (place : Nat × Nat) : Prop where
  order : anchor ≤ place.1
  back : place.1 ≤ ip
  distance : place.1 + p = ip + place.2
  same : Matches source place.1 place.2 (ip - place.1)

theorem meets_catchUp (order : anchor ≤ ip) (before : p < ip) (inside : ip ≤ source.length) (enough : ip < fuel) :
    Meets (catchUp source anchor fuel ip p) m fun place left => left = m ∧ CaughtUp source anchor ip p place := by
  induction fuel generalizing ip p with
  | zero => omega
  | succ fuel ih =>
      have stay : CaughtUp source anchor ip p (ip, p) := by
        refine ⟨order, Nat.le_refl ip, rfl, ?_⟩
        rw [Nat.sub_self]
        exact matches_zero
      rw [catchUp]
      by_cases more : anchor < ip ∧ 0 < p
      · rw [if_pos more]
        apply meets_bind (meets_sourceByte (by omega) ?_)
        apply meets_bind (meets_sourceByte (by omega) ?_)
        by_cases equal : source[ip - 1] = source[p - 1]
        · rw [if_pos equal]
          refine Meets.mono (ih (by omega) (by omega) (by omega) (by omega)) ?_
          rintro place left ⟨kept, order', back, distance, same⟩
          refine ⟨kept, order', by omega, by omega, ?_⟩
          have split : ip - place.1 = ip - 1 - place.1 + 1 := by omega
          rw [split]
          apply matches_join same
          rw [show place.1 + (ip - 1 - place.1) = ip - 1 by omega, show place.2 + (ip - 1 - place.1) = p - 1 by omega]
          rw [getD_of_lt, getD_of_lt] at equal
          exact matches_one equal.symm
        · rw [if_neg equal]
          exact meets_pure ⟨rfl, stay⟩
      · rw [if_neg more]
        exact meets_pure ⟨rfl, stay⟩

end Search

section MainLoop

variable {m : Memory} {source : List Byte} {size anchor op fuel : Nat} {table : Table}

/-- The invariant of the main loop. Before a search the table has earlier positions only. At `_next_match` the literals
are written, four bytes match, and the table has no position behind the start of what is known to match. -/
def Invariant (source : List Byte) (m : Memory) (anchor op : Nat) (table : Table) : Stage → Prop
  | .search ip h => (∃ bytes, Written source m anchor op bytes) ∧ anchor ≤ ip ∧ ip + 11 ≤ source.length ∧
      h = hashAt source ip ∧ ∀ i, table i < ip
  | .matched ip p token => ∃ bytes anchor, Encodes source.length bytes (source.take anchor) ∧ anchor ≤ ip ∧
      token = bytes.length ∧ Puts m (bytes ++ lastBytes (literals source anchor ip)) op ∧ ip + 12 ≤ source.length ∧
      p < ip ∧ ∃ k, ip + (k + 4) + 5 ≤ source.length ∧ Matches source ip p (k + 4) ∧ ∀ i, table i < ip + k + 1

/-- How far the loop is from the end. -/
def Stage.left (n anchor : Nat) : Stage → Nat
  | .search _ _ => n - anchor + 1
  | .matched ip _ _ => n - ip

theorem meets_mainLoop (small : source.length < 2 ^ 16 + 11) (room : source.length + source.length / 255 + 16 ≤ size)
    {stage : Stage} (invariant : Invariant source m anchor op table stage)
    (enough : stage.left source.length anchor < fuel) :
    Meets (mainLoop source size fuel stage anchor op table) m fun r left =>
      r.1 ≤ source.length ∧ ∃ bytes, Written source left r.1 r.2 bytes := by
  induction fuel generalizing stage anchor op table m with
  | zero => omega
  | succ fuel ih =>
      cases stage with
      | search ip h =>
          obtain ⟨⟨bytes, written⟩, order, inside, hash, below⟩ := invariant
          rw [mainLoop, hash]
          apply meets_bind
          apply (meets_findMatch (by omega) (Nat.le_refl 1) (by omega) small below (by omega)).mono
          rintro found left ⟨kept, result⟩
          rw [kept]
          cases which : found.1 with
          | none => exact meets_pure ⟨by dsimp only; omega, bytes, written⟩
          | some place =>
              obtain ⟨start, within, before, same, below'⟩ := result place which
              apply meets_bind
              apply (meets_catchUp (by omega) before (by omega) (Nat.lt_succ_self _)).mono
              rintro earlier left' ⟨kept', order', back, distance, same'⟩
              rw [kept']
              have length := length_literals source order' (by omega)
              have short := length_le_of_written (by omega) written.encodes
              have lengths := length_lastBytes (literals source anchor earlier.1)
              rw [length, length_lengthBytes] at lengths
              apply meets_bind
              refine Meets.mono (meets_putLiterals written.puts order' (by omega) ?_) ?_
              · rw [lengths]
                split <;> omega
              · intro op' last puts
                apply ih
                · refine ⟨bytes, anchor, written.encodes, order', written.puts.reached, puts, by omega, by omega,
                    place.1 - earlier.1, by omega, ?_, fun i => ?_⟩
                  · apply matches_join same'
                    rw [show earlier.1 + (place.1 - earlier.1) = place.1 by omega,
                      show earlier.2 + (place.1 - earlier.1) = place.2 by omega]
                    exact same
                  · have less := below' i
                    omega
                · simp only [Stage.left] at enough ⊢
                  omega
      | matched ip p token =>
          obtain ⟨bytes, anchor', encodes, order, start, puts, inside, before, k, within, same, below⟩ := invariant
          rw [mainLoop, start]
          apply meets_bind
          apply (meets_putMatch encodes puts order inside small before (fun j early => same j (by omega)) (by omega)).mono
          rintro next left ⟨⟨bytes', written⟩, further, longest⟩
          have past := longest (k + 4) (by omega) same
          have ends := written.ends
          dsimp only
          by_cases stop : source.length < next.1 + 12
          · rw [if_pos stop]
            exact meets_pure ⟨by dsimp only; omega, bytes', written⟩
          · rw [if_neg stop]
            apply meets_bind (meets_putPosition (by omega) (by omega) ?_)
            apply meets_bind (meets_hashPosition (by omega) ?_)
            apply meets_bind (meets_getPositionOnHash ?_)
            apply meets_bind (meets_putPosition (by omega) (by omega) ?_)
            have first : ∀ i, Function.update table (hashAt source (next.1 - 2)) (next.1 - 2) i < next.1 :=
              update_lt (fun i => Nat.lt_of_lt_of_le (below i) (by omega)) (by omega)
            have second := update_lt (h := hashAt source next.1) (fun i => Nat.lt_succ_of_lt (first i))
              (Nat.lt_succ_self next.1)
            have known := first (hashAt source next.1)
            generalize earlier : Function.update table (hashAt source (next.1 - 2)) (next.1 - 2)
              (hashAt source next.1) = q at known
            apply meets_bind (meets_sourceWord32 (by omega) ?_)
            apply meets_bind (meets_sourceWord32 (by omega) ?_)
            have short := length_le_of_written (by omega) written.encodes
            have length := written.puts.reached
            by_cases four : Matches source next.1 q 4
            · rw [if_pos ⟨by omega, (matches_word.mp four).symm⟩]
              apply meets_bind (meets_store (by omega) ?_)
              apply ih
              · refine ⟨bytes', next.1, written.encodes, Nat.le_refl _, length, ?_, by omega, known, 0, by omega, four,
                  second⟩
                have empty : lastBytes (literals source next.1 next.1) = [0] := by
                  rw [literals, Nat.sub_self, List.take_zero]
                  rfl
                rw [empty, length]
                exact ⟨by rw [List.length_append, List.length_singleton], begins_store_one written.puts.begins⟩
              · simp only [Stage.left] at enough ⊢
                omega
            · rw [if_neg fun both => four (matches_word.mpr both.2.symm)]
              apply meets_bind (meets_hashPosition (by omega) ?_)
              apply ih
              · exact ⟨⟨bytes', written⟩, Nat.le_succ _, by omega, rfl, second⟩
              · simp only [Stage.left] at enough ⊢
                omega

end MainLoop

section Blocks

variable {m : Memory} {source : List Byte} {size : Nat}

/-- A block for the source at the start of the output. -/
def Packed (source : List Byte) (k : Nat) (left : Memory) : Prop :=
  ∃ bytes text last, text ++ last = source ∧ Encodes source.length bytes text ∧ (text = [] ∨ 5 ≤ last.length) ∧
    Puts left (bytes ++ lastBytes last) k

theorem meets_putLast {anchor op : Nat} {bytes : List Byte} (written : Written source m anchor op bytes)
    (inside : anchor ≤ source.length) (room : source.length + source.length / 255 + 2 ≤ size) :
    Meets (putLast source size op anchor) m (Packed source) := by
  have length : (source.drop anchor).length = source.length - anchor := List.length_drop
  have short := length_le_of_written inside written.encodes
  have extra := length_lengthBytes (source.length - anchor)
  have fits : bytes.length + 1 + (lengthBytes (source.length - anchor)).length + (source.length - anchor) ≤ size := by
    rw [extra]
    split <;> omega
  rw [putLast, written.puts.reached]
  apply meets_bind
  apply (meets_putRun (n := source.length - anchor) written.puts.begins (by omega)).mono
  rintro op' first ⟨reached, begins⟩
  have size' : (bytes ++ (tokenFor (source.length - anchor) 0 :: lengthBytes (source.length - anchor))).length =
      bytes.length + 1 + (lengthBytes (source.length - anchor)).length := by
    rw [List.length_append, List.length_cons]
    omega
  apply meets_bind (meets_copyIn (by omega) (by omega) ?_)
  apply meets_pure
  refine ⟨bytes, source.take anchor, source.drop anchor, List.take_append_drop anchor source, written.encodes, ?_, ?_⟩
  · cases written.ends with
    | inl start =>
        rw [start]
        exact .inl rfl
    | inr ends => exact .inr (by omega)
  · have shape : bytes ++ lastBytes (source.drop anchor) =
        bytes ++ (tokenFor (source.length - anchor) 0 :: lengthBytes (source.length - anchor)) ++
          source.drop anchor := by
      rw [lastBytes, length]
      simp only [List.append_assoc, List.cons_append]
    rw [shape, reached]
    have joined (a b : List Byte) : a.length + b.length = (a ++ b).length := List.length_append.symm
    refine ⟨by rw [← length, joined], ?_⟩
    apply begins_store begins (by rw [length])
    intro i below
    rw [List.getD_eq_getElem?_getD, List.getD_eq_getElem?_getD, List.getElem?_drop]

/-- The output of `LZ4_compressBound` bytes is enough, and what is in it is a block for the source. -/
theorem meets_compressGeneric (small : source.length < 2 ^ 16 + 11) (room : compressBound source.length ≤ size) :
    Meets (compressGeneric source size) m (Packed source) := by
  have bound : source.length + source.length / 255 + 16 ≤ size := by
    rw [compressBound, if_neg (by omega)] at room
    exact room
  have start (m : Memory) : Written source m 0 0 [] :=
    ⟨.start, ⟨rfl, fun _ below => absurd below (Nat.not_lt_zero _)⟩, .inl rfl⟩
  rw [compressGeneric, if_neg (by omega), if_neg (by omega)]
  by_cases short : source.length < 13
  · rw [if_pos short]
    exact meets_putLast (start m) (Nat.zero_le _) (by omega)
  · rw [if_neg short]
    apply meets_bind (meets_putPosition (by omega) (by decide) ?_)
    apply meets_bind (meets_hashPosition (by omega) ?_)
    have empty : ∀ i, Function.update (fun _ => 0) (hashAt source 0) 0 i < 1 :=
      update_lt (fun _ => Nat.one_pos) Nat.one_pos
    have invariant : Invariant source m 0 0 (Function.update (fun _ => 0) (hashAt source 0) 0)
        (.search 1 (hashAt source 1)) := ⟨⟨[], start m⟩, Nat.zero_le 1, by omega, rfl, empty⟩
    apply meets_bind
    apply (meets_mainLoop small bound invariant (by simp only [Stage.left]; omega)).mono
    rintro stopped left ⟨inside, bytes, written⟩
    exact meets_putLast written inside (by omega)

theorem size_of_packed {k : Nat} {left : Memory} (packed : Packed source k left) :
    0 < k ∧ k ≤ source.length + source.length / 255 + 2 := by
  obtain ⟨bytes, text, last, whole, encodes, -, reached, -⟩ := packed
  have length : text.length + last.length = source.length := by rw [← whole, List.length_append]
  have short := (length_le_of_encodes encodes).1
  have lengths := length_lastBytes last
  rw [length_lengthBytes] at lengths
  rw [reached, List.length_append, lengths]
  constructor
  · omega
  · split <;> omega

open Lz4Decompress in
/-- A block is decompressed to its source wherever that fits. -/
theorem decompress_packed {k : Nat} {left : Memory} (packed : Packed source k left) {b : Buffers}
    (input : b.source = firstBytes left k) (output : 0 < b.size) (fits : source.length ≤ b.size) :
    ∃ restored, (decompressSafe b).run m = some ((source.length : Int), restored) ∧
      firstBytes restored source.length = source := by
  obtain ⟨bytes, text, last, whole, encodes, ends, reached, begins⟩ := packed
  have length : text.length + last.length = source.length := by rw [← whole, List.length_append]
  have block : b.source = bytes ++ lastBytes last := by rw [input, reached, begins_firstBytes begins]
  have plain : plainDecode b.size (b.source.length + 1) b.source [] = some source := by
    rw [block, plainDecode_block fits encodes length ends (Nat.lt_succ_self _), whole]
  have readable : Readable b := by
    have lengths := length_lastBytes last
    by_cases long : 2 ≤ b.source.length
    · exact .inr (.inl long)
    · rw [block, List.length_append] at long
      have none : last = [] := List.eq_nil_of_length_eq_zero (by omega)
      have empty : bytes = [] := by
        apply eq_nil_of_encodes encodes
        rcases ends with start | far
        · exact start
        · rw [none, List.length_nil] at far
          omega
      refine .inr (.inr ⟨0, ?_, by decide⟩)
      rw [block, none, empty]
      rfl
  obtain ⟨result, restored, ran, agrees⟩ := meets_decompressSafe (m := m) output readable (.inr ⟨source, plain⟩)
  rw [plain] at agrees
  rcases agrees with ⟨out, same, size', begins'⟩ | ⟨never, -⟩
  · rw [Option.some.injEq] at same
    rw [← same] at size' begins'
    exact ⟨restored, by rw [ran, size'], begins_firstBytes begins'⟩
  · cases never

open Lz4Decompress in
/-- Compression stays inside its buffers, ends with a block within its bound, and is undone by decompression into any
buffer that has room for the source, whatever the buffers have before. -/
theorem compress_decompress (small : source.length < 2 ^ 16 + 11) (room : compressBound source.length ≤ size) :
    ∃ k left, (compressGeneric source size).run m = some (k, left) ∧ 0 < k ∧
      k ≤ source.length + source.length / 255 + 2 ∧ ∀ (b : Buffers) (blank : Memory), b.source = firstBytes left k →
        0 < b.size → source.length ≤ b.size → ∃ restored,
          (decompressSafe b).run blank = some ((source.length : Int), restored) ∧
            firstBytes restored source.length = source := by
  obtain ⟨k, left, ran, packed⟩ := meets_compressGeneric (m := m) small room
  have bounds := size_of_packed packed
  exact ⟨k, left, ran, bounds.1, bounds.2, fun b blank input output fits => decompress_packed packed input output fits⟩

end Blocks

open Lz4Decompress in
/-- Fifty times the same byte, into a buffer of their bound. -/
theorem compress_decompress_fifty : ∃ k left,
    (compressGeneric (List.replicate 50 7) 66).run (fun _ => 0) = some (k, left) ∧ 0 < k ∧ k ≤ 52 ∧
      ∀ (b : Buffers) (blank : Memory), b.source = firstBytes left k → 0 < b.size → 50 ≤ b.size → ∃ restored,
        (decompressSafe b).run blank = some (50, restored) ∧ firstBytes restored 50 = List.replicate 50 7 :=
  @compress_decompress (fun _ => 0) (List.replicate 50 7) 66 (by decide) (by decide)

end ZeroTierNode.Lz4Compress

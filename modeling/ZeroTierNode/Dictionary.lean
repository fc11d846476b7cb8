import Mathlib.Data.List.TakeWhile
import ZeroTierNode.Library.Hex

/-!
`Dictionary<C>`: a NUL-terminated text of `key=value` lines in an array of
`capacity` bytes. Values are escaped so that a line never holds a NUL, a line
break or a second equals sign. The first line of a key is the one that counts.
-/

namespace ZeroTierNode
open Library Library.Bytes

/-- The text before the terminating NUL. -/
structure Dictionary (capacity : Nat) where
  text : List Byte
  terminated : 0 ∉ text
  fits : text.length < capacity
deriving DecidableEq

/-- What a character array holds as a C string. -/
def cString (array : List Byte) : List Byte := array.takeWhile (fun c => c ≠ 0)

namespace Dictionary

/-- Nulls, line breaks and equals signs are illegal characters of a key. -/
structure Key where
  name : List Byte
  legal : ∀ c ∈ name, c ≠ 0 ∧ c ≠ 13 ∧ c ≠ 10 ∧ c ≠ 0x3d
deriving DecidableEq

variable {capacity : Nat}

/-- A dictionary loaded from bytes ends at their first NUL or where the array does. -/
def load (s : List Byte) (room : 0 < capacity) : Dictionary capacity where
  text := (cString s).take (capacity - 1)
  terminated := by
    intro found
    have kept := List.all_takeWhile (p := fun c : Byte => decide (c ≠ 0)) (l := s)
    have nonzero := List.all_eq_true.mp kept 0 (List.mem_of_mem_take found)
    exact absurd nonzero (by decide)
  fits := by
    rw [List.length_take]
    omega

def clear (d : Dictionary capacity) : Dictionary capacity :=
  ⟨[], List.not_mem_nil, Nat.zero_lt_of_lt d.fits⟩

def isBreak (c : Byte) : Bool := c = 13 ∨ c = 10

/-- The comparison loop of `get`: what is left of the key and of the text. -/
def matchKey : List Byte → List Byte → List Byte × List Byte
  | k :: key, c :: text => if c = k then matchKey key text else (k :: key, c :: text)
  | key, text => (key, text)

/-- The text behind the next line break. -/
def skipLine : List Byte → List Byte
  | [] => []
  | c :: rest => if isBreak c then rest else skipLine rest

/-- The outer loop of `get` over at most `lines` lines: the value's text, still escaped. -/
def find (key : List Byte) : Nat → List Byte → Option (List Byte)
  | 0, _ => none
  | lines + 1, text =>
      if text = [] then none
      else
        let (left, rest) := matchKey key text
        if left = [] ∧ rest.head? = some 0x3d then some (rest.tail.takeWhile (fun c => !isBreak c))
        else find key lines (skipLine rest)

def unescapeByte (c : Byte) : Byte :=
  if c = 0x72 then 13 else if c = 0x6e then 10 else if c = 0x30 then 0 else if c = 0x65 then 0x3d else c

/-- The inner loop of `get`; a backslash at the end stands for nothing. -/
def unescape : List Byte → List Byte
  | [] => []
  | [c] => if c = 0x5c then [] else [c]
  | c :: e :: rest => if c = 0x5c then unescapeByte e :: unescape rest else c :: unescape (e :: rest)

/-- The whole value of a key; every line takes at least one byte. -/
def value (d : Dictionary capacity) (key : Key) : Option (List Byte) :=
  (find key.name d.text.length d.text).map unescape

/-- `get` into a character array: its new contents and the number of bytes stored before the NUL. -/
def get (d : Dictionary capacity) (key : Key) (dest : List Byte) : List Byte × Option Nat :=
  match d.value key with
  | none => (dest.set 0 0, none)
  | some found =>
      let kept := found.take (dest.length - 1)
      (kept ++ 0 :: dest.drop (kept.length + 1), some kept.length)

/-- `get` into a buffer of the dictionary's own capacity. -/
def getBuffer (d : Dictionary capacity) (key : Key) : Option (List Byte) :=
  (d.value key).map (fun found => found.take (capacity - 1))

def getB (d : Dictionary capacity) (key : Key) (dfl : Bool) : Bool :=
  match d.value key with
  | none => dfl
  | some found => found.head? = some 0x31 ∨ found.head? = some 0x74 ∨ found.head? = some 0x54

/-- The number in an array of 128 characters, when at least one was stored. -/
def getNumber (read : List Byte → BitVec 64) (d : Dictionary capacity) (key : Key) (dfl : BitVec 64) :
    BitVec 64 :=
  match d.value key with
  | none => dfl
  | some found => if found = [] then dfl else read (cString (found.take 127))

def getUI (d : Dictionary capacity) : Key → BitVec 64 → BitVec 64 := d.getNumber Hex.strtoull

def getI (d : Dictionary capacity) : Key → BitVec 64 → BitVec 64 := d.getNumber Hex.strtoll

def escapeByte (c : Byte) : List Byte :=
  if c = 0 then [0x5c, 0x30] else if c = 13 then [0x5c, 0x72] else if c = 10 then [0x5c, 0x6e]
  else if c = 0x5c then [0x5c, 0x5c] else if c = 0x3d then [0x5c, 0x65] else [c]

def escape (value : List Byte) : List Byte := value.flatMap escapeByte

def line (key : Key) (value : List Byte) : List Byte := key.name ++ 0x3d :: escape value

theorem isBreak_of_ne {c : Byte} (carriage : c ≠ 13) (feed : c ≠ 10) : isBreak c = false :=
  decide_eq_false (fun either => either.elim carriage feed)

theorem mem_escapeByte {c e : Byte} (found : e ∈ escapeByte c) : e ≠ 0 ∧ isBreak e = false := by
  unfold escapeByte at found
  split_ifs at found with null carriage feed slash equals
  all_goals simp only [List.mem_cons, List.not_mem_nil, or_false] at found
  case neg =>
      rw [found]
      exact ⟨null, isBreak_of_ne carriage feed⟩
  all_goals rcases found with rfl | rfl <;> decide

/-- A line holds no NUL and no line break. -/
theorem line_plain {key : Key} {value : List Byte} {c : Byte} (found : c ∈ line key value) :
    c ≠ 0 ∧ isBreak c = false := by
  rw [line, List.mem_append, List.mem_cons] at found
  rcases found with inKey | equals | inValue
  · obtain ⟨null, carriage, feed, -⟩ := key.legal c inKey
    exact ⟨null, isBreak_of_ne carriage feed⟩
  · rw [equals]
    decide
  · obtain ⟨byte, -, found⟩ := List.mem_flatMap.mp inValue
    exact mem_escapeByte found

/-- `add`: a line behind those there are, unless the array is too small. -/
def add (d : Dictionary capacity) (key : Key) (value : List Byte) : Option (Dictionary capacity) :=
  let text := d.text ++ ((if d.text = [] then [] else [10]) ++ line key value)
  if fits : text.length < capacity then
    some {
      text := text
      terminated := by
        intro found
        rcases List.mem_append.mp found with earlier | found
        · exact d.terminated earlier
        · rcases List.mem_append.mp found with broken | found
          · split at broken
            · cases broken
            · cases List.mem_singleton.mp broken
          · exact (line_plain found).1 rfl
      fits := fits }
  else none

/-- Entries added one after another. -/
def addAll (d : Dictionary capacity) : List (Key × List Byte) → Option (Dictionary capacity)
  | [] => some d
  | (key, value) :: entries => do
      let d ← d.add key value
      d.addAll entries

/-! What a dictionary of added entries answers. -/

/-- The value of the first entry of a key. -/
def entryOf (key : Key) : List (Key × List Byte) → Option (List Byte)
  | [] => none
  | (other, value) :: entries => if other = key then some value else entryOf key entries

theorem entryOf_append (key : Key) (first second : List (Key × List Byte)) :
    entryOf key (first ++ second) = (entryOf key first).or (entryOf key second) := by
  induction first with
  | nil => rfl
  | cons entry first ih =>
      rw [List.cons_append, entryOf, entryOf]
      split
      · rfl
      · exact ih

/-- Lines behind a first one. -/
def furtherLines (entries : List (Key × List Byte)) : List Byte :=
  entries.flatMap (fun entry => 10 :: line entry.1 entry.2)

theorem unescape_plain {c : Byte} (plain : c ≠ 0x5c) (rest : List Byte) :
    unescape (c :: rest) = c :: unescape rest := by
  cases rest with
  | nil => exact if_neg plain
  | cons e rest => rw [unescape, if_neg plain]

theorem unescape_escapeByte (c : Byte) (rest : List Byte) :
    unescape (escapeByte c ++ rest) = c :: unescape rest := by
  unfold escapeByte
  split_ifs with null carriage feed slash equals
  case neg => exact unescape_plain slash rest
  all_goals
    subst c
    rw [List.cons_append, List.cons_append, List.nil_append, unescape, if_pos rfl]
    congr 1

theorem unescape_escape (value : List Byte) : unescape (escape value) = value := by
  induction value with
  | nil => rfl
  | cons c value ih => rw [escape, List.flatMap_cons, unescape_escapeByte, ← escape, ih]

/-- The comparison consumes a common start of key and text. -/
theorem matchKey_spec (key text : List Byte) : ∃ common,
    key = common ++ (matchKey key text).1 ∧ text = common ++ (matchKey key text).2 := by
  induction key, text using matchKey.induct with
  | case1 key k text ih =>
      obtain ⟨common, left, rest⟩ := ih
      refine ⟨k :: common, ?_, ?_⟩
      · rw [matchKey, if_pos rfl, List.cons_append, ← left]
      · rw [matchKey, if_pos rfl, List.cons_append, ← rest]
  | case2 k key c text differs =>
      exact ⟨[], by rw [matchKey, if_neg differs]; exact ⟨rfl, rfl⟩⟩
  | case3 key text shape =>
      refine ⟨[], ?_⟩
      cases key with
      | nil => exact ⟨rfl, rfl⟩
      | cons k key =>
          cases text with
          | nil => exact ⟨rfl, rfl⟩
          | cons c text => exact absurd rfl (shape k key c text rfl)

theorem matchKey_self (key rest : List Byte) : matchKey key (key ++ rest) = ([], rest) := by
  induction key with
  | nil =>
      cases rest with
      | nil => rfl
      | cons c rest => rfl
  | cons k key ih => rw [List.cons_append, matchKey, if_pos rfl, ih]

theorem skipLine_append {first rest : List Byte} (plain : ∀ c ∈ first, isBreak c = false) :
    skipLine (first ++ rest) = skipLine rest := by
  induction first with
  | nil => rfl
  | cons c first ih =>
      rw [List.cons_append, skipLine, plain c List.mem_cons_self, if_neg Bool.false_ne_true]
      exact ih (fun e found => plain e (List.mem_cons_of_mem _ found))

/-- Two keys before an equals sign each are told apart by it. -/
theorem name_eq_of_line {key other : Key} {first second : List Byte}
    (same : key.name ++ 0x3d :: first = other.name ++ 0x3d :: second) : key.name = other.name := by
  have cut : ∀ (key : Key) (rest : List Byte),
      (key.name ++ 0x3d :: rest).takeWhile (fun c => decide (c ≠ 0x3d)) = key.name := by
    intro key rest
    rw [List.takeWhile_append_of_pos]
    · rw [List.takeWhile_cons_of_neg (by decide), List.append_nil]
    · intro c found
      exact decide_eq_true (key.legal c found).2.2.2
  rw [← cut key first, same, cut]

theorem skipLine_furtherLines (entry : Key × List Byte) (entries : List (Key × List Byte)) :
    skipLine (furtherLines (entry :: entries)) = line entry.1 entry.2 ++ furtherLines entries := by
  rw [furtherLines, List.flatMap_cons, List.cons_append, skipLine, if_pos (by decide), ← furtherLines]

/-- The value of a line ends where the next line starts. -/
theorem takeWhile_escape (value : List Byte) (entries : List (Key × List Byte)) :
    (escape value ++ furtherLines entries).takeWhile (fun c => !isBreak c) = escape value := by
  rw [List.takeWhile_append_of_pos]
  · cases entries with
    | nil => simp [furtherLines]
    | cons entry entries =>
        rw [furtherLines, List.flatMap_cons, List.cons_append, List.takeWhile_cons_of_neg (by decide),
          List.append_nil]
  · intro c found
    obtain ⟨byte, -, found⟩ := List.mem_flatMap.mp found
    rw [(mem_escapeByte found).2, Bool.not_false]

theorem line_ne_nil (key : Key) (value rest : List Byte) : line key value ++ rest ≠ [] := by
  simp [line]

theorem find_same (key : Key) (value : List Byte) (entries : List (Key × List Byte)) (lines : Nat) :
    find key.name (lines + 1) (line key value ++ furtherLines entries) = some (escape value) := by
  rw [find, if_neg (line_ne_nil _ _ _), line, List.append_assoc, matchKey_self, List.cons_append]
  dsimp only
  rw [if_pos ⟨rfl, rfl⟩, List.tail_cons, takeWhile_escape]

theorem find_other {key other : Key} (differs : other.name ≠ key.name) (value : List Byte)
    (entries : List (Key × List Byte)) (lines : Nat) :
    find key.name (lines + 1) (line other value ++ furtherLines entries) =
      find key.name lines (skipLine (furtherLines entries)) := by
  obtain ⟨common, left, rest⟩ := matchKey_spec key.name (line other value ++ furtherLines entries)
  have plain : ∀ c ∈ common, isBreak c = false := by
    intro c found
    have legal := key.legal c (by rw [left]; exact List.mem_append_left _ found)
    exact isBreak_of_ne legal.2.1 legal.2.2.1
  have miss : ¬((matchKey key.name (line other value ++ furtherLines entries)).1 = [] ∧
      (matchKey key.name (line other value ++ furtherLines entries)).2.head? = some 0x3d) := by
    rintro ⟨ended, equals⟩
    obtain ⟨after, behind⟩ := List.head?_eq_some_iff.mp equals
    rw [ended, List.append_nil] at left
    rw [behind, ← left, line, List.append_assoc, List.cons_append] at rest
    exact differs (name_eq_of_line rest)
  rw [find, if_neg (line_ne_nil _ _ _)]
  dsimp only
  rw [if_neg miss, ← skipLine_append plain, ← rest, skipLine_append (fun c found => (line_plain found).2)]

theorem find_nil (key : List Byte) (lines : Nat) : find key lines [] = none := by
  cases lines with
  | zero => rfl
  | succ lines => rw [find, if_pos rfl]

theorem Key.eq_of_name {key other : Key} (same : other.name = key.name) : other = key := by
  cases key
  cases other
  cases same
  rfl

/-- The line that counts for a key is its first. -/
theorem find_entries (key : Key) (entry : Key × List Byte) (entries : List (Key × List Byte)) {lines : Nat}
    (enough : entries.length < lines) :
    find key.name lines (line entry.1 entry.2 ++ furtherLines entries) =
      (entryOf key (entry :: entries)).map escape := by
  induction entries generalizing entry lines with
  | nil =>
      obtain ⟨lines, rfl⟩ := Nat.exists_eq_succ_of_ne_zero (Nat.ne_zero_of_lt enough)
      by_cases same : entry.1 = key
      · rw [same, find_same, entryOf, if_pos same, Option.map_some]
      · rw [find_other (fun equal => same (Key.eq_of_name equal)), entryOf, if_neg same]
        exact find_nil _ _
  | cons next entries ih =>
      obtain ⟨lines, rfl⟩ := Nat.exists_eq_succ_of_ne_zero (Nat.ne_zero_of_lt enough)
      by_cases same : entry.1 = key
      · rw [same, find_same, entryOf, if_pos same, Option.map_some]
      · rw [find_other (fun equal => same (Key.eq_of_name equal)), skipLine_furtherLines,
          ih next (Nat.lt_of_succ_lt_succ enough)]
        congr 1
        exact (if_neg same).symm

theorem add_text {d after : Dictionary capacity} {key : Key} {value : List Byte}
    (added : d.add key value = some after) :
    after.text = d.text ++ ((if d.text = [] then [] else [10]) ++ line key value) := by
  unfold add at added
  dsimp only at added
  by_cases fits : (d.text ++ ((if d.text = [] then [] else [10]) ++ line key value)).length < capacity
  · rw [dif_pos fits] at added
    cases added
    rfl
  · rw [dif_neg fits] at added
    cases added

/-- Behind a text that is not empty, every entry starts a new line. -/
theorem addAll_behind {d after : Dictionary capacity} {entries : List (Key × List Byte)}
    (added : d.addAll entries = some after) (nonempty : d.text ≠ []) :
    after.text = d.text ++ furtherLines entries := by
  induction entries generalizing d with
  | nil =>
      cases added
      exact (List.append_nil _).symm
  | cons entry entries ih =>
      obtain ⟨key, value⟩ := entry
      obtain ⟨next, first, rest⟩ := Option.bind_eq_some_iff.mp added
      have text := add_text first
      rw [if_neg nonempty] at text
      have later := ih rest (by rw [text]; simp [nonempty])
      rw [later, text, furtherLines, furtherLines, List.flatMap_cons]
      simp only [List.append_assoc, List.cons_append, List.nil_append]

theorem addAll_text {d after : Dictionary capacity} {key : Key} {value : List Byte}
    {entries : List (Key × List Byte)} (empty : d.text = [])
    (added : d.addAll ((key, value) :: entries) = some after) :
    after.text = line key value ++ furtherLines entries := by
  obtain ⟨next, first, rest⟩ := Option.bind_eq_some_iff.mp added
  have text := add_text first
  rw [empty, if_pos rfl, List.nil_append, List.nil_append] at text
  rw [addAll_behind rest (by rw [text]; simp [line]), text]

theorem furtherLines_length (entries : List (Key × List Byte)) :
    entries.length ≤ (furtherLines entries).length := by
  induction entries with
  | nil => exact Nat.le_refl 0
  | cons entry entries ih =>
      rw [furtherLines, List.flatMap_cons, ← furtherLines]
      simp only [List.length_cons, List.length_append]
      omega

/-- A text of lines answers with the first entry of the key. -/
theorem value_of_text {d : Dictionary capacity} {entry : Key × List Byte} {entries : List (Key × List Byte)}
    (text : d.text = line entry.1 entry.2 ++ furtherLines entries) (key : Key) :
    d.value key = entryOf key (entry :: entries) := by
  have lines := furtherLines_length entries
  have enough : entries.length < d.text.length := by
    rw [text, List.length_append, line, List.length_append, List.length_cons]
    omega
  rw [value]
  nth_rewrite 2 [text]
  rw [find_entries key entry entries enough, Option.map_map]
  cases entryOf key (entry :: entries) with
  | none => rfl
  | some found => exact congrArg some (unescape_escape found)

/-- A dictionary filled by `add` answers with what was added first under the key. -/
theorem value_addAll {d after : Dictionary capacity} {entries : List (Key × List Byte)} (empty : d.text = [])
    (added : d.addAll entries = some after) (key : Key) : after.value key = entryOf key entries := by
  cases entries with
  | nil =>
      cases added
      rw [value, empty]
      rfl
  | cons entry entries => exact value_of_text (addAll_text empty added) key

theorem mem_furtherLines {entries : List (Key × List Byte)} {c : Byte} (found : c ∈ furtherLines entries) :
    c ≠ 0 := by
  obtain ⟨entry, -, found⟩ := List.mem_flatMap.mp found
  rcases List.mem_cons.mp found with same | found
  · rw [same]
    decide
  · exact (line_plain found).1

/-- The dictionary of given entries, where they fit. -/
def ofEntries (entry : Key × List Byte) (entries : List (Key × List Byte))
    (fits : (line entry.1 entry.2 ++ furtherLines entries).length < capacity) : Dictionary capacity where
  text := line entry.1 entry.2 ++ furtherLines entries
  terminated := by
    intro found
    rcases List.mem_append.mp found with first | later
    · exact (line_plain first).1 rfl
    · exact mem_furtherLines later rfl
  fits := fits

theorem length_escape (value : List Byte) : (escape value).length ≤ 2 * value.length := by
  induction value with
  | nil => exact Nat.le_refl 0
  | cons c value ih =>
      have short : (escapeByte c).length ≤ 2 := by
        unfold escapeByte
        split_ifs <;> simp
      rw [escape, List.flatMap_cons, List.length_append, List.length_cons, ← escape]
      omega

theorem length_unescape (text : List Byte) : (unescape text).length ≤ text.length := by
  fun_induction unescape text with
  | case1 => exact Nat.le_refl 0
  | case2 => exact Nat.zero_le _
  | case3 => exact Nat.le_refl 1
  | case4 e rest ih =>
      simp only [List.length_cons]
      omega
  | case5 c e rest plain ih =>
      simp only [List.length_cons] at ih ⊢
      omega

theorem length_line (key : Key) (value : List Byte) :
    (line key value).length ≤ key.name.length + 1 + 2 * value.length := by
  have escaped := length_escape value
  rw [line, List.length_append, List.length_cons]
  omega

theorem length_skipLine (text : List Byte) : (skipLine text).length ≤ text.length := by
  induction text with
  | nil => exact Nat.le_refl 0
  | cons c text ih =>
      rw [skipLine]
      split
      · exact Nat.le_succ _
      · exact Nat.le_succ_of_le ih

theorem length_find {key text found : List Byte} {lines : Nat} (hit : find key lines text = some found) :
    found.length ≤ text.length := by
  induction lines generalizing text with
  | zero => cases hit
  | succ lines ih =>
      obtain ⟨common, -, suffix⟩ := matchKey_spec key text
      have shorter : (matchKey key text).2.length ≤ text.length := by
        have total := congrArg List.length suffix
        rw [List.length_append] at total
        omega
      rw [find] at hit
      split at hit
      · cases hit
      · dsimp only at hit
        split at hit
        · cases hit
          have cut := (List.takeWhile_sublist (l := (matchKey key text).2.tail) (fun c => !isBreak c)).length_le
          rw [List.length_tail] at cut
          omega
        · have later := ih hit
          have skipped := length_skipLine (matchKey key text).2
          omega

/-- A buffer of the dictionary's capacity takes every value whole. -/
theorem getBuffer_eq (d : Dictionary capacity) (key : Key) : d.getBuffer key = d.value key := by
  unfold getBuffer value
  cases hit : find key.name d.text.length d.text with
  | none => rfl
  | some found =>
      have fits := d.fits
      have short := length_find hit
      have shorter := length_unescape found
      simp only [Option.map_some, Option.some.injEq]
      apply List.take_of_length_le
      omega

theorem get_of_value {d : Dictionary capacity} {key : Key} {text dest : List Byte}
    (found : d.value key = some text) (fits : text.length < dest.length) :
    d.get key dest = (text ++ 0 :: dest.drop (text.length + 1), some text.length) := by
  unfold get
  rw [found]
  dsimp only
  rw [List.take_of_length_le (by omega)]

theorem cString_of_not_mem {text : List Byte} (clean : 0 ∉ text) : cString text = text := by
  rw [cString, List.takeWhile_eq_self_iff]
  intro c found
  exact decide_eq_true (fun zero => clean (zero ▸ found))

theorem zero_not_mem_digits (count value : Nat) : 0 ∉ Hex.digits count value := by
  intro found
  obtain ⟨d, read⟩ := Hex.mem_digits found
  exact absurd read (by simp [Hex.digitValue])

theorem getNumber_digits {read : List Byte → BitVec 64} {d : Dictionary capacity} {key : Key} {count value : Nat}
    (found : d.value key = some (Hex.digits count value)) (positive : 0 < count) (short : count ≤ 127)
    (dfl : BitVec 64) : d.getNumber read key dfl = read (Hex.digits count value) := by
  have nonempty : Hex.digits count value ≠ [] := by
    rw [ne_eq, ← List.length_eq_zero_iff, Hex.digits_length]
    omega
  rw [getNumber, found]
  dsimp only
  rw [if_neg nonempty, List.take_of_length_le (by rw [Hex.digits_length]; exact short),
    cString_of_not_mem (zero_not_mem_digits count value)]

/-- A word added as hexadecimal digits is the number that is read. -/
theorem getUI_digits {d : Dictionary capacity} {key : Key} {width : Nat} {count : Nat} {word : BitVec width}
    (found : d.value key = some (Hex.digits count word.toNat)) (positive : 0 < count) (short : count ≤ 127)
    (covers : width ≤ 4 * count) (narrow : width ≤ 64) (dfl : BitVec 64) :
    d.getUI key dfl = word.setWidth 64 := by
  rw [getUI, getNumber_digits found positive short, Hex.strtoull_digits count word covers narrow]

end Dictionary

end ZeroTierNode

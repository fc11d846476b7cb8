import ZeroTierNode.Dictionary
import ZeroTierNode.Library.Runs
import ZeroTierNode.Library.Stores

/-!
`Dictionary<C>` in its array of characters. `add` writes behind the terminating NUL
and takes it back when the array is full; `get` reads with a pointer, which is the
list of the characters from there to the end of the array.
-/

namespace ZeroTierNode.Dictionary
open Library.Bytes Library.Runs Library.Stores

/-- Where a loop of `get` stops: behind the array, with nothing more to look at, or at a position. -/
inductive Stop (α : Type) where
  | outside
  | ends
  | found (position : α)

/-- The comparison loop of `get`: what is left of the key and of the array. -/
def compareKey : List Byte → List Byte → Stop (List Byte × List Byte)
  | [], p => .found ([], p)
  | _ :: _, [] => .outside
  | k :: key, c :: p =>
      if c = 0 ∨ c ≠ k then .found (k :: key, c :: p) else if p = [] then .ends else compareKey key p

/-- The loop that looks for the next line. -/
def passLine : List Byte → Stop (List Byte)
  | [] => .outside
  | c :: p =>
      if c = 0 then .ends
      else if isBreak c then if p = [] then .ends else .found p
      else if p = [] then .ends else passLine p

/-- `dest[0] = 0; return -1`. -/
def notFound (dest : List Byte) : Option (List Byte × Int) := (store dest 0 0).map fun dest => (dest, -1)

/-- The loop that copies a value, with the number of characters that are in `dest`. -/
def copyValue (dest : List Byte) (esc : Bool) (j : Nat) : List Byte → Option (List Byte × Int)
  | [] => none
  | c :: p =>
      if c = 0 ∨ isBreak c then (store dest j 0).map fun dest => (dest, (j : Int))
      else if esc = false ∧ c = 0x5c then if p = [] then notFound dest else copyValue dest true j p
      else do
        let dest ← store dest j (if esc then unescapeByte c else c)
        if j + 1 = dest.length then (store dest j 0).map fun dest => (dest, (j : Int))
        else if p = [] then notFound dest
        else copyValue dest false (j + 1) p

/-- The outer loop of `get` over at most `lines` lines. -/
def getLines (key dest : List Byte) : Nat → List Byte → Option (List Byte × Int)
  | 0, _ => none
  | lines + 1, p =>
      match p with
      | [] => none
      | c :: _ =>
          if c = 0 then notFound dest
          else
            match compareKey key p with
            | .outside => none
            | .ends => notFound dest
            | .found stopped =>
                if stopped.1 = [] ∧ stopped.2.head? = some 0x3d then copyValue dest false 0 stopped.2.tail
                else
                  match passLine stopped.2 with
                  | .outside => none
                  | .ends => notFound dest
                  | .found p => getLines key dest lines p

/-- `get`: the new contents of `dest` and the result; `none` when an access is outside an array. -/
def getArray (d key dest : List Byte) : Option (List Byte × Int) :=
  if dest = [] then some (dest, -1) else getLines key dest d.length d

/-- `add`: the new array and the result. The characters of the line are stored one after the other. -/
def addArray (d key value : List Byte) : Option (List Byte × Bool) :=
  match d.findIdx? (fun c => c = 0) with
  | none => some (d, false)
  | some i => do
      let characters := (if i = 0 then [] else [10]) ++ (key ++ 0x3d :: escape value)
      let filled ← fill d i characters
      if filled.2 then (store filled.1 (i + characters.length) 0).map fun d => (d, true)
      else (store filled.1 i 0).map fun d => (d, false)

/-- What `get` makes of the whole value. -/
def answer (dest : List Byte) : Option (List Byte) → List Byte × Int
  | none => (dest.set 0 0, -1)
  | some value =>
      let kept := value.take (dest.length - 1)
      (kept ++ 0 :: dest.drop (kept.length + 1), (kept.length : Int))

/-- The text of entries, which is what stands before the terminating NUL. -/
def textOf : List (Key × List Byte) → List Byte
  | [] => []
  | entry :: entries => line entry.1 entry.2 ++ furtherLines entries

section Reading

variable {text rest key dest : List Byte}

theorem compareKey_eq (terminated : 0 ∉ text) :
    compareKey key (text ++ 0 :: rest) = .found ((matchKey key text).1, (matchKey key text).2 ++ 0 :: rest) := by
  induction key, text using matchKey.induct with
  | case1 key k text ih =>
      rw [List.mem_cons, not_or] at terminated
      have same : ¬ (k = 0 ∨ k ≠ k) := by
        rintro (zero | differs)
        · exact terminated.1 zero.symm
        · exact differs rfl
      rw [List.cons_append, compareKey, if_neg same, if_neg (by simp), ih terminated.2, matchKey, if_pos rfl]
  | case2 k key c text differs =>
      rw [List.cons_append, compareKey, if_pos (.inr differs), matchKey, if_neg differs, List.cons_append]
  | case3 key text shape =>
      cases key with
      | nil => simp [compareKey, matchKey]
      | cons k key =>
          cases text with
          | nil => simp [compareKey, matchKey]
          | cons c text => exact absurd rfl (shape k key c text rfl)

/-- The next line is there, or none is. -/
theorem passLine_eq (terminated : 0 ∉ text) :
    (passLine (text ++ 0 :: rest) = .ends ∧ skipLine text = []) ∨
      (passLine (text ++ 0 :: rest) = .found (skipLine text ++ 0 :: rest) ∧ (skipLine text).length < text.length) := by
  induction text with
  | nil => exact .inl ⟨if_pos rfl, rfl⟩
  | cons c text ih =>
      rw [List.mem_cons, not_or] at terminated
      have some_left : text ++ 0 :: rest ≠ [] := by simp
      rw [List.cons_append, passLine, skipLine, if_neg (Ne.symm terminated.1)]
      by_cases broken : isBreak c = true
      · rw [if_pos broken, if_neg some_left, if_pos broken]
        exact .inr ⟨rfl, Nat.lt_succ_self _⟩
      · rw [if_neg broken, if_neg some_left, if_neg broken]
        rcases ih terminated.2 with last | ⟨next, shorter⟩
        · exact .inl last
        · exact .inr ⟨next, Nat.lt_succ_of_lt shorter⟩

theorem skipLine_suffix (text : List Byte) : skipLine text <:+ text := by
  induction text with
  | nil => exact List.suffix_rfl
  | cons c text ih =>
      rw [skipLine]
      split
      · exact List.suffix_cons c text
      · exact ih.trans (List.suffix_cons c text)

theorem notFound_eq (room : dest ≠ []) : notFound dest = some (answer dest none) := by
  rw [notFound, store, if_pos (List.length_pos_of_ne_nil room)]
  rfl

end Reading

/-- What is left of a value is unescaped, behind a backslash or not. -/
def unescapeWith : Bool → List Byte → List Byte
  | false, text => unescape text
  | true, [] => []
  | true, c :: text => unescapeByte c :: unescape text

theorem unescape_slash (text : List Byte) : unescape (0x5c :: text) = unescapeWith true text := by
  cases text with
  | nil => rfl
  | cons c text => exact if_pos rfl

theorem unescapeWith_cons {esc : Bool} {c : Byte} (copied : ¬ (esc = false ∧ c = 0x5c)) (text : List Byte) :
    unescapeWith esc (c :: text) = (if esc then unescapeByte c else c) :: unescapeWith false text := by
  cases esc with
  | true => rfl
  | false => exact unescape_plain (fun slash => copied ⟨rfl, slash⟩) text

section Copying

variable {text rest : List Byte} {stop : Byte}

/-- The array behind what was copied takes what fits, and a NUL. -/
theorem copyValue_eq (plain : ∀ c ∈ text, c ≠ 0 ∧ isBreak c = false) (stops : stop = 0 ∨ isBreak stop = true)
    (esc : Bool) (front back : List Byte) (room : back ≠ []) :
    copyValue (front ++ back) esc front.length (text ++ stop :: rest) =
      some (front ++ (unescapeWith esc text).take (back.length - 1) ++
          0 :: back.drop (((unescapeWith esc text).take (back.length - 1)).length + 1),
        ((front ++ (unescapeWith esc text).take (back.length - 1)).length : Int)) := by
  obtain ⟨old, back, rfl⟩ := List.exists_cons_of_ne_nil room
  induction text generalizing esc front old back with
  | nil =>
      have nothing : unescapeWith esc [] = [] := by cases esc <;> rfl
      rw [List.nil_append, copyValue, if_pos stops, store_append, nothing]
      simp
  | cons c text ih =>
      have here := plain c List.mem_cons_self
      have goes : ¬ (c = 0 ∨ isBreak c = true) := not_or.mpr ⟨here.1, by rw [here.2]; exact Bool.false_ne_true⟩
      have some_left : text ++ stop :: rest ≠ [] := by simp
      have later : ∀ c ∈ text, c ≠ 0 ∧ isBreak c = false := fun c member => plain c (List.mem_cons_of_mem _ member)
      rw [List.cons_append, copyValue, if_neg goes]
      by_cases slash : esc = false ∧ c = 0x5c
      · obtain ⟨rfl, rfl⟩ := slash
        rw [if_pos ⟨rfl, rfl⟩, if_neg some_left, unescapeWith, unescape_slash]
        exact ih later true front old back (List.cons_ne_nil _ _)
      · rw [if_neg slash, store_append, unescapeWith_cons slash]
        generalize (if esc = true then unescapeByte c else c) = b
        by_cases full : back = []
        · subst full
          have last : front.length + 1 = (front ++ [b]).length := by simp
          apply Eq.trans (if_pos last)
          rw [store_append]
          simp
        · have more : ¬ front.length + 1 = (front ++ b :: back).length := by
            have positive := List.length_pos_of_ne_nil full
            simp only [List.length_cons, List.length_append]
            omega
          obtain ⟨next, back, rfl⟩ := List.exists_cons_of_ne_nil full
          have copied := ih later false (front ++ [b]) next back full
          rw [List.length_append, List.length_singleton, List.append_assoc, List.singleton_append] at copied
          apply Eq.trans ((if_neg more).trans (if_neg some_left))
          rw [copied]
          simp only [List.length_cons, Nat.add_sub_cancel, List.take_succ_cons, List.drop_succ_cons, List.append_assoc,
            List.cons_append, List.nil_append]

end Copying

section Lookup

variable {key text rest dest : List Byte}

/-- A value ends at a line break or at the terminating NUL. -/
theorem value_ends (text rest : List Byte) : ∃ stop after,
    text ++ 0 :: rest = text.takeWhile (fun c => !isBreak c) ++ stop :: after ∧ (stop = 0 ∨ isBreak stop = true) := by
  have whole := List.takeWhile_append_dropWhile (p := fun c => !isBreak c) (l := text)
  cases behind : text.dropWhile (fun c => !isBreak c) with
  | nil =>
      rw [behind, List.append_nil] at whole
      exact ⟨0, rest, by rw [whole], .inl rfl⟩
  | cons stop after =>
      have breaks := List.head?_dropWhile_not (fun c => !isBreak c) text
      rw [behind] at whole breaks
      refine ⟨stop, after ++ 0 :: rest, ?_, .inr (by simpa using breaks)⟩
      nth_rewrite 1 [← whole]
      rw [List.append_assoc, List.cons_append]

theorem getLines_nil (lines : Nat) : getLines key dest (lines + 1) (0 :: rest) = notFound dest := by
  rw [getLines]
  exact if_pos rfl

/-- The value that the text-level search finds is what the pointer loops copy. -/
theorem getLines_eq (terminated : 0 ∉ text) (room : dest ≠ []) {lines : Nat} (enough : text.length ≤ lines) :
    getLines key dest (lines + 1) (text ++ 0 :: rest) = some (answer dest ((find key lines text).map unescape)) := by
  induction lines generalizing text with
  | zero =>
      obtain rfl := List.length_eq_zero_iff.mp (Nat.le_zero.mp enough)
      exact (getLines_nil 0).trans (notFound_eq room)
  | succ lines ih =>
      cases text with
      | nil =>
          rw [find, if_pos rfl]
          exact (getLines_nil _).trans (notFound_eq room)
      | cons c text =>
          obtain ⟨common, -, split⟩ := matchKey_spec key (c :: text)
          have compared := @compareKey_eq (c :: text) rest key terminated
          rw [find, if_neg (List.cons_ne_nil c text)]
          generalize matchKey key (c :: text) = stopped at split compared
          obtain ⟨left, here⟩ := stopped
          have clean : 0 ∉ here := fun found => terminated (split ▸ List.mem_append_right _ found)
          have shorter : here.length ≤ (c :: text).length := by
            rw [split, List.length_append]
            exact Nat.le_add_left _ _
          have equals : (here ++ 0 :: rest).head? = some 0x3d ↔ here.head? = some 0x3d := by
            cases here <;> simp
          rw [List.mem_cons, not_or] at terminated
          rw [List.cons_append] at compared
          rw [List.cons_append, getLines]
          dsimp only at compared ⊢
          rw [if_neg (Ne.symm terminated.1), compared]
          dsimp only
          by_cases hit : left = [] ∧ here.head? = some 0x3d
          · rw [if_pos ⟨hit.1, equals.mpr hit.2⟩, if_pos hit]
            obtain ⟨more, rfl⟩ := List.head?_eq_some_iff.mp hit.2
            rw [List.cons_append, List.tail_cons, List.tail_cons]
            obtain ⟨stop, after, ends, stops⟩ := value_ends more rest
            have plain : ∀ c ∈ more.takeWhile (fun c => !isBreak c), c ≠ 0 ∧ isBreak c = false := by
              intro c member
              constructor
              · intro zero
                exact clean (List.mem_cons_of_mem _ (List.takeWhile_subset _ (zero ▸ member)))
              · simpa using List.mem_takeWhile_imp member
            rw [ends]
            exact copyValue_eq plain stops false [] dest room
          · rw [if_neg (fun both => hit ⟨both.1, equals.mp both.2⟩), if_neg hit]
            rcases @passLine_eq here rest clean with ⟨last, nothing⟩ | ⟨next, less⟩
            · rw [last, nothing, find_nil]
              exact notFound_eq room
            · rw [next]
              dsimp only
              apply ih
              · intro found
                exact clean ((skipLine_suffix here).subset found)
              · simp only [List.length_cons] at enough shorter
                omega

end Lookup

section Adding

variable {text rest : List Byte}

theorem findIdx?_terminated (terminated : 0 ∉ text) :
    (text ++ 0 :: rest).findIdx? (fun c => c = 0) = some text.length := by
  induction text with
  | nil => rfl
  | cons c text ih =>
      rw [List.mem_cons, not_or] at terminated
      have other : ¬ decide (c = 0) = true := fun zero => terminated.1 (of_decide_eq_true zero).symm
      rw [List.cons_append, List.findIdx?_cons, if_neg other, ih terminated.2]
      rfl

/-- The characters of a new line, the line break before it included. -/
def newLine (text key value : List Byte) : List Byte :=
  (if text = [] then [] else [10]) ++ (key ++ 0x3d :: escape value)

theorem addArray_fits (terminated : 0 ∉ text) {key value : List Byte}
    (room : (newLine text key value).length < (0 :: rest).length) :
    ∃ after, addArray (text ++ 0 :: rest) key value = some (text ++ newLine text key value ++ 0 :: after, true) ∧
      (text ++ newLine text key value ++ 0 :: after).length = (text ++ 0 :: rest).length := by
  have filled := fill_fits text (0 :: rest) room
  cases behind : (0 :: rest).drop (newLine text key value).length with
  | nil => exact absurd (List.drop_eq_nil_iff.mp behind) (Nat.not_le_of_lt room)
  | cons old after =>
      rw [behind] at filled
      have stored := store_append (text ++ newLine text key value) after old 0
      rw [List.length_append] at stored
      refine ⟨after, ?_, ?_⟩
      · unfold addArray
        rw [findIdx?_terminated terminated]
        simp only [List.length_eq_zero_iff]
        change (fill (text ++ 0 :: rest) text.length (newLine text key value)).bind _ = _
        rw [filled, Option.bind_some]
        change (store _ (text.length + (newLine text key value).length) 0).map _ = _
        rw [stored]
        rfl
      · have total := congrArg List.length behind
        rw [List.length_drop, List.length_cons, List.length_cons] at total
        simp only [List.length_append, List.length_cons] at room ⊢
        omega

/-- A line that does not fit is taken back. -/
theorem addArray_full (terminated : 0 ∉ text) {key value : List Byte}
    (short : (0 :: rest).length ≤ (newLine text key value).length) :
    ∃ after, addArray (text ++ 0 :: rest) key value = some (text ++ 0 :: after, false) ∧
      (text ++ 0 :: after).length = (text ++ 0 :: rest).length := by
  have filled := fill_full text (0 :: rest) (List.cons_ne_nil _ _) short
  have taken : ((newLine text key value).take (0 :: rest).length).length = (0 :: rest).length :=
    List.length_take_of_le short
  cases stored : (newLine text key value).take (0 :: rest).length with
  | nil =>
      rw [stored] at taken
      cases taken
  | cons c after =>
      rw [stored] at filled taken
      refine ⟨after, ?_, ?_⟩
      · unfold addArray
        rw [findIdx?_terminated terminated]
        simp only [List.length_eq_zero_iff]
        change (fill (text ++ 0 :: rest) text.length (newLine text key value)).bind _ = _
        rw [filled, Option.bind_some]
        change (store _ text.length 0).map _ = _
        rw [store_append]
        rfl
      · rw [List.length_append, List.length_append]
        exact congrArg _ taken

end Adding

theorem textOf_append (entries : List (Key × List Byte)) (key : Key) (value : List Byte) :
    textOf (entries ++ [(key, value)]) = textOf entries ++ newLine (textOf entries) key.name value := by
  cases entries with
  | nil => simp [textOf, newLine, furtherLines, line]
  | cons entry entries =>
      have nonempty : line entry.1 entry.2 ++ furtherLines entries ≠ [] := line_ne_nil _ _ _
      rw [List.cons_append, textOf, textOf, newLine, if_neg nonempty, furtherLines, List.flatMap_append]
      simp [furtherLines, line]

theorem textOf_terminated (entries : List (Key × List Byte)) : 0 ∉ textOf entries := by
  intro found
  cases entries with
  | nil => cases found
  | cons entry entries =>
      rcases List.mem_append.mp found with first | later
      · exact (line_plain first).1 rfl
      · exact mem_furtherLines later rfl

/-- Every entry takes at least one character, so that there are lines enough. -/
theorem find_textOf (key : Key) (entries : List (Key × List Byte)) {lines : Nat}
    (enough : (textOf entries).length ≤ lines) :
    find key.name lines (textOf entries) = (entryOf key entries).map escape := by
  cases entries with
  | nil => exact find_nil _ _
  | cons entry entries =>
      apply find_entries
      have further := furtherLines_length entries
      rw [textOf, List.length_append, line, List.length_append, List.length_cons] at enough
      omega

/-- The array, and the entries whose `add` returned true, in their order. -/
structure Filled where
  d : List Byte
  entries : List (Key × List Byte)

/-- `Dictionary()`, with its C characters. -/
def Filled.start (C : { C : Nat // 0 < C }) : Filled := ⟨List.replicate C 0, []⟩

/-- A call of `add`. An access outside the array would leave none. -/
def Filled.add (s : Filled) (entry : Key × List Byte) : Filled :=
  match addArray s.d entry.1.name entry.2 with
  | some (d, true) => ⟨d, s.entries ++ [entry]⟩
  | some (d, false) => ⟨d, s.entries⟩
  | none => ⟨[], s.entries⟩

/-- What is asked of the array: it is terminated, `get` answers with the first value that was added under the key, cut
to what `dest` takes, and `add` returns whether the line and a NUL fit. -/
structure Lawful (C : Nat) (s : Filled) : Prop where
  size : s.d.length = C
  terminated : 0 ∈ s.d
  get : ∀ (key : Key) dest, dest ≠ [] → getArray s.d key.name dest = some (answer dest (entryOf key s.entries))
  get_empty : ∀ key : Key, getArray s.d key.name [] = some ([], -1)
  add : ∀ (key : Key) value, ∃ d,
    addArray s.d key.name value = some (d, decide ((textOf (s.entries ++ [(key, value)])).length < C))

/-- The entries stand before the terminating NUL. -/
def Filled.Holds (C : Nat) (s : Filled) : Prop :=
  ∃ rest, s.d = textOf s.entries ++ 0 :: rest ∧ (textOf s.entries ++ 0 :: rest).length = C

section Law

variable {C : Nat} {s : Filled}

/-- An `add` puts its line behind the others, or leaves the text as it was. -/
theorem Filled.Holds.addArray_eq (holds : s.Holds C) (key : Key) (value : List Byte) :
    ∃ d, addArray s.d key.name value = some (d, decide ((textOf (s.entries ++ [(key, value)])).length < C)) ∧
      Filled.Holds C (s.add (key, value)) := by
  obtain ⟨rest, array, size⟩ := holds
  have terminated := textOf_terminated s.entries
  have total : (textOf (s.entries ++ [(key, value)])).length =
      (textOf s.entries).length + (newLine (textOf s.entries) key.name value).length := by
    rw [textOf_append, List.length_append]
  rw [List.length_append] at size
  by_cases fits : (textOf (s.entries ++ [(key, value)])).length < C
  · have room : (newLine (textOf s.entries) key.name value).length < (0 :: rest).length := by omega
    obtain ⟨after, added, same⟩ := addArray_fits terminated room
    rw [← textOf_append, ← array] at added
    rw [← textOf_append, @List.length_append _ _ (0 :: rest), size] at same
    refine ⟨_, by rw [decide_eq_true fits]; exact added, after, ?_, ?_⟩
    · unfold Filled.add
      rw [added]
    · unfold Filled.add
      rw [added]
      exact same
  · have short : (0 :: rest).length ≤ (newLine (textOf s.entries) key.name value).length := by omega
    obtain ⟨after, full, same⟩ := addArray_full terminated short
    rw [← array] at full
    rw [@List.length_append _ _ (0 :: rest), size] at same
    refine ⟨_, by rw [decide_eq_false fits]; exact full, after, ?_, ?_⟩
    · unfold Filled.add
      rw [full]
    · unfold Filled.add
      rw [full]
      exact same

theorem Filled.Holds.lawful (holds : s.Holds C) : Lawful C s := by
  obtain ⟨rest, array, size⟩ := id holds
  constructor
  · rw [array, size]
  · rw [array]
    exact List.mem_append_right _ List.mem_cons_self
  · intro key dest room
    have lines : s.d.length = (textOf s.entries).length + rest.length + 1 := by
      rw [array, List.length_append, List.length_cons, Nat.add_assoc]
    have enough := Nat.le_add_right (textOf s.entries).length rest.length
    unfold getArray
    rw [if_neg room, lines, array, getLines_eq (textOf_terminated s.entries) room enough, find_textOf key s.entries enough,
      Option.map_map]
    cases entryOf key s.entries with
    | none => rfl
    | some value => exact congrArg (fun value => some (answer dest (some value))) (unescape_escape value)
  · intro key
    exact if_pos rfl
  · intro key value
    obtain ⟨d, added, -⟩ := holds.addArray_eq key value
    exact ⟨d, added⟩

theorem Filled.holds_start (C : { C : Nat // 0 < C }) : (Filled.start C).Holds C := by
  obtain ⟨C, positive⟩ := C
  obtain ⟨rest, rfl⟩ := Nat.exists_eq_succ_of_ne_zero (Nat.ne_of_gt positive)
  refine ⟨List.replicate rest 0, List.replicate_succ, ?_⟩
  change (0 :: List.replicate rest 0).length = rest + 1
  rw [List.length_cons, List.length_replicate]

end Law

/-- In every state of every sequence of calls of `add` the array is a dictionary of the entries that were added. -/
theorem dictionary_law (C : { C : Nat // 0 < C }) (calls : List (Key × List Byte)) :
    Throughout Filled.add (Lawful C) (Filled.start C) calls := by
  have holds : Throughout Filled.add (Filled.Holds C) (Filled.start C) calls := by
    apply throughout_of_preserved _ (Filled.holds_start C)
    intro s call holds
    obtain ⟨d, -, kept⟩ := holds.addArray_eq call.1 call.2
    exact kept
  exact holds.imp fun _ => Filled.Holds.lawful

end ZeroTierNode.Dictionary

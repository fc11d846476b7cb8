import ZeroTierNode.DictionaryArray

/-!
`Dictionary<C>::get` on whatever the array can hold: the two ways to load it from
memory, and bytes that were written into it directly.
-/

namespace ZeroTierNode.Dictionary
open Library.Bytes Library.Stores

/-- A C string, without the NUL behind it. -/
abbrev CString : Type := { text : List Byte // 0 ∉ text }

/-- The memory of a C string. -/
def CString.memory (s : CString) : List Byte := s.val ++ [0]

/-- The loop of `load` and of the constructor with a length, from `i` on for `count` characters: `s` is what is left of
the memory that is read, until it is null. `none` when the read is outside of the memory. -/
def loadLoop (withinLen : Nat → Bool) : Nat → Nat → Option (List Byte) → Option (List Byte × Option (List Byte))
  | 0, _, s => some ([], s)
  | count + 1, i, s =>
      match s with
      | some memory =>
          if withinLen i then
            match memory with
            | [] => none
            | c :: memory =>
                (loadLoop withinLen count (i + 1) (if c = 0 then none else some memory)).map fun loaded =>
                  (c :: loaded.1, loaded.2)
          else (loadLoop withinLen count (i + 1) (some memory)).map fun loaded => (0 :: loaded.1, loaded.2)
      | none => (loadLoop withinLen count (i + 1) none).map fun loaded => (0 :: loaded.1, loaded.2)

/-- `load`: the array, and whether the string fitted. -/
def loadArray (C : Nat) (s : Option (List Byte)) : Option (List Byte × Bool) := do
  let loaded ← loadLoop (fun _ => true) C 0 s
  let d ← store loaded.1 (C - 1) 0
  return (d, loaded.2.isNone)

/-- `Dictionary(s, len)`. -/
def construct (C : Nat) (s : Option (List Byte)) (len : Nat) : Option (List Byte) := do
  let loaded ← loadLoop (fun i => i < len) C 0 s
  store loaded.1 (C - 1) 0

/-- What puts bytes into a dictionary. A pointer may be null; memory that is given with a length has that many bytes,
or a NUL before. -/
inductive Source (C : Nat) where
  | load (s : Option CString)
  | construct (memory : Option (List Byte)) (len : Nat)
      (readable : ∀ bytes, memory = some bytes → len ≤ bytes.length ∨ 0 ∈ bytes)
  | unsafeData (d : List Byte) (size : d.length = C) (terminated : 0 ∈ d)

/-- The array. -/
def Source.array {C : Nat} : Source C → Option (List Byte)
  | .load s => (loadArray C (s.map CString.memory)).map Prod.fst
  | .construct memory len _ => Dictionary.construct C memory len
  | .unsafeData d _ _ => some d

/-- What is asked of `get`: it comes back with a character array of the same size, and either nothing was found and the
array is empty, or what it says is there is followed by a NUL. -/
structure Robust (d key dest : List Byte) (after : List Byte) (r : Int) : Prop where
  returns : getArray d key dest = some (after, r)
  size : after.length = dest.length
  result : (r = -1 ∧ after[0]? = some 0) ∨ ∃ n : Nat, r = (n : Int) ∧ n < dest.length ∧ after[n]? = some 0

section Loading

variable {withinLen : Nat → Bool}

theorem loadLoop_null (count i : Nat) : ∃ loaded, loadLoop withinLen count i none = some loaded ∧ loaded.1.length = count := by
  induction count generalizing i with
  | zero => exact ⟨_, rfl, rfl⟩
  | succ count ih =>
      obtain ⟨loaded, read, size⟩ := ih (i + 1)
      exact ⟨(0 :: loaded.1, loaded.2), by rw [loadLoop, read]; rfl, congrArg Nat.succ size⟩

/-- The memory is read to its NUL, or as far as its length says. -/
theorem loadLoop_reads (count i : Nat) (memory : List Byte)
    (readable : 0 ∈ memory ∨ ∀ k, withinLen k = true → k < i + memory.length) :
    ∃ loaded, loadLoop withinLen count i (some memory) = some loaded ∧ loaded.1.length = count := by
  induction count generalizing i memory with
  | zero => exact ⟨_, rfl, rfl⟩
  | succ count ih =>
      by_cases within : withinLen i = true
      · cases memory with
        | nil =>
            rcases readable with found | bound
            · cases found
            · exact absurd (bound i within) (Nat.lt_irrefl _)
        | cons c memory =>
            have rest : ∃ loaded, loadLoop withinLen count (i + 1) (if c = 0 then none else some memory) = some loaded ∧
                loaded.1.length = count := by
              by_cases last : c = 0
              · rw [if_pos last]
                exact loadLoop_null count (i + 1)
              · rw [if_neg last]
                apply ih
                rcases readable with found | bound
                · rcases List.mem_cons.mp found with here | later
                  · exact absurd here.symm last
                  · exact .inl later
                · refine .inr fun k inside => ?_
                  have before := bound k inside
                  rw [List.length_cons] at before
                  omega
            obtain ⟨loaded, read, size⟩ := rest
            refine ⟨(c :: loaded.1, loaded.2), ?_, congrArg Nat.succ size⟩
            rw [loadLoop, if_pos within, read]
            rfl
      · have later : 0 ∈ memory ∨ ∀ k, withinLen k = true → k < i + 1 + memory.length :=
          readable.imp_right fun bound k inside => (bound k inside).trans_le (by omega)
        obtain ⟨loaded, read, size⟩ := ih (i + 1) memory later
        have skipped : loadLoop withinLen (count + 1) i (some memory) =
            (loadLoop withinLen count (i + 1) (some memory)).map fun loaded => (0 :: loaded.1, loaded.2) := by
          cases memory <;> exact if_neg within
        refine ⟨(0 :: loaded.1, loaded.2), ?_, congrArg Nat.succ size⟩
        rw [skipped, read]
        rfl

/-- The last character of the array is a NUL. -/
theorem store_last {d : List Byte} {C : Nat} (size : d.length = C) (room : 0 < C) :
    ∃ after, store d (C - 1) 0 = some after ∧ after.length = C ∧ 0 ∈ after := by
  have inside : C - 1 < d.length := by omega
  refine ⟨d.set (C - 1) 0, if_pos inside, ?_, ?_⟩
  · rw [List.length_set, size]
  · exact List.mem_iff_getElem?.mpr ⟨C - 1, List.getElem?_set_self inside⟩

theorem Source.array_eq {C : Nat} (room : 0 < C) (source : Source C) :
    ∃ d, source.array = some d ∧ d.length = C ∧ 0 ∈ d := by
  cases source with
  | unsafeData d size terminated => exact ⟨d, rfl, size, terminated⟩
  | load s =>
      have loads : ∃ loaded, loadLoop (fun _ => true) C 0 (s.map CString.memory) = some loaded ∧ loaded.1.length = C := by
        cases s with
        | none => exact loadLoop_null C 0
        | some s => exact loadLoop_reads C 0 s.memory (.inl (List.mem_append_right _ List.mem_cons_self))
      obtain ⟨loaded, read, size⟩ := loads
      obtain ⟨after, stored, sized, terminated⟩ := store_last size room
      refine ⟨after, ?_, sized, terminated⟩
      simp only [Source.array, loadArray, read, stored, Option.bind_eq_bind, Option.bind_some, Option.pure_def,
        Option.map_some]
  | construct memory len readable =>
      have loads : ∃ loaded, loadLoop (fun i => i < len) C 0 memory = some loaded ∧ loaded.1.length = C := by
        cases memory with
        | none => exact loadLoop_null C 0
        | some bytes =>
            apply loadLoop_reads C 0 bytes
            rcases readable bytes rfl with long | terminated
            · exact .inr fun k inside => by
                have before := of_decide_eq_true inside
                omega
            · exact .inl terminated
      obtain ⟨loaded, read, size⟩ := loads
      obtain ⟨after, stored, sized, terminated⟩ := store_last size room
      refine ⟨after, ?_, sized, terminated⟩
      simp only [Source.array, Dictionary.construct, read, stored, Option.bind_eq_bind, Option.bind_some]

end Loading

section Robustness

variable {d key dest : List Byte}

theorem answer_spec (room : dest ≠ []) (found : Option (List Byte)) :
    (answer dest found).1.length = dest.length ∧
      (((answer dest found).2 = -1 ∧ (answer dest found).1[0]? = some 0) ∨
        ∃ n : Nat, (answer dest found).2 = (n : Int) ∧ n < dest.length ∧ (answer dest found).1[n]? = some 0) := by
  have positive := List.length_pos_of_ne_nil room
  cases found with
  | none => exact ⟨List.length_set, .inl ⟨rfl, List.getElem?_set_self positive⟩⟩
  | some value =>
      have short : (value.take (dest.length - 1)).length ≤ dest.length - 1 := by
        rw [List.length_take]
        exact Nat.min_le_left _ _
      constructor
      · simp only [answer, List.length_append, List.length_cons, List.length_drop]
        omega
      · refine .inr ⟨(value.take (dest.length - 1)).length, rfl, by omega, ?_⟩
        show (value.take (dest.length - 1) ++ 0 :: _)[(value.take (dest.length - 1)).length]? = some 0
        rw [List.getElem?_append_right (Nat.le_refl _), Nat.sub_self]
        rfl

theorem getArray_robust (terminated : 0 ∈ d) (room : dest ≠ []) : ∃ after r, Robust d key dest after r := by
  obtain ⟨text, rest, whole, clean⟩ := List.eq_append_cons_of_mem terminated
  have length : d.length = text.length + rest.length + 1 := by
    rw [whole, List.length_append, List.length_cons, Nat.add_assoc]
  have returned := @getLines_eq key text rest dest clean room (text.length + rest.length) (Nat.le_add_right _ _)
  obtain ⟨size, result⟩ := answer_spec room ((find key (text.length + rest.length) text).map unescape)
  refine ⟨_, _, ?_, size, result⟩
  rw [getArray, if_neg room, length, whole]
  exact returned

end Robustness

/-- On every array that can be loaded or written, `get` comes back, having read and written inside of the arrays only. -/
theorem get_robust (C : { C : Nat // 0 < C }) (source : Source C.val) (key : CString)
    (dest : { dest : List Byte // dest ≠ [] }) :
    ∃ d, source.array = some d ∧ d.length = C.val ∧ ∃ after r, Robust d key.val dest.val after r := by
  obtain ⟨d, loaded, size, terminated⟩ := source.array_eq C.property
  exact ⟨d, loaded, size, getArray_robust terminated dest.property⟩

end ZeroTierNode.Dictionary

import Mathlib.Data.List.Pairwise
import Mathlib.Tactic.Tauto
import ZeroTierNode.Library.OrderedArrays

/-!
Sets kept as arrays in strict order: binary search for an element, insertion at the
upper bound, removal at the lower bound. The order is a comparison function that is
given, and need not come with the type.
-/

namespace ZeroTierNode.Library.OrderedSets
open Library.OrderedArrays

variable {α : Type*}

/-- A comparison that is a strict order and tells any two elements apart. -/
structure Compares (before : α → α → Bool) : Prop where
  irrefl : ∀ x, before x x = false
  trans : ∀ x y z, before x y = true → before y z = true → before x z = true
  total : ∀ x y, before x y = false → before y x = false → x = y

/-- In strict order. -/
def Ordered (before : α → α → Bool) (xs : List α) : Prop := xs.Pairwise fun x y => before x y = true

variable (before : α → α → Bool)

/-- `std::binary_search`, which looks at the element at the lower bound. -/
def binarySearch (xs : List α) (x : α) : Bool :=
  (xs[lowerBound (fun y => before y x) xs]?).any fun y => ¬before x y

/-- `std::upper_bound`. -/
def upperBound (xs : List α) (x : α) : Nat := lowerBound (fun y => ¬before x y) xs

/-- A new element at its upper bound. -/
def insert (xs : List α) (x : α) : List α :=
  if binarySearch before xs x then xs else xs.insertIdx (upperBound before xs x) x

/-- What stands at the lower bound goes if it is the element. -/
def erase [DecidableEq α] (xs : List α) (x : α) : List α :=
  if xs[lowerBound (fun y => before y x) xs]? = some x then xs.eraseIdx (lowerBound (fun y => before y x) xs) else xs

variable {before} {xs : List α}

theorem Compares.asymm (compares : Compares before) {x y : α} (less : before x y = true) : before y x = false := by
  by_contra greater
  have cycle := compares.trans x y x less (by simpa using greater)
  rw [compares.irrefl] at cycle
  cases cycle

theorem Ordered.nodup (compares : Compares before) (ordered : Ordered before xs) : xs.Nodup := by
  apply List.Pairwise.imp _ ordered
  intro x y less same
  rw [same, compares.irrefl] at less
  cases less

/-- An array falls apart into what is below an element and what is not, and the element comes first in the latter. -/
theorem Ordered.split (compares : Compares before) (ordered : Ordered before xs) (x : α) :
    ∃ front back, xs = front ++ back ∧ (∀ y ∈ front, before y x = true) ∧ (∀ y ∈ back, before y x = false) ∧
      ∀ y ∈ back.tail, before x y = true := by
  induction xs with
  | nil => exact ⟨[], [], rfl, by simp, by simp, by simp⟩
  | cons first rest ih =>
    obtain ⟨above, behind⟩ := List.pairwise_cons.mp ordered
    by_cases less : before first x = true
    · obtain ⟨front, back, whole, low, high, later⟩ := ih behind
      refine ⟨first :: front, back, by rw [whole, List.cons_append], ?_, high, later⟩
      intro y found
      cases List.mem_cons.mp found with
      | inl here => exact here ▸ less
      | inr there => exact low y there
    · have least : before first x = false := by simpa using less
      have larger (y : α) (found : y ∈ rest) : before x y = true := by
        by_cases same : x = first
        · exact same ▸ above y found
        · have greater : before x first = true := by
            by_contra not
            exact same (compares.total x first (by simpa using not) least)
          exact compares.trans x first y greater (above y found)
      refine ⟨[], first :: rest, rfl, by simp, ?_, larger⟩
      intro y found
      cases List.mem_cons.mp found with
      | inl here => exact here ▸ least
      | inr there => exact compares.asymm (larger y there)

/-- What the three operations see: the array around the place of an element. -/
structure Around (before : α → α → Bool) (x : α) (front back : List α) : Prop where
  low : ∀ y ∈ front, before y x = true
  high : ∀ y ∈ back, before x y = true

/-- Either the element stands between what is below and what is above it, or nothing does. -/
theorem Ordered.around (compares : Compares before) (ordered : Ordered before xs) (x : α) :
    ∃ front back, Around before x front back ∧ (xs = front ++ x :: back ∨ xs = front ++ back) := by
  obtain ⟨front, back, whole, low, high, later⟩ := ordered.split compares x
  cases back with
  | nil => exact ⟨front, [], ⟨low, by simp⟩, .inr whole⟩
  | cons y back =>
    by_cases same : x = y
    · exact ⟨front, back, ⟨low, later⟩, .inl (same ▸ whole)⟩
    · have greater : before x y = true := by
        by_contra not
        exact same (compares.total x y (by simpa using not) (high y List.mem_cons_self))
      refine ⟨front, y :: back, ⟨low, ?_⟩, .inr whole⟩
      intro z found
      cases List.mem_cons.mp found with
      | inl here => exact here ▸ greater
      | inr there => exact later z there

namespace Around

variable {x : α} {front back : List α} (around : Around before x front back) (compares : Compares before)
include around compares

theorem notMem : x ∉ front ++ back := by
  intro found
  have itself := compares.irrefl x
  cases List.mem_append.mp found with
  | inl below =>
    rw [around.low x below] at itself
    cases itself
  | inr above =>
    rw [around.high x above] at itself
    cases itself

theorem lowerBound_absent : lowerBound (fun y => before y x) (front ++ back) = front.length :=
  lowerBound_eq around.low fun y found => compares.asymm (around.high y found)

theorem lowerBound_present : lowerBound (fun y => before y x) (front ++ x :: back) = front.length := by
  apply lowerBound_eq around.low
  intro y found
  cases List.mem_cons.mp found with
  | inl here => exact here ▸ compares.irrefl x
  | inr there => exact compares.asymm (around.high y there)

theorem binarySearch_present : binarySearch before (front ++ x :: back) x = true := by
  have here : (front ++ x :: back)[front.length]? = some x := by simp
  rw [binarySearch, around.lowerBound_present compares, here, Option.any_some, compares.irrefl]
  rfl

theorem binarySearch_absent : binarySearch before (front ++ back) x = false := by
  rw [binarySearch, around.lowerBound_absent compares, List.getElem?_append_right (Nat.le_refl _), Nat.sub_self]
  cases back with
  | nil => rfl
  | cons y back =>
    rw [List.getElem?_cons_zero, Option.any_some, around.high y List.mem_cons_self]
    rfl

theorem upperBound_absent : upperBound before (front ++ back) x = front.length := by
  apply lowerBound_eq
  · intro y found
    simp [compares.asymm (around.low y found)]
  · intro y found
    simp [around.high y found]

end Around

theorem Around.ordered_insert {x : α} {front back : List α} (around : Around before x front back)
    (ordered : Ordered before (front ++ back)) : Ordered before (front ++ x :: back) := by
  obtain ⟨first, second, between⟩ := List.pairwise_append.mp ordered
  apply List.pairwise_append.mpr
  refine ⟨first, List.pairwise_cons.mpr ⟨around.high, second⟩, ?_⟩
  intro y below z behind
  cases List.mem_cons.mp behind with
  | inl here => exact here ▸ around.low y below
  | inr there => exact between y below z there

section Operations

variable (compares : Compares before) (ordered : Ordered before xs) (x : α)
include compares ordered

theorem insert_spec : Ordered before (insert before xs x) ∧ ∀ y, y ∈ insert before xs x ↔ y = x ∨ y ∈ xs := by
  obtain ⟨front, back, around, whole⟩ := ordered.around compares x
  unfold insert
  cases whole with
  | inl present =>
    rw [present, if_pos (around.binarySearch_present compares)]
    refine ⟨present ▸ ordered, ?_⟩
    intro y
    simp only [List.mem_append, List.mem_cons]
    tauto
  | inr absent =>
    have missing := around.binarySearch_absent compares
    rw [absent, if_neg (by simp [missing]), around.upperBound_absent compares, insertIdx_border]
    refine ⟨around.ordered_insert (absent ▸ ordered), ?_⟩
    intro y
    simp only [List.mem_append, List.mem_cons]
    tauto

theorem erase_spec [DecidableEq α] :
    Ordered before (erase before xs x) ∧ ∀ y, y ∈ erase before xs x ↔ y ≠ x ∧ y ∈ xs := by
  obtain ⟨front, back, around, whole⟩ := ordered.around compares x
  have notMem := around.notMem compares
  unfold erase
  cases whole with
  | inl present =>
    have here : (front ++ x :: back)[front.length]? = some x := by simp
    have left : (front ++ x :: back).eraseIdx front.length = front ++ back := by
      rw [List.eraseIdx_append_of_length_le (Nat.le_refl _), Nat.sub_self, List.eraseIdx_cons_zero]
    rw [present, around.lowerBound_present compares, if_pos here, left]
    refine ⟨?_, ?_⟩
    · apply List.Pairwise.sublist _ (present ▸ ordered)
      exact List.Sublist.append_left (List.sublist_cons_self x back) front
    · intro y
      by_cases same : y = x
      · simp [same, notMem]
      · simp [same]
  | inr absent =>
    have missing : ¬(front ++ back)[front.length]? = some x := fun found => notMem (List.mem_of_getElem? found)
    rw [absent, around.lowerBound_absent compares, if_neg missing]
    refine ⟨absent ▸ ordered, ?_⟩
    intro y
    by_cases same : y = x
    · simp [same, notMem]
    · simp [same]

end Operations

end ZeroTierNode.Library.OrderedSets

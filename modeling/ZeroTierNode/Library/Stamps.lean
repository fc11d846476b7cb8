import Mathlib.Algebra.Order.Group.Unbundled.Int
import Mathlib.Data.Option.Basic
import Mathlib.Tactic.Tauto

/-!
Time stamps in which zero stands for "never", read on a clock that may itself be
close to zero. A window asks whether something happened lately, a gate lets one
event through per interval; both are compared with what they are for.
-/

namespace ZeroTierNode.Library.Stamps

/-- Less than `window` has passed since the stamp. -/
def fresh (window now stamp : Int) : Bool := now - stamp < window

/-- One of the times lies less than `window` back. -/
def Lately (window : Int) (times : Int → Prop) (now : Int) : Prop :=
  ∃ time, times time ∧ time ≤ now ∧ now - time < window

/-- From `clock` on, the stamp is fresh only when one of the times lies less than `window` back. -/
def Backed (window : Int) (times : Int → Prop) (clock stamp : Int) : Prop :=
  ∀ now, clock ≤ now → fresh window now stamp = true → Lately window times now

section Windows

variable {window clock stamp : Int} {times : Int → Prop}

theorem fresh_iff {now : Int} : fresh window now stamp = true ↔ now - stamp < window := by
  simp [fresh]

theorem Lately.mono {later : Int → Prop} {now : Int} (lately : Lately window times now)
    (more : ∀ time, times time → later time) : Lately window later now := by
  obtain ⟨time, happened, past, near⟩ := lately
  exact ⟨time, more time happened, past, near⟩

theorem Backed.mono {later : Int → Prop} {clock' : Int} (backed : Backed window times clock stamp)
    (forward : clock ≤ clock') (more : ∀ time, times time → later time) : Backed window later clock' stamp := by
  intro now reached young
  exact (backed now (Int.le_trans forward reached) young).mono more

/-- A stamp set when something happened. -/
theorem backed_of_happened (happened : times stamp) (past : stamp ≤ clock) :
    Backed window times clock stamp := by
  intro now reached young
  exact ⟨stamp, happened, Int.le_trans past reached, fresh_iff.mp young⟩

/-- Zero tells that nothing happened lately only after the first window, or when it is wrong and
something did happen. -/
theorem backed_zero_iff (past : ∀ time, times time → 0 ≤ time ∧ time ≤ clock) :
    Backed window times clock 0 ↔ window ≤ clock ∨ ∃ time, times time := by
  constructor
  · intro backed
    by_cases late : window ≤ clock
    · exact Or.inl late
    · right
      obtain ⟨time, happened, -, -⟩ := backed clock (Int.le_refl clock) (fresh_iff.mpr (by omega))
      exact ⟨time, happened⟩
  · rintro (late | ⟨time, happened⟩)
    · intro now reached young
      have tooYoung := fresh_iff.mp young
      omega
    · intro now reached young
      have bounds := past time happened
      have near := fresh_iff.mp young
      exact ⟨time, happened, by omega, by omega⟩

end Windows

/-- The latest of some stamps, or zero. -/
def latest (stamps : List Int) : Int := stamps.foldl (fun sofar stamp => max stamp sofar) 0

theorem fresh_max {window now first second : Int} :
    fresh window now (max first second) = true ↔ fresh window now first = true ∨ fresh window now second = true := by
  simp only [fresh_iff]
  omega

theorem fresh_latest {window now : Int} (stamps : List Int) :
    fresh window now (latest stamps) = true ↔
      fresh window now 0 = true ∨ ∃ stamp ∈ stamps, fresh window now stamp = true := by
  have general (sofar : Int) : fresh window now (stamps.foldl (fun sofar stamp => max stamp sofar) sofar) = true ↔
      fresh window now sofar = true ∨ ∃ stamp ∈ stamps, fresh window now stamp = true := by
    induction stamps generalizing sofar with
    | nil => simp
    | cons stamp stamps ih =>
        rw [List.foldl_cons, ih, fresh_max]
        simp only [List.mem_cons, exists_eq_or_imp]
        tauto
  exact general 0

/-- A gate that keeps the time of the last event it let through. -/
def letThrough (interval now stamp : Int) : Bool × Int :=
  if interval ≤ now - stamp then (true, now) else (false, stamp)

/-- What the gate is for: the first event passes, and then one per interval. -/
def due (interval : Int) (last : Option Int) (now : Int) : Bool :=
  match last with
  | none => true
  | some time => interval ≤ now - time

/-- The gate's memory of the last event that passed: its time, or zero once that makes no difference. -/
def Remembers (interval clock : Int) (last : Option Int) (stamp : Int) : Prop :=
  stamp = last.getD 0 ∨ (stamp = 0 ∧ ∃ time, last = some time ∧ 0 ≤ time ∧ interval ≤ clock - time)

section Gates

variable {interval clock now stamp : Int} {last : Option Int}

/-- A gate with a stamp is right about every event but a first one that comes too early. -/
theorem letThrough_eq_due_iff (remembers : Remembers interval clock last stamp) (reached : clock ≤ now) :
    (letThrough interval now stamp).1 = due interval last now ↔ (last = none → interval ≤ now) := by
  rcases remembers with kept | ⟨zero, time, passed, started, elapsed⟩
  · cases last with
    | none =>
        have zero : stamp = 0 := kept
        rw [zero, letThrough, Int.sub_zero, due]
        by_cases late : interval ≤ now
        · simp [late]
        · simp [late]
    | some time =>
        have same : stamp = time := kept
        rw [same, letThrough, due]
        by_cases late : interval ≤ now - time
        · simp [late]
        · simp [late]
  · have late : interval ≤ now - time := by omega
    have opened : interval ≤ now - 0 := by omega
    rw [zero, passed, letThrough, if_pos opened, due]
    simp [late]

theorem Remembers.later {clock' : Int} (remembers : Remembers interval clock last stamp) (forward : clock ≤ clock') :
    Remembers interval clock' last stamp := by
  rcases remembers with kept | ⟨zero, time, passed, started, elapsed⟩
  · exact Or.inl kept
  · exact Or.inr ⟨zero, time, passed, started, by omega⟩

theorem remembers_letThrough (remembers : Remembers interval clock last stamp) (reached : clock ≤ now) :
    Remembers interval now (if (letThrough interval now stamp).1 then some now else last) (letThrough interval now stamp).2 := by
  unfold letThrough
  by_cases passes : interval ≤ now - stamp
  · rw [if_pos passes]
    exact Or.inl rfl
  · rw [if_neg passes]
    simpa using remembers.later reached

theorem letThrough_bounds (started : 0 ≤ stamp) (past : stamp ≤ now) :
    0 ≤ (letThrough interval now stamp).2 ∧ (letThrough interval now stamp).2 ≤ now := by
  unfold letThrough
  by_cases passes : interval ≤ now - stamp
  · rw [if_pos passes]
    exact ⟨by omega, Int.le_refl now⟩
  · rw [if_neg passes]
    exact ⟨started, past⟩

/-- A stamp may be dropped when the gate would let the next event through anyway. -/
theorem Remembers.dropped (remembers : Remembers interval clock last stamp) (started : 0 ≤ stamp)
    (elapsed : interval ≤ clock - stamp) : Remembers interval clock last 0 := by
  rcases remembers with kept | known
  · cases last with
    | none => exact Or.inl rfl
    | some time =>
        have same : stamp = time := kept
        rw [same] at started elapsed
        exact Or.inr ⟨rfl, time, rfl, started, elapsed⟩
  · exact Or.inr ⟨rfl, known.2⟩

end Gates

end ZeroTierNode.Library.Stamps

import ZeroTierNode.FilterSets

/-!
DROP actions that are passed over. `_doZtFilter` passes over a DROP when a tag was
assumed to match because it is not known, here or in an earlier set.
-/

namespace ZeroTierNode.FilterDrops
open Library.RuleSets ZeroTierNode.Filter FilterSets

section Frame

variable (q : FilterInput)

/-- In one turn of the loop, a match is assumed to hold because a tag is unknown. -/
def assumesTag (rn : Nat) (rule : Rule) (st : FilterState) : Bool :=
  (st.thisSetMatches || rule.isOr) && (matchRule q st.out.ztDest st.superAccept rn rule).2

/-- Along the loop, every DROP whose set matches and that is passed over has a match of its own set that
was assumed to hold; `assumed` says whether the set has one so far. -/
def DropsHeld : Nat → Bool → FilterState → List Rule → Prop
  | _, _, _, [] => True
  | rn, assumed, st, rule :: rules =>
      match filterStep q rn rule st with
      | .inl _ => True
      | .inr next =>
          (rule.ruleType = .actionDrop → st.thisSetMatches = true → assumed = true) ∧
            DropsHeld (rn + 1) (if rule.isAction then false else assumed || assumesTag q rn rule st) next rules

/-- The rest of a set matches, given the fold so far. -/
def setMatches (fold : Bool) (state : SetState) (set : RuleSet (Nat × Rule) Rule) : Bool :=
  (filterEngine q).foldFrom state fold set.conditions

/-- The set has a match that is assumed to hold, in its part seen so far or in the rest. -/
def setAssumes (fold assumed : Bool) (state : SetState) (set : RuleSet (Nat × Rule) Rule) : Bool :=
  assumed || (filterEngine q).raisesFrom (filterEngine q).evaluated state fold set.conditions

def takenDrop (fold : Bool) (state : SetState) (set : RuleSet (Nat × Rule) Rule) : Bool :=
  decide (set.action.ruleType = .actionDrop) && setMatches q fold state set

/-- Where evaluation goes on behind a set on its own, if it does. -/
def behind (fold assumed : Bool) (state : SetState) (set : RuleSet (Nat × Rule) Rule) : Option SetState :=
  match actionOf q state (setAssumes q fold assumed state set) (setMatches q fold state set) set.action with
  | .inl _ => none
  | .inr (next, _) => some next

/-- The next DROP that is taken has an assumed match in its own set. -/
def NextDropAssumes : Bool → Bool → SetState → List (RuleSet (Nat × Rule) Rule) → Prop
  | _, _, _, [] => True
  | fold, assumed, state, set :: sets =>
      if takenDrop q fold state set then setAssumes q fold assumed state set = true
      else match behind q fold assumed state set with
        | none => True
        | some next => NextDropAssumes true false next sets

/-- After every set with an assumed match that is not itself a taken DROP, the next DROP that is taken
has an assumed match in its own set. -/
def AssumptionsMeetDrops : Bool → Bool → SetState → List (RuleSet (Nat × Rule) Rule) → Prop
  | _, _, _, [] => True
  | fold, assumed, state, set :: sets =>
      match behind q fold assumed state set with
      | none => True
      | some next =>
          (setAssumes q fold assumed state set = true → takenDrop q fold state set = false →
            NextDropAssumes q true false next sets) ∧
          AssumptionsMeetDrops true false next sets

variable {q}

section Conditions

variable (fold assumed : Bool) (state : SetState) (condition : Nat × Rule)

/-- The assumptions of a set with one more match seen. -/
def assumedNow : Bool :=
  assumed || ((filterEngine q).evaluated fold condition && (filterEngine q).raises state condition)

theorem setMatches_cons (set : RuleSet (Nat × Rule) Rule) :
    setMatches q fold state ⟨condition :: set.conditions, set.action⟩ =
      setMatches q ((filterEngine q).combine state fold condition) state set := rfl

theorem setAssumes_cons (set : RuleSet (Nat × Rule) Rule) :
    setAssumes q fold assumed state ⟨condition :: set.conditions, set.action⟩ =
      setAssumes q ((filterEngine q).combine state fold condition) (@assumedNow q fold assumed state condition)
        state set := by
  rw [setAssumes, setAssumes, Engine.raisesFrom, assumedNow, Bool.or_assoc]

variable (items : List (Item (Nat × Rule) Rule))

theorem nextDropAssumes_condition :
    NextDropAssumes q fold assumed state (splitSets (.condition condition :: items)) ↔
      NextDropAssumes q ((filterEngine q).combine state fold condition)
        (@assumedNow q fold assumed state condition) state (splitSets items) := by
  rw [splitSets]
  cases splitSets items with
  | nil => exact Iff.rfl
  | cons set sets =>
      rw [NextDropAssumes, NextDropAssumes, takenDrop, behind, setMatches_cons, setAssumes_cons]
      exact Iff.rfl

theorem assumptionsMeetDrops_condition :
    AssumptionsMeetDrops q fold assumed state (splitSets (.condition condition :: items)) ↔
      AssumptionsMeetDrops q ((filterEngine q).combine state fold condition)
        (@assumedNow q fold assumed state condition) state (splitSets items) := by
  rw [splitSets]
  cases splitSets items with
  | nil => exact Iff.rfl
  | cons set sets =>
      rw [AssumptionsMeetDrops, AssumptionsMeetDrops, takenDrop, behind, setMatches_cons, setAssumes_cons]
      exact Iff.rfl

end Conditions

theorem forward_flag (rule : Rule) (st : FilterState) (flag : Bool) :
    forward q rule { st with skipDrop := flag } =
      (forward q rule st).map id (fun next => { next with skipDrop := flag }) := by
  unfold forward
  dsimp only
  split_ifs <;> rfl

/-- An action other than DROP neither reads nor writes the flag. -/
theorem takeAction_flag {rule : Rule} (notDrop : rule.ruleType ≠ .actionDrop) (st : FilterState) (flag : Bool) :
    takeAction q rule { st with skipDrop := flag } =
      (takeAction q rule st).map id (fun next => { next with skipDrop := flag }) := by
  unfold takeAction
  split
  · rfl
  · rename_i drop
    exact absurd drop notDrop
  · rfl
  · exact forward_flag rule st flag
  · exact forward_flag rule st flag
  · exact forward_flag rule st flag
  · rfl
  · rfl

theorem isAction_of_drop {rule : Rule} (drop : rule.ruleType = .actionDrop) : rule.isAction = true := by
  have codes : ∀ t : BitVec 8, RuleType.ofCode (t &&& 0x3f).toNat = .actionDrop → (t &&& 0x3f).toNat ≤ 15 := by
    decide
  exact decide_eq_true (codes rule.t drop)

theorem filterStep_action {rule : Rule} (action : rule.isAction = true) (rn : Nat) (st : FilterState) :
    filterStep q rn rule st =
      if st.thisSetMatches then takeAction q rule st else .inr (passAction q rule st) :=
  if_pos action

theorem filterStep_condition {rule : Rule} (condition : ¬ rule.isAction = true) (rn : Nat) (st : FilterState) :
    filterStep q rn rule st = .inr { st with
      thisSetMatches := (filterEngine q).combine ⟨st.superAccept, st.out⟩ st.thisSetMatches (rn, rule)
      skipDrop := st.skipDrop || assumesTag q rn rule st } := by
  rw [filterStep, if_neg condition]
  cases matching : st.thisSetMatches with
  | true =>
      rw [if_neg (by simp)]
      simp only [assumesTag, matching, Bool.true_or, Bool.true_and]
      rfl
  | false =>
      cases joined : rule.isOr with
      | true =>
          rw [if_neg (by simp)]
          simp only [assumesTag, matching, joined, Bool.or_true, Bool.true_and]
          rw [Engine.combine]
          simp only [filterEngine, joined]
      | false =>
          rw [if_pos (by simp)]
          simp only [assumesTag, matching, joined, Bool.or_false, Bool.false_and]
          rw [Engine.combine]
          simp only [filterEngine, joined, Bool.false_and]
          congr 1
          cases st
          cases matching
          rfl

section Actions

variable {rule : Rule} {rn : Nat} {st : FilterState}
  (other : ¬ (rule.ruleType = .actionDrop ∧ st.thisSetMatches = true)) (action : rule.isAction = true)

include other action

theorem action_keeps {next : FilterState} (step : filterStep q rn rule st = .inr next) :
    next.skipDrop = st.skipDrop ∧ next.thisSetMatches = true := by
  rw [filterStep_action action] at step
  by_cases matching : st.thisSetMatches = true
  · rw [if_pos matching] at step
    have same := @takeAction_flag q rule (fun drop => other ⟨drop, matching⟩) st st.skipDrop
    rw [step] at same
    have flags : next = { next with skipDrop := st.skipDrop } := Sum.inr.inj same
    exact ⟨by rw [flags], takeAction_continues matching step⟩
  · rw [if_neg matching] at step
    cases step
    exact ⟨rfl, rfl⟩

theorem behind_action (assumed : Bool) :
    behind q st.thisSetMatches assumed ⟨st.superAccept, st.out⟩ ⟨[], rule⟩ =
      match filterStep q rn rule st with
      | .inl _ => none
      | .inr next => some ⟨next.superAccept, next.out⟩ := by
  rw [filterStep_action action]
  unfold behind actionOf
  dsimp only
  have matching_eq : setMatches q st.thisSetMatches ⟨st.superAccept, st.out⟩ ⟨[], rule⟩ = st.thisSetMatches := rfl
  rw [matching_eq]
  by_cases matching : st.thisSetMatches = true
  · rw [if_pos matching, if_pos matching]
    have flagged := @takeAction_flag q rule (fun drop => other ⟨drop, matching⟩) st
      (setAssumes q st.thisSetMatches assumed ⟨st.superAccept, st.out⟩ ⟨[], rule⟩)
    rw [flagged]
    cases takeAction q rule st with
    | inl result => rfl
    | inr next => rfl
  · rw [if_neg matching, if_neg matching]
    rfl

end Actions

theorem takeAction_drop {rule : Rule} (drop : rule.ruleType = .actionDrop) (st : FilterState) :
    takeAction q rule st =
      if st.skipDrop then .inr { st with skipDrop := false } else .inl (.drop, st.out) := by
  unfold takeAction
  rw [drop]

/-- On its own, a taken DROP is passed over exactly when its set has an assumed match. -/
theorem behind_drop {rule : Rule} (drop : rule.ruleType = .actionDrop) {fold : Bool} (matching : fold = true)
    (assumed : Bool) (state : SetState) :
    behind q fold assumed state ⟨[], rule⟩ = if assumed then some state else none := by
  subst matching
  unfold behind actionOf
  have assumes : setAssumes q true assumed state ⟨[], rule⟩ = assumed := Bool.or_false assumed
  have matching_eq : setMatches q true state ⟨[], rule⟩ = true := rfl
  rw [assumes, matching_eq]
  dsimp only
  rw [if_pos rfl, takeAction_drop drop]
  cases assumed <;> rfl

/-- The loop, in the middle of a set: `pending` is the flag that earlier sets left behind. -/
theorem dropsHeld_iff (rules : List Rule) (rn : Nat) (assumed pending : Bool) (st : FilterState)
    (flag : st.skipDrop = (pending || assumed)) :
    DropsHeld q rn assumed st rules ↔
      AssumptionsMeetDrops q st.thisSetMatches assumed ⟨st.superAccept, st.out⟩
          (splitSets (ruleItems rn rules)) ∧
        (pending = true → NextDropAssumes q st.thisSetMatches assumed ⟨st.superAccept, st.out⟩
          (splitSets (ruleItems rn rules))) := by
  induction rules generalizing rn assumed pending st with
  | nil => simp [DropsHeld, ruleItems, splitSets, AssumptionsMeetDrops, NextDropAssumes]
  | cons rule rules ih =>
      rw [DropsHeld, ruleItems]
      by_cases action : rule.isAction = true
      · rw [if_pos action, if_pos action, splitSets, AssumptionsMeetDrops, NextDropAssumes]
        have matching_eq : setMatches q st.thisSetMatches ⟨st.superAccept, st.out⟩ ⟨[], rule⟩ =
          st.thisSetMatches := rfl
        have assumes : setAssumes q st.thisSetMatches assumed ⟨st.superAccept, st.out⟩ ⟨[], rule⟩ = assumed :=
          Bool.or_false assumed
        by_cases drop : rule.ruleType = .actionDrop ∧ st.thisSetMatches = true
        · have taken : takenDrop q st.thisSetMatches ⟨st.superAccept, st.out⟩ ⟨[], rule⟩ = true := by
            rw [takenDrop, matching_eq]
            simp [drop]
          rw [filterStep_action action, if_pos drop.2, takeAction_drop drop.1, flag, taken, assumes,
            behind_drop drop.1 drop.2, if_pos rfl]
          cases assumed with
          | true =>
              have later : DropsHeld q (rn + 1) false { st with skipDrop := false } rules ↔
                  AssumptionsMeetDrops q true false ⟨st.superAccept, st.out⟩
                    (splitSets (ruleItems (rn + 1) rules)) := by
                simpa [drop.2] using ih (rn + 1) false false { st with skipDrop := false } rfl
              simp only [Bool.or_true, if_true, later]
              simp
          | false =>
              cases pending with
              | true => simp [drop]
              | false => simp
        · have taken : takenDrop q st.thisSetMatches ⟨st.superAccept, st.out⟩ ⟨[], rule⟩ = false := by
            rw [takenDrop, matching_eq]
            simpa using drop
          rw [behind_action drop action assumed, assumes, taken]
          cases step : filterStep q rn rule st with
          | inl result => simp
          | inr next =>
              obtain ⟨kept, matching⟩ := action_keeps drop action step
              have later := ih (rn + 1) false st.skipDrop next (by rw [kept, Bool.or_false])
              have held : rule.ruleType = .actionDrop → st.thisSetMatches = true → assumed = true :=
                fun isDrop matches' => absurd ⟨isDrop, matches'⟩ drop
              rw [matching, flag] at later
              dsimp only
              rw [later]
              generalize AssumptionsMeetDrops q true false ⟨next.superAccept, next.out⟩
                (splitSets (ruleItems (rn + 1) rules)) = rest
              generalize NextDropAssumes q true false ⟨next.superAccept, next.out⟩
                (splitSets (ruleItems (rn + 1) rules)) = nextDrop
              cases assumed <;> cases pending <;> simp at held ⊢ <;> tauto
      · have notDrop : rule.ruleType ≠ .actionDrop := fun drop => action (isAction_of_drop drop)
        rw [if_neg action, if_neg action, nextDropAssumes_condition, assumptionsMeetDrops_condition,
          filterStep_condition action]
        have later := ih (rn + 1) (assumed || assumesTag q rn rule st) pending
          { st with
            thisSetMatches := (filterEngine q).combine ⟨st.superAccept, st.out⟩ st.thisSetMatches (rn, rule)
            skipDrop := st.skipDrop || assumesTag q rn rule st }
          (by rw [flag, Bool.or_assoc])
        dsimp only
        rw [later]
        exact ⟨fun both => both.2, fun both => ⟨fun drop => absurd drop notDrop, both⟩⟩

/-- A DROP is passed over only for an unknown tag of its own set, exactly when no assumption of an
earlier set reaches it. -/
theorem dropsHeld_iff_assumptionsMeetDrops (q : FilterInput) (out : FilterOutput) (rules : List Rule) :
    DropsHeld q 0 false (initialState out) rules ↔
      AssumptionsMeetDrops q true false ⟨false, out⟩ (splitSets (ruleItems 0 rules)) := by
  have loop := @dropsHeld_iff q rules 0 false false (initialState out) rfl
  simpa [initialState] using loop

end Frame

/-- A set about the tag of the receiver fails on its second match; the final DROP is passed over. -/
theorem unknown_tag_disables_final_drop :
    ∃ q out rules, q.inbound = false ∧ ¬ DropsHeld q 0 false (initialState out) rules := by
  refine ⟨strangerFrame, strangerOut,
    [⟨50, { tagId := 1 }⟩, ⟨37, { etherType := 0x86dd }⟩, ⟨1, {}⟩, ⟨0, {}⟩], rfl, ?_⟩
  intro holds
  -- behind the untaken ACCEPT the flag is still raised
  have final : DropsHeld strangerFrame 3 false ⟨false, true, true, strangerOut⟩ [⟨0, {}⟩] := holds.2.2.2
  have held := final.1 rfl rfl
  cases held

end ZeroTierNode.FilterDrops

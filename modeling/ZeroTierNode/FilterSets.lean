import ZeroTierNode.Filter
import ZeroTierNode.Library.RuleSets

/-!
The rule engine set by set. The loop of `_doZtFilter` is the engine of the library
over the rules of a frame; what passes from set to set is whether we are a target
of the frame, and the flag that makes the next DROP be passed over.
-/

namespace ZeroTierNode.FilterSets
open Library.RuleSets ZeroTierNode.Filter

/-- What sets leave behind besides the flag. -/
structure SetState where
  superAccept : Bool
  out : FilterOutput

/-- Rules are numbered for the random generator. -/
def ruleItems : Nat → List Rule → List (Item (Nat × Rule) Rule)
  | _, [] => []
  | rn, rule :: rules => (if rule.isAction then .action rule else .condition (rn, rule)) :: ruleItems (rn + 1) rules

/-- The action of a set, taken or passed. -/
def actionOf (q : FilterInput) (state : SetState) (skipDrop matches' : Bool) (rule : Rule) :
    (FilterResult × FilterOutput) ⊕ (SetState × Bool) :=
  let st : FilterState := ⟨state.superAccept, matches', skipDrop, state.out⟩
  match if matches' then takeAction q rule st else .inr (passAction q rule st) with
  | .inl result => .inl result
  | .inr st => .inr (⟨st.superAccept, st.out⟩, st.skipDrop)

def filterEngine (q : FilterInput) : Engine (Nat × Rule) Rule SetState (FilterResult × FilterOutput) where
  value := fun state rule =>
    (matchRule q state.out.ztDest state.superAccept rule.1 rule.2).1 ^^ rule.2.isNot
  joins := fun rule => rule.2.isOr
  raises := fun state rule => (matchRule q state.out.ztDest state.superAccept rule.1 rule.2).2
  act := actionOf q
  finish := fun state => (.noMatch, state.out)

/-- The reference evaluator: set by set, with every match evaluated on its own. Unknown tags count
as met when their match is live. -/
def reference (live : Bool → Nat × Rule → Bool) (q : FilterInput) (out : FilterOutput) (rules : List Rule) :
    FilterResult × FilterOutput :=
  (filterEngine q).evalSets live ⟨false, out⟩ false (splitSets (ruleItems 0 rules))

theorem forward_continues {q : FilterInput} {rule : Rule} {st next : FilterState}
    (step : forward q rule st = .inr next) :
    next.thisSetMatches = st.thisSetMatches ∧ next.superAccept = st.superAccept ∧ next.skipDrop = st.skipDrop := by
  unfold forward at step
  dsimp only at step
  split at step
  · cases step
    exact ⟨rfl, rfl, rfl⟩
  · split at step
    · split at step
      · cases step
      · cases step
        exact ⟨rfl, rfl, rfl⟩
    · split at step
      · cases step
        exact ⟨rfl, rfl, rfl⟩
      · split at step
        · cases step
        · cases step
          exact ⟨rfl, rfl, rfl⟩

/-- After an action that is taken the set still matches, and so does the empty beginning of the next. -/
theorem takeAction_continues {q : FilterInput} {rule : Rule} {st next : FilterState}
    (matching : st.thisSetMatches = true) (step : takeAction q rule st = .inr next) :
    next.thisSetMatches = true := by
  unfold takeAction at step
  split at step
  · cases step
  · split at step
    · cases step
      exact matching
    · cases step
  · cases step
  · rw [(forward_continues step).1, matching]
  · rw [(forward_continues step).1, matching]
  · rw [(forward_continues step).1, matching]
  · cases step
  · cases step
    exact matching

/-- The loop of `_doZtFilter` is the engine. -/
theorem filterFrom_eq_run (q : FilterInput) (rules : List Rule) (rn : Nat) (st : FilterState) :
    filterFrom q rn st rules =
      (filterEngine q).run st.thisSetMatches ⟨st.superAccept, st.out⟩ st.skipDrop (ruleItems rn rules) := by
  induction rules generalizing rn st with
  | nil => rfl
  | cons rule rules ih =>
      rw [filterFrom, ruleItems, filterStep]
      by_cases action : rule.isAction = true
      · rw [if_pos action, if_pos action, Engine.run]
        have act : (filterEngine q).act = actionOf q := rfl
        rw [act, actionOf]
        dsimp only
        by_cases matching : st.thisSetMatches = true
        · rw [if_pos matching]
          cases step : takeAction q rule st with
          | inl result => rfl
          | inr next =>
              have still := takeAction_continues matching step
              dsimp only
              rw [ih, still]
        · rw [if_neg matching]
          exact ih (rn + 1) (passAction q rule st)
      · rw [if_neg action, if_neg action, Engine.run]
        change _ = if (!st.thisSetMatches && !rule.isOr) = true then _ else _
        by_cases skipped : (!st.thisSetMatches && !rule.isOr) = true
        · rw [if_pos skipped, if_pos skipped]
          exact ih (rn + 1) st
        · rw [if_neg skipped, if_neg skipped]
          exact ih (rn + 1) _

/-- `_doZtFilter` computes what the rule sets mean. An unknown tag counts as met unless its match is
an AND in a set that has failed. -/
theorem doZtFilter_eq_reference (q : FilterInput) (out : FilterOutput) (rules : List Rule) :
    doZtFilter q out rules = reference (fun fold rule => fold || rule.2.isOr) q out rules := by
  rw [doZtFilter, filterFrom_eq_run]
  exact (filterEngine q).run_eq_evalSets (ruleItems 0 rules) ⟨false, out⟩ false

/-- A match that can still change the fold of its set. -/
def canChange (fold : Bool) (rule : Nat × Rule) : Bool := if rule.2.isOr then !fold else fold

/-- An outbound frame to a node whose tags are not known. -/
def strangerFrame : FilterInput where
  identity := 7
  nconf := .nil
  membership := none
  inbound := false
  ztSource := 7
  macSource := 0
  macDest := 0
  frameData := fun _ => 0
  frameLen := 0
  etherType := 0x0800
  vlanId := 0
  prng := fun _ => 0

def strangerOut : FilterOutput := ⟨9, 0, 0, false, 0⟩

/-- An unknown tag that is joined by OR to a set that already matches still saves the frame. -/
theorem unknown_tag_after_match_skips_drop :
    doZtFilter strangerFrame strangerOut
        [⟨37, { etherType := 0x0800 }⟩, ⟨50 ||| 0x40, { tagId := 1 }⟩, ⟨0, {}⟩] ≠
      reference canChange strangerFrame strangerOut
        [⟨37, { etherType := 0x0800 }⟩, ⟨50 ||| 0x40, { tagId := 1 }⟩, ⟨0, {}⟩] := by
  decide

end ZeroTierNode.FilterSets

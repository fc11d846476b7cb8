import Mathlib.Data.List.Basic

/-!
Rule lists whose rules are conditions or actions. The conditions between two
actions form a set with the action behind them; they are folded from left to
right with AND or OR. An engine walks the list and leaves out conditions that
cannot change the fold; the meaning of a rule list is given set by set.

Conditions may raise a flag, which actions see, but change nothing else.
-/

namespace ZeroTierNode.Library.RuleSets

variable {Condition Action State Result : Type*}

inductive Item (Condition Action : Type*)
  | condition (condition : Condition)
  | action (action : Action)

structure RuleSet (Condition Action : Type*) where
  conditions : List Condition
  action : Action

/-- The sets of a rule list; conditions behind the last action belong to none. -/
def splitSets : List (Item Condition Action) → List (RuleSet Condition Action)
  | [] => []
  | .action action :: items => ⟨[], action⟩ :: splitSets items
  | .condition condition :: items =>
      match splitSets items with
      | [] => []
      | set :: sets => ⟨condition :: set.conditions, set.action⟩ :: sets

structure Engine (Condition Action State Result : Type*) where
  /-- The truth value of a condition. -/
  value : State → Condition → Bool
  /-- The condition is joined by OR. -/
  joins : Condition → Bool
  raises : State → Condition → Bool
  /-- What an action does, given the flag and the fold of its set. -/
  act : State → Bool → Bool → Action → Result ⊕ (State × Bool)
  finish : State → Result

namespace Engine

variable (engine : Engine Condition Action State Result)

def combine (state : State) (fold : Bool) (condition : Condition) : Bool :=
  if engine.joins condition then fold || engine.value state condition
  else fold && engine.value state condition

/-- The engine: an AND is left out when the fold is already false. -/
def run : Bool → State → Bool → List (Item Condition Action) → Result
  | _, state, _, [] => engine.finish state
  | fold, state, flag, .condition condition :: items =>
      if !fold && !engine.joins condition then run fold state flag items
      else run (engine.combine state fold condition) state (flag || engine.raises state condition) items
  | fold, state, flag, .action action :: items =>
      match engine.act state flag fold action with
      | .inl result => result
      | .inr (state, flag) => run true state flag items

/-- The fold of the truth values of conditions. -/
def foldFrom (state : State) (fold : Bool) (conditions : List Condition) : Bool :=
  conditions.foldl (engine.combine state) fold

variable (live : Bool → Condition → Bool)

/-- Some condition raises the flag while it is live. -/
def raisesFrom (state : State) : Bool → List Condition → Bool
  | _, [] => false
  | fold, condition :: conditions =>
      (live fold condition && engine.raises state condition) ||
        raisesFrom state (engine.combine state fold condition) conditions

/-- The meaning of a rule list, set by set, inside the first of which the fold so far is given. -/
def evalFrom : Bool → State → Bool → List (RuleSet Condition Action) → Result
  | _, state, _, [] => engine.finish state
  | fold, state, flag, set :: sets =>
      match engine.act state (flag || engine.raisesFrom live state fold set.conditions)
          (engine.foldFrom state fold set.conditions) set.action with
      | .inl result => result
      | .inr (state, flag) => evalFrom true state flag sets

def evalSets (state : State) (flag : Bool) (sets : List (RuleSet Condition Action)) : Result :=
  engine.evalFrom live true state flag sets

/-- The conditions the engine evaluates. -/
def evaluated (fold : Bool) (condition : Condition) : Bool := fold || engine.joins condition

/-- A condition that is left out would not have changed the fold. -/
theorem combine_of_not_evaluated (state : State) {fold : Bool} {condition : Condition}
    (skipped : engine.evaluated fold condition = false) : engine.combine state fold condition = fold := by
  simp only [evaluated, Bool.or_eq_false_iff] at skipped
  simp [combine, skipped]

theorem evalFrom_condition (state : State) (fold flag : Bool) (condition : Condition)
    (items : List (Item Condition Action)) :
    engine.evalFrom live fold state flag (splitSets (.condition condition :: items)) =
      engine.evalFrom live (engine.combine state fold condition) state
        (flag || (live fold condition && engine.raises state condition)) (splitSets items) := by
  rw [splitSets]
  cases splitSets items with
  | nil => rfl
  | cons set sets =>
      simp only [evalFrom, raisesFrom, foldFrom, List.foldl_cons, Bool.or_assoc]

/-- The engine computes the meaning of the rule list, with the conditions that it evaluates live. -/
theorem run_eq_evalFrom (items : List (Item Condition Action)) (fold : Bool) (state : State) (flag : Bool) :
    engine.run fold state flag items =
      engine.evalFrom engine.evaluated fold state flag (splitSets items) := by
  induction items generalizing fold state flag with
  | nil => rfl
  | cons item items ih =>
      cases item with
      | condition condition =>
          rw [run, evalFrom_condition, ← ih]
          cases done : engine.evaluated fold condition with
          | false =>
              have skipped := done
              simp only [evaluated, Bool.or_eq_false_iff] at skipped
              rw [engine.combine_of_not_evaluated state done]
              simp [skipped]
          | true =>
              have kept : (!fold && !engine.joins condition) = false := by
                rw [← Bool.not_or]
                exact congrArg not done
              simp [kept]
      | action action =>
          rw [run, splitSets, evalFrom, raisesFrom, foldFrom, List.foldl_nil, Bool.or_false]
          dsimp only
          cases engine.act state flag fold action with
          | inl result => rfl
          | inr next => exact ih true next.1 next.2

theorem run_eq_evalSets (items : List (Item Condition Action)) (state : State) (flag : Bool) :
    engine.run true state flag items = engine.evalSets engine.evaluated state flag (splitSets items) :=
  engine.run_eq_evalFrom items true state flag

end Engine

end ZeroTierNode.Library.RuleSets

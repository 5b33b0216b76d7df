import AuditTrail.Rule.Basic
import AuditTrail.Text.Quoted

/-!
# Chains

The rules of one property in the order in which they were added.
-/

namespace AuditTrail

/-- The rules of a property. -/
structure RuleChain where
  property : String
  rules : List PropertyRule

namespace RuleChain

/-- A chain without rules, which hands everything on. -/
def empty (property : String) : RuleChain := ⟨property, []⟩

/-- The chain with a rule added at its end. -/
def push (chain : RuleChain) (rule : PropertyRule) : RuleChain :=
  ⟨chain.property, chain.rules ++ [rule]⟩

/-- The chain with rules added at its end. -/
def append (chain : RuleChain) (rules : List PropertyRule) : RuleChain :=
  ⟨chain.property, chain.rules ++ rules⟩

/-- Rules added one after the other are added in their order. -/
theorem foldl_push (rules : List PropertyRule) (chain : RuleChain) :
    rules.foldl push chain = chain.append rules := by
  induction rules generalizing chain with
  | nil => simp [append]
  | cons rule rest ih => simp [ih, push, append]

/-- The number of rules; a nested chain counts as one. -/
def length (chain : RuleChain) : Nat := chain.rules.length

/-- Whether there are no rules. -/
def isEmpty (chain : RuleChain) : Bool := chain.rules.isEmpty

/-- The chain as a rule of another chain. -/
def toRule (chain : RuleChain) : PropertyRule :=
  .chain chain.property chain.rules

/-- Runs the chain. -/
def run (chain : RuleChain) (context : RuleContext) (input : NamedValue) :
    RuleRun :=
  PropertyRule.runAll context input chain.rules

/-- A text that describes the chain to a developer. -/
def debugText (chain : RuleChain) : String :=
  "PropertyRuleChain \x7b property: " ++ Quoted.text chain.property ++
    ", rules: " ++ toString chain.length ++ " \x7d"

end RuleChain

/-- A text that describes a single rule to a developer, for the rules that have
one. -/
def SingleRule.debugText? : SingleRule → Option String
  | ignore => some "IgnoreRule"
  | rename name =>
      some ("RenameRule \x7b name: " ++ Quoted.text name ++ " \x7d")
  | decrypt _ includesHash =>
      some ("DecryptRule \x7b includes_hash: " ++
        (if includesHash then "true" else "false") ++ " \x7d")
  | change _ _ => none
  | custom _ _ => none

end AuditTrail

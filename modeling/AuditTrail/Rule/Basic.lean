import AuditTrail.Error
import AuditTrail.Value.Kind

/-!
# Property rules

A rule takes a property under the name and with the value it has so far, and
hands it on, renamed or changed, or discards it, or fails. A chain runs its
rules one after the other, each on what the one before it handed on, and stops
at the first that discards or fails. A chain is a rule itself, so chains nest.

A run also tells which single rules it ran, in order, including the one that
stopped it.
-/

namespace AuditTrail

/-- The entity type and the property that a rule is run for, whatever the
property is called by then. -/
structure RuleContext where
  entityType : String
  property : String
  deriving DecidableEq, Repr

/-- A property on its way through a chain. -/
structure NamedValue where
  name : String
  value : FieldValue

/-- What a rule does with a property: hand it on, discard it, or fail. -/
abbrev RuleOutcome := Except AuditError (Option NamedValue)

/-- A way to decrypt stored values. No bytes mean no value. -/
structure Decryption where
  decrypt : Option (List UInt8) → (includesHash : Bool) →
    Except AuditError (Option String)

/-- A single rule. -/
inductive SingleRule where
  /-- Discards the property. -/
  | ignore
  /-- Hands the value on under another name. -/
  | rename (name : String)
  /-- Replaces bytes by the text they encrypt. -/
  | decrypt (decryption : Decryption) (includesHash : Bool)
  /-- Replaces the value by a function of what it answers for a kind. -/
  | change (kind : ValueKind) (f : Option kind.Carrier → FieldValue)
  /-- A rule of the host, with a label that tells it apart from others in the
  account of a run. -/
  | custom (label : String) (f : RuleContext → NamedValue → RuleOutcome)

/-- A rule: a single one, or a chain of rules with the name of the property it
was made for. -/
inductive PropertyRule where
  | single (rule : SingleRule)
  | chain (property : String) (rules : List PropertyRule)

/-- What came of running rules, and which single rules were run. -/
structure RuleRun where
  ran : List SingleRule
  outcome : RuleOutcome

namespace SingleRule

/-- Runs a rule. -/
def apply (context : RuleContext) (input : NamedValue) :
    SingleRule → RuleOutcome
  | ignore => .ok none
  | rename name => .ok (some ⟨name, input.value⟩)
  | decrypt decryption includesHash =>
    let plain (bytes : Option (List UInt8)) : RuleOutcome :=
      match decryption.decrypt bytes includesHash with
      | .ok (some text) => .ok (some ⟨input.name, .text text⟩)
      | .ok none => .ok (some ⟨input.name, .null⟩)
      | .error e => .error e
    match input.value with
    | .bytes bytes => plain (some bytes)
    | .null => plain none
    | other =>
        .error (.typeMismatch context.entityType context.property "bytes"
          other.typeName)
  | change kind f => .ok (some ⟨input.name, f (input.value.cast? kind)⟩)
  | custom _ f => f context input

end SingleRule

namespace RuleRun

/-- A run that hands its input on without running anything. -/
def pass (input : NamedValue) : RuleRun := ⟨[], .ok (some input)⟩

/-- A run followed by another on what it hands on, if it hands anything on. -/
def andThen (first : RuleRun) (next : NamedValue → RuleRun) : RuleRun :=
  match first.outcome with
  | .ok (some value) =>
    let second := next value
    ⟨first.ran ++ second.ran, second.outcome⟩
  | .ok none => first
  | .error _ => first

end RuleRun

namespace PropertyRule

mutual

/-- Runs a rule and gives an account of it. -/
def run (context : RuleContext) (input : NamedValue) : PropertyRule → RuleRun
  | single rule => ⟨[rule], rule.apply context input⟩
  | chain _ rules => runAll context input rules

/-- Runs rules one after the other. -/
def runAll (context : RuleContext) (input : NamedValue) :
    List PropertyRule → RuleRun
  | [] => RuleRun.pass input
  | rule :: rest =>
      (run context input rule).andThen fun value => runAll context value rest

end

/-- Rules in two parts run one part after the other. -/
theorem runAll_append (context : RuleContext) (first second : List PropertyRule)
    (input : NamedValue) :
    runAll context input (first ++ second) =
      (runAll context input first).andThen fun value =>
        runAll context value second := by
  induction first generalizing input with
  | nil => rfl
  | cons rule rest ih =>
    simp only [List.cons_append, runAll, ih]
    cases h : (run context input rule).outcome with
    | error e => simp [RuleRun.andThen, h]
    | ok result =>
      cases result with
      | none => simp [RuleRun.andThen, h]
      | some value =>
        simp only [RuleRun.andThen, h]
        split <;> simp [*]

/-- What a rule does with a property. -/
def apply (context : RuleContext) (input : NamedValue) (rule : PropertyRule) :
    RuleOutcome :=
  (rule.run context input).outcome

mutual

/-- The single rules of a rule from left to right, without the chains around
them. -/
def leaves : PropertyRule → List SingleRule
  | single rule => [rule]
  | chain _ rules => leavesOfAll rules

/-- The single rules of a list of rules from left to right. -/
def leavesOfAll : List PropertyRule → List SingleRule
  | [] => []
  | rule :: rest => leaves rule ++ leavesOfAll rest

end

end PropertyRule
end AuditTrail

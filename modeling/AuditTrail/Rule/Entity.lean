import AuditTrail.Rule.Chain
import AuditTrail.Value.Properties

/-!
# Entity rules

The rules of one entity type: a chain for some of its properties, the permission
a reader of its records needs, and optionally a scope and a name to show. A
property without a chain is recorded as it is. Whatever a chain hands on is
recorded under the name it then has, and recording two values under one name is
an error.
-/

namespace AuditTrail

/-- What the coordinator needs of the rules of an entity type. Recording a
property either gives the properties with what was recorded, or fails. -/
structure EntityRule where
  entityType : String
  scope : Option String
  permission : String
  displayName : Option String
  record : String → FieldValue → TrackedProperties →
    Except AuditError TrackedProperties

namespace EntityRule

/-- The name of the entity type to show in records. -/
def shownName (rule : EntityRule) : String :=
  rule.displayName.getD rule.entityType

/-- Rules that record every property as it is, the last value under a name
winning. -/
def verbatim (entityType permission : String) : EntityRule :=
  ⟨entityType, none, permission, none,
    fun name value properties => .ok (properties.insert name value)⟩

end EntityRule

/-- The rules of an entity type, with a chain for each ruled property. The
chains are in no particular order. -/
structure EntityRules where
  entityType : String
  scope : Option String
  displayName : Option String
  permission : String
  chains : List (String × RuleChain)

namespace EntityRules

/-- Rules without any chain. -/
def forType (entityType permission : String) : EntityRules :=
  ⟨entityType, none, none, permission, []⟩

/-- The rules for one scope. -/
def withScope (rules : EntityRules) (scope : String) : EntityRules :=
  { rules with scope := some scope }

/-- The rules with a name to show. -/
def withDisplayName (rules : EntityRules) (name : String) : EntityRules :=
  { rules with displayName := some name }

/-- The chain of a property. -/
def chain? (rules : EntityRules) (name : String) : Option RuleChain :=
  rules.chains.lookup name

/-- The rules with more rules for a property. Its chain is taken out, or made if
there is none, gets the rules one after the other at its end and is put back. -/
def property (rules : EntityRules) (name : String) (added : List PropertyRule) :
    EntityRules :=
  let chain := (rules.chain? name).getD (RuleChain.empty name)
  let others := rules.chains.filter (·.1 ≠ name)
  { rules with chains := (name, added.foldl RuleChain.push chain) :: others }

/-- Rules for a property go behind those it has, and the chains of other
properties stay. -/
theorem chain?_property (rules : EntityRules) (name other : String)
    (added : List PropertyRule) :
    (rules.property name added).chain? other =
      if other = name then
        some (((rules.chain? name).getD (RuleChain.empty name)).append added)
      else rules.chain? other := by
  rw [← RuleChain.foldl_push, chain?, property, Named.lookup_cons]
  split
  · rfl
  · next ne => exact Named.lookup_filter_ne ne rules.chains

/-- Runs the chain of a property on its value; a property without a chain is
handed on as it is. -/
def run (rules : EntityRules) (name : String) (value : FieldValue) : RuleRun :=
  match rules.chain? name with
  | none => RuleRun.pass ⟨name, value⟩
  | some chain => chain.run ⟨rules.entityType, name⟩ ⟨name, value⟩

/-- Records what came of running a chain. -/
def store (rules : EntityRules) (outcome : RuleOutcome)
    (properties : TrackedProperties) : Except AuditError TrackedProperties :=
  match outcome with
  | .error e => .error e
  | .ok none => .ok properties
  | .ok (some result) =>
    if properties.contains result.name then
      .error (.duplicateProperty rules.entityType result.name)
    else .ok (properties.insert result.name result.value)

/-- Runs the chain of a property on its value and records what it hands on. -/
def record (rules : EntityRules) (name : String) (value : FieldValue)
    (properties : TrackedProperties) : Except AuditError TrackedProperties :=
  rules.store (rules.run name value).outcome properties

/-- The rules as the coordinator sees them. -/
def toRule (rules : EntityRules) : EntityRule :=
  ⟨rules.entityType, rules.scope, rules.permission, rules.displayName,
    rules.record⟩

/-- A text that describes the rules to a developer. -/
def debugText (rules : EntityRules) : String :=
  "EntityRules \x7b entity_type: " ++ Quoted.text rules.entityType
    ++ ", scope: " ++ (match rules.scope with
      | none => "None"
      | some scope => "Some(" ++ Quoted.text scope ++ ")")
    ++ ", permission: " ++ Quoted.text rules.permission
    ++ ", chains: " ++ toString rules.chains.length ++ " \x7d"

end EntityRules
end AuditTrail

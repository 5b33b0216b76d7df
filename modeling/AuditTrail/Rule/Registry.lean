import AuditTrail.Named
import AuditTrail.Rule.Entity

/-!
# The registry of entity rules

Rules under their keys, in the order of registration. A key is registered once
and for all: a second registration fails and leaves the first. A key that was
never registered has no rules, whatever other scopes of the same type have.
-/

namespace AuditTrail

/-- Registered entity rules for permissions of one type. -/
structure RuleRegistry where
  permissionType : String
  rules : List (RuleKey × EntityRule)

namespace RuleRegistry

/-- A registry without rules. -/
def empty (permissionType : String) : RuleRegistry := ⟨permissionType, []⟩

/-- The key of a type in a scope. -/
def key (registry : RuleRegistry) (entityType : String)
    (scope : Option String) : RuleKey :=
  ⟨entityType, registry.permissionType, scope⟩

/-- The key under which rules are registered. -/
def keyOf (registry : RuleRegistry) (rule : EntityRule) : RuleKey :=
  registry.key rule.entityType rule.scope

/-- The rules under a key. -/
def find? (registry : RuleRegistry) (key : RuleKey) : Option EntityRule :=
  registry.rules.lookup key

/-- The registry with more rules, unless their key is taken. -/
def register (registry : RuleRegistry) (rule : EntityRule) :
    Except AuditError RuleRegistry :=
  match registry.find? (registry.keyOf rule) with
  | some _ => .error (.duplicateRule (registry.keyOf rule))
  | none =>
      .ok { registry with
        rules := registry.rules ++ [(registry.keyOf rule, rule)] }

/-- The rules under a key, or the error that there are none. -/
def resolveKey (registry : RuleRegistry) (key : RuleKey) :
    Except AuditError EntityRule :=
  match registry.find? key with
  | some rule => .ok rule
  | none => .error (.missingRule key)

/-- The rules of a type in a scope. -/
def resolve (registry : RuleRegistry) (entityType : String)
    (scope : Option String) : Except AuditError EntityRule :=
  registry.resolveKey (registry.key entityType scope)

/-- The registered keys in the order of registration. -/
def keys (registry : RuleRegistry) : List RuleKey := registry.rules.map Prod.fst

/-- There are no rules under a key that was never registered. -/
theorem find?_eq_none_iff {registry : RuleRegistry} {key : RuleKey} :
    registry.find? key = none ↔ key ∉ registry.keys := by
  rw [find?, List.lookup_eq_none_iff, keys, List.mem_map]
  constructor
  · rintro hnone ⟨rule, hmem, rfl⟩
    simpa using hnone rule hmem
  · intro hnone rule hmem
    exact bne_iff_ne.mpr fun hsame => hnone ⟨rule, hmem, hsame.symm⟩

/-- Whether a type has rules in any scope. -/
def isTracked (registry : RuleRegistry) (entityType : String) : Bool :=
  registry.keys.any fun key => key.entityType == entityType

/-- The types that have rules, in ascending order. -/
def trackedTypes (registry : RuleRegistry) : List String :=
  Named.distinct (registry.keys.map RuleKey.entityType)

/-- The number of registered keys. -/
def size (registry : RuleRegistry) : Nat := registry.rules.length

/-- Whether nothing is registered. -/
def isEmpty (registry : RuleRegistry) : Bool := registry.rules.isEmpty

end RuleRegistry
end AuditTrail

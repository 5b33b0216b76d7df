/-!
# Rule keys

The combination under which the rules of an entity type are registered: the
type, the type of the permission that protects its records, and the scope, if
the rules are meant for one. No scope, the empty scope and any other scope are
different combinations.
-/

namespace AuditTrail

/-- The combination under which entity rules are registered. -/
structure RuleKey where
  entityType : String
  permissionType : String
  scope : Option String
  deriving DecidableEq, Repr

/-- The text of a key in messages. -/
def RuleKey.text (key : RuleKey) : String :=
  "entity '" ++ key.entityType ++ "' with permission '" ++ key.permissionType
    ++ "'" ++ match key.scope with
      | none => ""
      | some scope => " in scope '" ++ scope ++ "'"

end AuditTrail

import AuditTrail.Rule.Registry

/-!
# Scanners

A scanner collects rules that may be registered and a filter that decides which
of them are. Listing the rules and registering them describe a rule in the same
way and ask the same filter, so the list tells what a registration will do.
-/

namespace AuditTrail

/-- What a scanner lists of a rule: its key and the name to show. -/
structure ScanResult where
  key : RuleKey
  entityName : String
  deriving DecidableEq, Repr

/-- Rules that may be registered, with an optional filter. -/
structure RuleScanner where
  candidates : List EntityRule
  filter : Option (ScanResult → Bool)

namespace RuleScanner

/-- A scanner without rules and without a filter. -/
def empty : RuleScanner := ⟨[], none⟩

/-- The scanner with one more rule. -/
def withRule (scanner : RuleScanner) (rule : EntityRule) : RuleScanner :=
  { scanner with candidates := scanner.candidates ++ [rule] }

/-- The scanner with more rules. -/
def withRules (scanner : RuleScanner) (rules : List EntityRule) : RuleScanner :=
  { scanner with candidates := scanner.candidates ++ rules }

/-- The scanner with a filter in place of the one it had. -/
def withFilter (scanner : RuleScanner) (keep : ScanResult → Bool) :
    RuleScanner :=
  { scanner with filter := some keep }

/-- What is listed of a rule, for permissions of a type. -/
def describe (permissionType : String) (rule : EntityRule) : ScanResult :=
  ⟨⟨rule.entityType, permissionType, rule.scope⟩, rule.shownName⟩

/-- Whether the filter lets a rule pass. Without a filter every rule passes. -/
def keeps (scanner : RuleScanner) (result : ScanResult) : Bool :=
  match scanner.filter with
  | none => true
  | some keep => keep result

/-- The rules that pass the filter. -/
def kept (scanner : RuleScanner) (permissionType : String) : List EntityRule :=
  scanner.candidates.filter fun rule =>
    scanner.keeps (describe permissionType rule)

/-- The list of the rules that pass the filter. -/
def scan (scanner : RuleScanner) (permissionType : String) : List ScanResult :=
  (scanner.candidates.map (describe permissionType)).filter scanner.keeps

end RuleScanner

namespace RuleRegistry

/-- Registers rules until one fails. The registry keeps those before the
failure. -/
def registerUntilFailure (registry : RuleRegistry) :
    List EntityRule → RuleRegistry × Except AuditError Unit
  | [] => (registry, .ok ())
  | rule :: rest =>
    match registry.register rule with
    | .ok registry => registerUntilFailure registry rest
    | .error e => (registry, .error e)

/-- Registers the rules of a scanner that pass its filter, until one fails. -/
def registerScanned (registry : RuleRegistry) (scanner : RuleScanner) :
    RuleRegistry × Except AuditError Unit :=
  registry.registerUntilFailure (scanner.kept registry.permissionType)

/-- The registry with the rules of all scanners, or the first error. -/
def registerScanners (registry : RuleRegistry) :
    List RuleScanner → Except AuditError RuleRegistry
  | [] => .ok registry
  | scanner :: rest =>
    match registry.registerScanned scanner with
    | (registry, .ok ()) => registerScanners registry rest
    | (_, .error e) => .error e

/-- A new registry with the rules of the given scanners, or the first error. -/
def ofScanners (permissionType : String) (scanners : List RuleScanner) :
    Except AuditError RuleRegistry :=
  (empty permissionType).registerScanners scanners

end RuleRegistry
end AuditTrail

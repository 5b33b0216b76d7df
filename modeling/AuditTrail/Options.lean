import AuditTrail.Error
import AuditTrail.Json.Decode
import AuditTrail.Json.Printer
import AuditTrail.Toml.Document

/-!
# Options

The settings of an audit trail, read from JSON or from a TOML file. There is
one, and it is off unless it is set; foreign settings are ignored.
-/

namespace AuditTrail

/-- The settings of an audit trail. -/
structure AuditOptions where
  /-- Whether a transaction is opened for a flush outside of any. -/
  autoOpenTransaction : Bool
  deriving DecidableEq, Repr

/-- Where a file of options was looked for, and what was there. -/
inductive OptionsFile where
  | missing
  | directory
  | content (bytes : List UInt8)

namespace AuditOptions

/-- Nothing is set. -/
def default : AuditOptions := ⟨false⟩

/-- The JSON text of the options. -/
def jsonText (options : AuditOptions) : String :=
  String.ofList ('\x7b' :: Json.quoted "autoOpenTransaction" ++ ':' ::
    (if options.autoOpenTransaction then Json.bool true
      else Json.bool false).chars ++ ['\x7d'])

/-- The options that a JSON text gives. -/
def ofNode? (node : Json.Node) : Option AuditOptions := do
  match ← node.fields? ["autoOpenTransaction"] with
  | [some value] => return ⟨← value.bool?⟩
  | _ => return default

/-- The options that a TOML table sets. -/
def ofTable? (table : Toml.Table) : Option AuditOptions :=
  match table.find? "autoOpenTransaction" with
  | none => some default
  | some (.value (.boolean b)) => some ⟨b⟩
  | some _ => none

/-- The options that a TOML text sets. -/
def ofToml (text : String) : Except AuditError AuditOptions :=
  match (Toml.parse? text.toList).bind ofTable? with
  | some options => .ok options
  | none => .error (.config .malformedOptions)

/-- The options in a file. No file sets nothing. -/
def load : OptionsFile → Except AuditError AuditOptions
  | .missing => .ok default
  | .directory => .error (.config .unreadableOptions)
  | .content bytes =>
    match Utf8.decode bytes with
    | .ok text => ofToml text
    | .error _ => .error (.config .unreadableOptions)

end AuditOptions
end AuditTrail

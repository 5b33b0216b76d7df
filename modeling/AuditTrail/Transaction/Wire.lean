import AuditTrail.Entity
import AuditTrail.Json.Decode
import AuditTrail.Json.Printer
import AuditTrail.Transaction.Basic

/-!
# Notices on the wire

The JSON texts of states, actions, transactions and notices, and what is read
back from a text.
-/

namespace AuditTrail

/-- The state that a text names. -/
def EntityState.ofNode? (node : Json.Node) : Option EntityState :=
  node.oneOf? EntityState.name EntityState.all

/-- The action that a text names. -/
def AuditAction.ofNode? (node : Json.Node) : Option AuditAction :=
  node.oneOf? AuditAction.name AuditAction.all

/-- The status that a text names. -/
def TransactionStatus.ofNode? (node : Json.Node) : Option TransactionStatus :=
  node.oneOf? TransactionStatus.wireName TransactionStatus.all

namespace TransactionId

/-- The JSON text of an identity. -/
def jsonChars (tx : TransactionId) : List Char := Json.quoted tx.uuid.text

/-- The identity that a text gives, in any spelling of its UUID. -/
def ofNode? (node : Json.Node) : Option TransactionId := do
  let text ← node.text?
  let uuid ← Uuid.ofText? text
  return ⟨uuid⟩

end TransactionId

namespace TransactionEvent

/-- The JSON text of a notice. A notice that names no transaction has no member
for it. -/
def jsonChars (event : TransactionEvent) : List Char :=
  '\x7b' :: Json.quoted "contextId" ++ ':' :: Json.quoted event.contextId
    ++ (match event.transaction with
      | none => []
      | some tx => ',' :: Json.quoted "transaction" ++ ':' :: tx.jsonChars)
    ++ ['\x7d']

/-- The JSON text of a notice. -/
def jsonText (event : TransactionEvent) : String :=
  String.ofList event.jsonChars

/-- The notice that a text gives. The context is required; the transaction may
be missing or null. -/
def ofNode? (node : Json.Node) : Option TransactionEvent := do
  match ← node.fields? ["contextId", "transaction"] with
  | [some context, none] => return ⟨← context.text?, none⟩
  | [some context, some tx] =>
      return ⟨← context.text?, ← tx.orNull? TransactionId.ofNode?⟩
  | _ => none

/-- The notice that a text gives. -/
def ofText? (s : String) : Option TransactionEvent := do
  let node ← Json.nodeOfChars? s.toList
  ofNode? node

end TransactionEvent
end AuditTrail

import AuditTrail.Entity
import AuditTrail.Rule.Key
import AuditTrail.Text.Utf8
import AuditTrail.Transaction.Basic

/-!
# Errors

What can go wrong, as causes. The wording is in one place, and it names a
transaction through a function that its caller chooses, so that a report may use
names of its own for transactions.
-/

namespace AuditTrail

/-- Why an encrypted value has no plain text. -/
inductive DecryptionFault where
  /-- The whole blob has fewer bytes than a hash. -/
  | shorterThanHash (size : Nat)
  /-- The blob ends inside its nonce. -/
  | missingNonce (size : Nat)
  /-- No key of the ring opens the blob. -/
  | noKeyOpens
  /-- The plain text is not the one that was hashed. -/
  | hashMismatch
  /-- The plain bytes are not text. -/
  | notText (fault : Utf8.Fault)
  /-- A reason given by another way of decrypting. -/
  | reported (reason : String)
  deriving DecidableEq, Repr

namespace DecryptionFault

/-- The wording of a fault. -/
def message : DecryptionFault → String
  | shorterThanHash size =>
      "Blob of " ++ toString size ++ " bytes is shorter than its hash prefix"
  | missingNonce size =>
      "Blob of " ++ toString size ++ " bytes is missing its nonce"
  | noKeyOpens => "No registered key decrypts this value"
  | hashMismatch => "Decrypted value does not match its hash"
  | notText fault => "Decrypted value is not UTF-8: " ++ fault.message
  | reported reason => reason

end DecryptionFault

/-- Why a unit of work refuses to open or settle a transaction. -/
inductive TransactionFault where
  | alreadyOpen (tx : TransactionId)
  | notOpen (tx : TransactionId)
  | commitFailed (tx : TransactionId)
  | rollbackFailed (tx : TransactionId)
  /-- A reason given by the host. -/
  | reported (reason : String)
  deriving DecidableEq

namespace TransactionFault

/-- The wording of a fault, with the given names for transactions. -/
def message (name : TransactionId → String) : TransactionFault → String
  | alreadyOpen tx => "Transaction " ++ name tx ++ " is already open"
  | notOpen tx => "Transaction " ++ name tx ++ " is not open"
  | commitFailed tx => "Commit of " ++ name tx ++ " failed"
  | rollbackFailed tx => "Rollback of " ++ name tx ++ " failed"
  | reported reason => reason

end TransactionFault

/-- Why settings are refused. -/
inductive ConfigFault where
  | unknownKey (keyId : String)
  | activeKeyMissing (keyId : String)
  | unreadableOptions
  | malformedOptions
  /-- A reason given by a rule or a host. -/
  | reported (reason : String)
  deriving DecidableEq, Repr

namespace ConfigFault

/-- The wording of a fault. -/
def message : ConfigFault → String
  | unknownKey keyId => "Key '" ++ keyId ++ "' not registered, add it first"
  | activeKeyMissing keyId => "Active key '" ++ keyId ++ "' not found"
  | unreadableOptions => "Failed to read audit options"
  | malformedOptions => "Failed to parse audit options"
  | reported reason => reason

end ConfigFault

/-- What can go wrong in an audit trail. -/
inductive AuditError where
  | missingRule (key : RuleKey)
  | typeMismatch (entityType property expected actual : String)
  | invalidState (entityType : String) (state : EntityState)
  | duplicateProperty (entityType property : String)
  | duplicateRule (key : RuleKey)
  | decryption (fault : DecryptionFault)
  | consumer (reason : String)
  | transaction (fault : TransactionFault)
  | serialization (reason : String)
  | config (fault : ConfigFault)
  | cancelled
  deriving DecidableEq

namespace AuditError

/-- The wording of an error, with the given names for transactions. -/
def messageNaming (name : TransactionId → String) : AuditError → String
  | missingRule key => "No entity rule registered for " ++ key.text
  | typeMismatch entityType property expected actual =>
    "Type mismatch on entity '" ++ entityType ++ "' property '" ++ property ++
      "': expected " ++ expected ++ ", got " ++ actual
  | invalidState entityType state =>
      "Invalid entity state " ++ state.name ++ " for entity '" ++ entityType ++
        "'"
  | duplicateProperty entityType property =>
    "Property '" ++ property ++ "' recorded twice for entity '" ++ entityType ++
      "'"
  | duplicateRule key => "Duplicate entity rule for " ++ key.text
  | decryption fault => "Decryption error: " ++ fault.message
  | consumer reason => "Consumer error: " ++ reason
  | transaction fault => "Transaction error: " ++ fault.message name
  | serialization reason => "Serialization error: " ++ reason
  | config fault => "Configuration error: " ++ fault.message
  | cancelled => "Operation cancelled"

/-- The wording of an error. -/
def message (e : AuditError) : String := e.messageNaming TransactionId.text

/-- Whether an error shows a mistake in the rules, which no repetition will
mend. -/
def isFatal : AuditError → Bool
  | missingRule _ | typeMismatch .. | invalidState .. | duplicateProperty .. =>
      true
  | _ => false

end AuditError

/-- The action that writing an entity amounts to, or the error that its state is
not one that is written. -/
def AuditAction.ofState (state : EntityState) (entityType : String) :
    Except AuditError AuditAction :=
  match AuditAction.ofState? state with
  | some action => .ok action
  | none => .error (.invalidState entityType state)

end AuditTrail

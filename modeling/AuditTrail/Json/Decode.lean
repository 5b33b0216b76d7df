import AuditTrail.Json.Node

/-!
# Decoding JSON as written

Readers of the few shapes that the library's own types are written in. A record
is an object, whose members may come in any order and may include foreign ones,
or an array of its fields. A choice among names is a string, or an object with
the name as its only member and null as the value.

A field that comes twice is a mistake; a foreign member may come any number of
times and hold anything.
-/

namespace AuditTrail.Json

/-- A string. -/
def Node.text? : Node → Option String
  | .string pieces => textOfPieces? pieces
  | _ => none

/-- A truth value. -/
def Node.bool? : Node → Option Bool
  | .bool b => some b
  | _ => none

/-- A value that may be null. -/
def Node.orNull? {α : Type} (read : Node → Option α) : Node → Option (Option α)
  | .null => some none
  | node => (read node).map some

/-- The name chosen. -/
def Node.choice? : Node → Option String
  | .string pieces => textOfPieces? pieces
  | .object [(name, .null)] => textOfPieces? name
  | _ => none

/-- The element of a list whose name is chosen. -/
def Node.oneOf? {α : Type} (name : α → String) (all : List α) (node : Node) :
    Option α := do
  let chosen ← node.choice?
  all.find? fun a => name a == chosen

/-- The members of an object under their names. -/
def namedMembers? : List (List Piece × Node) → Option (List (String × Node))
  | [] => some []
  | (name, value) :: rest => do
    let name ← textOfPieces? name
    let members ← namedMembers? rest
    return (name, value) :: members

/-- The fields with the given names, each of which may be missing but must not
come twice. -/
def fieldsNamed? (names : List String) (members : List (String × Node)) :
    Option (List (Option Node)) :=
  names.mapM fun name =>
    match members.filter fun m => m.1 == name with
    | [] => some none
    | [m] => some (some m.2)
    | _ => none

/-- The fields of a record with the given field names, in their order. An array
gives the first ones and may leave out the rest. -/
def Node.fields? (names : List String) : Node → Option (List (Option Node))
  | .array items =>
    if items.length ≤ names.length then
      some (items.map some ++ List.replicate (names.length - items.length) none)
    else none
  | .object members => do
    let members ← namedMembers? members
    fieldsNamed? names members
  | _ => none

end AuditTrail.Json

import AuditTrail.Named

/-!
# JSON values

The values of JSON texts with numbers kept apart as integers and doubles: an
integer and a double are never the same value, whatever they stand for. The
members of an object are kept in ascending order of their names, each name once,
so that two objects with the same members are the same list.
-/

namespace AuditTrail

/-- A JSON value. -/
inductive Json where
  | null
  | bool (b : Bool)
  | int (i : Int)
  | float (f : Float)
  | string (s : String)
  | array (items : List Json)
  | object (members : List (String × Json))

namespace Json

/-- The object with the given members; of members with one name the last
counts. -/
def ofMembers (members : List (String × Json)) : Json :=
  .object (Named.ofList members)

mutual

/-- Equality of values. Doubles compare as numbers, so a zero equals its
negative. -/
def same : Json → Json → Bool
  | null, null => true
  | bool a, bool b => a == b
  | int a, int b => a == b
  | float a, float b => a == b
  | string a, string b => a == b
  | array as, array bs => sameItems as bs
  | object as, object bs => sameMembers as bs
  | _, _ => false

/-- Equality of two lists of values, item by item. -/
def sameItems : List Json → List Json → Bool
  | [], [] => true
  | a :: as, b :: bs => same a b && sameItems as bs
  | _, _ => false

/-- Equality of two lists of members, name by name and value by value. -/
def sameMembers : List (String × Json) → List (String × Json) → Bool
  | [], [] => true
  | (n, a) :: as, (m, b) :: bs => n == m && same a b && sameMembers as bs
  | _, _ => false

end

instance : BEq Json := ⟨same⟩

instance : Inhabited Json := ⟨null⟩

end Json
end AuditTrail

import AuditTrail.Value.Basic

/-!
# Tracked properties

The properties of one record: values under names, each name once, in ascending
order of the names.
-/

namespace AuditTrail

/-- Named values in ascending order of their names. -/
structure TrackedProperties where
  entries : List (String × FieldValue)
  ascending : Named.Ascending entries

namespace TrackedProperties

/-- No properties. -/
def empty : TrackedProperties := ⟨[], .nil⟩

instance : Inhabited TrackedProperties := ⟨empty⟩

/-- The value under a name. -/
def get? (m : TrackedProperties) (name : String) : Option FieldValue :=
  m.entries.lookup name

/-- Whether there is a value under a name. -/
def contains (m : TrackedProperties) (name : String) : Bool :=
  (m.get? name).isSome

/-- The properties with a value put under a name, replacing the one that was
there. -/
def insert (m : TrackedProperties) (name : String) (value : FieldValue) :
    TrackedProperties :=
  ⟨Named.put name value m.entries, Named.ascending_put name value m.ascending⟩

@[simp] theorem get?_empty (name : String) : empty.get? name = none := rfl

@[simp] theorem get?_insert (m : TrackedProperties) (name other : String)
    (value : FieldValue) :
    (m.insert name value).get? other =
      if other = name then some value else m.get? other :=
  Named.lookup_put name other value m.entries

/-- A name is free after a value was put under another one if it was free
before. -/
theorem get?_insert_eq_none {m : TrackedProperties} {name other : String}
    {value : FieldValue} :
    (m.insert name value).get? other = none ↔
      other ≠ name ∧ m.get? other = none := by
  rw [get?_insert]
  by_cases h : other = name <;> simp [h]

/-- Properties with the same values under the same names are the same. -/
theorem ext_get? {m n : TrackedProperties}
    (h : ∀ name, m.get? name = n.get? name) : m = n := by
  cases m with
  | mk xs hx =>
    cases n with
    | mk ys hy =>
      obtain rfl : xs = ys := Named.eq_of_lookup_eq hx hy h
      rfl

/-- The names in ascending order. -/
def names (m : TrackedProperties) : List String := m.entries.map Prod.fst

/-- The properties that a list of named values makes, the last value under a
name winning. -/
def ofList (values : List (String × FieldValue)) : TrackedProperties :=
  ⟨Named.ofList values, Named.ascending_ofList values⟩

/-- The members behind the first one, with the closing brace. -/
def restChars : List (String × FieldValue) → List Char
  | [] => ['\x7d']
  | (name, value) :: rest =>
      ',' :: Json.quoted name ++ ':' :: value.jsonChars ++ restChars rest

/-- The text of a JSON object with a member for every property. -/
def jsonChars (m : TrackedProperties) : List Char :=
  match m.entries with
  | [] => ['\x7b', '\x7d']
  | (name, value) :: rest =>
      '\x7b' :: Json.quoted name ++ ':' :: value.jsonChars ++ restChars rest

/-- The text of a JSON object with a member for every property. -/
def jsonText (m : TrackedProperties) : String := String.ofList m.jsonChars

/-- The JSON object with a member for every property. -/
def toJson (m : TrackedProperties) : Json :=
  .object (m.entries.map fun (name, value) => (name, value.toJson))

end TrackedProperties
end AuditTrail

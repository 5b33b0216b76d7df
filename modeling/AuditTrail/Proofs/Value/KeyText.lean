import AuditTrail.Proofs.Calendar.Instant
import AuditTrail.Proofs.Text.Base64
import AuditTrail.Proofs.Text.Uuid
import AuditTrail.Value.Kind

/-!
# A key text names one row

Rows are told apart by the key texts of their keys, so no two keys of one kind
may have the same. Each kind of key is written by a function that can be undone,
and this is where those functions meet.

Doubles and JSON are left out. All that is not a number has one text, however
many doubles there are that are not numbers.
-/

namespace AuditTrail.FieldValue

theorem keyText?_bool_injective :
    Function.Injective fun b => (bool b).keyText? := by
  intro a b h
  cases a <;> cases b
  · rfl
  · exact absurd (Option.some.inj h) (by decide)
  · exact absurd (Option.some.inj h) (by decide)
  · rfl

section Kinds

variable {kind : ValueKind} (hfloat : kind ≠ .float) (hjson : kind ≠ .json)

include hfloat hjson

theorem exists_keyText? (a : kind.Carrier) :
    ∃ key, (kind.toField a).keyText? = some key := by
  cases kind with
  | bool => cases a <;> exact ⟨_, rfl⟩
  | int | text | bytes | timestamp | uuid => exact ⟨_, rfl⟩
  | float => exact absurd rfl hfloat
  | json => exact absurd rfl hjson

theorem keyText?_injective :
    Function.Injective fun a => (kind.toField a).keyText? := by
  intro a b h
  cases kind with
  | bool => exact keyText?_bool_injective h
  | int =>
      have hdigits :=
        Digits.ofInt_injective (String.ofList_injective (Option.some.inj h))
      exact Int64.toInt_inj.mp hdigits
  | text => exact Option.some.inj h
  | bytes =>
      exact Base64.encode_injective
        (String.ofList_injective (Option.some.inj h))
  | timestamp => exact Instant.text_injective (Option.some.inj h)
  | uuid => exact Uuid.text_injective (Option.some.inj h)
  | float => exact absurd rfl hfloat
  | json => exact absurd rfl hjson

end Kinds

/-- A value of a kind has a key text, and no other value of its kind has the
same. -/
theorem key_texts_never_conflate (kind : ValueKind) (hfloat : kind ≠ .float)
    (hjson : kind ≠ .json) (a b : kind.Carrier) :
    (∃ key, (kind.toField a).keyText? = some key) ∧
      ((kind.toField a).keyText? = (kind.toField b).keyText? ↔ a = b) :=
  ⟨exists_keyText? hfloat hjson a, (keyText?_injective hfloat hjson).eq_iff⟩

/-- A leap second at the end of a year is not the first second of the next
one. -/
theorem key_texts_never_conflate_leap :
    ∃ leap next : Instant, leap.text = "2016-12-31T23:59:60Z" ∧
      next.text = "2017-01-01T00:00:00Z" ∧
      (timestamp leap).keyText? ≠ (timestamp next).keyText? := by
  let leap : Instant := ⟨1483228799, 1000000000, by decide, by decide⟩
  let next : Instant := ⟨1483228800, 0, by decide, by decide⟩
  refine ⟨leap, next, by decide, by decide, fun hsame => ?_⟩
  have := (key_texts_never_conflate .timestamp (by decide) (by decide)
    leap next).2.mp hsame
  exact absurd this (by decide)

end AuditTrail.FieldValue

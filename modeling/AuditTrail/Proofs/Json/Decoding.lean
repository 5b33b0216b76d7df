import AuditTrail.Json.Decode
import AuditTrail.Proofs.Json.Tree
import Mathlib.Data.List.Forall2

/-!
# The fields of a record

A record may be written as an object or as the list of its fields. Of an object
only the members with the names of the fields count: what is found under a name
decides the field (`fieldsNamed?_eq_some_iff`), wherever it stands and whatever
stands around it.
-/

namespace AuditTrail.Json

/-- What an object holds under a name. -/
def under (name : String) (members : List (String × Node)) : List Node :=
  (members.filter fun m => m.1 == name).map Prod.snd

theorem namedMembers?_memberTrees (members : List (String × Json)) :
    namedMembers? (memberTrees members) =
      some (members.map fun (n, a) => (n, a.tree)) := by
  induction members with
  | nil => rfl
  | cons m members ih =>
      rw [memberTrees, namedMembers?, textOfPieces?_ofChar, ih]
      rfl

theorem field_eq_some_iff (found : List (String × Node)) (field : Option Node) :
    (match found with
      | [] => some none
      | [m] => some (some m.2)
      | _ => none) = some field ↔ found.map Prod.snd = field.toList := by
  rcases found with _ | ⟨m, _ | ⟨m', ms⟩⟩ <;> cases field <;> simp

/-- The fields of an object are what it holds under their names, if that is not
more than one thing each. -/
theorem fieldsNamed?_eq_some_iff {names : List String}
    {members : List (String × Node)} {fields : List (Option Node)} :
    fieldsNamed? names members = some fields ↔
      List.Forall₂ (fun name field => under name members = field.toList) names
        fields := by
  rw [fieldsNamed?]
  induction names generalizing fields with
  | nil =>
      constructor <;> rintro ⟨⟩
      · exact .nil
      · rfl
  | cons name names ih =>
      simp only [List.mapM_cons, Option.bind_eq_bind, Option.bind_eq_some_iff,
        ih]
      constructor
      · rintro ⟨field, hfield, rest, hrest, h⟩
        cases h
        exact .cons ((field_eq_some_iff _ _).mp hfield) hrest
      · rintro (_ | ⟨hfield, hrest⟩)
        exact ⟨_, (field_eq_some_iff _ _).mpr hfield, _, hrest, rfl⟩

theorem fields?_eq_some_iff {a b : String} {node c : Node} {t : Option Node} :
    node.fields? [a, b] = some [some c, t] ↔
      node = .array (c :: t.toList) ∨
        ∃ nodes members, node = .object nodes ∧
          namedMembers? nodes = some members ∧
          under a members = [c] ∧ under b members = t.toList := by
  cases node with
  | array items =>
      simp only [reduceCtorEq, false_and, exists_false, or_false,
        Node.array.injEq]
      rcases items with _ | ⟨x, _ | ⟨y, _ | ⟨z, items⟩⟩⟩ <;> cases t <;>
        simp [Node.fields?]
  | object nodes =>
      simp only [reduceCtorEq, false_or, Node.object.injEq, Node.fields?,
        Option.bind_eq_bind, Option.bind_eq_some_iff, fieldsNamed?_eq_some_iff,
        List.forall₂_cons, List.Forall₂.nil, and_true, Option.toList_some]
      constructor
      · rintro ⟨members, hnames, ha, hb⟩
        exact ⟨nodes, members, rfl, hnames, ha, hb⟩
      · rintro ⟨_, members, rfl, hnames, ha, hb⟩
        exact ⟨members, hnames, ha, hb⟩
  | null | bool | number | string => simp [Node.fields?]

end AuditTrail.Json

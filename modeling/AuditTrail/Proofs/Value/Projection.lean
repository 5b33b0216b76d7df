import AuditTrail.Proofs.Json.Reading
import AuditTrail.Value.Kind
import AuditTrail.Value.Properties

/-!
# One text, two ways to it

A value is written as JSON directly, and it can be turned into a JSON value that
is written in its turn. Records hold the first text and rules see the second
value, so the two must not drift apart (`jsonChars_eq`). For the properties of a
record the same holds member by member, and their text is read back as the
object it was written for, as far as doubles are not involved.
-/

namespace AuditTrail

namespace FieldValue

/-- The value holds no double, neither by itself nor inside JSON. -/
def Whole : FieldValue → Prop
  | float _ => False
  | json j => j.Whole
  | _ => True

/-- The JSON that the value may hold is a value that a text can give. -/
def Proper : FieldValue → Prop
  | json j => j.Proper
  | _ => True

theorem jsonChars_eq (v : FieldValue) : v.jsonChars = v.toJson.chars := by
  cases v with
  | bool b => cases b <;> rfl
  | float f =>
      rw [jsonChars, Json.floatChars, toJson]
      split
      · next hfinite => rw [Json.chars, Json.floatChars, if_pos hfinite]
      · rfl
  | null | int | text | bytes | timestamp | uuid | json => rfl

theorem jsonText_eq (v : FieldValue) : v.jsonText = v.toJson.text := by
  rw [jsonText, jsonChars_eq, Json.text]

theorem jsonText_of_not_finite (f : Float) (h : f.isFinite = false) :
    (float f).toJson = .null ∧ (float f).jsonText = "null" := by
  have hjson : (float f).toJson = .null := if_neg (by simp [h])
  refine ⟨hjson, ?_⟩
  rw [jsonText_eq, hjson]
  rfl

theorem Whole.toJson {v : FieldValue} (h : v.Whole) : v.toJson.Whole := by
  cases v with
  | float f => exact h.elim
  | json j => exact h
  | null => exact .null
  | bool b => exact .bool b
  | int i => exact .int i.toInt
  | text s | bytes bs | timestamp t | uuid u => exact .string _

theorem proper_toJson {v : FieldValue} : v.toJson.Proper ↔ v.Proper := by
  cases v with
  | json j => exact Iff.rfl
  | null => exact iff_of_true .null trivial
  | bool b => exact iff_of_true (.bool b) trivial
  | int i =>
      have hleast := i.le_toInt
      have hgreatest := i.toInt_lt
      exact iff_of_true (.int (by omega) (by omega)) trivial
  | float f =>
      refine iff_of_true ?_ trivial
      rw [toJson]
      split
      · next hfinite => exact .float hfinite
      · exact .null
  | text s | bytes bs | timestamp t | uuid u =>
      exact iff_of_true (.string _) trivial

/-- A value that is kept as text in JSON is written as its key text in
quotes. -/
theorem jsonText_eq_quoted {kind : ValueKind}
    (hkind : kind ∈ [ValueKind.text, .bytes, .timestamp, .uuid])
    (a : kind.Carrier) :
    ∃ key, (kind.toField a).keyText? = some key ∧
      (kind.toField a).jsonText = (Json.string key).text := by
  cases kind with
  | text | bytes | timestamp | uuid => exact ⟨_, rfl, rfl⟩
  | bool | int | float | json => exact absurd hkind (by decide)

end FieldValue

namespace TrackedProperties

variable (m : TrackedProperties)

/-- The members of the object that the properties are written as. -/
def members : List (String × Json) :=
  m.entries.map fun (name, value) => (name, value.toJson)

theorem toJson_eq_object : m.toJson = .object m.members := rfl

theorem ascending_members : Named.Ascending m.members :=
  List.pairwise_map.mpr m.ascending

theorem lookup_members (name : String) :
    m.members.lookup name = (m.get? name).map FieldValue.toJson := by
  rw [get?, members]
  induction m.entries with
  | nil => rfl
  | cons entry rest ih =>
      rw [List.map_cons, Named.lookup_cons, Named.lookup_cons, ih]
      split <;> rfl

theorem restChars_eq (entries : List (String × FieldValue)) :
    restChars entries =
      Json.membersChars
        (entries.map fun (name, value) => (name, value.toJson)) := by
  induction entries with
  | nil => rfl
  | cons entry rest ih =>
      rw [restChars, ih, entry.2.jsonChars_eq]
      rfl

theorem jsonText_eq : m.jsonText = m.toJson.text := by
  have hchars : m.jsonChars = m.toJson.chars := by
    rw [jsonChars, toJson_eq_object, members]
    cases m.entries with
    | nil => rfl
    | cons entry rest =>
        rw [List.map_cons, Json.chars, ← restChars_eq, ← entry.2.jsonChars_eq]
  rw [jsonText, hchars, Json.text]

theorem mem_entries {name : String} {v : FieldValue} :
    (name, v) ∈ m.entries ↔ m.get? name = some v :=
  Named.mem_iff_lookup
    (List.pairwise_map.mpr (m.ascending.imp fun h => String.ne_of_lt h))

theorem whole_toJson (h : ∀ name v, m.get? name = some v → v.Whole) :
    m.toJson.Whole := by
  refine .object fun member hmember => ?_
  obtain ⟨⟨name, v⟩, hentry, rfl⟩ := List.mem_map.mp hmember
  exact (h name v (m.mem_entries.mp hentry)).toJson

theorem proper_toJson :
    m.toJson.Proper ↔ ∀ name v, m.get? name = some v → v.Proper := by
  constructor
  · rintro (_ | _ | _ | _ | _ | _ | ⟨-, hmembers⟩) name v hfound
    exact FieldValue.proper_toJson.mp
      (hmembers _ (List.mem_map_of_mem (m.mem_entries.mpr hfound)))
  · intro h
    refine .object m.ascending_members fun member hmember => ?_
    obtain ⟨⟨name, v⟩, hentry, rfl⟩ := List.mem_map.mp hmember
    exact FieldValue.proper_toJson.mpr (h name v (m.mem_entries.mp hentry))

/-- Both ways to the JSON of a value come to one text, which is the quoted key
text for the values that JSON has no kind of its own for. The properties of a
record are written as the object of their JSON values in the order of their
names. If none of them holds a double, that text is read back as this object,
provided that it is one that a text can give at all and that it does not nest
deeper than the reader goes. -/
theorem projections_agree :
    (∀ v : FieldValue, v.jsonText = v.toJson.text) ∧
    (∀ f : Float, f.isFinite = false →
      (FieldValue.float f).toJson = .null ∧
        (FieldValue.float f).jsonText = "null") ∧
    (∀ kind ∈ [ValueKind.text, .bytes, .timestamp, .uuid], ∀ a : kind.Carrier,
      ∃ key, (kind.toField a).keyText? = some key ∧
        (kind.toField a).jsonText = (Json.string key).text) ∧
    ∀ m : TrackedProperties,
      (∃ members, m.toJson = .object members ∧ Named.Ascending members ∧
        ∀ name, members.lookup name = (m.get? name).map FieldValue.toJson) ∧
      m.jsonText = m.toJson.text ∧
      ((∀ name v, m.get? name = some v → v.Whole) →
        (Json.ofText? m.jsonText = some m.toJson ↔
          (∀ name v, m.get? name = some v → v.Proper) ∧
            m.toJson.depth < Json.depthLimit)) := by
  refine ⟨FieldValue.jsonText_eq, FieldValue.jsonText_of_not_finite,
    fun kind hkind => FieldValue.jsonText_eq_quoted hkind, fun m => ?_⟩
  refine ⟨⟨m.members, rfl, m.ascending_members, m.lookup_members⟩,
    m.jsonText_eq, fun hwhole => ?_⟩
  rw [jsonText_eq, Json.ofText?_text_iff (m.whole_toJson hwhole), proper_toJson]

namespace Sample

/-- Properties with escapes, with the least and the greatest integer and with
containers in each other. -/
def assortedProperties : TrackedProperties :=
  ⟨[("a", .int (-9223372036854775808)), ("b", .bytes [0xA1, 0xB2]),
    ("c", .json (.object
      [("\"k\\", .array [.int 18446744073709551615, .null, .bool true])])),
    ("d", .text "\x07é\n")], by unfold Named.Ascending; decide⟩

end Sample

open Sample in
theorem projections_agree_assorted :
    (∀ name v, assortedProperties.get? name = some v → v.Whole) ∧
      (∀ name v, assortedProperties.get? name = some v → v.Proper) ∧
      assortedProperties.toJson.depth < Json.depthLimit ∧
      assortedProperties.jsonText =
        "\x7b\"a\":-9223372036854775808,\"b\":\"obI=\"," ++
        "\"c\":\x7b\"\\\"k\\\\\":[18446744073709551615,null,true]\x7d," ++
        "\"d\":\"\\u0007é\\n\"\x7d" ∧
      Json.ofText? assortedProperties.jsonText =
        some assortedProperties.toJson ∧
      (∃ key, (FieldValue.bytes [0xA1, 0xB2]).keyText? = some key ∧
        (FieldValue.bytes [0xA1, 0xB2]).jsonText = (Json.string key).text) ∧
      (FieldValue.float (0 / 0)).jsonText = "null" := by
  have hvalues : ∀ name v, assortedProperties.get? name = some v →
      v.Whole ∧ v.Proper := by
    intro name v hfound
    have hentry := assortedProperties.mem_entries.mpr hfound
    simp only [assortedProperties, List.mem_cons, Prod.mk.injEq,
      List.not_mem_nil, or_false] at hentry
    rcases hentry with ⟨-, rfl⟩ | ⟨-, rfl⟩ | ⟨-, rfl⟩ | ⟨-, rfl⟩
    · exact ⟨trivial, trivial⟩
    · exact ⟨trivial, trivial⟩
    · refine ⟨.object (List.forall_mem_singleton.mpr (.array ?_)),
        .object (List.pairwise_singleton _ _)
          (List.forall_mem_singleton.mpr (.array ?_))⟩
      · simp only [List.forall_mem_cons]
        exact ⟨.int _, .null, .bool true, List.forall_mem_nil _⟩
      · simp only [List.forall_mem_cons]
        exact ⟨.int (by decide) (by decide), .null, .bool true,
          List.forall_mem_nil _⟩
    · exact ⟨trivial, trivial⟩
  have hwhole := fun name v hfound => (hvalues name v hfound).1
  have hproper := fun name v hfound => (hvalues name v hfound).2
  have hdepth : assortedProperties.toJson.depth < Json.depthLimit := by
    decide +kernel
  obtain ⟨-, hfloat, hkinds, hproperties⟩ := projections_agree
  exact ⟨hwhole, hproper, hdepth, by decide +kernel,
    ((hproperties assortedProperties).2.2 hwhole).mpr ⟨hproper, hdepth⟩,
    hkinds .bytes (by decide) [0xA1, 0xB2], (hfloat _ (by decide)).2⟩

end TrackedProperties

end AuditTrail

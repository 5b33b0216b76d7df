import AuditTrail.Proofs.Json.Decoding
import AuditTrail.Proofs.Text.Spellings
import AuditTrail.Transaction.Wire

/-!
# A notice survives the wire

A notice is written in one way and read from many. The reader takes a record or
a list of its fields, members in any order and foreign ones among them, and the
transaction missing, null or in any spelling of its UUID; `Spelling` lists what
stands for a notice, and the reader accepts exactly that
(`ofNode?_eq_some_iff`).

What is written is one of the spellings, so it is read back. Whatever was read,
writing it and reading it again therefore changes nothing.
-/

namespace AuditTrail

open Json

namespace TransactionEvent

variable (event : TransactionEvent)

/-- The members of the object that a notice is written as. -/
def members : List (String × Json) :=
  ("contextId", .string event.contextId) ::
    match event.transaction with
    | none => []
    | some tx => [("transaction", .string tx.uuid.text)]

theorem jsonText_eq : event.jsonText = (Json.object event.members).text := by
  obtain ⟨context, transaction⟩ := event
  cases transaction with
  | none =>
      simp only [jsonText, jsonChars, members, Json.text, chars, membersChars,
        List.append_nil]
  | some tx =>
      simp only [jsonText, jsonChars, members, Json.text, chars, membersChars,
        TransactionId.jsonChars, List.append_assoc]

theorem whole_members : (Json.object event.members).Whole := by
  obtain ⟨context, transaction⟩ := event
  refine .object fun member hmember => ?_
  cases transaction with
  | none =>
      rw [List.mem_singleton.mp hmember]
      exact .string _
  | some tx =>
      rcases List.mem_cons.mp hmember with rfl | hmember
      · exact .string _
      · rw [List.mem_singleton.mp hmember]
        exact .string _

theorem nodeOfChars?_jsonText :
    nodeOfChars? event.jsonText.toList =
      some (.object (memberTrees event.members)) := by
  rw [jsonText_eq, Json.text, String.toList_ofList,
    nodeOfChars?_chars event.whole_members, tree]

end TransactionEvent

/-! ## What stands for a notice -/

/-- What is given for the transaction of a notice: nothing or null for none, and
its UUID in any spelling. -/
inductive TransactionId.Given : Option Node → Option TransactionId → Prop where
  | missing : Given none none
  | null : Given (some .null) none
  | uuid {node : Node} {s : String} {tx : TransactionId}
      (text : node.text? = some s)
      (spelled : s.toList.map Char.toLower ∈ tx.uuid.spellings) :
      Given (some node) (some tx)

theorem TransactionId.ofNode?_eq_some_iff {node : Node} {tx : TransactionId} :
    ofNode? node = some tx ↔
      ∃ s, node.text? = some s ∧
        s.toList.map Char.toLower ∈ tx.uuid.spellings := by
  simp only [ofNode?, Option.bind_eq_bind, Option.bind_eq_some_iff,
    Uuid.ofText?, ← Uuid.ofChars?_eq_some_iff]
  constructor
  · rintro ⟨s, hs, u, hu, h⟩
    cases h
    exact ⟨s, hs, hu⟩
  · rintro ⟨s, hs, hu⟩
    exact ⟨s, hs, tx.uuid, hu, rfl⟩

theorem TransactionId.orNull?_eq_some_iff {node : Node}
    {tx : Option TransactionId} :
    node.orNull? ofNode? = some tx ↔ Given (some node) tx := by
  by_cases hnull : node = .null
  · subst hnull
    constructor <;> rintro ⟨⟩
    · exact .null
    · rfl
    · contradiction
  · have hread : node.orNull? ofNode? = (ofNode? node).map some := by
      cases node <;> first | rfl | exact absurd rfl hnull
    rw [hread, Option.map_eq_some_iff]
    constructor
    · rintro ⟨tx, htx, rfl⟩
      obtain ⟨s, htext, hspelled⟩ := ofNode?_eq_some_iff.mp htx
      exact .uuid htext hspelled
    · rintro (_ | _ | ⟨htext, hspelled⟩)
      · exact absurd rfl hnull
      · exact ⟨_, ofNode?_eq_some_iff.mpr ⟨_, htext, hspelled⟩, rfl⟩

namespace TransactionEvent

/-- What stands for a notice: the list of its fields, which may end before the
transaction, or an object with one member for the context and at most one for
the transaction, whatever else it holds. -/
inductive Spelling (event : TransactionEvent) : Node → Prop where
  | fields {c : Node} {t : Option Node}
      (context : c.text? = some event.contextId)
      (transaction : TransactionId.Given t event.transaction) :
      Spelling event (.array (c :: t.toList))
  | record {nodes : List (List Piece × Node)} {members : List (String × Node)}
      {c : Node} {t : Option Node} (names : namedMembers? nodes = some members)
      (one_context : under "contextId" members = [c])
      (one_transaction : under "transaction" members = t.toList)
      (context : c.text? = some event.contextId)
      (transaction : TransactionId.Given t event.transaction) :
      Spelling event (.object nodes)

theorem ofNode?_eq_some_iff_fields {node : Node} {event : TransactionEvent} :
    ofNode? node = some event ↔
      ∃ c t, node.fields? ["contextId", "transaction"] = some [some c, t] ∧
        c.text? = some event.contextId ∧
          TransactionId.Given t event.transaction := by
  rw [ofNode?, Option.bind_eq_bind, Option.bind_eq_some_iff]
  constructor
  · rintro ⟨fields, hread, h⟩
    split at h
    · next c =>
        obtain ⟨s, hs, h⟩ := Option.bind_eq_some_iff.mp h
        cases h
        exact ⟨c, none, hread, hs, .missing⟩
    · next c t =>
        obtain ⟨s, hs, h⟩ := Option.bind_eq_some_iff.mp h
        obtain ⟨tx, htx, h⟩ := Option.bind_eq_some_iff.mp h
        cases h
        exact ⟨c, some t, hread, hs, TransactionId.orNull?_eq_some_iff.mp htx⟩
    · cases h
  · rintro ⟨c, t, hread, hcontext, htransaction⟩
    refine ⟨_, hread, ?_⟩
    obtain ⟨context, transaction⟩ := event
    cases t with
    | none =>
        cases htransaction
        simp only [hcontext, Option.bind_eq_bind, Option.bind_some]
        rfl
    | some t =>
        have htx := TransactionId.orNull?_eq_some_iff.mpr htransaction
        simp only [hcontext, htx, Option.bind_eq_bind, Option.bind_some]
        rfl

/-- A notice is read from its spellings and from nothing else. -/
theorem ofNode?_eq_some_iff {node : Node} {event : TransactionEvent} :
    ofNode? node = some event ↔ Spelling event node := by
  rw [ofNode?_eq_some_iff_fields]
  constructor
  · rintro ⟨c, t, hread, hcontext, htransaction⟩
    rcases fields?_eq_some_iff.mp hread with
      rfl | ⟨nodes, members, rfl, hnames, hc, ht⟩
    · exact .fields hcontext htransaction
    · exact .record hnames hc ht hcontext htransaction
  · rintro (⟨hcontext, htransaction⟩ | ⟨hnames, hc, ht, hcontext, htransaction⟩)
    · exact ⟨_, _, fields?_eq_some_iff.mpr (.inl rfl), hcontext, htransaction⟩
    · exact ⟨_, _, fields?_eq_some_iff.mpr (.inr ⟨_, _, rfl, hnames, hc, ht⟩),
        hcontext, htransaction⟩

theorem spelling_members (event : TransactionEvent) :
    Spelling event (.object (memberTrees event.members)) := by
  obtain ⟨context, transaction⟩ := event
  cases transaction with
  | none =>
      exact .record (t := none) (namedMembers?_memberTrees _) rfl rfl
        (textOfPieces?_ofChar context)
        .missing
  | some tx =>
      refine .record (t := some (tree (.string tx.uuid.text)))
        (namedMembers?_memberTrees _) rfl rfl
        (textOfPieces?_ofChar context)
          (.uuid (textOfPieces?_ofChar tx.uuid.text) ?_)
      rw [Uuid.text, String.toList_ofList, Uuid.map_toLower_chars,
        Uuid.mem_spellings]
      exact .inr (.inl rfl)

theorem ofText?_jsonText (event : TransactionEvent) :
    ofText? event.jsonText = some event := by
  rw [ofText?, nodeOfChars?_jsonText, Option.bind_eq_bind, Option.bind_some,
    ofNode?_eq_some_iff]
  exact event.spelling_members

theorem transaction_not_mem_names (event : TransactionEvent) :
    "transaction" ∉ event.members.map Prod.fst ↔ event.transaction = none := by
  obtain ⟨context, transaction⟩ := event
  cases transaction <;> simp [members]

/-- A notice is read back from its text, which has a member for the transaction
exactly if the notice has one. Every text that a notice is read from, written
again, becomes a text that is kept, and from which the same notice is read; and
these texts are the spellings of the notice. -/
theorem notices_survive_wire :
    (∀ event, ofText? event.jsonText = some event) ∧
    (∀ event : TransactionEvent, ∃ nodes members,
      nodeOfChars? event.jsonText.toList = some (.object nodes) ∧
      namedMembers? nodes = some members ∧
      ("transaction" ∉ members.map Prod.fst ↔ event.transaction = none)) ∧
    (∀ s t, (ofText? s).map jsonText = some t →
      ofText? t = ofText? s ∧ (ofText? t).map jsonText = some t) ∧
    ∀ s event, ofText? s = some event ↔
      ∃ node, nodeOfChars? s.toList = some node ∧ Spelling event node := by
  refine ⟨ofText?_jsonText, fun event => ?_, fun s t h => ?_, fun s event => ?_⟩
  · refine ⟨_, _, event.nodeOfChars?_jsonText, namedMembers?_memberTrees _, ?_⟩
    rw [List.map_map]
    exact event.transaction_not_mem_names
  · obtain ⟨event, hread, rfl⟩ := Option.map_eq_some_iff.mp h
    rw [ofText?_jsonText, hread]
    exact ⟨rfl, rfl⟩
  · rw [ofText?, Option.bind_eq_bind, Option.bind_eq_some_iff]
    exact exists_congr fun node => and_congr_right fun _ => ofNode?_eq_some_iff

namespace Sample

/-- A notice as it is written. -/
def writtenNotice : String :=
  "\x7b\"contextId\":\"a\"," ++
    "\"transaction\":\"00000000-0000-0000-0000-0000000000ab\"\x7d"

/-- The same notice as the list of its fields. -/
def listedNotice : String :=
  "[\"a\",\"URN:UUID:00000000-0000-0000-0000-0000000000AB\"]"

/-- The same notice in another order, with a foreign member and an escape in a
name. -/
def reorderedNotice : String :=
  "\x7b\"transaction\":\"000000000000000000000000000000aB\", \"b\":[1e999], " ++
    "\"\\u0063ontextId\":\"a\"\x7d"

end Sample

open Sample in
theorem notices_survive_wire_spelled :
    (ofText? listedNotice).map jsonText = some writtenNotice ∧
      (ofText? reorderedNotice).map jsonText = some writtenNotice ∧
      ofText? writtenNotice = ofText? listedNotice ∧
      ofText? writtenNotice = ofText? reorderedNotice ∧
      (ofText? writtenNotice).map jsonText = some writtenNotice := by
  have hlisted : (ofText? listedNotice).map jsonText = some writtenNotice := by
    decide +kernel
  have hreordered :
      (ofText? reorderedNotice).map jsonText = some writtenNotice := by
    decide +kernel
  obtain ⟨-, -, hkept, -⟩ := notices_survive_wire
  obtain ⟨hsame, hstays⟩ := hkept listedNotice writtenNotice hlisted
  exact ⟨hlisted, hreordered, hsame,
    (hkept reorderedNotice writtenNotice hreordered).1, hstays⟩

end TransactionEvent
end AuditTrail

import AuditTrail.Proofs.Memory.Flush
import AuditTrail.Proofs.Memory.Recapture
import AuditTrail.Proofs.Text.Digits

/-!
# What a save records

A host that captures, flushes and finishes gets one record for each row that
the flush wrote, so long as the type of the row is audited. `Recorded` says
which record that is. It speaks of the entity before the flush, of the rules
and of the keys that the flush gave out; captures, contents and pending lists
are not in it.

Two halves meet here. What is delivered is the snapshot before the flush with
the keys after it, that is `contents_capturingAndWriting`. What the snapshot
says of an entity is read off the rules by `recorded_of_content`, and which
keys there are after the flush off `primaryKey_flush_inserted`. A creation has
no key in the snapshot, and anything else none that matters after it.
-/

namespace AuditTrail

open History

/-- The content is the record of an entity that the next flush writes. -/
structure MemoryUnitOfWork.Recorded (settings : CoordinatorSettings)
    (u : MemoryUnitOfWork) (m : MemoryEntity) (content : Content) : Prop where
  entity_eq : content.entity = m.entity
  action_eq : AuditAction.ofState? m.state = some content.action
  /-- All properties are recorded of a new row, of any other those that were
  changed. -/
  ruled : ∃ rule,
    settings.registry.resolve m.entityType settings.scope = .ok rule ∧
    content.permission = rule.permission ∧
    content.entityName = rule.displayName.getD m.entityType ∧
    rule.recordAll
      (if m.state = .added then m.properties
        else m.properties.filter (·.isModified))
      TrackedProperties.empty = .ok content.properties
  dataJson_eq : content.dataJson = content.properties.jsonText
  /-- A new row is named by the key that the flush gives it. -/
  inserted : m.state = .added → ∃ i, u.inserted[i]? = some m.entity ∧
    u.flush.2.primaryKey m.entity = some (.int (u.keyAt i)) ∧
    content.entityId = some (String.ofList (Digits.ofInt (u.keyAt i).toInt))
  /-- Any other row is named by the key it had. -/
  known : m.state ≠ .added → content.entityId = m.key.keyText?
  deleted : m.state = .deleted → u.flush.2.primaryKey m.entity = none

/-! ## Contents that are taken in at once -/

namespace Content

theorem takeIn_of_not_mem {content : Content} {pending : List Content}
    (hnew : content.entity ∉ pending.map (·.entity)) :
    takeIn content pending = pending ++ [content] := by
  induction pending with
  | nil => rfl
  | cons first rest ih =>
      rw [List.map_cons, List.mem_cons, not_or] at hnew
      rw [takeIn, if_neg (Ne.symm hnew.1), ih hnew.2, List.cons_append]

theorem takeAll_of_nodup (contents : List Content) : ∀ pending : List Content,
    ((pending ++ contents).map (·.entity)).Nodup →
      takeAll pending contents = pending ++ contents := by
  induction contents with
  | nil => intro pending _; exact (List.append_nil pending).symm
  | cons first rest ih =>
      intro pending hnodup
      have hnew : first.entity ∉ pending.map (·.entity) := by
        rw [List.map_append, List.nodup_append] at hnodup
        exact fun hmem => hnodup.2.2 _ hmem _ List.mem_cons_self rfl
      rw [List.append_cons] at hnodup ⊢
      rw [takeAll_cons, takeIn_of_not_mem hnew, ih _ hnodup]

end Content

/-! ## The record of an entity -/

namespace MemoryUnitOfWork

variable {u : MemoryUnitOfWork} {m : MemoryEntity}

theorem primaryKey_of_mem (hnodup : (u.entities.map (·.entity)).Nodup)
    (hm : m ∈ u.entities) :
    u.primaryKey m.entity = some m.key := by
  obtain ⟨other, hother⟩ : ∃ other, u.find? m.entity = some other :=
    Option.isSome_iff_exists.mp
      (List.find?_isSome.mpr ⟨m, hm, decide_eq_true rfl⟩)
  have hentity : other.entity = m.entity := by
    simpa using List.find?_some hother
  rw [primaryKey, hother,
    List.inj_on_of_nodup_map hnodup
      (List.mem_of_find?_eq_some hother) hm hentity]
  rfl

theorem eligible_entry (hplain : ∀ p ∈ m.properties, p.isPrimaryKey = false)
    (action : AuditAction) :
    m.entry.properties.filter (EntityRule.isEligible action) =
      if action = .create then m.properties
      else m.properties.filter (·.isModified) := by
  rw [MemoryEntity.entry,
    List.filter_cons_of_neg (by simp [EntityRule.isEligible])]
  cases action with
  | create =>
      refine List.filter_eq_self.mpr fun p hp => ?_
      simp [EntityRule.isEligible, hplain p hp]
  | update | delete =>
      refine List.filter_congr fun p hp => ?_
      simp [EntityRule.isEligible, hplain p hp]

/-- The content of an entity before the flush is, with its key after it, the
record of the entity. -/
theorem recorded_of_content {settings : CoordinatorSettings} (hu : u.InOrder)
    (hm : m ∈ u.entities) {content : Content}
    (hcontent : settings.contentOf u.primaryKey m.entry = .ok content) :
    u.Recorded settings m (content.written u.flush.2.primaryKey) := by
  obtain ⟨action, rule, properties, haction, hrule, hproperties, rfl⟩ :=
    CoordinatorSettings.planned_of_content hcontent
  have hkey : u.primaryKey m.entry.entity = some m.key :=
    primaryKey_of_mem hu.nodup hm
  rw [eligible_entry (hu.plain m hm)] at hproperties
  rw [hkey]
  have hdeleted := (primaryKey_flush_eq_none_iff hu.nodup hm).mpr
  cases action with
  | create =>
      have hadded : m.state = .added :=
        AuditAction.ofState?_eq_create_iff.mp haction
      have hmem : m.entity ∈ u.inserted :=
        List.mem_map_of_mem (List.mem_filter.mpr ⟨hm, by simp [hadded]⟩)
      obtain ⟨i, hi⟩ := List.mem_iff_getElem?.mp hmem
      have hflushed := primaryKey_flush_inserted hu.nodup hi
      refine ⟨rfl, haction, ⟨rule, hrule, rfl, rfl, ?_⟩, rfl,
        fun _ => ⟨i, hi, hflushed, ?_⟩, fun hknown =>
          absurd hadded hknown, hdeleted⟩
      · rw [if_pos hadded]
        exact hproperties
      · exact congrArg (Option.bind · FieldValue.keyText?) hflushed
  | update | delete =>
      have hknown : m.state ≠ .added := fun hadded =>
        nomatch haction.symm.trans
          (AuditAction.ofState?_eq_create_iff.mpr hadded)
      refine ⟨rfl, haction, ⟨rule, hrule, rfl, rfl, ?_⟩, rfl,
        fun hadded => absurd hadded hknown, fun _ => rfl, hdeleted⟩
      rw [if_neg hknown]
      exact hproperties

theorem InOrder.edited (hu : u.InOrder) (edits : List Edit) :
    (u.edited edits).InOrder := by
  induction edits generalizing u with
  | nil => exact hu
  | cons e rest ih => exact ih (hu.apply e)

theorem transaction_edited (edits : List Edit) (u : MemoryUnitOfWork) :
    (u.edited edits).transaction = u.transaction := by
  induction edits generalizing u with
  | nil => rfl
  | cons e rest ih => exact (ih _).trans (e.transaction_apply u)

/-! ## The records of a snapshot -/

section Snapshot

variable {settings : CoordinatorSettings} {contents : List Content}

/-- If a snapshot can be captured, what is audited is what will be written. -/
theorem audits_entry
    (hcontents : settings.contents u.primaryKey u.entries = .ok contents)
    (hm : m ∈ u.entities) :
    settings.audits m.entry =
      (m.isPending && settings.registry.isTracked m.entityType) := by
  have hread := settings.forall₂_contents u.primaryKey hcontents
  cases htracked : settings.registry.isTracked m.entityType with
  | false => simp [CoordinatorSettings.audits, MemoryEntity.entry, htracked]
  | true =>
      cases hstate : m.state with
      | detached =>
          -- Such an entity would be audited and have no content.
          have haudits : settings.audits m.entry = true := by
            simp [CoordinatorSettings.audits, MemoryEntity.entry, htracked,
              hstate]
          have hmem : m.entry ∈ u.entries.filter settings.audits :=
            List.mem_filter.mpr ⟨List.mem_map_of_mem hm, haudits⟩
          obtain ⟨i, hi, hentry⟩ := List.mem_iff_getElem.mp hmem
          have hcontent := hread.get hi (hread.length_eq ▸ hi)
          obtain ⟨action, -, -, haction, -⟩ :=
            CoordinatorSettings.planned_of_content hcontent
          change AuditAction.ofState?
            (u.entries.filter settings.audits)[i].state = _ at haction
          rw [hentry, show m.entry.state = _ from hstate] at haction
          cases haction
      | unchanged | added | modified | deleted =>
          simp [CoordinatorSettings.audits, MemoryEntity.entry,
            MemoryEntity.isPending, htracked, hstate]

theorem forall₂_recorded (hu : u.InOrder)
    (hcontents : settings.contents u.primaryKey u.entries = .ok contents) :
    List.Forall₂ (u.Recorded settings)
      (u.entities.filter fun m => m.isPending &&
        settings.registry.isTracked m.entityType)
      (contents.map (Content.written u.flush.2.primaryKey)) := by
  have hread := settings.forall₂_contents u.primaryKey hcontents
  have haudited : u.entities.filter (settings.audits ∘ MemoryEntity.entry) =
      u.entities.filter fun m => m.isPending &&
        settings.registry.isTracked m.entityType :=
    List.filter_congr fun m hm => audits_entry hcontents hm
  rw [entries, List.filter_map, List.forall₂_map_left_iff, haudited] at hread
  rw [List.forall₂_map_right_iff]
  have hmem : ∀ m ∈ u.entities.filter fun m =>
      m.isPending && settings.registry.isTracked m.entityType, m ∈ u.entities :=
    fun m hm => List.mem_of_mem_filter hm
  exact ((List.forall₂_and_left _ _).mpr ⟨hmem, hread⟩).imp fun m content h =>
    recorded_of_content hu h.1 h.2

theorem nodup_contents (hu : u.InOrder)
    (hcontents : settings.contents u.primaryKey u.entries = .ok contents) :
    (contents.map (·.entity)).Nodup := by
  rw [settings.entities_contents u.primaryKey hcontents,
    CoordinatorSettings.audited]
  refine List.Nodup.sublist (List.filter_sublist.map _) ?_
  rw [entries, List.map_map]
  exact hu.nodup

/-- No two creations have the same key text. There are keys enough for any list
that fits in a memory. -/
theorem nodup_created {ms : List MemoryEntity} {records : List Content}
    (hrecords : List.Forall₂ (u.Recorded settings) ms records)
    (hentities : (records.map (·.entity)).Nodup)
    (henough : u.inserted.length ≤ 2 ^ 64) :
    ((records.filter (·.action = .create)).map (·.entityId)).Nodup := by
  have hkey : ∀ record ∈ records.filter (·.action = .create), ∃ i < 2 ^ 64,
      u.inserted[i]? = some record.entity ∧
        record.entityId =
          some (String.ofList (Digits.ofInt (u.keyAt i).toInt)) := by
    intro record hrecord
    obtain ⟨hmem, hcreate⟩ := List.mem_filter.mp hrecord
    obtain ⟨j, hj, rfl⟩ := List.mem_iff_getElem.mp hmem
    have hj' : j < ms.length := hrecords.length_eq ▸ hj
    have recorded : u.Recorded settings ms[j] records[j] := hrecords.get hj' hj
    have haction := recorded.action_eq
    rw [of_decide_eq_true hcreate] at haction
    obtain ⟨i, hi, -, hentityId⟩ :=
      recorded.inserted (AuditAction.ofState?_eq_create_iff.mp haction)
    rw [← recorded.entity_eq] at hi
    have hlt : i < u.inserted.length := (List.getElem?_eq_some_iff.mp hi).1
    exact ⟨i, by omega, hi, hentityId⟩
  have hcreated :
      ((records.filter (·.action = .create)).map (·.entity)).Nodup :=
    hentities.sublist (List.filter_sublist.map _)
  refine List.Nodup.map_on (fun record hrecord other hother hsame => ?_)
    hcreated.of_map
  -- One text is one key, one key one position, and one position one entity.
  obtain ⟨i, hi, hrecord', hid⟩ := hkey record hrecord
  obtain ⟨j, hj, hother', hid'⟩ := hkey other hother
  rw [hid, hid'] at hsame
  have htext :=
    Digits.ofInt_injective (String.ofList_injective (Option.some.inj hsame))
  obtain rfl : i = j := keyAt_inj hi hj (Int64.toInt_inj.mp htext)
  rw [hrecord'] at hother'
  exact List.inj_on_of_nodup_map hcreated hrecord hother
    (Option.some.inj hother')

end Snapshot

end MemoryUnitOfWork

/-- A save without a transaction delivers one slice at most. It has one record
for each audited row that the flush wrote, in the order of tracking, and the
created rows among them have different keys. -/
theorem save_records_written {settings : CoordinatorSettings}
    (hauto : settings.options.autoOpenTransaction = false) {c : Circumstances}
    (hc : c.Uncancelled) {s : CoordinatorState} (hpending : s.captures = [])
    (hidle : s.commitInProgress = false) (context : String)
    (edits : List Edit) :
    let u := (MemoryUnitOfWork.new context).edited edits
    let d := (Desk.new s u).run settings c [.save .start, .edit .flush,
      .save .finish]
    d.outcomes.head? = some (.ok ()) →
      d.outcomes = [.ok (), .ok ()] ∧
        ∃ records, contents d.history = Content.slices records ∧
          List.Forall₂ (u.Recorded settings)
            (u.entities.filter fun m => m.isPending &&
              settings.registry.isTracked m.entityType)
            records ∧
          (u.inserted.length ≤ 2 ^ 64 →
            ((records.filter (·.action = .create)).map
              (·.entityId)).Nodup) := by
  intro u d hstarted
  have hu : u.InOrder := (MemoryUnitOfWork.inOrder_new context).edited edits
  have htx : u.transaction = none := MemoryUnitOfWork.transaction_edited edits _
  obtain ⟨hdelivered, houtcomes⟩ : contents d.history = Content.slices
        ((Content.takeAll [] (settings.read u)).map
          (Content.written u.flush.2.primaryKey)) ∧
      d.outcomes = [settings.readable u, .ok ()] := by
    have hrun :=
      Desk.contents_capturingAndWriting hauto hc hpending hidle htx [[]]
    rwa [show u.stages [[]] = [u] from rfl, List.flatMap_singleton] at hrun
  rw [houtcomes] at hstarted
  have hreadable : settings.readable u = .ok () := Option.some.inj hstarted
  obtain ⟨contents, hcontents⟩ : ∃ contents,
      settings.contents u.primaryKey u.entries = .ok contents := by
    rw [CoordinatorSettings.readable] at hreadable
    cases hread : settings.contents u.primaryKey u.entries with
    | error e => rw [hread] at hreadable; cases hreadable
    | ok contents => exact ⟨contents, rfl⟩
  have hnodup := u.nodup_contents hu hcontents
  rw [CoordinatorSettings.read, hcontents, Except.toOption, Option.getD_some,
    Content.takeAll_of_nodup contents [] hnodup] at hdelivered
  have hrecords := u.forall₂_recorded hu hcontents
  refine ⟨by rw [houtcomes, hreadable], _, hdelivered, hrecords,
    fun henough => ?_⟩
  refine MemoryUnitOfWork.nodup_created hrecords ?_ henough
  rwa [Content.entities_written]

namespace Sample

/-- After one flush two orders are new, one of the three that were read is
changed and one is to be deleted, and so is the order that was written before.
A draft is new too, and nobody audits drafts. -/
def mixed : List Edit :=
  [.add "Order" [("Total", .int 10)], .flush,
    .attach "Order" (.int 70) [("Total", .int 1)],
    .add "Order" [("Total", .int 20)], .attach "Order" .null [],
    .add "Draft" [],
    .attach "Order" (.text "x") [], .add "Order" [], .set ⟨2⟩ "Total" (.int 2),
    .remove ⟨4⟩,
    .remove ⟨1⟩]

end Sample

/-- The consumer rejects the records. -/
theorem save_records_sample :
    let u := (MemoryUnitOfWork.new "req").edited Sample.mixed
    let d := (Desk.new .initial u).run (Sample.settings false)
      (Sample.circumstances (.error (.consumer "full")))
      [.save .start, .edit .flush, .save .finish]
    d.outcomes.head? = some (.ok ()) ∧ u.inserted.length ≤ 2 ^ 64 ∧
      (∃ records, contents d.history = Content.slices records ∧
        List.Forall₂ (u.Recorded (Sample.settings false))
          (u.entities.filter fun m =>
            m.isPending &&
              (Sample.settings false).registry.isTracked m.entityType) records ∧
        ((records.filter (·.action = .create)).map (·.entityId)).Nodup) ∧
      (contents d.history).map
        (List.map fun record => (record.action, record.entityId)) =
        [[(.delete, some "1"), (.update, some "70"), (.create, some "2"),
          (.delete, none), (.create, some "4")]] := by
  intro u d
  have hstarted : d.outcomes.head? = some (.ok ()) := by decide +kernel
  have henough : u.inserted.length ≤ 2 ^ 64 := by decide +kernel
  have hauto : (Sample.settings false).options.autoOpenTransaction = false :=
    rfl
  obtain ⟨-, records, hdelivered, hrecords, hnodup⟩ :=
    save_records_written hauto
      (Sample.uncancelled_circumstances (.error (.consumer "full"))) rfl rfl
      "req" Sample.mixed hstarted
  refine ⟨hstarted, henough, ⟨records, ?_, hrecords, hnodup henough⟩,
    by decide +kernel⟩
  simpa only [d, u] using hdelivered

end AuditTrail

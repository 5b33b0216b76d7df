import AuditTrail.Proofs.Coordinator.Session

/-!
# Transcripts

A unit of work is asked about its changes at two times. Before the write it is
asked for a snapshot and, entry by entry, for the keys of those that exist
already; after the write it is asked for the keys of those that were created.
The answers may be different each time, so what a record tells depends on when
it was asked for.

The questions about changes in a history are its `readings`. `Captured` says
what those of a capture look like and which captures belong to them, and
`CoordinatorSettings.captured` reads the captures off. `Reconciled` says the
same of a promotion. What matters of either is where the key of an entity
comes from: a capture has the one that was read last, a promotion reads one
only, since no entity is pending twice.
-/

namespace AuditTrail

open Coordinating Coordinator History

/-! ## Readings -/

/-- Something is asked about the changes. -/
def Happening.isReading : Happening → Bool
  | .asked .entries _ => true
  | .asked (.primaryKey _) _ => true
  | .asked .freshRecordId _ => true
  | .asked .now _ => true
  | _ => false

/-- The key of an entity, if it is asked for. -/
def Happening.keyOf? (e : EntityRef) : Happening → Option (Option FieldValue)
  | .asked (.primaryKey entity) key => if entity = e then some key else none
  | _ => none

namespace History

/-- What was asked about the changes. -/
def readings (h : History) : History := h.filter Happening.isReading

/-- The keys that were answered for an entity. -/
def keysOf (e : EntityRef) (h : History) : List (Option FieldValue) :=
  h.filterMap (Happening.keyOf? e)

@[simp] theorem readings_append (h h' : History) :
    readings (h ++ h') = readings h ++ readings h' :=
  List.filter_append h h'

theorem keysOf_cons_key (e entity : EntityRef) (key : Option FieldValue)
    (h : History) :
    keysOf e (.asked (.primaryKey entity) key :: h) =
      if entity = e then key :: keysOf e h else keysOf e h := by
  by_cases hsame : entity = e
  · rw [if_pos hsame]
    exact List.filterMap_cons_some (if_pos hsame)
  · rw [if_neg hsame]
    exact List.filterMap_cons_none (if_neg hsame)

theorem Reads.readings_eq {h : History} (reads : Reads h) : readings h = h :=
  List.filter_eq_self.mpr fun x hx => by
    obtain ⟨_, rfl⟩ | ⟨_, _, rfl⟩ | ⟨_, rfl⟩ | ⟨_, rfl⟩ :=
      (reads x hx).cases <;> rfl

/-- All that is read is read in the readings. -/
theorem filterMap_readings {α : Type} {f : Happening → Option α}
    (hreading : ∀ x, x.isReading = false → f x = none) (h : History) :
    (readings h).filterMap f = h.filterMap f := by
  rw [readings, List.filterMap_filter]
  refine congrArg (List.filterMap · h) (funext fun x => ?_)
  cases hx : x.isReading with
  | true => rfl
  | false => exact (hreading x hx).symm

theorem issued_readings (h : History) : issued (readings h) = issued h :=
  filterMap_readings (fun x hx => by
    cases x with
    | asked query answer => cases query <;> first | rfl | cases hx
    | _ => rfl) h

theorem keysOf_readings (e : EntityRef) (h : History) :
    keysOf e (readings h) = keysOf e h :=
  filterMap_readings (fun x hx => by
    cases x with
    | asked query answer => cases query <;> first | rfl | cases hx
    | _ => rfl) h

end History

/-! ## The transcript of a capture -/

/-- The capture of an entry that passed the rules, given the key of its
entity. -/
def PlannedCapture.capture (planned : PlannedCapture) (entity : EntityRef)
    (key : Option FieldValue) (id : RecordId) (time : Instant) : Capture :=
  ⟨⟨id, entity, planned.action, planned.entityName, planned.properties,
      planned.properties.jsonText, planned.permission, time⟩,
    match planned.action with
    | .create => none
    | .update | .delete => key.bind FieldValue.keyText?⟩

@[simp] theorem PlannedCapture.entity_capture (planned : PlannedCapture)
    (entity : EntityRef) (key : Option FieldValue) (id : RecordId)
    (time : Instant) :
    (planned.capture entity key id time).entity = entity := rfl

theorem PlannedCapture.capture_created {planned : PlannedCapture}
    (haction : planned.action = .create) (entity : EntityRef)
    (key : Option FieldValue) (id : RecordId) (time : Instant) :
    planned.capture entity key id time =
      ⟨⟨id, entity, planned.action, planned.entityName, planned.properties,
        planned.properties.jsonText, planned.permission, time⟩, none⟩ := by
  simp only [PlannedCapture.capture, haction]

theorem PlannedCapture.capture_known {planned : PlannedCapture}
    (haction : planned.action ≠ .create) (entity : EntityRef)
    (key : Option FieldValue) (id : RecordId) (time : Instant) :
    planned.capture entity key id time =
      ⟨⟨id, entity, planned.action, planned.entityName, planned.properties,
        planned.properties.jsonText, planned.permission, time⟩,
        key.bind FieldValue.keyText?⟩ := by
  cases hplanned : planned.action with
  | create => exact absurd hplanned haction
  | update | delete => simp only [PlannedCapture.capture, hplanned]

/-- The capture of an entry, read off what is asked about it, and what is asked
then. The key of an entity that is about to be created is not asked for. -/
def PlannedCapture.read? (planned : PlannedCapture) (entity : EntityRef) :
    History → Option (Capture × History)
  | .asked (.primaryKey _) key :: .asked .freshRecordId id ::
      .asked .now time :: later =>
      some (planned.capture entity key id time, later)
  | .asked .freshRecordId id :: .asked .now time :: later =>
      some (planned.capture entity none id time, later)
  | _ => none

/-- The captures of a snapshot, read off what is asked about its entries. -/
def CoordinatorSettings.captured (settings : CoordinatorSettings) :
    List TrackedEntry → History → List Capture
  | [], _ => []
  | entry :: rest, h =>
    if settings.audits entry then
      match settings.plan entry with
      | .error _ => []
      | .ok planned =>
        match planned.read? entry.entity h with
        | none => []
        | some (capture, later) => capture :: settings.captured rest later
    else settings.captured rest h

/-- The captures of a snapshot and what is asked for them. -/
inductive Captured (settings : CoordinatorSettings) :
    List TrackedEntry → History → List Capture → Prop where
  | nil : Captured settings [] [] []
  | skipped {entry : TrackedEntry} {rest : List TrackedEntry} {h : History}
      {captures : List Capture} (haudits : settings.audits entry = false)
      (hrest : Captured settings rest h captures) :
      Captured settings (entry :: rest) h captures
  | created {entry : TrackedEntry} {rest : List TrackedEntry} {h : History}
      {captures : List Capture} {planned : PlannedCapture} (id : RecordId)
      (time : Instant) (haudits : settings.audits entry = true)
      (hplan : settings.plan entry = .ok planned)
      (haction : planned.action = .create)
      (hrest : Captured settings rest h captures) :
      Captured settings (entry :: rest)
        (.asked .freshRecordId id :: .asked .now time :: h)
        (planned.capture entry.entity none id time :: captures)
  | known {entry : TrackedEntry} {rest : List TrackedEntry} {h : History}
      {captures : List Capture} {planned : PlannedCapture}
      (key : Option FieldValue) (id : RecordId) (time : Instant)
      (haudits : settings.audits entry = true)
      (hplan : settings.plan entry = .ok planned)
      (haction : planned.action ≠ .create)
      (hrest : Captured settings rest h captures) :
      Captured settings (entry :: rest)
        (.asked (.primaryKey entry.entity) key :: .asked .freshRecordId id ::
          .asked .now time :: h)
        (planned.capture entry.entity key id time :: captures)

/-- The captures of an entity. -/
def Capture.about (e : EntityRef) (captures : List Capture) : List Capture :=
  captures.filter fun c => c.entity = e

namespace Capture

variable {e : EntityRef} {c : Capture} {captures : List Capture}

theorem about_cons (e : EntityRef) (c : Capture) (captures : List Capture) :
    about e (c :: captures) =
      if c.entity = e then c :: about e captures else about e captures := by
  rw [about, List.filter_cons]
  simp only [decide_eq_true_eq]
  rfl

theorem mem_of_about (hc : c ∈ about e captures) :
    c ∈ captures ∧ c.entity = e := by
  simpa [about] using hc

/-- If no entity is captured twice, a capture is the only one of its entity. -/
theorem about_eq_singleton (hc : c ∈ captures)
    (hnodup : (captures.map (·.entity)).Nodup) :
    about c.entity captures = [c] := by
  induction captures with
  | nil => cases hc
  | cons first rest ih =>
      obtain ⟨hnew, hnodup⟩ := List.nodup_cons.mp hnodup
      rw [about_cons]
      rcases List.mem_cons.mp hc with rfl | hc
      · have hnone : about c.entity rest = [] := List.filter_eq_nil_iff.mpr
          fun other hother hsame =>
            hnew (List.mem_map.mpr ⟨other, hother, of_decide_eq_true hsame⟩)
        rw [if_pos rfl, hnone]
      · rw [if_neg fun hsame => hnew (List.mem_map.mpr ⟨c, hc, hsame.symm⟩)]
        exact ih hc hnodup

end Capture

theorem last_of_cons {α : Type} {a c : α} {l : List α}
    (hlast : (a :: l).getLast? = some c) :
    l.getLast? = some c ∨ l = [] ∧ c = a := by
  cases l with
  | nil => exact .inr ⟨rfl, (Option.some.inj hlast).symm⟩
  | cons b l => exact .inl (by rwa [List.getLast?_cons_cons] at hlast)

theorem getLast?_cons_of_some {α : Type} {a c : α} {l : List α}
    (hlast : l.getLast? = some c) :
    (a :: l).getLast? = some c := by
  rw [List.getLast?_cons, hlast, Option.getD_some]

namespace Captured

variable {settings : CoordinatorSettings} {entries : List TrackedEntry}
  {h : History} {captures : List Capture}

theorem captured_eq (captured : Captured settings entries h captures) :
    settings.captured entries h = captures := by
  induction captured with
  | nil => rfl
  | skipped haudits _ ih =>
      rw [CoordinatorSettings.captured.eq_def]
      simp only [haudits]
      exact ih
  | created id time haudits hplan _ _ ih
  | known key id time haudits hplan _ _ ih =>
      rw [CoordinatorSettings.captured.eq_def]
      simp only [haudits, hplan]
      exact congrArg (_ :: ·) ih

theorem reads (captured : Captured settings entries h captures) : Reads h := by
  induction captured with
  | nil => exact reads_nil
  | skipped _ _ ih => exact ih
  | created _ _ _ _ _ _ ih => exact reads_cons trivial (reads_cons trivial ih)
  | known _ _ _ _ _ _ _ ih =>
      exact reads_cons trivial (reads_cons trivial (reads_cons trivial ih))

/-- Each capture has the identity that is issued for it. -/
theorem issued_eq (captured : Captured settings entries h captures) :
    captures.map (·.id) = issued h := by
  induction captured with
  | nil => rfl
  | skipped _ _ ih => exact ih
  | created id _ _ _ _ _ ih | known _ id _ _ _ _ _ ih =>
      exact congrArg (id :: ·) ih

theorem dataJson_eq (captured : Captured settings entries h captures) :
    ∀ c ∈ captures, c.dataJson = c.properties.jsonText := by
  induction captured with
  | nil => exact fun _ hc => absurd hc List.not_mem_nil
  | skipped _ _ ih => exact ih
  | created _ _ _ _ _ _ ih | known _ _ _ _ _ _ _ ih =>
      exact List.forall_mem_cons.mpr ⟨rfl, ih⟩

theorem entityId_eq_none (captured : Captured settings entries h captures) :
    ∀ c ∈ captures, c.action = .create → c.entityId = none := by
  induction captured with
  | nil => exact fun _ hc => absurd hc List.not_mem_nil
  | skipped _ _ ih => exact ih
  | created _ _ _ _ haction _ ih =>
      refine List.forall_mem_cons.mpr ⟨fun _ => ?_, ih⟩
      rw [PlannedCapture.capture_created haction]
  | known _ _ _ _ _ haction _ ih =>
      exact List.forall_mem_cons.mpr ⟨fun hcreate => absurd hcreate haction, ih⟩

/-- A key is asked for only to capture the entity. -/
theorem keysOf_eq_nil (captured : Captured settings entries h captures)
    {e : EntityRef} (hnone : Capture.about e captures = []) :
    keysOf e h = [] := by
  induction captured with
  | nil => rfl
  | skipped _ _ ih => exact ih hnone
  | created _ _ _ _ _ _ ih =>
      rw [Capture.about_cons] at hnone
      split at hnone
      · cases hnone
      · exact ih hnone
  | @known entry _ _ _ _ key _ _ _ _ _ _ ih =>
      rw [Capture.about_cons, PlannedCapture.entity_capture] at hnone
      by_cases hsame : entry.entity = e
      · rw [if_pos hsame] at hnone
        cases hnone
      · rw [if_neg hsame] at hnone
        rw [keysOf_cons_key, if_neg hsame]
        exact ih hnone

/-- Of the captures of an entity the last one has the key that was read last. -/
theorem last_key (captured : Captured settings entries h captures)
    {e : EntityRef} {c : Capture}
    (hlast : (Capture.about e captures).getLast? = some c)
    (haction : c.action ≠ .create) :
    ∃ key, (keysOf e h).getLast? = some key ∧
      c.entityId = key.bind FieldValue.keyText? := by
  induction captured with
  | nil => cases hlast
  | skipped _ _ ih => exact ih hlast
  | created _ _ _ _ hcreate _ ih =>
      rw [Capture.about_cons] at hlast
      split at hlast
      · rcases last_of_cons hlast with hlast | ⟨-, rfl⟩
        · exact ih hlast
        · exact absurd hcreate haction
      · exact ih hlast
  | @known entry _ _ _ _ key _ _ _ _ hknown hrest ih =>
      rw [Capture.about_cons, PlannedCapture.entity_capture] at hlast
      rw [keysOf_cons_key]
      by_cases hsame : entry.entity = e
      · rw [if_pos hsame] at hlast ⊢
        rcases last_of_cons hlast with hlast | ⟨hnone, rfl⟩
        · obtain ⟨other, hother, hread⟩ := ih hlast
          exact ⟨other, getLast?_cons_of_some hother, hread⟩
        · refine ⟨key, ?_, ?_⟩
          · exact congrArg (fun later => (key :: later).getLast?)
              (hrest.keysOf_eq_nil hnone)
          · rw [PlannedCapture.capture_known hknown]
      · rw [if_neg hsame] at hlast ⊢
        exact ih hlast

end Captured

/-! ## The transcript of a promotion -/

/-- The records that captures become, given the keys that are answered for the
created entities among them. -/
def promotions : List Capture → List (Option FieldValue) → List AuditRecord
  | [], _ => []
  | capture :: rest, keys =>
    match capture.action with
    | .create =>
      capture.promote (keys.head?.join.bind FieldValue.keyText?) ::
        promotions rest keys.tail
    | .update => capture.promote none :: promotions rest keys
    | .delete => capture.promote none :: promotions rest keys

/-- A record has the identity of its capture. -/
theorem id_promotions (captures : List Capture) :
    ∀ keys : List (Option FieldValue),
    (promotions captures keys).map (·.id) = captures.map (·.id) := by
  induction captures with
  | nil => intro keys; rfl
  | cons capture rest ih =>
      intro keys
      cases haction : capture.action <;>
        simp [promotions, haction, ih, Capture.promote]

/-- The records that captures become, and what is asked for it. -/
inductive Reconciled : List Capture → History → List AuditRecord → Prop where
  | nil : Reconciled [] [] []
  | created {capture : Capture} {rest : List Capture} {h : History}
      {records : List AuditRecord} (key : Option FieldValue)
      (haction : capture.action = .create) (hrest : Reconciled rest h records) :
      Reconciled (capture :: rest)
        (.asked (.primaryKey capture.entity) key :: h)
        (capture.promote (key.bind FieldValue.keyText?) :: records)
  | known {capture : Capture} {rest : List Capture} {h : History}
      {records : List AuditRecord} (haction : capture.action ≠ .create)
      (hrest : Reconciled rest h records) :
      Reconciled (capture :: rest) h (capture.promote none :: records)

namespace Reconciled

variable {captures : List Capture} {h : History} {records : List AuditRecord}

theorem reads (reconciled : Reconciled captures h records) : Reads h := by
  induction reconciled with
  | nil => exact reads_nil
  | created _ _ _ ih => exact reads_cons trivial ih
  | known _ _ ih => exact ih

/-- Keys that are read later do not count. -/
theorem promotions_append (reconciled : Reconciled captures h records)
    (later : List (Option FieldValue)) :
    promotions captures (keys h ++ later) = records := by
  induction reconciled with
  | nil => rfl
  | created key haction _ ih =>
      rw [promotions, haction, ← ih]
      rfl
  | @known capture _ _ _ haction _ ih =>
      rw [promotions.eq_def]
      cases hknown : capture.action with
      | create => exact absurd hknown haction
      | update | delete =>
          simp only [hknown]
          exact congrArg (_ :: ·) ih

theorem promotions_eq (reconciled : Reconciled captures h records) :
    promotions captures (keys h) = records := by
  have := reconciled.promotions_append []
  rwa [List.append_nil] at this

/-- A key is asked for only to reconcile the entity. -/
theorem keysOf_eq_nil (reconciled : Reconciled captures h records)
    {e : EntityRef} (hnone : e ∉ captures.map (·.entity)) :
    keysOf e h = [] := by
  induction reconciled with
  | nil => rfl
  | created key _ _ ih =>
      rw [List.map_cons, List.mem_cons, not_or] at hnone
      rw [keysOf_cons_key, if_neg (Ne.symm hnone.1)]
      exact ih hnone.2
  | known _ _ ih => exact ih fun hmem => hnone (List.mem_cons_of_mem _ hmem)

/-- If no entity is pending twice, a record of a creation has the only key that
was read of its entity. -/
theorem of_mem (reconciled : Reconciled captures h records)
    (hnodup : (captures.map (·.entity)).Nodup) {r : AuditRecord}
    (hr : r ∈ records) :
    ∃ c ∈ captures, ∃ written, r = c.promote written ∧
      (c.action = .create →
        ∃ key, keysOf c.entity h = [key] ∧
          written = key.bind FieldValue.keyText?) := by
  induction reconciled with
  | nil => cases hr
  | @created capture rest h records key haction hrest ih =>
      obtain ⟨hnew, hnodup⟩ := List.nodup_cons.mp hnodup
      rcases List.mem_cons.mp hr with rfl | hr
      · refine ⟨capture, List.mem_cons_self, _, rfl, fun _ => ⟨key, ?_, rfl⟩⟩
        rw [keysOf_cons_key, if_pos rfl, hrest.keysOf_eq_nil hnew]
      · obtain ⟨c, hc, written, rfl, hcreated⟩ := ih hnodup hr
        refine ⟨c, List.mem_cons_of_mem _ hc, written, rfl, fun hcreate => ?_⟩
        obtain ⟨other, hother, hwritten⟩ := hcreated hcreate
        have hdifferent : capture.entity ≠ c.entity := fun hsame =>
          hnew (List.mem_map.mpr ⟨c, hc, hsame.symm⟩)
        refine ⟨other, ?_, hwritten⟩
        rw [keysOf_cons_key, if_neg hdifferent]
        exact hother
  | known haction _ ih =>
      rcases List.mem_cons.mp hr with rfl | hr
      · exact ⟨_, List.mem_cons_self, _, rfl,
          fun hcreate => absurd hcreate haction⟩
      · obtain ⟨c, hc, hmore⟩ := ih (List.nodup_cons.mp hnodup).2 hr
        exact ⟨c, List.mem_cons_of_mem _ hc, hmore⟩

end Reconciled

end AuditTrail

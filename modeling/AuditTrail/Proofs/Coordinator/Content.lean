import AuditTrail.Proofs.Coordinator.Capture
import Mathlib.Data.List.Forall2
import Mathlib.Data.List.Nodup

/-!
# What records tell

No two runs of a coordinator give the same records, because each capture has
an identity and a time of its own. What can be compared is everything else,
the `Content`, and it is all that matters: what a coordinator does with
captures it does to their contents.

A snapshot has contents of its own, `CoordinatorSettings.contents`: those of
its audited entries in their order, or the error of the first that fails.
Pending contents take in new ones as pending captures do. Of the contents of
an entity the last that were taken in are pending, which is what
`find?_takeAll` says, and no entity has two, so membership can be read off it.
-/

namespace AuditTrail

/-- What a record tells, apart from its identity and its time. -/
structure Content where
  entity : EntityRef
  action : AuditAction
  entityName : String
  entityId : Option String
  properties : TrackedProperties
  dataJson : String
  permission : String

def Change.content (change : Change) (entityId : Option String) : Content :=
  ⟨change.entity, change.action, change.entityName, entityId, change.properties,
    change.dataJson, change.permission⟩

def Capture.content (capture : Capture) : Content :=
  capture.toChange.content capture.entityId

@[simp] theorem Capture.entity_content (capture : Capture) :
    capture.content.entity = capture.entity := rfl

def AuditRecord.content (record : AuditRecord) : Content :=
  record.toChange.content record.entityId

/-- Captures of the same content become records of the same content. -/
theorem content_promote_congr {capture other : Capture}
    (hsame : capture.content = other.content) (key : Option String) :
    (capture.promote key).content = (other.promote key).content := by
  simp only [Capture.content, Change.content, Content.mk.injEq] at hsame
  obtain ⟨hentity, haction, hname, hid, hproperties, hjson, hpermission⟩ :=
    hsame
  simp only [AuditRecord.content, Change.content, Capture.promote, hentity,
    haction, hname, hid, hproperties, hjson, hpermission]

theorem content_promotions_congr {captures others : List Capture}
    (hsame : captures.map Capture.content = others.map Capture.content) :
    ∀ keys : List (Option FieldValue),
      (promotions captures keys).map AuditRecord.content =
      (promotions others keys).map AuditRecord.content := by
  induction captures generalizing others with
  | nil =>
      intro keys
      rw [List.map_eq_nil_iff.mp hsame.symm]
  | cons capture rest ih =>
      intro keys
      obtain ⟨other, others, rfl, hfirst, hrest⟩ :=
        List.map_eq_cons_iff.mp hsame.symm
      have haction : other.action = capture.action :=
        congrArg Content.action hfirst
      have hpromoted := content_promote_congr hfirst.symm
      rw [promotions, promotions, haction]
      cases capture.action with
      | create | update | delete =>
          exact congrArg₂ List.cons (hpromoted _) (ih hrest.symm _)

/-- The contents of an entry that passed the rules, given the key of its
entity. -/
def PlannedCapture.content (planned : PlannedCapture) (entity : EntityRef)
    (key : Option FieldValue) : Content :=
  ⟨entity, planned.action, planned.entityName,
    match planned.action with
    | .create => none
    | .update | .delete => key.bind FieldValue.keyText?,
    planned.properties, planned.properties.jsonText, planned.permission⟩

theorem AuditAction.ofState?_eq_create_iff {state : EntityState} :
    AuditAction.ofState? state = some .create ↔ state = .added := by
  cases state <;> simp [AuditAction.ofState?]

namespace CoordinatorSettings

variable (settings : CoordinatorSettings) (key : EntityRef → Option FieldValue)

def contentOf (entry : TrackedEntry) : Except AuditError Content :=
  (settings.plan entry).map fun planned =>
    planned.content entry.entity (key entry.entity)

/-- An entry with a content is in a state that is written, and its properties
passed the rules. -/
theorem planned_of_content {settings : CoordinatorSettings}
    {key : EntityRef → Option FieldValue} {entry : TrackedEntry}
    {content : Content}
    (hcontent : settings.contentOf key entry = .ok content) :
    ∃ action rule properties, AuditAction.ofState? entry.state = some action ∧
      settings.registry.resolve entry.entityType settings.scope = .ok rule ∧
      rule.recordAll (entry.properties.filter (EntityRule.isEligible action))
        TrackedProperties.empty = .ok properties ∧
      content = PlannedCapture.content
        ⟨action, rule.displayName.getD entry.entityType,
          rule.permission, properties⟩
        entry.entity (key entry.entity) := by
  rw [contentOf, plan, AuditAction.ofState] at hcontent
  cases haction : AuditAction.ofState? entry.state with
  | none => rw [haction] at hcontent; cases hcontent
  | some action =>
      cases hrule : settings.registry.resolve entry.entityType
          settings.scope with
      | error e => rw [haction, hrule] at hcontent; cases hcontent
      | ok rule =>
          simp only [haction, hrule, bind, Except.bind] at hcontent
          cases hproperties : rule.recordAll
              (entry.properties.filter (EntityRule.isEligible action))
                TrackedProperties.empty with
          | error e => rw [hproperties] at hcontent; cases hcontent
          | ok properties =>
              rw [hproperties] at hcontent
              cases hcontent
              exact ⟨action, rule, properties, rfl, rfl, hproperties, rfl⟩

/-- The contents of a snapshot, given the keys of its entities. -/
def contents (entries : List TrackedEntry) : Except AuditError (List Content) :=
  (entries.filter settings.audits).mapM (settings.contentOf key)

/-- The entities of a snapshot that are audited. -/
def audited (entries : List TrackedEntry) : List EntityRef :=
  (entries.filter settings.audits).map (·.entity)

theorem contents_cons_of_not {entry : TrackedEntry}
    (haudits : settings.audits entry = false) (rest : List TrackedEntry) :
    settings.contents key (entry :: rest) = settings.contents key rest := by
  rw [contents, List.filter_cons_of_neg (by simp [haudits]), contents]

theorem contents_cons {entry : TrackedEntry}
    (haudits : settings.audits entry = true) (rest : List TrackedEntry) :
    settings.contents key (entry :: rest) = (do
      let content ← settings.contentOf key entry
      let contents ← settings.contents key rest
      return content :: contents) := by
  rw [contents, List.filter_cons_of_pos haudits, List.mapM_cons]
  rfl

theorem contents_cons_eq_ok {entry : TrackedEntry}
    (haudits : settings.audits entry = true) {rest : List TrackedEntry}
    {contents : List Content}
    (hcontents : settings.contents key (entry :: rest) = .ok contents) :
    ∃ content later, settings.contentOf key entry = .ok content ∧
      settings.contents key rest = .ok later ∧ contents = content :: later := by
  rw [contents_cons _ _ haudits] at hcontents
  cases hfirst : settings.contentOf key entry with
  | error e => rw [hfirst] at hcontents; cases hcontents
  | ok content =>
      cases hrest : settings.contents key rest with
      | error e => rw [hfirst, hrest] at hcontents; cases hcontents
      | ok later =>
          rw [hfirst, hrest] at hcontents
          cases hcontents
          exact ⟨content, later, rfl, rfl, rfl⟩

/-- A snapshot that can be captured has the contents of its audited entries,
one by one. -/
theorem forall₂_contents {entries : List TrackedEntry} :
    ∀ {contents : List Content}, settings.contents key entries = .ok contents →
      List.Forall₂
        (fun entry content => settings.contentOf key entry = .ok content)
        (entries.filter settings.audits) contents := by
  induction entries with
  | nil =>
      rintro contents ⟨⟩
      exact .nil
  | cons entry rest ih =>
      intro contents hcontents
      cases haudits : settings.audits entry with
      | false =>
          rw [contents_cons_of_not _ _ haudits] at hcontents
          rw [List.filter_cons_of_neg (by simp [haudits])]
          exact ih hcontents
      | true =>
          obtain ⟨content, later, hfirst, hrest, rfl⟩ :=
            contents_cons_eq_ok _ _ haudits hcontents
          rw [List.filter_cons_of_pos haudits]
          exact .cons hfirst (ih hrest)

theorem entities_contents {entries : List TrackedEntry}
    {contents : List Content}
    (hcontents : settings.contents key entries = .ok contents) :
    contents.map (·.entity) = settings.audited entries := by
  symm
  rw [audited, ← List.forall₂_eq_eq_eq, List.forall₂_map_left_iff,
    List.forall₂_map_right_iff]
  refine (settings.forall₂_contents key hcontents).imp
    fun entry content hcontent => ?_
  obtain ⟨_, _, _, -, -, -, rfl⟩ := planned_of_content hcontent
  rfl

end CoordinatorSettings

/-! ## Pending contents -/

namespace Content

/-- Pending contents with others. Those of an entity that has some pending
already take their place. -/
def takeIn (content : Content) : List Content → List Content
  | [] => [content]
  | pending :: rest =>
    if pending.entity = content.entity then content :: rest
    else pending :: takeIn content rest

/-- Pending contents with all those of a snapshot. -/
def takeAll (pending contents : List Content) : List Content :=
  contents.foldl (fun pending content => takeIn content pending) pending

theorem takeAll_cons (pending : List Content) (first : Content)
    (rest : List Content) :
    takeAll pending (first :: rest) = takeAll (takeIn first pending) rest := rfl

theorem takeAll_append (pending first second : List Content) :
    takeAll pending (first ++ second) =
      takeAll (takeAll pending first) second :=
  List.foldl_append

theorem map_mergeCapture (captured : Capture) (pending : List Capture) :
    (CoordinatorState.mergeCapture captured pending).map Capture.content =
      takeIn captured.content (pending.map Capture.content) := by
  induction pending with
  | nil => rfl
  | cons first rest ih =>
      rw [CoordinatorState.mergeCapture, List.map_cons, takeIn,
        Capture.entity_content, Capture.entity_content]
      by_cases hsame : first.entity = captured.entity
      · rw [if_pos hsame, if_pos hsame]
        rfl
      · rw [if_neg hsame, if_neg hsame, List.map_cons, ih]

theorem map_mergeCaptures (captured : List Capture) : ∀ pending : List Capture,
    (CoordinatorState.mergeCaptures pending captured).map Capture.content =
      takeAll (pending.map Capture.content) (captured.map Capture.content) := by
  induction captured with
  | nil => intro pending; rfl
  | cons first rest ih =>
      intro pending
      have := ih (CoordinatorState.mergeCapture first pending)
      rw [map_mergeCapture] at this
      exact this

theorem entities_takeIn (content : Content) (pending : List Content) :
    (takeIn content pending).map (·.entity) =
      if content.entity ∈ pending.map (·.entity) then pending.map (·.entity)
      else pending.map (·.entity) ++ [content.entity] := by
  induction pending with
  | nil => rfl
  | cons first rest ih =>
      rw [takeIn]
      by_cases hsame : first.entity = content.entity
      · simp [hsame]
      · rw [if_neg hsame, List.map_cons, ih]
        simp only [List.map_cons, List.mem_cons, Ne.symm hsame, false_or]
        split <;> rfl

theorem mem_entities_takeAll {e : EntityRef} (contents : List Content) :
    ∀ pending : List Content, e ∈ (takeAll pending contents).map (·.entity) ↔
      e ∈ pending.map (·.entity) ∨ e ∈ contents.map (·.entity) := by
  induction contents with
  | nil => intro pending; simp [takeAll]
  | cons first rest ih =>
      intro pending
      rw [takeAll_cons, ih, entities_takeIn, List.map_cons, List.mem_cons]
      split
      · next hmem =>
          constructor
          · rintro (hp | hr)
            · exact .inl hp
            · exact .inr (.inr hr)
          · rintro (hp | rfl | hr)
            · exact .inl hp
            · exact .inl hmem
            · exact .inr hr
      · rw [List.mem_append, List.mem_singleton, or_assoc]

/-- No entity has two contents pending. -/
theorem nodup_takeAll (contents : List Content) : ∀ pending : List Content,
    (pending.map (·.entity)).Nodup →
      ((takeAll pending contents).map (·.entity)).Nodup := by
  induction contents with
  | nil => intro pending hnodup; exact hnodup
  | cons first rest ih =>
      intro pending hnodup
      refine ih _ ?_
      rw [entities_takeIn]
      split
      · exact hnodup
      · next hnot =>
          refine List.nodup_append.mpr
            ⟨hnodup, List.nodup_singleton _, fun a ha b hb => ?_⟩
          rintro rfl
          rw [List.mem_singleton] at hb
          exact hnot (hb ▸ ha)

/-- The pending contents of an entity. -/
def about (e : EntityRef) (contents : List Content) : Option Content :=
  contents.find? fun content => content.entity = e

theorem about_takeIn (e : EntityRef) (content : Content)
    (pending : List Content) :
    about e (takeIn content pending) =
      if content.entity = e then some content else about e pending := by
  induction pending with
  | nil =>
      by_cases hcontent : content.entity = e <;> simp [takeIn, about, hcontent]
  | cons first rest ih =>
      rw [takeIn]
      by_cases hsame : first.entity = content.entity
      · rw [if_pos hsame]
        by_cases hcontent : content.entity = e
        · simp [about, hcontent]
        · simp [about, hcontent, hsame]
      · rw [if_neg hsame]
        unfold about at ih ⊢
        by_cases hfirst : first.entity = e
        · have hcontent : content.entity ≠ e :=
            fun h => hsame (hfirst.trans h.symm)
          simp [hfirst, hcontent]
        · simp only [List.find?_cons, hfirst, decide_false, ih]

/-- Of the contents of an entity the last that were taken in are pending. -/
theorem about_takeAll (e : EntityRef) (contents : List Content) :
    ∀ pending : List Content,
    about e (takeAll pending contents) = (about e contents.reverse).or
      (about e pending) := by
  induction contents with
  | nil => intro pending; rfl
  | cons first rest ih =>
      intro pending
      rw [takeAll_cons, ih, about_takeIn]
      unfold about
      rw [List.reverse_cons, List.find?_append, Option.or_assoc]
      by_cases hfirst : first.entity = e <;> simp [hfirst]

theorem mem_iff_about {content : Content} {contents : List Content}
    (hnodup : (contents.map (·.entity)).Nodup) :
    content ∈ contents ↔ about content.entity contents = some content := by
  constructor
  · intro hmem
    obtain ⟨other, hother⟩ : ∃ other, about content.entity contents =
        some other := by
      refine Option.isSome_iff_exists.mp
        (List.find?_isSome.mpr ⟨content, hmem, ?_⟩)
      exact decide_eq_true rfl
    have hentity : other.entity = content.entity := by
      simpa using List.find?_some hother
    have hsame :=
      List.inj_on_of_nodup_map hnodup (List.mem_of_find?_eq_some hother) hmem
        hentity
    rw [hother, hsame]
  · exact List.mem_of_find?_eq_some

/-- What is pending of the entities of a snapshot that is taken in does not
depend on what was pending before. -/
theorem mem_takeAll_iff {content : Content} {pending contents : List Content}
    (hnodup : (pending.map (·.entity)).Nodup)
    (hmem : content.entity ∈ contents.map (·.entity)) :
    content ∈ takeAll pending contents ↔ content ∈ takeAll [] contents := by
  rw [mem_iff_about (nodup_takeAll contents pending hnodup),
    mem_iff_about (nodup_takeAll contents [] List.nodup_nil), about_takeAll,
    about_takeAll]
  obtain ⟨last, hlast⟩ : ∃ last, about content.entity contents.reverse =
      some last := by
    obtain ⟨other, hother, hentity⟩ := List.mem_map.mp hmem
    refine Option.isSome_iff_exists.mp (List.find?_isSome.mpr ⟨other, ?_, ?_⟩)
    · exact List.mem_reverse.mpr hother
    · exact decide_eq_true hentity
  rw [hlast]
  rfl

/-! ## After the write -/

/-- The contents after the write, given the keys that the entities have then.
Only a creation learns its key from the write. -/
def written (key : EntityRef → Option FieldValue) (content : Content) :
    Content :=
  match content.action with
  | .create =>
      { content with entityId := (key content.entity).bind FieldValue.keyText? }
  | .update | .delete => content

@[simp] theorem entity_written (key : EntityRef → Option FieldValue)
    (content : Content) :
    (content.written key).entity = content.entity := by
  unfold written
  split <;> rfl

end Content
end AuditTrail

import AuditTrail.Proofs.Coordinator.Content
import AuditTrail.Proofs.Rule.Redaction
import AuditTrail.Rule.Change

/-!
# Values that leave no trace

Two units of work that differ in some values may be captured alike, and this
file says for which values that is certain. Hidden are the values of the key,
the values of properties that were not changed, unless the row is new, and the
values that the rules redact. `ChangeSource.Matches` relates two units of work
that differ in hidden values only.

A hidden value can make a capture fail, because the rules in front of the one
that discards it are run. So the theorem is about two captures that succeed,
and then neither their contents nor the records they become show any
difference. The two may be taken by different coordinators in different
states, and whatever else is answered differs as it likes.
-/

namespace AuditTrail

open Coordinating Coordinator History

/-! ## Sources of changes -/

/-- What a capture learns from a unit of work. -/
structure ChangeSource where
  entries : List TrackedEntry
  primaryKey : EntityRef → Option FieldValue

/-- The unit of work answers as the source does. -/
def Happening.AnsweredBy (source : ChangeSource) : Happening → Prop
  | .asked .entries entries => entries = source.entries
  | .asked (.primaryKey entity) key => key = source.primaryKey entity
  | _ => True

def History.AnsweredBy (source : ChangeSource) (h : History) : Prop :=
  ∀ x ∈ h, x.AnsweredBy source

/-- The value of a property of an entry is not recorded. -/
def CoordinatorSettings.Hides (settings : CoordinatorSettings)
    (entry : TrackedEntry) (p : PropertyEntry) : Prop :=
  p.isPrimaryKey = true ∨ (entry.state ≠ .added ∧ p.isModified = false) ∨
    ∃ rule,
      settings.registry.resolve entry.entityType settings.scope = .ok rule ∧
      rule.Redacts p.name

/-- Properties that differ in their values at most, and only if the first is
hidden. -/
structure PropertyEntry.Matches (hidden : PropertyEntry → Prop)
    (p q : PropertyEntry) : Prop where
  name_eq : p.name = q.name
  isModified_eq : p.isModified = q.isModified
  isPrimaryKey_eq : p.isPrimaryKey = q.isPrimaryKey
  value_eq : p.value = q.value ∨ hidden p

structure TrackedEntry.Matches (settings : CoordinatorSettings)
    (entry other : TrackedEntry) : Prop where
  entity_eq : entry.entity = other.entity
  entityType_eq : entry.entityType = other.entityType
  state_eq : entry.state = other.state
  properties : List.Forall₂ (PropertyEntry.Matches (settings.Hides entry))
    entry.properties
    other.properties

/-- Sources that differ in hidden values only. -/
structure ChangeSource.Matches (settings : CoordinatorSettings)
    (source other : ChangeSource) : Prop where
  entries : List.Forall₂ (TrackedEntry.Matches settings) source.entries
    other.entries
  primaryKey_eq : source.primaryKey = other.primaryKey

/-! ## What is recorded -/

section Recorded

variable {settings : CoordinatorSettings} {entry other : TrackedEntry}

/-- A hidden value of a property that is recorded is redacted. -/
theorem CoordinatorSettings.Hides.redacts {p : PropertyEntry}
    (hides : settings.Hides entry p) {action : AuditAction}
    (haction : AuditAction.ofState? entry.state = some action)
    {rule : EntityRule}
    (hrule : settings.registry.resolve entry.entityType settings.scope =
      .ok rule)
    (heligible : EntityRule.isEligible action p = true) :
    rule.Redacts p.name := by
  rw [EntityRule.isEligible, Bool.and_eq_true, Bool.or_eq_true,
    Bool.not_eq_true', beq_iff_eq] at heligible
  obtain ⟨hplain, hrecorded⟩ := heligible
  rcases hides with hkey | ⟨hstate, huntouched⟩ | ⟨rule', hrule', hredacts⟩
  · rw [hplain] at hkey
    cases hkey
  · rcases hrecorded with rfl | hmodified
    · exact absurd (AuditAction.ofState?_eq_create_iff.mp haction) hstate
    · rw [huntouched] at hmodified
      cases hmodified
  · rw [hrule] at hrule'
    cases hrule'
    exact hredacts

theorem PropertyEntry.Matches.isEligible_eq {hidden : PropertyEntry → Prop}
    {p q : PropertyEntry} (hmatches : p.Matches hidden q)
    (action : AuditAction) :
    EntityRule.isEligible action p = EntityRule.isEligible action q := by
  rw [EntityRule.isEligible, EntityRule.isEligible, hmatches.isModified_eq,
    hmatches.isPrimaryKey_eq]

theorem redacts_of_eligible {ps qs : List PropertyEntry}
    (hmatches :
      List.Forall₂ (PropertyEntry.Matches (settings.Hides entry)) ps qs)
    {action : AuditAction}
    (haction : AuditAction.ofState? entry.state = some action)
    {rule : EntityRule}
    (hrule : settings.registry.resolve entry.entityType settings.scope =
      .ok rule) :
    List.Forall₂ (fun p q => p.name = q.name ∧
      (p.value = q.value ∨ rule.Redacts p.name))
      (ps.filter (EntityRule.isEligible action))
        (qs.filter (EntityRule.isEligible action)) := by
  induction hmatches with
  | nil => exact .nil
  | @cons p q ps qs hfirst _ ih =>
      cases heligible : EntityRule.isEligible action p with
      | true =>
          rw [List.filter_cons_of_pos heligible,
            List.filter_cons_of_pos (hfirst.isEligible_eq action ▸ heligible)]
          have hvalue := hfirst.value_eq.imp_right fun hides =>
            hides.redacts haction hrule heligible
          exact .cons ⟨hfirst.name_eq, hvalue⟩ ih
      | false =>
          have hskipped := hfirst.isEligible_eq action ▸ heligible
          rw [List.filter_cons_of_neg (by simp [heligible]),
            List.filter_cons_of_neg (by simp [hskipped])]
          exact ih

theorem TrackedEntry.Matches.contentOf_eq
    (hmatches : entry.Matches settings other)
    {key : EntityRef → Option FieldValue} {content content' : Content}
    (hcontent : settings.contentOf key entry = .ok content)
    (hcontent' : settings.contentOf key other = .ok content') :
    content = content' := by
  obtain ⟨action, rule, properties, haction, hrule, hproperties, rfl⟩ :=
    CoordinatorSettings.planned_of_content hcontent
  obtain ⟨action', rule', properties', haction', hrule', hproperties', rfl⟩ :=
    CoordinatorSettings.planned_of_content hcontent'
  rw [← hmatches.state_eq, haction] at haction'
  rw [← hmatches.entityType_eq, hrule] at hrule'
  cases haction'
  cases hrule'
  have hredacts := redacts_of_eligible hmatches.properties haction hrule
  rw [EntityRule.recordAll_eq_of_redacts hredacts hproperties hproperties',
    hmatches.entity_eq, hmatches.entityType_eq]

theorem CoordinatorSettings.contents_eq_of_matches
    {key : EntityRef → Option FieldValue} {entries others : List TrackedEntry}
    (hmatches : List.Forall₂ (TrackedEntry.Matches settings) entries others) :
    ∀ {contents contents' : List Content},
      settings.contents key entries = .ok contents →
      settings.contents key others = .ok contents' → contents = contents' := by
  induction hmatches with
  | nil =>
      rintro _ _ ⟨⟩ ⟨⟩
      rfl
  | @cons entry other rest rest' hfirst _ ih =>
      intro contents contents' hcontents hcontents'
      have haudited : settings.audits entry = settings.audits other := by
        rw [audits, audits, hfirst.entityType_eq, hfirst.state_eq]
      cases haudits : settings.audits entry with
      | false =>
          rw [contents_cons_of_not _ _ haudits] at hcontents
          rw [contents_cons_of_not _ _ (haudited ▸ haudits)] at hcontents'
          exact ih hcontents hcontents'
      | true =>
          obtain ⟨content, later, hcontent, hrest, rfl⟩ :=
            contents_cons_eq_ok _ _ haudits hcontents
          obtain ⟨content', later', hcontent', hrest', rfl⟩ :=
            contents_cons_eq_ok _ _ (haudited ▸ haudits) hcontents'
          rw [hfirst.contentOf_eq hcontent hcontent', ih hrest hrest']

end Recorded

/-! ## Captures of a source -/

namespace Coordinating

variable {during : Interlude} (source : ChangeSource)

theorem captureEntry_answered (entry : TrackedEntry) (planned : PlannedCapture)
    (s : CoordinatorState) (h : History) :
    (captureEntry entry planned s).Ensures during
      (fun h' (capture : Capture) _ => ∃ asked, h' = h ++ asked ∧
        (AnsweredBy source asked →
        capture.content = planned.content entry.entity
          (source.primaryKey entry.entity))) h := by
  cases haction : planned.action with
  | create =>
      simp only [captureEntry, haction, pure_bind]
      rw [ensures_bind, ensures_ask]
      intro id
      rw [ensures_bind, ensures_ask]
      intro timestamp
      refine ⟨[.asked .freshRecordId id, .asked .now timestamp], by simp,
        fun _ => ?_⟩
      simp [Capture.content, Change.content, PlannedCapture.content, haction]
  | update | delete =>
      simp only [captureEntry, haction]
      rw [ensures_bind]
      refine (keyText_ensures entry.entity s h).mono ?_
      intro h' text s' hpost
      obtain ⟨key, rfl, rfl, rfl⟩ := hpost
      rw [ensures_bind, ensures_ask]
      intro id
      rw [ensures_bind, ensures_ask]
      intro timestamp
      refine ⟨[.asked (.primaryKey entry.entity) key, .asked .freshRecordId id,
        .asked .now timestamp], by simp, fun hanswered => ?_⟩
      have hkey : key = source.primaryKey entry.entity :=
        hanswered _ List.mem_cons_self
      simp [Capture.content, Change.content, PlannedCapture.content, haction,
        hkey]

theorem captureAll_answered (settings : CoordinatorSettings)
    (entries : List TrackedEntry) :
    ∀ (s : CoordinatorState) (h : History),
      (captureAll settings entries s).Ensures during
        (fun h' captured _ => ∃ asked, h' = h ++ asked ∧
          (AnsweredBy source asked →
          captured.map (List.map Capture.content) =
            settings.contents source.primaryKey entries))
        h := by
  induction entries with
  | nil => intro s h; exact ⟨[], (List.append_nil h).symm, fun _ => rfl⟩
  | cons entry rest ih =>
      intro s h
      rw [captureAll]
      split
      · next haudits =>
          rw [settings.contents_cons _ haudits, CoordinatorSettings.contentOf]
          cases settings.plan entry with
          | error e => exact ⟨[], (List.append_nil h).symm, fun _ => rfl⟩
          | ok planned =>
              simp only []
              rw [ensures_bind]
              refine (captureEntry_answered source entry planned s h).mono ?_
              intro h' capture s' hpost
              obtain ⟨asked, rfl, hcontent⟩ := hpost
              rw [ensures_bind]
              refine (ih s' (h ++ asked)).mono ?_
              intro h' captured s' hpost
              obtain ⟨later, rfl, hcontents⟩ := hpost
              cases captured with
              | error e =>
                  refine ⟨asked ++ later, List.append_assoc h asked later,
                    fun hanswered => ?_⟩
                  rw [← hcontents (List.forall_mem_append.mp hanswered).2]
                  rfl
              | ok captures =>
                  refine ⟨asked ++ later, List.append_assoc h asked later,
                    fun hanswered => ?_⟩
                  obtain ⟨hasked, hlater⟩ := List.forall_mem_append.mp hanswered
                  rw [← hcontents hlater]
                  exact congrArg
                    (fun first => Except.ok
                      (first :: captures.map Capture.content))
                    (hcontent hasked)
      · next haudits =>
          rw [settings.contents_cons_of_not _ (by simpa using haudits)]
          exact ih s h

theorem capture_answered (settings : CoordinatorSettings) (s : CoordinatorState)
    (h : History) :
    (capture settings s).Ensures during
      (fun h' captured _ => AnsweredBy source h' →
        captured.map (List.map Capture.content) =
          settings.contents source.primaryKey source.entries) h := by
  rw [capture, ensures_bind, ensures_ask]
  intro entries
  refine (captureAll_answered source settings entries s _).mono ?_
  intro h' captured s' hpost hanswered
  obtain ⟨asked, rfl, hcontents⟩ := hpost
  obtain ⟨hbefore, hasked⟩ := List.forall_mem_append.mp hanswered
  have hentries : entries = source.entries :=
    hbefore _ (List.mem_append_right h List.mem_cons_self)
  rw [hcontents hasked, hentries]

end Coordinating

/-- Two captures of units of work that differ in hidden values only are the
same, one content for each audited entity, and so are the records that they
become whatever keys are answered then. -/
theorem hidden_values_leave_no_trace {settings : CoordinatorSettings}
    {source other : ChangeSource} (hmatches : source.Matches settings other)
    {during during' : Interlude} {s s' t t' : CoordinatorState} {h h' : History}
    {captures captures' : List Capture}
    (way : (capture settings s).Way during h (.ok captures) t)
    (hanswered : AnsweredBy source h)
    (way' : (capture settings s').Way during' h' (.ok captures') t')
    (hanswered' : AnsweredBy other h') :
    captures.map Capture.content = captures'.map Capture.content ∧
      captures.map (·.entity) = settings.audited source.entries ∧
      ∀ keys, (promotions captures keys).map AuditRecord.content =
        (promotions captures' keys).map AuditRecord.content := by
  have hcontents :=
    way.ensured (h := []) (capture_answered source settings s []) hanswered
  have hcontents' :=
    way'.ensured (h := []) (capture_answered other settings s' []) hanswered'
  rw [← hmatches.primaryKey_eq] at hcontents'
  have hsame : captures.map Capture.content = captures'.map Capture.content :=
    CoordinatorSettings.contents_eq_of_matches hmatches.entries hcontents.symm
      hcontents'.symm
  refine ⟨hsame, ?_, content_promotions_congr hsame⟩
  have hentities := settings.entities_contents source.primaryKey hcontents.symm
  rwa [List.map_map] at hentities

namespace Sample

/-- The rules for users. The password is decrypted before it is discarded, two
chains down, and its hash is given another name first. -/
def userRules : EntityRules :=
  ((EntityRules.forType "User" "admin").property "Password"
      [.single (.decrypt (Decryption.ofTable [([1], "secret")]) false),
        .chain "Password" [.single (.rename "Hash"),
          .chain "Hash" [.single .ignore, .single (.rename "Email")]]]).property
    "Mail" [.single (.rename "Email")]

def redacting : CoordinatorSettings :=
  ⟨⟨"String", [(⟨"User", "String", none⟩, userRules.toRule)]⟩, ⟨false⟩, none⟩

/-- A new user with a password, and a known one whose mail has changed. -/
def users (key phone : FieldValue) (password : List UInt8) : ChangeSource where
  entries :=
    [⟨⟨1⟩, "User", .added,
        [⟨"Id", key, false, true⟩,
          ⟨"Password", .bytes password, true, false⟩,
          ⟨"Mail", .text "a", true, false⟩]⟩,
      ⟨⟨2⟩, "User", .modified,
        [⟨"Phone", phone, false, false⟩, ⟨"Mail", .text "b", true, false⟩]⟩]
  primaryKey entity := some (.int (Int64.ofNat entity.number))

/-- A company that answers as a source does. -/
def reporting (source : ChangeSource) : Company :=
  { company none (order 1) undisturbed with
    answers
      | .isCancelled => false
      | .currentTransaction => none
      | .entries => source.entries
      | .primaryKey entity => source.primaryKey entity
      | .freshRecordId => ⟨⟨0⟩⟩
      | .now => Instant.epoch }

theorem answered_follow (source : ChangeSource) {α : Type} (x : Exchange α) :
    AnsweredBy source (x.follow (reporting source)).1 := by
  induction x with
  | done s a => exact fun _ hx => absurd hx List.not_mem_nil
  | ask query resume ih =>
      refine List.forall_mem_cons.mpr ⟨?_, ih _⟩
      cases query <;> first | rfl | trivial
  | call s made resume ih =>
      exact List.forall_mem_cons.mpr
        ⟨trivial, List.forall_mem_cons.mpr ⟨trivial, ih _ _⟩⟩
  | log event next ih => exact ih

theorem redacts_password : userRules.toRule.Redacts "Password" :=
  ⟨userRules, rfl, _, rfl, .tail _ (.tail _ (.head _))⟩

end Sample

/-- The two passwords are decrypted to different texts, one of them to none. -/
theorem hidden_values_sample :
    let source := Sample.users .null (.text "555") [1]
    let other := Sample.users (.int 7) .null [2]
    let first :=
      (capture Sample.redacting .initial).follow (Sample.reporting source)
    let second :=
      (capture Sample.redacting .initial).follow (Sample.reporting other)
    source.Matches Sample.redacting other ∧ ∃ captures captures',
      first.2.1 = .ok captures ∧ second.2.1 = .ok captures' ∧
      captures.map Capture.content = captures'.map Capture.content ∧
      captures.map (fun capture =>
          (capture.action, capture.entityId, capture.properties.names)) =
        [(.create, none, ["Email"]), (.update, some "2", ["Email"])] := by
  intro source other first second
  have hnew : List.Forall₂
      (PropertyEntry.Matches (Sample.redacting.Hides source.entries[0]))
      source.entries[0].properties other.entries[0].properties :=
    .cons ⟨rfl, rfl, rfl, .inr (.inl rfl)⟩
      (.cons ⟨rfl, rfl, rfl,
        .inr (.inr (.inr ⟨_, rfl, Sample.redacts_password⟩))⟩
        (.cons ⟨rfl, rfl, rfl, .inl rfl⟩ .nil))
  have hknown : List.Forall₂
      (PropertyEntry.Matches (Sample.redacting.Hides source.entries[1]))
      source.entries[1].properties other.entries[1].properties :=
    .cons ⟨rfl, rfl, rfl, .inr (.inr (.inl ⟨nofun, rfl⟩))⟩
      (.cons ⟨rfl, rfl, rfl, .inl rfl⟩ .nil)
  have hmatches : source.Matches Sample.redacting other :=
    ⟨.cons ⟨rfl, rfl, rfl, hnew⟩ (.cons ⟨rfl, rfl, rfl, hknown⟩ .nil), rfl⟩
  have hfirst : (first.2.1.map (List.map fun capture =>
      (capture.action, capture.entityId, capture.properties.names))).toOption =
        some [(.create, none, ["Email"]), (.update, some "2", ["Email"])] := by
    decide +kernel
  have hsecond : second.2.1.isOk = true := by decide +kernel
  have hquiet : ∀ source, (Sample.reporting source).Within Interlude.quiet :=
    fun _ _ _ => ⟨rfl, rfl⟩
  have way := Exchange.way_follow (hquiet source)
    (capture Sample.redacting .initial)
  have way' :=
    Exchange.way_follow (hquiet other) (capture Sample.redacting .initial)
  cases htaken : first.2.1 with
  | error e => rw [htaken] at hfirst; cases hfirst
  | ok captures =>
      cases htaken' : second.2.1 with
      | error e => rw [htaken'] at hsecond; cases hsecond
      | ok captures' =>
          rw [htaken] at hfirst
          rw [show ((capture Sample.redacting .initial).follow
            (Sample.reporting source)).2.1 = _ from htaken] at way
          rw [show ((capture Sample.redacting .initial).follow
            (Sample.reporting other)).2.1 = _ from htaken'] at way'
          obtain ⟨hsame, -, -⟩ := hidden_values_leave_no_trace hmatches way
            (Sample.answered_follow source _) way'
              (Sample.answered_follow other _)
          exact ⟨hmatches, captures, captures', rfl, rfl, hsame,
            Option.some.inj hfirst⟩

end AuditTrail

import AuditTrail.Proofs.Coordinator.Readings
import Mathlib.Data.List.Forall2

/-!
# The verdict on a snapshot

A snapshot is captured if the rules accept every audited entry of it, and is
refused for the first that they do not. Whether an entry is audited depends on
all scopes, which rules decide about it only on the scope of the coordinator,
so an entry may be audited and find no rules.

`Accepts` and `Refuses` say what an entry is accepted or refused for, the
reasons in the order in which they count: its state, missing rules, and the
first of its recorded properties that the rules cannot record. That each entry
is either accepted or refused for one reason is the meaning of `plan`, and the
verdict on a snapshot is `mapM plan` on its audited entries, which is where the
first entry that fails comes from. A start only carries it out.
-/

namespace AuditTrail

open Coordinating Coordinator History

/-! ## What an entry is accepted or refused for -/

/-- The properties of an entry that are recorded: never the key, and of an
entity that exists already only those that were changed. -/
def TrackedEntry.recorded (entry : TrackedEntry) : List PropertyEntry :=
  entry.properties.filter fun property =>
    !property.isPrimaryKey && (entry.state == .added || property.isModified)

namespace CoordinatorSettings

variable {settings : CoordinatorSettings} {entry : TrackedEntry}
  {e : AuditError}

/-- There are rules for entities of this type, in whatever scope, and the entry
is not unchanged. -/
def Audits (settings : CoordinatorSettings) (entry : TrackedEntry) : Prop :=
  (∃ key ∈ settings.registry.keys, key.entityType = entry.entityType) ∧
    entry.state ≠ .unchanged

theorem audits_iff : settings.audits entry = true ↔ settings.Audits entry := by
  simp only [audits, Audits, RuleRegistry.isTracked, Bool.and_eq_true,
    List.any_eq_true, beq_iff_eq, bne_iff_ne]

instance (settings : CoordinatorSettings) : DecidablePred settings.Audits :=
  fun _ => decidable_of_iff _ audits_iff

/-- The only key under which rules for the entry are looked up. -/
def keyFor (settings : CoordinatorSettings) (entry : TrackedEntry) : RuleKey :=
  ⟨entry.entityType, settings.registry.permissionType, settings.scope⟩

/-- The rules accept an entry: it is in a state that is written, there are rules
under its key, and they record all that is to be recorded of it. -/
structure Accepts (settings : CoordinatorSettings) (entry : TrackedEntry)
    (planned : PlannedCapture) : Prop where
  action_eq : AuditAction.ofState? entry.state = some planned.action
  ruled : ∃ rule, settings.registry.find? (settings.keyFor entry) = some rule ∧
    planned.entityName = rule.displayName.getD entry.entityType ∧
    planned.permission = rule.permission ∧
    rule.recordAll entry.recorded TrackedProperties.empty =
      .ok planned.properties

/-- The rules refuse an entry. A reason counts only if none of the earlier ones
applies. -/
inductive Refuses (settings : CoordinatorSettings) (entry : TrackedEntry) :
    AuditError → Prop where
  | state (hstate : entry.state ∉ [.added, .modified, .deleted]) :
      Refuses settings entry (.invalidState entry.entityType entry.state)
  | missing (hstate : entry.state ∈ [.added, .modified, .deleted])
      (hmissing : settings.keyFor entry ∉ settings.registry.keys) :
      Refuses settings entry (.missingRule (settings.keyFor entry))
  | property {rule : EntityRule} {earlier later : List PropertyEntry}
      {property : PropertyEntry} {recorded : TrackedProperties} {e : AuditError}
      (hstate : entry.state ∈ [.added, .modified, .deleted])
      (hrule : settings.registry.find? (settings.keyFor entry) = some rule)
      (hsplit : entry.recorded = earlier ++ property :: later)
      (hearlier : rule.recordAll earlier TrackedProperties.empty = .ok recorded)
      (hfails : rule.record property.name property.value recorded = .error e) :
      Refuses settings entry e

theorem exists_ofState?_iff {state : EntityState} :
    (∃ action, AuditAction.ofState? state = some action) ↔
      state ∈ [.added, .modified, .deleted] := by
  cases state <;> simp [AuditAction.ofState?]

theorem ofState?_eq_none_iff {state : EntityState} :
    AuditAction.ofState? state = none ↔
      state ∉ [.added, .modified, .deleted] := by
  rw [← exists_ofState?_iff, Option.eq_none_iff_forall_ne_some, not_exists]

theorem filter_isEligible {action : AuditAction}
    (haction : AuditAction.ofState? entry.state = some action) :
    entry.properties.filter (EntityRule.isEligible action) =
      entry.recorded := by
  refine List.filter_congr fun property _ => ?_
  unfold EntityRule.isEligible
  cases hstate : entry.state <;>
    rw [hstate] at haction <;> cases haction <;> rfl

/-- What is recorded of an entry, reason by reason. -/
theorem plan_eq (settings : CoordinatorSettings) (entry : TrackedEntry) :
    settings.plan entry =
      match AuditAction.ofState? entry.state,
          settings.registry.find? (settings.keyFor entry) with
      | none, _ => .error (.invalidState entry.entityType entry.state)
      | some _, none => .error (.missingRule (settings.keyFor entry))
      | some action, some rule =>
        (rule.recordAll entry.recorded TrackedProperties.empty).map
          (⟨action, rule.displayName.getD entry.entityType, rule.permission,
            ·⟩) := by
  rw [plan, AuditAction.ofState]
  cases haction : AuditAction.ofState? entry.state with
  | none => rfl
  | some action =>
      have hresolve : settings.registry.resolve entry.entityType
          settings.scope =
          settings.registry.resolveKey (settings.keyFor entry) := rfl
      rw [hresolve, RuleRegistry.resolveKey]
      cases settings.registry.find? (settings.keyFor entry) with
      | none => rfl
      | some rule =>
          simp only [bind, Except.bind, filter_isEligible haction]
          cases rule.recordAll entry.recorded TrackedProperties.empty <;> rfl

/-- Recording fails at the first property that the rules cannot record. -/
theorem recordAll_eq_error_iff {rule : EntityRule}
    {properties : List PropertyEntry} :
    ∀ {before : TrackedProperties},
      rule.recordAll properties before = .error e ↔
      ∃ earlier property later recorded,
        properties = earlier ++ property :: later ∧
        rule.recordAll earlier before = .ok recorded ∧
        rule.record property.name property.value recorded = .error e := by
  induction properties with
  | nil =>
      intro before
      refine ⟨nofun, ?_⟩
      rintro ⟨earlier, property, later, recorded, hsplit, -⟩
      exact absurd hsplit.symm
        (List.append_ne_nil_of_right_ne_nil _ (List.cons_ne_nil _ _))
  | cons first rest ih =>
      intro before
      rw [EntityRule.recordAll]
      cases hfirst : rule.record first.name first.value before with
      | error other =>
          constructor
          · rintro ⟨⟩
            exact ⟨[], first, rest, before, rfl, rfl, hfirst⟩
          · rintro ⟨earlier, property, later, recorded, hsplit,
              hearlier, hfails⟩
            cases earlier with
            | nil =>
                cases hsplit
                cases hearlier
                exact hfirst.symm.trans hfails
            | cons _ earlier =>
                cases hsplit
                rw [EntityRule.recordAll, hfirst] at hearlier
                cases hearlier
      | ok after =>
          refine ih.trans ⟨?_, ?_⟩
          · rintro ⟨earlier, property, later, recorded, rfl, hearlier, hfails⟩
            refine ⟨first :: earlier, property, later, recorded,
              rfl, ?_, hfails⟩
            rwa [EntityRule.recordAll, hfirst]
          · rintro ⟨earlier, property, later, recorded, hsplit,
              hearlier, hfails⟩
            cases earlier with
            | nil =>
                cases hsplit
                cases hearlier
                rw [hfirst] at hfails
                cases hfails
            | cons _ earlier =>
                cases hsplit
                rw [EntityRule.recordAll, hfirst] at hearlier
                exact ⟨earlier, property, later, recorded, rfl,
                  hearlier, hfails⟩

theorem plan_eq_ok_iff {planned : PlannedCapture} :
    settings.plan entry = .ok planned ↔ settings.Accepts entry planned := by
  rw [plan_eq]
  constructor
  · intro hplan
    split at hplan
    · cases hplan
    · cases hplan
    · next action rule haction hrule =>
        cases hrecorded : rule.recordAll entry.recorded
            TrackedProperties.empty with
        | error other => rw [hrecorded] at hplan; cases hplan
        | ok properties =>
            rw [hrecorded] at hplan
            cases hplan
            exact ⟨haction, rule, hrule, rfl, rfl, hrecorded⟩
  · rintro ⟨haction, rule, hrule, hname, hpermission, hrecorded⟩
    rw [haction, hrule]
    simp only [hrecorded, Except.map, ← hname, ← hpermission]

/-- An entry that the rules do not accept is refused, for one reason. -/
theorem plan_eq_error_iff :
    settings.plan entry = .error e ↔ settings.Refuses entry e := by
  rw [plan_eq]
  constructor
  · intro hplan
    split at hplan
    · next hnone =>
        cases hplan
        exact .state (ofState?_eq_none_iff.mp hnone)
    · next action haction hmissing =>
        cases hplan
        exact .missing (exists_ofState?_iff.mp ⟨action, haction⟩)
          (RuleRegistry.find?_eq_none_iff.mp hmissing)
    · next action rule haction hrule =>
        cases hrecorded : rule.recordAll entry.recorded
            TrackedProperties.empty with
        | error other =>
            rw [hrecorded] at hplan
            cases hplan
            obtain ⟨earlier, property, later, recorded, hsplit,
                hearlier, hfails⟩ :=
              recordAll_eq_error_iff.mp hrecorded
            exact .property (exists_ofState?_iff.mp ⟨action, haction⟩) hrule
              hsplit hearlier hfails
        | ok properties => rw [hrecorded] at hplan; cases hplan
  · rintro (hstate | ⟨hstate, hmissing⟩ | ⟨hstate, hrule, hsplit,
      hearlier, hfails⟩)
    · rw [ofState?_eq_none_iff.mpr hstate]
    · obtain ⟨action, haction⟩ := exists_ofState?_iff.mpr hstate
      rw [haction, RuleRegistry.find?_eq_none_iff.mpr hmissing]
    · obtain ⟨action, haction⟩ := exists_ofState?_iff.mpr hstate
      rw [haction, hrule]
      simp only [recordAll_eq_error_iff.mpr ⟨_, _, _, _, hsplit,
        hearlier, hfails⟩, Except.map]

theorem Accepts.not_refuses {planned : PlannedCapture}
    (accepts : settings.Accepts entry planned) :
    ¬ settings.Refuses entry e := by
  intro refuses
  have hplan := plan_eq_ok_iff.mpr accepts
  rw [plan_eq_error_iff.mpr refuses] at hplan
  cases hplan

/-- A capture of an entry that the rules accepted. -/
def CapturedAs (settings : CoordinatorSettings) (entry : TrackedEntry)
    (c : Capture) : Prop :=
  ∃ planned key, settings.Accepts entry planned ∧
    c = planned.capture entry.entity key c.id c.timestamp

end CoordinatorSettings

/-- A snapshot that is captured has one capture for each audited entry. -/
theorem Captured.forall₂ {settings : CoordinatorSettings}
    {entries : List TrackedEntry} {asked : History} {captures : List Capture}
    (captured : Captured settings entries asked captures) :
    List.Forall₂ settings.CapturedAs (entries.filter settings.audits)
      captures := by
  induction captured with
  | nil => exact .nil
  | skipped haudits _ ih =>
      rw [List.filter_cons_of_neg (by simp [haudits])]
      exact ih
  | created id time haudits hplan _ _ ih
  | known _ id time haudits hplan _ _ ih =>
      rw [List.filter_cons_of_pos haudits]
      exact .cons ⟨_, _, CoordinatorSettings.plan_eq_ok_iff.mp hplan, rfl⟩ ih

theorem filter_audits (settings : CoordinatorSettings)
    (entries : List TrackedEntry) :
    entries.filter settings.audits = entries.filter fun entry =>
      settings.Audits entry :=
  List.filter_congr fun entry _ => by
    rw [Bool.eq_iff_iff, CoordinatorSettings.audits_iff, decide_eq_true_eq]

theorem Captured.accepts {settings : CoordinatorSettings}
    {entries : List TrackedEntry} {asked : History} {captures : List Capture}
    (captured : Captured settings entries asked captures) :
    ∀ entry ∈ entries.filter fun entry => settings.Audits entry,
      ∃ planned, settings.Accepts entry planned := by
  have hall := captured.forall₂
  rw [filter_audits] at hall
  refine ((List.forall₂_and_left (R := settings.CapturedAs) _ captures).mp
    (hall.imp ?_)).1
  intro entry c hcaptured
  refine ⟨?_, hcaptured⟩
  obtain ⟨planned, -, accepts, -⟩ := hcaptured
  exact ⟨planned, accepts⟩

/-- A snapshot is refused for the first audited entry that is. -/
theorem refused_iff {settings : CoordinatorSettings}
    {entries : List TrackedEntry} {e : AuditError} :
    (entries.filter settings.audits).mapM settings.plan = .error e ↔
      ∃ pre entry post,
        (entries.filter fun entry => settings.Audits entry) = pre ++
          entry :: post ∧
        (∀ other ∈ pre, ∃ planned, settings.Accepts other planned) ∧
        settings.Refuses entry e := by
  simp only [mapM_eq_error_iff, filter_audits,
    CoordinatorSettings.plan_eq_ok_iff, CoordinatorSettings.plan_eq_error_iff]

theorem not_refused {settings : CoordinatorSettings}
    {entries : List TrackedEntry} {e : AuditError}
    (hall : ∀ entry ∈ entries.filter fun entry => settings.Audits entry,
      ∃ planned, settings.Accepts entry planned) :
    (entries.filter settings.audits).mapM settings.plan ≠ .error e := by
  intro hrefused
  obtain ⟨pre, entry, post, hsplit, -, refuses⟩ := refused_iff.mp hrefused
  obtain ⟨planned, accepts⟩ := hall entry (by rw [hsplit]; simp)
  exact accepts.not_refuses refuses

/-! ## The verdict of a start -/

namespace Coordinating

variable {during : Interlude} {settings : CoordinatorSettings}
  {s : CoordinatorState} {h : History}

/-- No transaction is opened: there is one, or the coordinator is not set up to
open any. -/
def OpensNone (settings : CoordinatorSettings) (h : History) : Prop :=
  settings.options.autoOpenTransaction = false ∨ FirstSeen (· ≠ none) h

theorem OpensNone.of_append {h later : History}
    (opens : OpensNone settings (h ++ later)) :
    OpensNone settings h :=
  opens.imp_right FirstSeen.of_append

theorem joinTransaction_opensNone (context : String) (hunseen : seen h = []) :
    (joinTransaction settings context s).Ensures during
      (fun h' outcome s' => OpensNone settings h' → outcome = .ok () ∧
        (∃ current, h' = h ++ [.asked .currentTransaction current]) ∧
        ∃ transactionPhase,
          s' = { s with transactionPhase := transactionPhase }) h := by
  unfold joinTransaction
  rw [ensures_bind, ensures_ask]
  intro current
  cases current with
  | some tx =>
      simp only []
      rw [ensures_bind, ensures_change]
      refine fun _ => ⟨rfl, ⟨_, rfl⟩, ?_⟩
      split
      · exact ⟨s.transactionPhase, rfl⟩
      · exact ⟨.opened, rfl⟩
  | none =>
      simp only []
      split
      · next hopens =>
          refine Exchange.ensures_suppose (fun _ _ => OpensNone.of_append)
            fun opens => ?_
          rcases opens with hnever | hseen
          · rw [hnever] at hopens
            cases hopens
          · refine absurd rfl (hseen none ?_)
            rw [seen_append, hunseen]
            rfl
      · exact fun _ => ⟨rfl, ⟨_, rfl⟩, s.transactionPhase, rfl⟩

/-- A start that opens no transaction asks for a snapshot and captures it or
refuses it. -/
theorem startCollecting_verdict (context : String)
    (hidle : s.commitInProgress = false) :
    (startCollecting settings context s).Ensures during
      (fun h outcome s' => OpensNone settings h →
        h.head? = some (.asked .isCancelled false) →
        ∃ current entries asked transactionPhase,
          h = .asked .isCancelled false :: .asked .currentTransaction current ::
            .asked .entries entries :: asked ∧ Reads asked ∧
          ((∃ captures, outcome = .ok () ∧
              Captured settings entries asked captures ∧
              s' = { s with
                phase := .awaitingWrite, transactionPhase := transactionPhase
                captures := CoordinatorState.mergeCaptures s.captures
                  captures }) ∨
            ∃ e, outcome = .error e ∧
              (entries.filter settings.audits).mapM settings.plan = .error e ∧
              s' = { s with phase := .idle,
                            transactionPhase := transactionPhase })) [] := by
  refine startCollecting_ensures (fun _ hadmitted => by cases hadmitted)
    (fun hbusy => by rw [hidle] at hbusy; cases hbusy) fun _ => ?_
  refine (joinTransaction_opensNone context rfl).mono ?_
  intro h joined s' hjoined
  cases joined with
  | error e => exact fun opens => nomatch (hjoined opens).1
  | ok u =>
      intro entries asked captured hreads verdict opens
      obtain ⟨-, ⟨current, rfl⟩, transactionPhase, rfl⟩ :=
        hjoined opens.of_append
      cases captured with
      | ok captures =>
          exact fun _ =>
            ⟨current, entries, asked, transactionPhase, rfl, hreads,
              .inl ⟨captures, rfl, verdict, rfl⟩⟩
      | error e =>
          exact fun _ =>
            ⟨current, entries, asked, transactionPhase, rfl, hreads,
              .inr ⟨e, rfl, verdict, rfl⟩⟩

end Coordinating

/-- A start looks at the token and the transaction before it reads. -/
theorem readings_started {current : Option TransactionId}
    {entries : List TrackedEntry} {asked : History} (reads : Reads asked) :
    readings (.asked .isCancelled false :: .asked .currentTransaction current ::
      .asked .entries entries :: asked) = .asked .entries entries :: asked := by
  have hread : Reads (.asked .entries entries :: asked) :=
    reads_cons trivial reads
  exact hread.readings_eq

namespace Sample

/-- Orders have rules for no scope, invoices only for another one. -/
def twoScopes : CoordinatorSettings :=
  ⟨⟨"String", [(⟨"Order", "String", none⟩, EntityRule.verbatim "Order" "sales"),
    (⟨"Invoice", "String", some "eu"⟩,
      EntityRule.verbatim "Invoice" "billing")]⟩, ⟨false⟩, none⟩

/-- A note that is not audited, two orders of which one is unchanged, an
invoice, and an order in a state that is not written. -/
def assorted : List TrackedEntry :=
  [⟨⟨1⟩, "Note", .added, []⟩, ⟨⟨2⟩, "Order", .added, []⟩,
    ⟨⟨3⟩, "Order", .unchanged, []⟩, ⟨⟨4⟩, "Invoice", .added, []⟩,
    ⟨⟨5⟩, "Order", .detached, []⟩]

/-- A unit of work that lists these entries. -/
def listing (entries : List TrackedEntry) : Company :=
  { company none (order 2) undisturbed with
    answers := fun
      | .entries => entries
      | query => (company none (order 2) undisturbed).answers query }

end Sample

end AuditTrail

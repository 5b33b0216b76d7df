import AuditTrail.Proofs.Coordinator.Accounting
import AuditTrail.Proofs.Coordinator.Course

/-!
# Whose records a commit delivers

The batch is one list, and a commit delivers all of it. So a record reaches
the consumer if the first turn to empty the batch after its promotion is a
commit, whichever transaction that commit is of. This file follows a record
from its promotion to its delivery and draws the conclusion for the rule that
only records of committed transactions are delivered: the rule holds of a life
of a unit of work exactly if no commit comes upon a batch to which an earlier
transaction that is not committed has contributed. Nothing in the coordinator
makes it so; a transaction that is rolled back without notice breaks the rule
unless something empties the batch before the next commit.
-/

namespace AuditTrail

open Coordinating Coordinator History

/-! ## What a turn does to the batch -/

def Call.ended? : Call → Option TransactionStatus
  | .finished _ status => some status
  | _ => none

/-- The ends of transactions that were reported to the consumer. -/
def History.ended (h : History) : List TransactionStatus :=
  (calls h).filterMap Call.ended?

theorem ended_of_calls {h : History} {made : List Call}
    (hcalls : calls h = made) :
    ended h = made.filterMap Call.ended? := by rw [ended, hcalls]

@[simp] theorem ended?_consuming (records : List AuditRecord) :
    (consuming records).filterMap Call.ended? = [] := by
  unfold consuming slices
  split <;> rfl

@[simp] theorem ended?_announcing (records : List AuditRecord)
    (event : TransactionEvent) :
    (announcing records event).filterMap Call.ended? = [] := by
  unfold announcing slices
  split <;> rfl

namespace Turn

/-- The turn reports a commit to the consumer. -/
def commits (t : Turn) : Bool := (ended t.history).contains .committed

/-- The turn reports the end of a transaction, finishes a flush outside of any,
or is there to drop the batch. -/
def clears (t : Turn) : Bool :=
  !(ended t.history).isEmpty ||
    match t.made, seen t.history with
    | .clearBatch, _ => true
    | .finish _, [none] => true
    | _, _ => false

/-- What a turn does with the records that are batched before it and those it
promotes itself. -/
inductive Fate (t : Turn) : Prop where
  | kept (hclears : t.clears = false) (hdelivered : delivered t.history = [])
      (hbatch : t.after.batch = t.before.batch ++ t.promoted)
  | dropped (hclears : t.clears = true) (hcommits : t.commits = false)
      (hdelivered : delivered t.history = []) (hbatch : t.after.batch = [])
  | committed (hclears : t.clears = true) (hcommits : t.commits = true)
      (hdelivered : delivered t.history = t.before.batch ++ t.promoted)
      (hbatch : t.after.batch = [])
      (hown : t.promoted ≠ [] → ∃ tx, t.current = some tx ∧
        tx ∈ committed t.history)
  | flushed (hclears : t.clears = true) (hcommits : t.commits = false)
      (hcurrent : t.current = none)
      (hdelivered : delivered t.history = t.promoted)
      (hbatch : t.after.batch = [])

theorem delivered_of_calls {h : History} {made : List Call}
    (hcalls : calls h = made) :
    delivered h = (made.filterMap Call.delivery?).flatten := by
  rw [delivered, deliveries_of_calls hcalls]

/-- Every undisturbed turn has one of these fates. -/
theorem Taken.fate {settings : CoordinatorSettings} {t : Turn}
    (taken : t.Taken settings Interlude.quiet) : t.Fate := by
  have course := taken.course
  obtain ⟨s, made, h, outcome, s'⟩ := t
  simp only at course
  cases course with
  | refused htoken | busy htoken =>
      refine .kept ?_ rfl ?_
      · cases made <;> first | rfl | cases htoken
      · rw [promoted_unseen rfl, List.append_nil]
  | ignored hending =>
      refine .kept ?_ rfl ?_
      · cases made <;> first | rfl | cases hending
      · rw [promoted_unseen rfl, List.append_nil]
  | collected _ _ _ _ hcalls | opened _ _ _ _ hcalls =>
      refine .kept ?_ (delivered_of_calls hcalls) (List.append_nil s.batch).symm
      rw [clears, ended_of_calls hcalls]
      rfl
  | undone _ _ _ hcalls | released _ _ _ hcalls =>
      refine .dropped ?_ ?_ (delivered_of_calls hcalls) rfl
      · rw [clears, ended_of_calls hcalls]
        rfl
      · rw [commits, ended_of_calls hcalls]
        rfl
  | delivered hseen hcalls =>
      refine .flushed ?_ ?_ ?_ ?_ rfl
      · rw [clears, ended_of_calls hcalls, ended?_consuming, hseen]
        rfl
      · rw [commits, ended_of_calls hcalls, ended?_consuming]
        rfl
      · rw [current, hseen]
        rfl
      · rw [delivered_of_calls hcalls, delivery?_consuming, flatten_slices,
          promoted_finish rfl hseen]
  | batched _ hseen _ hcalls =>
      refine .kept ?_ (delivered_of_calls hcalls) ?_
      · rw [clears, ended_of_calls hcalls, hseen]
        rfl
      · rw [promoted_finish rfl hseen]
  | committed hseen _ hrecords hcommitted hcalls =>
      have hended : ended h = [.committed] := by
        rw [ended_of_calls hcalls, List.filterMap_append, ended?_announcing,
          List.nil_append, List.filterMap_cons_none rfl, List.filterMap_append,
          ended?_consuming]
        rfl
      refine .committed ?_ ?_ ?_ rfl fun _ => ⟨_, ?_, hcommitted⟩
      · rw [clears, hended]
        rfl
      · rw [commits, hended]
        rfl
      · rw [delivered_of_calls hcalls, List.filterMap_append,
          delivery?_announcing, List.nil_append, List.filterMap_cons_none rfl,
          List.filterMap_append, delivery?_consuming, promoted_finish rfl hseen,
          ← hrecords, List.flatten_append, flatten_slices]
        exact List.append_nil _
      · rw [current, hseen]
        rfl
  | failed _ hseen _ hcalls =>
      have hended : ended h = [.failed] := by
        rw [ended_of_calls hcalls, List.filterMap_append, ended?_announcing]
        rfl
      refine .dropped ?_ ?_ ?_ rfl
      · rw [clears, hended]
        rfl
      · rw [commits, hended]
        rfl
      · rw [delivered_of_calls hcalls, List.filterMap_append,
          delivery?_announcing]
        rfl
  | abandoned hmade _ hcalls =>
      refine .kept ?_ (delivered_of_calls hcalls) ?_
      · rw [clears, ended_of_calls hcalls]
        cases made <;> first | rfl | cases hmade
      · rw [promoted_other (HostCall.not_finish_of_abandoned hmade),
          List.append_nil]
  | announced hcalls =>
      refine .kept ?_ ?_ (List.append_nil s.batch).symm
      · rw [clears, ended_of_calls hcalls, ended?_announcing]
        rfl
      · rw [delivered_of_calls hcalls, delivery?_announcing]
        rfl
  | @ended _ event status _ _ hending _ hcalls =>
      have hended : ended h = [status] := by
        rw [ended_of_calls hcalls, List.filterMap_append]
        split
        · rw [ended?_consuming]
          rfl
        · rfl
      have hother := HostCall.not_finish_of_ending hending
      by_cases hstatus : status = .committed
      · refine .committed ?_ ?_ ?_ rfl fun hne =>
          absurd (promoted_other hother) hne
        · rw [clears, hended]
          rfl
        · rw [commits, hended, hstatus]
          rfl
        · rw [delivered_of_calls hcalls, if_pos hstatus, List.filterMap_append,
            delivery?_consuming, List.flatten_append, flatten_slices,
            promoted_other hother]
          rfl
      · refine .dropped ?_ ?_ ?_ rfl
        · rw [clears, hended]
          rfl
        · rw [commits, hended]
          cases status <;> first | rfl | exact absurd rfl hstatus
        · rw [delivered_of_calls hcalls, if_neg hstatus]
          rfl
  | clearedCaptures => exact .kept rfl rfl (List.append_nil s.batch).symm
  | clearedBatch => exact .dropped rfl rfl rfl rfl

theorem Taken.batch_of_clears {settings : CoordinatorSettings} {t : Turn}
    (taken : t.Taken settings Interlude.quiet) (hclears : t.clears = true) :
    t.after.batch = [] := by
  cases taken.fate with
  | kept hother => rw [hclears] at hother; cases hother
  | dropped _ _ _ hempty | committed _ _ _ hempty | flushed _ _ _ _ hempty =>
      exact hempty

theorem Taken.batch_of_keeps {settings : CoordinatorSettings} {t : Turn}
    (taken : t.Taken settings Interlude.quiet) (hclears : t.clears = false) :
    t.after.batch = t.before.batch ++ t.promoted := by
  cases taken.fate with
  | kept _ _ hkept => exact hkept
  | dropped hother | committed hother | flushed hother =>
      rw [hclears] at hother; cases hother

theorem clears_of_commits {t : Turn} (hcommits : t.commits = true) :
    t.clears = true := by
  unfold clears
  cases hended : ended t.history with
  | nil =>
      rw [commits, hended] at hcommits
      cases hcommits
  | cons => rfl

/-- A commit delivers the whole batch, whatever is in it. -/
theorem Taken.delivered_of_commits {settings : CoordinatorSettings} {t : Turn}
    (taken : t.Taken settings Interlude.quiet) (hcommits : t.commits = true) :
    delivered t.history = t.before.batch ++ t.promoted := by
  cases taken.fate with
  | kept hclears => rw [clears_of_commits hcommits] at hclears; cases hclears
  | dropped _ hother | flushed _ hother => rw [hcommits] at hother; cases hother
  | committed _ _ hdelivered => exact hdelivered

/-- A turn that empties the batch captures nothing. -/
theorem Taken.captures_of_clears {settings : CoordinatorSettings} {t : Turn}
    (taken : t.Taken settings Interlude.quiet) (hclears : t.clears = true) :
    t.after.captures = t.before.captures ∨ t.after.captures = [] := by
  have course := taken.course
  obtain ⟨s, made, h, outcome, s'⟩ := t
  simp only at course
  cases course with
  | collected _ _ _ _ hcalls | opened _ _ _ _ hcalls =>
      rw [clears, ended_of_calls hcalls] at hclears
      cases hclears
  | delivered | batched | committed | failed | abandoned | released =>
      exact .inr rfl
  | ended => exact .inl (settleOwned_captures _ s)
  | clearedCaptures => exact .inr rfl
  | _ => exact .inl rfl

/-- A turn that promotes captures keeps none. -/
theorem Taken.captures_of_promoted {settings : CoordinatorSettings} {t : Turn}
    (taken : t.Taken settings Interlude.quiet) (hpromoted : t.promoted ≠ []) :
    t.after.captures = [] := by
  have course := taken.course
  obtain ⟨s, made, h, outcome, s'⟩ := t
  simp only at course
  cases course with
  | delivered | batched | committed | failed => rfl
  | refused | busy | ignored => exact absurd (promoted_unseen rfl) hpromoted
  | abandoned hmade | released _ hmade =>
      exact absurd (promoted_other (HostCall.not_finish_of_abandoned hmade))
        hpromoted
  | ended _ hending =>
      exact absurd (promoted_other (HostCall.not_finish_of_ending hending))
        hpromoted
  | _ => exact absurd rfl hpromoted

theorem mem_captureIds_of_promoted {t : Turn} {r : AuditRecord}
    (hr : r ∈ t.promoted) :
    r.id ∈ t.before.captureIds := by
  unfold promoted at hr
  split at hr
  · rw [CoordinatorState.captureIds,
      ← id_promotions t.before.captures (keys t.history)]
    exact List.mem_map_of_mem hr
  · cases hr

end Turn

/-! ## Where a record is -/

/-- A record of the identity is in the batch, and nowhere else. -/
structure Batched (id : RecordId) (s : CoordinatorState) : Prop where
  batch : (idsOf s.batch).count id = 1
  captures : s.captureIds.count id = 0

/-- The identity is found nowhere. -/
structure Lost (id : RecordId) (s : CoordinatorState) : Prop where
  batch : (idsOf s.batch).count id = 0
  captures : s.captureIds.count id = 0

section Following

variable {settings : CoordinatorSettings} {id : RecordId}

theorem quiet_accounts : Interlude.quiet.Accounts :=
  Interlude.nested_accounts ⟨⟨"", []⟩, ⟨false⟩, none⟩ 0

theorem lost_of_empty {s : CoordinatorState} (hbatch : s.batch = [])
    (hcaptures : s.captureIds.count id = 0) : Lost id s :=
  ⟨by rw [hbatch]; rfl, hcaptures⟩

/-- A turn does not make more of an identity than it finds and is given. -/
theorem Turn.Taken.conserves {t : Turn}
    (taken : t.Taken settings Interlude.quiet) (id : RecordId) :
    t.after.captureIds.count id + (idsOf t.after.batch).count id +
        (idsOf (delivered t.history)).count id ≤
      t.before.captureIds.count id + (idsOf t.before.batch).count id +
        (issued t.history).count id := by
  have session : Session settings Interlude.quiet t.before [t] t.after :=
    .cons t taken (.nil _)
  have := session.conserves quiet_accounts id
  rw [accountOf_cons, delivered_append, issued_append, Turn.delivered_account,
    Turn.issued_account] at this
  have hnone : delivered (accountOf []) = [] ∧ issued (accountOf []) = [] :=
    ⟨rfl, rfl⟩
  rwa [hnone.1, hnone.2, List.append_nil, List.append_nil] at this

/-- What is lost is not delivered. -/
theorem Lost.session {s s' : CoordinatorState} {ts : List Turn}
    (lost : Lost id s) (session : Session settings Interlude.quiet s ts s')
    (unissued : (issued (accountOf ts)).count id = 0) :
    Lost id s' ∧ (idsOf (delivered (accountOf ts))).count id = 0 := by
  have := session.conserves quiet_accounts id
  have := lost.batch
  have := lost.captures
  exact ⟨⟨by omega, by omega⟩, by omega⟩

/-- A batched record stays in the batch until a turn empties it. -/
theorem Batched.turn {t : Turn} (batched : Batched id t.before)
    (taken : t.Taken settings Interlude.quiet)
    (unissued : (issued t.history).count id = 0) :
    (t.clears = false → Batched id t.after) ∧
      (t.clears = true → Lost id t.after) := by
  have hcount := taken.conserves id
  have hbatch := batched.batch
  have hcaptures := batched.captures
  refine ⟨fun hclears => ?_, fun hclears => ?_⟩
  · rw [taken.batch_of_keeps hclears, idsOf_append, List.count_append] at hcount
    refine ⟨?_, by omega⟩
    rw [taken.batch_of_keeps hclears, idsOf_append, List.count_append]
    omega
  · have hnone : t.after.captureIds.count id = 0 := by
      rcases taken.captures_of_clears hclears with hsame | hnone
      · rwa [CoordinatorState.captureIds, hsame]
      · rw [CoordinatorState.captureIds, hnone]
        rfl
    exact lost_of_empty (taken.batch_of_clears hclears) hnone

/-- At the end of a session a record that was batched is batched still, or a
turn emptied the batch and it is lost. -/
theorem Batched.session {s s' : CoordinatorState} {ts : List Turn}
    (batched : Batched id s)
    (session : Session settings Interlude.quiet s ts s')
    (unissued : (issued (accountOf ts)).count id = 0) :
    ((∀ t ∈ ts, t.clears = false) ∧ Batched id s') ∨ Lost id s' := by
  induction session with
  | nil s => exact .inl ⟨fun t ht => absurd ht List.not_mem_nil, batched⟩
  | cons t taken rest ih =>
      rw [accountOf_cons, issued_append, Turn.issued_account,
        List.count_append] at unissued
      obtain ⟨hkeeps, hloses⟩ := batched.turn taken (by omega)
      cases hclears : t.clears with
      | false =>
          refine (ih (hkeeps hclears) (by omega)).imp_left fun ⟨hlater, hend⟩ =>
            ⟨?_, hend⟩
          exact List.forall_mem_cons.mpr ⟨hclears, hlater⟩
      | true => exact .inr ((hloses hclears).session rest (by omega)).1

/-- A record is batched when it is promoted, unless the turn empties the batch
itself. -/
theorem Turn.Taken.promotes {t : Turn}
    (taken : t.Taken settings Interlude.quiet) {r : AuditRecord}
    (hr : r ∈ t.promoted)
    (hone : t.before.captureIds.count r.id + (idsOf t.before.batch).count r.id +
      (issued t.history).count r.id ≤ 1) :
    (t.clears = false → Batched r.id t.after) ∧
      (t.clears = true → Lost r.id t.after) := by
  have hcount := taken.conserves r.id
  have hcaptured := List.count_pos_iff.mpr (Turn.mem_captureIds_of_promoted hr)
  have hnone : t.after.captureIds.count r.id = 0 := by
    rw [CoordinatorState.captureIds,
      taken.captures_of_promoted (List.ne_nil_of_mem hr)]
    rfl
  refine ⟨fun hclears => ?_,
    fun hclears => lost_of_empty (taken.batch_of_clears hclears) hnone⟩
  have hpos : 0 < (idsOf t.after.batch).count r.id := by
    rw [taken.batch_of_keeps hclears, idsOf_append]
    exact List.count_pos_iff.mpr
      (List.mem_append_right _ (List.mem_map_of_mem hr))
  exact ⟨by omega, hnone⟩

/-- While no turn empties it, the batch only grows. -/
theorem Session.batch_grows {s s' : CoordinatorState} {ts : List Turn}
    (session : Session settings Interlude.quiet s ts s')
    (hkept : ∀ t ∈ ts, t.clears = false) {r : AuditRecord} (hr : r ∈ s.batch) :
    r ∈ s'.batch := by
  induction session with
  | nil s => exact hr
  | cons t taken rest ih =>
      refine ih (fun u hu => hkept u (List.mem_cons_of_mem t hu)) ?_
      rw [taken.batch_of_keeps (hkept t List.mem_cons_self)]
      exact List.mem_append_left _ hr

end Following

/-! ## The life of a unit of work -/

/-- A moment in the life of a unit of work: a turn of its coordinator, or
something that the host does with a transaction by itself. -/
inductive Moment where
  | turn (t : Turn)
  | opens (tx : TransactionId)
  | commits (tx : TransactionId)
  | rollsBack (tx : TransactionId)

namespace Moment

def turn? : Moment → Option Turn
  | .turn t => some t
  | _ => none

def committed : Moment → List TransactionId
  | .turn t => History.committed t.history
  | .commits tx => [tx]
  | _ => []

end Moment

def turnsOf (life : List Moment) : List Turn := life.filterMap Moment.turn?

def committedIn (life : List Moment) : List TransactionId :=
  life.flatMap Moment.committed

@[simp] theorem turnsOf_append (life later : List Moment) :
    turnsOf (life ++ later) = turnsOf life ++ turnsOf later :=
  List.filterMap_append

@[simp] theorem turnsOf_turn (t : Turn) (later : List Moment) :
    turnsOf (.turn t :: later) = t :: turnsOf later := rfl

/-- Only records of committed transactions are delivered: what is promoted
while a transaction is the current one is delivered in no turn by whose end
that transaction is not committed. -/
def DeliversOnlyCommitted (life : List Moment) : Prop :=
  ∀ before d after, life = before ++ .turn d :: after →
    ∀ t, .turn t ∈ before ++ [.turn d] → ∀ tx, t.current = some tx →
      ∀ r ∈ t.promoted, r ∈ delivered d.history →
        tx ∈ committedIn (before ++ [.turn d])

/-- Whenever a turn reports a commit, each transaction under which records were
promoted since the batch was last emptied is committed. -/
def CommitsWhatItBatched (life : List Moment) : Prop :=
  ∀ before t between d after,
    life = before ++ .turn t :: (between ++ .turn d :: after) →
    d.commits = true → ∀ tx, t.current = some tx → t.promoted ≠ [] →
      t.clears = false →
      (∀ w ∈ turnsOf between, w.clears = false) →
      tx ∈ committedIn (before ++ .turn t :: (between ++ [.turn d]))

section Lives

variable {settings : CoordinatorSettings} {life : List Moment}
  {s : CoordinatorState}

/-- A record that was promoted and that nothing has removed is delivered with
the next commit. -/
theorem commitsWhatItBatched_of_deliversOnlyCommitted
    (session : Session settings Interlude.quiet CoordinatorState.initial
      (turnsOf life) s)
    (law : DeliversOnlyCommitted life) :
    CommitsWhatItBatched life := by
  intro before t between d after hlife hcommits tx hcurrent hpromoted
    hclears hkept
  obtain ⟨r, hr⟩ := List.exists_mem_of_ne_nil _ hpromoted
  have hturns : turnsOf life = turnsOf before ++
      t :: (turnsOf between ++ d :: turnsOf after) := by
    rw [hlife, turnsOf_append, turnsOf_turn, turnsOf_append, turnsOf_turn]
  rw [hturns] at session
  obtain ⟨-, taken, rest⟩ := session.cut
  obtain ⟨hbetween, takend, -⟩ := rest.cut
  have hbatched : r ∈ t.after.batch := by
    rw [taken.batch_of_keeps hclears]
    exact List.mem_append_right _ hr
  have hdelivered : r ∈ delivered d.history := by
    rw [takend.delivered_of_commits hcommits]
    exact List.mem_append_left _ (hbetween.batch_grows hkept hbatched)
  have hsplit : life = (before ++ .turn t :: between) ++ .turn d :: after := by
    rw [hlife, List.append_assoc, List.cons_append]
  have := law _ d after hsplit t (by simp) tx hcurrent r hr hdelivered
  rwa [List.append_assoc, List.cons_append] at this

/-- A record that is delivered in a later turn than it was promoted in has been
in the batch all the time, and the turn is a commit. -/
theorem batched_until_delivered {t d : Turn} {before between after : List Turn}
    (session : Session settings Interlude.quiet CoordinatorState.initial
      (before ++ t :: (between ++ d :: after)) s)
    (fresh : (issued
      (accountOf (before ++ t :: (between ++ d :: after)))).Nodup)
    {r : AuditRecord} (hr : r ∈ t.promoted)
    (hdelivered : r ∈ delivered d.history) :
    d.commits = true ∧ t.clears = false ∧ ∀ w ∈ between, w.clears = false := by
  obtain ⟨first, taken, rest⟩ := session.cut
  obtain ⟨hbetween, takend, -⟩ := rest.cut
  have hone := List.nodup_iff_count_le_one.mp fresh r.id
  simp only [accountOf_append, accountOf_cons, issued_append, List.count_append,
    Turn.issued_account] at hone
  have hpos : 0 < (idsOf (delivered d.history)).count r.id :=
    List.count_pos_iff.mpr (List.mem_map_of_mem hdelivered)
  have hcaptured := List.count_pos_iff.mpr (Turn.mem_captureIds_of_promoted hr)
  have hbefore : t.before.captureIds.count r.id +
      (idsOf t.before.batch).count r.id +
      (idsOf (delivered (accountOf before))).count r.id ≤
        0 + 0 + (issued (accountOf before)).count r.id :=
    first.conserves quiet_accounts r.id
  have hlast := takend.conserves r.id
  -- The identity was issued before the turn that promotes it, so never again.
  obtain ⟨hkeeps, hloses⟩ := taken.promotes hr (by omega)
  have hfound : ¬ Lost r.id d.before := by
    intro lost
    have := lost.batch
    have := lost.captures
    omega
  have hclears : t.clears = false := by
    cases hclears : t.clears with
    | false => rfl
    | true =>
        exact absurd ((hloses hclears).session hbetween (by omega)).1 hfound
  rcases (hkeeps hclears).session hbetween (by omega) with
    ⟨hkept, batched⟩ | lost
  · refine ⟨?_, hclears, hkept⟩
    cases takend.fate with
    | kept _ hnone | dropped _ _ hnone =>
        rw [hnone] at hdelivered
        cases hdelivered
    | committed _ hcommits => exact hcommits
    | flushed _ _ _ hflushed =>
        rw [hflushed] at hdelivered
        have := List.count_pos_iff.mpr
          (Turn.mem_captureIds_of_promoted hdelivered)
        have := batched.captures
        omega
  · exact absurd lost hfound

/-- Only records of committed transactions are delivered exactly if no commit
comes upon records of a transaction that is not committed. The life is any in
which nobody calls the coordinator while it calls others, with any number of
transactions that the host or the coordinator opens, and whatever the host
keeps to itself; identities are not issued twice. -/
theorem delivers_only_committed_iff
    (session : Session settings Interlude.quiet CoordinatorState.initial
      (turnsOf life) s)
    (fresh : (issued (accountOf (turnsOf life))).Nodup) :
    DeliversOnlyCommitted life ↔ CommitsWhatItBatched life := by
  refine ⟨commitsWhatItBatched_of_deliversOnlyCommitted session,
    fun hcondition => ?_⟩
  intro before d after hlife t ht tx hcurrent r hr hdelivered
  rcases List.mem_append.mp ht with hearlier | hlast
  · obtain ⟨first, between, rfl⟩ := List.append_of_mem hearlier
    have hsplit : life = first ++ .turn t :: (between ++ .turn d :: after) := by
      rw [hlife, List.append_assoc, List.cons_append]
    rw [hsplit, turnsOf_append, turnsOf_turn, turnsOf_append,
      turnsOf_turn] at session fresh
    obtain ⟨hcommits, hclears, hkept⟩ :=
      batched_until_delivered session fresh hr hdelivered
    have := hcondition first t between d after hsplit hcommits tx hcurrent
      (List.ne_nil_of_mem hr) hclears hkept
    rwa [List.append_assoc, List.cons_append]
  · cases List.mem_singleton.mp hlast
    rw [hlife, turnsOf_append, turnsOf_turn] at session
    cases session.cut.2.1.fate with
    | kept _ hnone | dropped _ _ hnone =>
        rw [hnone] at hdelivered
        cases hdelivered
    | committed _ _ _ _ hown =>
        obtain ⟨own, hsame, hcommitted⟩ := hown (List.ne_nil_of_mem hr)
        cases hcurrent.symm.trans hsame
        exact List.mem_flatMap.mpr
          ⟨.turn d, List.mem_append_right _ List.mem_cons_self, hcommitted⟩
    | flushed _ _ hnone =>
        rw [hcurrent] at hnone
        cases hnone

end Lives

/-! ## A rollback that nobody reports -/

/-- The transaction that a unit of work is in after something happened. -/
def Happening.currentAfter (now : Option TransactionId) :
    Happening → Option TransactionId
  | .returned .begin (.ok tx) => some tx
  | .returned (.commit _) (.ok _) => none
  | .returned (.rollback _) (.ok _) => none
  | _ => now

/-- Whenever the coordinator asks for the current transaction, it is told the
one that the unit of work is in. -/
def toldCurrent : Option TransactionId → List Moment → Bool
  | _, [] => true
  | now, .turn t :: rest =>
      (seen t.history).all (· = now) &&
        toldCurrent (t.history.foldl Happening.currentAfter now) rest
  | _, .opens tx :: rest => toldCurrent (some tx) rest
  | _, .commits _ :: rest => toldCurrent none rest
  | _, .rollsBack _ :: rest => toldCurrent none rest

namespace Sample

/-- What the coordinator does when the host says something of an order in a
transaction. -/
def turnIn (current : Option TransactionId) (n : Nat) (made : HostCall)
    (s : CoordinatorState) : Turn :=
  Turn.inCompany (settings false) (company current (order n) undisturbed) made s

def firstCapture : Turn :=
  turnIn (some (transaction 1)) 1 (.startCollecting "req")
    CoordinatorState.initial

def firstFlush : Turn :=
  turnIn (some (transaction 1)) 1 (.finish "req") firstCapture.after

def secondCapture : Turn :=
  turnIn (some (transaction 2)) 2 (.startCollecting "req") firstFlush.after

def secondFlush : Turn :=
  turnIn (some (transaction 2)) 2 (.finish "req") secondCapture.after

def secondCommit : Turn :=
  turnIn none 2 (.transactionCommitted (notice 2)) secondFlush.after

/-- The first transaction is rolled back without notice, the second is
committed. -/
def silentRollback : List Moment :=
  [.opens (transaction 1), .turn firstCapture, .turn firstFlush,
    .rollsBack (transaction 1), .opens (transaction 2), .turn secondCapture,
    .turn secondFlush, .commits (transaction 2),
    .turn secondCommit]

theorem silentRollback_session :
    Session (settings false) Interlude.quiet CoordinatorState.initial
      (turnsOf silentRollback) secondCommit.after := by
  have taken : ∀ current n made s,
      (turnIn current n made s).Taken (settings false) Interlude.quiet :=
    fun current n made s => Turn.taken_inCompany
      (undisturbed_within (settings false) current (order n) 0) made s
  exact .cons firstCapture (taken _ _ _ _) <|
    .cons firstFlush (taken _ _ _ _) <|
    .cons secondCapture (taken _ _ _ _) <|
    .cons secondFlush (taken _ _ _ _) <|
    .cons secondCommit (taken _ _ _ _) (.nil _)

theorem silentRollback_batched : ¬ CommitsWhatItBatched silentRollback := by
  intro hcondition
  have hcommitted :=
    hcondition [.opens (transaction 1), .turn firstCapture] firstFlush
      [.rollsBack (transaction 1), .opens (transaction 2), .turn secondCapture,
        .turn secondFlush, .commits (transaction 2)]
      secondCommit [] rfl (by decide +kernel) (transaction 1)
      (by decide +kernel) ?_ (by decide +kernel) (by decide +kernel)
  · revert hcommitted
    decide +kernel
  · intro hnone
    have : firstFlush.promoted.length = 1 := by decide +kernel
    rw [hnone] at this
    cases this

end Sample

theorem delivers_only_committed_iff_silent :
    (issued (accountOf (turnsOf Sample.silentRollback))).Nodup ∧
      (DeliversOnlyCommitted Sample.silentRollback ↔
        CommitsWhatItBatched Sample.silentRollback) := by
  have fresh : (issued (accountOf (turnsOf Sample.silentRollback))).Nodup := by
    decide +kernel
  exact ⟨fresh, delivers_only_committed_iff Sample.silentRollback_session fresh⟩

/-- A record of a transaction that was rolled back without notice is delivered
with the commit of the next one. -/
theorem silent_rollback_delivered :
    Session (Sample.settings false) Interlude.quiet CoordinatorState.initial
        (turnsOf Sample.silentRollback) Sample.secondCommit.after ∧
      (issued (accountOf (turnsOf Sample.silentRollback))).Nodup ∧
      (∀ t ∈ turnsOf Sample.silentRollback, uncancelled t.history) ∧
      toldCurrent none Sample.silentRollback ∧
      committedIn Sample.silentRollback = [Sample.transaction 2] ∧
      ¬ DeliversOnlyCommitted Sample.silentRollback := by
  have session := Sample.silentRollback_session
  refine ⟨session, by decide +kernel, by decide +kernel, by decide +kernel,
    by decide +kernel, ?_⟩
  intro law
  exact Sample.silentRollback_batched
    (commitsWhatItBatched_of_deliversOnlyCommitted session law)

end AuditTrail

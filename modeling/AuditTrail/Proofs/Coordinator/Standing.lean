import AuditTrail.Proofs.Coordinator.Attribution

/-!
# What the transaction phase tells

The transaction phase is a note that the coordinator keeps from turn to turn. A
start that finds a transaction or opens one notes that it is there, and so does
the word that one is about to be committed. Whatever ends a transaction notes
that it is over. Everything else leaves the note as it is, and a flush that is
finished in a transaction only puts one where there was none.

So what the phase tells is what was noted last (`Session.over_iff`), however
long ago. If a transaction is opened after the start, or there was no start
since the one before it ended, the records of the flush are batched while the
phase still tells how the one before it ended.
-/

namespace AuditTrail

open Coordinating Coordinator History

namespace Turn

/-- What a turn notes about the transaction. -/
def notes? (t : Turn) : Option Standing :=
  if (ended t.history).isEmpty then
    match t.made with
    | .startCollecting _ => if finds t.history then some .live else none
    | .transactionCommitting _ =>
      match t.history.head? with
      | some (.asked .isCancelled false) => some .live
      | _ => none
    | _ => none
  else some .over

theorem over_iff_of_ended {t : Turn} (hended : ended t.history ≠ [])
    (hstands : t.after.transactionPhase.standing? = some .over) :
    t.after.transactionPhase.standing? = some .over ↔
      t.notes?.or t.before.transactionPhase.standing? = some .over := by
  have hnotes : t.notes? = some .over :=
    if_neg fun hnone => hended (List.isEmpty_iff.mp hnone)
  rw [hstands, hnotes, Option.some_or]

theorem over_iff_of_still {t : Turn} (hnotes : t.notes? = none)
    (hstill : t.after.transactionPhase = t.before.transactionPhase) :
    t.after.transactionPhase.standing? = some .over ↔
      t.notes?.or t.before.transactionPhase.standing? = some .over := by
  rw [hstill, hnotes, Option.none_or]

/-- What a turn notes, or else was noted before it, is what the phase tells
afterwards, as far as it tells that a transaction is over. -/
theorem Taken.over_iff {settings : CoordinatorSettings} {t : Turn}
    (taken : t.Taken settings Interlude.quiet)
    (hidle : t.before.commitInProgress = false) :
    t.after.transactionPhase.standing? = some .over ↔
      t.notes?.or t.before.transactionPhase.standing? = some .over := by
  have course := taken.course
  obtain ⟨s, made, h, outcome, s'⟩ := t
  simp only at course hidle
  cases course with
  | refused => exact over_iff_of_still (by cases made <;> rfl) rfl
  | busy _ hbusy => rw [hidle] at hbusy; cases hbusy
  | ignored hending =>
      refine over_iff_of_still ?_ rfl
      cases made <;> first | rfl | cases hending
  | collected _ _ _ _ hcalls hstands | opened _ _ _ _ hcalls _ hstands =>
      rw [notes?, ended_of_calls hcalls, hstands]
      cases finds h <;> rfl
  | undone _ _ _ hcalls hstands | released _ _ _ hcalls hstands =>
      refine over_iff_of_ended ?_ hstands
      rw [ended_of_calls hcalls]
      exact List.cons_ne_nil _ _
  | delivered _ hcalls =>
      refine over_iff_of_still ?_ rfl
      rw [notes?, ended_of_calls hcalls, ended?_consuming]
      rfl
  | batched _ _ _ hcalls hstands =>
      have hnotes (context : String) (s' : CoordinatorState) :
          notes? ⟨s, .finish context, h, outcome, s'⟩ = none := by
        rw [notes?, ended_of_calls hcalls]
        rfl
      rw [hstands, hnotes, Option.none_or]
      cases s.transactionPhase <;> decide
  | committed _ _ _ _ hcalls =>
      refine over_iff_of_ended ?_ rfl
      rw [ended_of_calls hcalls, List.filterMap_append, ended?_announcing,
        List.nil_append, List.filterMap_cons_none rfl, List.filterMap_append,
        ended?_consuming]
      exact List.cons_ne_nil _ _
  | failed _ _ _ hcalls _ hstands =>
      refine over_iff_of_ended ?_ hstands
      rw [ended_of_calls hcalls, List.filterMap_append, ended?_announcing]
      exact List.cons_ne_nil _ _
  | abandoned hmade _ hcalls =>
      refine over_iff_of_still ?_ rfl
      rw [notes?, ended_of_calls hcalls]
      cases made <;> first | rfl | cases hmade
  | announced hcalls hadmitted =>
      rw [notes?, ended_of_calls hcalls, ended?_announcing, hadmitted]
      rfl
  | ended _ _ _ hcalls hstands =>
      refine over_iff_of_ended ?_ hstands
      rw [ended_of_calls hcalls, List.filterMap_append]
      exact List.append_ne_nil_of_right_ne_nil _ (List.cons_ne_nil _ _)
  | clearedCaptures | clearedBatch => exact over_iff_of_still rfl rfl

end Turn

/-- The notes that turns make about the transaction. -/
def notesOf (ts : List Turn) : List Standing := ts.filterMap Turn.notes?

theorem last_note_cons (t : Turn) (ts : List Turn) :
    (notesOf (t :: ts)).getLast? = (notesOf ts).getLast?.or t.notes? := by
  rw [notesOf, notesOf, List.filterMap_cons]
  cases t.notes? with
  | none => rw [Option.or_none]
  | some note => rw [List.getLast?_cons, Option.or_some]

theorem Session.over_iff {settings : CoordinatorSettings} {ts : List Turn}
    {s s' : CoordinatorState}
    (session : Session settings Interlude.quiet s ts s')
    (hidle : s.commitInProgress = false) :
    s'.transactionPhase.standing? = some .over ↔
      (notesOf ts).getLast?.or s.transactionPhase.standing? = some .over := by
  induction session with
  | nil s => rfl
  | cons t taken rest ih =>
      rw [ih (taken.course.idle hidle), last_note_cons, Option.or_assoc]
      have hturn := taken.over_iff hidle
      cases (notesOf _).getLast? with
      | none => exact hturn
      | some note => rw [Option.some_or, Option.some_or]

/-- Records of a flush that is finished in a transaction of the host are
batched, and the phase is one of a transaction that is there exactly if the last
that was noted of any transaction is not that it is over. -/
theorem batched_phase_live_iff {settings : CoordinatorSettings}
    {past : List Turn} {t : Turn} {context : String} {tx : TransactionId}
    (session : Session settings Interlude.quiet CoordinatorState.initial
      past t.before)
    (taken : t.Taken settings Interlude.quiet)
    (hmade : t.made = .finish context) (hcurrent : t.current = some tx)
    (hother : t.before.owned ≠ some tx) :
    t.after.batch = t.before.batch ++ t.promoted ∧
      ((t.after.transactionPhase = .opened ∨
        t.after.transactionPhase = .committing) ↔
        (notesOf past).getLast? ≠ some .over) := by
  have hidle : t.before.commitInProgress = false := session.idle rfl
  have hpast : t.before.transactionPhase.standing? = some .over ↔
      (notesOf past).getLast? = some .over := by
    rw [session.over_iff rfl]
    exact iff_of_eq (congrArg (· = _) Option.or_none)
  have course := taken.course
  obtain ⟨s, made, h, outcome, s'⟩ := t
  simp only at *
  subst hmade
  cases course with
  | refused => cases hcurrent
  | busy _ hbusy => rw [hidle] at hbusy; cases hbusy
  | delivered hseen =>
      rw [Turn.current, hseen] at hcurrent
      cases hcurrent
  | batched _ hseen _ _ hstands =>
      rw [Turn.promoted_finish rfl hseen, ← TransactionPhase.standing?_eq_live,
        hstands, ne_eq, ← hpast]
      refine ⟨rfl, ?_⟩
      cases s.transactionPhase <;> decide
  | committed hseen howned | failed _ hseen howned =>
      rw [Turn.current, hseen] at hcurrent
      cases hcurrent
      exact absurd howned hother
  | ignored hending | ended _ hending => cases hending
  | abandoned habandoned | released _ habandoned => cases habandoned

namespace Sample

def firstEnd : Turn :=
  turnIn none 1 (.transactionCommitted (notice 1)) firstFlush.after

/-- A second start, after the end of the first transaction, and before the
second is opened or after that. -/
def laterCapture (inside : Bool) : Turn :=
  turnIn (if inside then some (transaction 2) else none) 2
    (.startCollecting "req") firstEnd.after

/-- The second flush is finished in the second transaction. -/
def laterFlush (inside : Bool) : Turn :=
  turnIn (some (transaction 2)) 2 (.finish "req") (laterCapture inside).after

/-- The first transaction ends, and the second is opened before the start or
after it. -/
def twoTransactions (inside : Bool) : List Moment :=
  [.opens (transaction 1), .turn firstCapture, .turn firstFlush,
    .commits (transaction 1), .turn firstEnd] ++
  (if inside then [.opens (transaction 2), .turn (laterCapture inside)]
    else [.turn (laterCapture inside), .opens (transaction 2)]) ++
  [.turn (laterFlush inside)]

def beforeFlush (inside : Bool) : List Turn :=
  [firstCapture, firstFlush, firstEnd, laterCapture inside]

theorem twoTransactions_session (inside : Bool) :
    Session (settings false) Interlude.quiet CoordinatorState.initial
      (beforeFlush inside ++ [laterFlush inside])
      (laterFlush inside).after := by
  have taken : ∀ current n made s,
      (turnIn current n made s).Taken (settings false) Interlude.quiet :=
    fun current n made s => Turn.taken_inCompany
      (undisturbed_within (settings false) current (order n) 0) made s
  exact .cons firstCapture (taken _ _ _ _) <|
    .cons firstFlush (taken _ _ _ _) <|
    .cons firstEnd (taken _ _ _ _) <|
    .cons (laterCapture inside) (taken _ _ _ _) <|
    .cons (laterFlush inside) (taken _ _ _ _) (.nil _)

end Sample

/-- The second start is in the second transaction, so the phase tells that it is
open when the records of the flush are batched. -/
theorem batched_phase_live_inside :
    (notesOf (Sample.beforeFlush true)).getLast? = some .live ∧
      ((Sample.laterFlush true).after.transactionPhase = .opened ∨
        (Sample.laterFlush true).after.transactionPhase = .committing) := by
  have hnotes : (notesOf (Sample.beforeFlush true)).getLast? = some .live := by
    decide +kernel
  have hcurrent : (Sample.laterFlush true).current =
      some (Sample.transaction 2) := by
    decide +kernel
  obtain ⟨hpast, htaken, -⟩ := (Sample.twoTransactions_session true).cut
  have hlive :=
    batched_phase_live_iff hpast htaken rfl hcurrent (by decide +kernel)
  exact ⟨hnotes, hlive.2.mpr (by rw [hnotes]; decide)⟩

/-- The second start comes before the second transaction is opened, so the
record of the flush is batched in it while the phase tells that the first one
was committed. -/
theorem batched_phase_stale :
    let life := Sample.twoTransactions false
    let t := Sample.laterFlush false
    Session (Sample.settings false) Interlude.quiet CoordinatorState.initial
        (turnsOf life)
        t.after ∧
      (∀ u ∈ turnsOf life, uncancelled u.history) ∧ toldCurrent none life ∧
      t.made = .finish "req" ∧ t.current = some (Sample.transaction 2) ∧
      t.before.owned = none ∧ t.promoted.length = 1 ∧ t.after.batch.length = 1 ∧
      committedIn life = [Sample.transaction 1] ∧
        t.after.transactionPhase = .committed := by
  intro life t
  exact ⟨Sample.twoTransactions_session false, by decide +kernel,
    by decide +kernel, rfl, by decide +kernel, by decide +kernel,
    by decide +kernel, by decide +kernel, by decide +kernel,
    by decide +kernel⟩

end AuditTrail

import AuditTrail.Proofs.Coordinator.Course
import AuditTrail.Proofs.Coordinator.Transcript

/-!
# What a turn reads

A turn asks about changes for one thing only. So the readings of a start that
succeeds are a transcript of its capture, those of a flush that is finished
are a transcript of its promotion, and what a start captured can be read off
its history (`Turn.captured`). No other turn takes captures in.
-/

namespace AuditTrail

open Coordinating Coordinator History

/-! ## The first transaction that is seen -/

/-- The first current transaction that was answered is like this, if one was. -/
def History.FirstSeen (p : Option TransactionId → Prop) (h : History) : Prop :=
  ∀ current, (seen h).head? = some current → p current

namespace History.FirstSeen

variable {p : Option TransactionId → Prop} {h later : History}

theorem of_append (first : FirstSeen p (h ++ later)) : FirstSeen p h := by
  intro current hcurrent
  refine first current ?_
  rw [seen_append, List.head?_append, hcurrent]
  rfl

theorem of_current {t : Turn} (hcurrent : p t.current) :
    FirstSeen p t.history := by
  intro current hfirst
  rwa [Turn.current, hfirst] at hcurrent

end History.FirstSeen

/-! ## Turns that read -/

section Turns

variable {s : CoordinatorState} {h : History}

theorem releaseOwned_readings (context : String) {tx : TransactionId}
    (howned : s.owned = some tx) :
    (releaseOwned context s).Ensures Interlude.quiet
      (fun h' _ s' => readings h' = readings h ∧
        s'.captures = s.captures) h := by
  refine (releaseOwned_quiet context howned).mono ?_
  intro h' u s' hpost
  obtain ⟨q, phase, rfl, hq, -, -, rfl⟩ := hpost
  rw [readings_append, hq.readings_eq, List.append_nil]
  exact ⟨rfl, rfl⟩

theorem openOwned_readings (context : String) :
    (openOwned context s).Ensures Interlude.quiet
      (fun h' _ s' => readings h' = readings h ∧
        s'.captures = s.captures) h := by
  have hcall : ∀ answer,
      readings (h ++ [.called .begin, .returned .begin answer]) =
        readings h := by
    intro answer
    rw [readings_append]
    exact List.append_nil _
  unfold openOwned
  rw [ensures_bind]
  refine call_quiet fun answer => ?_
  cases answer with
  | error e => exact ⟨hcall _, rfl⟩
  | ok tx =>
      simp only []
      rw [ensures_bind, ensures_log, ensures_bind]
      refine (own_ensures _ tx _ _).mono ?_
      intro h' u s' hpost
      obtain ⟨rfl, rfl⟩ := hpost
      rw [ensures_bind, ensures_ask]
      intro cancelled
      have hasked : readings
          (h ++ [.called .begin, .returned .begin (.ok tx)] ++
          [.asked .isCancelled cancelled]) = readings h := by
        rw [readings_append, hcall]
        exact List.append_nil _
      cases cancelled with
      | false => exact ⟨hasked, rfl⟩
      | true =>
          simp only [if_true]
          rw [ensures_bind]
          refine (releaseOwned_readings context rfl).mono ?_
          intro h' u s' hpost
          exact ⟨hpost.1.trans hasked, hpost.2⟩

theorem joinTransaction_readings (settings : CoordinatorSettings)
    (context : String) :
    (joinTransaction settings context s).Ensures Interlude.quiet
      (fun h' _ s' => readings h' = readings h ∧
        s'.captures = s.captures) h := by
  unfold joinTransaction
  rw [ensures_bind, ensures_ask]
  intro current
  have hasked : readings (h ++ [.asked .currentTransaction current]) =
      readings h := by
    rw [readings_append]
    exact List.append_nil _
  cases current with
  | some tx =>
      simp only []
      rw [ensures_bind, ensures_change]
      split <;> exact ⟨hasked, rfl⟩
  | none =>
      simp only []
      split
      · refine (openOwned_readings context).mono ?_
        intro h' outcome s' hpost
        exact ⟨hpost.1.trans hasked, hpost.2⟩
      · exact ⟨hasked, rfl⟩

/-- A start that succeeds reads a snapshot and takes its captures in, unless it
does nothing. -/
theorem startCollecting_captured (settings : CoordinatorSettings)
    (context : String) (s : CoordinatorState) :
    (startCollecting settings context s).Ensures Interlude.quiet
      (fun h outcome s' =>
        (∃ entries asked captures, outcome = .ok () ∧
          readings h = .asked .entries entries :: asked ∧
          Captured settings entries asked captures ∧
          s'.captures = CoordinatorState.mergeCaptures s.captures captures) ∨
        (outcome = .ok () → readings h = []) ∧
          s'.captures = s.captures) [] := by
  refine startCollecting_ensures (.inr ⟨nofun, rfl⟩)
    (fun _ => .inr ⟨fun _ => rfl, rfl⟩)
    fun _ => ?_
  refine (joinTransaction_readings settings context).mono ?_
  intro h joined s' hpost
  obtain ⟨hreadings, hcaptures⟩ := hpost
  cases joined with
  | error e => exact .inr ⟨nofun, hcaptures⟩
  | ok u =>
      intro entries asked captured hreads verdict
      cases captured with
      | error e => exact .inr ⟨nofun, hcaptures⟩
      | ok captures =>
          refine .inl ⟨entries, asked, captures, rfl, ?_, verdict, ?_⟩
          · rw [readings_append, hreadings]
            exact congrArg (.asked .entries entries :: ·) hreads.readings_eq
          · exact congrArg (CoordinatorState.mergeCaptures · captures) hcaptures

/-- A flush that is finished inside a transaction adds to its batch. -/
theorem finish_inside {during : Interlude} {context : String}
    {tx : TransactionId} {post : History → Outcome → CoordinatorState → Prop}
    (hidle : s.commitInProgress = false)
    (hgoes : ∀ asked records, Reconciled s.captures asked records →
      (joinBatch context tx records { s with phase := .reconciling,
                                             captures := [] }).Ensures during
        (fun h _ s' => ∀ cancelled outcome,
          post (h ++ [.asked .isCancelled cancelled]) outcome
            { s' with phase := .idle })
        ([.asked .isCancelled false] ++ asked ++
          [.asked .currentTransaction (some tx)])) :
    (finish context s).Ensures during
      (fun h outcome s' => FirstSeen (· = some tx) h →
        h.head? = some (.asked .isCancelled false) → post h outcome s') [] := by
  refine finish_ensures (fun _ hadmitted => by cases hadmitted)
    (fun hbusy => by rw [hidle] at hbusy; cases hbusy) ?_
  intro _ asked records current reconciled
  by_cases hcurrent : current = some tx
  · subst hcurrent
    refine (hgoes asked records reconciled).mono fun h u s' hpost => ?_
    rw [ensures_bind, ensures_enter]
    exact checkCancelled_ensures fun cancelled outcome _ _ =>
      hpost cancelled outcome
  · refine (Exchange.ensures_grows _ _).mono ?_
    rintro h u s' ⟨later, rfl⟩
    rw [ensures_bind, ensures_enter]
    refine checkCancelled_ensures fun cancelled outcome first => ?_
    refine absurd (first.of_append.of_append current ?_) hcurrent
    rw [seen_append, seen_append, reconciled.reads.seen_eq]
    rfl

/-- A flush that is finished reads the keys of its creations, unless nothing is
finished. -/
theorem finish_reconciled (context : String) (s : CoordinatorState) :
    (finish context s).Ensures Interlude.quiet
      (fun h _ _ => seen h = [] ∨
        Reconciled s.captures (readings h)
          (promotions s.captures (keys h))) [] := by
  refine finish_ensures (.inl rfl) (fun _ => .inl rfl) ?_
  intro _ asked records current reconciled
  -- What follows are calls, and a question about the token.
  have hend : ∀ q s', OnlyCalls q →
      ((do enter .idle; checkCancelled : Coordinating Outcome) s').Ensures
        Interlude.quiet
        (fun h _ _ => seen h = [] ∨
          Reconciled s.captures (readings h) (promotions s.captures (keys h)))
        ([] ++ [.asked .isCancelled false] ++ asked ++
          [.asked .currentTransaction current] ++
          q) := by
    intro q s' hq
    rw [ensures_bind, ensures_enter]
    refine checkCancelled_ensures fun cancelled outcome => .inr ?_
    obtain ⟨-, hkeys, -⟩ :=
      flushed_visible current cancelled reconciled.reads hq
    rw [hkeys, reconciled.promotions_eq]
    simp only [readings_append, reconciled.reads.readings_eq, hq.readings_eq]
    show Reconciled s.captures (asked ++ [] ++ [] ++ []) records
    simpa only [List.append_nil] using reconciled
  cases current with
  | none =>
      refine (deliverNow_quiet context _ _ _).mono ?_
      rintro h u s' ⟨q, rfl, hq, -⟩
      exact hend q s' hq
  | some tx =>
      by_cases howned : s.owned = some tx
      · refine joinBatch_owned (s :=
          { s with phase := .reconciling, captures := [] }) context
          _ howned ?_
        refine Exchange.Ensures.mono ?_ (commitOwned_quiet context howned)
        rintro h u s' ⟨q, _, rfl, hq, -⟩
        exact hend q s' hq
      · refine Exchange.Ensures.mono ?_ (joinBatch_other
          (s := { s with phase := .reconciling, captures := [] }) _
            context _ howned)
        rintro h u s' ⟨rfl, -⟩
        have := hend [] s' onlyCalls_nil
        rwa [List.append_nil] at this

end Turns

namespace Turn

variable {settings : CoordinatorSettings} {t : Turn}

/-- The captures that a turn takes. A start that succeeds asks for a snapshot
first, and then about each of its audited entries. -/
def captured (settings : CoordinatorSettings) (t : Turn) : List Capture :=
  match t.made, t.outcome, readings t.history with
  | .startCollecting _, .ok _, .asked .entries entries :: asked =>
      settings.captured entries asked
  | _, _, _ => []

/-- What is pending after a turn is what was pending before and what it
captured, or nothing is. -/
theorem Taken.captured (taken : t.Taken settings Interlude.quiet) :
    (t.captured settings = [] ∧
      (t.after.captures = t.before.captures ∨ t.after.captures = [])) ∨
    ∃ entries asked, readings t.history = .asked .entries entries :: asked ∧
      Captured settings entries asked (t.captured settings) ∧
      t.after.captures =
        CoordinatorState.mergeCaptures t.before.captures
          (t.captured settings) := by
  have course := taken.course
  obtain ⟨s, made, h, outcome, s'⟩ := t
  cases made with
  | startCollecting context =>
      have hread := taken.ensured (startCollecting_captured settings context s)
      simp only [List.nil_append] at hread
      rcases hread with
        ⟨entries, asked, captures, rfl, hreadings, captured, hmerged⟩ |
          ⟨hnone, hkept⟩
      · have heq : Turn.captured settings ⟨s, .startCollecting context, h,
            .ok (), s'⟩ =
            captures := by
          simp only [Turn.captured, hreadings]
          exact captured.captured_eq
        rw [heq]
        exact .inr ⟨entries, asked, hreadings, captured, hmerged⟩
      · refine .inl ⟨?_, .inl hkept⟩
        cases outcome with
        | error e => rfl
        | ok u => simp only [Turn.captured, hnone rfl]
  | _ => exact .inl ⟨rfl, course.captures_of_other nofun⟩

theorem promoted_of_ne (hne : t.promoted ≠ []) :
    (∃ context, t.made = .finish context) ∧ seen t.history ≠ [] ∧
      t.promoted = promotions t.before.captures (keys t.history) := by
  unfold promoted at hne ⊢
  split at hne
  · next context _ _ hmade hseen =>
      rw [hmade, hseen]
      exact ⟨⟨context, rfl⟩, List.cons_ne_nil _ _, rfl⟩
  · exact absurd rfl hne

/-- What a turn promotes is settled when it asks for the current transaction. -/
theorem promoted_eq {context : String} {asked later : History}
    {current : Option TransactionId} {records : List AuditRecord}
    (hmade : t.made = .finish context)
    (reconciled : Reconciled t.before.captures asked records)
    (hhistory : t.history = [.asked .isCancelled false] ++ asked ++
      [.asked .currentTransaction current] ++ later) :
    t.promoted = records := by
  have hseen : seen t.history = current :: seen later := by
    rw [hhistory, seen_append, seen_append, seen_append,
      reconciled.reads.seen_eq]
    rfl
  have hkeys : keys t.history = keys asked ++ keys later := by
    simp only [hhistory, keys_append, List.append_assoc]
    rfl
  rw [promoted, hmade, hseen]
  simp only []
  rw [hkeys, reconciled.promotions_append]

/-- The records that a turn promotes are reconciled with the keys it reads. -/
theorem Taken.reconciled (taken : t.Taken settings Interlude.quiet)
    (hne : t.promoted ≠ []) :
    Reconciled t.before.captures (readings t.history) t.promoted := by
  obtain ⟨⟨context, hmade⟩, hseen, hpromoted⟩ := promoted_of_ne hne
  rw [hpromoted]
  rw [Taken, hmade] at taken
  exact (taken.ensured (finish_reconciled context t.before)).resolve_left hseen

end Turn

end AuditTrail

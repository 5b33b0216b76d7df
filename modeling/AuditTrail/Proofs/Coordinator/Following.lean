import AuditTrail.Proofs.Coordinator.Situation

/-!
# Sessions are runs

`Situation.lean` lists the steps of a coordinator. This file shows that the
list is complete: a session, and whatever is nested in its calls to any depth,
is a run of situations with the same account (`Session.run`). The pieces of
the coordinator are gone through once more for it, and for the last time where
calls may be interrupted.

A piece is followed from the moment at which it is handed the state. Until it
calls someone the step is not complete, so the history is that of a run and
the beginning of a step. `Stands` says that only the common end of steps is
missing, which is how the pieces that run errands are specified.
-/

namespace AuditTrail

open Coordinating Coordinator History Situation

/-- What happens during a call is a run that leaves the waiting pieces alone. -/
def Interlude.Follows (during : Interlude) : Prop :=
  ∀ s h s', during s h s' → ∀ pending, Run ⟨s, pending⟩ h ⟨s', pending⟩

section Pieces

variable {during : Interlude} {c : Situation} {made : HostCall}
  {rest : List Pending} {s : CoordinatorState} {h : History}

/-- A piece has come to something, and however it goes on is a run. -/
def Stands (c : Situation) (made : HostCall) (rest : List Pending) (next : Next)
    (h : History) : Prop :=
  ∀ later c', Onward made rest next later c' → Run c (h ++ later) c'

/-- The run of a turn that is over. -/
def Left (c : Situation) (made : HostCall) (rest : List Pending) (h : History)
    (outcome : Outcome) (s : CoordinatorState) : Prop :=
  Run c (h ++ [.left made outcome s]) ⟨s, rest⟩

theorem Stands.left {outcome : Outcome}
    (stands : Stands c made rest (.ends outcome s) h) :
    Left c made rest h outcome s :=
  stands _ _ (.ends outcome s)

theorem Situation.Run.enter {asked h' : History} {next : Next}
    (run : Run c h ⟨s, rest⟩) (hbegins : Begins s made asked next)
    (hcame : h ++ [.entered made s] ++ asked = h') :
    Stands c made rest next h' := by
  subst hcame
  intro later c' honward
  have := run.snoc (.enter hbegins honward)
  simpa only [List.append_assoc, List.cons_append, List.nil_append] using this

theorem Situation.Run.resume {task : Task} {asked h' : History} {next : Next}
    (run : Run c h ⟨s, ⟨made, task⟩ :: rest⟩)
    (hresumes : Resumes s task asked next) (hcame : h ++ asked = h') :
    Stands c made rest next h' := by
  subst hcame
  intro later c' honward
  rw [List.append_assoc]
  exact run.snoc (.resume hresumes honward)

theorem Stands.call {task : Task} {call : Call} (hd : during.Follows)
    (stands : Stands c made rest (.goesOn task s) h)
    (hcall : task.call? = some call) :
    (Coordinating.call call s).Ensures during
      (fun h' answer found => ∃ g, h' = g ++ [.returned call answer] ∧
        Run c g ⟨found, ⟨made, task⟩ :: rest⟩) h := by
  rw [ensures_call]
  intro meanwhile found answer lasts
  refine ⟨h ++ [.called call] ++ meanwhile, ?_, ?_⟩
  · simp only [List.append_assoc, List.cons_append, List.nil_append]
  · exact (stands _ _ (.waits s hcall)).append (hd _ _ _ lasts _)

theorem dispatch_stands {records : List AuditRecord}
    {report : Option (TransactionEvent × TransactionStatus)}
    (hd : during.Follows)
    (stands : Stands c made rest (.goesOn (.errand records report) s) h) :
    (dispatch records s).Ensures during
      (fun h' _ s' => Stands c made rest (.goesOn (.errand [] report) s') h')
        h := by
  unfold dispatch
  split
  · next hempty =>
      rw [List.isEmpty_iff.mp hempty] at stands
      exact stands
  · next hne =>
      rw [ensures_bind, ensures_call]
      intro meanwhile found answer lasts
      have hrecords : records ≠ [] :=
        fun hnil => hne (List.isEmpty_iff.mpr hnil)
      have hrun := (stands _ _ (.delivers hrecords report s)).append
        (hd _ _ _ lasts _)
      have hnext : Stands c made rest (.goesOn (.errand [] report) found)
          (h ++ .called (.consume records) ::
            (meanwhile ++ [.returned (.consume records) answer])) :=
        hrun.resume (.delivered answer) (by simp)
      cases answer <;> exact hnext

theorem report_stands {event : TransactionEvent} {status : TransactionStatus}
    (hd : during.Follows)
    (stands :
      Stands c made rest (.goesOn (.errand [] (some (event, status))) s) h) :
    (report event status s).Ensures during
      (fun h' _ s' => Stands c made rest (.goesOn (.errand [] none) s') h')
        h := by
  unfold report
  rw [ensures_bind, ensures_call]
  intro meanwhile found answer lasts
  have hrun := (stands _ _ (.reports event status s)).append (hd _ _ _ lasts _)
  have hnext : Stands c made rest (.goesOn (.errand [] none) found)
      (h ++ .called (.finished event status) ::
        (meanwhile ++ [.returned (.finished event status) answer])) :=
    hrun.resume (.reported answer) (by simp)
  cases answer <;> exact hnext

theorem checkCancelled_left
    (hother : ∀ context, made ≠ .startCollecting context)
    (hclose : made.close s = s)
    (stands : Stands c made rest (.goesOn (.errand [] none) s) h) :
    (checkCancelled s).Ensures during (Left c made rest) h := by
  unfold checkCancelled
  rw [ensures_bind, ensures_ask]
  intro cancelled
  have hclosed := stands _ _ (.closes cancelled s hother)
  rw [hclose] at hclosed
  have hleft : ∀ outcome, outcome =
      (if cancelled then .error .cancelled else .ok ()) →
      Left c made rest (h ++ [.asked .isCancelled cancelled]) outcome s := by
    rintro _ rfl
    rwa [Left, List.append_assoc]
  cases cancelled with
  | true | false => exact hleft _ rfl

/-! ## The owned transaction -/

theorem releasing_stands {context : String} {tx : TransactionId}
    (hd : during.Follows)
    (stands : Stands c made rest
      (.goesOn (.releasing context tx) { s with owned := none }) h)
    (howned : s.owned = some tx) :
    (releaseOwned context s).Ensures during
      (fun h' _ s' => Stands c made rest (.goesOn (.errand [] none) s') h')
        h := by
  unfold releaseOwned
  rw [ensures_bind, ensures_state, howned]
  simp only []
  rw [ensures_bind, ensures_change, ensures_bind]
  refine (stands.call hd rfl).mono fun h' answer found hpost => ?_
  obtain ⟨g, rfl, hrun⟩ := hpost
  cases answer with
  | ok u | error e =>
      exact report_stands hd (hrun.resume (.released _ _) rfl)

theorem commitOwned_stands {context : String} {tx : TransactionId}
    (hd : during.Follows)
    (stands : Stands c made rest
      (.goesOn (if s.batch = [] then .committing context tx []
          else .announcingOwn context tx s.batch)
        { s with commitInProgress := true, transactionPhase := .committing,
                 batch := [] }) h) :
    (commitOwned context tx s).Ensures during
      (fun h' _ s' => Stands c made rest (.goesOn (.errand [] none) s') h')
        h := by
  unfold commitOwned
  simp only []
  rw [ensures_bind, ensures_state, ensures_bind, ensures_change, ensures_bind]
  have hannounced : (announce s.batch ⟨context, some tx⟩
      { s with commitInProgress := true, transactionPhase := .committing,
               batch := [] }).Ensures during
      (fun h' _ s' => Stands c made rest
        (.goesOn (.committing context tx s.batch) s') h') h := by
    unfold announce
    by_cases hbatch : s.batch = []
    · rw [if_pos hbatch] at stands
      rw [if_pos (List.isEmpty_iff.mpr hbatch), hbatch]
      exact stands
    · rw [if_neg hbatch] at stands
      rw [if_neg fun hempty => hbatch (List.isEmpty_iff.mp hempty),
        ensures_bind]
      refine (stands.call hd rfl).mono fun h' answer found hpost => ?_
      obtain ⟨g, rfl, hrun⟩ := hpost
      cases answer <;> exact hrun.resume (.announcedOwn _) rfl
  refine hannounced.mono fun h' _ s' stands => ?_
  rw [ensures_bind]
  refine (stands.call hd rfl).mono fun h' answer found hpost => ?_
  obtain ⟨g, rfl, hrun⟩ := hpost
  cases answer with
  | ok u =>
      simp only []
      rw [ensures_bind, ensures_log, ensures_bind]
      unfold finishOwned
      rw [ensures_bind, ensures_state]
      cases howned : found.owned with
      | none =>
          simp only []
          rw [ensures_bind, ensures_change, ensures_pure, ensures_bind]
          exact (dispatch_stands hd
            (hrun.resume (.committedElsewhere howned) rfl)).mono
            fun _ _ _ hpost => hpost
      | some own =>
          simp only []
          rw [ensures_bind, ensures_change, ensures_pure, ensures_bind]
          exact (dispatch_stands hd (hrun.resume (.committed howned) rfl)).mono
            fun h' _ s' hpost => report_stands hd hpost
  | error e =>
      simp only []
      rw [ensures_bind, ensures_log, ensures_bind]
      have hundoing : Stands c made rest (.goesOn (.undoing context tx) found)
          (g ++ [.returned (.commit tx) (.error e)]) :=
            hrun.resume (.failedToCommit e) rfl
      refine (hundoing.call hd rfl).mono fun h' answer found hpost => ?_
      obtain ⟨g, rfl, hrun⟩ := hpost
      -- The answer to the rollback only decides the phase.
      have hend : ∀ phase, ((do
          let settledHere ← finishOwned phase
          if settledHere then
            report ⟨context, some tx⟩ .failed : Coordinating Unit)
            found).Ensures during
          (fun h' _ s' => Stands c made rest (.goesOn (.errand [] none) s') h')
          (g ++ [.returned (.rollback tx) answer]) := by
        intro phase
        unfold finishOwned
        rw [ensures_bind, ensures_bind, ensures_state]
        cases howned : found.owned with
        | none => exact hrun.resume (.undoneElsewhere _ howned) rfl
        | some own =>
            exact report_stands hd (hrun.resume (.undone _ phase howned) rfl)
      cases answer with
      | ok u | error e => exact hend _

/-! ## Around a flush -/

/-- After a transaction is joined the snapshot can be captured, or the turn is
given up. -/
def Joining (c : Situation) (made : HostCall) (rest : List Pending)
    (h : History) :
    Outcome → CoordinatorState → Prop
  | .ok _, s =>
      ∀ asked next, Collects s asked next → Stands c made rest next (h ++ asked)
  | .error e, s => Left c made rest h (.error e) { s with phase := .idle }

theorem openOwned_joining {context : String} (hd : during.Follows)
    (hmade : made = .startCollecting context)
    (stands : Stands c made rest (.goesOn (.opening context) s) h) :
    (openOwned context s).Ensures during (Joining c made rest) h := by
  unfold openOwned
  rw [ensures_bind]
  refine (stands.call hd rfl).mono fun h' answer found hpost => ?_
  obtain ⟨g, rfl, hrun⟩ := hpost
  cases answer with
  | error e => exact (hrun.resume (.failedToOpen e) rfl).left
  | ok tx =>
      simp only []
      rw [ensures_bind, ensures_log, ensures_bind]
      refine (own_ensures _ tx _ _).mono ?_
      intro h' u s' hpost
      obtain ⟨rfl, rfl⟩ := hpost
      rw [ensures_bind, ensures_ask]
      intro cancelled
      cases cancelled with
      | false =>
          exact fun asked next hcollects =>
            hrun.resume (.opened hcollects) (by simp)
      | true =>
          simp only [if_true]
          rw [ensures_bind]
          refine (releasing_stands hd (hrun.resume (.withdrawn tx) ?_) rfl).mono
            fun h' _ s' hreleased => hreleased _ _ (.gives s' hmade)
          simp

theorem startCollecting_left {context : String} (hd : during.Follows)
    (settings : CoordinatorSettings) (run : Run c h ⟨s, rest⟩) :
    (startCollecting settings context s).Ensures during
      (Left c (.startCollecting context) rest)
      (h ++ [.entered (.startCollecting context) s]) := by
  refine startCollecting_ensures (run.enter (.refused rfl) rfl).left
    (fun hbusy => (run.enter (.busy rfl hbusy) rfl).left) fun hidle => ?_
  have hjoining :
      (joinTransaction settings context { s with phase := .capturing }).Ensures
      during (Joining c (.startCollecting context) rest)
      (h ++ [.entered (.startCollecting context) s] ++
        [.asked .isCancelled false]) := by
    unfold joinTransaction
    rw [ensures_bind, ensures_ask]
    intro current
    -- Whatever the phase is afterwards, the snapshot can be captured.
    have hcollected : ∀ phase, Joining c (.startCollecting context) rest
        (h ++ [.entered (.startCollecting context) s] ++
          [.asked .isCancelled false] ++
          [.asked .currentTransaction current]) (.ok ())
        { s with phase := .capturing, transactionPhase := phase } := by
      intro phase asked next hcollects
      exact run.enter (.collected hidle current phase hcollects) (by simp)
    cases current with
    | some tx =>
        simp only []
        rw [ensures_bind, ensures_change, ensures_pure]
        split
        · exact hcollected s.transactionPhase
        · exact hcollected .opened
    | none =>
        simp only []
        split
        · exact openOwned_joining hd rfl (run.enter (.opens hidle) (by simp))
        · exact hcollected s.transactionPhase
  refine hjoining.mono fun h' joined s' hjoined => ?_
  cases joined with
  | error e => exact hjoined
  | ok u =>
      intro entries asked captured hreads verdict
      have hall : Reads (.asked .entries entries :: asked) :=
        reads_cons trivial hreads
      cases captured with
      | error e => exact (hjoined _ _ (.refused hall e)).left
      | ok captures =>
          exact (hjoined _ _ (.captured hall verdict.issued_eq)).left

theorem finish_left {context : String} (hd : during.Follows)
    (run : Run c h ⟨s, rest⟩) :
    (finish context s).Ensures during (Left c (.finish context) rest)
      (h ++ [.entered (.finish context) s]) := by
  refine finish_ensures (run.enter (.refused rfl) rfl).left
    (fun hbusy => (run.enter (.busy rfl hbusy) rfl).left) ?_
  intro hidle asked records current reconciled
  have hreads := reconciled.reads
  obtain rfl := reconciled.promotions_eq
  -- The phase is reset before the last look at the token, as `HostCall.close`
  -- has it.
  have hend : ∀ (h' : History) (u : Unit) (s' : CoordinatorState),
      Stands c (.finish context) rest (.goesOn (.errand [] none) s') h' →
      ((do enter .idle; checkCancelled : Coordinating Outcome) s').Ensures
        during
        (Left c (.finish context) rest) h' := by
    intro h' u s' stands
    rw [ensures_bind, ensures_enter]
    refine checkCancelled_left (fun _ => nofun) rfl fun later c' honward => ?_
    cases honward with
    | waits _ hcall => cases hcall
    | closes cancelled _ hother =>
        exact stands _ _ (.closes cancelled s' hother)
    | delivers hne => exact absurd rfl hne
    | gives _ hmade => cases hmade
  cases current with
  | none =>
      have hflushed : Stands c (.finish context) rest
          (.goesOn (.errand (promotions s.captures (keys asked)) none)
            { s with phase := .immediateDispatch, captures := [], batch := [] })
          (h ++ [.entered (.finish context) s] ++
            [.asked .isCancelled false] ++ asked ++
            [.asked .currentTransaction none]) :=
              run.enter (.flushed hidle hreads) (by simp)
      unfold deliverNow
      rw [ensures_bind, ensures_state, ensures_bind, ensures_change]
      simp only []
      split
      · rw [ensures_bind, ensures_log]
        exact (dispatch_stands hd hflushed).mono hend
      · exact (dispatch_stands hd hflushed).mono hend
  | some tx =>
      unfold joinBatch
      rw [ensures_bind, ensures_change, ensures_bind, ensures_state,
        ensures_bind, ensures_log]
      simp only []
      by_cases howned : s.owned = some tx
      · rw [if_pos howned]
        refine (commitOwned_stands hd ?_).mono hend
        simp only []
        split
        · next hempty =>
            exact run.enter (.commits hidle hreads howned hempty) (by simp)
        · next hne =>
            exact run.enter (.announcesOwn hidle hreads howned rfl hne)
              (by simp)
      · rw [if_neg howned]
        exact hend _ () _ (run.enter (.batched hidle hreads howned _) (by simp))

theorem abandonFlush_left {context : String} {reason : FlushFailure}
    (hd : during.Follows) (hmade : made.abandoned? = some context)
    (run : Run c h ⟨s, rest⟩) :
    (abandonFlush context reason s).Ensures during (Left c made rest)
      (h ++ [.entered made s]) := by
  have hother : ∀ context, made ≠ .startCollecting context := by
    rintro _ rfl
    cases hmade
  have hclose : ∀ s, made.close s = s := by
    intro s
    cases made <;> first | rfl | cases hmade
  unfold abandonFlush
  refine ensures_unlessCancelled
    (run.enter (.refused (HostCall.hasToken_of_abandoned hmade)) rfl).left ?_
  rw [ensures_bind, ensures_state, ensures_bind, ensures_change, ensures_bind,
    ensures_log, ensures_bind]
  cases howned : s.owned with
  | none =>
      -- There is nothing to release, so the turn only has to be ended.
      refine Exchange.Ensures.mono ?_ (releaseOwned_none _ context rfl)
      intro h' u s' hpost
      obtain ⟨rfl, rfl⟩ := hpost
      rw [← howned]
      exact checkCancelled_left hother (hclose _)
        (run.enter (.abandons hmade howned) rfl)
  | some tx =>
      exact (releasing_stands hd
        (run.enter (.releases hmade howned) rfl) rfl).mono
        fun h' _ s' hreleased =>
          checkCancelled_left hother (hclose s') hreleased

/-! ## Notices -/

theorem transactionCommitting_left {event : TransactionEvent}
    (hd : during.Follows) (run : Run c h ⟨s, rest⟩) :
    (transactionCommitting event s).Ensures during
      (Left c (.transactionCommitting event) rest)
      (h ++ [.entered (.transactionCommitting event) s]) := by
  unfold transactionCommitting
  refine ensures_unlessCancelled (run.enter (.refused rfl) rfl).left ?_
  rw [ensures_bind, ensures_state]
  by_cases hbusy : s.commitInProgress = true
  · rw [if_pos hbusy]
    exact (run.enter (.busy rfl hbusy) rfl).left
  · rw [if_neg hbusy, ensures_bind, ensures_change, ensures_bind]
    have hidle : s.commitInProgress = false := Bool.eq_false_iff.mpr hbusy
    unfold announce
    by_cases hbatch : s.batch = []
    · rw [if_pos (List.isEmpty_iff.mpr hbatch), ensures_pure, ensures_bind,
        ensures_change]
      refine checkCancelled_left (fun _ => nofun) rfl ?_
      simp only [List.append_nil]
      exact run.enter (.passes hidle hbatch) rfl
    · rw [if_neg fun hempty => hbatch (List.isEmpty_iff.mp hempty),
        ensures_bind]
      have hannounces : Stands c (.transactionCommitting event) rest
          (.goesOn (.announcing event s.batch)
            { s with transactionPhase := .committing, batch := [] })
          (h ++ [.entered (.transactionCommitting event) s] ++
            [.asked .isCancelled false]) :=
        run.enter (.announces hidle hbatch) rfl
      refine (hannounces.call hd rfl).mono fun h' answer found hpost => ?_
      obtain ⟨g, rfl, hrun⟩ := hpost
      have hend : ((do
          change fun after => { after with batch := s.batch ++ after.batch }
          checkCancelled : Coordinating Outcome) found).Ensures during
          (Left c (.transactionCommitting event) rest)
          (g ++ [.returned (.preCommit s.batch event) answer]) := by
        rw [ensures_bind, ensures_change]
        exact checkCancelled_left (fun _ => nofun) rfl
          (hrun.resume (.announced answer) rfl)
      cases answer <;> exact hend

theorem notice_left {event : TransactionEvent} {status : TransactionStatus}
    {work : Coordinating Outcome}
    (hending : made.ending? = some (event, status)) (run : Run c h ⟨s, rest⟩)
    (hgoes : (∀ transactionPhase, Stands c made rest
        (.goesOn (.errand (if status = .committed then s.batch else [])
          (some (event, status)))
          { settleOwned event s with
            transactionPhase := transactionPhase, batch := [] })
        (h ++ [.entered made s] ++ [.asked .isCancelled false])) →
      (work s).Ensures during (Left c made rest)
        (h ++ [.entered made s] ++ [.asked .isCancelled false])) :
    ((do
      if ← ask .isCancelled then return .error .cancelled
      if ← isSettled event then return .ok ()
      work : Coordinating Outcome) s).Ensures during (Left c made rest)
      (h ++ [.entered made s]) := by
  exact ensures_notice
    (run.enter (.refused (HostCall.hasToken_of_ending hending)) rfl).left
    (fun tx hnamed hsettled =>
      (run.enter (.ignored hending hnamed hsettled) rfl).left)
    fun hopen => hgoes fun transactionPhase =>
      run.enter (.ended hending hopen _) rfl

theorem close_of_ending {made : HostCall}
    {n : TransactionEvent × TransactionStatus} (hending : made.ending? = some n)
    (s : CoordinatorState) :
    (∀ context, made ≠ .startCollecting context) ∧ made.close s = s := by
  cases made <;> cases hending <;> exact ⟨fun _ => nofun, rfl⟩

theorem transactionCommitted_left {event : TransactionEvent}
    (hd : during.Follows) (run : Run c h ⟨s, rest⟩) :
    (transactionCommitted event s).Ensures during
      (Left c (.transactionCommitted event) rest)
      (h ++ [.entered (.transactionCommitted event) s]) := by
  unfold transactionCommitted
  refine notice_left rfl run fun stands => ?_
  rw [ensures_bind, ensures_state, ensures_bind, ensures_change, ensures_bind]
  refine (dispatch_stands hd (stands .committed)).mono
    fun h' _ s' hdispatched => ?_
  rw [ensures_bind]
  refine (report_stands hd hdispatched).mono fun h' _ s' hreported => ?_
  exact checkCancelled_left (fun _ => nofun) rfl hreported

theorem discardBatch_left {event : TransactionEvent}
    {status : TransactionStatus} (hd : during.Follows)
    (hending : made.ending? = some (event, status))
    (hstatus : status ≠ .committed) (run : Run c h ⟨s, rest⟩) :
    (discardBatch event status s).Ensures during (Left c made rest)
      (h ++ [.entered made s]) := by
  unfold discardBatch
  refine notice_left hending run fun stands => ?_
  rw [if_neg hstatus] at stands
  rw [ensures_bind, ensures_state, ensures_bind, ensures_change, ensures_bind,
    ensures_log, ensures_bind]
  refine (report_stands hd (stands _)).mono fun h' _ s' hreported => ?_
  obtain ⟨hother, hclose⟩ := close_of_ending hending s'
  exact checkCancelled_left hother hclose hreported

end Pieces

/-! ## Turns, sessions and what is nested in them -/

theorem Turn.Taken.run {settings : CoordinatorSettings} {during : Interlude}
    (hd : during.Follows) {t : Turn} (taken : t.Taken settings during)
    {c : Situation} {h : History} {rest : List Pending}
    (run : Run c h ⟨t.before, rest⟩) :
    Run c (h ++ t.account) ⟨t.after, rest⟩ := by
  have hserve : (serve settings t.made t.before).Ensures during
      (Left c t.made rest)
      (h ++ [.entered t.made t.before]) := by
    cases t.made with
    | startCollecting context => exact startCollecting_left hd settings run
    | finish context => exact finish_left hd run
    | saveFailed context | saveCanceled context =>
        exact abandonFlush_left hd rfl run
    | transactionCommitting event => exact transactionCommitting_left hd run
    | transactionCommitted event => exact transactionCommitted_left hd run
    | transactionRolledBack event | transactionFailed event =>
        exact discardBatch_left hd rfl nofun run
    | clearCaptures =>
        exact (run.enter .clearedCaptures (List.append_nil _)).left
    | clearBatch =>
        exact (run.enter .clearedBatch (List.append_nil _)).left
  have hleft := taken.ensured hserve
  simpa only [Left, Turn.account, List.append_assoc, List.cons_append,
    List.nil_append] using hleft

/-- A session is a run, whatever is pending meanwhile. -/
theorem Session.run {settings : CoordinatorSettings} {during : Interlude}
    (hd : during.Follows) {s s' : CoordinatorState} {ts : List Turn}
    (session : Session settings during s ts s') {c : Situation}
    {rest : List Pending} :
    ∀ {h : History}, Run c h ⟨s, rest⟩ →
      Run c (h ++ accountOf ts) ⟨s', rest⟩ := by
  induction session with
  | nil s =>
      intro h run
      rwa [accountOf, List.flatMap_nil, List.append_nil]
  | cons t taken later ih =>
      intro h run
      have := ih (taken.run hd run)
      rwa [List.append_assoc] at this

/-- So is what happens during a call, by induction on the depth of nesting. -/
theorem Interlude.nested_follows (settings : CoordinatorSettings) :
    ∀ depth, (Interlude.nested settings depth).Follows := by
  intro depth
  induction depth with
  | zero =>
      intro s h s' lasts pending
      obtain ⟨rfl, rfl⟩ := lasts
      exact .nil
  | succ depth ih =>
      intro s h s' lasts pending
      obtain ⟨ts, session, rfl⟩ := lasts
      exact session.run ih .nil

theorem Session.run_nested {settings : CoordinatorSettings} {depth : Nat}
    {ts : List Turn} {s s' : CoordinatorState}
    (session : Session settings (Interlude.nested settings depth) s ts s') :
    Run ⟨s, []⟩ (accountOf ts) ⟨s', []⟩ :=
  session.run (Interlude.nested_follows settings depth) .nil

end AuditTrail

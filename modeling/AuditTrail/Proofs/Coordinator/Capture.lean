import AuditTrail.Proofs.Coordinator.Transcript

/-!
# Pieces that only ask

Some pieces of the coordinator call nobody, so nothing can come between, and
what they give is a function of the answers. Each has one lemma, for whatever
happens during the calls of the others.

The pieces that begin and end a turn look at the token, and `ensures_notice`
is how every notice begins. Capturing a snapshot and promoting captures only
read, and their transcripts say what comes of it. `startCollecting_ensures` is
how every start goes, whether the snapshot is captured or refused, and
`finish_ensures` how every flush goes that is finished, with what follows on
the promotion left open.
-/

namespace AuditTrail

open Coordinating Coordinator History

namespace Coordinating

variable {during : Interlude} {s : CoordinatorState} {h : History}

/-! ## Questions about the token and the transaction -/

theorem checkCancelled_ensures
    {post : History → Outcome → CoordinatorState → Prop}
    (hpost : ∀ cancelled outcome, post (h ++ [.asked .isCancelled cancelled])
      outcome s) :
    (checkCancelled s).Ensures during post h := by
  unfold checkCancelled
  rw [ensures_bind, ensures_ask]
  intro cancelled
  cases cancelled <;> exact hpost _ _

/-- What the host says is refused if the token is cancelled. -/
theorem ensures_unlessCancelled
    {post : History → Outcome → CoordinatorState → Prop}
    {work : Coordinating Outcome}
    (hrefused : post (h ++ [.asked .isCancelled true]) (.error .cancelled) s)
    (hgoes : (work s).Ensures during post (h ++ [.asked .isCancelled false])) :
    ((do
      if ← ask .isCancelled then return .error .cancelled
      work : Coordinating Outcome) s).Ensures during post h := by
  rw [ensures_bind, ensures_ask]
  intro cancelled
  cases cancelled with
  | true => exact hrefused
  | false => exact hgoes

theorem isSettled_ensures (during : Interlude) (event : TransactionEvent)
    (s : CoordinatorState) (h : History) :
    (isSettled event s).Ensures during
      (fun h' settled s' => h' = h ∧ s' = s ∧
        ((settled = true ∧ ∃ tx, event.transaction = some tx ∧
          s.settled = some tx) ∨
          (settled = false ∧ ∀ tx, event.transaction = some tx →
            s.settled ≠ some tx)))
      h := by
  unfold isSettled
  rw [ensures_bind, ensures_state]
  cases hsettled : s.settled with
  | none => exact ⟨rfl, rfl, .inr ⟨rfl, fun _ _ h => nomatch h⟩⟩
  | some settled =>
      cases hnamed : event.transaction with
      | none => exact ⟨rfl, rfl, .inr ⟨rfl, fun _ h => nomatch h⟩⟩
      | some tx =>
          simp only []
          split
          · next heq => exact ⟨rfl, rfl, .inl ⟨rfl, tx, rfl, congrArg some heq⟩⟩
          · next hne =>
              refine ⟨rfl, rfl, .inr ⟨rfl, ?_⟩⟩
              rintro _ ⟨⟩ ⟨⟩
              exact hne rfl

/-- A notice is ignored if it is about the transaction that was settled last. -/
theorem ensures_notice {post : History → Outcome → CoordinatorState → Prop}
    {event : TransactionEvent} {work : Coordinating Outcome}
    (hrefused : post (h ++ [.asked .isCancelled true]) (.error .cancelled) s)
    (hignored : ∀ tx, event.transaction = some tx → s.settled = some tx →
      post (h ++ [.asked .isCancelled false]) (.ok ()) s)
    (hgoes : (∀ tx, event.transaction = some tx → s.settled ≠ some tx) →
      (work s).Ensures during post (h ++ [.asked .isCancelled false])) :
    ((do
      if ← ask .isCancelled then return .error .cancelled
      if ← isSettled event then return .ok ()
      work : Coordinating Outcome) s).Ensures during post h := by
  refine ensures_unlessCancelled hrefused ?_
  rw [ensures_bind]
  refine (isSettled_ensures _ event s _).mono ?_
  intro h' settled s' hpost
  rcases hpost with ⟨rfl, rfl, ⟨rfl, tx, hnamed, hsettled⟩ | ⟨rfl, hopen⟩⟩
  · exact hignored tx hnamed hsettled
  · exact hgoes hopen

theorem own_ensures (during : Interlude) (tx : TransactionId)
    (s : CoordinatorState) (h : History) :
    (own tx s).Ensures during
      (fun h' _ s' => h' = h ∧
        s' = { s with owned := some tx, transactionPhase := .opened })
      h := by
  unfold own
  rw [ensures_bind, ensures_state, ensures_bind, ensures_change]
  cases s.owned <;> exact ⟨rfl, rfl⟩

end Coordinating

/-! ## What settling a transaction spares -/

/-- Only what is owned and what was settled last may be another. -/
theorem settleOwned_eq (event : TransactionEvent) (s : CoordinatorState) :
    settleOwned event s =
      { s with
        owned := (settleOwned event s).owned
        settled := (settleOwned event s).settled } := by
  unfold settleOwned
  split
  · split <;> rfl
  · rfl

theorem settleOwned_captures (event : TransactionEvent) (s : CoordinatorState) :
    (settleOwned event s).captures = s.captures := by rw [settleOwned_eq]

theorem settleOwned_commitInProgress (event : TransactionEvent)
    (s : CoordinatorState) :
    (settleOwned event s).commitInProgress = s.commitInProgress := by
  rw [settleOwned_eq]

theorem settleOwned_phase (event : TransactionEvent) (s : CoordinatorState) :
    (settleOwned event s).phase = s.phase := by rw [settleOwned_eq]

/-! ## Captures and the records they become -/

section Traversals

variable {α β ε : Type} {f : α → Except ε β} {e : ε} {x : α} {l : List α}

theorem mapM_cons_of_error (hx : f x = .error e) :
    (x :: l).mapM f = .error e := by
  rw [List.mapM_cons, hx]
  rfl

theorem mapM_cons_of_ok {b : β} (hx : f x = .ok b) :
    (x :: l).mapM f = .error e ↔ l.mapM f = .error e := by
  rw [List.mapM_cons, hx]
  cases l.mapM f with
  | error other => exact ⟨fun h => by cases h; rfl, fun h => by cases h; rfl⟩
  | ok bs => exact ⟨nofun, nofun⟩

/-- A traversal fails as the first does that fails. -/
theorem mapM_eq_error_iff :
    l.mapM f = .error e ↔ ∃ pre a post, l = pre ++ a :: post ∧
    (∀ x ∈ pre, ∃ b, f x = .ok b) ∧ f a = .error e := by
  constructor
  · induction l with
    | nil => rintro ⟨⟩
    | cons x rest ih =>
        intro hfails
        cases hx : f x with
        | error other =>
            rw [mapM_cons_of_error hx] at hfails
            cases hfails
            exact ⟨[], x, rest, rfl, fun _ hmem => absurd hmem List.not_mem_nil,
              hx⟩
        | ok b =>
            obtain ⟨pre, a, post, rfl, hpre, ha⟩ :=
              ih ((mapM_cons_of_ok hx).mp hfails)
            exact ⟨x :: pre, a, post, rfl,
              List.forall_mem_cons.mpr ⟨⟨b, hx⟩, hpre⟩, ha⟩
  · rintro ⟨pre, a, post, rfl, hpre, ha⟩
    induction pre with
    | nil => exact mapM_cons_of_error ha
    | cons x pre ih =>
        obtain ⟨⟨b, hx⟩, hpre⟩ := List.forall_mem_cons.mp hpre
        exact (mapM_cons_of_ok hx).mpr (ih hpre)

end Traversals

/-- What a snapshot comes to: captures of its audited entries, or the error of
the first that is refused. -/
def CoordinatorSettings.Verdict (settings : CoordinatorSettings)
    (entries : List TrackedEntry) (asked : History) :
    Except AuditError (List Capture) → Prop
  | .ok captures => Captured settings entries asked captures
  | .error e => (entries.filter settings.audits).mapM settings.plan = .error e

/-- The state after that. -/
def CoordinatorState.collected (s : CoordinatorState) :
    Except AuditError (List Capture) → CoordinatorState
  | .ok captures =>
    { s with captures := mergeCaptures s.captures captures,
             phase := .awaitingWrite }
  | .error _ => { s with phase := .idle }

namespace Coordinating

variable {during : Interlude} {s : CoordinatorState} {h : History}

theorem keyText_ensures (entity : EntityRef) (s : CoordinatorState)
    (h : History) :
    (keyText entity s).Ensures during
      (fun h' text s' => ∃ key, h' = h ++ [.asked (.primaryKey entity) key] ∧
        text = key.bind FieldValue.keyText? ∧ s' = s) h := by
  rw [keyText, ensures_bind, ensures_ask]
  intro key
  exact ⟨key, rfl, rfl, rfl⟩

theorem captureEntry_captured {settings : CoordinatorSettings}
    {entry : TrackedEntry} {planned : PlannedCapture}
    (haudits : settings.audits entry = true)
    (hplan : settings.plan entry = .ok planned) (s : CoordinatorState)
    (h : History) :
    (captureEntry entry planned s).Ensures during
      (fun h' capture s' => s' = s ∧ ∃ asked, h' = h ++ asked ∧
        ∀ rest later captures, Captured settings rest later captures →
          Captured settings (entry :: rest) (asked ++ later)
            (capture :: captures)) h := by
  cases haction : planned.action with
  | create =>
      simp only [captureEntry, haction, pure_bind]
      rw [ensures_bind, ensures_ask]
      intro id
      rw [ensures_bind, ensures_ask]
      intro time
      refine ⟨rfl, _, List.append_assoc _ _ _,
        fun rest later captures captured => ?_⟩
      have := Captured.created id time haudits hplan haction captured
      rwa [PlannedCapture.capture_created haction, haction] at this
  | update | delete =>
      simp only [captureEntry, haction]
      rw [ensures_bind]
      refine (keyText_ensures entry.entity s h).mono ?_
      intro h' text s' hpost
      obtain ⟨key, rfl, rfl, rfl⟩ := hpost
      rw [ensures_bind, ensures_ask]
      intro id
      rw [ensures_bind, ensures_ask]
      intro time
      refine ⟨rfl,
        [.asked (.primaryKey entry.entity) key, .asked .freshRecordId id,
          .asked .now time], by simp, fun rest later captures captured => ?_⟩
      have hother : planned.action ≠ .create := by rw [haction]; decide
      have := Captured.known key id time haudits hplan hother captured
      rwa [PlannedCapture.capture_known hother, haction] at this

theorem captureAll_verdict (settings : CoordinatorSettings)
    (entries : List TrackedEntry) :
    ∀ (s : CoordinatorState) (h : History),
      (captureAll settings entries s).Ensures during
        (fun h' captured s' => s' = s ∧ ∃ asked, h' = h ++ asked ∧ Reads asked ∧
          settings.Verdict entries asked captured) h := by
  induction entries with
  | nil =>
      intro s h
      exact ⟨rfl, [], (List.append_nil h).symm, reads_nil, .nil⟩
  | cons entry rest ih =>
      intro s h
      rw [captureAll]
      split
      · next haudits =>
          cases hplan : settings.plan entry with
          | error e =>
              refine ⟨rfl, [], (List.append_nil h).symm, reads_nil, ?_⟩
              rw [CoordinatorSettings.Verdict, List.filter_cons_of_pos haudits]
              exact mapM_cons_of_error hplan
          | ok planned =>
              simp only []
              rw [ensures_bind]
              refine (captureEntry_captured haudits hplan s h).mono ?_
              rintro h' capture s' ⟨rfl, asked, rfl, hcaptured⟩
              have hreads : Reads asked := by
                have := (hcaptured [] [] [] .nil).reads
                rwa [List.append_nil] at this
              rw [ensures_bind]
              refine (ih s' (h ++ asked)).mono ?_
              rintro h' captured s'' ⟨rfl, later, rfl, hlater, verdict⟩
              have hsplit := List.append_assoc h asked later
              cases captured with
              | error e =>
                  refine ⟨rfl, _, hsplit, hreads.append hlater, ?_⟩
                  rw [CoordinatorSettings.Verdict,
                    List.filter_cons_of_pos haudits]
                  exact (mapM_cons_of_ok hplan).mpr verdict
              | ok captures =>
                  exact ⟨rfl, _, hsplit, hreads.append hlater,
                    hcaptured rest later captures verdict⟩
      · next haudits =>
          refine (ih s h).mono ?_
          rintro h' captured s' ⟨rfl, asked, rfl, hreads, verdict⟩
          refine ⟨rfl, asked, rfl, hreads, ?_⟩
          cases captured with
          | error e =>
              rwa [CoordinatorSettings.Verdict, List.filter_cons_of_neg haudits]
          | ok captures =>
              exact .skipped (Bool.eq_false_iff.mpr haudits) verdict

/-- A start joins a transaction, and then it asks for a snapshot and captures it
or refuses it. -/
theorem startCollecting_ensures {settings : CoordinatorSettings}
    {context : String} {post : History → Outcome → CoordinatorState → Prop}
    (hrefused : post (h ++ [.asked .isCancelled true]) (.error .cancelled) s)
    (hbusy : s.commitInProgress = true →
      post (h ++ [.asked .isCancelled false]) (.ok ()) s)
    (hgoes : s.commitInProgress = false →
      (joinTransaction settings context { s with phase := .capturing }).Ensures
        during
        (fun h' joined s' => match joined with
          | .error e => post h' (.error e) { s' with phase := .idle }
          | .ok _ => ∀ entries asked captured, Reads asked →
              settings.Verdict entries asked captured →
              post (h' ++ .asked .entries entries :: asked)
                (captured.map fun _ => ())
                (s'.collected captured))
        (h ++ [.asked .isCancelled false])) :
    (startCollecting settings context s).Ensures during post h := by
  unfold startCollecting
  refine ensures_unlessCancelled hrefused ?_
  rw [ensures_bind, ensures_state]
  split
  · next hcommits => exact hbusy hcommits
  · next hidle =>
      rw [ensures_bind, ensures_enter, ensures_bind]
      refine (hgoes (Bool.eq_false_iff.mpr hidle)).mono ?_
      intro h' joined s' hjoined
      cases joined with
      | error e => exact hjoined
      | ok u =>
          simp only []
          rw [ensures_bind, capture, ensures_bind, ensures_ask]
          intro entries
          refine (captureAll_verdict settings entries s' _).mono ?_
          rintro h' captured s'' ⟨rfl, asked, rfl, hreads, verdict⟩
          have hpost := hjoined entries asked captured hreads verdict
          rw [List.append_cons] at hpost
          cases captured with
          | error e | ok captures => exact hpost

theorem promoteAll_reconciled (captures : List Capture) :
    ∀ (s : CoordinatorState) (h : History),
    (promoteAll captures s).Ensures during
      (fun h' records s' => s' = s ∧ ∃ asked, h' = h ++ asked ∧
        Reconciled captures asked records) h := by
  induction captures with
  | nil =>
      intro s h
      exact ⟨rfl, [], (List.append_nil h).symm, .nil⟩
  | cons capture rest ih =>
      intro s h
      rw [promoteAll, ensures_bind]
      cases haction : capture.action with
      | create =>
          rw [promote, haction, ensures_bind]
          refine (keyText_ensures capture.entity s h).mono ?_
          intro h' text s' hpost
          obtain ⟨key, rfl, rfl, rfl⟩ := hpost
          rw [ensures_pure, ensures_bind]
          refine (ih s' _).mono ?_
          intro h' records s'' hpost
          obtain ⟨rfl, asked, rfl, hreconciled⟩ := hpost
          exact ⟨rfl, _, List.append_assoc _ _ _,
            .created key haction hreconciled⟩
      | update | delete =>
          rw [promote, haction, ensures_pure, ensures_bind]
          refine (ih s h).mono ?_
          intro h' records s' hpost
          obtain ⟨rfl, asked, rfl, hreconciled⟩ := hpost
          exact ⟨rfl, asked, rfl, .known (by rw [haction]; decide) hreconciled⟩

/-- A flush that is finished promotes what is pending, and then delivers it or
adds it to a batch. -/
theorem finish_ensures {context : String}
    {post : History → Outcome → CoordinatorState → Prop}
    (hrefused : post (h ++ [.asked .isCancelled true]) (.error .cancelled) s)
    (hbusy : s.commitInProgress = true →
      post (h ++ [.asked .isCancelled false]) (.ok ()) s)
    (hgoes : s.commitInProgress = false → ∀ asked records current,
      Reconciled s.captures asked records →
      ((match current with
        | none => deliverNow context records
        | some tx => joinBatch context tx records : Coordinating Unit)
        { s with phase := .reconciling, captures := [] }).Ensures during
        (fun h' _ s' => ((do enter .idle; checkCancelled : Coordinating Outcome)
          s').Ensures during
          post h')
        (h ++ [.asked .isCancelled false] ++ asked ++
          [.asked .currentTransaction current])) :
    (finish context s).Ensures during post h := by
  unfold finish
  refine ensures_unlessCancelled hrefused ?_
  rw [ensures_bind, ensures_state]
  split
  · next hcommits => exact hbusy hcommits
  · next hidle =>
      rw [ensures_bind, ensures_change, ensures_bind]
      refine (promoteAll_reconciled s.captures _ _).mono ?_
      rintro h' records s' ⟨rfl, asked, rfl, reconciled⟩
      rw [ensures_bind, ensures_ask]
      intro current
      have hcame :=
        hgoes (Bool.eq_false_iff.mpr hidle) asked records current reconciled
      cases current with
      | none | some tx =>
          simp only []
          rw [ensures_bind]
          exact hcame

end Coordinating
end AuditTrail

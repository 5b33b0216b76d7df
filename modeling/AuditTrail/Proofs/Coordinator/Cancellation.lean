import AuditTrail.Proofs.Coordinator.ConsumerAnswers

/-!
# Tokens that are cancelled meanwhile

A call that finds its token cancelled does nothing. Once it has begun, the
calls that finish a save or tell the coordinator about one or about a
transaction go through to their end, and only then look at the token again. So
whoever cancels the token in between, the state, the calls and the records are
the same as if nobody had, and the result alone tells.

That the rest is the same is `Steadfast`, behind the veil of the token. That
the result tells is `Exchange.Checked`: when the conversation ends, nothing
has happened since the token was looked at, and the result says what was seen.
-/

namespace AuditTrail

open Coordinating Coordinator History

/-- A token. To look at it does not change it; anything else that happens
may. -/
structure Token where
  cancelled : History → Bool
  cancelled_look : ∀ (h : History) (seen : Bool),
    cancelled (h ++ [.asked .isCancelled seen]) = cancelled h

/-- Whoever looks sees whether the token is cancelled. -/
def Token.Shows (k : Token) (past : History) : Happening → Prop
  | .asked .isCancelled cancelled => cancelled = k.cancelled past
  | _ => True

/-- The world and the token. -/
def World.holding (w : World .token) (k : Token) : w.Filling where
  answer
    | past, .isCancelled => k.cancelled past
    | past, query => w.answer past query
  reply := w.reply
  answers past query := by
    cases query with
    | isCancelled => exact .inl rfl
    | currentTransaction | entries | primaryKey _ | freshRecordId | now =>
        exact .refl _
  replies _ _ := .inr rfl

theorem World.Filling.Allows.shows {w : World .token} {k : Token}
    {past : History} {x : Happening} (h : (w.holding k).Allows past x) :
    k.Shows past x := by
  cases x with
  | asked query answer =>
      cases query with
      | isCancelled => exact h
      | currentTransaction | entries | primaryKey _ | freshRecordId | now =>
          trivial
  | called _ | returned _ _ | entered _ _ | left _ _ _ => trivial

/-- The way of a conversation in the world, with the token. -/
structure World.Leads (w : World .token) (k : Token) (x : Exchange Outcome)
    (h : History) (outcome : Outcome) (s : CoordinatorState) : Prop where
  way : x.Way Interlude.quiet h outcome s
  allowed : Always w.Allows [] h
  shows : Always k.Shows [] h

theorem World.exists_leads {w : World .token}
    (hquiet : ∀ past, w.tells past = none) (k : Token) (x : Exchange Outcome) :
    ∃ h outcome s, w.Leads k x h outcome s := by
  obtain ⟨h, outcome, s, way, hallowed⟩ := (w.holding k).goes hquiet x []
  exact ⟨h, outcome, s, way, hallowed.mono fun _ _ => Filling.Allows.world,
    hallowed.mono fun _ _ => Filling.Allows.shows⟩

/-- The result of a call whose token is cancelled at its end, or is not. -/
def Outcome.ofCancelled (cancelled : Bool) : Outcome :=
  if cancelled then .error .cancelled else .ok ()

/-! ## The last look -/

/-- What an answer says about the token. -/
def Query.seen? : (query : Query) → query.Answer → Option Bool
  | .isCancelled, cancelled => some cancelled
  | _, _ => none

/-- Given what was seen of the token and that nothing has happened since, the
result of the conversation is what is seen last. -/
def Exchange.Checked : Exchange Outcome → Option Bool → Prop
  | .done _ outcome, seen => seen.map Outcome.ofCancelled = some outcome
  | .ask query resume, _ =>
      ∀ answer, (resume answer).Checked (query.seen? answer)
  | .call _ _ resume, _ => ∀ found answer, (resume found answer).Checked none
  | .log _ next, seen => next.Checked seen

theorem Exchange.checked_bind {α : Type} {x : Exchange α}
    {next : α → CoordinatorState → Exchange Outcome}
    (hnext : ∀ a s seen, (next a s).Checked seen) :
    ∀ seen, (x.bind next).Checked seen := by
  induction x with
  | done s a => exact hnext a s
  | ask query resume ih => intro seen answer; exact ih answer _
  | call s made resume ih => intro seen found answer; exact ih found answer _
  | log event rest ih => exact ih

theorem Exchange.Way.outcome_eq {x : Exchange Outcome} {during : Interlude}
    {h : History} {outcome : Outcome} {s : CoordinatorState}
    (way : x.Way during h outcome s) (k : Token) :
    ∀ {past : History} {seen : Option Bool}, x.Checked seen →
      (∀ cancelled, seen = some cancelled → cancelled = k.cancelled past) →
      past.Always k.Shows h →
        outcome = Outcome.ofCancelled (k.cancelled (past ++ h)) := by
  induction way with
  | done s outcome =>
      intro past seen hchecked hseen _
      obtain ⟨cancelled, hcancelled, rfl⟩ := Option.map_eq_some_iff.mp hchecked
      rw [List.append_nil, hseen cancelled hcancelled]
  | ask query resume answer rest ih =>
      intro past seen hchecked _ hshows
      rw [List.append_cons]
      refine ih (hchecked answer) (fun cancelled hcancelled => ?_) hshows.2
      cases query with
      | isCancelled =>
          obtain rfl := Option.some.inj hcancelled
          rw [k.cancelled_look]
          exact hshows.1
      | currentTransaction | entries | primaryKey _ | freshRecordId | now =>
          cases hcancelled
  | @call s made resume answer meanwhile found h outcome s' lasts rest ih =>
      -- Whoever was called may have cancelled the token, so nothing is known of
      -- it.
      intro past seen hchecked _ hshows
      rw [List.append_cons, ← List.append_assoc, List.append_cons _ _ h]
      exact ih (hchecked _ _) (fun _ hnone => nomatch hnone)
        (History.always_append.mp hshows.2).2.2
  | log event next rest ih =>
      intro past seen hchecked hseen hshows; exact ih hchecked hseen hshows

namespace Coordinating

def Checks (m : Coordinating Outcome) (seen : Option Bool) : Prop :=
  ∀ s, (m s).Checked seen

variable {α : Type} {seen : Option Bool}

theorem checks_bind {m : Coordinating α} {f : α → Coordinating Outcome}
    (hf : ∀ a seen, Checks (f a) seen) : Checks (m >>= f) seen :=
  fun _ => Exchange.checked_bind (fun a s seen => hf a seen s) seen

theorem checks_bind_state {f : CoordinatorState → Coordinating Outcome}
    (hf : ∀ s, Checks (f s) seen) : Checks (state >>= f) seen :=
  fun s => hf s s

theorem checks_bind_log {event : LogEvent} {f : Unit → Coordinating Outcome}
    (hf : Checks (f ()) seen) : Checks (log event >>= f) seen := hf

theorem checks_done : Checks (pure (.ok ())) (some false) := fun _ => rfl

theorem checks_checkCancelled : Checks checkCancelled seen := by
  intro s cancelled
  cases cancelled <;> exact rfl

theorem checks_unlessCancelled {work : Coordinating Outcome}
    (hwork : Checks work (some false)) :
    Checks (unlessCancelled work) seen := by
  intro s cancelled
  cases cancelled with
  | true => exact rfl
  | false => exact hwork s

theorem isSettled_eq (event : TransactionEvent) (s : CoordinatorState) :
    ∃ settled, isSettled event s = .done s settled ∨
      ∃ told, isSettled event s = .log told (.done s settled) := by
  obtain ⟨context, named⟩ := event
  obtain ⟨phase, transactionPhase, owned, settled, commitInProgress,
    captures, batch⟩ := s
  cases settled with
  | none => exact ⟨false, .inl rfl⟩
  | some settled =>
      cases named with
      | none => exact ⟨false, .inl rfl⟩
      | some tx =>
          by_cases hsame : settled = tx
          · exact ⟨true, .inr ⟨_, congrFun (if_pos hsame) _⟩⟩
          · exact ⟨false, .inl (congrFun (if_neg hsame) _)⟩

/-- A notice that is ignored asks nothing and calls nobody. -/
theorem checks_notice (event : TransactionEvent) {work : Coordinating Outcome}
    (hwork : Checks work (some false)) :
    let notice : Coordinating Outcome := do
      if ← isSettled event then return .ok ()
      work
    Checks notice (some false) := by
  intro notice s
  change ((isSettled event s).bind _).Checked _
  obtain ⟨settled, hsettled | ⟨told, hsettled⟩⟩ := isSettled_eq event s
  all_goals
    rw [hsettled]
    cases settled with
    | true => exact rfl
    | false => exact hwork s

theorem finish_checks (context : String) : Checks (finish context) seen := by
  refine checks_unlessCancelled (checks_bind_state fun s => ?_)
  split
  · exact checks_bind_log checks_done
  · refine checks_bind fun _ _ => checks_bind fun records _ =>
      checks_bind fun tx _ => ?_
    cases tx with
    | none =>
        exact checks_bind fun _ _ => checks_bind fun _ _ =>
          checks_checkCancelled
    | some tx =>
        exact checks_bind fun _ _ => checks_bind fun _ _ =>
          checks_checkCancelled

theorem abandonFlush_checks (context : String) (reason : FlushFailure) :
    Checks (abandonFlush context reason) seen :=
  checks_unlessCancelled (checks_bind_state fun _ => checks_bind fun _ _ =>
    checks_bind fun _ _ => checks_bind fun _ _ => checks_checkCancelled)

theorem transactionCommitting_checks (event : TransactionEvent) :
    Checks (transactionCommitting event) seen := by
  refine checks_unlessCancelled (checks_bind_state fun s => ?_)
  split
  · exact checks_done
  · exact checks_bind fun _ _ => checks_bind fun _ _ => checks_bind fun _ _ =>
      checks_checkCancelled

theorem transactionCommitted_checks (event : TransactionEvent) :
    Checks (transactionCommitted event) seen :=
  checks_unlessCancelled
    (checks_notice event (checks_bind_state fun _ => checks_bind fun _ _ =>
      checks_bind fun _ _ => checks_bind fun _ _ => checks_checkCancelled))

theorem discardBatch_checks (event : TransactionEvent)
    (status : TransactionStatus) :
    Checks (discardBatch event status) seen :=
  checks_unlessCancelled
    (checks_notice event (checks_bind_state fun _ => checks_bind fun _ _ =>
      checks_bind fun _ _ => checks_bind fun _ _ => checks_checkCancelled))

end Coordinating

/-! ## The calls that go through -/

/-- The host tells what becomes of a save or of a transaction. -/
def HostCall.isReport : HostCall → Bool
  | .startCollecting _ | .clearCaptures | .clearBatch => false
  | _ => true

namespace Coordinating

theorem serve_steadfast (settings : CoordinatorSettings) {made : HostCall}
    (hmade : made.isReport = true) :
    Steadfast (serve settings made) ∧ Checks (serve settings made) none := by
  cases made with
  | startCollecting _ | clearCaptures | clearBatch => cases hmade
  | finish context => exact ⟨finish_steadfast context, finish_checks context⟩
  | saveFailed context =>
      exact ⟨abandonFlush_steadfast context .failed,
        abandonFlush_checks context .failed⟩
  | saveCanceled context =>
      exact ⟨abandonFlush_steadfast context .canceled,
        abandonFlush_checks context .canceled⟩
  | transactionCommitting event =>
      exact ⟨transactionCommitting_steadfast event,
        transactionCommitting_checks event⟩
  | transactionCommitted event =>
      exact ⟨transactionCommitted_steadfast event,
        transactionCommitted_checks event⟩
  | transactionRolledBack event =>
      exact ⟨discardBatch_steadfast event .rolledBack,
        discardBatch_checks event .rolledBack⟩
  | transactionFailed event =>
      exact ⟨discardBatch_steadfast event .failed,
        discardBatch_checks event .failed⟩

theorem way_unlessCancelled {work : Coordinating Outcome} {during : Interlude}
    {s t : CoordinatorState} {h : History} {outcome : Outcome}
    (way : (unlessCancelled work s).Way during h outcome t) :
    ∃ cancelled later, h = .asked .isCancelled cancelled :: later ∧
      (cancelled = false → (work s).Way during later outcome t) := by
  cases way with
  | ask _ _ cancelled rest =>
      refine ⟨cancelled, _, rfl, ?_⟩
      rintro rfl
      exact rest

end Coordinating

/-- Among collaborators who never call the coordinator, a call with a token that
is not cancelled when it begins comes to an end. Whether or not the token is
cancelled meanwhile, at any time, nothing is different but the result. -/
theorem cancellation_shows_in_result {settings : CoordinatorSettings}
    {made : HostCall} (hmade : made.isReport = true) {w : World .token}
    (hquiet : ∀ past, w.tells past = none) {k k' : Token}
    (hk : k.cancelled [] = false) (hk' : k'.cancelled [] = false)
    {s s' : CoordinatorState} (hs : s.Alike s') :
    (∃ h outcome t, w.Leads k (serve settings made s) h outcome t) ∧
      ∀ {h h' : History} {outcome outcome' : Outcome} {t t' : CoordinatorState},
        w.Leads k (serve settings made s) h outcome t →
        w.Leads k' (serve settings made s') h' outcome' t' →
          t.Alike t' ∧ h.Alike .token h' ∧
            List.Forall₂ Call.Alike h.calls h'.calls ∧
            h.deliveries.map (List.map AuditRecord.content) =
              h'.deliveries.map (List.map AuditRecord.content) ∧
            outcome = Outcome.ofCancelled (k.cancelled h) ∧
            outcome' = Outcome.ofCancelled (k'.cancelled h') := by
  obtain ⟨⟨work, hwork, halike⟩, hchecks⟩ := serve_steadfast settings hmade
  refine ⟨World.exists_leads hquiet k _, ?_⟩
  rintro h h' outcome outcome' t t' ⟨way, hallowed, hshows⟩
    ⟨way', hallowed', hshows'⟩
  have houtcome := way.outcome_eq k (hchecks s) nofun hshows
  have houtcome' := way'.outcome_eq k' (hchecks s') nofun hshows'
  rw [hwork] at way way'
  obtain ⟨cancelled, later, rfl, hgoes⟩ := way_unlessCancelled way
  obtain ⟨cancelled', later', rfl, hgoes'⟩ := way_unlessCancelled way'
  obtain rfl : cancelled = false := hshows.1.trans hk
  obtain rfl : cancelled' = false := hshows'.1.trans hk'
  have hlooked : Happening.Alike .token (.asked .isCancelled false)
      (.asked .isCancelled false) :=
    .asked .isCancelled (.inl rfl)
  obtain ⟨hlater, -, hends⟩ := (halike .token s s' hs).ways w.determines_quiet
    (.cons hlooked .nil) (hgoes rfl) (hgoes' rfl) hallowed.2 hallowed'.2
  have hhistory := History.Alike.append (.cons hlooked .nil) hlater
  exact ⟨hends, hhistory, hhistory.calls, hhistory.deliveries_eq,
    houtcome, houtcome'⟩

namespace Sample

/-- A token that is cancelled when a commit succeeds, if it ever is. -/
def cancelledByCommit (ever : Bool) : Token where
  cancelled h := ever && h.any fun x => x.committed?.isSome
  cancelled_look h seen := by simp [Happening.committed?]

/-- An order was captured inside an owned transaction. -/
def owning : CoordinatorState :=
  { CoordinatorState.initial with
    phase := .awaitingWrite
    transactionPhase := .opened
    owned := some (transaction 5)
    captures :=
      [⟨⟨⟨⟨1⟩⟩, ⟨1⟩, .create, "Order", .empty, "\x7b\x7d", "sales",
        Instant.epoch⟩, none⟩] }

def afterwards : CoordinatorState :=
  { owning with
    phase := .idle
    transactionPhase := .committed
    owned := none
    settled := some (transaction 5)
    captures := [] }

/-- The capture becomes a record, and the record is announced, committed,
delivered and reported. -/
def committing (cancelled : Bool) : History :=
  let records := owning.captures.map fun capture => capture.promote (some "1")
  [.asked .isCancelled false, .asked (.primaryKey ⟨1⟩) (some (.int 1)),
    .asked .currentTransaction (some (transaction 5)),
    .called (.preCommit records (notice 5)),
    .returned (.preCommit records (notice 5)) (.ok ()),
    .called (.commit (transaction 5)),
    .returned (.commit (transaction 5)) (.ok ()),
    .called (.consume records), .returned (.consume records) (.ok ()),
    .called (.finished (notice 5) .committed),
    .returned (.finished (notice 5) .committed) (.ok ()),
    .asked .isCancelled cancelled]

theorem way_called {α : Type} {s s' : CoordinatorState} {made : Call}
    {answer : made.Answer}
    {resume : CoordinatorState → made.Answer → Exchange α} {h : History} {a : α}
    (rest : (resume s answer).Way Interlude.quiet h a s') :
    (Exchange.call s made resume).Way Interlude.quiet
      (.called made :: .returned made answer :: h) a s' :=
  .call s made resume answer ⟨rfl, rfl⟩ rest

theorem way_committing (cancelled : Bool) :
    (serve (settings true) (.finish "req") owning).Way Interlude.quiet
      (committing cancelled)
      (Outcome.ofCancelled cancelled) afterwards := by
  refine .ask _ _ _ (.ask _ _ _ (.ask _ _ _ (.log _ _ ?_)))
  refine way_called
    (way_called (.log _ _ (way_called (.log _ _ (way_called ?_)))))
  refine .ask _ _ _ ?_
  cases cancelled <;> exact .done _ _

theorem leads_committing (cancelled : Bool) :
    (bystanders .token).Leads (cancelledByCommit cancelled)
      (serve (settings true) (.finish "req") owning) (committing cancelled)
      (Outcome.ofCancelled cancelled) afterwards where
  way := way_committing cancelled
  allowed := ⟨.inl rfl, rfl, rfl, trivial, ⟨rfl, .inr rfl⟩, trivial,
    ⟨rfl, .inr rfl⟩, trivial, ⟨rfl, .inr rfl⟩, trivial, ⟨rfl, .inr rfl⟩,
    .inl rfl, trivial⟩
  shows := by
    cases cancelled <;>
      exact ⟨rfl, trivial, trivial, trivial, trivial, trivial, trivial, trivial,
        trivial, trivial,
        trivial, rfl, trivial⟩

end Sample

/-- The token is cancelled while the coordinator commits, and the records are
delivered all the same. -/
theorem cancellation_shows_sample :
    let h := Sample.committing true
    let h' := Sample.committing false
    h.deliveries.map (List.map AuditRecord.content) =
        h'.deliveries.map (List.map AuditRecord.content) ∧
      h.delivered.length = 1 ∧
      Outcome.ofCancelled ((Sample.cancelledByCommit true).cancelled h) =
        .error .cancelled ∧
      Outcome.ofCancelled ((Sample.cancelledByCommit false).cancelled h') =
        .ok () := by
  intro h h'
  have hreport : HostCall.isReport (.finish "req") = true := rfl
  have hquiet : ∀ past, (Sample.bystanders .token).tells past = none :=
    fun _ => rfl
  have hfresh : ∀ ever,
      (Sample.cancelledByCommit ever).cancelled [] = false := by
    decide
  obtain ⟨-, hsame⟩ :=
    cancellation_shows_in_result hreport hquiet (hfresh true) (hfresh false)
      (.refl Sample.owning)
  obtain ⟨-, -, -, hdeliveries, houtcome, houtcome'⟩ :=
    hsame (Sample.leads_committing true) (Sample.leads_committing false)
  exact ⟨hdeliveries, rfl, houtcome.symm, houtcome'.symm⟩

end AuditTrail

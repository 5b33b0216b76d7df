import AuditTrail.Proofs.Memory.Saves

/-!
# The digest of a desk

What a host learns from its coordinator: the results of its calls, and the
contents of what was delivered. Together with the tracked entities and the
contents that are pending they make the `Digest` of a desk, and a digest is
enough to say what the next step does to it. `Digest.step` says it, and knows
nothing of transactions, batches and phases.

A desk keeps to its digest in two situations. It is `Outside` if the
coordinator opens no transaction and there is none; it is `Paired` if the open
transaction, when there is one, is the one that the coordinator owns, and
nothing stands in the way of its commit. Each step keeps each situation and
does to the digest what `Digest.step` says. The theorem about runs,
`digest_run`, is stated once for both.
-/

namespace AuditTrail

open Coordinating Coordinator History Proceedings

/-- What is handed on of contents: nothing if there are none. -/
def Content.slices (contents : List Content) : List (List Content) :=
  if contents.isEmpty then [] else [contents]

theorem Content.flatten_slices (contents : List Content) :
    (Content.slices contents).flatten = contents := by
  unfold Content.slices
  split
  · next hempty => rw [List.isEmpty_iff.mp hempty]; rfl
  · exact List.append_nil contents

theorem map_slices (records : List AuditRecord) :
    (slices records).map (List.map AuditRecord.content) =
      Content.slices (records.map AuditRecord.content) := by
  unfold slices Content.slices
  rw [List.isEmpty_map]
  split <;> rfl

/-- The contents of what was delivered, slice by slice. -/
def History.contents (h : History) : List (List Content) :=
  (deliveries h).map (List.map AuditRecord.content)

theorem contents_append (h h' : History) :
    contents (h ++ h') = contents h ++ contents h' := by
  rw [contents, deliveries_append, List.map_append]
  rfl

theorem Proceedings.Went.contents_eq {p p' : Proceedings} {made : List Call}
    {u : MemoryUnitOfWork} (went : p.Went made u p') :
    contents p'.history =
      contents p.history ++ (made.filterMap Call.delivery?).map
        (List.map AuditRecord.content) := by
  obtain ⟨h, hh, hmade⟩ := went.history_eq
  rw [hh, contents_append, ← deliveries_of_calls hmade]
  rfl

structure Digest where
  work : MemoryUnitOfWork
  pending : List Content
  delivered : List (List Content)
  outcomes : List Outcome

namespace Digest

/-- What a step does. -/
def step (settings : CoordinatorSettings) (g : Digest) : HostStep → Digest
  | .edit e => { g with work := (e.apply g.work).tracking }
  | .save .start =>
      let collected := settings.collect g.work g.pending
      { g with pending := collected.2, outcomes := g.outcomes ++ [collected.1] }
  | .save .finish =>
      { g with
        pending := []
        delivered := g.delivered ++
          Content.slices (g.pending.map (Content.written g.work.primaryKey))
        outcomes := g.outcomes ++ [.ok ()] }
  | .save (.abandon _) =>
      { g with pending := [], outcomes := g.outcomes ++ [.ok ()] }

def run (settings : CoordinatorSettings) (g : Digest) (script : List HostStep) :
    Digest :=
  script.foldl (step settings) g

theorem run_append (settings : CoordinatorSettings) (g : Digest)
    (first second : List HostStep) :
    g.run settings (first ++ second) =
      (g.run settings first).run settings second :=
  List.foldl_append

end Digest

namespace Desk

def digest (d : Desk) : Digest :=
  ⟨d.work.tracking, d.coordinator.pending, contents d.history, d.outcomes⟩

variable {settings : CoordinatorSettings} {c : Circumstances} {d : Desk}

theorem digest_edit (e : Edit) (d : Desk) :
    (d.step settings c (.edit e)).digest = d.digest.step settings (.edit e) :=
  congrArg (fun work =>
    (⟨work, d.coordinator.pending, contents d.history, d.outcomes⟩ : Digest))
    (e.tracking_apply d.work)

/-- The digest after a call that leaves the tracked entities alone. -/
theorem digest_of_went {s : CoordinatorState} {p : Proceedings}
    {made : List Call} {u : MemoryUnitOfWork} {outcome : Outcome}
    (went : d.toProceedings.Went made u p)
    (htracking : u.tracking = d.work.tracking) :
    (⟨p, s, d.outcomes ++ [outcome]⟩ : Desk).digest =
      ⟨d.work.tracking, s.pending,
        contents d.history ++ (made.filterMap Call.delivery?).map
          (List.map AuditRecord.content),
        d.outcomes ++ [outcome]⟩ := by
  rw [digest, went.work_eq, htracking, went.contents_eq]

/-- Whatever transaction is joined, collecting does the same to the digest. -/
theorem digest_start (hc : c.Uncancelled)
    (hidle : d.coordinator.commitInProgress = false) {s₁ : CoordinatorState}
    {p₁ : Proceedings} {made : List Call} {u : MemoryUnitOfWork}
    (hjoined : (joinTransaction settings d.work.contextId
      { d.coordinator with phase := .capturing }).hold c
        (d.toProceedings.asked c .isCancelled) =
        (.ok (), s₁, p₁))
    (hcaptures : s₁.captures = d.coordinator.captures)
    (went : d.toProceedings.Went made u p₁)
    (htracking : u.tracking = d.work.tracking)
    (hsilent : made.filterMap Call.delivery? = []) :
    ∃ phase captures outcome p', d.save settings c .start =
        ⟨p', { s₁ with captures := captures, phase := phase },
          d.outcomes ++ [outcome]⟩ ∧
      p'.work = u ∧
      (d.save settings c .start).digest =
        d.digest.step settings (.save .start) := by
  obtain ⟨outcome, phase, captures, p', hheld, hcollected, went'⟩ :=
    startCollecting_hold hc d.work.contextId hidle hjoined
  have hsave := save_eq settings .start hheld
  have wents := went.trans went'
  refine ⟨phase, captures, outcome, p', hsave, went'.work_eq.trans went.work_eq,
    ?_⟩
  rw [CoordinatorState.pending, hcaptures] at hcollected
  have hcollect : settings.collect p₁.work
      (d.coordinator.captures.map Capture.content) =
      settings.collect d.work.tracking d.coordinator.pending := by
    rw [went.work_eq, ← settings.collect_tracking u, htracking]
    rfl
  rw [hcollect] at hcollected
  have hp₁ : p₁.work.tracking = d.work.tracking := by
    rw [went.work_eq, htracking]
  rw [hsave, digest_of_went wents hp₁]
  simp only [digest, Digest.step, ← hcollected, List.append_nil, hsilent,
    List.map_nil]
  rfl

theorem digest_finish_outside (hc : c.Uncancelled)
    (hidle : d.coordinator.commitInProgress = false)
    (htx : d.work.transaction = none) :
    ∃ p', d.step settings c (.save .finish) =
        ⟨p', { d.coordinator with phase := .idle, captures := [], batch := [] },
          d.outcomes ++ [.ok ()]⟩ ∧
      p'.work = d.work ∧
      (d.step settings c (.save .finish)).digest =
        d.digest.step settings (.save .finish) := by
  obtain ⟨records, p', hheld, hcontents, went⟩ :=
    finish_hold_outside hc d.work.contextId hidle htx
  have hstep : d.step settings c (.save .finish) = _ :=
    save_eq settings .finish hheld
  refine ⟨p', hstep, went.work_eq, ?_⟩
  rw [hstep, digest_of_went went rfl, delivery?_consuming, map_slices,
    hcontents]
  rfl

theorem digest_abandon (hc : c.Uncancelled) (settings : CoordinatorSettings)
    (reason : FlushFailure) (d : Desk) :
    ∃ settled phase p', d.step settings c (.save (.abandon reason)) =
        ⟨p', { d.coordinator with
                captures := [], phase := .idle, owned := none,
                settled := settled, transactionPhase := phase,
                batch := if d.coordinator.owned.isSome then []
                  else d.coordinator.batch },
          d.outcomes ++ [.ok ()]⟩ ∧
      p'.work = d.work.release d.coordinator.owned ∧
      (d.step settings c (.save (.abandon reason))).digest =
        d.digest.step settings (.save (.abandon reason)) := by
  obtain ⟨settled, phase, p', hheld, went⟩ :=
    abandonFlush_hold hc d.work.contextId reason d.coordinator d.toProceedings
  rw [← SaveCall.serve_abandon settings] at hheld
  have hstep : d.step settings c (.save (.abandon reason)) = _ :=
    save_eq settings _ hheld
  refine ⟨settled, phase, p', hstep, went.work_eq, ?_⟩
  rw [hstep, digest_of_went went (d.work.tracking_release _),
    delivery?_releaseCalls]
  exact congrArg (fun delivered => (⟨_, _, delivered, _⟩ : Digest))
    (List.append_nil _)

/-! ## Two situations -/

/-- No transaction is open, and the coordinator opens none. -/
structure Outside (settings : CoordinatorSettings) (d : Desk) : Prop where
  opens_none : settings.options.autoOpenTransaction = false
  transaction_eq : d.work.transaction = none
  idle : d.coordinator.commitInProgress = false

/-- If a transaction is open, the coordinator owns it and can commit it. -/
structure Paired (d : Desk) : Prop where
  transaction_eq : d.work.transaction = d.coordinator.owned
  unarmed : d.work.commitFailureArmed = false
  idle : d.coordinator.commitInProgress = false
  batch_eq : d.coordinator.batch = []

/-- What is asked of a step: the digest shows all of it, and the situation is
kept. -/
def Keeps (settings : CoordinatorSettings) (c : Circumstances)
    (situation : Desk → Prop) (d : Desk) (st : HostStep) : Prop :=
  (d.step settings c st).digest = d.digest.step settings st ∧
    situation (d.step settings c st)

theorem digest_run {situation : Desk → Prop} : ∀ {script : List HostStep},
    (∀ st ∈ script, ∀ d : Desk, situation d → Keeps settings c situation d st) →
    ∀ {d : Desk}, situation d →
      (d.run settings c script).digest = d.digest.run settings script ∧
        situation (d.run settings c script) := by
  intro script
  induction script with
  | nil => intro _ d hd; exact ⟨rfl, hd⟩
  | cons st rest ih =>
      intro hkeeps d hd
      obtain ⟨hstep, hnext⟩ := hkeeps st List.mem_cons_self d hd
      obtain ⟨hrun, hend⟩ :=
        ih (fun other hmem => hkeeps other (List.mem_cons_of_mem st hmem)) hnext
      refine ⟨hrun.trans ?_, hend⟩
      rw [hstep]
      rfl

theorem Outside.edit (hd : d.Outside settings) (e : Edit) :
    Keeps settings c (Outside settings) d (.edit e) :=
  ⟨digest_edit e d, hd.opens_none,
    (e.transaction_apply d.work).trans hd.transaction_eq, hd.idle⟩

theorem Paired.edit (hd : d.Paired) {e : Edit} (hsound : e.injects = false) :
    Keeps settings c Paired d (.edit e) :=
  ⟨digest_edit e d, (e.transaction_apply d.work).trans hd.transaction_eq,
    (Edit.commitFailureArmed_apply hsound d.work).trans hd.unarmed, hd.idle,
    hd.batch_eq⟩

section Calls

variable (hc : c.Uncancelled)
include hc

theorem Outside.start (hd : d.Outside settings) :
    Keeps settings c (Outside settings) d (.save .start) := by
  have hjoined := joinTransaction_hold_outside c d.work.contextId
    { d.coordinator with phase := .capturing } (p :=
      d.toProceedings.asked c .isCancelled)
    hd.opens_none hd.transaction_eq
  have went :=
    ((went_refl d.toProceedings).asked c .isCancelled).asked c
      .currentTransaction
  obtain ⟨phase, captures, outcome, p', hsave, hwork, hdigest⟩ :=
    digest_start hc hd.idle hjoined rfl went rfl rfl
  refine ⟨hdigest, hd.opens_none, ?_, ?_⟩
  · show (d.save settings c .start).work.transaction = none
    rw [hsave]
    exact (congrArg _ hwork).trans hd.transaction_eq
  · exact idle_save settings c .start hd.idle

theorem Outside.finish (hd : d.Outside settings) :
    Keeps settings c (Outside settings) d (.save .finish) := by
  obtain ⟨p', hstep, hwork, hdigest⟩ :=
    digest_finish_outside hc hd.idle hd.transaction_eq
  refine ⟨hdigest, hd.opens_none, ?_, idle_save settings c .finish hd.idle⟩
  rw [hstep]
  exact (congrArg _ hwork).trans hd.transaction_eq

theorem Outside.abandon (hd : d.Outside settings) (reason : FlushFailure) :
    Keeps settings c (Outside settings) d (.save (.abandon reason)) := by
  obtain ⟨settled, phase, p', hstep, hwork, hdigest⟩ :=
    digest_abandon hc settings reason d
  refine ⟨hdigest, hd.opens_none, ?_,
    idle_save settings c (.abandon reason) hd.idle⟩
  rw [hstep]
  exact (congrArg _
    (hwork.trans (d.work.release_of_not_open hd.transaction_eq))).trans
    hd.transaction_eq

/-- However a transaction is joined, it is the owned one afterwards. -/
theorem Paired.join (hd : d.Paired) (settings : CoordinatorSettings) :
    ∃ phase p₁ made u, (joinTransaction settings d.work.contextId
        { d.coordinator with phase := .capturing }).hold c
          (d.toProceedings.asked c .isCancelled) =
          (.ok (), { d.coordinator with
            phase := .capturing, owned :=
              u.transaction, transactionPhase := phase }, p₁) ∧
      d.toProceedings.Went made u p₁ ∧ u.tracking = d.work.tracking ∧
      u.commitFailureArmed = d.work.commitFailureArmed ∧
        made.filterMap Call.delivery? = [] := by
  have hasked := (went_refl d.toProceedings).asked c .isCancelled
  cases htx : d.work.transaction with
  | some tx =>
      obtain ⟨phase, hjoined⟩ :=
        joinTransaction_hold_inside c settings d.work.contextId
        { d.coordinator with phase := .capturing } (p :=
          d.toProceedings.asked c .isCancelled) htx
      refine ⟨phase, _, [], d.work, ?_, hasked.asked c .currentTransaction,
        rfl, rfl, rfl⟩
      rw [hjoined, hd.transaction_eq]
  | none =>
      have howned : d.coordinator.owned = none :=
        hd.transaction_eq.symm.trans htx
      cases hauto : settings.options.autoOpenTransaction with
      | false =>
          have hjoined := joinTransaction_hold_outside c d.work.contextId
            { d.coordinator with phase := .capturing }
            (p := d.toProceedings.asked c .isCancelled) hauto htx
          refine ⟨d.coordinator.transactionPhase, _, [], d.work, ?_,
            hasked.asked c .currentTransaction, rfl, rfl, rfl⟩
          rw [hjoined, hd.transaction_eq]
      | true =>
          obtain ⟨tx, p₁, hjoined, went⟩ := joinTransaction_hold_opens
            (s := { d.coordinator with phase := .capturing })
            (p := d.toProceedings.asked c .isCancelled) hc d.work.contextId
              hauto howned htx
          have hbegin : (d.toProceedings.asked c .isCancelled).work.begin tx =
              d.work.begin tx := rfl
          rw [hbegin, d.work.begin_of_none htx] at went
          exact ⟨_, _, _, _, hjoined, hasked.trans went, rfl, rfl, rfl⟩

theorem Paired.start (hd : d.Paired) :
    Keeps settings c Paired d (.save .start) := by
  obtain ⟨_, p₁, made, u, hjoined, went, htracking, harmed, hsilent⟩ :=
    hd.join hc settings
  obtain ⟨phase, captures, outcome, p', hstep, hwork, hdigest⟩ :=
    digest_start hc hd.idle hjoined rfl went htracking hsilent
  refine ⟨hdigest, ?_⟩
  rw [step, hstep]
  exact ⟨congrArg _ hwork, (congrArg _ hwork).trans (harmed.trans hd.unarmed),
    hd.idle, hd.batch_eq⟩

theorem Paired.finish (hd : d.Paired) :
    Keeps settings c Paired d (.save .finish) := by
  cases howned : d.coordinator.owned with
  | none =>
      obtain ⟨p', hstep, hwork, hdigest⟩ :=
        digest_finish_outside hc hd.idle (hd.transaction_eq.trans howned)
      refine ⟨hdigest, ?_⟩
      rw [hstep]
      exact ⟨(congrArg _ hwork).trans hd.transaction_eq,
        (congrArg _ hwork).trans hd.unarmed, hd.idle, rfl⟩
  | some tx =>
      have htx := hd.transaction_eq.trans howned
      obtain ⟨records, p', hheld, hcontents, went⟩ :=
        finish_hold_committed hc d.work.contextId hd.idle howned htx hd.unarmed
      rw [d.work.commit_of_unarmed htx hd.unarmed] at went
      have hstep : d.step settings c (.save .finish) = _ :=
        save_eq settings .finish hheld
      rw [Keeps, hstep]
      refine ⟨?_, congrArg _ went.work_eq,
        (congrArg _ went.work_eq).trans hd.unarmed, rfl, rfl⟩
      rw [digest_of_went went rfl, delivery?_commitCalls, hd.batch_eq,
        List.nil_append, map_slices, hcontents]
      rfl

theorem Paired.abandon (hd : d.Paired) (reason : FlushFailure) :
    Keeps settings c Paired d (.save (.abandon reason)) := by
  obtain ⟨settled, phase, p', hstep, hwork, hdigest⟩ :=
    digest_abandon hc settings reason d
  refine ⟨hdigest, ?_⟩
  rw [hstep]
  refine ⟨?_, ?_, hd.idle, ?_⟩
  · exact (congrArg _ hwork).trans
      (d.work.transaction_release hd.transaction_eq)
  · exact (congrArg _ (hwork.trans (d.work.release_eq _))).trans hd.unarmed
  · show (if d.coordinator.owned.isSome then [] else d.coordinator.batch) = []
    rw [hd.batch_eq, ite_self]

/-- Every step keeps a pair, unless it makes a commit or a rollback fail. -/
theorem Paired.keeps (hd : d.Paired) {st : HostStep}
    (hsound : ∀ e, st = .edit e → e.injects = false) :
    Keeps settings c Paired d st := by
  cases st with
  | edit e => exact hd.edit (hsound e rfl)
  | save call =>
      cases call with
      | start => exact hd.start hc
      | finish => exact hd.finish hc
      | abandon reason => exact hd.abandon hc reason

theorem Outside.keeps (hd : d.Outside settings) (st : HostStep) :
    Keeps settings c (Outside settings) d st := by
  cases st with
  | edit e => exact hd.edit e
  | save call =>
      cases call with
      | start => exact hd.start hc
      | finish => exact hd.finish hc
      | abandon reason => exact hd.abandon hc reason

end Calls

end Desk
end AuditTrail

import AuditTrail.Proofs.Coordinator.Attribution
import AuditTrail.Proofs.Coordinator.Rest

/-!
# The order of delivery

Records reach the consumer on three ways: at once, with a commit of the host,
and with a commit of the coordinator's own. On none of them does one overtake
another. What a turn delivers and what it leaves in the batch it took from the
front of what was batched before and what it promotes itself, in that order,
or it dropped one of the two. So over a session the records that were
delivered, and behind them those that still wait, are the promoted ones with
some left out.
-/

namespace AuditTrail

open Coordinating Coordinator History

/-- Captures are promoted one by one, in their order. -/
theorem forall₂_promotions (captures : List Capture) :
    ∀ keys : List (Option FieldValue),
    List.Forall₂ (fun capture record => ∃ key, record = capture.promote key)
      captures
      (promotions captures keys) := by
  induction captures with
  | nil => intro keys; exact .nil
  | cons capture rest ih =>
      intro keys
      cases haction : capture.action with
      | create =>
          simp only [promotions, haction]
          exact .cons ⟨_, rfl⟩ (ih _)
      | update | delete =>
          simp only [promotions, haction]
          exact .cons ⟨_, rfl⟩ (ih _)

/-- A turn that finishes a flush promotes all that is pending, if nothing keeps
it from beginning. -/
theorem Turn.Taken.promoted_eq {settings : CoordinatorSettings} {t : Turn}
    {context : String} (taken : t.Taken settings Interlude.quiet)
    (hmade : t.made = .finish context) (admitted : t.Admitted)
    (hidle : t.before.commitInProgress = false) :
    t.promoted = promotions t.before.captures (keys t.history) := by
  have course := taken.course
  obtain ⟨s, made, h, outcome, s'⟩ := t
  simp only at course hmade
  subst hmade
  cases course with
  | refused => cases admitted
  | busy _ hbusy => cases hidle.symm.trans hbusy
  | ignored hending | ended _ hending => cases hending
  | abandoned hother | released _ hother => cases hother
  | delivered hseen | batched _ hseen | committed hseen | failed _ hseen =>
      exact promoted_finish rfl hseen

/-- What a turn delivers and what it keeps was batched before it or is promoted
by it, and the order is the same. -/
theorem Turn.Taken.keeps_order {settings : CoordinatorSettings} {t : Turn}
    (taken : t.Taken settings Interlude.quiet) :
    (delivered t.history ++ t.after.batch).Sublist
      (t.before.batch ++ t.promoted) := by
  cases taken.fate with
  | kept _ hdelivered hbatch => rw [hdelivered, hbatch, List.nil_append]
  | dropped _ _ hdelivered hbatch =>
      rw [hdelivered, hbatch]
      exact List.nil_sublist _
  | committed _ _ hdelivered hbatch => rw [hdelivered, hbatch, List.append_nil]
  | flushed _ _ _ hdelivered hbatch =>
      rw [hdelivered, hbatch, List.append_nil]
      exact List.sublist_append_right _ _

theorem Session.keeps_order {settings : CoordinatorSettings}
    {s s' : CoordinatorState} {ts : List Turn}
    (session : Session settings Interlude.quiet s ts s') :
    (delivered (accountOf ts) ++ s'.batch).Sublist
      (s.batch ++ ts.flatMap Turn.promoted) := by
  induction session with
  | nil s =>
      rw [List.flatMap_nil, List.append_nil]
      exact List.Sublist.refl s.batch
  | @cons t ts s' taken _ ih =>
      rw [accountOf_cons, delivered_append, Turn.delivered_account,
        List.append_assoc, List.flatMap_cons,
        ← List.append_assoc t.before.batch]
      refine (ih.append_left _).trans ?_
      rw [← List.append_assoc]
      exact taken.keeps_order.append_right _

/-- Records are delivered first in, first out. At any time the records that
were delivered, and behind them those in the batch, are the records that were
promoted so far, in the order in which they were, with some left out. A flush
that is finished promotes its captures in the order in which they are pending,
and nothing else promotes any. -/
theorem delivered_in_order_of_promotion {settings : CoordinatorSettings}
    {s : CoordinatorState} {ts : List Turn}
    (session : Session settings Interlude.quiet CoordinatorState.initial ts s) :
    (delivered (accountOf ts) ++ s.batch).Sublist (ts.flatMap Turn.promoted) ∧
    (∀ t ∈ ts, ∀ context, t.made = .finish context → t.Admitted →
      List.Forall₂ (fun capture record => ∃ key, record = capture.promote key)
        t.before.captures t.promoted) ∧
    ∀ t ∈ ts, t.promoted ≠ [] → ∃ context, t.made = .finish context := by
  refine ⟨session.keeps_order, fun t ht context hmade admitted => ?_,
    fun t _ hpromoted => ?_⟩
  · obtain ⟨earlier, later, rfl⟩ := List.append_of_mem ht
    obtain ⟨past, taken, -⟩ := session.cut
    have run : Situation.Run ⟨CoordinatorState.initial, []⟩ _ ⟨t.before, []⟩ :=
      past.run (Interlude.nested_follows settings 0) .nil
    rw [taken.promoted_eq hmade admitted run.rests.1]
    exact forall₂_promotions _ _
  · by_contra hother
    exact hpromoted
      (Turn.promoted_other fun context hmade => hother ⟨context, hmade⟩)

/-- One flush outside any transaction and two in transactions of the host, the
last of which is still open. -/
theorem delivered_in_order_of_promotion_sample :
    let plays := [(none, Sample.order 1, .startCollecting "req"),
      (none, Sample.order 1, .finish "req"),
      (some (Sample.transaction 1), Sample.order 2, .startCollecting "req"),
      (some (Sample.transaction 1), Sample.order 2, .finish "req"),
      (none, Sample.order 2, .transactionCommitted (Sample.notice 1)),
      (some (Sample.transaction 2), Sample.order 3, .startCollecting "req"),
      (some (Sample.transaction 2), Sample.order 3, .finish "req")]
    let ts := turnsIn (Sample.settings false) CoordinatorState.initial
      (Sample.quietly plays)
    let s := endOf CoordinatorState.initial ts
    (delivered (accountOf ts)).length = 2 ∧ s.batch.length = 1 ∧
      (delivered (accountOf ts) ++ s.batch).Sublist
        (ts.flatMap Turn.promoted) :=
  ⟨by decide +kernel, by decide +kernel,
    (delivered_in_order_of_promotion (Sample.quietly_session _ _ _)).1⟩

end AuditTrail

import AuditTrail.Proofs.Coordinator.Quiet

/-!
# What is left of a start

A start that finds no transaction may open one, and then it may still fail.
`Leaves` says what is open and what is owned after it, in each of the ways it
can go. If the token turns out cancelled the transaction is rolled back at
once. If it is the capture that fails nobody rolls it back: the coordinator
still owns it, and it is still open.
-/

namespace AuditTrail

open Coordinating Coordinator History

namespace History

theorem uncancelled_append (h h' : History) :
    uncancelled (h ++ h') = (uncancelled h && uncancelled h') := List.all_append

theorem openAfter_append (current : Option TransactionId) (h h' : History) :
    openAfter current (h ++ h') = openAfter (openAfter current h) h' :=
  List.foldl_append

/-- Nothing happens that has to do with transactions or with the token. -/
structure Still (h : History) : Prop where
  begun_eq : begun h = []
  uncancelled_eq : uncancelled h = true
  open_eq : ∀ current, openAfter current h = current

theorem Reads.still {h : History} (reads : Reads h) : Still h :=
  ⟨reads.asks.begun_eq, reads.uncancelled_eq, reads.asks.openAfter_eq⟩

end History

/-- What a start leaves of the transaction that it opened, if it opened one,
and what is owned then. -/
structure Leaves (before opened : Option TransactionId) (h : History)
    (after : Option TransactionId) : Prop where
  begun_eq : begun h = opened.toList
  open_eq : openAfter none h = if uncancelled h then opened else none
  owned_eq : after = if opened.isSome then openAfter none h else before

theorem Leaves.still {before opened after : Option TransactionId}
    {h q : History} (leaves : Leaves before opened h after) (still : Still q) :
    Leaves before opened (h ++ q) after := by
  have hopen : openAfter none (h ++ q) = openAfter none h := by
    rw [openAfter_append, still.open_eq]
  refine ⟨?_, ?_, ?_⟩
  · rw [begun_append, still.begun_eq, List.append_nil, leaves.begun_eq]
  · rw [hopen, leaves.open_eq, uncancelled_append, still.uncancelled_eq,
      Bool.and_true]
  · rw [hopen, leaves.owned_eq]

section Pieces

variable {s : CoordinatorState} {h : History}

theorem report_still (event : TransactionEvent) (status : TransactionStatus) :
    (report event status s).Ensures Interlude.quiet
      (fun h' _ s' => ∃ q, h' = h ++ q ∧ Still q ∧ s' = s) h := by
  unfold report
  rw [ensures_bind]
  refine call_quiet fun answer => ?_
  cases answer <;> exact ⟨_, rfl, ⟨rfl, rfl, fun _ => rfl⟩, rfl⟩

/-- The transaction that is given back is neither owned nor open. -/
theorem releaseOwned_leaves (context : String) {tx : TransactionId}
    (howned : s.owned = some tx) :
    (releaseOwned context s).Ensures Interlude.quiet
      (fun h' _ s' => ∃ q, h' = h ++ q ∧ begun q = [] ∧
        openAfter (some tx) q = none ∧
        s'.owned = none) h := by
  unfold releaseOwned
  rw [ensures_bind, ensures_state, howned]
  simp only []
  rw [ensures_bind, ensures_change, ensures_bind]
  refine call_quiet fun answer => ?_
  cases answer with
  | ok _ | error _ =>
      refine (report_still _ _).mono ?_
      intro h' u s' hpost
      obtain ⟨q, rfl, hq, rfl⟩ := hpost
      refine ⟨_, List.append_assoc _ _ _, ?_, ?_, rfl⟩
      · rw [begun_append, hq.begun_eq]
        rfl
      · rw [openAfter_append, hq.open_eq]
        exact if_pos rfl

theorem openOwned_leaves (context : String) (still : Still h) :
    (openOwned context s).Ensures Interlude.quiet
      (fun h' outcome s' => ∃ opened, Leaves s.owned opened h' s'.owned ∧
        (outcome ≠ .ok () → openAfter none h' = none)) h := by
  unfold openOwned
  rw [ensures_bind]
  refine call_quiet fun answer => ?_
  cases answer with
  | error e =>
      have hopen : openAfter none
          (h ++ [.called .begin, .returned .begin (.error e)]) = none := by
        rw [openAfter_append, still.open_eq]
        rfl
      refine ⟨none, ⟨?_, ?_, rfl⟩, fun _ => hopen⟩
      · rw [begun_append, still.begun_eq]
        rfl
      · rw [hopen, ite_self]
  | ok tx =>
      simp only []
      rw [ensures_bind, ensures_log, ensures_bind]
      refine (own_ensures _ tx _ _).mono ?_
      intro h' u s' hpost
      obtain ⟨rfl, rfl⟩ := hpost
      rw [ensures_bind, ensures_ask]
      intro cancelled
      have hbegun : begun (h ++ [.called .begin, .returned .begin (.ok tx)] ++
          [.asked .isCancelled cancelled]) = [tx] := by
        rw [begun_append, begun_append, still.begun_eq]
        rfl
      have hopen : openAfter none
          (h ++ [.called .begin, .returned .begin (.ok tx)] ++
          [.asked .isCancelled cancelled]) = some tx := by
        rw [openAfter_append, openAfter_append]
        rfl
      have huncancelled : uncancelled
          (h ++ [.called .begin, .returned .begin (.ok tx)] ++
          [.asked .isCancelled cancelled]) = !cancelled := by
        rw [uncancelled_append, uncancelled_append, still.uncancelled_eq]
        exact Bool.and_true _
      cases cancelled with
      | false =>
          refine ⟨some tx, ⟨hbegun, ?_, hopen.symm⟩,
            fun hfailed => absurd rfl hfailed⟩
          rw [hopen, huncancelled]
          rfl
      | true =>
          simp only [if_true]
          rw [ensures_bind]
          refine (releaseOwned_leaves context rfl).mono ?_
          intro h' u s' hpost
          obtain ⟨q, rfl, hq, hclosed, howned⟩ := hpost
          rw [← hopen, ← openAfter_append] at hclosed
          refine ⟨some tx, ⟨?_, ?_, howned.trans hclosed.symm⟩,
            fun _ => hclosed⟩
          · rw [begun_append, hbegun, hq]
            rfl
          · rw [hclosed, uncancelled_append, huncancelled]
            rfl

theorem joinTransaction_leaves (settings : CoordinatorSettings)
    (context : String) (still : Still h) :
    (joinTransaction settings context s).Ensures Interlude.quiet
      (fun h' outcome s' => (∀ current ∈ seen h', current = none) →
        ∃ opened, Leaves s.owned opened h' s'.owned ∧
          (outcome ≠ .ok () → openAfter none h' = none)) h := by
  unfold joinTransaction
  rw [ensures_bind, ensures_ask]
  intro current
  have hasked : Still (h ++ [.asked .currentTransaction current]) := by
    refine ⟨?_, ?_, fun other => ?_⟩
    · rw [begun_append, still.begun_eq]
      rfl
    · rw [uncancelled_append, still.uncancelled_eq]
      rfl
    · rw [openAfter_append, still.open_eq]
      rfl
  cases current with
  | some tx =>
      -- A start that finds a transaction is no concern of this file.
      have hseen : some tx ∈ seen
          (h ++ [.asked .currentTransaction (some tx)]) := by
        rw [seen_append]
        exact List.mem_append_right _ List.mem_cons_self
      simp only []
      rw [ensures_bind, ensures_change]
      exact fun hnone => nomatch hnone _ hseen
  | none =>
      simp only []
      split
      · refine (openOwned_leaves context hasked).mono ?_
        intro h' outcome s' hleaves _
        exact hleaves
      · refine fun _ =>
          ⟨none, ⟨hasked.begun_eq, ?_, rfl⟩, fun hfailed => absurd rfl hfailed⟩
        rw [hasked.open_eq, ite_self]

/-! ## Captures that fail -/

/-- An audited entry of a snapshot fails with an error. -/
def FailsOn (settings : CoordinatorSettings) (h : History) (e : AuditError) :
    Prop :=
  ∃ entries, .asked .entries entries ∈ h ∧
    ∃ entry ∈ entries, settings.audits entry = true ∧
      settings.plan entry = .error e

theorem FailsOn.of_verdict {settings : CoordinatorSettings}
    {entries : List TrackedEntry} {asked : History} {e : AuditError}
    (verdict : settings.Verdict entries asked (.error e)) (h : History) :
    FailsOn settings (h ++ .asked .entries entries :: asked) e := by
  obtain ⟨pre, entry, post, hsplit, -, hfails⟩ := mapM_eq_error_iff.mp verdict
  obtain ⟨hmem, haudits⟩ : entry ∈ entries ∧ settings.audits entry = true :=
    List.mem_filter.mp (by rw [hsplit]; simp)
  exact ⟨entries, List.mem_append_right h List.mem_cons_self, entry, hmem,
    haudits, hfails⟩

/-- Of a start that finds no transaction. If one is open after it and it failed
nevertheless, then it failed on an entry. -/
theorem startCollecting_leaves (settings : CoordinatorSettings)
    (context : String) (s : CoordinatorState) :
    (startCollecting settings context s).Ensures Interlude.quiet
      (fun h outcome s' => (∀ current ∈ seen h, current = none) →
        ∃ opened, Leaves s.owned opened h s'.owned ∧
          ∀ e, outcome = .error e → openAfter none h ≠ none →
            FailsOn settings h e) [] := by
  refine startCollecting_ensures
    (fun _ => ⟨none, ⟨rfl, rfl, rfl⟩, fun _ _ h => absurd rfl h⟩)
    (fun _ _ => ⟨none, ⟨rfl, rfl, rfl⟩, fun _ _ h => absurd rfl h⟩) fun _ => ?_
  refine (joinTransaction_leaves settings context ⟨rfl, rfl, fun _ => rfl⟩).mono
    ?_
  intro h joined s' hjoined
  cases joined with
  | error e =>
      intro hnone
      obtain ⟨opened, leaves, hclosed⟩ := hjoined hnone
      exact ⟨opened, leaves, fun _ _ hopen => absurd (hclosed (by simp)) hopen⟩
  | ok u =>
      intro entries asked captured hreads verdict hnone
      have hread : Reads (.asked .entries entries :: asked) :=
        reads_cons trivial hreads
      rw [seen_append, hread.seen_eq, List.append_nil] at hnone
      obtain ⟨opened, leaves, -⟩ := hjoined hnone
      have hstill := leaves.still hread.still
      cases captured with
      | error e =>
          exact ⟨opened, hstill,
            fun _ he _ => by cases he; exact .of_verdict verdict h⟩
      | ok captures => exact ⟨opened, hstill, fun _ he => nomatch he⟩

end Pieces
end AuditTrail

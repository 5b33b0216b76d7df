import AuditTrail.Proofs.Coordinator.Start
import AuditTrail.Proofs.Memory.Service

/-!
# Starts that fail

A start can fail before it opens a transaction, while it does, and after it.
The token is looked at again when the transaction has been opened, and if it
was cancelled meanwhile the transaction is rolled back, so a start that fails
for this reason leaves nothing. A capture that fails returns at once. What it
leaves open the next call has to settle, and `failed_start_settles_iff` says
that this is the only way.

The theorem is about every unit of work that is not heard to have a
transaction, where `openAfter` reads off the history what is open, and about
units of work in memory, which have the transaction that the history shows.
-/

namespace AuditTrail

open Coordinating Coordinator History Proceedings

/-- When a start fails with an error: what is owned and what is open after
it. -/
structure Settles (settings : CoordinatorSettings) (h : History)
    (e : AuditError) (before after current : Option TransactionId) : Prop where
  owned_iff : after = none ↔
    if begun h = [] then before = none else uncancelled h = false
  open_iff : current = none ↔ begun h = [] ∨ uncancelled h = false
  stranded : current ≠ none → after = current ∧ FailsOn settings h e

theorem Leaves.settles {settings : CoordinatorSettings} {h : History}
    {e : AuditError} {before opened after : Option TransactionId}
    (leaves : Leaves before opened h after)
    (hfails : openAfter none h ≠ none → FailsOn settings h e) :
    Settles settings h e before after (openAfter none h) := by
  obtain ⟨hbegun, hopen, howned⟩ := leaves
  cases opened with
  | none =>
      have hclosed : openAfter none h = none := by rw [hopen, ite_self]
      refine ⟨?_, ?_, fun hne => absurd hclosed hne⟩
      · rw [howned, hbegun]
        simp
      · rw [hclosed, hbegun]
        simp
  | some tx =>
      refine ⟨?_, ?_, fun hne => ⟨howned, hfails hne⟩⟩
      · rw [howned, hopen, hbegun]
        simp
      · rw [hopen, hbegun]
        simp

theorem start_settles {settings : CoordinatorSettings} {t : Turn}
    {context : String} {e : AuditError}
    (hmade : t.made = .startCollecting context)
    (taken : t.Taken settings Interlude.quiet)
    (hnone : ∀ current ∈ seen t.history, current = none)
    (hfailed : t.outcome = .error e) :
    Settles settings t.history e t.before.owned t.after.owned
      (openAfter none t.history) := by
  rw [Turn.Taken, hmade] at taken
  obtain ⟨opened, leaves, hfails⟩ :=
    taken.ensured (startCollecting_leaves settings context t.before) hnone
  exact leaves.settles fun hne => hfails e hfailed hne

section Held

variable {c : Circumstances} {s : CoordinatorState} {p : Proceedings}

theorem joinTransaction_asks (settings : CoordinatorSettings) (context : String)
    (htx : p.work.transaction = none) :
    ∃ later, ((joinTransaction settings context s).hold c p).2.2.history =
      p.history ++ .asked .currentTransaction none :: later := by
  unfold joinTransaction
  obtain ⟨later, hlater⟩ := hold_bind_grows c (ask .currentTransaction) _ s p
  refine ⟨later, hlater.trans ?_⟩
  rw [hold_ask, ← htx]
  exact List.append_assoc _ _ _

/-- A start looks at the token, and then at the transaction. -/
theorem startCollecting_asks (settings : CoordinatorSettings) (context : String)
    (htx : p.work.transaction = none) :
    ∃ h cancelled, ((startCollecting settings context s).hold c p).2.2.history =
      p.history ++ h ∧
      (h = [.asked .isCancelled cancelled] ∨ ∃ later,
        h = .asked .isCancelled cancelled :: .asked .currentTransaction none ::
          later) := by
  unfold startCollecting
  rw [hold_bind_of (hold_ask _)]
  split
  · exact ⟨_, _, rfl, .inl rfl⟩
  · rw [hold_bind_of hold_state]
    split
    · exact ⟨_, _, rfl, .inl rfl⟩
    · rw [hold_bind_of (hold_enter _)]
      obtain ⟨first, hfirst⟩ :=
        joinTransaction_asks (c := c) (s := { s with phase := .capturing })
        (p := p.asked c .isCancelled) settings context htx
      obtain ⟨second, hsecond⟩ :=
        hold_bind_grows c (joinTransaction settings context) _
        { s with phase := .capturing } (p.asked c .isCancelled)
      refine ⟨.asked .isCancelled (p.answer c .isCancelled) ::
        .asked .currentTransaction none :: (first ++ second), _,
        hsecond.trans ?_, .inr ⟨_, rfl⟩⟩
      rw [hfirst]
      simp [asked]

end Held

/-- A start asks for the transaction at most once. -/
theorem Course.seen_start {s s' : CoordinatorState} {context : String}
    {h : History} (course : Course s (.startCollecting context) h s') :
    (seen h).length ≤ 1 := by
  cases course with
  | refused | busy => exact Nat.zero_le _
  | collected _ _ _ hseen | opened _ _ _ hseen | undone _ hseen =>
      rw [hseen]; exact Nat.le_refl _
  | ignored hending | ended _ hending => cases hending
  | abandoned hmade | released _ hmade => cases hmade

/-- A start that fails leaves nothing open if and only if it opened nothing or
the token was cancelled while it did. Otherwise an entry has failed, and the
transaction stays open and owned. -/
theorem failed_start_settles_iff (settings : CoordinatorSettings) :
    (∀ (t : Turn) (context : String) (e : AuditError),
      t.made = .startCollecting context → t.Taken settings Interlude.quiet →
      (∀ current ∈ seen t.history, current = none) → t.outcome = .error e →
      Settles settings t.history e t.before.owned t.after.owned
        (openAfter none t.history)) ∧
    ∀ (c : Circumstances) (d : Desk) (e : AuditError),
      d.work.transaction = none →
      (d.save settings c .start).outcomes = d.outcomes ++ [.error e] →
      ∃ h, (d.save settings c .start).history = d.history ++ h ∧
        Settles settings h e d.coordinator.owned
          (d.save settings c .start).coordinator.owned
          (d.save settings c .start).work.transaction := by
  refine ⟨fun t context e hmade taken hnone hfailed =>
    start_settles hmade taken hnone hfailed, ?_⟩
  intro c d e htx hfailed
  obtain ⟨h, outcome, taken, hhistory, houtcomes, hopen⟩ :=
    Desk.taken_save settings c .start d
  have houtcome : outcome = .error e :=
    List.singleton_inj.mp
      (List.append_cancel_left (houtcomes.symm.trans hfailed))
  have hnone : ∀ current ∈ seen h, current = none := by
    obtain ⟨h', cancelled, hhistory', hasked⟩ :=
      startCollecting_asks (c := c) (s := d.coordinator)
      (p := d.toProceedings) settings d.work.contextId htx
    obtain rfl := List.append_cancel_left (hhistory.symm.trans hhistory')
    rcases hasked with rfl | ⟨later, rfl⟩
    · exact nofun
    · have honce : (seen later).length + 1 ≤ 1 := taken.course.seen_start
      have hlater : seen later = [] := List.length_eq_zero_iff.mp (by omega)
      intro current hcurrent
      have hseen : seen (.asked .isCancelled cancelled ::
          .asked .currentTransaction none :: later) = none :: seen later := rfl
      rw [hseen, hlater] at hcurrent
      exact List.mem_singleton.mp hcurrent
  rw [htx] at hopen
  have settles := start_settles rfl taken hnone houtcome
  rw [← hopen] at settles
  exact ⟨h, hhistory, settles⟩

namespace Sample

/-- Orders have rules in one scope only, and it is not the coordinator's. -/
def archived : CoordinatorSettings :=
  ⟨⟨"String", [(⟨"Order", "String", some "archive"⟩,
    EntityRule.verbatim "Order" "sales")]⟩, ⟨true⟩, none⟩

def ordered : Desk :=
  (Desk.new .initial (.new "req")).edit (.add "Order" [("Total", .int 10)])

/-- Cancelled once something was called. -/
def cancelledLater : Circumstances :=
  { circumstances (.ok ()) with cancelled := fun h => !(calls h).isEmpty }

end Sample

/-- A start that fails in the capture, in company and at a desk, and one whose
token is cancelled when the transaction was opened. -/
theorem failed_start_settles_sample :
    let t := Turn.inCompany Sample.archived
      (Sample.company none (Sample.order 3) Sample.undisturbed)
        (.startCollecting "req") .initial
    let e := AuditError.missingRule ⟨"Order", "String", none⟩
    let stranded :=
      Sample.ordered.save Sample.archived (Sample.circumstances (.ok ())) .start
    let undone :=
      Sample.ordered.save Sample.archived Sample.cancelledLater .start
    Settles Sample.archived t.history e none t.after.owned
      (openAfter none t.history) ∧
      (∃ h, stranded.history = Sample.ordered.history ++ h ∧
        Settles Sample.archived h e none stranded.coordinator.owned
          stranded.work.transaction) ∧
      (∃ h, undone.history = Sample.ordered.history ++ h ∧
        Settles Sample.archived h .cancelled none undone.coordinator.owned
          undone.work.transaction) ∧
      stranded.work.transaction.isSome ∧ undone.work.transaction.isNone := by
  have hturn := (failed_start_settles_iff Sample.archived).1
  have hdesk := (failed_start_settles_iff Sample.archived).2
  refine ⟨?_, ?_, ?_, by decide +kernel, by decide +kernel⟩
  · exact hturn _ "req" _ rfl
      (Turn.taken_inCompany
        (Sample.undisturbed_within Sample.archived _ _ 0) _ _)
      (by decide +kernel) rfl
  · exact hdesk _ Sample.ordered _ rfl rfl
  · exact hdesk _ Sample.ordered _ rfl rfl

/-- The capture fails for want of rules, and the transaction that was opened
for it is still open and owned. -/
theorem failed_start_strands_transaction :
    let d := Sample.ordered.save Sample.archived
      (Sample.circumstances (.ok ())) .start
    Sample.archived.options.autoOpenTransaction = true ∧
      Sample.ordered.work.transaction = none ∧
      d.outcomes = [.error (.missingRule ⟨"Order", "String", none⟩)] ∧
      d.coordinator.owned.isSome ∧ d.coordinator.owned = d.work.transaction ∧
      d.work.stats = ⟨1, 0, 0⟩ := by
  exact ⟨rfl, rfl, rfl, rfl, rfl, rfl⟩

end AuditTrail

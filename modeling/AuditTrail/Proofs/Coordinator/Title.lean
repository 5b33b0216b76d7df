import AuditTrail.Proofs.Coordinator.Settlement

/-!
# A title to a transaction

The coordinator commits and rolls back transactions, and it must have a title
to each of them: it opened the transaction itself. What it owns is in one slot
of its state, and what it is about to settle is in the hands of the pieces
that are under way, so a title is something found in one of these places.
`Title` says that nothing but the opening of the transaction puts it there,
and `Title.run` follows it through whatever is nested in whatever.

Two titles are enough. The title to have anything to do with a transaction is
lost when its commit has succeeded, for then it is no longer owned and no
other piece is about it (`Exclusive`). The title to commit it is lost as soon
as the commit is called for. Ids are not used twice, so neither comes back.
-/

namespace AuditTrail

open Coordinator History Situation

/-- The transaction that a call commits or rolls back. -/
def Call.settles? : Call → Option TransactionId
  | .commit tx => some tx
  | .rollback tx => some tx
  | _ => none

/-- The transaction that a task is to settle. -/
def Task.transaction? : Task → Option TransactionId
  | releasing _ tx => some tx
  | announcingOwn _ tx _ => some tx
  | committing _ tx _ => some tx
  | undoing _ tx => some tx
  | _ => none

theorem Task.transaction?_of_call {task : Task} {call : Call}
    {tx : TransactionId} (hcall : task.call? = some call)
    (hsettles : call.settles? = some tx) :
    task.transaction? = some tx := by
  cases task <;> cases hcall <;> first | exact hsettles | cases hsettles

theorem Task.transaction?_of_commits {task : Task} {tx : TransactionId}
    (hcommits : task.commits? = some tx) : task.transaction? = some tx := by
  cases task <;> first | exact hcommits | cases hcommits

/-! ## Where a title is -/

/-- Something is so in the state, or of a piece that is under way. -/
def Situation.Somewhere (inState : CoordinatorState → Prop)
    (inTask : Task → Prop) (c : Situation) : Prop :=
  inState c.state ∨ ∃ p ∈ c.pending, inTask p.task

def Next.Somewhere (inState : CoordinatorState → Prop) (inTask : Task → Prop) :
    Next → Prop
  | ends _ s => inState s
  | goesOn task s => inState s ∨ inTask task

/-- Only the opening of a transaction puts this into the state or into the
hands of a piece. -/
structure Title (tx : TransactionId) (inState : CoordinatorState → Prop)
    (inTask : Task → Prop) : Prop where
  phase : ∀ {s : CoordinatorState} {phase : LifecyclePhase},
    inState { s with phase := phase } → inState s
  errand : ∀ {records : List AuditRecord}
    {report : Option (TransactionEvent × TransactionStatus)},
    ¬ inTask (.errand records report)
  begins : ∀ {s : CoordinatorState} {made : HostCall} {asked : History}
    {next : Next},
    Begins s made asked next → next.Somewhere inState inTask → inState s
  resumes : ∀ {s : CoordinatorState} {task : Task} {asked : History}
    {next : Next},
    Resumes s task asked next → next.Somewhere inState inTask →
      inState s ∨ inTask task ∨ tx ∈ begun asked

namespace Title

variable {tx : TransactionId} {inState : CoordinatorState → Prop}
  {inTask : Task → Prop}

theorem onward {made : HostCall} {rest : List Pending} {next : Next}
    {later : History} {c : Situation} (title : Title tx inState inTask)
    (honward : Onward made rest next later c)
    (hsome : c.Somewhere inState inTask) :
    next.Somewhere inState inTask ∨ ∃ p ∈ rest, inTask p.task := by
  rcases hsome with hstate | ⟨p, hp, htask⟩
  · left
    cases honward with
    | ends => exact hstate
    | waits | delivers | reports => exact .inl hstate
    | closes =>
        refine .inl ?_
        cases made <;> first | exact hstate | exact title.phase hstate
    | gives => exact .inl (title.phase hstate)
  · cases honward with
    | ends | closes | gives => exact .inr ⟨p, hp, htask⟩
    | waits =>
        rcases List.mem_cons.mp hp with rfl | hp
        · exact .inl (.inr htask)
        · exact .inr ⟨p, hp, htask⟩
    | delivers | reports =>
        rcases List.mem_cons.mp hp with rfl | hp
        · exact absurd htask title.errand
        · exact .inr ⟨p, hp, htask⟩

theorem step {c c' : Situation} {h : History} (title : Title tx inState inTask)
    (step : Step c h c') (hsome : c'.Somewhere inState inTask) :
    c.Somewhere inState inTask ∨ tx ∈ begun h := by
  cases step with
  | enter hbegins honward =>
      rcases title.onward honward hsome with hnext | hrest
      · exact .inl (.inl (title.begins hbegins hnext))
      · exact .inl (.inr hrest)
  | resume hresumes honward =>
      rcases title.onward honward hsome with hnext | ⟨p, hp, htask⟩
      · rcases title.resumes hresumes hnext with hstate | htask | hbegun
        · exact .inl (.inl hstate)
        · exact .inl (.inr ⟨_, List.mem_cons_self, htask⟩)
        · rw [begun_append]
          exact .inr (List.mem_append_left _ hbegun)
      · exact .inl (.inr ⟨p, List.mem_cons_of_mem _ hp, htask⟩)

/-- Who has a title had it before, or the transaction was opened meanwhile. -/
theorem run {c c' : Situation} {h : History} (title : Title tx inState inTask)
    (run : Run c h c') (hsome : c'.Somewhere inState inTask) :
    c.Somewhere inState inTask ∨ tx ∈ begun h := by
  induction run with
  | nil => exact .inl hsome
  | snoc _ step ih =>
      rw [begun_append, List.mem_append]
      rcases title.step step hsome with hbefore | hbegun
      · exact (ih hbefore).imp_right .inl
      · exact .inr (.inr hbegun)

end Title

section Titles

variable {s : CoordinatorState} {made : HostCall} {asked : History}
  {next : Next} {c c' : Situation} {h : History} {tx : TransactionId}

theorem owned_of_settleOwned {event : TransactionEvent}
    (howned : (settleOwned event s).owned = some tx) : s.owned = some tx := by
  rw [owned_settleOwned] at howned
  split at howned
  · cases howned
  · exact howned

/-- A piece of the coordinator has to do with a transaction. -/
def Situation.Concerns (tx : TransactionId) : Situation → Prop :=
  Situation.Somewhere (fun s => s.owned = some tx)
    (fun task => task.transaction? = some tx)

theorem title_concerns (tx : TransactionId) :
    Title tx (fun s => s.owned = some tx)
      (fun task => task.transaction? = some tx) where
  phase := id
  errand := nofun
  begins := by
    intro s made asked next hbegins hsome
    cases hbegins with
    | refused | busy | ignored | clearedCaptures | clearedBatch => exact hsome
    | collected _ _ _ hcollects => cases hcollects <;> exact hsome
    | commits _ _ howned | announcesOwn _ _ howned =>
        exact hsome.elim id howned.trans
    | releases _ howned => exact hsome.elim nofun howned.trans
    | ended =>
        exact hsome.elim owned_of_settleOwned nofun
    | _ => exact hsome.elim id nofun
  resumes := by
    intro s task asked next hresumes hsome
    cases hresumes with
    | failedToOpen => exact .inl hsome
    | opened hcollects =>
        refine .inr (.inr (List.mem_cons.mpr (.inl ?_)))
        cases hcollects <;> exact (Option.some.inj hsome).symm
    | withdrawn =>
        refine .inr (.inr (List.mem_cons.mpr (.inl ?_)))
        exact hsome.elim nofun fun htask => (Option.some.inj htask).symm
    | announcedOwn | failedToCommit => exact hsome.imp_right .inl
    | committed | undone => exact hsome.elim nofun nofun
    | _ => exact .inl (hsome.elim id nofun)

/-- A transaction may still be committed: it is owned and its commit has not
begun, or the batch is still being announced. -/
def Situation.MayCommit (tx : TransactionId) : Situation → Prop :=
  Situation.Somewhere (fun s => s.owned = some tx ∧ s.commitInProgress = false)
    (fun task => ∃ context batch, task = .announcingOwn context tx batch)

theorem title_mayCommit (tx : TransactionId) :
    Title tx (fun s => s.owned = some tx ∧ s.commitInProgress = false)
      (fun task => ∃ context batch,
        task = .announcingOwn context tx batch) where
  phase := id
  errand := nofun
  begins := by
    intro s made asked next hbegins hsome
    cases hbegins with
    | refused | busy | ignored | clearedCaptures | clearedBatch => exact hsome
    | collected _ _ _ hcollects => cases hcollects <;> exact hsome
    | commits => exact hsome.elim (fun hstate => nomatch hstate.2) nofun
    | announcesOwn hidle _ howned =>
        rcases hsome with hstate | ⟨_, _, htask⟩
        · cases hstate.2
        · cases htask
          exact ⟨howned, hidle⟩
    | releases => exact hsome.elim (fun hstate => nomatch hstate.1) nofun
    | ended =>
        refine hsome.elim
          (fun ⟨howned, hidle⟩ => ⟨owned_of_settleOwned howned, ?_⟩) nofun
        rwa [← settleOwned_commitInProgress]
    | _ => exact hsome.elim id nofun
  resumes := by
    intro s task asked next hresumes hsome
    cases hresumes with
    | failedToOpen => exact .inl hsome
    | opened hcollects =>
        refine .inr (.inr (List.mem_cons.mpr (.inl ?_)))
        cases hcollects <;> exact (Option.some.inj hsome.1).symm
    | withdrawn | committed | undone =>
        exact hsome.elim (fun hstate => nomatch hstate.1) nofun
    | committedElsewhere hnone | undoneElsewhere _ hnone =>
        exact hsome.elim (fun hstate => nomatch hnone.symm.trans hstate.1) nofun
    | _ => exact .inl (hsome.elim id nofun)

end Titles

/-! ## One commit and nothing else -/

/-- Nothing else has to do with a transaction that is about to be committed,
and nothing outside of its commit while that is under way. -/
structure Exclusive (tx : TransactionId) (c : Situation) : Prop where
  alone : c.state.owned = some tx → c.state.commitInProgress = false →
    ∀ p ∈ c.pending, p.task.transaction? ≠ some tx
  outside : c.pending.Pairwise fun p q =>
    p.task.commits? = some tx → q.task.transaction? ≠ some tx

namespace Exclusive

variable {tx : TransactionId} {s s' : CoordinatorState} {made : HostCall}
  {task : Task} {rest : List Pending}

theorem congr (exclusive : Exclusive tx ⟨s, rest⟩) (howned : s'.owned = s.owned)
    (hmarked : s'.commitInProgress = s.commitInProgress) :
    Exclusive tx ⟨s', rest⟩ where
  alone := fun hown hidle =>
    exclusive.alone (howned.symm.trans hown) (hmarked.symm.trans hidle)
  outside := exclusive.outside

theorem tail {p : Pending} (exclusive : Exclusive tx ⟨s, p :: rest⟩) :
    Exclusive tx ⟨s, rest⟩ where
  alone := fun howned hidle q hq =>
    exclusive.alone howned hidle q (List.mem_cons_of_mem p hq)
  outside := (List.pairwise_cons.mp exclusive.outside).2

/-- A piece may be under way that has nothing to do with the transaction. -/
theorem cons (exclusive : Exclusive tx ⟨s, rest⟩)
    (htask : task.transaction? ≠ some tx) :
    Exclusive tx ⟨s, ⟨made, task⟩ :: rest⟩ where
  alone := fun howned hidle =>
    List.forall_mem_cons.mpr ⟨htask, exclusive.alone howned hidle⟩
  outside := List.pairwise_cons.mpr
    ⟨fun _ _ hcommits => absurd (Task.transaction?_of_commits hcommits) htask,
      exclusive.outside⟩

/-- A piece may be under way that settles the transaction, if it is not there
to be settled again. -/
theorem settling
    (outside : rest.Pairwise fun p q =>
      p.task.commits? = some tx → q.task.transaction? ≠ some tx)
    (hstate : s.owned = some tx → s.commitInProgress = true)
    (htask : task.commits? = some tx →
      ∀ q ∈ rest, q.task.transaction? ≠ some tx) :
    Exclusive tx ⟨s, ⟨made, task⟩ :: rest⟩ where
  alone := fun howned hidle => nomatch (hstate howned).symm.trans hidle
  outside := List.pairwise_cons.mpr
    ⟨fun q hq hcommits => htask hcommits q hq, outside⟩

theorem begins {asked : History} {next : Next}
    (exclusive : Exclusive tx ⟨s, rest⟩) (hbegins : Begins s made asked next) :
    Exclusive tx (next.situation made rest) := by
  cases hbegins with
  | refused | busy | ignored | clearedCaptures | clearedBatch =>
      exact exclusive.congr rfl rfl
  | collected _ _ _ hcollects =>
      cases hcollects <;> exact exclusive.congr rfl rfl
  | commits hidle _ howned | announcesOwn hidle _ howned =>
      refine settling exclusive.outside (fun _ => rfl) fun hcommits => ?_
      cases hcommits
      exact exclusive.alone howned hidle
  | releases => exact settling exclusive.outside nofun nofun
  | @ended _ event =>
      refine cons ?_ nofun
      exact ⟨fun howned hidle => exclusive.alone (owned_of_settleOwned howned)
        ((settleOwned_commitInProgress event s).symm.trans hidle),
        exclusive.outside⟩
  | _ =>
      refine cons ?_ nofun
      exact exclusive.congr rfl rfl

/-- A transaction that is opened must be new to the coordinator. -/
theorem resumes {asked : History} {next : Next}
    (exclusive : Exclusive tx ⟨s, ⟨made, task⟩ :: rest⟩)
    (fresh : tx ∈ begun asked → ∀ q ∈ rest, q.task.transaction? ≠ some tx)
    (hresumes : Resumes s task asked next) :
    Exclusive tx (next.situation made rest) := by
  have hsame : ∀ {task'}, task'.transaction? = task.transaction? →
      task'.commits? = task.commits? →
        Exclusive tx ⟨s, ⟨made, task'⟩ :: rest⟩ := by
    intro task' htransaction hcommits
    refine ⟨fun howned hidle => ?_, ?_⟩
    · have halone := List.forall_mem_cons.mp (exclusive.alone howned hidle)
      exact List.forall_mem_cons.mpr
        ⟨fun h => halone.1 (htransaction.symm.trans h), halone.2⟩
    · have houtside := List.pairwise_cons.mp exclusive.outside
      exact List.pairwise_cons.mpr
        ⟨fun q hq h => houtside.1 q hq (hcommits.symm.trans h), houtside.2⟩
  cases hresumes with
  | failedToOpen => exact exclusive.tail.congr rfl rfl
  | @opened _ own _ _ hcollects =>
      have hopened : Exclusive tx
          ⟨{ s with owned := some own, transactionPhase := .opened }, rest⟩ :=
        ⟨fun howned _ =>
          fresh (List.mem_cons.mpr (.inl (Option.some.inj howned).symm)),
          exclusive.tail.outside⟩
      cases hcollects <;> exact hopened.congr rfl rfl
  | withdrawn => exact settling exclusive.tail.outside nofun nofun
  | announcedOwn | failedToCommit => exact hsame rfl rfl
  | committed | undone => exact settling exclusive.tail.outside nofun nofun
  | committedElsewhere hnone | undoneElsewhere _ hnone =>
      exact settling exclusive.tail.outside
        (fun howned => nomatch hnone.symm.trans howned) nofun
  | _ =>
      refine cons ?_ nofun
      exact exclusive.tail.congr rfl rfl

theorem onward {next : Next} {later : History} {c : Situation}
    (exclusive : Exclusive tx (next.situation made rest))
    (honward : Onward made rest next later c) : Exclusive tx c := by
  cases honward with
  | ends | waits => exact exclusive
  | delivers | reports => exact exclusive.tail.cons nofun
  | closes => cases made <;> exact exclusive.tail.congr rfl rfl
  | gives => exact exclusive.tail.congr rfl rfl

theorem step {c c' : Situation} {h : History} (exclusive : Exclusive tx c)
    (fresh : tx ∈ begun h → ¬ c.Concerns tx) (step : Step c h c') :
    Exclusive tx c' := by
  cases step with
  | enter hbegins honward => exact (exclusive.begins hbegins).onward honward
  | resume hresumes honward =>
      refine (exclusive.resumes (fun hbegun q hq hquestion => ?_)
        hresumes).onward honward
      refine fresh ?_ (.inr ⟨q, List.mem_cons_of_mem _ hq, hquestion⟩)
      rw [begun_append]
      exact List.mem_append_left _ hbegun

end Exclusive

/-! ## Calls that settle a transaction -/

/-- A piece that calls to settle a transaction waits for the answer. -/
theorem Onward.of_settles {made : HostCall} {rest : List Pending} {next : Next}
    {later : History} {c : Situation} {call : Call} {tx : TransactionId}
    (honward : Onward made rest next later c)
    (hlast : later.getLast? = some (.called call))
    (hsettles : call.settles? = some tx) :
    ∃ task, next = .goesOn task c.state ∧ c.pending = ⟨made, task⟩ :: rest ∧
      task.call? = some call := by
  cases honward with
  | waits s hcall =>
      cases hlast
      exact ⟨_, rfl, rfl, hcall⟩
  | _ => cases hlast <;> cases hsettles

/-- The step that ends with such a call has come to the task that is then
awaited. -/
theorem Situation.Step.of_settles {c c' : Situation} {h : History} {call : Call}
    {tx : TransactionId} (step : Step c (h ++ [.called call]) c')
    (hsettles : call.settles? = some tx) :
    ∃ made task rest asked, c'.pending = ⟨made, task⟩ :: rest ∧
      task.call? = some call ∧
      (Begins c.state made asked (.goesOn task c'.state) ∨
        ∃ earlier, ⟨made, earlier⟩ ∈ c.pending ∧
          Resumes c.state earlier asked (.goesOn task c'.state)) := by
  obtain ⟨made, rest, asked, next, later, honward, hlast, hcame⟩ := step.ending
  obtain ⟨task, rfl, hpending, hcall⟩ := honward.of_settles hlast hsettles
  refine ⟨made, task, rest, asked, hpending, hcall, ?_⟩
  rcases hcame with ⟨hbegins, -⟩ | ⟨earlier, hearlier, hresumes⟩
  · exact .inl hbegins
  · exact .inr ⟨earlier, hearlier ▸ List.mem_cons_self, hresumes⟩

namespace Situation

variable {c c' : Situation} {h before after : History} {call : Call}
  {tx : TransactionId}

theorem Step.concerns (step : Step c (h ++ [.called call]) c')
    (hsettles : call.settles? = some tx) : c'.Concerns tx := by
  obtain ⟨made, task, rest, asked, hpending, hcall, -⟩ :=
    step.of_settles hsettles
  refine .inr ⟨⟨made, task⟩, ?_, Task.transaction?_of_call hcall hsettles⟩
  rw [hpending]
  exact List.mem_cons_self

/-- A commit is called for by who may commit. -/
theorem Step.mayCommit (step : Step c (h ++ [.called (.commit tx)]) c') :
    c.MayCommit tx := by
  obtain ⟨made, task, rest, asked, -, hcall, hcame⟩ := step.of_settles rfl
  obtain ⟨s, pending⟩ := c
  obtain ⟨s', pending'⟩ := c'
  cases task with
  | committing context own batch =>
      cases hcall
      rcases hcame with hbegins | ⟨earlier, hmem, hresumes⟩
      · cases hbegins with
        | commits hidle _ howned => exact .inl ⟨howned, hidle⟩
        | collected _ _ _ hcollects => cases hcollects
      · cases hresumes with
        | announcedOwn => exact .inr ⟨_, hmem, _, _, rfl⟩
        | opened hcollects => cases hcollects
  | _ => cases hcall

/-- Then it may not be called for again. -/
theorem Step.not_mayCommit (step : Step c (h ++ [.called (.commit tx)]) c')
    (orderly : Orderly c'.state c'.pending) : ¬ c'.MayCommit tx := by
  obtain ⟨made, task, rest, asked, hpending, hcall, -⟩ := step.of_settles rfl
  cases task with
  | committing context own batch =>
      cases hcall
      rw [hpending] at orderly
      obtain ⟨-, hmarked, hnone⟩ := orderly.committing_top rfl
      rintro (⟨-, hidle⟩ | ⟨p, hp, _, _, hannouncing⟩)
      · exact nomatch hmarked.symm.trans hidle
      · rw [hpending] at hp
        rcases List.mem_cons.mp hp with rfl | hp
        · cases hannouncing
        · have := hnone p hp
          rw [hannouncing] at this
          cases this
  | _ => cases hcall

theorem Step.concerned {answer : (Call.commit tx).Answer}
    (step : Step c (.returned (.commit tx) answer :: after) c') :
    c.Concerns tx := by
  obtain ⟨⟨made, task⟩, rest, asked, next, later, hpending, hresumes, -⟩ :=
    step.of_returned
  refine .inr ⟨⟨made, task⟩, ?_, ?_⟩
  · rw [hpending]
    exact List.mem_cons_self
  · cases hresumes <;> rfl

/-- When its commit has succeeded nobody has to do with the transaction. -/
theorem Step.unconcerned
    (step : Step c (.returned (.commit tx) (.ok ()) :: after) c')
    (exclusive : Exclusive tx c) : ¬ c'.Concerns tx := by
  obtain ⟨⟨made, task⟩, rest, asked, next, later, hpending, hresumes,
      honward, -⟩ :=
    step.of_returned
  have houtside := exclusive.outside
  rw [hpending, List.pairwise_cons] at houtside
  intro hconcerns
  rcases (title_concerns tx).onward honward hconcerns with
    hnext | ⟨q, hq, hquestion⟩
  · cases hresumes with
    | committed => exact hnext.elim nofun nofun
    | committedElsewhere hnone =>
        exact hnext.elim (fun howned => nomatch hnone.symm.trans howned) nofun
  · cases hresumes <;> exact houtside.1 q hq rfl hquestion

/-! ## Runs -/

/-- The coordinator has to do with transactions only that it opened. -/
theorem Run.opened (run : Run ⟨CoordinatorState.initial, []⟩ h c)
    (hconcerns : c.Concerns tx) :
    tx ∈ begun h := by
  refine ((title_concerns tx).run run hconcerns).resolve_left ?_
  rintro (hstate | ⟨p, hp, -⟩)
  · cases hstate
  · cases hp

theorem Run.exclusive (run : Run ⟨CoordinatorState.initial, []⟩ h c)
    (fresh : (begun h).Nodup) :
    Exclusive tx c := by
  induction run with
  | nil => exact ⟨nofun, .nil⟩
  | snoc run step ih =>
      rw [begun_append] at fresh
      obtain ⟨hpast, -, hdisjoint⟩ := List.nodup_append.mp fresh
      refine (ih hpast).step (fun hbegun hconcerns => ?_) step
      exact hdisjoint tx (run.opened hconcerns) tx hbegun rfl

/-- What the coordinator commits or rolls back it opened before. -/
theorem Run.settles_opened (run : Run ⟨CoordinatorState.initial, []⟩ h c)
    (hsplit : h = before ++ .called call :: after)
    (hsettles : call.settles? = some tx) :
    tx ∈ begun before := by
  obtain ⟨c₁, c₂, earlier, asked, hearlier, hstep, -, rfl⟩ :=
    Run.cut_after (x := .called call) trivial run hsplit
  have hopened := (hearlier.snoc hstep).opened (hstep.concerns hsettles)
  rwa [← List.append_assoc, begun_append,
    show begun [.called call] = [] from rfl, List.append_nil] at hopened

/-- A transaction that was opened once is not opened later. -/
theorem not_begun_later {x : Happening}
    (fresh : (begun (before ++ x :: after)).Nodup)
    (hbegun : tx ∈ begun before) : tx ∉ begun after := by
  rw [begun_append, ← List.singleton_append, begun_append] at fresh
  intro hlater
  exact (List.nodup_append.mp fresh).2.2 tx hbegun tx
    (List.mem_append_right _ hlater) rfl

theorem Run.not_committed_again (run : Run ⟨CoordinatorState.initial, []⟩ h c)
    (fresh : (begun h).Nodup)
    (hsplit : h = before ++ .called (.commit tx) :: after) :
    .called (.commit tx) ∉ after := by
  have hbegun := run.settles_opened hsplit rfl
  obtain ⟨c₁, c₂, earlier, asked, hearlier, hstep, hlater, rfl⟩ :=
    Run.cut_after (x := .called (.commit tx)) trivial run hsplit
  have orderly :=
    Orderly.of_run (hearlier.snoc hstep) (.free rfl fun _ hp => nomatch hp)
  intro hagain
  obtain ⟨between, rest, rfl⟩ := List.append_of_mem hagain
  obtain ⟨c₃, c₄, gap, asked', hbetween, hstep', -, rfl⟩ :=
    Run.cut_after (x := .called (.commit tx)) trivial hlater rfl
  rcases (title_mayCommit tx).run hbetween hstep'.mayCommit with hmay | hopened
  · exact hstep.not_mayCommit orderly hmay
  · rw [hsplit] at fresh
    refine not_begun_later fresh hbegun ?_
    rw [List.append_assoc, begun_append]
    exact List.mem_append_left _ hopened

theorem Run.not_rolledBack_later (run : Run ⟨CoordinatorState.initial, []⟩ h c)
    (fresh : (begun h).Nodup)
    (hsplit : h = before ++ .returned (.commit tx) (.ok ()) :: after) :
    .called (.rollback tx) ∉ after := by
  obtain ⟨c₁, c₂, later, rest, hearlier, hstep, hrest, rfl⟩ :=
    Run.cut (x := .returned (.commit tx) (.ok ())) trivial run hsplit
  rw [hsplit] at fresh
  have hpast : (begun before).Nodup := by
    rw [begun_append] at fresh
    exact (List.nodup_append.mp fresh).1
  have hbegun : tx ∈ begun before := hearlier.opened hstep.concerned
  have hfree := hstep.unconcerned (hearlier.exclusive hpast)
  intro hrollback
  rcases List.mem_append.mp hrollback with hnow | hthen
  · -- In the same step it would be the last thing to happen.
    obtain ⟨asked, x, hwhole, -, hasked⟩ := hstep.last
    rw [hwhole] at hstep
    have hmem : .called (.rollback tx) ∈ asked ++ [x] := by
      rw [← hwhole]
      exact List.mem_cons_of_mem _ hnow
    rcases List.mem_append.mp hmem with hinside | hlast
    · exact hasked _ hinside trivial
    · rw [← List.mem_singleton.mp hlast] at hstep
      exact hfree (hstep.concerns rfl)
  · obtain ⟨between, after, rfl⟩ := List.append_of_mem hthen
    obtain ⟨c₃, c₄, earlier, asked, hbetween, hstep', -, rfl⟩ :=
      Run.cut_after (x := .called (.rollback tx)) trivial hrest rfl
    rcases (title_concerns tx).run (hbetween.snoc hstep')
        (hstep'.concerns rfl) with
      hconcerns | hopened
    · exact hfree hconcerns
    · refine not_begun_later fresh hbegun ?_
      rw [List.append_cons, List.append_assoc earlier, begun_append,
        begun_append]
      exact List.mem_append_right _ (List.mem_append_left _ hopened)

end Situation

/-- The coordinator settles only what it opened. Whatever its collaborators
answer and whatever they tell it meanwhile, each transaction that it commits or
rolls back was opened for it before, and it leaves those of the host alone. It
calls for the commit of one at most once, and does not roll back what it has
committed. What this rests on is that no two transactions are opened under one
id. -/
theorem settles_only_what_it_opened {settings : CoordinatorSettings}
    {depth : Nat} {ts : List Turn} {s : CoordinatorState}
    (session : Session settings (Interlude.nested settings depth)
      CoordinatorState.initial ts s)
    (fresh : (begun (accountOf ts)).Nodup) :
    (∀ before call after tx, accountOf ts = before ++ .called call :: after →
      call.settles? = some tx → tx ∈ begun before) ∧
    (∀ tx, tx ∉ begun (accountOf ts) →
      .called (.commit tx) ∉ accountOf ts ∧
        .called (.rollback tx) ∉ accountOf ts) ∧
    (∀ before after tx, accountOf ts = before ++ .called (.commit tx) :: after →
      .called (.commit tx) ∉ after) ∧
    ∀ before after tx,
      accountOf ts = before ++ .returned (.commit tx) (.ok ()) :: after →
      .called (.rollback tx) ∉ after := by
  have run := session.run_nested
  have hopened : ∀ {call tx}, .called call ∈ accountOf ts →
      call.settles? = some tx →
      tx ∈ begun (accountOf ts) := by
    intro call tx hcalled hsettles
    obtain ⟨before, after, hsplit⟩ := List.append_of_mem hcalled
    rw [hsplit, begun_append]
    exact List.mem_append_left _ (run.settles_opened hsplit hsettles)
  exact ⟨fun _ _ _ _ hsplit hsettles => run.settles_opened hsplit hsettles,
    fun _ hhost => ⟨fun hcommit => hhost (hopened hcommit rfl),
      fun hrollback => hhost (hopened hrollback rfl)⟩,
    fun _ _ _ hsplit => run.not_committed_again fresh hsplit,
    fun _ _ _ hsplit => run.not_rolledBack_later fresh hsplit⟩

/-- Two transactions are committed, the first while the coordinator is told
that it is over. -/
theorem settles_only_what_it_opened_disturbed :
    let ts := turnsIn (Sample.settings true) CoordinatorState.initial
      (Sample.ownFlushes Sample.disturbed ++ [Sample.reported 2])
    (begun (accountOf ts)).Nodup ∧
      committed (accountOf ts) = [Sample.transaction 1, Sample.transaction 2] ∧
      ∀ before after tx,
        accountOf ts = before ++ .called (.commit tx) :: after →
        .called (.commit tx) ∉ after := by
  intro ts
  have fresh : (begun (accountOf ts)).Nodup := by decide +kernel
  exact ⟨fresh, by decide +kernel, (settles_only_what_it_opened
    (Sample.ownFlushes_session (Sample.disturbed_within _ _) 2) fresh).2.2.1⟩

end AuditTrail

import AuditTrail.Proofs.Coordinator.Following

/-!
# While a commit is in progress

The coordinator marks its state while it commits a transaction of its own. The
mark keeps new captures, new flushes and the host's announcements out, so one
commit never begins inside another and no transaction is opened meanwhile.
What may still come in are notices, abandoned flushes and requests to clear.

`Orderly` is what this comes to for a situation. At most one commit is under
way, the state is marked exactly then, and the transaction is still owned, or
has been settled by what came in, or is being released by it right now. When
the call comes back nothing is inside the commit any more, so the last case is
over (`Orderly.committing_top`).
-/

namespace AuditTrail

open Coordinator History Situation

namespace Task

/-- The transaction whose commit a task is part of. -/
def commits? : Task → Option TransactionId
  | announcingOwn _ tx _ => some tx
  | committing _ tx _ => some tx
  | undoing _ tx => some tx
  | _ => none

/-- What may be under way inside the commit of a transaction. -/
def Within (tx : TransactionId) : Task → Prop
  | errand _ _ => True
  | releasing _ released => released = tx
  | _ => False

end Task

/-- A transaction is being committed, and the pieces that are under way inside
the commit are these. -/
structure InCommit (tx : TransactionId) (s : CoordinatorState)
    (inside : List Pending) : Prop where
  marked : s.commitInProgress = true
  within : ∀ p ∈ inside, p.task.Within tx
  place : s.owned = some tx ∨
    s.owned = none ∧
      (s.settled = some tx ∨
        ∃ p ∈ inside, ∃ context, p.task = .releasing context tx)

/-- At most one commit is under way, and the state is marked exactly then. -/
inductive Orderly : CoordinatorState → List Pending → Prop where
  | free {s : CoordinatorState} {pending : List Pending}
      (hidle : s.commitInProgress = false)
      (hnone : ∀ p ∈ pending, p.task.commits? = none) : Orderly s pending
  | busy {s : CoordinatorState} {pending outside : List Pending} {p : Pending}
      {tx : TransactionId} (inside : List Pending)
      (hpending : pending = inside ++ p :: outside)
      (hcommits : p.task.commits? = some tx) (hinside : InCommit tx s inside)
      (hnone : ∀ q ∈ outside, q.task.commits? = none) : Orderly s pending

namespace InCommit

variable {tx : TransactionId} {s s' : CoordinatorState} {inside : List Pending}

theorem congr (hin : InCommit tx s inside)
    (hmarked : s'.commitInProgress = s.commitInProgress)
    (howned : s'.owned = s.owned) (hsettled : s'.settled = s.settled) :
    InCommit tx s' inside :=
  ⟨hmarked.trans hin.marked, hin.within,
    by rw [howned, hsettled]; exact hin.place⟩

theorem cons {made : HostCall} {task : Task} (hin : InCommit tx s inside)
    (hwithin : task.Within tx) : InCommit tx s (⟨made, task⟩ :: inside) where
  marked := hin.marked
  within := List.forall_mem_cons.mpr ⟨hwithin, hin.within⟩
  place := hin.place.imp_right fun ⟨hnone, hplace⟩ =>
    ⟨hnone, hplace.imp_right fun ⟨p, hp, hreleasing⟩ =>
      ⟨p, List.mem_cons_of_mem _ hp, hreleasing⟩⟩

theorem tail {made : HostCall} {records : List AuditRecord}
    {report : Option (TransactionEvent × TransactionStatus)}
    (hin : InCommit tx s (⟨made, .errand records report⟩ :: inside)) :
    InCommit tx s inside where
  marked := hin.marked
  within := fun p hp => hin.within p (List.mem_cons_of_mem _ hp)
  place := by
    refine hin.place.imp_right fun ⟨hnone, hplace⟩ =>
      ⟨hnone, hplace.imp_right ?_⟩
    rintro ⟨p, hp, context, hreleasing⟩
    rcases List.mem_cons.mp hp with rfl | hp
    · cases hreleasing
    · exact ⟨p, hp, context, hreleasing⟩

theorem settleOwned (hin : InCommit tx s inside) (event : TransactionEvent) :
    InCommit tx (settleOwned event s) inside := by
  unfold Coordinator.settleOwned
  split
  · next own named howned hnamed =>
      split
      · refine ⟨hin.marked, hin.within, .inr ⟨rfl, .inl ?_⟩⟩
        rcases hin.place with hplace | ⟨hnone, -⟩
        · exact howned.symm.trans hplace
        · rw [howned] at hnone
          cases hnone
      · exact hin
  · exact hin

end InCommit

namespace Orderly

variable {s s' : CoordinatorState} {rest : List Pending} {made : HostCall}

theorem congr (orderly : Orderly s rest)
    (hmarked : s'.commitInProgress = s.commitInProgress)
    (howned : s'.owned = s.owned) (hsettled : s'.settled = s.settled) :
    Orderly s' rest := by
  cases orderly with
  | free hidle hnone => exact .free (hmarked.trans hidle) hnone
  | busy inside hpending hcommits hinside hnone =>
      exact .busy inside hpending hcommits
        (hinside.congr hmarked howned hsettled) hnone

theorem unmarked (orderly : Orderly s rest)
    (hidle : s.commitInProgress = false) :
    ∀ p ∈ rest, p.task.commits? = none := by
  cases orderly with
  | free _ hnone => exact hnone
  | busy _ _ _ hinside => exact absurd (hidle.symm.trans hinside.marked) nofun

theorem errand (orderly : Orderly s rest) (records : List AuditRecord)
    (report : Option (TransactionEvent × TransactionStatus)) :
    Orderly s (⟨made, .errand records report⟩ :: rest) := by
  cases orderly with
  | free hidle hnone =>
      exact .free hidle (List.forall_mem_cons.mpr ⟨rfl, hnone⟩)
  | busy inside hpending hcommits hinside hnone =>
      subst hpending
      exact .busy (⟨made, .errand records report⟩ :: _) rfl hcommits
        (hinside.cons trivial) hnone

theorem settleOwned (orderly : Orderly s rest) (event : TransactionEvent) :
    Orderly (settleOwned event s) rest := by
  cases orderly with
  | free hidle hnone =>
      exact .free ((settleOwned_commitInProgress event s).trans hidle) hnone
  | busy inside hpending hcommits hinside hnone =>
      exact .busy inside hpending hcommits (hinside.settleOwned event) hnone

theorem begins {asked : History} {next : Next} (orderly : Orderly s rest)
    (hbegins : Begins s made asked next) :
    Orderly (next.situation made rest).state
      (next.situation made rest).pending := by
  have hfree : ∀ {s' task}, s.commitInProgress = false →
      s'.commitInProgress = false → task.commits? = none →
      Orderly s' (⟨made, task⟩ :: rest) :=
    fun hidle hidle' htask =>
      .free hidle' (List.forall_mem_cons.mpr ⟨htask, orderly.unmarked hidle⟩)
  have hcommit : ∀ {s' task tx}, s.commitInProgress = false →
      s'.commitInProgress = true → s'.owned = some tx →
      task.commits? = some tx → Orderly s' (⟨made, task⟩ :: rest) :=
    fun hidle hmarked howned htask =>
      .busy [] (List.nil_append _).symm htask
        ⟨hmarked, fun _ hp => absurd hp List.not_mem_nil, .inl howned⟩
        (orderly.unmarked hidle)
  cases hbegins with
  | refused | busy | ignored => exact orderly
  | collected hidle _ _ hcollects =>
      cases hcollects <;> exact orderly.congr rfl rfl rfl
  | opens hidle | announces hidle => exact hfree hidle hidle rfl
  | flushed hidle | batched hidle | passes hidle => exact hfree hidle hidle rfl
  | commits hidle _ howned | announcesOwn hidle _ howned =>
      exact hcommit hidle rfl howned rfl
  | abandons =>
      refine errand ?_ _ _
      exact orderly.congr rfl rfl rfl
  | releases _ howned =>
      cases orderly with
      | free hidle hnone =>
          exact .free hidle (List.forall_mem_cons.mpr ⟨rfl, hnone⟩)
      | busy inside hpending hcommits hinside hnone =>
          -- The owned transaction can only be the one that is being committed.
          rcases hinside.place with hplace | ⟨hnone, -⟩
          · cases howned.symm.trans hplace
            subst hpending
            refine .busy (⟨made, .releasing _ _⟩ :: _) rfl hcommits
              ⟨hinside.marked, List.forall_mem_cons.mpr ⟨rfl, hinside.within⟩,
                .inr ⟨rfl, .inr ?_⟩⟩ hnone
            exact ⟨_, List.mem_cons_self, _, rfl⟩
          · rw [howned] at hnone
            cases hnone
  | ended =>
      refine errand ?_ _ _
      exact (orderly.settleOwned _).congr rfl rfl rfl
  | clearedCaptures | clearedBatch => exact orderly.congr rfl rfl rfl

/-- No commit is in progress, or the innermost piece is the commit, or it is
inside of it. -/
theorem top {task : Task} (orderly : Orderly s (⟨made, task⟩ :: rest)) :
    (s.commitInProgress = false ∧ task.commits? = none ∧
      ∀ p ∈ rest, p.task.commits? = none) ∨
      (∃ tx, task.commits? = some tx ∧ InCommit tx s [] ∧
        ∀ p ∈ rest, p.task.commits? = none) ∨
      ∃ tx inside p outside, rest = inside ++ p :: outside ∧
        p.task.commits? = some tx ∧
        InCommit tx s (⟨made, task⟩ :: inside) ∧
          ∀ q ∈ outside, q.task.commits? = none := by
  cases orderly with
  | free hidle hnone =>
      obtain ⟨htask, hrest⟩ := List.forall_mem_cons.mp hnone
      exact .inl ⟨hidle, htask, hrest⟩
  | @busy outside p tx inside hpending hcommits hinside hnone =>
      cases inside with
      | nil =>
          cases hpending
          exact .inr (.inl ⟨tx, hcommits, hinside, hnone⟩)
      | cons q inside =>
          cases hpending
          exact .inr
            (.inr ⟨tx, inside, p, outside, rfl, hcommits, hinside, hnone⟩)

/-- When a call of a commit comes back, nothing is inside the commit any
more. -/
theorem committing_top {task : Task} {tx : TransactionId}
    (orderly : Orderly s (⟨made, task⟩ :: rest))
    (hcommits : task.commits? = some tx) :
    (s.owned = some tx ∨ s.owned = none ∧ s.settled = some tx) ∧
      s.commitInProgress = true ∧ ∀ p ∈ rest, p.task.commits? = none := by
  rcases orderly.top with ⟨-, hnone, -⟩ | ⟨own, hown, hin, hrest⟩ |
    ⟨own, _, _, _, -, -, hin, -⟩
  · rw [hnone] at hcommits
    cases hcommits
  · cases hown.symm.trans hcommits
    refine ⟨hin.place.imp_right fun ⟨howned, hplace⟩ =>
      ⟨howned, hplace.resolve_right ?_⟩, hin.marked, hrest⟩
    rintro ⟨_, hp, -⟩
    cases hp
  · have hwithin := hin.within _ List.mem_cons_self
    cases task <;> first | exact False.elim hwithin | cases hcommits

/-- What a commit settles is owned still, or was settled while the call
lasted. -/
theorem owned_eq {task : Task} {tx own : TransactionId}
    (orderly : Orderly s (⟨made, task⟩ :: rest))
    (hcommits : task.commits? = some tx) (howned : s.owned = some own) :
    own = tx := by
  rcases (orderly.committing_top hcommits).1 with hown | ⟨hnone, -⟩
  · exact Option.some.inj (howned.symm.trans hown)
  · cases howned.symm.trans hnone

theorem settled_of_owned_none {task : Task} {tx : TransactionId}
    (orderly : Orderly s (⟨made, task⟩ :: rest))
    (hcommits : task.commits? = some tx) (hnone : s.owned = none) :
    s.settled = some tx := by
  rcases (orderly.committing_top hcommits).1 with hown | ⟨-, hsettled⟩
  · cases hnone.symm.trans hown
  · exact hsettled

theorem idle_top {task : Task} (orderly : Orderly s (⟨made, task⟩ :: rest))
    (hcommits : task.commits? = none) (houtside : ∀ tx, ¬ task.Within tx) :
    s.commitInProgress = false ∧ ∀ p ∈ rest, p.task.commits? = none := by
  rcases orderly.top with
    ⟨hidle, -, hrest⟩ | ⟨own, hown, -, -⟩ | ⟨own, _, _, _, -, -, hin, -⟩
  · exact ⟨hidle, hrest⟩
  · rw [hcommits] at hown
    cases hown
  · exact absurd (hin.within _ List.mem_cons_self) (houtside own)

theorem errand_tail {records : List AuditRecord}
    {report : Option (TransactionEvent × TransactionStatus)}
    (orderly : Orderly s (⟨made, .errand records report⟩ :: rest)) :
    Orderly s rest := by
  rcases orderly.top with
    ⟨hidle, -, hrest⟩ | ⟨own, hown, -, -⟩ | ⟨own, _, _, _, rfl,
      hcommits, hin, hnone⟩
  · exact .free hidle hrest
  · cases hown
  · exact .busy _ rfl hcommits hin.tail hnone

theorem released {context : String} {tx : TransactionId}
    (orderly : Orderly s (⟨made, .releasing context tx⟩ :: rest)) :
    Orderly { s with settled := some tx } rest := by
  rcases orderly.top with
    ⟨hidle, -, hrest⟩ | ⟨own, hown, -, -⟩ | ⟨own, _, _, _, rfl,
      hcommits, hin, hnone⟩
  · exact .free hidle hrest
  · cases hown
  · -- What is released inside a commit is what the commit is about.
    obtain rfl : tx = own := hin.within _ List.mem_cons_self
    refine .busy _ rfl hcommits ⟨hin.marked,
      fun p hp => hin.within p (List.mem_cons_of_mem _ hp), ?_⟩ hnone
    exact hin.place.imp_right fun ⟨hgone, _⟩ => ⟨hgone, .inl rfl⟩

theorem resumes {task : Task} {asked : History} {next : Next}
    (orderly : Orderly s (⟨made, task⟩ :: rest))
    (hresumes : Resumes s task asked next) :
    Orderly (next.situation made rest).state
      (next.situation made rest).pending := by
  have hidle : task.commits? = none → (∀ tx, ¬ task.Within tx) →
      Orderly s rest :=
    fun hcommits houtside =>
      have ⟨hunmarked, hrest⟩ := orderly.idle_top hcommits houtside
      .free hunmarked hrest
  -- The commit goes on with its next call.
  have hnext : ∀ {tx task'}, task.commits? = some tx →
      task'.commits? = some tx →
      Orderly s (⟨made, task'⟩ :: rest) := by
    intro tx task' hcommits hcommits'
    obtain ⟨hplace, hmarked, hnone⟩ := orderly.committing_top hcommits
    exact .busy [] (List.nil_append _).symm hcommits'
      ⟨hmarked, fun _ hp => absurd hp List.not_mem_nil,
        hplace.imp_right fun ⟨hgone, hsettled⟩ => ⟨hgone, .inl hsettled⟩⟩ hnone
  -- The commit is over.
  have hover : ∀ {tx s'}, task.commits? = some tx →
      s'.commitInProgress = false → Orderly s' rest :=
    fun hcommits hunmarked =>
      .free hunmarked (orderly.committing_top hcommits).2.2
  cases hresumes with
  | failedToOpen => exact (hidle rfl fun _ => id).congr rfl rfl rfl
  | opened hcollects =>
      obtain ⟨hunmarked, hrest⟩ := orderly.idle_top rfl fun _ => id
      cases hcollects <;> exact .free hunmarked hrest
  | withdrawn tx =>
      obtain ⟨hunmarked, hrest⟩ := orderly.idle_top rfl fun _ => id
      exact .free hunmarked (List.forall_mem_cons.mpr ⟨rfl, hrest⟩)
  | released =>
      refine errand ?_ _ _
      exact orderly.released.congr rfl rfl rfl
  | announcedOwn | failedToCommit => exact hnext rfl rfl
  | committed | committedElsewhere => exact (hover rfl rfl).errand _ _
  | undone | undoneElsewhere => exact (hover rfl rfl).errand _ _
  | announced =>
      refine errand ?_ _ _
      exact (hidle rfl fun _ => id).congr rfl rfl rfl
  | delivered | reported => exact orderly.errand_tail.errand _ _

theorem onward {next : Next} {later : History} {c : Situation}
    (orderly : Orderly (next.situation made rest).state
      (next.situation made rest).pending)
    (honward : Onward made rest next later c) :
    Orderly c.state c.pending := by
  cases honward with
  | ends | waits => exact orderly
  | delivers | reports => exact orderly.errand_tail.errand _ _
  | closes =>
      refine orderly.errand_tail.congr ?_ ?_ ?_ <;> cases made <;> rfl
  | gives => exact orderly.errand_tail.congr rfl rfl rfl

/-- Every situation that a run comes to is orderly. -/
theorem of_run {c c' : Situation} {h : History} (run : Run c h c')
    (orderly : Orderly c.state c.pending) : Orderly c'.state c'.pending :=
  run.keeps (fun _ c => Orderly c.state c.pending)
    (fun _ made rest next =>
      Orderly (next.situation made rest).state
        (next.situation made rest).pending)
    begins resumes (fun orderly _ honward => orderly.onward honward)
      (h := []) orderly

end Orderly
end AuditTrail

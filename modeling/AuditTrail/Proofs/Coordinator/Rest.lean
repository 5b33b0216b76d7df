import AuditTrail.Proofs.Coordinator.Settlement

/-!
# Coming to rest

A coordinator that is left in the middle of something would be of no use to
anybody afterwards: while its state is marked for a commit it captures nothing
and delivers nothing. So between two calls of the host it must be at rest, and
whoever calls it from inside a commit must find it marked.

The phase is moved about only by the two calls that surround a flush, and each
of them leaves it at rest in the end. So wherever the phase is, one of them is
under way (`Situation.Moving`). With the mark it is the same, but here it can be
said exactly: the state is marked if and only if a commit is under way, which
`Orderly` knows of the pieces and `committing` reads off the history.
-/

namespace AuditTrail

open Coordinator History Situation

/-- The state that is seen when something happens. -/
def Happening.state? : Happening → Option CoordinatorState
  | .entered _ s => some s
  | .left _ _ s => some s
  | _ => none

/-! ## The phase -/

/-- No flush is being captured or delivered. -/
def LifecyclePhase.atRest (phase : LifecyclePhase) : Prop :=
  phase = .idle ∨ phase = .awaitingWrite

/-- The calls that surround a flush. -/
def HostCall.isFlush : HostCall → Bool
  | .startCollecting _ => true
  | .finish _ => true
  | _ => false

/-- The phase is at rest unless a flush is being captured or delivered. -/
def Situation.Moving (c : Situation) : Prop :=
  c.state.phase.atRest ∨ ∃ p ∈ c.pending, p.made.isFlush

namespace Situation.Moving

variable {s : CoordinatorState} {made : HostCall} {rest : List Pending}
  {asked : History} {next : Next}

/-- What goes on for a flush may leave the phase anywhere. -/
theorem flush {s' : CoordinatorState} {task : Task} (hflush : made.isFlush) :
    Moving ⟨s', ⟨made, task⟩ :: rest⟩ :=
  .inr ⟨_, List.mem_cons_self, hflush⟩

theorem congr {s' : CoordinatorState} (moving : Moving ⟨s, rest⟩)
    (hphase : s'.phase = s.phase) :
    Moving ⟨s', rest⟩ :=
  moving.imp_left fun hrest => by rwa [hphase]

theorem cons {task : Task} (moving : Moving ⟨s, rest⟩) :
    Moving ⟨s, ⟨made, task⟩ :: rest⟩ :=
  moving.imp_right fun ⟨p, hp, hflush⟩ => ⟨p, List.mem_cons_of_mem _ hp, hflush⟩

theorem same {task task' : Task} {s' : CoordinatorState}
    (moving : Moving ⟨s, ⟨made, task⟩ :: rest⟩) (hphase : s'.phase = s.phase) :
    Moving ⟨s', ⟨made, task'⟩ :: rest⟩ := by
  rcases moving with hrest | ⟨p, hp, hflush⟩
  · exact .inl (by rwa [hphase])
  · rcases List.mem_cons.mp hp with rfl | hp
    · exact flush hflush
    · exact .inr ⟨p, List.mem_cons_of_mem _ hp, hflush⟩

theorem collects {s' : CoordinatorState} (hcollects : Collects s' asked next) :
    Moving (next.situation made rest) := by
  cases hcollects with
  | captured => exact .inl (.inr rfl)
  | refused => exact .inl (.inl rfl)

theorem begins (moving : Moving ⟨s, rest⟩)
    (hbegins : Begins s made asked next) :
    Moving (next.situation made rest) := by
  cases hbegins with
  | refused | busy | ignored => exact moving
  | collected _ _ _ hcollects => exact collects hcollects
  | opens | flushed | batched | commits | announcesOwn => exact flush rfl
  | abandons | releases => exact .inl (.inl rfl)
  | passes | announces => exact (moving.congr rfl).cons
  | ended => exact (moving.congr (settleOwned_phase _ _)).cons
  | clearedCaptures | clearedBatch => exact moving.congr rfl

theorem resumes {task : Task} (moving : Moving ⟨s, ⟨made, task⟩ :: rest⟩)
    (hresumes : Resumes s task asked next) :
    Moving (next.situation made rest) := by
  cases hresumes with
  | failedToOpen => exact .inl (.inl rfl)
  | opened hcollects => exact collects hcollects
  | _ => exact moving.same rfl

theorem onward {later : History} {c : Situation}
    (moving : Moving (next.situation made rest))
    (honward : Onward made rest next later c) : Moving c := by
  cases honward with
  | ends | waits => exact moving
  | delivers | reports => exact moving.same rfl
  | gives => exact .inl (.inl rfl)
  | closes _ s hother =>
      rcases moving with hrest | ⟨p, hp, hflush⟩
      · exact .inl (by cases made <;> first | exact hrest | exact .inl rfl)
      · rcases List.mem_cons.mp hp with rfl | hp
        · cases made with
          | startCollecting context => exact absurd rfl (hother context)
          | finish => exact .inl (.inl rfl)
          | _ => cases hflush
        · exact .inr ⟨p, hp, hflush⟩

end Situation.Moving

/-! ## The mark -/

/-- What the coordinator was told and has not done yet, the last first, and
whether it is committing a transaction of its own there, after something else
has happened. The commit of a flush that is finished begins when its batch is
announced, or with the commit itself if there is nothing to announce. -/
def Happening.mark (frames : List (HostCall × Bool)) (x : Happening) :
    List (HostCall × Bool) :=
  match x, frames with
  | .entered made _, frames => (made, false) :: frames
  | .called (.preCommit _ _), (.finish context, _) :: outside =>
      (.finish context, true) :: outside
  | .called (.commit _), (made, _) :: outside => (made, true) :: outside
  | .returned (.commit _) (.ok _), (made, _) :: outside =>
      (made, false) :: outside
  | .returned (.rollback _) _, (made, _) :: outside => (made, false) :: outside
  | .left _ _ _, frames => frames.tail
  | _, frames => frames

/-- A transaction of the coordinator's own is being committed: neither has the
commit succeeded, nor has the rollback come back that follows its failure. -/
def History.committing (h : History) : Bool :=
  (h.foldl Happening.mark []).any (·.2)

theorem History.committing_entered (h : History) (made : HostCall)
    (s : CoordinatorState) :
    committing (h ++ [.entered made s]) = committing h := by
  rw [committing, List.foldl_append]
  rfl

/-- The turn that a piece belongs to, and whether it commits. -/
def Pending.mark (p : Pending) : HostCall × Bool :=
  (p.made, p.task.commits?.isSome)

/-- Whether a turn is marked when it comes to a task. What it is about to call
may mark it. -/
def Task.Marked (made : HostCall) (marked : Bool) : Task → Prop
  | announcingOwn _ _ _ => ∃ context, made = .finish context
  | announcing _ _ => (∀ context, made ≠ .finish context) ∧ marked = false
  | committing _ _ _ => True
  | undoing _ _ => marked = true
  | _ => marked = false

def Next.Marked (made : HostCall) (marked : Bool) : Next → Prop
  | ends _ _ => True
  | goesOn task _ => task.Marked made marked

section Marks

variable {s : CoordinatorState} {made : HostCall} {rest : List Pending}
  {asked : History} {next : Next} {c : Situation} {h : History}

theorem History.OnlyAsks.mark_eq (asks : OnlyAsks asked)
    (frames : List (HostCall × Bool)) :
    asked.foldl Happening.mark frames = frames :=
  asks.foldl_eq (fun _ _ _ => rfl) frames

theorem Begins.marked (hbegins : Begins s made asked next) :
    next.Marked made false := by
  cases hbegins with
  | collected _ _ _ hcollects => cases hcollects <;> exact trivial
  | announcesOwn => exact ⟨_, rfl⟩
  | announces => exact ⟨nofun, rfl⟩
  | _ => first | exact trivial | exact rfl

theorem Resumes.marked {task : Task} (hresumes : Resumes s task asked next)
    (made : HostCall) (frames : List (HostCall × Bool)) :
    ∃ marked, asked.foldl Happening.mark (Pending.mark ⟨made, task⟩ :: frames) =
      (made, marked) :: frames ∧ next.Marked made marked := by
  cases hresumes with
  | opened hcollects =>
      refine ⟨false, hcollects.asks.mark_eq _, ?_⟩
      cases hcollects <;> exact trivial
  | announcedOwn | failedToCommit =>
      exact ⟨true, rfl, by first | exact trivial | exact rfl⟩
  | _ => exact ⟨false, rfl, by first | exact trivial | exact rfl⟩

theorem Onward.marked {later : History}
    (honward : Onward made rest next later c) {marked : Bool}
    (hmarked : next.Marked made marked) :
    later.foldl Happening.mark ((made, marked) :: rest.map Pending.mark) =
      c.pending.map Pending.mark := by
  cases honward with
  | @waits task _ _ hcall =>
      cases task with
      | announcingOwn =>
          obtain ⟨context, rfl⟩ := hmarked
          cases hcall
          rfl
      | announcing =>
          obtain ⟨hother, rfl⟩ := hmarked
          cases hcall
          cases made with
          | finish context => exact absurd rfl (hother context)
          | _ => rfl
      | errand => cases hcall
      | committing =>
          cases hcall
          rfl
      | _ =>
          cases hcall
          cases hmarked
          rfl
  | delivers | reports =>
      cases hmarked
      rfl
  | _ => rfl

/-- The history says of each turn under way whether it commits. -/
theorem Situation.Run.marks_eq (run : Run ⟨CoordinatorState.initial, []⟩ h c) :
    h.foldl Happening.mark [] = c.pending.map Pending.mark := by
  refine run.keeps
    (fun h c => h.foldl Happening.mark [] = c.pending.map Pending.mark)
    (fun h made rest next => ∃ marked,
      h.foldl Happening.mark [] = (made, marked) :: rest.map Pending.mark ∧
        next.Marked made marked)
    ?_ ?_ ?_ (h := []) rfl
  · intro h s rest made asked next hinv hbegins
    refine ⟨false, ?_, hbegins.marked⟩
    rw [List.foldl_append, List.foldl_cons, hbegins.asks.mark_eq, hinv]
    rfl
  · intro h s rest made task asked next hinv hresumes
    obtain ⟨marked, hmarks, hmarked⟩ :=
      hresumes.marked made (rest.map Pending.mark)
    refine ⟨marked, ?_, hmarked⟩
    rw [List.foldl_append, hinv]
    exact hmarks
  · intro h rest made next later c hmid _ honward
    obtain ⟨marked, hmarks, hmarked⟩ := hmid
    rw [List.foldl_append, hmarks]
    exact honward.marked hmarked

end Marks

/-- The state is marked if and only if a commit is under way. -/
theorem Orderly.marked_iff {s : CoordinatorState} {pending : List Pending}
    (orderly : Orderly s pending) :
    s.commitInProgress = true ↔
      (pending.map Pending.mark).any (·.2) = true := by
  rw [List.any_map, List.any_eq_true]
  cases orderly with
  | free hidle hnone =>
      rw [hidle]
      refine ⟨nofun, fun ⟨p, hp, hmarked⟩ => ?_⟩
      rw [Function.comp_apply, Pending.mark, hnone p hp] at hmarked
      cases hmarked
  | @busy outside p tx inside hpending hcommits hinside =>
      refine ⟨fun _ => ⟨p, ?_, ?_⟩, fun _ => hinside.marked⟩
      · rw [hpending]
        exact List.mem_append_right _ List.mem_cons_self
      · rw [Function.comp_apply, Pending.mark, hcommits]
        rfl

theorem HostCall.not_waits_of_abandoned {made : HostCall} {context : String}
    (hmade : made.abandoned? = some context) : made.waitsForCommit = false := by
  cases made <;> first | rfl | cases hmade

/-- While a commit is in progress, what waits for it does nothing. -/
theorem Begins.of_marked {s : CoordinatorState} {made : HostCall}
    {asked : History} {next : Next} (hbegins : Begins s made asked next)
    (hwaits : made.waitsForCommit) (hmarked : s.commitInProgress = true) :
    (asked = [.asked .isCancelled true] ∧ next = .ends (.error .cancelled) s) ∨
      asked = [.asked .isCancelled false] ∧ next = .ends (.ok ()) s := by
  cases hbegins with
  | refused => exact .inl ⟨rfl, rfl⟩
  | busy => exact .inr ⟨rfl, rfl⟩
  | collected hidle | opens hidle | flushed hidle | batched hidle
  | commits hidle
  | announcesOwn hidle | passes hidle | announces hidle =>
      cases hmarked.symm.trans hidle
  | ignored hending | ended hending =>
      rw [HostCall.not_ending_of_waits hwaits] at hending
      cases hending
  | abandons hmade | releases hmade =>
      rw [HostCall.not_waits_of_abandoned hmade] at hwaits
      cases hwaits
  | clearedCaptures | clearedBatch => cases hwaits

namespace Situation

variable {c : Situation} {h before after : History} {made : HostCall}
  {s : CoordinatorState} {outcome : Outcome}

theorem Run.marked_iff (run : Run ⟨CoordinatorState.initial, []⟩ h c) :
    c.state.commitInProgress = true ↔ committing h = true := by
  rw [committing, run.marks_eq]
  exact (Orderly.of_run run (.free rfl fun _ hp => nomatch hp)).marked_iff

/-- When nothing is under way the coordinator is at rest. -/
theorem Run.rests (run : Run ⟨CoordinatorState.initial, []⟩ h ⟨s, []⟩) :
    s.commitInProgress = false ∧ s.phase.atRest := by
  have moving : Moving ⟨s, []⟩ :=
    run.keeps (fun _ c => Moving c)
      (fun _ made rest next => Moving (next.situation made rest))
      .begins .resumes (fun moving _ honward => moving.onward honward) (h := [])
      (.inl (.inl rfl))
  refine ⟨?_, moving.resolve_right nofun⟩
  cases Orderly.of_run run (.free rfl fun _ hp => nomatch hp) with
  | free hidle => exact hidle
  | busy inside hpending => cases inside <;> cases hpending

theorem Step.of_left {c c' : Situation}
    (step : Step c (h ++ [.left made outcome s]) c') :
    c'.state = s := by
  obtain ⟨_, _, _, _, _, honward, hlast, -⟩ := step.ending
  cases honward with
  | waits | delivers | reports => cases hlast
  | ends | closes | gives =>
      cases hlast
      rfl

/-- The state that is seen when something happens is that of the situation
before or after it. -/
theorem Run.seen {x : Happening} (run : Run ⟨CoordinatorState.initial, []⟩ h c)
    (hsplit : h = before ++ x :: after) (hseen : x.state? = some s) :
    ∃ earlier c', Run ⟨CoordinatorState.initial, []⟩ earlier c' ∧ c'.state = s ∧
      (earlier = before ∧ (∃ made, x = .entered made s) ∨
        earlier = before ++ [x]) := by
  cases x with
  | entered made seen =>
      cases hseen
      obtain ⟨c₁, c₂, later, rest, hbefore, hstep, -, -⟩ :=
        Run.cut (x := .entered made s) trivial run hsplit
      obtain ⟨_, _, _, hstate, -⟩ := hstep.of_entered
      exact ⟨before, c₁, hbefore, hstate, .inl ⟨rfl, made, rfl⟩⟩
  | left made outcome seen =>
      cases hseen
      obtain ⟨c₁, c₂, earlier, asked, hearlier, hstep, -, rfl⟩ :=
        Run.cut_after (x := .left made outcome s) trivial run hsplit
      refine ⟨_, c₂, hearlier.snoc hstep, hstep.of_left, .inr ?_⟩
      rw [List.append_assoc]
  | _ => cases hseen

/-- At any moment at which the state is seen, it is marked if and only if the
history says that a commit is under way. -/
theorem Run.seen_marked_iff {x : Happening}
    (run : Run ⟨CoordinatorState.initial, []⟩ h c)
    (hsplit : h = before ++ x :: after) (hseen : x.state? = some s) :
    s.commitInProgress = true ↔ committing (before ++ [x]) = true := by
  obtain ⟨earlier, c', hearlier, rfl, ⟨rfl, made, rfl⟩ | rfl⟩ :=
    run.seen hsplit hseen
  · rw [committing_entered]
    exact hearlier.marked_iff
  · exact hearlier.marked_iff

end Situation

/-- The coordinator always comes to rest. Whatever its collaborators answer and
whatever they tell it meanwhile, when it has done what the host told it the
state is not marked for a commit, and its phase is at rest. In between the
state is marked exactly as long as a transaction of its own is being committed,
and captures, flushes and announcements that come in then are answered at once
and change nothing. -/
theorem comes_to_rest {settings : CoordinatorSettings} {depth : Nat}
    {ts : List Turn} {s : CoordinatorState}
    (session : Session settings (Interlude.nested settings depth)
      CoordinatorState.initial ts s) :
    (∀ t ∈ ts, t.after.commitInProgress = false ∧ t.after.phase.atRest) ∧
    (∀ before x after seen, accountOf ts = before ++ x :: after →
      x.state? = some seen →
      (seen.commitInProgress = true ↔ committing (before ++ [x]) = true)) ∧
    ∀ before made seen after,
      accountOf ts = before ++ .entered made seen ::
        .asked .isCancelled false :: after →
      made.waitsForCommit → committing before = true →
      ∃ later, after = .left made (.ok ()) seen :: later := by
  refine ⟨fun t ht => ?_, fun _ _ _ _ => session.run_nested.seen_marked_iff, ?_⟩
  · obtain ⟨earlier, later, rfl⟩ := List.append_of_mem ht
    obtain ⟨hearlier, taken, -⟩ := session.cut
    exact (taken.run (Interlude.nested_follows settings depth)
      hearlier.run_nested).rests
  · intro before made seen after hsplit hwaits hcommitting
    obtain ⟨c₁, c₂, step, rest, hbefore, hstep, -, hafter⟩ :=
      Run.cut (x := .entered made seen) trivial session.run_nested hsplit
    obtain ⟨asked, next, later, rfl, hbegins, honward, rfl⟩ := hstep.of_entered
    have hmarked := hbefore.marked_iff.mpr hcommitting
    rcases hbegins.of_marked hwaits hmarked with ⟨rfl, -⟩ | ⟨rfl, rfl⟩
    · cases hafter
    · cases honward
      cases hafter
      exact ⟨rest, rfl⟩

/-- The coordinator is told to capture while it commits. -/
theorem comes_to_rest_disturbed :
    let ts := turnsIn (Sample.settings true) CoordinatorState.initial
      Sample.flushes
    committed (accountOf ts) = [Sample.transaction 1] ∧
      ((accountOf ts).filterMap Happening.state?).any (·.commitInProgress) =
        true ∧
      ∀ t ∈ ts, t.after.commitInProgress = false ∧ t.after.phase.atRest :=
  ⟨by decide +kernel, by decide +kernel,
    (comes_to_rest Sample.flushes_session).1⟩

end AuditTrail

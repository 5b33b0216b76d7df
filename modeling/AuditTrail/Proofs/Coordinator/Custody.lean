import AuditTrail.Proofs.Coordinator.Accounting
import AuditTrail.Proofs.Coordinator.Following

/-!
# In whose hands records are

Between the moments at which a call is made and comes back, the records that
a piece is about are neither in the state nor delivered. The piece holds them,
and what happens meanwhile cannot see them. `Situation.found` counts an
identity wherever it is, in the state or in the hands of any piece that is
under way, and `Situation.Run.conserves` says that a run makes no more of it
than it finds and is given. Unlike the account of whole turns this can be said
from any moment on, in the middle of whatever is nested in whatever.

What the pieces hold can be read off the history: it is what the turns that
are under way have announced, as long as the commit after it has not come
back. `underway` reads it, and `Situation.Run.underway_eq` says that it does.
-/

namespace AuditTrail

open Coordinator History Situation

/-- The records that are in the hands of a piece. -/
def Task.holds : Task → List AuditRecord
  | announcingOwn _ _ batch => batch
  | committing _ _ batch => batch
  | announcing _ batch => batch
  | errand records _ => records
  | _ => []

/-! ## How often an identity is found -/

def CoordinatorState.found (id : RecordId) (s : CoordinatorState) : Nat :=
  s.captureIds.count id + (idsOf s.batch).count id

def Task.found (id : RecordId) (task : Task) : Nat :=
  (idsOf task.holds).count id

def Next.found (id : RecordId) : Next → Nat
  | ends _ s => s.found id
  | goesOn task s => task.found id + s.found id

/-- How often an identity is in the state or in the hands of a piece. -/
def Situation.found (id : RecordId) (c : Situation) : Nat :=
  c.state.found id + Pending.total (Task.found id) c.pending

section Moves

variable {id : RecordId} {s : CoordinatorState} {made : HostCall} {next : Next}
  {asked : History}

theorem Collects.conserves (hcollects : Collects s asked next) :
    next.found id ≤ s.found id + (issued asked).count id := by
  cases hcollects with
  | @captured captures _ hissued =>
      have hmerged := count_mergeCaptures id captures s.captures
      rw [hissued] at hmerged
      simp only [Next.found, CoordinatorState.found,
        CoordinatorState.captureIds]
      omega
  | refused => exact Nat.le_add_right _ _

theorem count_promotions (id : RecordId) (s : CoordinatorState)
    (keys : List (Option FieldValue)) :
    (idsOf (promotions s.captures keys)).count id = s.captureIds.count id :=
  congrArg (List.count id) (id_promotions s.captures keys)

theorem Begins.conserves (hbegins : Begins s made asked next) :
    next.found id ≤ s.found id + (issued asked).count id := by
  have hpromoted := count_promotions id s
  cases hbegins with
  | collected _ _ _ hcollects => exact hcollects.conserves
  | @announcesOwn _ _ _ _ _ _ _ hbatch =>
      refine Nat.le_add_right_of_le ?_
      rw [← hbatch]
      simp only [Next.found, Task.found, Task.holds, CoordinatorState.found,
        CoordinatorState.captureIds, idsOf_append, idsOf_nil, List.count_append,
        List.count_nil, List.map_nil, hpromoted]
      omega
  | @ended _ event status =>
      refine Nat.le_add_right_of_le ?_
      have hcaptures := settleOwned_captures event s
      simp only [Next.found, Task.found, Task.holds, CoordinatorState.found,
        CoordinatorState.captureIds, hcaptures]
      split <;> simp only [idsOf_nil, List.count_nil] <;> omega
  | _ =>
      refine Nat.le_add_right_of_le ?_
      simp only [Next.found, Task.found, Task.holds, CoordinatorState.found,
        CoordinatorState.captureIds, idsOf_append, idsOf_nil, List.count_append,
        List.count_nil, List.map_nil, hpromoted]
      omega

theorem Resumes.conserves {task : Task} (hresumes : Resumes s task asked next) :
    next.found id ≤ task.found id + s.found id + (issued asked).count id := by
  cases hresumes with
  | opened hcollects =>
      rw [Nat.add_assoc]
      exact Nat.le_add_left_of_le hcollects.conserves
  | _ =>
      refine Nat.le_add_right_of_le ?_
      simp only [Next.found, Task.found, Task.holds, CoordinatorState.found,
        CoordinatorState.captureIds, idsOf_append, idsOf_nil, List.count_append,
        List.count_nil]
      omega

theorem Task.delivery?_of_call {task : Task} {call : Call}
    (hcall : task.call? = some call) :
    call.delivery? = none := by
  cases task <;> cases hcall <;> rfl

theorem count_delivered_of_deliveries {h : History}
    (hnone : deliveries h = []) :
    (idsOf (delivered h)).count id = 0 := by
  rw [delivered, hnone]
  rfl

theorem Onward.conserves {rest : List Pending} {later : History} {c : Situation}
    (honward : Onward made rest next later c) :
    c.found id + (idsOf (delivered later)).count id ≤
      next.found id + Pending.total (Task.found id) rest := by
  cases honward with
  | ends => exact Nat.le_refl _
  | @waits _ call s hcall =>
      have hnone : deliveries [.called call] = [] :=
        List.filterMap_cons_none (Task.delivery?_of_call hcall)
      rw [count_delivered_of_deliveries hnone]
      simp only [Situation.found, Next.found, Pending.total_cons]
      omega
  | @delivers records _ report s =>
      have hone : delivered [.called (.consume records)] = records :=
        List.append_nil records
      rw [hone]
      simp only [Situation.found, Next.found, Pending.total_cons, Task.found,
        Task.holds, idsOf_nil, List.count_nil]
      omega
  | reports =>
      rw [count_delivered_of_deliveries rfl]
      simp only [Situation.found, Next.found, Pending.total_cons, Task.found,
        Task.holds]
      omega
  | closes _ s =>
      have hclosed : (made.close s).found id = s.found id := by
        cases made <;> rfl
      rw [count_delivered_of_deliveries rfl]
      simp only [Situation.found, Next.found, hclosed]
      omega
  | gives =>
      rw [count_delivered_of_deliveries rfl]
      simp only [Situation.found, Next.found, CoordinatorState.found,
        CoordinatorState.captureIds]
      omega

theorem Onward.issued_eq {rest : List Pending} {later : History} {c : Situation}
    (honward : Onward made rest next later c) : issued later = [] := by
  cases honward <;> rfl

theorem delivered_append_of_asks (asks : OnlyAsks asked) (later : History) :
    delivered (asked ++ later) = delivered later := by
  rw [delivered_append, delivered, deliveries, asks.calls_eq]
  rfl

theorem Situation.Step.conserves {c c' : Situation} {h : History}
    (step : Step c h c') :
    c'.found id + (idsOf (delivered h)).count id ≤ c.found id +
      (issued h).count id := by
  cases step with
  | @enter s rest made asked later next _ hbegins honward =>
      have hdelivered : delivered (.entered made s :: (asked ++ later)) =
          delivered later :=
        delivered_append_of_asks hbegins.asks later
      have hissued : issued (.entered made s :: (asked ++ later)) =
          issued asked := by
        refine (issued_append asked later).trans ?_
        rw [honward.issued_eq, List.append_nil]
      have hbegun : next.found id ≤ s.found id + (issued asked).count id :=
        hbegins.conserves
      have hwent : _ ≤ next.found id + Pending.total _ rest := honward.conserves
      rw [hdelivered, hissued]
      simp only [Situation.found] at hwent ⊢
      omega
  | @resume s rest made task asked later next _ hresumes honward =>
      obtain ⟨call, answer, more, rfl, hasks⟩ := hresumes.head
      have hdelivered : delivered (.returned call answer :: more ++ later) =
          delivered later :=
        delivered_append_of_asks hasks later
      have hresumed : next.found id ≤ task.found id + s.found id + _ :=
        hresumes.conserves
      have hwent : _ ≤ next.found id + Pending.total _ rest := honward.conserves
      rw [hdelivered, issued_append, honward.issued_eq, List.append_nil]
      simp only [Situation.found, Pending.total_cons] at hwent ⊢
      omega

/-- A run makes no more of an identity than it finds and is given. -/
theorem Situation.Run.conserves {c c' : Situation} {h : History}
    (run : Run c h c') (id : RecordId) :
    c'.found id + (idsOf (delivered h)).count id ≤ c.found id +
      (issued h).count id := by
  induction run with
  | nil => exact Nat.le_refl _
  | @snoc _ _ c' c'' _ step ih =>
      have hstep : c''.found id + _ ≤ c'.found id + _ := step.conserves
      rw [delivered_append, idsOf_append, issued_append, List.count_append,
        List.count_append]
      omega

end Moves

/-! ## What is announced and under way -/

/-- What the turns that are under way have announced, after something else has
happened, the innermost turn first. -/
def Happening.track (frames : List (List AuditRecord)) :
    Happening → List (List AuditRecord)
  | .entered _ _ => [] :: frames
  | .called (.preCommit records _) => records :: frames.tail
  | .returned (.commit _) _ => [] :: frames.tail
  | .left _ _ _ => frames.tail
  | _ => frames

/-- The records that the turns under way have announced, if no commit has come
back since, for each turn, the innermost first. -/
def History.underway (h : History) : List (List AuditRecord) :=
  h.foldl Happening.track []

theorem History.OnlyAsks.track_eq {asked : History} (asks : OnlyAsks asked)
    (frames : List (List AuditRecord)) :
    asked.foldl Happening.track frames = frames :=
  asks.foldl_eq (fun _ _ _ => rfl) frames

/-- What a turn has announced when it comes to a task: what is going to be
committed, or nothing, unless it is about to announce something or to end. -/
def Task.Framed (frame : List AuditRecord) : Task → Prop
  | announcingOwn _ _ _ => True
  | announcing _ _ => True
  | errand [] none => True
  | committing _ _ batch => frame = batch
  | _ => frame = []

def Next.Framed (frame : List AuditRecord) : Next → Prop
  | ends _ _ => True
  | goesOn task _ => task.Framed frame

theorem Task.framed_errand (records : List AuditRecord)
    (report : Option (TransactionEvent × TransactionStatus)) :
    (Task.errand records report).Framed [] := by
  cases records with
  | nil => cases report <;> first | exact trivial | exact rfl
  | cons => exact rfl

theorem Begins.framed {s : CoordinatorState} {made : HostCall} {asked : History}
    {next : Next} (hbegins : Begins s made asked next) : next.Framed [] := by
  cases hbegins with
  | collected _ _ _ hcollects => cases hcollects <;> exact trivial
  | flushed | ended => exact Task.framed_errand _ _
  | _ => first | exact trivial | exact rfl

theorem Resumes.framed {s : CoordinatorState} {task : Task} {asked : History}
    {next : Next} (hresumes : Resumes s task asked next)
    (frames : List (List AuditRecord)) :
    ∃ frame,
      asked.foldl Happening.track (task.holds :: frames) = frame :: frames ∧
      next.Framed frame := by
  cases hresumes with
  | opened hcollects =>
      refine ⟨[], hcollects.asks.track_eq _, ?_⟩
      cases hcollects <;> exact trivial
  | committed | committedElsewhere => exact ⟨[], rfl, Task.framed_errand _ _⟩
  | failedToOpen => exact ⟨[], rfl, trivial⟩
  | withdrawn => exact ⟨[], rfl, rfl⟩
  | released => exact ⟨[], rfl, rfl⟩
  | failedToCommit => exact ⟨[], rfl, rfl⟩
  | undone => exact ⟨[], rfl, rfl⟩
  | undoneElsewhere => exact ⟨[], rfl, trivial⟩
  | announcedOwn => exact ⟨_, rfl, rfl⟩
  | announced => exact ⟨_, rfl, trivial⟩
  | delivered => exact ⟨[], rfl, Task.framed_errand _ _⟩
  | reported => exact ⟨[], rfl, trivial⟩

theorem Onward.framed {made : HostCall} {rest : List Pending} {next : Next}
    {later : History} {c : Situation} (honward : Onward made rest next later c)
    {frame : List AuditRecord} (framed : next.Framed frame) :
    later.foldl Happening.track (frame :: rest.map (·.task.holds)) =
      c.pending.map (·.task.holds) := by
  cases honward with
  | ends => rfl
  | @waits task _ _ hcall =>
      cases task <;>
        cases hcall <;> first | rfl | exact congrArg (· :: _) framed
  | @delivers records =>
      cases records with
      | nil => contradiction
      | cons => exact congrArg (· :: _) framed
  | reports => exact congrArg (· :: _) framed
  | closes => rfl
  | gives => rfl

/-- What is held by the pieces that are under way is what their turns have
announced. -/
theorem Situation.Run.underway_eq {c : Situation} {h : History}
    (run : Run ⟨CoordinatorState.initial, []⟩ h c) :
    underway h = c.pending.map (·.task.holds) := by
  refine run.keeps (fun h c => underway h = c.pending.map (·.task.holds))
    (fun h _ rest next => ∃ frame,
      underway h = frame :: rest.map (·.task.holds) ∧ next.Framed frame)
    ?_ ?_ ?_ (h := []) rfl
  · intro h s rest made asked next hinv hbegins
    refine ⟨[], ?_, hbegins.framed⟩
    rw [underway, List.foldl_append, List.foldl_cons, hbegins.asks.track_eq]
    exact congrArg _ hinv
  · intro h s rest made task asked next hinv hresumes
    obtain ⟨frame, htrack, hframed⟩ := hresumes.framed (rest.map (·.task.holds))
    refine ⟨frame, ?_, hframed⟩
    rw [underway, List.foldl_append]
    exact (congrArg (asked.foldl Happening.track) hinv).trans htrack
  · intro h rest made next later c hmid _ honward
    obtain ⟨frame, htrack, hframed⟩ := hmid
    rw [underway, List.foldl_append]
    exact (congrArg (later.foldl Happening.track) htrack).trans
      (honward.framed hframed)

end AuditTrail

import AuditTrail.Proofs.Coordinator.Provenance
import AuditTrail.Proofs.Coordinator.Rest

/-!
# How captures merge

Captures that are taken in one after the other either replace the capture of
their entity in place or go behind the others. Three things of what is left
come from three different captures: its position and its identity from the
first of its entity, all else from the last. The first may be one that was
pending before, and there may be several of one entity in one snapshot.

Two lists of captures without repeated entities are the same if they have the
same entities in the same order and the same capture of each
(`Capture.eq_of_pendingFor`). So it suffices to know both of a merged list, and
that taking in the same snapshot again changes nothing can be read off.

That nothing is pending twice holds at every moment of a run, because what is
pending is always what captures taken in from the beginning have come to
(`Gathered`), whoever else starts and finishes flushes in between.
-/

namespace AuditTrail

open Coordinator History Situation CoordinatorState

/-! ## The entities and the capture of each -/

/-- The entities that were not pending go behind those that were, in the order
in which they first occur. -/
theorem entities_mergeCaptures (captured : List Capture) :
    ∀ pending : List Capture,
    (mergeCaptures pending captured).map (·.entity) = pending.map (·.entity) ++
      ((captured.map (·.entity)).filter
        (· ∉ pending.map (·.entity))).eraseDups := by
  induction captured with
  | nil => intro pending; exact (List.append_nil _).symm
  | cons first rest ih =>
      intro pending
      refine (ih (mergeCapture first pending)).trans ?_
      rw [entities_mergeCapture, List.map_cons]
      split
      · next hmem => rw [List.filter_cons_of_neg (by simpa using hmem)]
      · next hnew =>
          rw [List.filter_cons_of_pos (by simpa using hnew),
            List.eraseDups_cons, List.filter_filter, List.append_assoc,
            List.singleton_append]
          -- What is dropped behind `first` is dropped for one of two reasons in
          -- either order.
          congr 3
          refine List.filter_congr fun e _ => ?_
          simp only [List.mem_append, List.mem_singleton, not_or,
            Bool.decide_and, decide_not, Bool.and_comm]
          rfl

theorem mem_entities_mergeCaptures {e : EntityRef}
    {pending captured : List Capture} :
    e ∈ (mergeCaptures pending captured).map (·.entity) ↔
      e ∈ pending.map (·.entity) ∨ e ∈ captured.map (·.entity) := by
  rw [entities_mergeCaptures, List.mem_append, List.mem_eraseDups,
    List.mem_filter, decide_eq_true_eq]
  by_cases hpending : e ∈ pending.map (·.entity)
  · simp only [hpending, true_or]
  · simp only [hpending, false_or, not_false_eq_true, and_true]

namespace Capture

theorem about_append (e : EntityRef) (pending captured : List Capture) :
    about e (pending ++ captured) = about e pending ++ about e captured :=
  List.filter_append pending captured

/-- What is pending after captures were taken in is the last capture of its
entity, with the identity of the first. -/
theorem of_mem_mergeCaptures {pending captured : List Capture} {c : Capture}
    (hnodup : (pending.map (·.entity)).Nodup)
    (hc : c ∈ mergeCaptures pending captured) :
    ∃ first last, (about c.entity (pending ++ captured)).head? = some first ∧
      (about c.entity (pending ++ captured)).getLast? = some last ∧
      c = { last with id := first.id } := by
  have hpending := pendingFor_of_mem hc (nodup_mergeCaptures captured hnodup)
  rw [about_append, List.head?_append, List.getLast?_append, head?_about,
    head?_about]
  cases hlast : (about c.entity captured).getLast? with
  | none =>
      have hnone := List.getLast?_eq_none_iff.mp hlast
      rw [pendingFor_mergeCaptures_of_none hnone] at hpending
      have hmem := List.mem_of_find?_eq_some hpending
      rw [about_eq_singleton hmem hnodup, hpending]
      exact ⟨c, c, rfl, rfl, rfl⟩
  | some last =>
      obtain ⟨id, hmerged, hid⟩ := pendingFor_mergeCaptures hlast pending
      rw [head?_about, Option.map_eq_some_iff] at hid
      obtain ⟨first, hfirst, rfl⟩ := hid
      exact ⟨first, last, hfirst, rfl,
        Option.some.inj (hpending.symm.trans hmerged)⟩

/-- Of lists in which no entity occurs twice. -/
theorem eq_of_pendingFor {captures others : List Capture}
    (hnodup : (captures.map (·.entity)).Nodup)
    (hentities : captures.map (·.entity) = others.map (·.entity))
    (hsame : ∀ e, pendingFor e captures = pendingFor e others) :
    captures = others := by
  refine List.ext_getElem (by simpa using congrArg List.length hentities)
    fun i hi hj => ?_
  have hentity : captures[i].entity = others[i].entity := by
    have := congrArg (·[i]?) hentities
    simpa [hi, hj] using this
  have hfirst := pendingFor_of_mem (List.getElem_mem hi) hnodup
  have hsecond := pendingFor_of_mem (List.getElem_mem hj) (hentities ▸ hnodup)
  rw [hentity, hsame, hsecond] at hfirst
  exact (Option.some.inj hfirst).symm

theorem mergeCaptures_append (pending captured more : List Capture) :
    mergeCaptures pending (captured ++ more) =
      mergeCaptures (mergeCaptures pending captured) more := List.foldl_append

/-- A snapshot that is taken in again changes nothing. -/
theorem mergeCaptures_again {pending : List Capture} (captured : List Capture)
    (hnodup : (pending.map (·.entity)).Nodup) :
    mergeCaptures (mergeCaptures pending captured) captured =
      mergeCaptures pending captured := by
  have hmerged := nodup_mergeCaptures captured hnodup
  refine eq_of_pendingFor (nodup_mergeCaptures captured hmerged) ?_ fun e => ?_
  · -- The second time no entity is new.
    have hold : (captured.map (·.entity)).filter
        (· ∉ (mergeCaptures pending captured).map (·.entity)) = [] := by
      refine List.filter_eq_nil_iff.mpr fun e he => ?_
      rw [decide_eq_true_eq, not_not]
      exact mem_entities_mergeCaptures.mpr (.inr he)
    rw [entities_mergeCaptures captured (mergeCaptures pending captured), hold]
    exact List.append_nil _
  · cases hlast : (about e captured).getLast? with
    | none =>
        exact pendingFor_mergeCaptures_of_none
          (List.getLast?_eq_none_iff.mp hlast) _
    | some last =>
        -- The second time the identity is that of what the first time has left.
        obtain ⟨id, honce, -⟩ := pendingFor_mergeCaptures hlast pending
        obtain ⟨id', htwice, hid⟩ :=
          pendingFor_mergeCaptures hlast (mergeCaptures pending captured)
        rw [honce] at hid
        rw [htwice, honce, ← Option.some.inj hid]

end Capture

/-! ## At any moment of a run -/

/-- What is pending is what captures have come to that were given identities
before, one after the other. -/
def Gathered (h : History) (s : CoordinatorState) : Prop :=
  ∃ taken : List Capture, s.captures = mergeCaptures [] taken ∧
    (taken.map (·.id)).Sublist (issued h)

namespace Gathered

variable {h asked : History} {s s' : CoordinatorState} {next : Next}

theorem keep (gathered : Gathered h s) (hsame : s'.captures = s.captures)
    (later : History) :
    Gathered (h ++ later) s' := by
  obtain ⟨taken, hcaptures, hissued⟩ := gathered
  refine ⟨taken, hsame.trans hcaptures, ?_⟩
  rw [issued_append]
  exact hissued.trans (List.sublist_append_left _ _)

theorem drop (hnone : s.captures = []) : Gathered h s :=
  ⟨[], hnone, List.nil_sublist _⟩

theorem collects (gathered : Gathered h s) (hcollects : Collects s asked next) :
    Gathered (h ++ asked) next.state := by
  cases hcollects with
  | @captured captures _ hissued =>
      obtain ⟨taken, hcaptures, hearlier⟩ := gathered
      refine ⟨taken ++ captures, ?_, ?_⟩
      · rw [Capture.mergeCaptures_append, ← hcaptures]
        rfl
      · rw [List.map_append, hissued, issued_append]
        exact hearlier.append_right _
  | refused => exact gathered.keep rfl asked

theorem begins {made : HostCall} (gathered : Gathered h s)
    (hbegins : Begins s made asked next) :
    Gathered (h ++ .entered made s :: asked) next.state := by
  cases hbegins with
  | @collected context asked _ _ current transactionPhase hcollects =>
      have hbegun : Gathered (h ++ [.entered (.startCollecting context) s,
          .asked .isCancelled false, .asked .currentTransaction current])
          { s with phase := .capturing,
                   transactionPhase := transactionPhase } :=
        gathered.keep rfl _
      have := hbegun.collects hcollects
      rwa [List.append_assoc] at this
  | flushed | batched | commits | announcesOwn | abandons | releases
  | clearedCaptures =>
      exact drop rfl
  | ended => exact gathered.keep (settleOwned_captures _ s) _
  | _ => exact gathered.keep rfl _

theorem resumes {task : Task} (gathered : Gathered h s)
    (hresumes : Resumes s task asked next) :
    Gathered (h ++ asked) next.state := by
  cases hresumes with
  | @opened _ tx asked _ hcollects =>
      have hopened : Gathered
          (h ++ [.returned .begin (.ok tx), .asked .isCancelled false])
          { s with owned := some tx, transactionPhase := .opened } :=
            gathered.keep rfl _
      have := hopened.collects hcollects
      rwa [List.append_assoc] at this
  | _ => exact gathered.keep rfl _

theorem onward {made : HostCall} {rest : List Pending} {later : History}
    {c : Situation} (gathered : Gathered h next.state)
    (honward : Onward made rest next later c) :
    Gathered (h ++ later) c.state := by
  cases honward with
  | closes => exact gathered.keep (by cases made <;> rfl) _
  | _ => exact gathered.keep rfl _

end Gathered

theorem Situation.Run.gathered {c : Situation} {h : History}
    (run : Run ⟨CoordinatorState.initial, []⟩ h c) : Gathered h c.state :=
  run.keeps (fun h c => Gathered h c.state)
    (fun h _ _ next => Gathered h next.state)
    .begins .resumes (fun gathered _ honward => gathered.onward honward) (h :=
      []) (.drop rfl)

theorem Gathered.nodup {h : History} {s : CoordinatorState}
    (gathered : Gathered h s) :
    (s.captures.map (·.entity)).Nodup := by
  obtain ⟨taken, hcaptures, -⟩ := gathered
  rw [hcaptures]
  exact Capture.nodup_mergeCaptures taken List.nodup_nil

/-- How captures merge. Whatever its collaborators answer and whatever they tell
it meanwhile, at any moment at which the state is seen no entity is pending
twice, and what is pending is what captures taken in one after the other have
come to. If more captures are taken in, possibly several of one entity, the
pending entities stay where they are and the others go behind them in the order
in which they first occur. What is then pending of an entity is its last
capture, or the one that was pending if there is no other, and it has the
identity of the first. So to take in the same captures again changes nothing,
and to take in some and then others is to take in all of them. -/
theorem pending_captures_merge {settings : CoordinatorSettings} {depth : Nat}
    {ts : List Turn} {s : CoordinatorState}
    (session : Session settings (Interlude.nested settings depth)
      CoordinatorState.initial ts s)
    {before after : History} {x : Happening} {seen : CoordinatorState}
    (hsplit : accountOf ts = before ++ x :: after)
    (hseen : x.state? = some seen) (captured more : List Capture) :
    let entities : List Capture → List EntityRef := List.map (·.entity)
    let merged := mergeCaptures seen.captures captured
    (entities seen.captures).Nodup ∧ Gathered (before ++ [x]) seen ∧
      entities merged = entities seen.captures ++
        ((entities captured).filter (· ∉ entities seen.captures)).eraseDups ∧
      (∀ c ∈ merged, ∃ first last,
        (Capture.about c.entity (seen.captures ++ captured)).head? =
          some first ∧
        (Capture.about c.entity (seen.captures ++ captured)).getLast? =
          some last ∧
        c = { last with id := first.id }) ∧
      mergeCaptures merged captured = merged ∧
      mergeCaptures merged more = mergeCaptures seen.captures
        (captured ++ more) := by
  obtain ⟨earlier, c, hearlier, rfl, hmoment⟩ :=
    session.run_nested.seen hsplit hseen
  have gathered : Gathered (before ++ [x]) c.state := by
    rcases hmoment with ⟨rfl, -⟩ | rfl
    · exact hearlier.gathered.keep rfl [x]
    · exact hearlier.gathered
  exact ⟨gathered.nodup, gathered, entities_mergeCaptures captured _,
    fun _ => Capture.of_mem_mergeCaptures gathered.nodup,
    Capture.mergeCaptures_again captured gathered.nodup,
    (Capture.mergeCaptures_append _ captured more).symm⟩

/-- A capture of an order, told apart by its permission. -/
def Sample.capture (n id : Nat) (permission : String) : Capture :=
  ⟨⟨⟨⟨BitVec.ofNat 128 id⟩⟩, ⟨n⟩, .update, "Order", TrackedProperties.empty,
    "", permission, Instant.epoch⟩, none⟩

/-- Two orders are pending, and the second is captured twice again around two
captures of a third. -/
theorem pending_captures_merge_repeated :
    let ts := turnsIn (Sample.settings true) CoordinatorState.initial
      Sample.flushes
    let seen := endOf CoordinatorState.initial (ts.take 2)
    let captured :=
      [Sample.capture 2 7 "a", Sample.capture 5 8 "b", Sample.capture 5 9 "c",
        Sample.capture 2 10 "d"]
    let merged := mergeCaptures seen.captures captured
    seen.captures.map (·.entity.number) = [1, 2] ∧
      merged.map (fun c => (c.entity.number, c.id, c.permission)) =
        [(1, ⟨⟨1⟩⟩, "sales"), (2, ⟨⟨2⟩⟩, "d"), (5, ⟨⟨8⟩⟩, "c")] ∧
      (seen.captures.map (·.entity)).Nodup ∧
        mergeCaptures merged captured = merged := by
  intro ts seen captured merged
  have hsplit : accountOf ts = (accountOf (ts.take 2)).dropLast ++
      .left (.startCollecting "req") (.ok ()) seen :: accountOf (ts.drop 2) :=
        rfl
  have hlaw :=
    pending_captures_merge Sample.flushes_session hsplit rfl captured []
  exact ⟨by decide +kernel, by decide +kernel, hlaw.1, hlaw.2.2.2.2.1⟩

end AuditTrail

import AuditTrail.Proofs.Coordinator.Content
import AuditTrail.Proofs.Coordinator.DeliveryOrder
import AuditTrail.Proofs.Coordinator.Readings

/-!
# Where records come from

A record is put together at three moments. Its identity is that of the capture
with which its entity became pending, what it tells is what the last capture
told, and if it tells of a creation the key is read when the flush is finished.
In between the captures of the entity replace each other in place, and the
record may wait in the batch over many flushes.

Both sides are followed at once. `Traced` says of a pending capture which was
the first and which the last capture of its entity, and `Stems` says of a
record from which turn it came, with the capture traced up to there. A turn
keeps both (`Sound.turn`): whatever it hands on or batches was batched before
or is promoted by it.
-/

namespace AuditTrail

open Coordinating Coordinator History

/-! ## Captures that replace each other -/

/-- The capture of an entity that is pending. -/
def Capture.pendingFor (e : EntityRef) (pending : List Capture) :
    Option Capture :=
  pending.find? fun c => c.entity = e

namespace Capture

theorem pendingFor_cons (e : EntityRef) (c : Capture) (pending : List Capture) :
    pendingFor e (c :: pending) =
      if c.entity = e then some c else pendingFor e pending := by
  by_cases hsame : c.entity = e <;> simp [pendingFor, hsame]

theorem entity_of_pendingFor {e : EntityRef} {c : Capture}
    {pending : List Capture} (hpending : pendingFor e pending = some c) :
    c.entity = e := by
  simpa using List.find?_some hpending

theorem head?_about (e : EntityRef) (captures : List Capture) :
    (about e captures).head? = pendingFor e captures := List.head?_filter

theorem pendingFor_of_mem {c : Capture} {pending : List Capture}
    (hc : c ∈ pending) (hnodup : (pending.map (·.entity)).Nodup) :
    pendingFor c.entity pending = some c := by
  rw [← head?_about, about_eq_singleton hc hnodup]
  rfl

/-- A capture that is taken in has the identity of the one it replaces. -/
theorem pendingFor_mergeCapture (e : EntityRef) (captured : Capture)
    (pending : List Capture) :
    pendingFor e (CoordinatorState.mergeCapture captured pending) =
      if captured.entity = e then
        some { captured with
          id := ((pendingFor e pending).map (·.id)).getD captured.id }
      else pendingFor e pending := by
  induction pending with
  | nil => exact pendingFor_cons e captured []
  | cons first rest ih =>
      rw [CoordinatorState.mergeCapture]
      by_cases hsame : first.entity = captured.entity
      · rw [if_pos hsame, pendingFor_cons, pendingFor_cons, hsame]
        by_cases hcaptured : captured.entity = e
        · simp only [if_pos hcaptured, Option.map_some, Option.getD_some]
        · simp only [if_neg hcaptured]
      · rw [if_neg hsame, pendingFor_cons, pendingFor_cons, ih]
        by_cases hfirst : first.entity = e
        · have hcaptured : captured.entity ≠ e :=
            fun h => hsame (hfirst.trans h.symm)
          simp only [if_pos hfirst, if_neg hcaptured]
        · simp only [if_neg hfirst]

theorem pendingFor_mergeCaptures_of_none {e : EntityRef}
    {captured : List Capture} (hnone : about e captured = []) :
    ∀ pending : List Capture,
    pendingFor e (CoordinatorState.mergeCaptures pending captured) =
      pendingFor e pending := by
  induction captured with
  | nil => intro pending; rfl
  | cons first rest ih =>
      intro pending
      rw [about_cons] at hnone
      split at hnone
      · cases hnone
      · next hother =>
          refine (ih hnone _).trans ?_
          rw [pendingFor_mergeCapture, if_neg hother]

/-- Of the captures of an entity that are taken in the last one is pending. It
has the identity of the one that was pending before, or of the first. -/
theorem pendingFor_mergeCaptures {e : EntityRef} {captured : List Capture}
    {last : Capture} (hlast : (about e captured).getLast? = some last) :
    ∀ pending : List Capture,
    ∃ id, pendingFor e (CoordinatorState.mergeCaptures pending captured) =
        some { last with id := id } ∧
      ((pendingFor e pending).or (about e captured).head?).map (·.id) =
        some id := by
  induction captured with
  | nil => cases hlast
  | cons first rest ih =>
      intro pending
      rw [about_cons] at hlast ⊢
      by_cases hsame : first.entity = e
      · rw [if_pos hsame] at hlast ⊢
        have hmerged := pendingFor_mergeCapture e first pending
        rw [if_pos hsame] at hmerged
        have hid : ((pendingFor e pending).or (first :: about e rest).head?).map
            (·.id) =
            some (((pendingFor e pending).map (·.id)).getD first.id) := by
          cases pendingFor e pending <;> rfl
        rw [hid]
        rcases last_of_cons hlast with hlast | ⟨hnone, rfl⟩
        · obtain ⟨id, hpending, hfirst⟩ :=
            ih hlast (CoordinatorState.mergeCapture first pending)
          rw [hmerged] at hfirst
          exact ⟨id, hpending, hfirst⟩
        · refine ⟨_, ?_, rfl⟩
          exact (pendingFor_mergeCaptures_of_none hnone _).trans hmerged
      · rw [if_neg hsame] at hlast ⊢
        obtain ⟨id, hpending, hfirst⟩ :=
          ih hlast (CoordinatorState.mergeCapture first pending)
        rw [pendingFor_mergeCapture, if_neg hsame] at hfirst
        exact ⟨id, hpending, hfirst⟩

/-- No entity is pending twice. -/
theorem nodup_mergeCaptures {pending : List Capture} (captured : List Capture)
    (hnodup : (pending.map (·.entity)).Nodup) :
    ((CoordinatorState.mergeCaptures pending captured).map
      (·.entity)).Nodup := by
  have hcontents := Content.nodup_takeAll (captured.map Capture.content)
    (pending.map Capture.content) (by rwa [List.map_map])
  rwa [← Content.map_mergeCaptures, List.map_map] at hcontents

end Capture

/-! ## Where a pending capture comes from -/

/-- A capture of the entity is pending. -/
def CoordinatorState.Awaits (s : CoordinatorState) (e : EntityRef) : Prop :=
  ∃ c ∈ s.captures, c.entity = e

/-- A turn took a capture of an entity, the last one so far. It has the key
that was read then, unless it tells of a creation. -/
structure LastCaptured (settings : CoordinatorSettings) (e : EntityRef)
    (past : List Turn) (t : Turn) (c : Capture) : Prop where
  taken : (Capture.about e (t.captured settings)).getLast? = some c
  last : ∃ earlier since, past = earlier ++ t :: since ∧
    ∀ u ∈ since, Capture.about e (u.captured settings) = []
  known : c.action ≠ .create →
    ∃ key, (keysOf e t.history).getLast? = some key ∧
      c.entityId = key.bind FieldValue.keyText?
  created : c.action = .create → c.entityId = none
  dataJson_eq : c.dataJson = c.properties.jsonText

/-- A turn took a capture of an entity that was not pending then, and it is
pending since. -/
structure FirstCaptured (settings : CoordinatorSettings) (e : EntityRef)
    (past : List Turn) (t : Turn) (c : Capture) : Prop where
  taken : (Capture.about e (t.captured settings)).head? = some c
  before : ¬ t.before.Awaits e
  since : ∃ earlier since, past = earlier ++ t :: since ∧
    ∀ u ∈ since, u.before.Awaits e

/-- A pending capture is the last one of its entity, with the identity of the
first. -/
structure Traced (settings : CoordinatorSettings) (past : List Turn)
    (c : Capture) : Prop where
  last : ∃ t taken, LastCaptured settings c.entity past t taken ∧
    c = { taken with id := c.id }
  first : ∃ t taken, FirstCaptured settings c.entity past t taken ∧
    c.id = taken.id

section Tracing

variable {settings : CoordinatorSettings} {past : List Turn} {t u : Turn}
  {c : Capture} {e : EntityRef}

theorem LastCaptured.turn (hlast : LastCaptured settings e past u c)
    (hnone : Capture.about e (t.captured settings) = []) :
    LastCaptured settings e (past ++ [t]) u c where
  taken := hlast.taken
  last := by
    obtain ⟨earlier, since, rfl, hsince⟩ := hlast.last
    refine ⟨earlier, since ++ [t], List.append_assoc _ _ _, ?_⟩
    exact List.forall_mem_append.mpr
      ⟨hsince, List.forall_mem_singleton.mpr hnone⟩
  known := hlast.known
  created := hlast.created
  dataJson_eq := hlast.dataJson_eq

theorem FirstCaptured.turn (hfirst : FirstCaptured settings e past u c)
    (hawaits : t.before.Awaits e) :
    FirstCaptured settings e (past ++ [t]) u c where
  taken := hfirst.taken
  before := hfirst.before
  since := by
    obtain ⟨earlier, since, rfl, hsince⟩ := hfirst.since
    refine ⟨earlier, since ++ [t], List.append_assoc _ _ _, ?_⟩
    exact List.forall_mem_append.mpr
      ⟨hsince, List.forall_mem_singleton.mpr hawaits⟩

/-- A capture stays traced while its entity is not captured again. -/
theorem Traced.turn (traced : Traced settings past c)
    (hc : c ∈ t.before.captures)
    (hnone : Capture.about c.entity (t.captured settings) = []) :
    Traced settings (past ++ [t]) c where
  last := by
    obtain ⟨u, taken, hlast, hsame⟩ := traced.last
    exact ⟨u, taken, hlast.turn hnone, hsame⟩
  first := by
    obtain ⟨u, taken, hfirst, hid⟩ := traced.first
    exact ⟨u, taken, hfirst.turn ⟨c, hc, rfl⟩, hid⟩

theorem LastCaptured.of_captured {entries : List TrackedEntry} {asked : History}
    (hreadings : readings t.history = .asked .entries entries :: asked)
    (captured : Captured settings entries asked (t.captured settings))
    (hlast : (Capture.about e (t.captured settings)).getLast? = some c) :
    LastCaptured settings e (past ++ [t]) t c := by
  obtain ⟨hmem, -⟩ := Capture.mem_of_about (List.mem_of_getLast? hlast)
  have hkeys : keysOf e t.history = keysOf e asked := by
    rw [← keysOf_readings, hreadings]
    rfl
  refine ⟨hlast, ⟨past, [], rfl, fun _ hu => absurd hu List.not_mem_nil⟩,
    fun haction => ?_, captured.entityId_eq_none c hmem,
    captured.dataJson_eq c hmem⟩
  rw [hkeys]
  exact captured.last_key hlast haction

/-- What is pending after a capture is traced up to it. -/
theorem Traced.merged {entries : List TrackedEntry} {asked : History}
    (traced : ∀ c ∈ t.before.captures, Traced settings past c)
    (hnodup : (t.before.captures.map (·.entity)).Nodup)
    (hreadings : readings t.history = .asked .entries entries :: asked)
    (captured : Captured settings entries asked (t.captured settings))
    (hmerged : t.after.captures =
      CoordinatorState.mergeCaptures t.before.captures (t.captured settings)) :
    ∀ c ∈ t.after.captures, Traced settings (past ++ [t]) c := by
  intro c hc
  rw [hmerged] at hc
  have hpending :=
    Capture.pendingFor_of_mem hc (Capture.nodup_mergeCaptures _ hnodup)
  cases hlast : (Capture.about c.entity (t.captured settings)).getLast? with
  | none =>
      have hnone := List.getLast?_eq_none_iff.mp hlast
      rw [Capture.pendingFor_mergeCaptures_of_none hnone] at hpending
      have hbefore := List.mem_of_find?_eq_some hpending
      exact (traced c hbefore).turn hbefore hnone
  | some last =>
      obtain ⟨id, hfound, hid⟩ :=
        Capture.pendingFor_mergeCaptures hlast t.before.captures
      obtain rfl : c = { last with id := id } :=
        Option.some.inj (hpending.symm.trans hfound)
      refine ⟨⟨t, last, .of_captured hreadings captured hlast, rfl⟩, ?_⟩
      -- Its entity was pending already, or it is captured for the first time.
      cases hbefore : Capture.pendingFor last.entity t.before.captures with
      | some earlier =>
          rw [hbefore] at hid
          cases hid
          have hmem := List.mem_of_find?_eq_some hbefore
          obtain ⟨u, taken, hfirst, hsame⟩ := (traced earlier hmem).first
          rw [Capture.entity_of_pendingFor hbefore] at hfirst
          refine ⟨u, taken, hfirst.turn ?_, hsame⟩
          exact ⟨earlier, hmem, Capture.entity_of_pendingFor hbefore⟩
      | none =>
          rw [hbefore, Option.none_or] at hid
          obtain ⟨first, htaken, rfl⟩ := Option.map_eq_some_iff.mp hid
          have hawaits : ¬ t.before.Awaits last.entity :=
            fun ⟨other, hother, hsame⟩ =>
              List.find?_eq_none.mp hbefore other hother (decide_eq_true hsame)
          exact ⟨t, first, ⟨htaken, hawaits, past, [], rfl,
            fun _ hu => absurd hu List.not_mem_nil⟩, rfl⟩

end Tracing

/-! ## What a turn hands on -/

/-- The records that are handed to the consumer, for delivery or before a
commit. -/
def History.handed (h : History) : List AuditRecord :=
  delivered h ++ (announcements h).flatten

theorem mem_handed_append {h h' : History} {r : AuditRecord} :
    r ∈ handed (h ++ h') ↔ r ∈ handed h ∨ r ∈ handed h' := by
  simp only [handed, delivered_append, announcements_append,
    List.flatten_append, List.mem_append]
  tauto

theorem announcements_of_calls {h : History} {made : List Call}
    (hcalls : calls h = made) :
    announcements h = made.filterMap Call.announcement? := by
  rw [announcements, hcalls]

@[simp] theorem announcement?_consuming (records : List AuditRecord) :
    (consuming records).filterMap Call.announcement? = [] := by
  unfold consuming slices
  split <;> rfl

@[simp] theorem announcement?_announcing (records : List AuditRecord)
    (event : TransactionEvent) :
    (announcing records event).filterMap Call.announcement? =
      slices records := by
  unfold announcing slices
  split <;> rfl

namespace Turn

variable {settings : CoordinatorSettings} {t : Turn} {r : AuditRecord}

/-- What a turn announces is all that is batched then. -/
theorem Taken.announced (taken : t.Taken settings Interlude.quiet) :
    (announcements t.history).flatten = [] ∨
      (announcements t.history).flatten = t.before.batch ++ t.promoted := by
  have course := taken.course
  obtain ⟨s, made, h, outcome, s'⟩ := t
  simp only at course
  cases course with
  | refused | busy | ignored | clearedCaptures | clearedBatch => exact .inl rfl
  | collected _ _ _ _ hcalls | opened _ _ _ _ hcalls | undone _ _ _ hcalls
  | batched _ _ _ hcalls | abandoned _ _ hcalls | released _ _ _ hcalls =>
      refine .inl ?_
      rw [announcements_of_calls hcalls]
      rfl
  | delivered _ hcalls =>
      refine .inl ?_
      rw [announcements_of_calls hcalls, announcement?_consuming]
      rfl
  | committed hseen _ hrecords _ hcalls =>
      refine .inr ?_
      rw [announcements_of_calls hcalls, promoted_finish rfl hseen, ← hrecords,
        List.filterMap_append, announcement?_announcing,
        List.filterMap_cons_none rfl, List.filterMap_append,
        announcement?_consuming, List.flatten_append, flatten_slices]
      exact List.append_nil _
  | failed _ hseen _ hcalls hrecords =>
      refine .inr ?_
      rw [announcements_of_calls hcalls, promoted_finish rfl hseen, ← hrecords,
        List.filterMap_append, announcement?_announcing, List.flatten_append,
        flatten_slices]
      exact List.append_nil _
  | announced hcalls =>
      refine .inr ?_
      rw [announcements_of_calls hcalls, announcement?_announcing,
        flatten_slices]
      exact (List.append_nil _).symm
  | ended _ _ _ hcalls =>
      refine .inl ?_
      rw [announcements_of_calls hcalls, List.filterMap_append]
      split
      · rw [announcement?_consuming]
        rfl
      · rfl

@[simp] theorem handed_account (t : Turn) :
    handed t.account = handed t.history := by
  have hannounced : announcements t.account = announcements t.history := by
    rw [account, ← List.singleton_append, announcements_append,
      announcements_append]
    exact List.append_nil _
  rw [handed, delivered_account, hannounced, handed]

/-- What a turn hands on, and what it leaves in the batch, was batched before or
is promoted by it. -/
theorem Taken.of_handed (taken : t.Taken settings Interlude.quiet)
    (hr : r ∈ handed t.history ∨ r ∈ t.after.batch) :
    r ∈ t.before.batch ∨ r ∈ t.promoted := by
  rw [← List.mem_append]
  rw [handed, List.mem_append, or_assoc, or_comm (a := r ∈ List.flatten _),
    ← or_assoc, ← List.mem_append] at hr
  rcases hr with hkept | hannounced
  · exact taken.keeps_order.subset hkept
  · rcases taken.announced with hnone | hall
    · rw [hnone] at hannounced
      cases hannounced
    · rwa [hall] at hannounced

/-- The captures that a turn takes to promote them. -/
def takes (t : Turn) : List Capture :=
  match t.made, seen t.history with
  | .finish _, _ :: _ => t.before.captures
  | _, _ => []

theorem takes_of_promoted (hne : t.promoted ≠ []) :
    t.takes = t.before.captures := by
  obtain ⟨⟨context, hmade⟩, hseen, -⟩ := promoted_of_ne hne
  obtain ⟨current, later, hcurrent⟩ := List.exists_cons_of_ne_nil hseen
  rw [takes, hmade, hcurrent]

/-- A record has the identity of the capture that was taken for it. -/
theorem id_takes (t : Turn) : t.takes.map (·.id) = t.promoted.map (·.id) := by
  unfold takes promoted
  cases t.made with
  | finish context =>
      cases seen t.history with
      | nil => rfl
      | cons current later => exact (id_promotions _ _).symm
  | _ => rfl

end Turn

/-! ## Where a record comes from -/

theorem Capture.entityId_promote {c : Capture} (haction : c.action ≠ .create)
    (written : Option String) : (c.promote written).entityId = c.entityId := by
  unfold Capture.promote
  cases hknown : c.action with
  | create => exact absurd hknown haction
  | update | delete => rfl

theorem Capture.entityId_promote_created {c : Capture}
    (haction : c.action = .create) (written : Option String) :
    (c.promote written).entityId = written := by
  simp only [Capture.promote, haction]

/-- A record comes from the one capture of its entity that a turn took. -/
structure Stems (settings : CoordinatorSettings) (past : List Turn) (f : Turn)
    (r : AuditRecord) : Prop where
  taken : ∃ c, Capture.about r.entity f.takes = [c] ∧
    ∃ written, r = c.promote written
  last : ∃ t c, LastCaptured settings r.entity past t c ∧
    r.toChange = { c.toChange with id := r.id } ∧
      (r.action ≠ .create → r.entityId = c.entityId)
  first : ∃ t c, FirstCaptured settings r.entity past t c ∧ r.id = c.id
  created : r.action = .create →
    ∃ key, keysOf r.entity f.history = [key] ∧
      r.entityId = key.bind FieldValue.keyText?
  dataJson_eq : r.dataJson = r.properties.jsonText

/-- A record comes from one of these turns. -/
def Stemming (settings : CoordinatorSettings) (past : List Turn)
    (r : AuditRecord) : Prop :=
  ∃ earlier f later, past = earlier ++ f :: later ∧ Stems settings earlier f r

namespace Stemming

variable {settings : CoordinatorSettings} {past : List Turn} {r : AuditRecord}

theorem append (stemming : Stemming settings past r) (more : List Turn) :
    Stemming settings (past ++ more) r := by
  obtain ⟨earlier, f, later, rfl, stems⟩ := stemming
  refine ⟨earlier, f, later ++ more, ?_, stems⟩
  rw [List.append_assoc, List.cons_append]

/-- It was taken by a turn under its identity. -/
theorem mem_taken (stemming : Stemming settings past r) :
    r.id ∈ (past.flatMap Turn.takes).map (·.id) := by
  obtain ⟨earlier, f, later, rfl, stems⟩ := stemming
  obtain ⟨c, habout, written, rfl⟩ := stems.taken
  have hc : c ∈ f.takes :=
    (Capture.mem_of_about (habout ▸ List.mem_singleton_self c)).1
  refine List.mem_map.mpr ⟨c, List.mem_flatMap.mpr ⟨f, ?_, hc⟩, rfl⟩
  exact List.mem_append_right _ List.mem_cons_self

end Stemming

/-- What is pending and what is batched after some turns comes from them. -/
structure Sound (settings : CoordinatorSettings) (past : List Turn)
    (s : CoordinatorState) : Prop where
  nodup : (s.captures.map (·.entity)).Nodup
  captures : ∀ c ∈ s.captures, Traced settings past c
  batch : ∀ r ∈ s.batch, Stemming settings past r

section Soundness

variable {settings : CoordinatorSettings} {past : List Turn}
  {s s' : CoordinatorState} {t : Turn} {r : AuditRecord}

theorem Sound.promoted (sound : Sound settings past t.before)
    (taken : t.Taken settings Interlude.quiet) (hr : r ∈ t.promoted) :
    Stems settings past t r := by
  have hne : t.promoted ≠ [] := List.ne_nil_of_mem hr
  obtain ⟨c, hc, written, rfl, hcreated⟩ :=
    (taken.reconciled hne).of_mem sound.nodup hr
  have traced := sound.captures c hc
  obtain ⟨u, last, hlast, hsame⟩ := traced.last
  have hchange : c.toChange = { last.toChange with id := c.id } :=
    congrArg Capture.toChange hsame
  refine ⟨⟨c, ?_, written, rfl⟩, ⟨u, last, hlast, hchange, fun haction => ?_⟩,
    traced.first, fun haction => ?_, ?_⟩
  · rw [Turn.takes_of_promoted hne]
    exact Capture.about_eq_singleton hc sound.nodup
  · have hid := congrArg Capture.entityId hsame
    exact (Capture.entityId_promote haction written).trans hid
  · obtain ⟨key, hkey, rfl⟩ := hcreated haction
    rw [keysOf_readings] at hkey
    exact ⟨key, hkey, Capture.entityId_promote_created haction _⟩
  · have hjson := congrArg Change.dataJson hchange
    have hproperties := congrArg Change.properties hchange
    exact hjson.trans (hlast.dataJson_eq.trans (congrArg _ hproperties.symm))

/-- A turn keeps what is pending and batched sound, and what it hands on comes
from a turn up to it. -/
theorem Sound.turn (sound : Sound settings past t.before)
    (taken : t.Taken settings Interlude.quiet) :
    Sound settings (past ++ [t]) t.after ∧
      ∀ r ∈ handed t.history, Stemming settings (past ++ [t]) r := by
  have hstemming : ∀ r, r ∈ t.before.batch ∨ r ∈ t.promoted →
      Stemming settings (past ++ [t]) r := by
    rintro r (hbatch | hpromoted)
    · exact (sound.batch r hbatch).append [t]
    · exact ⟨past, t, [], rfl, sound.promoted taken hpromoted⟩
  have hbatch : ∀ r ∈ t.after.batch, Stemming settings (past ++ [t]) r :=
    fun r hr =>
      hstemming r (taken.of_handed (.inr hr))
  refine ⟨?_, fun r hr => hstemming r (taken.of_handed (.inl hr))⟩
  rcases taken.captured with
    ⟨hnone, hkept | hcleared⟩ | ⟨entries, asked, hreadings, captured, hmerged⟩
  · refine ⟨?_, fun c hc => ?_, hbatch⟩
    · rw [hkept]
      exact sound.nodup
    · rw [hkept] at hc
      exact (sound.captures c hc).turn hc (by rw [hnone]; rfl)
  · refine ⟨?_, fun c hc => ?_, hbatch⟩
    · rw [hcleared]
      exact List.nodup_nil
    · rw [hcleared] at hc
      cases hc
  · refine ⟨?_,
      Traced.merged sound.captures sound.nodup hreadings captured hmerged,
      hbatch⟩
    rw [hmerged]
    exact Capture.nodup_mergeCaptures _ sound.nodup

theorem Sound.session {ts : List Turn} (sound : Sound settings past s)
    (session : Session settings Interlude.quiet s ts s') :
    Sound settings (past ++ ts) s' ∧
      ∀ r ∈ handed (accountOf ts), Stemming settings (past ++ ts) r := by
  induction session generalizing past with
  | nil s =>
      rw [List.append_nil]
      exact ⟨sound, fun r hr => absurd hr List.not_mem_nil⟩
  | @cons t ts s' taken _ ih =>
      obtain ⟨hafter, hhanded⟩ := sound.turn taken
      obtain ⟨hend, hlater⟩ := ih hafter
      rw [List.append_assoc, List.singleton_append] at hend hlater
      refine ⟨hend, fun r hr => ?_⟩
      rw [accountOf_cons, mem_handed_append, Turn.handed_account] at hr
      rcases hr with hnow | hthen
      · have := (hhanded r hnow).append ts
        rwa [List.append_assoc] at this
      · exact hlater r hthen

theorem sound_initial (settings : CoordinatorSettings) :
    Sound settings [] CoordinatorState.initial :=
  ⟨List.nodup_nil, fun _ hc => absurd hc List.not_mem_nil,
    fun _ hr => absurd hr List.not_mem_nil⟩

end Soundness

/-! ## No capture is taken twice -/

section Counting

variable {settings : CoordinatorSettings} {t : Turn}

/-- A turn takes captures out of those that are pending, and puts in those
whose identities it issues. -/
theorem Turn.Taken.counts (taken : t.Taken settings Interlude.quiet)
    (id : RecordId) :
    (t.takes.map (·.id)).count id + t.after.captureIds.count id ≤
      t.before.captureIds.count id + (issued t.history).count id := by
  by_cases hne : t.promoted = []
  · rw [Turn.id_takes, hne, List.map_nil, List.count_nil, Nat.zero_add]
    rcases taken.captured with
      ⟨-, hkept | hcleared⟩ | ⟨entries, asked, hreadings, captured, hmerged⟩
    · rw [CoordinatorState.captureIds, hkept]
      exact Nat.le_add_right _ _
    · rw [CoordinatorState.captureIds, hcleared]
      exact Nat.zero_le _
    · have hissued : issued t.history = (t.captured settings).map (·.id) := by
        rw [← issued_readings, hreadings, captured.issued_eq]
        rfl
      rw [CoordinatorState.captureIds, hmerged, hissued]
      exact count_mergeCaptures id (t.captured settings) t.before.captures
  · rw [Turn.takes_of_promoted hne, CoordinatorState.captureIds,
      taken.captures_of_promoted hne]
    exact Nat.le_add_right _ _

theorem Session.counts {s s' : CoordinatorState} {ts : List Turn}
    (session : Session settings Interlude.quiet s ts s') (id : RecordId) :
    ((ts.flatMap Turn.takes).map (·.id)).count id + s'.captureIds.count id ≤
      s.captureIds.count id + (issued (accountOf ts)).count id := by
  induction session with
  | nil s =>
      rw [List.flatMap_nil, List.map_nil, List.count_nil, Nat.zero_add]
      exact Nat.le_add_right _ _
  | @cons t ts s' taken _ ih =>
      have := taken.counts id
      rw [List.flatMap_cons, List.map_append, List.count_append, accountOf_cons,
        issued_append, Turn.issued_account, List.count_append]
      omega

end Counting

/-- Records are faithful to their captures, whatever the unit of work answers.
Each record that is handed to the consumer comes from the one capture of its
entity that some flush took: it tells what the last capture of the entity told,
under the identity of the first one since the entity became pending, and the
key of a creation is the one that was read when the flush was finished. If no
identity is issued twice, no other capture was ever taken under this one. And a
pending creation has no key yet. -/
theorem records_faithful_to_captures {settings : CoordinatorSettings}
    {s : CoordinatorState} {ts : List Turn}
    (session : Session settings Interlude.quiet CoordinatorState.initial ts s) :
    (∀ r ∈ handed (accountOf ts), ∃ past f future, ts = past ++ f :: future ∧
      Stems settings past f r) ∧
    ((issued (accountOf ts)).Nodup → ∀ r ∈ handed (accountOf ts),
      ((ts.flatMap Turn.takes).map (·.id)).count r.id = 1) ∧
    ∀ c ∈ s.captures, c.action = .create → c.entityId = none := by
  obtain ⟨sound, hstemming⟩ := (sound_initial settings).session session
  rw [List.nil_append] at sound hstemming
  refine ⟨hstemming, fun fresh r hr => ?_, fun c hc haction => ?_⟩
  · have htaken := List.count_pos_iff.mpr (hstemming r hr).mem_taken
    have hcounts := session.counts r.id
    have honce := List.nodup_iff_count_le_one.mp fresh r.id
    have hnone : CoordinatorState.initial.captureIds.count r.id = 0 := rfl
    omega
  · obtain ⟨t, last, hlast, hsame⟩ := (sound.captures c hc).last
    have hlasts := congrArg (fun c => c.action) hsame
    have hid := congrArg Capture.entityId hsame
    exact hid.trans (hlast.created (hlasts.symm.trans haction))

/-- Two orders are captured one after the other and flushed together, in a
transaction of the host. -/
theorem records_faithful_to_captures_sample :
    let plays :=
      [(some (Sample.transaction 1), Sample.order 1, .startCollecting "req"),
        (some (Sample.transaction 1), Sample.order 2, .startCollecting "req"),
      (some (Sample.transaction 1), Sample.order 2, .finish "req"),
      (none, Sample.order 2, .transactionCommitted (Sample.notice 1))]
    let ts := turnsIn (Sample.settings false) CoordinatorState.initial
      (Sample.quietly plays)
    (issued (accountOf ts)).Nodup ∧ (handed (accountOf ts)).length = 2 ∧
      ∀ r ∈ handed (accountOf ts), (∃ past f future, ts = past ++ f :: future ∧
        Stems (Sample.settings false) past f r) ∧
        ((ts.flatMap Turn.takes).map (·.id)).count r.id = 1 := by
  intro plays ts
  have fresh : (issued (accountOf ts)).Nodup := by decide +kernel
  obtain ⟨hstems, honce, -⟩ := records_faithful_to_captures
    (Sample.quietly_session (Sample.settings false) plays
      CoordinatorState.initial)
  exact ⟨fresh, by decide +kernel, fun r hr => ⟨hstems r hr, honce fresh r hr⟩⟩

end AuditTrail

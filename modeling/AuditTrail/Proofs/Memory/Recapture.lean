import AuditTrail.Proofs.Memory.Digest

/-!
# Capturing again before the write

A host may capture any number of times before it writes, with edits between,
and only the last snapshot is about what is written. What the captures come to
is a matter of contents: each snapshot is taken in where the ones before it
have left their contents, so what is pending of an entity is what the last
snapshot that reports it says. For the entities of the last snapshot that is
as if only that one had been taken, `mem_written_iff`. For all others it is
not: nothing takes their contents back. So earlier captures leave no trace if
and only if each entity that they report is reported by the last one too.
-/

namespace AuditTrail

open History

namespace Content

variable {key : EntityRef → Option FieldValue} {pending contents : List Content}

theorem mem_written_iff {content : Content}
    (hnodup : (pending.map (·.entity)).Nodup)
    (hmem : content.entity ∈ contents.map (·.entity)) :
    content ∈ (takeAll pending contents).map (written key) ↔
      content ∈ (takeAll [] contents).map (written key) := by
  have hsame : ∀ read : Content, read.written key = content →
      (read ∈ takeAll pending contents ↔ read ∈ takeAll [] contents) := by
    rintro read rfl
    exact mem_takeAll_iff hnodup (by rwa [entity_written] at hmem)
  rw [List.mem_map, List.mem_map]
  constructor <;> rintro ⟨read, hread, hwritten⟩
  · exact ⟨read, (hsame read hwritten).mp hread, hwritten⟩
  · exact ⟨read, (hsame read hwritten).mpr hread, hwritten⟩

theorem entities_written (contents : List Content) :
    (contents.map (written key)).map (·.entity) = contents.map (·.entity) := by
  rw [List.map_map]
  exact List.map_congr_left fun content _ => entity_written key content

/-- What was pending before leaves no trace if and only if all of it is
reported again. -/
theorem written_same_iff (hnodup : (pending.map (·.entity)).Nodup) :
    (∀ content, content ∈ (takeAll pending contents).map (written key) ↔
        content ∈ (takeAll [] contents).map (written key)) ↔
      ∀ e ∈ pending.map (·.entity), e ∈ contents.map (·.entity) := by
  constructor
  · intro hsame e he
    have hmem : e ∈ ((takeAll pending contents).map (written key)).map
        (·.entity) := by
      rw [entities_written]
      exact (mem_entities_takeAll contents pending).mpr (.inl he)
    obtain ⟨content, hcontent, rfl⟩ := List.mem_map.mp hmem
    have hsingle :=
      List.mem_map_of_mem (f := (·.entity)) ((hsame content).mp hcontent)
    rw [entities_written] at hsingle
    exact ((mem_entities_takeAll contents []).mp hsingle).resolve_left
      List.not_mem_nil
  · intro hreported content
    have hentity : ∀ pending : List Content,
        (∀ e ∈ pending.map (·.entity), e ∈ contents.map (·.entity)) →
        content ∈ (takeAll pending contents).map (written key) →
        content.entity ∈ contents.map (·.entity) := by
      intro pending hreported hmem
      have hmem := List.mem_map_of_mem (f := (·.entity)) hmem
      rw [entities_written] at hmem
      exact ((mem_entities_takeAll contents pending).mp hmem).elim
        (hreported _) id
    constructor
    · intro hmem
      exact (mem_written_iff hnodup (hentity pending hreported hmem)).mp hmem
    · intro hmem
      exact (mem_written_iff hnodup (hentity [] (by simp) hmem)).mpr hmem

end Content

/-! ## Rounds of edits -/

namespace MemoryUnitOfWork

def edited (u : MemoryUnitOfWork) (edits : List Edit) : MemoryUnitOfWork :=
  edits.foldl (fun u e => e.apply u) u

/-- The unit of work after each round of edits. -/
def stages (u : MemoryUnitOfWork) : List (List Edit) → List MemoryUnitOfWork
  | [] => []
  | edits :: rest => u.edited edits :: (u.edited edits).stages rest

theorem edited_append (u : MemoryUnitOfWork) (first second : List Edit) :
    u.edited (first ++ second) = (u.edited first).edited second :=
  List.foldl_append

theorem stages_append (more : List (List Edit)) : ∀ (rounds : List (List Edit))
    (u : MemoryUnitOfWork), u.stages (rounds ++ more) =
      u.stages rounds ++ (u.edited rounds.flatten).stages more := by
  intro rounds
  induction rounds with
  | nil => intro u; rfl
  | cons edits rest ih =>
      intro u
      rw [List.cons_append, stages, stages, ih, List.flatten_cons,
        edited_append]
      rfl

end MemoryUnitOfWork

namespace CoordinatorSettings

variable (settings : CoordinatorSettings)

/-- The contents of a unit of work, none if one of its entries fails. -/
def read (u : MemoryUnitOfWork) : List Content :=
  (settings.contents u.primaryKey u.entries).toOption.getD []

/-- Whether the unit of work can be captured. -/
def readable (u : MemoryUnitOfWork) : Outcome :=
  (settings.contents u.primaryKey u.entries).map fun _ => ()

theorem collect_eq (u : MemoryUnitOfWork) (pending : List Content) :
    settings.collect u pending =
      (settings.readable u, Content.takeAll pending (settings.read u)) := by
  rw [collect, readable, read]
  cases settings.contents u.primaryKey u.entries <;> rfl

theorem entities_read {u : MemoryUnitOfWork}
    (hreadable : settings.readable u = .ok ()) :
    (settings.read u).map (·.entity) = settings.audited u.entries := by
  rw [readable] at hreadable
  rw [read]
  cases hcontents : settings.contents u.primaryKey u.entries with
  | error e => rw [hcontents] at hreadable; cases hreadable
  | ok contents => exact settings.entities_contents u.primaryKey hcontents

end CoordinatorSettings

namespace Digest

variable (settings : CoordinatorSettings)

/-- A host that captures after each round of edits. -/
def capturing (rounds : List (List Edit)) : List HostStep :=
  rounds.flatMap fun edits => edits.map .edit ++ [.save .start]

theorem run_edits (edits : List Edit) : ∀ (g : Digest) (u : MemoryUnitOfWork),
    g.work = u.tracking →
      g.run settings (edits.map .edit) =
        { g with work := (u.edited edits).tracking } := by
  induction edits with
  | nil =>
      intro g u hwork
      rw [MemoryUnitOfWork.edited, List.foldl_nil, ← hwork]
      rfl
  | cons e rest ih =>
      intro g u hwork
      refine ih { g with work := (e.apply g.work).tracking } (e.apply u) ?_
      rw [hwork, ← e.tracking_apply]

theorem run_capturing (rounds : List (List Edit)) :
    ∀ (g : Digest) (u : MemoryUnitOfWork), g.work = u.tracking →
    g.run settings (capturing rounds) =
      ⟨(u.edited rounds.flatten).tracking,
        Content.takeAll g.pending ((u.stages rounds).flatMap settings.read),
        g.delivered,
        g.outcomes ++ (u.stages rounds).map settings.readable⟩ := by
  induction rounds with
  | nil =>
      intro g u hwork
      simp only [capturing, MemoryUnitOfWork.stages, List.flatMap_nil,
        List.map_nil, List.append_nil, List.flatten_nil]
      rw [MemoryUnitOfWork.edited, List.foldl_nil, ← hwork]
      rfl
  | cons edits rest ih =>
      intro g u hwork
      rw [capturing, List.flatMap_cons, run_append, run_append,
        run_edits settings edits g u hwork]
      refine (ih _ (u.edited edits) rfl).trans ?_
      simp only [run, step, List.foldl_cons, List.foldl_nil,
        settings.collect_tracking, settings.collect_eq, MemoryUnitOfWork.stages,
        List.flatMap_cons, List.map_cons, List.flatten_cons,
        MemoryUnitOfWork.edited_append, Content.takeAll_append,
        List.append_assoc, List.singleton_append]

end Digest

/-- A host that captures after each round of edits and then writes. -/
def capturingAndWriting (rounds : List (List Edit)) : List HostStep :=
  Digest.capturing rounds ++ [.edit .flush, .save .finish]

namespace Desk

variable {settings : CoordinatorSettings} {c : Circumstances}

/-- What was pending is delivered at once, with the keys of the write. -/
theorem contents_capturingAndWriting
    (hauto : settings.options.autoOpenTransaction = false) (hc : c.Uncancelled)
    {s : CoordinatorState} (hpending : s.captures = [])
    (hidle : s.commitInProgress = false) {u : MemoryUnitOfWork}
    (htx : u.transaction = none) (rounds : List (List Edit)) :
    let d := (Desk.new s u).run settings c (capturingAndWriting rounds)
    contents d.history = Content.slices
        ((Content.takeAll [] ((u.stages rounds).flatMap settings.read)).map
          (Content.written
            (u.edited (rounds.flatten ++ [.flush])).primaryKey)) ∧
      d.outcomes = (u.stages rounds).map settings.readable ++ [.ok ()] := by
  intro d
  have houtside : (Desk.new s u).Outside settings := ⟨hauto, htx, hidle⟩
  have hrun : d.digest = (Desk.new s u).digest.run settings
      (capturingAndWriting rounds) :=
    (digest_run (fun st _ d hd => hd.keeps hc st) houtside).1
  rw [capturingAndWriting, Digest.run_append,
    Digest.run_capturing settings rounds _ u rfl] at hrun
  have hnew : (Desk.new s u).digest.pending = [] :=
    congrArg (List.map Capture.content) hpending
  rw [hnew] at hrun
  refine ⟨?_, congrArg Digest.outcomes hrun⟩
  have hdelivered : contents d.history = Content.slices _ :=
    congrArg Digest.delivered hrun
  rw [hdelivered, MemoryUnitOfWork.edited_append]
  rfl

theorem run_capturingAndWriting
    (hauto : settings.options.autoOpenTransaction = false) (hc : c.Uncancelled)
    {s : CoordinatorState} (hpending : s.captures = [])
    (hidle : s.commitInProgress = false) {u : MemoryUnitOfWork}
    (htx : u.transaction = none) (rounds : List (List Edit)) :
    let d := (Desk.new s u).run settings c (capturingAndWriting rounds)
    (contents d.history).flatten =
        (Content.takeAll [] ((u.stages rounds).flatMap settings.read)).map
          (Content.written (u.edited (rounds.flatten ++ [.flush])).primaryKey) ∧
      d.outcomes = (u.stages rounds).map settings.readable ++ [.ok ()] := by
  intro d
  obtain ⟨hcontents, houtcomes⟩ :=
    contents_capturingAndWriting hauto hc hpending hidle htx rounds
  exact ⟨(congrArg List.flatten hcontents).trans (Content.flatten_slices _),
    houtcomes⟩

end Desk

section Recapture

variable {settings : CoordinatorSettings}

theorem flatMap_read_entities {us : List MemoryUnitOfWork}
    (hreadable : ∀ w ∈ us, settings.readable w = .ok ()) :
    (us.flatMap settings.read).map (·.entity) = us.flatMap fun w =>
      settings.audited w.entries := by
  rw [List.map_flatMap]
  exact List.flatMap_congr fun w hw => settings.entities_read (hreadable w hw)

/-- Capturing after each round of edits and capturing once after all of them
deliver the same about every entity that is audited at the last capture. They
deliver the same altogether if and only if every entity that was audited at an
earlier capture still is. -/
theorem recapture_agrees_iff
    (hauto : settings.options.autoOpenTransaction = false)
    {c c' : Circumstances} (hc : c.Uncancelled) (hc' : c'.Uncancelled)
    {s : CoordinatorState} (hpending : s.captures = [])
    (hidle : s.commitInProgress = false) {u : MemoryUnitOfWork}
    (htx : u.transaction = none) (earlier : List (List Edit))
    (last : List Edit) :
    let repeated :=
      (Desk.new s u).run settings c (capturingAndWriting (earlier ++ [last]))
    let single :=
      (Desk.new s u).run settings c'
        (capturingAndWriting [earlier.flatten ++ last])
    let reported :=
      settings.audited (u.edited (earlier.flatten ++ last)).entries
    (∀ outcome ∈ repeated.outcomes, outcome = .ok ()) →
      (∀ content : Content, content.entity ∈ reported →
        (content ∈ (contents repeated.history).flatten ↔
          content ∈ (contents single.history).flatten)) ∧
      ((∀ content, content ∈ (contents repeated.history).flatten ↔
          content ∈ (contents single.history).flatten) ↔
        ∀ w ∈ u.stages earlier, ∀ e ∈ settings.audited w.entries,
          e ∈ reported) := by
  intro repeated single reported hok
  obtain ⟨hrepeated, houtcomes⟩ :=
    Desk.run_capturingAndWriting hauto hc hpending hidle htx (earlier ++ [last])
  obtain ⟨hsingle, -⟩ :=
    Desk.run_capturingAndWriting hauto hc' hpending hidle htx
      [earlier.flatten ++ last]
  have hstages : u.stages (earlier ++ [last]) =
      u.stages earlier ++ [u.edited (earlier.flatten ++ last)] := by
    rw [MemoryUnitOfWork.stages_append, MemoryUnitOfWork.edited_append]
    rfl
  have hreadable : ∀ w ∈ u.stages (earlier ++ [last]), settings.readable w =
      .ok () := by
    intro w hw
    refine hok _ ?_
    rw [houtcomes]
    exact List.mem_append_left _ (List.mem_map_of_mem hw)
  rw [hstages] at hreadable
  have hlast :=
    settings.entities_read
      (hreadable _ (List.mem_append_right _ List.mem_cons_self))
  have hearlier :=
    flatMap_read_entities fun w hw => hreadable w (List.mem_append_left _ hw)
  rw [hstages, List.flatMap_append, Content.takeAll_append,
    List.flatMap_singleton, List.flatten_append,
    List.flatten_singleton] at hrepeated
  rw [List.flatten_singleton,
    show u.stages [earlier.flatten ++ last] =
      [u.edited (earlier.flatten ++ last)] from rfl,
    List.flatMap_singleton] at hsingle
  have hnodup :=
    Content.nodup_takeAll ((u.stages earlier).flatMap settings.read) []
      List.nodup_nil
  refine ⟨fun content hmem => ?_, ?_⟩
  · rw [hrepeated, hsingle]
    exact Content.mem_written_iff hnodup (by rwa [hlast])
  · rw [hrepeated, hsingle, Content.written_same_iff hnodup, hlast]
    simp only [Content.mem_entities_takeAll, hearlier, List.map_nil,
      List.not_mem_nil, false_or, List.mem_flatMap, forall_exists_index,
      and_imp]
    exact ⟨fun h w hw e he => h e w hw he, fun h e w hw he => h w hw e he⟩

namespace Sample

def rounds : List (List Edit) :=
  [[.add "Order" [("Total", .int 10)], .add "Order" []],
    [.set ⟨1⟩ "Total" (.int 12)]]

def lastRound : List Edit :=
  [.attach "Order" (.int 7) [], .remove ⟨3⟩, .set ⟨1⟩ "Total" (.int 14)]

end Sample

/-- Two orders are captured, captured again after one of them was changed, and
once more when a third one is to be deleted. -/
theorem recapture_agrees_sample :
    let start := Desk.new .initial (.new "req")
    let repeated :=
      start.run (Sample.settings false)
        (Sample.circumstances (.error .cancelled))
        (capturingAndWriting (Sample.rounds ++ [Sample.lastRound]))
    let single :=
      start.run (Sample.settings false) (Sample.circumstances (.ok ()))
        (capturingAndWriting [Sample.rounds.flatten ++ Sample.lastRound])
    (∀ outcome ∈ repeated.outcomes, outcome = .ok ()) ∧
      (contents repeated.history).flatten.length = 3 ∧
      ∀ content, content ∈ (contents repeated.history).flatten ↔
        content ∈ (contents single.history).flatten := by
  have hok : ∀ outcome ∈
      ((Desk.new .initial (.new "req")).run (Sample.settings false)
      (Sample.circumstances (.error .cancelled))
      (capturingAndWriting (Sample.rounds ++ [Sample.lastRound]))).outcomes,
      outcome = .ok () := by
    decide +kernel
  have hagrees :=
    recapture_agrees_iff rfl
      (Sample.uncancelled_circumstances (.error .cancelled))
      (Sample.uncancelled_circumstances (.ok ())) rfl rfl rfl Sample.rounds
      Sample.lastRound hok
  exact ⟨hok, by decide +kernel, hagrees.2.mpr (by decide +kernel)⟩

/-- An order that is removed before it was ever written, and which the last
capture does not report, is delivered as a creation without a key. -/
theorem recapture_delivers_removed :
    let start := Desk.new .initial (.new "req")
    let c := Sample.circumstances (.ok ())
    let added : List Edit := [.add "Order" [("Total", .int 10)]]
    let repeated := start.run (Sample.settings false) c
      (capturingAndWriting [added, [.remove ⟨1⟩]])
    let single :=
      start.run (Sample.settings false) c
        (capturingAndWriting [added ++ [.remove ⟨1⟩]])
    (∀ outcome ∈ repeated.outcomes, outcome = .ok ()) ∧
      ((MemoryUnitOfWork.new "req").edited (added ++ [.remove ⟨1⟩])).entries =
        [] ∧
      (contents repeated.history).flatten.map (fun content =>
        (content.entity, content.action, content.entityId)) =
          [(⟨1⟩, .create, none)] ∧
      contents single.history = [] ∧
      ¬ ∀ content, content ∈ (contents repeated.history).flatten ↔
        content ∈ (contents single.history).flatten := by
  intro start c added repeated single
  have hsingle : contents single.history = [] :=
    List.length_eq_zero_iff.mp (by decide +kernel)
  have hrepeated : (contents repeated.history).flatten.map (fun content =>
      (content.entity, content.action, content.entityId)) =
        [(⟨1⟩, .create, none)] := by
    decide +kernel
  refine ⟨by decide +kernel, rfl, hrepeated, hsingle, fun hsame => ?_⟩
  cases hdelivered : (contents repeated.history).flatten with
  | nil => rw [hdelivered] at hrepeated; cases hrepeated
  | cons content rest =>
      have hmem : content ∈ (contents repeated.history).flatten := by
        rw [hdelivered]
        exact List.mem_cons_self
      have hnone := (hsame content).mp hmem
      rw [hsingle] at hnone
      exact List.not_mem_nil hnone

end Recapture
end AuditTrail

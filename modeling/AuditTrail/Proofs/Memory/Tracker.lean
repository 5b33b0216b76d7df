import AuditTrail.Proofs.Memory.Writing

/-!
# What a tracker remembers is in order

So long as nobody forces a state on an entity, its state, the flags of its
properties and its key agree with each other (`Coherent`). Every call keeps it
so, one entity at a time.

References and keys are given out in a row. Which references are tracked is a
matter of the books again: what was issued is tracked, or was dropped before it
was ever written, or was written as deleted (`issued_perm`). No reference is
issued twice, so it is just one of the three.
-/

namespace AuditTrail

open MemoryUnitOfWork

/-- The state of an entity goes with the flags of its properties and with its
key. -/
structure MemoryEntity.Coherent (m : MemoryEntity) : Prop where
  attached : m.state ≠ .detached
  unchanged : m.state = .unchanged → ∀ p ∈ m.properties, p.isModified = false
  modified : m.state = .modified → ∃ p ∈ m.properties, p.isModified = true
  added : m.state = .added → (∀ p ∈ m.properties, p.isModified = true) ∧
    m.key = .null

namespace WorkStep

def issued (s : WorkStep) : List EntityRef :=
  match s.call with
  | .edit (.add entityType properties) =>
      [(s.before.add entityType properties).1]
  | .edit (.attach entityType key properties) =>
      [(s.before.attach entityType key properties).1]
  | _ => []

/-- The new entity that was removed and is not tracked any more. -/
def dropped (s : WorkStep) : List EntityRef :=
  match s.call with
  | .edit (.remove e) =>
      if (s.before.find? e).any (·.state == .added) then [e] else []
  | _ => []

/-- The entities that were written as deleted. -/
def erased (s : WorkStep) : List EntityRef :=
  match s.call with
  | .edit .flush =>
      (s.before.entities.filter (·.state == .deleted)).map (·.entity)
  | _ => []

/-- The new entities that were written, with the keys that they have since. -/
def keyed (s : WorkStep) : List (EntityRef × Option FieldValue) :=
  match s.call with
  | .edit .flush => s.before.inserted.map fun e => (e, s.after.primaryKey e)
  | _ => []

end WorkStep

/-! ## State, flags and key -/

namespace MemoryEntity

variable {m m' : MemoryEntity}

theorem exists_modified_setProperty (name : String) (value : FieldValue)
    (properties : List PropertyEntry) :
    ∃ p ∈ setProperty name value properties, p.isModified = true := by
  induction properties with
  | nil => exact ⟨_, List.mem_cons_self, rfl⟩
  | cons p rest ih =>
      rw [setProperty]
      split
      · exact ⟨_, List.mem_cons_self, rfl⟩
      · obtain ⟨q, hq, hmodified⟩ := ih
        exact ⟨q, List.mem_cons_of_mem p hq, hmodified⟩

theorem all_modified_setProperty (name : String) (value : FieldValue)
    {properties : List PropertyEntry}
    (hall : ∀ p ∈ properties, p.isModified = true) :
    ∀ p ∈ setProperty name value properties, p.isModified = true := by
  induction properties with
  | nil => exact List.forall_mem_singleton.mpr rfl
  | cons p rest ih =>
      obtain ⟨hp, hrest⟩ := List.forall_mem_cons.mp hall
      rw [setProperty]
      split
      · exact List.forall_mem_cons.mpr ⟨rfl, hrest⟩
      · exact List.forall_mem_cons.mpr ⟨hp, ih hrest⟩

theorem coherent_added (e : EntityRef) (entityType : String)
    (properties : List (String × FieldValue)) :
    (⟨e, entityType, .added, .null,
      properties.map fun (name, value) =>
        ⟨name, value, true, false⟩⟩ : MemoryEntity).Coherent := by
  refine ⟨nofun, nofun, nofun, fun _ => ⟨fun p hp => ?_, rfl⟩⟩
  obtain ⟨_, -, rfl⟩ := List.mem_map.mp hp
  rfl

theorem coherent_attached (e : EntityRef) (entityType : String)
    (key : FieldValue) (properties : List (String × FieldValue)) :
    (⟨e, entityType, .unchanged, key,
      properties.map fun (name, value) =>
        ⟨name, value, false, false⟩⟩ : MemoryEntity).Coherent := by
  refine ⟨nofun, fun _ p hp => ?_, nofun, nofun⟩
  obtain ⟨_, -, rfl⟩ := List.mem_map.mp hp
  rfl

theorem coherent_deleted (m : MemoryEntity) :
    ({ m with state := .deleted } : MemoryEntity).Coherent :=
  ⟨nofun, nofun, nofun, nofun⟩

theorem Coherent.set (h : m.Coherent) (name : String) (value : FieldValue) :
    (m.set name value).Coherent := by
  have hmodified := exists_modified_setProperty name value m.properties
  by_cases hstate : m.state = .unchanged
  · have hset : (m.set name value).state = .modified := if_pos hstate
    exact ⟨by simp [hset], by simp [hset], fun _ => hmodified, by simp [hset]⟩
  · have hset : (m.set name value).state = m.state := if_neg hstate
    refine ⟨hset ▸ h.attached,
      fun hunchanged => absurd (hset ▸ hunchanged) hstate, fun _ => hmodified,
      fun hadded => ?_⟩
    obtain ⟨hall, hkey⟩ := h.added (hset ▸ hadded)
    exact ⟨all_modified_setProperty name value hall, hkey⟩

/-- A flush settles what it writes and leaves the rest as it is. -/
theorem Coherent.written (h : m.Coherent) (hkept : m.state ≠ .deleted)
    (hwritten : m.Written m') : m'.Coherent := by
  cases hpending : m.isPending with
  | false =>
      rw [hwritten.untouched (isPending_eq_false_iff.mp hpending)]
      exact h
  | true =>
      obtain ⟨hstate, hflags⟩ :=
        hwritten.settled (written_of_pending hpending hkept)
      exact ⟨by simp [hstate], fun _ => hflags, by simp [hstate],
        by simp [hstate]⟩

end MemoryEntity

namespace MemoryUnitOfWork

variable {u : MemoryUnitOfWork}

/-! ## One call -/

theorem tracks_eq_false_iff {e : EntityRef} :
    u.tracks e = false ↔ e ∉ u.refs := by
  rw [← find?_eq_none_iff, tracks, Option.isSome_eq_false_iff,
    Option.isNone_iff_eq_none]

theorem set_cases (u : MemoryUnitOfWork) (e : EntityRef) (name : String)
    (value : FieldValue) :
    (u.tracks e = false ∧ u.set e name value = (false, u)) ∨
    (u.tracks e = true ∧
      u.set e name value =
        (true, { u with
          entities := updateFirst e (·.set name value) u.entities })) := by
  unfold set update
  cases htracks : u.tracks e with
  | false => exact .inl ⟨rfl, rfl⟩
  | true => exact .inr ⟨rfl, rfl⟩

theorem remove_cases (u : MemoryUnitOfWork) (e : EntityRef) :
    (u.tracks e = false ∧ u.remove e = (false, u)) ∨
    (∃ m, u.find? e = some m ∧ m.state = .added ∧
      u.remove e = (true,
        { u with entities := u.entities.eraseP fun m => m.entity = e })) ∨
    (∃ m, u.find? e = some m ∧ m.state ≠ .added ∧
      u.remove e = (true, { u with
        entities := updateFirst e (fun m => { m with state := .deleted })
          u.entities })) := by
  unfold remove update tracks
  cases hfound : u.find? e with
  | none => exact .inl ⟨rfl, rfl⟩
  | some m =>
      by_cases hadded : m.state = .added
      · exact .inr (.inl ⟨m, rfl, hadded, if_pos hadded⟩)
      · exact .inr (.inr ⟨m, rfl, hadded, if_neg hadded⟩)

theorem coherent_call {c : WorkCall} (hc : c.forces = false)
    (hu : ∀ m ∈ u.entities, m.Coherent) :
    ∀ m ∈ (c.apply u).entities, m.Coherent := by
  cases c with
  | edit e =>
      cases e with
      | add entityType properties =>
          exact List.forall_mem_append.mpr ⟨hu,
            List.forall_mem_singleton.mpr (MemoryEntity.coherent_added _ _ _)⟩
      | attach entityType key properties =>
          exact List.forall_mem_append.mpr ⟨hu,
            List.forall_mem_singleton.mpr
              (MemoryEntity.coherent_attached _ _ _ _)⟩
      | set e name value =>
          intro m hm
          simp only [WorkCall.apply, Edit.apply] at hm
          rcases u.set_cases e name value with ⟨-, hset⟩ | ⟨-, hset⟩ <;>
            rw [hset] at hm
          · exact hu m hm
          · rcases mem_updateFirst hm with hm | ⟨m', hm', rfl⟩
            · exact hu m hm
            · exact (hu m' hm').set name value
      | remove e =>
          intro m hm
          simp only [WorkCall.apply, Edit.apply] at hm
          rcases u.remove_cases e with
            ⟨-, hremove⟩ | ⟨_, -, -, hremove⟩ | ⟨_, -, -, hremove⟩ <;>
            rw [hremove] at hm
          · exact hu m hm
          · exact hu m (List.mem_of_mem_eraseP hm)
          · rcases mem_updateFirst hm with hm | ⟨m', -, rfl⟩
            · exact hu m hm
            · exact m'.coherent_deleted
      | setState e state => cases hc
      | flush =>
          intro m' hm'
          obtain ⟨m, hm, hkept, hwritten⟩ := exists_written hm'
          exact (hu m hm).written hkept hwritten
      | failNextCommit | failNextRollback => exact hu
  | begin fresh | commit tx | rollback tx =>
      rw [WorkCall.entities_apply rfl]
      exact hu

theorem coherent_run (calls : List WorkCall) : ∀ {u : MemoryUnitOfWork},
    (∀ c ∈ calls, c.forces = false) → (∀ m ∈ u.entities, m.Coherent) →
      ∀ m ∈ (u.run calls).entities, m.Coherent := by
  induction calls with
  | nil => exact fun _ hu => hu
  | cons c rest ih =>
      intro u hforces hu
      obtain ⟨hc, hrest⟩ := List.forall_mem_cons.mp hforces
      exact ih hrest (coherent_call hc hu)

/-! ## References -/

theorem refs_track (entityType : String) (state : EntityState)
    (key : FieldValue) (properties : List (String × FieldValue)) :
    (u.track entityType state key properties).2.refs =
      u.refs ++ [(u.track entityType state key properties).1] := List.map_append

theorem refs_update {e : EntityRef} {f : MemoryEntity → MemoryEntity}
    (hf : ∀ m, (f m).entity = m.entity) : (u.update e f).2.refs = u.refs := by
  unfold update
  split
  · exact map_updateFirst hf u.entities
  · rfl

theorem refs_dropped {e : EntityRef} {m : MemoryEntity}
    (hfound : u.find? e = some m) :
    u.refs.Perm (e :: (u.entities.eraseP fun m => m.entity = e).map
      (·.entity)) := by
  obtain ⟨first, before, behind, -, hsame, hentities, herased⟩ :=
    List.exists_of_eraseP (List.mem_of_find?_eq_some hfound)
      (List.find?_some hfound)
  rw [herased, refs, hentities, List.map_append, List.map_append, List.map_cons,
    of_decide_eq_true hsame]
  exact List.perm_middle

theorem refs_flush_perm :
    u.refs.Perm ((u.entities.filter (·.state == .deleted)).map (·.entity) ++
      u.flush.2.refs) := by
  have hsplit :=
    List.filter_append_perm (fun m : MemoryEntity => m.state == .deleted)
      u.entities
  have hrefs := (hsplit.map (·.entity)).symm
  rw [List.map_append] at hrefs
  rw [refs_flush]
  exact hrefs

/-- What is issued comes in, what is dropped or written as deleted goes out. -/
theorem refs_step (s : WorkStep) :
    (s.before.refs ++ s.issued).Perm
      ((s.dropped ++ s.erased) ++ s.after.refs) := by
  obtain ⟨u, c⟩ := s
  -- What most calls do: nothing is listed and nothing moves.
  have hstill {c : WorkCall} (hc : (c.apply u).refs = u.refs) :
      (u.refs ++ []).Perm (([] ++ []) ++ (c.apply u).refs) := by simp [hc]
  cases c with
  | edit e =>
      cases e with
      | add entityType properties =>
          exact .of_eq (refs_track entityType _ _ properties).symm
      | attach entityType key properties =>
          exact .of_eq (refs_track entityType _ key properties).symm
      | set e name value => exact hstill (refs_update fun _ => rfl)
      | setState e state => exact hstill (refs_update fun _ => rfl)
      | remove e =>
          simp only [WorkStep.dropped, WorkStep.issued, WorkStep.erased,
            WorkStep.after, WorkCall.apply, Edit.apply, List.append_nil]
          rcases u.remove_cases e with
            ⟨htracks, hremove⟩ | ⟨m, hfound, hadded, hremove⟩ |
            ⟨m, hfound, hkept, hremove⟩
          · have hmissing : u.find? e = none := by simpa [tracks] using htracks
            simp [hremove, hmissing]
          · rw [hremove, hfound, Option.any_some, hadded]
            exact refs_dropped hfound
          · have hrefs : (u.remove e).2.refs = u.refs := by
              rw [hremove]
              refine map_updateFirst ?_ u.entities
              exact fun _ => rfl
            simp [hrefs, hfound, hkept]
      | flush => exact (List.append_nil u.refs).symm ▸ refs_flush_perm
      | failNextCommit | failNextRollback => exact hstill rfl
  | begin fresh | commit tx | rollback tx =>
      refine hstill ?_
      rw [refs, WorkCall.entities_apply rfl]
      rfl

theorem issued_perm (contextId : String) (calls : List WorkCall) :
    (((new contextId).steps calls).flatMap WorkStep.issued).Perm
      (((new contextId).steps calls).flatMap (fun s => s.dropped ++ s.erased) ++
        ((new contextId).run calls).refs) :=
  balanced refs refs_step calls (new contextId)

/-! ## Given out in a row -/

/-- What steps list in a row is in a row over all of them, if every step goes on
where the one before it stopped. -/
theorem in_a_row {α : Type} (nth : MemoryUnitOfWork → Nat → α)
    (given : WorkStep → List α)
    (hstep : ∀ s : WorkStep, s.before.InOrder →
      given s = (List.range (given s).length).map (nth s.before) ∧
        ∀ i, nth s.after i = nth s.before ((given s).length + i))
    (calls : List WorkCall) :
    ∀ {u : MemoryUnitOfWork}, u.InOrder →
      (u.steps calls).flatMap given =
        (List.range ((u.steps calls).flatMap given).length).map (nth u) := by
  induction calls with
  | nil => exact fun _ => rfl
  | cons c rest ih =>
      intro u hu
      obtain ⟨hgiven, hnext⟩ := hstep ⟨u, c⟩ hu
      have hrest := ih (hu.call c)
      rw [steps, List.flatMap_cons, List.length_append, List.range_add,
        List.map_append, ← hgiven, List.map_map]
      congr 1
      refine hrest.trans (List.map_congr_left fun i _ => ?_)
      exact hnext i

@[simp] theorem keyAt_zero : u.keyAt 0 = u.nextKey := by
  rw [keyAt, show Int64.ofNat 0 = 0 from rfl, Int64.add_zero]

theorem keyAt_keyAt {v : MemoryUnitOfWork} {n : Nat}
    (hnext : v.nextKey = u.keyAt n) (i : Nat) :
    v.keyAt i = u.keyAt (n + i) := by
  rw [keyAt, hnext, keyAt, keyAt, Int64.ofNat_add, Int64.add_assoc]

theorem counters_step (s : WorkStep) :
    s.after.nextRef = s.before.nextRef + s.issued.length ∧
    s.after.nextKey = s.before.keyAt s.keyed.length := by
  obtain ⟨u, c⟩ := s
  have hstill {v : MemoryUnitOfWork} (hv : v.nextRef = u.nextRef ∧
      v.nextKey = u.nextKey) :
      v.nextRef = u.nextRef + 0 ∧ v.nextKey = u.keyAt 0 := by simpa using hv
  cases c with
  | edit e =>
      cases e with
      | add entityType properties | attach entityType key properties =>
          exact ⟨rfl, keyAt_zero.symm⟩
      | set e name value =>
          refine hstill ?_
          rcases u.set_cases e name value with ⟨-, hset⟩ | ⟨-, hset⟩ <;>
            simp [WorkStep.after, WorkCall.apply, Edit.apply, hset]
      | setState e state =>
          refine hstill ?_
          simp [WorkStep.after, WorkCall.apply, Edit.apply, setState,
            Edit.update_eq]
      | remove e =>
          refine hstill ?_
          rcases u.remove_cases e with
            ⟨-, hremove⟩ | ⟨_, -, -, hremove⟩ | ⟨_, -, -, hremove⟩ <;>
            simp [WorkStep.after, WorkCall.apply, Edit.apply, hremove]
      | flush =>
          refine ⟨rfl, nextKey_flush.trans ?_⟩
          simp [WorkStep.keyed]
      | failNextCommit | failNextRollback => exact hstill ⟨rfl, rfl⟩
  | begin fresh | commit tx | rollback tx =>
      exact hstill (WorkCall.counters_apply rfl u)

theorem issued_in_a_row (contextId : String) (calls : List WorkCall) :
    let issued := ((new contextId).steps calls).flatMap WorkStep.issued
    issued = (List.range issued.length).map fun i => ⟨1 + i⟩ := by
  refine in_a_row (fun u i => (⟨u.nextRef + i⟩ : EntityRef)) WorkStep.issued
    (fun s _ => ?_) calls
    (inOrder_new contextId)
  refine ⟨?_, fun i => ?_⟩
  · obtain ⟨u, c⟩ := s
    cases c with
    | edit e => cases e <;> rfl
    | begin fresh | commit tx | rollback tx => rfl
  · rw [(counters_step s).1, Nat.add_assoc]

theorem keys_flush (hnodup : (u.entities.map (·.entity)).Nodup) :
    u.inserted.map u.flush.2.primaryKey =
      (List.range u.inserted.length).map fun i => some (.int (u.keyAt i)) := by
  refine List.ext_getElem (by simp) fun i hi _ => ?_
  have hinserted : i < u.inserted.length := by simpa using hi
  rw [List.getElem_map, List.getElem_map, List.getElem_range]
  exact primaryKey_flush_inserted hnodup (List.getElem?_eq_getElem hinserted)

theorem keyed_in_a_row (contextId : String) (calls : List WorkCall) :
    let keyed := ((new contextId).steps calls).flatMap WorkStep.keyed
    keyed.map Prod.snd =
      ((List.range keyed.length).map fun i => Int64.ofNat (1 + i)).map
      fun key => some (.int key) := by
  intro keyed
  have hrow := in_a_row (fun u i => some (FieldValue.int (u.keyAt i)))
    (fun s => s.keyed.map Prod.snd) (fun s hs => ⟨?_, fun i => ?_⟩) calls
      (inOrder_new contextId)
  · rw [← List.map_flatMap, List.length_map] at hrow
    rw [hrow, List.map_map]
    refine List.map_congr_left fun i _ => ?_
    rw [keyAt, Function.comp_apply, Int64.ofNat_add]
    rfl
  · obtain ⟨u, c⟩ := s
    cases c with
    | edit e =>
        cases e with
        | flush =>
            simpa [WorkStep.keyed, WorkStep.after, WorkCall.apply, Edit.apply,
              Function.comp_def]
              using keys_flush hs.nodup
        | _ => rfl
    | begin fresh | commit tx | rollback tx => rfl
  · rw [keyAt_keyAt (counters_step s).2, List.length_map]

/-- Numbers in a row ascend if they are not too many. -/
theorem ascending_keys {count : Nat} (henough : count < 2 ^ 63) :
    ((List.range count).map fun i => Int64.ofNat (1 + i)).Pairwise (· < ·) := by
  refine List.pairwise_map.mpr
    (List.pairwise_lt_range.imp_of_mem fun {i j} hi hj hlt => ?_)
  have hi := List.mem_range.mp hi
  have hj := List.mem_range.mp hj
  rw [Int64.lt_iff_toInt_lt, Int64.toInt_ofNat_of_lt (by omega),
    Int64.toInt_ofNat_of_lt (by omega)]
  omega

/-! ## What is not tracked -/

theorem not_mem_refs_iff (contextId : String) (calls : List WorkCall)
    {e : EntityRef} :
    let steps := (new contextId).steps calls
    e ∉ ((new contextId).run calls).refs ↔ e ∉ steps.flatMap WorkStep.issued ∨
      e ∈ steps.flatMap WorkStep.dropped ∨
        e ∈ steps.flatMap WorkStep.erased := by
  intro steps
  have hperm := issued_perm contextId calls
  have hnodup : (steps.flatMap WorkStep.issued).Nodup := by
    rw [show steps.flatMap WorkStep.issued = _ from
      issued_in_a_row contextId calls]
    refine List.Nodup.map ?_ List.nodup_range
    intro i j h
    simpa using h
  have hapart := (List.nodup_append.mp (hperm.nodup_iff.mp hnodup)).2.2
  have hgone : e ∈ steps.flatMap (fun s => s.dropped ++ s.erased) ↔
      e ∈ steps.flatMap WorkStep.dropped ∨
        e ∈ steps.flatMap WorkStep.erased := by
    simp only [List.mem_flatMap, List.mem_append, and_or_left, exists_or]
  rw [← hgone, hperm.mem_iff, List.mem_append]
  constructor
  · intro hlost
    by_cases hout : e ∈ steps.flatMap fun s => s.dropped ++ s.erased
    · exact .inr hout
    · exact .inl fun hissued => hissued.elim hout hlost
  · rintro (hnever | hout) htracked
    · exact hnever (.inr htracked)
    · exact hapart e hout e htracked rfl

theorem set_eq_false_iff {e : EntityRef} {name : String} {value : FieldValue} :
    (u.set e name value).1 = false ↔ e ∉ u.refs := by
  rw [← tracks_eq_false_iff]
  rcases u.set_cases e name value with ⟨htracks, hset⟩ | ⟨htracks, hset⟩ <;>
    simp [hset, htracks]

theorem remove_eq_false_iff {e : EntityRef} :
    (u.remove e).1 = false ↔ e ∉ u.refs := by
  rw [← tracks_eq_false_iff]
  rcases u.remove_cases e with ⟨htracks, hremove⟩ | ⟨m, hfound, -, hremove⟩ |
    ⟨m, hfound, -, hremove⟩
  · simp [hremove, htracks]
  · simp [hremove, tracks, hfound]
  · simp [hremove, tracks, hfound]

theorem set_of_not_mem {e : EntityRef} (he : e ∉ u.refs) (name : String)
    (value : FieldValue) :
    (u.set e name value).2 = u := by
  rcases u.set_cases e name value with ⟨-, hset⟩ | ⟨htracks, -⟩
  · rw [hset]
  · rw [tracks_eq_false_iff.mpr he] at htracks
    cases htracks

theorem remove_of_not_mem {e : EntityRef} (he : e ∉ u.refs) :
    (u.remove e).2 = u := by
  have htracks := tracks_eq_false_iff.mpr he
  rcases u.remove_cases e with ⟨-, hremove⟩ | ⟨m, hfound, -⟩ | ⟨m, hfound, -⟩
  · rw [hremove]
  · simp [tracks, hfound] at htracks
  · simp [tracks, hfound] at htracks

/-! ## The tracker -/

/-- Whatever is tracked, changed, removed and written, so long as no state is
forced. References are issued in ascending order, below the next one, and are
tracked in that order. Nothing that is tracked is detached; what is unchanged
has no modified property and what is modified has one; and what is new has
modified properties only and no key. The keys that flushes give ascend over the
whole run, so none is given twice. What cannot be set or removed, and is not, is
what was never issued, was dropped while it was new, or was written as
deleted. -/
theorem tracker_in_order (contextId : String) (calls : List WorkCall)
    (hforces : ∀ c ∈ calls, c.forces = false)
    (henough : (((new contextId).steps calls).flatMap WorkStep.keyed).length <
      2 ^ 63) :
    let u := (new contextId).run calls
    let steps := (new contextId).steps calls
    (u.entities.map (·.entity.number)).Pairwise (· < ·) ∧
    (∀ m ∈ u.entities, m.entity.number < u.nextRef) ∧
    ((steps.flatMap WorkStep.issued).map (·.number)).Pairwise (· < ·) ∧
    (∀ e ∈ steps.flatMap WorkStep.issued, e.number < u.nextRef) ∧
    (∀ m ∈ u.entities, m.Coherent) ∧
    (∃ keys : List Int64, keys.Pairwise (· < ·) ∧
      (steps.flatMap WorkStep.keyed).map Prod.snd = keys.map fun key =>
        some (.int key)) ∧
    ((steps.flatMap WorkStep.keyed).map Prod.snd).Nodup ∧
    ∀ e,
      let lost := e ∉ steps.flatMap WorkStep.issued ∨
        e ∈ steps.flatMap WorkStep.dropped ∨
        e ∈ steps.flatMap WorkStep.erased
      (∀ name value, ((u.set e name value).1 = false ↔ lost) ∧
        (lost → (u.set e name value).2 = u)) ∧
      ((u.remove e).1 = false ↔ lost) ∧ (lost → (u.remove e).2 = u) := by
  intro u steps
  have hu : u.InOrder := (inOrder_new contextId).run calls
  have hissued := issued_in_a_row contextId calls
  have hkeys := keyed_in_a_row contextId calls
  have hnext : u.nextRef = 1 + (steps.flatMap WorkStep.issued).length :=
    tallied (·.nextRef) (fun s => (counters_step s).1) calls (new contextId)
  have hascending := ascending_keys henough
  refine ⟨hu.ascending, fun m hm => hu.below _ (List.mem_map_of_mem hm), ?_,
    fun e he => ?_, coherent_run calls hforces nofun,
    ⟨_, hascending, hkeys⟩, ?_,
    fun e => ⟨fun name value => ?_, ?_⟩⟩
  · rw [show steps.flatMap WorkStep.issued = _ from hissued, List.map_map]
    refine List.pairwise_map.mpr
      (List.pairwise_lt_range.imp fun {i j} hlt => ?_)
    exact Nat.add_lt_add_left hlt 1
  · rw [show steps.flatMap WorkStep.issued = _ from hissued] at he
    obtain ⟨i, hi, rfl⟩ := List.mem_map.mp he
    rw [hnext]
    exact Nat.add_lt_add_left (List.mem_range.mp hi) 1
  · rw [show (steps.flatMap WorkStep.keyed).map Prod.snd = _ from hkeys]
    refine List.Nodup.map ?_ (hascending.imp Int64.ne_of_lt)
    intro key key' h
    simpa using h
  · have hlost := not_mem_refs_iff contextId calls (e := e)
    exact ⟨set_eq_false_iff.trans hlost,
      fun h => set_of_not_mem (hlost.mpr h) name value⟩
  · have hlost := not_mem_refs_iff contextId calls (e := e)
    exact ⟨remove_eq_false_iff.trans hlost,
      fun h => remove_of_not_mem (hlost.mpr h)⟩

namespace Sample

/-- Of the first four, two get keys, one is changed and one is deleted and
written as such. The fifth is new when it is removed, and the sixth is keyed
later. -/
def careers : List WorkCall :=
  [.edit (.add "Order" [("Total", .int 10)]), .edit (.add "Order" []),
    .edit (.attach "Order" (.int 70) [("Total", .int 1)]),
    .edit (.attach "Order" (.int 71) []),
    .edit .flush, .edit (.set ⟨3⟩ "Note" (.text "late")),
    .edit (.add "Order" []),
    .edit (.remove ⟨5⟩), .edit (.remove ⟨4⟩), .edit (.add "Draft" []),
    .edit .flush,
    .edit (.set ⟨1⟩ "Total" (.int 20))]

end Sample

open Sample in
theorem tracker_in_order_careers :
    let u := (new "req").run careers
    let steps := (new "req").steps careers
    (∀ c ∈ careers, c.forces = false) ∧
      (steps.flatMap WorkStep.keyed).length = 3 ∧
      (steps.flatMap WorkStep.keyed).map Prod.fst = [⟨1⟩, ⟨2⟩, ⟨6⟩] ∧
      ((steps.flatMap WorkStep.keyed).map Prod.snd).Nodup ∧
      u.refs = [⟨1⟩, ⟨2⟩, ⟨3⟩, ⟨6⟩] ∧ (∀ m ∈ u.entities, m.Coherent) ∧
      (u.set ⟨4⟩ "Total" .null).1 = false ∧ (u.remove ⟨5⟩).1 = false ∧
      (u.remove ⟨7⟩).1 = false := by
  intro u steps
  have hforces : ∀ c ∈ careers, c.forces = false := by decide
  have hlength : (steps.flatMap WorkStep.keyed).length = 3 := by decide
  obtain ⟨-, -, -, -, hcoherent, -, hkeys, hlost⟩ :=
    tracker_in_order "req" careers hforces
      (by rw [show _ = 3 from hlength]; decide)
  refine ⟨hforces, hlength, by decide, hkeys, by decide, hcoherent, ?_, ?_, ?_⟩
  · exact ((hlost ⟨4⟩).1 "Total" .null).1.mpr (.inr (.inr (by decide)))
  · exact (hlost ⟨5⟩).2.1.mpr (.inr (.inl (by decide)))
  · exact (hlost ⟨7⟩).2.1.mpr (.inl (by decide))

end MemoryUnitOfWork
end AuditTrail

import AuditTrail.Proofs.Memory.Edits
import Mathlib.Algebra.Group.Nat.Defs
import Mathlib.Data.List.Nodup

/-!
# What a flush writes

References are given out in ascending order and entities are only ever put at
the end of the list, so no edit makes two entities share a reference. That is
`InOrder`, and every edit keeps it.

It is what makes the keys of a flush readable. A flush goes through the list
once and gives the next key to each entity that it inserts, so the `i`-th of
them gets the `i`-th key, `primaryKey_flush_inserted`. Read back by reference
the key is found again because nobody else has the reference.
-/

namespace AuditTrail

open MemoryUnitOfWork

/-- The next flush writes the entity. -/
def MemoryEntity.isPending (m : MemoryEntity) : Bool :=
  m.state == .added || m.state == .modified || m.state == .deleted

/-- References ascend in the order of tracking, and the next one is above all
of them. The key of an entity is not one of its properties. -/
structure MemoryUnitOfWork.InOrder (u : MemoryUnitOfWork) : Prop where
  ascending : (u.entities.map (·.entity.number)).Pairwise (· < ·)
  below : ∀ n ∈ u.entities.map (·.entity.number), n < u.nextRef
  plain : ∀ m ∈ u.entities, ∀ p ∈ m.properties, p.isPrimaryKey = false

namespace MemoryUnitOfWork

/-! ## Going through the list -/

theorem map_updateFirst {α : Type} {e : EntityRef}
    {f : MemoryEntity → MemoryEntity} {g : MemoryEntity → α}
    (hf : ∀ m, g (f m) = g m) (ms : List MemoryEntity) :
    (updateFirst e f ms).map g = ms.map g := by
  induction ms with
  | nil => rfl
  | cons m rest ih =>
      rw [updateFirst]
      split
      · rw [List.map_cons, hf, List.map_cons]
      · rw [List.map_cons, ih, List.map_cons]

theorem mem_updateFirst {e : EntityRef} {f : MemoryEntity → MemoryEntity}
    {x : MemoryEntity} {ms : List MemoryEntity} (hx : x ∈ updateFirst e f ms) :
    x ∈ ms ∨ ∃ m ∈ ms, x = f m := by
  induction ms with
  | nil => cases hx
  | cons m rest ih =>
      rw [updateFirst] at hx
      split at hx
      · rcases List.mem_cons.mp hx with rfl | hx
        · exact .inr ⟨m, List.mem_cons_self, rfl⟩
        · exact .inl (List.mem_cons_of_mem m hx)
      · rcases List.mem_cons.mp hx with rfl | hx
        · exact .inl List.mem_cons_self
        · rcases ih hx with hx | ⟨m', hm', rfl⟩
          · exact .inl (List.mem_cons_of_mem m hx)
          · exact .inr ⟨m', List.mem_cons_of_mem m hm', rfl⟩

theorem map_write {α : Type} {g : MemoryEntity → α}
    (hsettle : ∀ m, g m.settle = g m)
    (hkey : ∀ m : MemoryEntity, ∀ key, g { m with key := key } = g m)
    (ms : List MemoryEntity) :
    ∀ key : Int64, (write key ms).2.1.map g = ms.map g := by
  induction ms with
  | nil => intro key; rfl
  | cons m rest ih =>
      intro key
      rw [write]
      split
      · rw [List.map_cons, hkey, hsettle, ih, List.map_cons]
      · rw [List.map_cons, hsettle, ih, List.map_cons]
      · rw [List.map_cons, ih, List.map_cons]

theorem plain_write {ms : List MemoryEntity}
    (hplain : ∀ m ∈ ms, ∀ p ∈ m.properties, p.isPrimaryKey = false) :
    ∀ key : Int64,
    ∀ m ∈ (write key ms).2.1, ∀ p ∈ m.properties, p.isPrimaryKey = false := by
  induction ms with
  | nil => intro key m hm; cases hm
  | cons first rest ih =>
      intro key
      obtain ⟨hfirst, hrest⟩ := List.forall_mem_cons.mp hplain
      have hsettled : ∀ p ∈ first.settle.properties,
          p.isPrimaryKey = false := by
        intro p hp
        obtain ⟨q, hq, rfl⟩ := List.mem_map.mp hp
        exact hfirst q hq
      rw [write]
      split
      · exact List.forall_mem_cons.mpr ⟨hsettled, ih hrest _⟩
      · exact List.forall_mem_cons.mpr ⟨hsettled, ih hrest _⟩
      · exact List.forall_mem_cons.mpr ⟨hfirst, ih hrest _⟩

/-! ## The order is kept -/

namespace InOrder

variable {u u' : MemoryUnitOfWork}

theorem nodup (h : u.InOrder) : (u.entities.map (·.entity)).Nodup := by
  refine List.Nodup.of_map EntityRef.number ?_
  rw [List.map_map]
  exact h.ascending.nodup

theorem of_sublist (h : u.InOrder)
    (hnumbers : (u'.entities.map (·.entity.number)).Sublist
      (u.entities.map (·.entity.number)))
    (hnext : u'.nextRef = u.nextRef)
    (hplain : ∀ m ∈ u'.entities, ∀ p ∈ m.properties, p.isPrimaryKey = false) :
    u'.InOrder :=
  ⟨h.ascending.sublist hnumbers,
    fun n hn => hnext ▸ h.below n (hnumbers.subset hn), hplain⟩

theorem track (h : u.InOrder) (entityType : String) (state : EntityState)
    (key : FieldValue) (properties : List (String × FieldValue)) :
    (u.track entityType state key properties).2.InOrder := by
  refine ⟨?_, ?_, ?_⟩
  · rw [MemoryUnitOfWork.track, List.map_append]
    refine List.pairwise_append.mpr
      ⟨h.ascending, List.pairwise_singleton _ _, ?_⟩
    intro a ha b hb
    rw [List.mem_singleton.mp hb]
    exact h.below a ha
  · rw [MemoryUnitOfWork.track, List.map_append]
    refine List.forall_mem_append.mpr ⟨fun n hn => ?_, fun n hn => ?_⟩
    · exact Nat.lt_succ_of_lt (h.below n hn)
    · rw [List.mem_singleton.mp hn]
      exact Nat.lt_succ_self _
  · refine List.forall_mem_append.mpr
      ⟨h.plain, List.forall_mem_singleton.mpr fun p hp => ?_⟩
    obtain ⟨_, -, rfl⟩ := List.mem_map.mp hp
    rfl

theorem update (h : u.InOrder) (e : EntityRef) {f : MemoryEntity → MemoryEntity}
    (hf : ∀ m, (f m).entity = m.entity)
    (hplain : ∀ m : MemoryEntity, (∀ p ∈ m.properties, p.isPrimaryKey = false) →
      ∀ p ∈ (f m).properties, p.isPrimaryKey = false) :
    (u.update e f).2.InOrder := by
  unfold MemoryUnitOfWork.update
  split
  · refine h.of_sublist ?_ rfl fun m hm => ?_
    · rw [map_updateFirst fun m => congrArg EntityRef.number (hf m)]
    · rcases mem_updateFirst hm with hm | ⟨m', hm', rfl⟩
      · exact h.plain m hm
      · exact hplain m' (h.plain m' hm')
  · exact h

theorem plain_setProperty (name : String) (value : FieldValue)
    {properties : List PropertyEntry}
    (hplain : ∀ p ∈ properties, p.isPrimaryKey = false) :
    ∀ p ∈ MemoryEntity.setProperty name value properties,
      p.isPrimaryKey = false := by
  induction properties with
  | nil => exact List.forall_mem_singleton.mpr rfl
  | cons first rest ih =>
      obtain ⟨hfirst, hrest⟩ := List.forall_mem_cons.mp hplain
      rw [MemoryEntity.setProperty]
      split
      · exact List.forall_mem_cons.mpr ⟨hfirst, hrest⟩
      · exact List.forall_mem_cons.mpr ⟨hfirst, ih hrest⟩

theorem remove (h : u.InOrder) (e : EntityRef) : (u.remove e).2.InOrder := by
  unfold MemoryUnitOfWork.remove
  split
  · exact h
  · split
    · exact h.of_sublist (List.eraseP_sublist.map _) rfl
        fun m hm => h.plain m (List.mem_of_mem_eraseP hm)
    · exact h.update e (fun _ => rfl) fun _ hplain => hplain

theorem flush (h : u.InOrder) : u.flush.2.InOrder := by
  have hnumbers : u.flush.2.entities.map (·.entity.number) =
      (u.entities.filter fun m => m.state != .deleted).map (·.entity.number) :=
    map_write (fun _ => rfl) (fun _ _ => rfl) _ u.nextKey
  refine h.of_sublist ?_ rfl
    (plain_write (fun m hm => h.plain m (List.mem_of_mem_filter hm)) _)
  rw [hnumbers]
  exact List.filter_sublist.map _

theorem apply (h : u.InOrder) (e : Edit) : (e.apply u).InOrder := by
  cases e with
  | add entityType properties =>
      exact h.track entityType .added .null properties
  | attach entityType key properties =>
      exact h.track entityType .unchanged key properties
  | set entity name value =>
      exact h.update entity (fun _ => rfl) fun _ => plain_setProperty name value
  | remove entity => exact h.remove entity
  | setState entity state =>
      exact h.update entity (fun _ => rfl) fun _ hplain => hplain
  | flush => exact h.flush
  | failNextCommit | failNextRollback => exact ⟨h.ascending, h.below, h.plain⟩

end InOrder

theorem inOrder_new (contextId : String) : (new contextId).InOrder :=
  ⟨.nil, fun _ hn => absurd hn List.not_mem_nil,
    fun _ hm => absurd hm List.not_mem_nil⟩

/-! ## The keys of a flush -/

def insertedOf (ms : List MemoryEntity) : List EntityRef :=
  (ms.filter fun m => m.state == .added).map (·.entity)

/-- The entities that the next flush inserts, in the order of tracking. -/
def inserted (u : MemoryUnitOfWork) : List EntityRef := insertedOf u.entities

/-- The key that the next flush gives to the `i`-th entity that it inserts. -/
def keyAt (u : MemoryUnitOfWork) (i : Nat) : Int64 := u.nextKey + Int64.ofNat i

theorem insertedOf_cons_added {m : MemoryEntity} (hadded : m.state = .added)
    (rest : List MemoryEntity) :
    insertedOf (m :: rest) = m.entity :: insertedOf rest := by
  rw [insertedOf, List.filter_cons_of_pos (by simp [hadded]), List.map_cons,
    insertedOf]

theorem insertedOf_cons_other {m : MemoryEntity} (hother : m.state ≠ .added)
    (rest : List MemoryEntity) : insertedOf (m :: rest) = insertedOf rest := by
  rw [insertedOf, List.filter_cons_of_neg (by simpa using hother), insertedOf]

/-- Deleted entities are not inserted. -/
theorem insertedOf_kept (ms : List MemoryEntity) :
    insertedOf (ms.filter fun m => m.state != .deleted) = insertedOf ms := by
  rw [insertedOf, List.filter_filter, insertedOf]
  congr 2
  funext m
  cases m.state <;> rfl

theorem find?_write {e : EntityRef} {ms : List MemoryEntity} :
    ∀ {key : Int64} {i : Nat}, (ms.map (·.entity)).Nodup →
      (insertedOf ms)[i]? = some e →
      ((write key ms).2.1.find? fun m => m.entity = e).map (·.key) =
        some (.int (key + Int64.ofNat i)) := by
  induction ms with
  | nil => intro key i _ hi; cases hi
  | cons m rest ih =>
      intro key i hnodup hi
      obtain ⟨hfresh, hrest⟩ := List.nodup_cons.mp hnodup
      -- Whoever is found among the others has another reference.
      have hother : ∀ {j : Nat}, (insertedOf rest)[j]? = some e →
          decide (m.entity = e) = false := by
        intro j hj
        obtain ⟨m', hm', hentity⟩ := List.mem_map.mp (List.mem_of_getElem? hj)
        refine decide_eq_false fun heq => hfresh ?_
        exact List.mem_map.mpr ⟨m', List.mem_of_mem_filter hm',
          hentity.trans heq.symm⟩
      cases hstate : m.state with
      | added =>
          rw [insertedOf_cons_added hstate] at hi
          simp only [write, hstate, MemoryEntity.settle]
          cases i with
          | zero =>
              cases hi
              simp
          | succ j =>
              rw [List.find?_cons, hother hi, ih hrest hi, Nat.add_comm j,
                Int64.ofNat_add, ← Int64.add_assoc]
              rfl
      | modified | detached | unchanged | deleted =>
          rw [insertedOf_cons_other (by simp [hstate])] at hi
          simp only [write, hstate, MemoryEntity.settle, List.find?_cons,
            hother hi]
          exact ih hrest hi

variable {u : MemoryUnitOfWork}

theorem primaryKey_flush_inserted (hnodup : (u.entities.map (·.entity)).Nodup)
    {e : EntityRef} {i : Nat} (hi : u.inserted[i]? = some e) :
    u.flush.2.primaryKey e = some (.int (u.keyAt i)) := by
  refine find?_write (hnodup.sublist (List.filter_sublist.map _)) ?_
  rw [insertedOf_kept]
  exact hi

/-- The references that are tracked, in the order of tracking. -/
def refs (u : MemoryUnitOfWork) : List EntityRef := u.entities.map (·.entity)

theorem find?_eq_none_iff {e : EntityRef} : u.find? e = none ↔ e ∉ u.refs := by
  simp [find?, refs, List.find?_eq_none]

theorem refs_flush : u.flush.2.refs =
    (u.entities.filter fun m => m.state != .deleted).map (·.entity) :=
  map_write (fun _ => rfl) (fun _ _ => rfl) _ u.nextKey

/-- Of the entities that were tracked the deleted ones have no key any more, and
only they. -/
theorem primaryKey_flush_eq_none_iff
    (hnodup : (u.entities.map (·.entity)).Nodup) {m : MemoryEntity}
    (hm : m ∈ u.entities) :
    u.flush.2.primaryKey m.entity = none ↔ m.state = .deleted := by
  rw [primaryKey, Option.map_eq_none_iff, find?_eq_none_iff, refs_flush]
  constructor
  · intro hgone
    refine Decidable.byContradiction fun hkept => hgone ?_
    exact List.mem_map_of_mem (List.mem_filter.mpr ⟨hm, by simpa using hkept⟩)
  · intro hdeleted hmem
    obtain ⟨other, hother, hsame⟩ := List.mem_map.mp hmem
    obtain ⟨hother, hkept⟩ := List.mem_filter.mp hother
    rw [List.inj_on_of_nodup_map hnodup hother hm hsame, hdeleted] at hkept
    cases hkept

/-- No key is given twice, so long as there are enough of them. -/
theorem keyAt_inj {i j : Nat} (hi : i < 2 ^ 64) (hj : j < 2 ^ 64)
    (h : u.keyAt i = u.keyAt j) :
    i = j := by
  have hbits := congrArg Int64.toBitVec ((Int64.add_right_inj u.nextKey).mp h)
  have hmod : i % 2 ^ 64 = j % 2 ^ 64 := congrArg BitVec.toNat hbits
  rwa [Nat.mod_eq_of_lt hi, Nat.mod_eq_of_lt hj] at hmod

end MemoryUnitOfWork
end AuditTrail

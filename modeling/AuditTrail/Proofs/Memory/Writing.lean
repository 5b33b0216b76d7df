import AuditTrail.Proofs.Memory.Calls
import Mathlib.Algebra.Group.Int.Defs
import Mathlib.Data.List.Forall2

/-!
# A flush writes what is pending, and writes it once

A flush goes through the entities that are not deleted one by one, so what it
does is said entity by entity: `Written` relates an entity that stays tracked to
what becomes of it, and `forall₂_write` is the induction. Two things are not
about single entities. The rows are counted, deleted ones among them, and the
keys are given out in a row.

Nothing is pending afterwards, and a flush with nothing pending changes nothing
at all.
-/

namespace AuditTrail

open MemoryUnitOfWork

/-- What a flush makes of an entity that stays tracked. -/
structure MemoryEntity.Written (m m' : MemoryEntity) : Prop where
  entity : m'.entity = m.entity
  entityType : m'.entityType = m.entityType
  properties : (m'.properties.map fun p => (p.name, p.value, p.isPrimaryKey)) =
    m.properties.map fun p => (p.name, p.value, p.isPrimaryKey)
  settled : m.state = .added ∨ m.state = .modified →
    m'.state = .unchanged ∧ ∀ p ∈ m'.properties, p.isModified = false
  key : m.state ≠ .added → m'.key = m.key
  untouched : m.state = .detached ∨ m.state = .unchanged → m' = m

namespace MemoryEntity

variable {m m' : MemoryEntity}

theorem isPending_eq_false_iff :
    m.isPending = false ↔ m.state = .detached ∨ m.state = .unchanged := by
  unfold isPending
  cases m.state <;> decide

theorem isModified_settle {p : PropertyEntry} (hp : p ∈ m.settle.properties) :
    p.isModified = false := by
  obtain ⟨_, -, rfl⟩ := List.mem_map.mp hp
  rfl

theorem properties_settle :
    (m.settle.properties.map fun p => (p.name, p.value, p.isPrimaryKey)) =
      m.properties.map fun p => (p.name, p.value, p.isPrimaryKey) := by
  simp [settle]

theorem written_added (hstate : m.state = .added) (key : FieldValue) :
    m.Written { m.settle with key := key } where
  entity := rfl
  entityType := rfl
  properties := properties_settle
  settled _ := ⟨rfl, fun _ => isModified_settle⟩
  key hother := absurd hstate hother
  untouched hother := by simp [hstate] at hother

theorem written_modified (hstate : m.state = .modified) :
    m.Written m.settle where
  entity := rfl
  entityType := rfl
  properties := properties_settle
  settled _ := ⟨rfl, fun _ => isModified_settle⟩
  key _ := rfl
  untouched hother := by simp [hstate] at hother

theorem written_untouched (hstate : m.isPending = false) : m.Written m where
  entity := rfl
  entityType := rfl
  properties := rfl
  settled hpending := by
    rcases isPending_eq_false_iff.mp hstate with h | h <;> simp [h] at hpending
  key _ := rfl
  untouched _ := rfl

theorem written_of_pending (hpending : m.isPending = true)
    (hkept : m.state ≠ .deleted) :
    m.state = .added ∨ m.state = .modified := by
  cases hstate : m.state <;> simp_all [isPending]

/-- What was written is not pending any more. -/
theorem Written.isPending_eq_false (h : m.Written m')
    (hkept : m.state ≠ .deleted) :
    m'.isPending = false := by
  cases hpending : m.isPending with
  | false =>
      rw [h.untouched (isPending_eq_false_iff.mp hpending)]
      exact hpending
  | true =>
      exact isPending_eq_false_iff.mpr
        (.inr (h.settled (written_of_pending hpending hkept)).1)

end MemoryEntity

namespace MemoryUnitOfWork

/-! ## Going through the list -/

theorem forall₂_write {ms : List MemoryEntity}
    (hkept : ∀ m ∈ ms, m.state ≠ .deleted) :
    ∀ key : Int64, List.Forall₂ MemoryEntity.Written ms (write key ms).2.1 := by
  induction ms with
  | nil => exact fun key => .nil
  | cons m rest ih =>
      intro key
      obtain ⟨hm, hrest⟩ := List.forall_mem_cons.mp hkept
      cases hstate : m.state with
      | added =>
          simp only [write, hstate]
          exact .cons (MemoryEntity.written_added hstate _) (ih hrest _)
      | modified =>
          simp only [write, hstate]
          exact .cons (MemoryEntity.written_modified hstate) (ih hrest _)
      | detached | unchanged =>
          simp only [write, hstate]
          refine .cons (MemoryEntity.written_untouched ?_) (ih hrest _)
          simp [MemoryEntity.isPending_eq_false_iff, hstate]
      | deleted => exact absurd hstate hm

theorem write_of_settled {ms : List MemoryEntity}
    (hsettled : ∀ m ∈ ms, m.isPending = false) (key : Int64) :
    write key ms = (0, ms, key) := by
  induction ms with
  | nil => rfl
  | cons m rest ih =>
      obtain ⟨hm, hrest⟩ := List.forall_mem_cons.mp hsettled
      rcases MemoryEntity.isPending_eq_false_iff.mp hm with hstate | hstate <;>
        simp only [write, hstate, ih hrest]

theorem key_write (ms : List MemoryEntity) : ∀ key : Int64,
    (write key ms).2.2 = key + Int64.ofNat (insertedOf ms).length := by
  induction ms with
  | nil => intro key; simp [write, insertedOf]
  | cons m rest ih =>
      intro key
      cases hstate : m.state with
      | added =>
          rw [insertedOf_cons_added hstate]
          simp only [write, hstate, ih, List.length_cons]
          rw [Nat.add_comm, Int64.ofNat_add, ← Int64.add_assoc]
          rfl
      | modified | detached | unchanged | deleted =>
          rw [insertedOf_cons_other (by simp [hstate])]
          simp only [write, hstate, ih]

/-- Every pending row is counted, be it deleted or written. -/
theorem count_write (ms : List MemoryEntity) : ∀ key : Int64,
    ms.length - (ms.filter fun m => m.state != .deleted).length +
      (write key (ms.filter fun m => m.state != .deleted)).1 =
        ms.countP (·.isPending) := by
  induction ms with
  | nil => intro key; rfl
  | cons m rest ih =>
      intro key
      have hle := List.length_filter_le (fun m : MemoryEntity => m.state !=
        .deleted) rest
      have hnext := ih (key + 1)
      have hsame := ih key
      rw [List.countP_cons]
      cases hstate : m.state with
      | added | modified =>
          have hpending : m.isPending = true := by
            simp [MemoryEntity.isPending, hstate]
          rw [if_pos hpending, List.filter_cons_of_pos (by simp [hstate]),
            List.length_cons, List.length_cons, Nat.add_sub_add_right]
          simp only [write, hstate]
          omega
      | detached | unchanged =>
          have hsettled : ¬ m.isPending = true := by
            simp [MemoryEntity.isPending, hstate]
          rw [if_neg hsettled, List.filter_cons_of_pos (by simp [hstate]),
            List.length_cons, List.length_cons, Nat.add_sub_add_right]
          simp only [write, hstate]
          omega
      | deleted =>
          have hpending : m.isPending = true := by
            simp [MemoryEntity.isPending, hstate]
          rw [if_pos hpending, List.filter_cons_of_neg (by simp [hstate]),
            List.length_cons, Nat.sub_add_comm hle]
          omega

/-! ## A flush -/

variable {u : MemoryUnitOfWork}

theorem toInt_keyAt {i : Nat} (hroom : u.nextKey.toInt + i < 2 ^ 63) :
    (u.keyAt i).toInt = u.nextKey.toInt + i := by
  have hlow := u.nextKey.le_toInt
  have hsize : Int64.size = 2 ^ 64 := rfl
  rw [keyAt, Int64.toInt_add, Int64.toInt_ofNat', hsize, Int.add_bmod_bmod]
  exact Int.bmod_eq_of_le (by omega) (by omega)

theorem forall₂_flush : List.Forall₂ MemoryEntity.Written
    (u.entities.filter fun m => m.state != .deleted) u.flush.2.entities :=
  forall₂_write (fun m hm => by simpa using (List.mem_filter.mp hm).2) u.nextKey

theorem nextKey_flush : u.flush.2.nextKey = u.keyAt u.inserted.length := by
  rw [keyAt, inserted, ← insertedOf_kept]
  exact key_write _ _

/-- Whatever is tracked after a flush was tracked before it and not deleted. -/
theorem exists_written {m' : MemoryEntity} (hm' : m' ∈ u.flush.2.entities) :
    ∃ m ∈ u.entities, m.state ≠ .deleted ∧ m.Written m' := by
  obtain ⟨i, hi', hm'⟩ := List.mem_iff_getElem.mp hm'
  obtain ⟨hlength, hwritten⟩ := List.forall₂_iff_get.mp (forall₂_flush (u := u))
  have hi : i < (u.entities.filter fun m => m.state != .deleted).length :=
    hlength ▸ hi'
  obtain ⟨hm, hkept⟩ := List.mem_filter.mp (List.get_mem _ ⟨i, hi⟩)
  exact ⟨_, hm, by simpa using hkept, hm' ▸ hwritten i hi hi'⟩

theorem isPending_flush {m : MemoryEntity} (hm : m ∈ u.flush.2.entities) :
    m.isPending = false := by
  obtain ⟨before, -, hkept, hwritten⟩ := exists_written hm
  exact hwritten.isPending_eq_false hkept

theorem flush_of_settled (hsettled : ∀ m ∈ u.entities, m.isPending = false) :
    u.flush = (0, u) := by
  have hkept : u.entities.filter (fun m => m.state != .deleted) =
      u.entities := by
    refine List.filter_eq_self.mpr fun m hm => ?_
    rcases MemoryEntity.isPending_eq_false_iff.mp (hsettled m hm) with h | h <;>
      rw [h] <;> rfl
  simp only [flush, hkept, write_of_settled hsettled, Nat.sub_self]

/-- A flush tells how many rows were pending. Of the entities only the deleted
ones are gone; the others are still there in their order with what they had, the
pending ones settled and the new ones with keys in a row; and nothing else is
touched. Whoever flushes once more writes nothing. -/
theorem flush_writes_pending_once (hreached : u.Reachable)
    (hroom : u.nextKey.toInt + u.inserted.length < 2 ^ 63) :
    u.flush.1 = u.entities.countP (·.isPending) ∧
    (∀ m ∈ u.entities, u.flush.2.primaryKey m.entity = none ↔
      m.state = .deleted) ∧
    List.Forall₂ MemoryEntity.Written
      (u.entities.filter fun m => m.state != .deleted)
      u.flush.2.entities ∧
    (∀ (i : Nat) (e : EntityRef), u.inserted[i]? = some e → ∃ key : Int64,
      u.flush.2.primaryKey e = some (.int key) ∧
        key.toInt = u.nextKey.toInt + i) ∧
    u.flush.2.nextKey.toInt = u.nextKey.toInt + u.inserted.length ∧
    u.flush.2 = { u with entities := u.flush.2.entities,
                         nextKey := u.flush.2.nextKey } ∧
    u.flush.2.flush = (0, u.flush.2) := by
  have hnodup := hreached.inOrder.nodup
  refine ⟨count_write u.entities u.nextKey,
    fun m hm => primaryKey_flush_eq_none_iff hnodup hm, forall₂_flush,
    fun i e hi => ⟨u.keyAt i, primaryKey_flush_inserted hnodup hi, ?_⟩, ?_, rfl,
    flush_of_settled fun m hm => isPending_flush hm⟩
  · have hlast : i < u.inserted.length := (List.getElem?_eq_some_iff.mp hi).1
    exact toInt_keyAt (by omega)
  · rw [nextKey_flush, toInt_keyAt hroom]

namespace Sample

/-- Entities in every state there is. The fifth had a key, and is new by
force. -/
def everyState : List WorkCall :=
  [.edit (.add "Order" [("Total", .int 10)]),
    .edit (.attach "Order" (.int 70) [("Total", .int 1)]),
    .edit (.attach "Order" (.int 71) []),
    .edit (.attach "Order" (.int 72) [("Note", .null)]),
    .edit (.attach "Order" (.text "x") []),
    .edit (.attach "Order" (.int 73) []),
    .edit (.set ⟨2⟩ "Total" (.int 2)), .edit (.remove ⟨3⟩),
    .edit (.setState ⟨4⟩ .detached),
    .edit (.setState ⟨5⟩ .added)]

end Sample

theorem flush_writes_pending_once_every_state :
    let u := (new "req").run Sample.everyState
    u.Reachable ∧ u.nextKey.toInt + u.inserted.length < 2 ^ 63 ∧
      u.inserted = [⟨1⟩, ⟨5⟩] ∧
      u.flush.1 = 4 ∧ u.flush.2.primaryKey ⟨3⟩ = none ∧
      (∃ key : Int64, u.flush.2.primaryKey ⟨5⟩ = some (.int key) ∧
        key.toInt = 2) ∧
      u.flush.2.flush = (0, u.flush.2) := by
  intro u
  have hreached : u.Reachable := ⟨"req", Sample.everyState, rfl⟩
  have hroom : u.nextKey.toInt + u.inserted.length < 2 ^ 63 := by decide
  obtain ⟨hcount, hdeleted, -, hkeys, -, -, hagain⟩ :=
    flush_writes_pending_once hreached hroom
  refine ⟨hreached, hroom, by decide, hcount.trans (by decide), ?_,
    hkeys 1 ⟨5⟩ (by decide), hagain⟩
  obtain ⟨m, hm, hentity, hstate⟩ : ∃ m ∈ u.entities, m.entity = ⟨3⟩ ∧
      m.state = .deleted :=
    ⟨_, List.getElem_mem (n := 2) (by decide), by decide, by decide⟩
  exact hentity ▸ (hdeleted m hm).mpr hstate

end MemoryUnitOfWork
end AuditTrail

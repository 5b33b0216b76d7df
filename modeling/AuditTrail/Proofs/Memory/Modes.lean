import AuditTrail.Proofs.Memory.Digest

/-!
# With and without transactions

A coordinator that opens a transaction for each flush and one that opens none
take different ways through every call: one batches and commits, the other
delivers at once. The host sees no difference. At a fresh desk the first is
`Paired` and the second is `Outside`, in both situations the digest says what
is seen, and a digest knows nothing of the option.
-/

namespace AuditTrail

open History

/-- Whether or not the coordinator opens transactions, the host gets the same
results of its calls and the consumer is handed the same contents, slice by
slice. -/
theorem modes_deliver_same (registry : RuleRegistry) (scope : Option String)
    (context : String) {c c' : Circumstances} (hc : c.Uncancelled)
    (hc' : c'.Uncancelled) {script : List HostStep}
    (hsound : ∀ e, .edit e ∈ script → e.injects = false) :
    let fresh := Desk.new .initial (.new context)
    let opening := fresh.run ⟨registry, ⟨true⟩, scope⟩ c script
    let immediate := fresh.run ⟨registry, ⟨false⟩, scope⟩ c' script
    contents opening.history = contents immediate.history ∧
      opening.outcomes = immediate.outcomes := by
  intro fresh opening immediate
  have hpaired : fresh.Paired := ⟨rfl, rfl, rfl, rfl⟩
  have houtside : fresh.Outside ⟨registry, ⟨false⟩, scope⟩ := ⟨rfl, rfl, rfl⟩
  have hopening : opening.digest =
      fresh.digest.run ⟨registry, ⟨true⟩, scope⟩ script :=
    (Desk.digest_run (fun st hmem d hd =>
      hd.keeps hc fun e he => hsound e (he ▸ hmem)) hpaired).1
  have himmediate : immediate.digest =
      fresh.digest.run ⟨registry, ⟨false⟩, scope⟩ script :=
    (Desk.digest_run (fun st _ d hd => hd.keeps hc' st) houtside).1
  have hsame : opening.digest = immediate.digest :=
    hopening.trans himmediate.symm
  exact ⟨congrArg Digest.delivered hsame, congrArg Digest.outcomes hsame⟩

namespace Sample

/-- One flush is finished, one cannot be captured but is finished all the same,
one is canceled after it was captured twice, and one is finished. -/
def saves : List HostStep :=
  [.edit (.add "Order" [("Total", .int 10)]), .save .start, .edit .flush,
    .save .finish, .edit (.setState ⟨1⟩ .detached), .save .start, .edit .flush,
    .save .finish,
    .edit (.set ⟨1⟩ "Total" (.int 20)), .edit (.setState ⟨1⟩ .modified),
    .save .start, .save .start, .save (.abandon .canceled),
    .save .start, .edit .flush, .save .finish]

end Sample

/-- The consumer rejects what one of the coordinators delivers. -/
theorem modes_deliver_same_sample :
    let registry := (Sample.settings true).registry
    let fresh := Desk.new .initial (.new "req")
    let opening := fresh.run ⟨registry, ⟨true⟩, none⟩
      (Sample.circumstances (.error (.consumer "full"))) Sample.saves
    let immediate :=
      fresh.run ⟨registry, ⟨false⟩, none⟩ (Sample.circumstances (.ok ()))
        Sample.saves
    contents opening.history = contents immediate.history ∧
      opening.outcomes = immediate.outcomes ∧
      (contents immediate.history).length = 2 ∧
      (immediate.outcomes.filter (·.isOk)).length = 8 ∧
        immediate.outcomes.length = 9 ∧
      opening.work.stats = ⟨4, 3, 1⟩ ∧ immediate.work.stats = ⟨0, 0, 0⟩ := by
  have hsound : ∀ e, .edit e ∈ Sample.saves → e.injects = false := by
    simp [Sample.saves, Edit.injects]
  have hsame := modes_deliver_same (Sample.settings true).registry none "req"
    (Sample.uncancelled_circumstances (.error (.consumer "full")))
    (Sample.uncancelled_circumstances (.ok ())) hsound
  exact ⟨hsame.1, hsame.2, by decide +kernel, by decide +kernel,
    by decide +kernel, by decide +kernel, by decide +kernel⟩

end AuditTrail

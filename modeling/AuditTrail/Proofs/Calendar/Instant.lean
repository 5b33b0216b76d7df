import AuditTrail.Calendar.Instant
import AuditTrail.Proofs.Calendar.Date
import AuditTrail.Proofs.Text.Digits

/-!
# The text of an instant names no other

The text is cut from the front. The year ends at the first hyphen that is not
its sign, whatever its length; the fields behind it have two digits each; and
what is left then is the fraction, whose length tells how fine it is. What is
read off are the fields of the date, which `Date.toDays` counts back, and the
time of day, where a second sixty gives a leap second away. It takes the place
of a fraction of a second and more, so it is the one before that was counted.
-/

namespace AuditTrail.Instant

open Digits

/-! ## The year -/

/-- The sign in front of a year that has not just four digits. -/
def yearSign (year : Int) : List Char :=
  if 0 ≤ year ∧ year ≤ 9999 then [] else if year < 0 then ['-'] else ['+']

theorem yearText_eq (year : Int) :
    yearText year = yearSign year ++ padded 4 year.natAbs := by
  unfold yearText yearSign
  by_cases hplain : 0 ≤ year ∧ year ≤ 9999
  · rw [if_pos hplain, if_pos hplain, List.nil_append,
      show year.toNat = year.natAbs by omega]
  · rw [if_neg hplain, if_neg hplain]
    split <;> rfl

theorem minus_mem_yearSign_iff {year : Int} :
    '-' ∈ yearSign year ↔ year < 0 := by
  unfold yearSign
  split
  · exact iff_of_false List.not_mem_nil (by omega)
  · split
    · exact iff_of_true List.mem_cons_self ‹_›
    · exact iff_of_false (by decide) ‹_›

theorem yearSign_inj {year year' : Int} (hsign : yearSign year = yearSign year')
    (habs : year.natAbs = year'.natAbs) : year = year' := by
  have hneg : year < 0 ↔ year' < 0 := by
    rw [← minus_mem_yearSign_iff, hsign, minus_mem_yearSign_iff]
  omega

theorem takeWhile_yearText (year : Int) (rest : List Char) :
    (yearText year ++ rest).takeWhile (!·.isDigit) = yearSign year := by
  have hsign : ∀ c ∈ yearSign year, (!c.isDigit) = true := by
    unfold yearSign
    split
    · simp
    · split <;> simp
  have hne : padded 4 year.natAbs ≠ [] := padded_ne_nil
  obtain ⟨digit, digits, hdigits⟩ := List.exists_cons_of_ne_nil hne
  have hdigit : digit.isDigit = true :=
    isDigit_of_mem_padded (hdigits ▸ List.mem_cons_self)
  rw [yearText_eq, List.append_assoc, List.takeWhile_append_of_pos hsign,
    hdigits, List.cons_append, List.takeWhile_cons_of_neg (by simp [hdigit]),
    List.append_nil]

theorem takeWhile_padded (width n : Nat) (rest : List Char) :
    (padded width n ++ '-' :: rest).takeWhile Char.isDigit =
      padded width n := by
  rw [List.takeWhile_append_of_pos fun _ => isDigit_of_mem_padded,
    List.takeWhile_cons_of_neg (by decide), List.append_nil]

theorem yearText_append_inj {year year' : Int} {rest rest' : List Char}
    (h : yearText year ++ '-' :: rest = yearText year' ++ '-' :: rest') :
    year = year' ∧ rest = rest' := by
  have hsign : yearSign year = yearSign year' := by
    rw [← takeWhile_yearText year, h, takeWhile_yearText]
  rw [yearText_eq, yearText_eq, hsign, List.append_assoc,
    List.append_assoc] at h
  have h := List.append_cancel_left h
  have hdigits : padded 4 year.natAbs = padded 4 year'.natAbs := by
    rw [← takeWhile_padded 4 year.natAbs, h, takeWhile_padded]
  rw [hdigits] at h
  exact ⟨yearSign_inj hsign (padded_injective hdigits),
    (List.cons.inj (List.append_cancel_left h)).2⟩

/-! ## The fraction of a second -/

/-- The number of nanoseconds that a fraction writes. -/
def fractionNanos (fraction : List Char) : Nat :=
  Nat.ofDigitChars 10 fraction.tail 0 * 10 ^ (10 - fraction.length)

theorem fractionNanos_padded {width n : Nat} (hwidth : 0 < width)
    (hfits : n < 10 ^ width) :
    fractionNanos ('.' :: padded width n) = n * 10 ^ (9 - width) := by
  rw [fractionNanos, List.tail_cons, ofDigitChars_padded, List.length_cons,
    length_padded hwidth hfits, Nat.add_sub_add_right 9 1 width]

theorem fractionNanos_fractionText {nanos : Nat} (hnanos : nanos < 1000000000) :
    fractionNanos (fractionText nanos) = nanos := by
  unfold fractionText
  split
  · exact (‹nanos = 0›).symm ▸ rfl
  · split
    · rw [fractionNanos_padded (by decide) (by omega)]
      omega
    · split
      · rw [fractionNanos_padded (by decide) (by omega)]
        omega
      · rw [fractionNanos_padded (by decide) (by omega)]
        omega

/-! ## The whole text -/

theorem chars_injective : Function.Injective chars := by
  intro t t' h
  have hdate := Date.ofDays_bounds (t.seconds / 86400)
  have hdate' := Date.ofDays_bounds (t'.seconds / 86400)
  simp only [chars, List.append_assoc, List.cons_append] at h
  obtain ⟨hyear, h⟩ := yearText_append_inj h
  obtain ⟨hmonth, h⟩ := padded_append_inj (by decide) (by omega) (by omega) h
  obtain ⟨hday, h⟩ :=
    padded_append_inj (by decide) (by omega) (by omega) (List.cons.inj h).2
  obtain ⟨hhour, h⟩ :=
    padded_append_inj (by decide) (by omega) (by omega) (List.cons.inj h).2
  obtain ⟨hminute, h⟩ :=
    padded_append_inj (by decide) (by omega) (by omega) (List.cons.inj h).2
  obtain ⟨hsecond, h⟩ :=
    padded_append_inj (by decide) (by split <;> omega) (by split <;> omega)
      (List.cons.inj h).2
  have hdays : t.seconds / 86400 = t'.seconds / 86400 := by
    refine Date.ofDays_injective ?_
    rw [Date.mk.injEq]
    exact ⟨hyear, hmonth, hday⟩
  have hfraction := congrArg fractionNanos (List.append_cancel_right h)
  obtain ⟨seconds, nanos, hnanos, hleap⟩ := t
  obtain ⟨seconds', nanos', hnanos', hleap'⟩ := t'
  dsimp only at *
  rw [fractionNanos_fractionText (by split <;> omega),
    fractionNanos_fractionText (by split <;> omega)] at hfraction
  rw [Instant.mk.injEq]
  -- Which of the two is in a leap second is settled by the second that is
  -- written.
  by_cases hl : 1000000000 ≤ nanos <;> by_cases hl' : 1000000000 ≤ nanos' <;>
    simp only [hl, hl', if_true, if_false] at hsecond hfraction <;> omega

theorem text_injective : Function.Injective text :=
  fun _ _ h => chars_injective (String.ofList_injective h)

end AuditTrail.Instant

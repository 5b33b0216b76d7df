import AuditTrail.Calendar.Date
import Mathlib.Logic.Function.Basic

/-!
# Dates count days

Days are counted from a first of March at which an era of 400 years begins, so
that a day is a day of an era, then a day of a year that begins in March, then a
day of a month. `toDays` counts the other way round, and `toDays_ofDays` says
that nothing is lost on the way there and back: different days have different
dates.

The years are not of one length, and what has to be shown is that the division
by 365 finds the right one all the same (`daysBefore_yearOfEra_le`). Subtracting
the leap days that have gone by first, it can only be wrong about a year whose
last day is a leap day, and those are the ends of a four year cycle, a century
and the era.
-/

namespace AuditTrail.Date

/-- The year of an era that a day of the era is in. -/
def yearOfEra (dayOfEra : Nat) : Nat :=
  (dayOfEra - dayOfEra / 1460 + dayOfEra / 36524 - dayOfEra / 146096) / 365

/-- The days of an era before one of its years. -/
def daysBefore (yearOfEra : Nat) : Nat :=
  365 * yearOfEra + yearOfEra / 4 - yearOfEra / 100

/-- The number of days from 1970-01-01 to a date. -/
def toDays (date : Date) : Int :=
  let year := if date.month ≤ 2 then date.year - 1 else date.year
  let marchMonth := if date.month ≤ 2 then date.month + 9 else date.month - 3
  let dayOfYear := (153 * marchMonth + 2) / 5 + (date.day - 1)
  year / 400 * 146097 + (daysBefore (year % 400).toNat + dayOfYear : Nat) -
    719468

section Era

variable {dayOfEra : Nat}

theorem yearOfEra_lt (hera : dayOfEra < 146097) : yearOfEra dayOfEra < 400 := by
  unfold yearOfEra
  omega

/-- No day is before the year that it is in. -/
theorem daysBefore_yearOfEra_le (hera : dayOfEra < 146097) :
    daysBefore (yearOfEra dayOfEra) ≤ dayOfEra := by
  have hlast := yearOfEra_lt hera
  unfold daysBefore
  unfold yearOfEra at hlast ⊢
  generalize hyear :
    (dayOfEra - dayOfEra / 1460 + dayOfEra / 36524 - dayOfEra / 146096) / 365 =
      year at hlast ⊢
  refine Nat.le_of_not_lt fun hafter => ?_
  -- As many cycles of four years are over as there are before the year.
  have hcycles : year / 4 ≤ dayOfEra / 1460 := by omega
  -- So one century more than there are before the year would have to be over.
  have hcenturies : year / 100 + 1 ≤ dayOfEra / 36524 := by omega
  omega

/-- Nor is a day after it. -/
theorem dayOfYear_lt (hera : dayOfEra < 146097) :
    dayOfEra - daysBefore (yearOfEra dayOfEra) < 366 := by
  have hlast := yearOfEra_lt hera
  unfold daysBefore
  unfold yearOfEra at hlast ⊢
  generalize hyear :
    (dayOfEra - dayOfEra / 1460 + dayOfEra / 36524 - dayOfEra / 146096) / 365 =
      year at hlast ⊢
  refine Nat.lt_of_not_le fun hafter => ?_
  have hcycles : dayOfEra / 1460 ≤ year / 4 + 1 := by omega
  have hcenturies : dayOfEra / 36524 + 1 ≤ year / 100 + dayOfEra / 146096 := by
    omega
  omega

end Era

/-- The date of a day of a year that begins in March. -/
def ofMarch (year : Int) (dayOfYear : Nat) : Date :=
  let marchMonth := (5 * dayOfYear + 2) / 153
  let month := if marchMonth < 10 then marchMonth + 3 else marchMonth - 9
  ⟨if month ≤ 2 then year + 1 else year, month,
    dayOfYear - (153 * marchMonth + 2) / 5 + 1⟩

theorem ofDays_eq (days : Int) : ofDays days =
    let dayOfEra := ((days + 719468) % 146097).toNat
    ofMarch (yearOfEra dayOfEra + (days + 719468) / 146097 * 400)
      (dayOfEra - daysBefore (yearOfEra dayOfEra)) := rfl

section March

variable {year : Int} {dayOfYear : Nat}

theorem ofMarch_bounds (hday : dayOfYear < 366) :
    (ofMarch year dayOfYear).month ≤ 12 ∧
      (ofMarch year dayOfYear).day ≤ 31 := by
  have hmarch : (5 * dayOfYear + 2) / 153 < 12 := by omega
  dsimp only [ofMarch]
  constructor
  · split <;> omega
  · omega

theorem toDays_ofMarch (hday : dayOfYear < 366) :
    toDays (ofMarch year dayOfYear) =
      year / 400 * 146097 + (daysBefore (year % 400).toNat + dayOfYear : Nat) -
        719468 := by
  have hmarch : (5 * dayOfYear + 2) / 153 < 12 := by omega
  have hback : (153 * ((5 * dayOfYear + 2) / 153) + 2) / 5 ≤ dayOfYear := by
    omega
  unfold toDays ofMarch
  generalize (5 * dayOfYear + 2) / 153 = marchMonth at hmarch hback ⊢
  by_cases hautumn : marchMonth < 10
  · simp only [if_pos hautumn, show ¬ marchMonth + 3 ≤ 2 by omega, if_false]
    congr 4
    omega
  · simp only [if_neg hautumn, show marchMonth - 9 ≤ 2 by omega, if_true,
      Int.add_sub_cancel]
    congr 4
    omega

end March

/-- A date is in a month of the year and on a day of a month. -/
theorem ofDays_bounds (days : Int) :
    (ofDays days).month ≤ 12 ∧ (ofDays days).day ≤ 31 :=
  ofMarch_bounds (dayOfYear_lt (by omega))

theorem toDays_ofDays (days : Int) : toDays (ofDays days) = days := by
  have hera : ((days + 719468) % 146097).toNat < 146097 := by omega
  rw [ofDays_eq, toDays_ofMarch (dayOfYear_lt hera)]
  have hlast := yearOfEra_lt hera
  have hbefore := daysBefore_yearOfEra_le hera
  generalize hcount : ((days + 719468) % 146097).toNat = dayOfEra at *
  generalize yearOfEra dayOfEra = year at *
  have heras : ((year : Int) + (days + 719468) / 146097 * 400) / 400 =
      (days + 719468) / 146097 := by
    omega
  have hyear : (((year : Int) + (days + 719468) / 146097 * 400) % 400).toNat =
    year := by omega
  rw [heras, hyear, Nat.add_sub_cancel' hbefore]
  omega

theorem ofDays_injective : Function.Injective ofDays :=
  Function.LeftInverse.injective toDays_ofDays

end AuditTrail.Date

import AuditTrail.Calendar.Date
import AuditTrail.Text.Digits

/-!
# Instants

A point in time as a count of seconds since 1970-01-01T00:00:00Z and a fraction
of a second. A leap second has no count of its own: it is the second before it
with a fraction of a whole second or more, so only the last second of a minute
can carry one. The text is RFC 3339 in UTC with as few fraction digits as are
exact, in groups of three.
-/

namespace AuditTrail

/-- A point in time with nanosecond precision. -/
structure Instant where
  seconds : Int
  nanos : Nat
  nanos_lt : nanos < 2000000000
  leap_ends_minute : 1000000000 ≤ nanos → seconds % 60 = 59
  deriving DecidableEq

namespace Instant

/-- The instant with the given count, if there is one. -/
def ofCount? (seconds : Int) (nanos : Nat) : Option Instant :=
  if h : nanos < 2000000000 ∧ (1000000000 ≤ nanos → seconds % 60 = 59) then
    some ⟨seconds, nanos, h.1, h.2⟩
  else
    none

/-- 1970-01-01T00:00:00Z. -/
def epoch : Instant := ⟨0, 0, by decide, by decide⟩

/-- A year as four digits, or with a sign and at least four digits outside the
first ten thousand years. -/
def yearText (year : Int) : List Char :=
  if 0 ≤ year ∧ year ≤ 9999 then Digits.padded 4 year.toNat
  else (if year < 0 then '-' else '+') :: Digits.padded 4 year.natAbs

/-- The fraction of a second with the fewest digits among none, three, six and
nine. -/
def fractionText (nanos : Nat) : List Char :=
  if nanos = 0 then []
  else if nanos % 1000000 = 0 then '.' :: Digits.padded 3 (nanos / 1000000)
  else if nanos % 1000 = 0 then '.' :: Digits.padded 6 (nanos / 1000)
  else '.' :: Digits.padded 9 nanos

/-- The RFC 3339 text in UTC. A leap second is written as second sixty. -/
def chars (t : Instant) : List Char :=
  let date := Date.ofDays (t.seconds / 86400)
  let second := (t.seconds % 86400).toNat
  let leap := if 1000000000 ≤ t.nanos then 1 else 0
  yearText date.year ++ '-' :: Digits.padded 2 date.month
    ++ '-' :: Digits.padded 2 date.day
    ++ 'T' :: Digits.padded 2 (second / 3600)
    ++ ':' :: Digits.padded 2 (second / 60 % 60)
    ++ ':' :: Digits.padded 2 (second % 60 + leap)
    ++ fractionText (t.nanos - leap * 1000000000) ++ ['Z']

/-- The RFC 3339 text in UTC. -/
def text (t : Instant) : String := String.ofList t.chars

end Instant
end AuditTrail

import AuditTrail.Decimal.Shortest

/-!
# Reading decimals

The double nearest to a decimal. A decimal far outside the range of doubles is
answered without computing its power of ten, so that a short text with a huge
exponent costs nothing.
-/

namespace AuditTrail.Decimal

/-- The double nearest to the decimal, infinite when it is too large. -/
def toFloat (d : Decimal) : Float :=
  let leading := d.exponent + ((Digits.ofNat d.coefficient).length : Int)
  if d.coefficient = 0 then 0
  else if 310 < leading then Float.ofBits 0x7FF0000000000000
  else if leading < -330 then 0
  else match d.exponent with
    | .ofNat e => Float.ofScientific (d.coefficient * Nat.pow 10 e) false 0
    | .negSucc e => Float.ofScientific d.coefficient true (e + 1)

/-- The decimal `whole.fraction * 10 ^ exponent`, from its digits. -/
def ofDigits (whole fraction : List Nat) (exponent : Int) : Decimal :=
  ⟨Digits.value 10 (whole ++ fraction), exponent - (fraction.length : Int)⟩

end AuditTrail.Decimal

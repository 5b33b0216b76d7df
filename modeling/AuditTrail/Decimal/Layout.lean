import AuditTrail.Decimal.Shortest

/-!
# Layouts of a double

The digits of a double are settled by `Decimal.shortest`; how they are laid out
is the choice of the text that holds them. A `FloatLayout` states these choices.
There are two: the layout of numbers in JSON, and the layout of numbers in key
texts.
-/

namespace AuditTrail

/-- The choices a text makes when it writes a double. -/
structure FloatLayout where
  /-- Which of two equally near decimals is written. -/
  tie : Tie
  /-- The range of decimal exponents written without an exponent, or none when
  all are. -/
  positional : Option (Int × Int)
  /-- What follows a whole number. -/
  wholeEnding : List Char

namespace FloatLayout

/-- Numbers in JSON: positional from five leading zeros up to sixteen whole
digits, and a whole number keeps one fraction digit, so that it reads back as a
fraction. -/
def json : FloatLayout := ⟨.even, some (-5, 15), ['.', '0']⟩

/-- Numbers in key texts: always positional, and a whole number looks like an
integer. -/
def key : FloatLayout := ⟨.up, none, []⟩

/-- Digits laid out around a decimal point, for the number
`digits * 10 ^ exponent`. -/
def point (wholeEnding digits : List Char) (exponent : Int) : List Char :=
  if 0 ≤ exponent then
    digits ++ List.replicate exponent.toNat '0' ++ wholeEnding
  else
    let places := (-exponent).toNat
    if places < digits.length then
      digits.take (digits.length - places) ++
        '.' :: digits.drop (digits.length - places)
    else '0' :: '.' :: (List.replicate (places - digits.length) '0' ++ digits)

/-- Digits with one in front of the point and an exponent with its sign. -/
def scientific (digits : List Char) (exponent : Int) : List Char :=
  let mantissa := match digits with
    | [] => []
    | [d] => [d]
    | d :: rest => d :: '.' :: rest
  let sign := if exponent < 0 then '-' else '+'
  mantissa ++ 'e' :: sign :: Digits.ofNat exponent.natAbs

/-- The text of a decimal in this layout. -/
def decimal (layout : FloatLayout) (d : Decimal) : List Char :=
  let digits := Digits.ofNat d.coefficient
  let leading := d.exponent + (digits.length : Int) - 1
  match layout.positional with
  | none => point layout.wholeEnding digits d.exponent
  | some (least, greatest) =>
    if least ≤ leading ∧ leading ≤ greatest then
      point layout.wholeEnding digits d.exponent
    else scientific digits leading

/-- The text of a finite double given by its bits. -/
def finite (layout : FloatLayout) (bits : UInt64) : List Char :=
  let b := Binary.ofBits bits
  let magnitude :=
    if b.mantissa = 0 then '0' :: layout.wholeEnding
    else layout.decimal (Decimal.shortest layout.tie b)
  if bits.toNat / Nat.pow 2 63 = 1 then '-' :: magnitude else magnitude

end FloatLayout

/-- The text of a double inside a key: positional digits, or a name for what has
none. -/
def floatKeyText (f : Float) : List Char :=
  if f.isNaN then ['N', 'a', 'N']
  else if f.isInf then (if f < 0 then ['-', 'i', 'n', 'f'] else ['i', 'n', 'f'])
  else FloatLayout.key.finite f.toBits

end AuditTrail

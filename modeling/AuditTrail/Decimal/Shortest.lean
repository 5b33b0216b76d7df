import AuditTrail.Text.Digits

/-!
# Shortest decimals

A double stands for an interval of reals: all that round to it. Its shortest
decimal is the number with the fewest digits in that interval, and of those with
the fewest the one nearest to the double itself. The search needs exact
arithmetic only. For one digit, two digits and so on it takes the two neighbours
of the double on the grid of decimals with that many digits; the first grid with
a neighbour in the interval wins. Seventeen digits always suffice.
-/

namespace AuditTrail

/-- The number `coefficient * 10 ^ exponent`. -/
structure Decimal where
  coefficient : Nat
  exponent : Int
  deriving DecidableEq, Repr

/-- The positive number `mantissa * 2 ^ exponent`, as the bits of a double give
it. -/
structure Binary where
  mantissa : Nat
  exponent : Int
  deriving DecidableEq, Repr

namespace Binary

/-- The magnitude that the bits of a finite double stand for; the sign bit is
ignored. -/
def ofBits (bits : UInt64) : Binary :=
  let fraction : Nat := bits.toNat % Nat.pow 2 52
  let biased : Nat := bits.toNat / Nat.pow 2 52 % Nat.pow 2 11
  if biased = 0 then ⟨fraction, -1074⟩
  else ⟨fraction + Nat.pow 2 52, Int.ofNat biased - 1075⟩

/-- The upper end of the interval that rounds to the number, in quarters of its
last place. -/
def upper (b : Binary) : Nat := 4 * b.mantissa + 2

/-- The lower end of the interval, in quarters of the last place. Just below a
power of two the doubles are twice as dense, so there the interval is
shorter. -/
def lower (b : Binary) : Nat :=
  if b.mantissa = Nat.pow 2 52 ∧ -1074 < b.exponent then 4 * b.mantissa - 1
  else 4 * b.mantissa - 2

/-- The ends belong to the interval when the mantissa is even, since a tie
rounds to the even neighbour. -/
def closed (b : Binary) : Bool := b.mantissa % 2 == 0

/-- The greatest `e` with `10 ^ e` at most the number. -/
def magnitude (b : Binary) : Int :=
  let whole :=
    b.mantissa * Nat.pow 2 b.exponent.toNat / Nat.pow 2 (-b.exponent).toNat
  if 0 < whole then ((Digits.ofNat whole).length : Int) - 1
  else
    let inverse := (Nat.pow 2 (-b.exponent).toNat + b.mantissa - 1) / b.mantissa
    Int.neg (Digits.ofNat (inverse - 1)).length

end Binary

/-- Which of two decimals at the same distance is taken. -/
inductive Tie where
  | even
  | up
  deriving DecidableEq, Repr

namespace Decimal

/-- The decimal with trailing zeros moved into the exponent; `fuel` bounds the
number of zeros. -/
def stripZeros : Nat → Decimal → Decimal
  | 0, d => d
  | fuel + 1, d =>
    if d.coefficient ≠ 0 ∧ d.coefficient % 10 = 0 then
      stripZeros fuel ⟨d.coefficient / 10, d.exponent + 1⟩
    else
      d

/-- The neighbour of the number on the grid of multiples of `10 ^ k`, if one
lies in the interval that rounds to it. Both sides of each comparison are scaled
by the same factor, so that only whole numbers are compared. -/
def onGrid? (tie : Tie) (b : Binary) (k : Int) : Option Decimal :=
  let a := Nat.pow 2 (b.exponent - 2).toNat * Nat.pow 10 (-k).toNat
  let d := Nat.pow 2 (2 - b.exponent).toNat * Nat.pow 10 k.toNat
  let below := 4 * b.mantissa * a / d
  let above := below + 1
  let inside (n : Nat) : Bool :=
    (b.lower * a < n * d && n * d < b.upper * a) ||
      (b.closed && (n * d == b.lower * a || n * d == b.upper * a))
  match inside below, inside above with
  | false, false => none
  | true, false => some ⟨below, k⟩
  | false, true => some ⟨above, k⟩
  | true, true =>
    match compare (2 * (4 * b.mantissa * a)) ((below + above) * d) with
    | .lt => some ⟨below, k⟩
    | .gt => some ⟨above, k⟩
    | .eq => match tie with
      | .up => some ⟨above, k⟩
      | .even => some ⟨if below % 2 = 0 then below else above, k⟩

/-- The first grid with a hit, from the given number of digits on, over at most
`fuel` grids. -/
def search (tie : Tie) (b : Binary) (magnitude : Int) :
    Nat → Nat → Option Decimal
  | 0, _ => none
  | fuel + 1, digits =>
    match onGrid? tie b (magnitude + 1 - digits) with
    | some d => some d
    | none => search tie b magnitude fuel (digits + 1)

/-- The shortest decimal of a positive number. -/
def shortest (tie : Tie) (b : Binary) : Decimal :=
  match search tie b b.magnitude 17 1 with
  | some d => stripZeros 400 d
  | none => ⟨0, 0⟩

end Decimal
end AuditTrail

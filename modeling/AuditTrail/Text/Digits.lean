/-!
# Digits

Numbers written in base ten and bytes written in base sixteen, as lists of
characters so that a text is built by appending and read by recursion on the
list. Decimal text has no sign and no leading zero; `padded` adds the zeros a
fixed field asks for and never cuts a number that is too long for it.
-/

namespace AuditTrail.Digits

/-- The base ten text of a number. -/
def ofNat (n : Nat) : List Char := Nat.toDigits 10 n

/-- The base ten text of an integer, with a minus sign in front of a negative
one. -/
def ofInt : Int → List Char
  | .ofNat n => ofNat n
  | .negSucc n => '-' :: ofNat (n + 1)

/-- The base ten text of a number, with zeros in front up to the given width. -/
def padded (width n : Nat) : List Char :=
  let digits := ofNat n
  List.replicate (width - digits.length) '0' ++ digits

/-- The value of a decimal digit. -/
def decimal? (c : Char) : Option Nat :=
  if '0' ≤ c ∧ c ≤ '9' then some (c.toNat - '0'.toNat) else none

/-- The number that a list of digit values writes in the given base, most
significant digit first. -/
def value (base : Nat) (digits : List Nat) : Nat :=
  digits.foldl (fun n d => n * base + d) 0

/-- The lower case character of a hexadecimal digit. -/
def hexChar (n : Nat) : Char :=
  if n < 10 then Char.ofNat ('0'.toNat + n)
  else Char.ofNat ('a'.toNat + (n - 10))

/-- The value of a hexadecimal digit in either case. -/
def hex? (c : Char) : Option Nat :=
  if '0' ≤ c ∧ c ≤ '9' then some (c.toNat - '0'.toNat)
  else if 'a' ≤ c ∧ c ≤ 'f' then some (c.toNat - 'a'.toNat + 10)
  else if 'A' ≤ c ∧ c ≤ 'F' then some (c.toNat - 'A'.toNat + 10)
  else none

/-- The lower case base sixteen text of a number, without leading zeros. -/
def hexOfNat (n : Nat) : List Char := Nat.toDigits 16 n

/-- Two lower case digits for every byte. -/
def hexOfBytes : List UInt8 → List Char
  | [] => []
  | b :: rest =>
      hexChar (b.toNat / 16) :: hexChar (b.toNat % 16) :: hexOfBytes rest

/-- The bytes that pairs of digits write; an odd digit or a foreign character
has no reading. -/
def bytes? : List Char → Option (List UInt8)
  | [] => some []
  | [_] => none
  | hi :: lo :: rest => do
    let h ← hex? hi
    let l ← hex? lo
    let bytes ← bytes? rest
    return UInt8.ofNat (16 * h + l) :: bytes

end AuditTrail.Digits

import AuditTrail.Text.Digits

/-!
# UUIDs

A UUID is 128 bits. It is written as 32 lower case hexadecimal digits in five
groups. Four spellings are read: the groups with hyphens, the digits without,
the groups in braces, and the groups behind `urn:uuid:`; the digits and that
prefix may be in either case.
-/

namespace AuditTrail

/-- A universally unique identifier. -/
structure Uuid where
  bits : BitVec 128
  deriving DecidableEq

namespace Uuid

/-- The identifier whose bits are all zero. -/
def nil : Uuid := ⟨0⟩

/-- The values of the 32 hexadecimal digits, most significant first. -/
def nibbles (u : Uuid) : List Nat :=
  (List.range 32).map fun i => u.bits.toNat / Nat.pow 16 (31 - i) % 16

/-- The identifier that hexadecimal digit values write. -/
def ofNibbles (digits : List Nat) : Uuid :=
  ⟨BitVec.ofNat 128 (Digits.value 16 digits)⟩

/-- Thirty-two characters in groups of eight, four, four, four and twelve,
joined by hyphens. -/
def hyphenated (cs : List Char) : List Char :=
  cs.take 8 ++ '-' :: (cs.drop 8).take 4 ++ '-' :: (cs.drop 12).take 4
    ++ '-' :: (cs.drop 16).take 4 ++ '-' :: cs.drop 20

/-- The canonical text: lower case with hyphens. -/
def chars (u : Uuid) : List Char := hyphenated (u.nibbles.map Digits.hexChar)

/-- The canonical text: lower case with hyphens. -/
def text (u : Uuid) : String := String.ofList u.chars

/-- Reads exactly 32 hexadecimal digits. -/
def ofSimple? (cs : List Char) : Option Uuid :=
  if cs.length = 32 then (cs.mapM Digits.hex?).map ofNibbles else none

/-- Reads exactly 36 characters with hyphens in the four places between the
groups. -/
def ofHyphenated? (cs : List Char) : Option Uuid :=
  let groups :=
    cs.take 8 ++ (cs.drop 9).take 4 ++ (cs.drop 14).take 4 ++
      (cs.drop 19).take 4 ++ cs.drop 24
  if cs.length = 36 ∧ cs[8]? = some '-' ∧ cs[13]? = some '-' ∧
      cs[18]? = some '-' ∧ cs[23]? = some '-' then
    ofSimple? groups
  else none

/-- The name space in front of an identifier written as a resource name. -/
def urnPrefix : List Char := ['u', 'r', 'n', ':', 'u', 'u', 'i', 'd', ':']

/-- Reads any of the four spellings. -/
def ofChars? (cs : List Char) : Option Uuid :=
  if (cs.take urnPrefix.length).map Char.toLower = urnPrefix then
    ofHyphenated? (cs.drop urnPrefix.length)
  else if cs.head? = some '\x7b' then
    if cs.getLast? = some '\x7d' then ofHyphenated? cs.tail.dropLast else none
  else if cs.length = 32 then ofSimple? cs
  else ofHyphenated? cs

/-- Reads any of the four spellings. -/
def ofText? (s : String) : Option Uuid := ofChars? s.toList

end Uuid
end AuditTrail

import AuditTrail.Text.Digits

/-!
# UTF-8

Reading bytes as text, with the exact place and size of the first fault. A fault
is *incomplete* when the bytes end inside a character that could still have
become well formed, and *invalid* otherwise; the size of an invalid sequence is
the number of bytes that could have begun a character before the one that rules
it out, at least one.
-/

namespace AuditTrail.Utf8

/-- Why bytes are not text. The index counts the bytes of the well formed text
before the fault. -/
inductive Fault where
  | invalid (length index : Nat)
  | incomplete (index : Nat)
  deriving DecidableEq, Repr

namespace Fault

/-- The wording of a fault. -/
def message : Fault → String
  | invalid length index =>
      "invalid utf-8 sequence of " ++ toString length ++ " bytes from index " ++
        toString index
  | incomplete index =>
      "incomplete utf-8 byte sequence from index " ++ toString index

/-- The same fault in a longer text, behind the given number of bytes. -/
def shift (n : Nat) : Fault → Fault
  | invalid length index => invalid length (n + index)
  | incomplete index => incomplete (n + index)

end Fault

/-- The bytes that continue a character. -/
def isTail (b : UInt8) : Bool := 0x80 ≤ b && b ≤ 0xBF

/-- The six bits a continuation byte carries. -/
def tailBits (b : UInt8) : Nat := b.toNat % 64

/-- Whether a second byte may follow the first byte of a three byte character:
no overlong form, no surrogate. -/
def secondOfThree (first second : UInt8) : Bool :=
  isTail second && !(first == 0xE0 && second < 0xA0) &&
    !(first == 0xED && 0xA0 ≤ second)

/-- Whether a second byte may follow the first byte of a four byte character: no
overlong form, nothing beyond the last plane. -/
def secondOfFour (first second : UInt8) : Bool :=
  isTail second && !(first == 0xF0 && second < 0x90) &&
    !(first == 0xF4 && 0x90 ≤ second)

/-- The number of bytes of the character that a first byte announces, or none
for a byte that begins no character. -/
def announced (b : UInt8) : Option Nat :=
  if b < 0x80 then some 1
  else if 0xC2 ≤ b && b ≤ 0xDF then some 2
  else if 0xE0 ≤ b && b ≤ 0xEF then some 3
  else if 0xF0 ≤ b && b ≤ 0xF4 then some 4
  else none

/-- The first character of a nonempty list of bytes and the bytes behind it, or
the fault at index zero. -/
def next (b : UInt8) (rest : List UInt8) : Except Fault (Char × List UInt8) :=
  match announced b with
  | some 1 => .ok (Char.ofNat b.toNat, rest)
  | some 2 =>
    match rest with
    | [] => .error (.incomplete 0)
    | c :: rest =>
      if !isTail c then .error (.invalid 1 0)
      else .ok (Char.ofNat (b.toNat % 32 * 64 + tailBits c), rest)
  | some 3 =>
    match rest with
    | [] => .error (.incomplete 0)
    | c :: rest =>
      if !secondOfThree b c then .error (.invalid 1 0)
      else match rest with
        | [] => .error (.incomplete 0)
        | d :: rest =>
          if !isTail d then .error (.invalid 2 0)
          else .ok (Char.ofNat
            ((b.toNat % 16 * 64 + tailBits c) * 64 + tailBits d), rest)
  | some _ =>
    match rest with
    | [] => .error (.incomplete 0)
    | c :: rest =>
      if !secondOfFour b c then .error (.invalid 1 0)
      else match rest with
        | [] => .error (.incomplete 0)
        | d :: rest =>
          if !isTail d then .error (.invalid 2 0)
          else match rest with
            | [] => .error (.incomplete 0)
            | e :: rest =>
              if !isTail e then .error (.invalid 3 0)
              else .ok (Char.ofNat
                (((b.toNat % 8 * 64 + tailBits c) * 64 + tailBits d) * 64 +
                  tailBits e), rest)
  | none => .error (.invalid 1 0)

/-- Reading one character uses up at least its first byte. -/
theorem length_next_le {b : UInt8} {rest : List UInt8} {c : Char}
    {behind : List UInt8} (h : next b rest = .ok (c, behind)) :
    behind.length ≤ rest.length := by
  unfold next at h
  repeat' split at h
  all_goals
    cases h
    try simp only [List.length_cons]
    try omega

/-- The characters that bytes write, or the first fault with its index counted
from the given offset. -/
def chars (bytes : List UInt8) (offset : Nat) : Except Fault (List Char) :=
  match bytes with
  | [] => .ok []
  | b :: rest =>
    match _read : next b rest with
    | .error fault => .error (fault.shift offset)
    | .ok (c, behind) =>
      match chars behind (offset + (rest.length + 1 - behind.length)) with
      | .error fault => .error fault
      | .ok cs => .ok (c :: cs)
termination_by bytes.length
decreasing_by
  have := length_next_le _read
  simp only [List.length_cons]
  omega

/-- The text that bytes write, or the first fault. -/
def decode (bytes : List UInt8) : Except Fault String :=
  (chars bytes 0).map String.ofList

/-- The bytes of a text. -/
def encode (s : String) : List UInt8 := s.toUTF8.toList

end AuditTrail.Utf8

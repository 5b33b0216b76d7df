import AuditTrail.Decimal.Layout
import AuditTrail.Json.Basic

/-!
# Compact JSON text

One text for every value, without spaces. A string escapes the quote, the
backslash and the characters below U+0020, five of them with a letter and the
others with four hexadecimal digits; every other character stands for itself. A
double that is not a number or not finite has no text of its own and is written
as `null`.
-/

namespace AuditTrail.Json

/-- A character inside a string. -/
def escape (c : Char) : List Char :=
  if c = '"' then ['\\', '"']
  else if c = '\\' then ['\\', '\\']
  else if c = '\x08' then ['\\', 'b']
  else if c = '\x0c' then ['\\', 'f']
  else if c = '\n' then ['\\', 'n']
  else if c = '\r' then ['\\', 'r']
  else if c = '\t' then ['\\', 't']
  else if c.toNat < 32 then
    ['\\', 'u', '0', '0', Digits.hexChar (c.toNat / 16),
      Digits.hexChar (c.toNat % 16)]
  else [c]

/-- A string in quotes. -/
def quoted (s : String) : List Char :=
  '"' :: s.toList.flatMap escape ++ ['"']

/-- A double as a JSON number, or `null` when it has none. -/
def floatChars (f : Float) : List Char :=
  if f.isFinite then FloatLayout.json.finite f.toBits else ['n', 'u', 'l', 'l']

mutual

/-- The compact text of a value. -/
def chars : Json → List Char
  | null => ['n', 'u', 'l', 'l']
  | bool true => ['t', 'r', 'u', 'e']
  | bool false => ['f', 'a', 'l', 's', 'e']
  | int i => Digits.ofInt i
  | float f => floatChars f
  | string s => quoted s
  | array [] => ['[', ']']
  | array (a :: rest) => '[' :: chars a ++ itemsChars rest
  | object [] => ['\x7b', '\x7d']
  | object ((n, a) :: rest) =>
      '\x7b' :: quoted n ++ ':' :: chars a ++ membersChars rest

/-- The items behind the first one, with the closing bracket. -/
def itemsChars : List Json → List Char
  | [] => [']']
  | a :: rest => ',' :: chars a ++ itemsChars rest

/-- The members behind the first one, with the closing brace. -/
def membersChars : List (String × Json) → List Char
  | [] => ['\x7d']
  | (n, a) :: rest => ',' :: quoted n ++ ':' :: chars a ++ membersChars rest

end

/-- The compact text of a value. -/
def text (j : Json) : String := String.ofList j.chars

end AuditTrail.Json

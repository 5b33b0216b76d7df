import AuditTrail.Text.Digits
import AuditTrail.Text.Printable

/-!
# Quoted text

Text in double quotes as a developer reads it. The quote, the backslash and the
common controls are escaped with a letter, every other control or unprintable
character with its code point in braces; a single quote stands for itself.
-/

namespace AuditTrail.Quoted

/-- A character with its code point in braces. -/
def codePoint (c : Char) : List Char :=
  '\\' :: 'u' :: '\x7b' :: Digits.hexOfNat c.toNat ++ ['\x7d']

/-- A character inside quotes. -/
def escape (c : Char) : List Char :=
  if c = '"' then ['\\', '"']
  else if c = '\\' then ['\\', '\\']
  else if c = '\x00' then ['\\', '0']
  else if c = '\t' then ['\\', 't']
  else if c = '\r' then ['\\', 'r']
  else if c = '\n' then ['\\', 'n']
  else if c.toNat < 32 then codePoint c
  else if c.toNat < 127 then [c]
  else if Printable.isHidden c then codePoint c
  else [c]

/-- The text in quotes. -/
def text (s : String) : String :=
  String.ofList ('"' :: s.toList.flatMap escape ++ ['"'])

end AuditTrail.Quoted

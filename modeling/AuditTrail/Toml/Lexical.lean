import AuditTrail.Calendar.Date
import AuditTrail.Decimal.Reading

/-!
# The words of TOML

Blanks, comments, line ends, keys and the values that are written on their own:
strings, numbers, dates and times. Each reader takes what it recognises off the
front of a text and gives the text behind. Of the values only their being well
formed is kept; the text of a string matters where it is a key.

A line ends with a line feed, with or without a carriage return before it.
Controls other than the tab are allowed nowhere.
-/

namespace AuditTrail.Toml

/-! ## Blanks and line ends -/

/-- Whether a character may stand in comments and strings: the tab and
everything that is not a control. -/
def isPlain (c : Char) : Bool := c == '\t' || (32 ≤ c.toNat && c.toNat != 127)

/-- The text without the spaces and tabs in front. -/
def skipBlanks (cs : List Char) : List Char :=
  cs.dropWhile fun c => c == ' ' || c == '\t'

/-- The text behind a line end. -/
def newline? : List Char → Option (List Char)
  | '\n' :: rest => some rest
  | '\r' :: '\n' :: rest => some rest
  | _ => none

/-- The text behind a line end, or the end of the text. -/
def newlineOrEnd? : List Char → Option (List Char)
  | [] => some []
  | cs => newline? cs

/-- The text behind what may follow an expression: blanks, a comment, and the
end of the line. -/
def lineEnd? (cs : List Char) : Option (List Char) :=
  match skipBlanks cs with
  | '#' :: rest => newlineOrEnd? (rest.dropWhile isPlain)
  | rest => newlineOrEnd? rest

/-- The text behind any number of blanks, comments and line ends. -/
def skipLines? : Nat → List Char → Option (List Char)
  | 0, _ => none
  | fuel + 1, cs =>
    match skipBlanks cs with
    | '#' :: rest => (newline? (rest.dropWhile isPlain)).bind (skipLines? fuel)
    | '\n' :: rest => skipLines? fuel rest
    | '\r' :: rest => (newline? ('\r' :: rest)).bind (skipLines? fuel)
    | rest => some rest

/-! ## Strings -/

/-- The character of a code point given by hexadecimal digits. -/
def scalar? (digits : List Char) : Option Char := do
  let values ← digits.mapM Digits.hex?
  let n := Digits.value 16 values
  if n < 0xD800 ∨ (0xDFFF < n ∧ n < 0x110000) then some (Char.ofNat n) else none

/-- The character that an escape stands for, without its backslash. -/
def escape? : List Char → Option (Char × List Char)
  | 'b' :: rest => some ('\x08', rest)
  | 'f' :: rest => some ('\x0c', rest)
  | 'n' :: rest => some ('\n', rest)
  | 'r' :: rest => some ('\r', rest)
  | 't' :: rest => some ('\t', rest)
  | '\\' :: rest => some ('\\', rest)
  | '"' :: rest => some ('"', rest)
  | 'u' :: rest =>
      if rest.length < 4 then none
      else (scalar? (rest.take 4)).map fun c => (c, rest.drop 4)
  | 'U' :: rest =>
      if rest.length < 8 then none
      else (scalar? (rest.take 8)).map fun c => (c, rest.drop 8)
  | _ => none

/-- A string in double quotes, behind the first of them. -/
def basic? : Nat → List Char → Option (List Char × List Char)
  | 0, _ => none
  | _ + 1, [] => none
  | _ + 1, '"' :: rest => some ([], rest)
  | fuel + 1, '\\' :: rest => do
    let (c, behind) ← escape? rest
    let (cs, behind) ← basic? fuel behind
    return (c :: cs, behind)
  | fuel + 1, c :: rest =>
    if isPlain c then
      (basic? fuel rest).map fun (cs, behind) => (c :: cs, behind)
    else
      none

/-- A string in single quotes, behind the first of them. Nothing is escaped. -/
def literal? : List Char → Option (List Char × List Char)
  | [] => none
  | '\x27' :: rest => some ([], rest)
  | c :: rest =>
      if isPlain c then
        (literal? rest).map fun (cs, behind) => (c :: cs, behind)
      else
        none

/-- The text behind a line end and all blanks and line ends after it, as a
backslash at the end of a line skips them. -/
def continued? (cs : List Char) : Option (List Char) := do
  let rest ← newline? (skipBlanks cs)
  return skip rest.length rest
where
  /-- The text behind blanks and line ends. -/
  skip : Nat → List Char → List Char
    | 0, cs => cs
    | fuel + 1, cs =>
      match skipBlanks cs with
      | '\n' :: rest => skip fuel rest
      | '\r' :: '\n' :: rest => skip fuel rest
      | rest => rest

/-- A string between threefold quotes, behind the first three. One or two quotes
stand for themselves, also right before the closing three. With double quotes a
backslash escapes, and one at the end of a line skips to the next text. -/
def multiline? (quote : Char) : Nat → List Char → Option (List Char)
  | 0, _ => none
  | _ + 1, [] => none
  | fuel + 1, c :: rest =>
    if c = quote then
      let run := ((c :: rest).takeWhile (· == quote)).length
      if 3 ≤ run then some ((c :: rest).drop (min run 5))
      else multiline? quote fuel ((c :: rest).drop run)
    else if c = '\\' ∧ quote = '"' then
      match continued? rest with
      | some behind => multiline? quote fuel behind
      | none =>
          (escape? rest).bind fun (_, behind) => multiline? quote fuel behind
    else match newline? (c :: rest) with
      | some behind => multiline? quote fuel behind
      | none => if isPlain c then multiline? quote fuel rest else none

/-- The text behind a string of any form. -/
def string? (cs : List Char) : Option (List Char) :=
  match cs with
  | '"' :: '"' :: '"' :: rest => multiline? '"' (rest.length + 1) rest
  | '\x27' :: '\x27' :: '\x27' :: rest =>
      multiline? '\x27' (rest.length + 1) rest
  | '"' :: rest => (basic? (rest.length + 1) rest).map Prod.snd
  | '\x27' :: rest => (literal? rest).map Prod.snd
  | _ => none

/-! ## Keys -/

/-- Whether a character may stand in a key without quotes. -/
def isBare (c : Char) : Bool :=
  ('a' ≤ c && c ≤ 'z') || ('A' ≤ c && c ≤ 'Z') || ('0' ≤ c && c ≤ '9') ||
    c == '-' || c == '_'

/-- A key without dots. -/
def simpleKey? (cs : List Char) : Option (String × List Char) :=
  match cs with
  | '"' :: rest =>
      (basic? (rest.length + 1) rest).map fun (name, behind) =>
        (String.ofList name, behind)
  | '\x27' :: rest =>
      (literal? rest).map fun (name, behind) => (String.ofList name, behind)
  | _ =>
    let name := cs.takeWhile isBare
    if name.isEmpty then none
    else some (String.ofList name, cs.dropWhile isBare)

/-- The parts of a dotted key, with blanks around them. -/
def keyParts? : Nat → List Char → Option (List String × List Char)
  | 0, _ => none
  | fuel + 1, cs => do
    let (name, behind) ← simpleKey? (skipBlanks cs)
    match skipBlanks behind with
    | '.' :: rest =>
      let (names, behind) ← keyParts? fuel rest
      return (name :: names, behind)
    | rest => return ([name], rest)

/-- The number of parts that a key may not reach, and of containers within each
other that a value may not reach. -/
def depthLimit : Nat := 80

/-- A dotted key of fewer parts than the limit. -/
def key? (cs : List Char) : Option (List String × List Char) := do
  let (names, behind) ← keyParts? (cs.length + 1) cs
  if names.length < depthLimit then some (names, behind) else none

/-! ## Numbers -/

/-- Digits of a base, with single underscores between them: their values and the
text behind. -/
def digitRun (digit? : Char → Option Nat) : List Char → List Nat × List Char
  | [] => ([], [])
  | '_' :: c :: rest =>
    match digit? c with
    | some d => let (ds, behind) := digitRun digit? rest; (d :: ds, behind)
    | none => ([], '_' :: c :: rest)
  | c :: rest =>
    match digit? c with
    | some d => let (ds, behind) := digitRun digit? rest; (d :: ds, behind)
    | none => ([], c :: rest)

/-- At least one digit, the first without an underscore before it. -/
def someDigits? (digit? : Char → Option Nat) :
    List Char → Option (List Nat × List Char)
  | [] => none
  | c :: rest => do
    let d ← digit? c
    let (ds, behind) := digitRun digit? rest
    return (d :: ds, behind)

/-- The value of a digit of a base up to ten. -/
def digitBelow? (base : Nat) (c : Char) : Option Nat :=
  (Digits.decimal? c).filter (· < base)

/-- The text behind a sign, if there is one, and whether it is a minus. -/
def sign : List Char → Bool × List Char
  | '-' :: rest => (true, rest)
  | '+' :: rest => (false, rest)
  | cs => (false, cs)

/-- The digits of a decimal number without its sign. Only the number zero begins
with a zero. -/
def whole? : List Char → Option (List Nat × List Char)
  | '0' :: rest => some ([0], rest)
  | cs => someDigits? Digits.decimal? cs

/-- The text behind a number of a base, if it is in the range of signed 64 bit
numbers. -/
def based? (base : Nat) (digit? : Char → Option Nat) (cs : List Char) :
    Option (List Char) := do
  let (ds, behind) ← someDigits? digit? cs
  if Digits.value base ds < Nat.pow 2 63 then some behind else none

/-- The exponent of a number, if the text has one here. -/
def exponent? : List Char → Option (Int × List Char)
  | c :: rest =>
    if c = 'e' ∨ c = 'E' then do
      let (negative, behind) := sign rest
      let (ds, behind) ← someDigits? Digits.decimal? behind
      let n := Digits.value 10 ds
      return (if negative then -(n : Int) else n, behind)
    else none
  | [] => none

/-- The text behind a number with a fraction or an exponent. One that is too
large to be finite is refused, unless it is negative. -/
def float? (cs : List Char) : Option (List Char) := do
  let (negative, behind) := sign cs
  let (whole, behind) ← whole? behind
  let (fraction, behind) ← match behind with
    | '.' :: rest => someDigits? Digits.decimal? rest
    | _ => some ([], behind)
  let (power, last) ← match exponent? behind with
    | some found => some found
    | none => if fraction.isEmpty then none else some (0, behind)
  if negative || (Decimal.ofDigits whole fraction power).toFloat.isFinite then
    some last
  else
    none

/-- The text behind one of the names of numbers that are not finite. -/
def namedFloat? (cs : List Char) : Option (List Char) :=
  match (sign cs).2 with
  | 'i' :: 'n' :: 'f' :: rest => some rest
  | 'n' :: 'a' :: 'n' :: rest => some rest
  | _ => none

/-- The text behind an integer in the range of signed 64 bit numbers. -/
def integer? (cs : List Char) : Option (List Char) :=
  match cs with
  | '0' :: 'x' :: rest => based? 16 Digits.hex? rest
  | '0' :: 'o' :: rest => based? 8 (digitBelow? 8) rest
  | '0' :: 'b' :: rest => based? 2 (digitBelow? 2) rest
  | _ => do
    let (negative, behind) := sign cs
    let (ds, behind) ← whole? behind
    let n := Digits.value 10 ds
    if n < Nat.pow 2 63 ∨ (negative ∧ n = Nat.pow 2 63) then some behind
    else none

/-! ## Dates and times -/

/-- A number of exactly the given number of digits, within bounds. -/
def field? (width least greatest : Nat) (cs : List Char) :
    Option (Nat × List Char) := do
  if cs.length < width then none
  let ds ← (cs.take width).mapM Digits.decimal?
  let n := Digits.value 10 ds
  if least ≤ n ∧ n ≤ greatest then some (n, cs.drop width) else none

/-- The text behind a given character. -/
def expect? (c : Char) : List Char → Option (List Char)
  | d :: rest => if d = c then some rest else none
  | [] => none

/-- The text behind a date of the calendar. -/
def date? (cs : List Char) : Option (List Char) := do
  let (year, behind) ← field? 4 0 9999 cs
  let (month, behind) ← field? 2 1 12 (← expect? '-' behind)
  let (_, behind) ← field? 2 1 (Date.daysInMonth year month)
    (← expect? '-' behind)
  return behind

/-- The text behind a time of the day. -/
def time? (cs : List Char) : Option (List Char) := do
  let (_, behind) ← field? 2 0 23 cs
  let (_, behind) ← field? 2 0 59 (← expect? ':' behind)
  let (_, behind) ← field? 2 0 60 (← expect? ':' behind)
  match behind with
  | '.' :: rest =>
    let fraction := rest.takeWhile fun c => (Digits.decimal? c).isSome
    if fraction.isEmpty then some behind else some (rest.drop fraction.length)
  | _ => some behind

/-- The text behind an offset from universal time, or the same text if it has
none here. -/
def skipOffset? : List Char → Option (List Char)
  | 'Z' :: rest => some rest
  | 'z' :: rest => some rest
  | c :: rest =>
    if c = '+' ∨ c = '-' then do
      let (_, behind) ← field? 2 0 23 rest
      let (_, behind) ← field? 2 0 59 (← expect? ':' behind)
      return behind
    else some (c :: rest)
  | [] => some []

/-- The text behind a date, a time, or both. -/
def moment? (cs : List Char) : Option (List Char) :=
  match date? cs with
  | some behind =>
    match behind with
    | c :: rest =>
      if c = 'T' ∨ c = 't' ∨ c = ' ' then
        match time? rest with
        | some behind => skipOffset? behind
        | none => some behind
      else some behind
    | [] => some []
  | none => time? cs

end AuditTrail.Toml

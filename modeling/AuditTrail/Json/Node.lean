import AuditTrail.Text.Digits

/-!
# JSON as written

A JSON text as a tree that keeps what the text says and judges nothing: numbers
are their digits, strings are their characters and escapes, and an object holds
its members in the order of the text, also those with the same name. What a tree
means is decided by its readers, each of which may skip parts of it.

The grammar is recognised by recursion with a budget, which every step lowers by
one. A well formed text of `n` characters never needs more than `n + 1` steps,
since a container brings two brackets and an item behind another brings a comma,
so that a text runs out of its budget only if it is malformed.
-/

namespace AuditTrail.Json

/-- A number as written: its sign, the digits of its whole part, those of its
fraction and those of its exponent with its sign. A part that the text leaves
out is none. -/
structure Numeral where
  negative : Bool
  whole : List Nat
  fraction : Option (List Nat)
  exponent : Option (Bool × List Nat)
  deriving DecidableEq, Repr

/-- A part of a string as written: a character, or the sixteen bits of a numeric
escape. -/
inductive Piece where
  | char (c : Char)
  | unit (n : Nat)
  deriving DecidableEq, Repr

/-- A JSON text as written. -/
inductive Node where
  | null
  | bool (b : Bool)
  | number (n : Numeral)
  | string (pieces : List Piece)
  | array (items : List Node)
  | object (members : List (List Piece × Node))

/-! ## Reading the grammar -/

/-- Whether a character is blank: space, tab, line feed or carriage return. -/
def isBlank (c : Char) : Bool := c == ' ' || c == '\t' || c == '\n' || c == '\r'

/-- The text without the blanks in front. -/
def skipBlanks (cs : List Char) : List Char := cs.dropWhile isBlank

/-- The values of the digits in front, and the text behind them. -/
def digits : List Char → List Nat × List Char
  | [] => ([], [])
  | c :: rest =>
    match Digits.decimal? c with
    | some d => let (ds, behind) := digits rest; (d :: ds, behind)
    | none => ([], c :: rest)

/-- At least one digit in front, and the text behind. -/
def someDigits? (cs : List Char) : Option (List Nat × List Char) :=
  match digits cs with
  | ([], _) => none
  | found => some found

/-- The fraction of a number, if the text has one here. -/
def fraction? : List Char → Option (Option (List Nat) × List Char)
  | '.' :: rest => (someDigits? rest).map fun (ds, behind) => (some ds, behind)
  | cs => some (none, cs)

/-- The exponent of a number, if the text has one here. -/
def exponent? : List Char → Option (Option (Bool × List Nat) × List Char)
  | c :: rest =>
    if c = 'e' ∨ c = 'E' then
      let (negative, behindSign) := match rest with
        | '-' :: more => (true, more)
        | '+' :: more => (false, more)
        | _ => (false, rest)
      (someDigits? behindSign).map fun (ds, behind) =>
        (some (negative, ds), behind)
    else some (none, c :: rest)
  | [] => some (none, [])

/-- A number without its sign. A whole part of several digits does not begin
with zero. -/
def unsigned? (negative : Bool) (cs : List Char) :
    Option (Node × List Char) := do
  let (whole, behind) ← someDigits? cs
  if whole.length ≠ 1 ∧ whole.head? = some 0 then none
  let (fraction, behind) ← fraction? behind
  let (exponent, behind) ← exponent? behind
  return (.number ⟨negative, whole, fraction, exponent⟩, behind)

/-- The value of four hexadecimal digits in front. -/
def unit? : List Char → Option (Nat × List Char)
  | a :: b :: c :: d :: rest => do
    let a ← Digits.hex? a
    let b ← Digits.hex? b
    let c ← Digits.hex? c
    let d ← Digits.hex? d
    return (Digits.value 16 [a, b, c, d], rest)
  | _ => none

/-- The escape behind a backslash. -/
def escape? : List Char → Option (Piece × List Char)
  | '"' :: rest => some (.char '"', rest)
  | '\\' :: rest => some (.char '\\', rest)
  | '/' :: rest => some (.char '/', rest)
  | 'b' :: rest => some (.char '\x08', rest)
  | 'f' :: rest => some (.char '\x0c', rest)
  | 'n' :: rest => some (.char '\n', rest)
  | 'r' :: rest => some (.char '\r', rest)
  | 't' :: rest => some (.char '\t', rest)
  | 'u' :: rest => (unit? rest).map fun (n, behind) => (.unit n, behind)
  | _ => none

/-- The pieces of a string up to its closing quote, which is used up. Control
characters have to be escaped. -/
def pieces? : Nat → List Char → Option (List Piece × List Char)
  | 0, _ => none
  | _ + 1, [] => none
  | _ + 1, '"' :: rest => some ([], rest)
  | fuel + 1, '\\' :: rest => do
    let (piece, behind) ← escape? rest
    let (pieces, behind) ← pieces? fuel behind
    return (piece :: pieces, behind)
  | fuel + 1, c :: rest =>
    if c.toNat < 32 then none
    else do
      let (pieces, behind) ← pieces? fuel rest
      return (.char c :: pieces, behind)

mutual

/-- A value, with blanks allowed in front of it. -/
def node? : Nat → List Char → Option (Node × List Char)
  | 0, _ => none
  | fuel + 1, cs =>
    match skipBlanks cs with
    | 'n' :: 'u' :: 'l' :: 'l' :: rest => some (.null, rest)
    | 't' :: 'r' :: 'u' :: 'e' :: rest => some (.bool true, rest)
    | 'f' :: 'a' :: 'l' :: 's' :: 'e' :: rest => some (.bool false, rest)
    | '"' :: rest =>
        (pieces? fuel rest).map fun (pieces, behind) => (.string pieces, behind)
    | '-' :: rest => unsigned? true rest
    | '[' :: rest =>
      match skipBlanks rest with
      | ']' :: behind => some (.array [], behind)
      | _ =>
          (items? fuel rest).map fun (items, behind) => (.array items, behind)
    | '\x7b' :: rest =>
      match skipBlanks rest with
      | '\x7d' :: behind => some (.object [], behind)
      | _ =>
          (members? fuel rest).map fun (members, behind) =>
            (.object members, behind)
    | other => unsigned? false other

/-- At least one item and the closing bracket. -/
def items? : Nat → List Char → Option (List Node × List Char)
  | 0, _ => none
  | fuel + 1, cs => do
    let (item, behind) ← node? fuel cs
    match skipBlanks behind with
    | ']' :: behind => return ([item], behind)
    | ',' :: behind =>
      let (items, behind) ← items? fuel behind
      return (item :: items, behind)
    | _ => none

/-- At least one member and the closing brace. -/
def members? : Nat → List Char → Option (List (List Piece × Node) × List Char)
  | 0, _ => none
  | fuel + 1, cs =>
    match skipBlanks cs with
    | '"' :: rest => do
      let (name, behind) ← pieces? fuel rest
      match skipBlanks behind with
      | ':' :: behind =>
        let (value, behind) ← node? fuel behind
        match skipBlanks behind with
        | '\x7d' :: behind => return ([(name, value)], behind)
        | ',' :: behind =>
          let (members, behind) ← members? fuel behind
          return ((name, value) :: members, behind)
        | _ => none
      | _ => none
    | _ => none

end

/-- The tree of a whole text, with blanks allowed on both sides. -/
def nodeOfChars? (cs : List Char) : Option Node :=
  match node? (cs.length + 1) cs with
  | some (node, behind) =>
      if (skipBlanks behind).isEmpty then some node else none
  | none => none

/-! ## Strings -/

/-- The characters of a string. Two escapes that form a surrogate pair are one
character; a surrogate without its partner is no text. -/
def charsOfPieces? : List Piece → Option (List Char)
  | [] => some []
  | .char c :: rest => (charsOfPieces? rest).map (c :: ·)
  | .unit n :: rest =>
    if n < 0xD800 ∨ 0xDFFF < n then
      (charsOfPieces? rest).map (Char.ofNat n :: ·)
    else if 0xDBFF < n then none
    else match rest with
      | .unit m :: rest =>
        if 0xDC00 ≤ m ∧ m ≤ 0xDFFF then
          (charsOfPieces? rest).map
            (Char.ofNat (0x10000 + (n - 0xD800) * 0x400 + (m - 0xDC00)) :: ·)
        else none
      | _ => none

/-- The text of a string as written. -/
def textOfPieces? (pieces : List Piece) : Option String :=
  (charsOfPieces? pieces).map String.ofList

end AuditTrail.Json

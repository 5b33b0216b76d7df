import AuditTrail.Toml.Lexical

/-!
# TOML values and tables

The shapes that a TOML text builds: values, tables of named items, and lists of
tables. A table remembers how it came to be, since that decides whether it may
be extended. It is *implicit* if it was only passed through on the way to
another, and *dotted* if a dotted key passed through it.

- A key is defined once.
- A dotted key goes through tables that dotted keys or headers only passed
  through, never through one that was defined.
- A header defines a table that does not exist or was only passed through by
  other headers.
-/

namespace AuditTrail.Toml

mutual

/-- A value. Values other than truth values and containers are not kept. -/
inductive Value where
  | boolean (b : Bool)
  | scalar
  | array (items : List Value)
  | inlineTable (table : Table)

/-- What a key stands for. -/
inductive Item where
  | value (v : Value)
  | table (t : Table)
  /-- A list of tables, the latest first. -/
  | tables (latest : Table) (earlier : List Table)
  /-- A list of tables whose first one is being read. -/
  | noTables

/-- Items under their keys, and how the table came to be. -/
inductive Table where
  | mk (implicit dotted : Bool) (items : List (String × Item))

end

namespace Table

/-- A table that a header or braces define. -/
def empty : Table := mk false false []

/-- A table that is passed through. -/
def passed (dotted : Bool) : Table := mk true dotted []

/-- Whether the table was only passed through. -/
def isImplicit : Table → Bool
  | mk implicit _ _ => implicit

/-- Whether a dotted key passed through the table. -/
def isDotted : Table → Bool
  | mk _ dotted _ => dotted

/-- The items. -/
def items : Table → List (String × Item)
  | mk _ _ items => items

/-- The item under a key. -/
def find? (t : Table) (key : String) : Option Item := t.items.lookup key

/-- The table with an item put under a key. -/
def put (t : Table) (key : String) (item : Item) : Table :=
  match t with
  | mk implicit dotted items =>
    mk implicit dotted ((key, item) :: items.filter fun entry => entry.1 != key)

/-- The table without the item under a key. -/
def erase (t : Table) (key : String) : Table :=
  match t with
  | mk implicit dotted items =>
      mk implicit dotted (items.filter fun entry => entry.1 != key)

/-- The table as one that a header defines. -/
def defined : Table → Table
  | mk _ _ items => mk false false items

/-- Applies a function to the table at the end of a path and tells its result.
Tables that are missing are made on the way. A list of tables stands for its
latest one. -/
def within {α : Type} (dotted : Bool) (f : Table → Option (Table × α)) :
    List String → Table → Option (Table × α)
  | [], t => f t
  | key :: path, t =>
    match t.find? key with
    | none => do
      let (sub, a) ← within dotted f path (passed dotted)
      return (t.put key (.table sub), a)
    | some (.table sub) =>
      if dotted && !sub.isImplicit then none
      else do
        let (sub, a) ← within dotted f path sub
        return (t.put key (.table sub), a)
    | some (.tables latest earlier) => do
      let (latest, a) ← within dotted f path latest
      return (t.put key (.tables latest earlier), a)
    | some .noTables => none
    | some (.value _) => none

/-- Defines a key with a value in a table that was reached through a path of
dots, or without. -/
def define (dotted : Bool) (key : String) (v : Value) (t : Table) :
    Option (Table × Unit) :=
  if t.isDotted != dotted then none
  else match t.find? key with
    | some _ => none
    | none => some (t.put key (.value v), ())

/-- Defines a dotted key with a value. -/
def assign (t : Table) (path : List String) (key : String) (v : Value) :
    Option Table :=
  (t.within true (define (!path.isEmpty) key v) path).map Prod.fst

/-- Defines a dotted key with a value in a table in braces, where the tables
passed through are values themselves. -/
def assignInline (key : String) (v : Value) (dotted : Bool) :
    List String → Table → Option Table
  | [], t => (t.define dotted key v).map Prod.fst
  | name :: path, t =>
    match t.find? name with
    | none => do
      let sub ← assignInline key v true path (passed true)
      return t.put name (.value (.inlineTable sub))
    | some (.value (.inlineTable sub)) =>
      if !sub.isImplicit then none
      else do
        let sub ← assignInline key v true path sub
        return t.put name (.value (.inlineTable sub))
    | some _ => none

end Table

/-! ## Reading values -/

/-- A key, an equals sign, and the text behind it and its blanks: the path of
the key, its last part, and the text. -/
def assignment? (cs : List Char) :
    Option (List String × String × List Char) := do
  let (names, behind) ← key? cs
  let name ← names.getLast?
  let rest ← expect? '=' behind
  return (names.dropLast, name, skipBlanks rest)

mutual

/-- A value in a text, within the given depth of containers. -/
def value? : Nat → Nat → List Char → Option (Value × List Char)
  | 0, _, _ => none
  | fuel + 1, depth, cs =>
    match cs with
    | [] => none
    | 't' :: 'r' :: 'u' :: 'e' :: rest => some (.boolean true, rest)
    | 'f' :: 'a' :: 'l' :: 's' :: 'e' :: rest => some (.boolean false, rest)
    | '[' :: rest =>
      if depth ≤ 1 then none
      else (items? fuel (depth - 1) rest).map fun (items, behind) =>
        (.array items, behind)
    | '\x7b' :: rest =>
      if depth ≤ 1 then none
      else match skipBlanks rest with
        | '\x7d' :: behind => some (.inlineTable .empty, behind)
        | first =>
            (pairs? fuel (depth - 1) .empty first).map fun (table, behind) =>
              (.inlineTable table, behind)
    | c :: _ =>
      if c = '"' ∨ c = '\x27' then
        (string? cs).map fun behind => (.scalar, behind)
      else
        let readers := [moment?, float?, namedFloat?, integer?]
        (readers.findSome? fun reader => reader cs).map fun behind =>
          (.scalar, behind)

/-- The items of an array up to its closing bracket. A comma may stand behind
the last one. -/
def items? : Nat → Nat → List Char → Option (List Value × List Char)
  | 0, _, _ => none
  | fuel + 1, depth, cs => do
    match ← skipLines? (cs.length + 1) cs with
    | ']' :: behind => return ([], behind)
    | first =>
      let (item, behind) ← value? fuel depth first
      match ← skipLines? (behind.length + 1) behind with
      | ']' :: behind => return ([item], behind)
      | ',' :: behind =>
        let (items, behind) ← items? fuel depth behind
        return (item :: items, behind)
      | _ => none

/-- At least one pair of a table in braces, up to the closing brace, added to
those read before. -/
def pairs? : Nat → Nat → Table → List Char → Option (Table × List Char)
  | 0, _, _, _ => none
  | fuel + 1, depth, table, cs => do
    let (path, name, behind) ← assignment? cs
    let (v, behind) ← value? fuel depth behind
    let table ← table.assignInline name v (!path.isEmpty) path
    match skipBlanks behind with
    | '\x7d' :: behind => return (table, behind)
    | ',' :: behind => pairs? fuel depth table behind
    | _ => none

end

end AuditTrail.Toml

import AuditTrail.Toml.Value

/-!
# TOML texts

A TOML text is a list of lines: pairs of a key and a value, headers, comments
and empty lines. A header ends the table that was being read and begins another,
one table at a time; the pairs before the first header belong to the table of
the whole text.
-/

namespace AuditTrail.Toml

/-- Where a text has got to: the tables that are finished, the one being read,
and where that one belongs. -/
structure Reading where
  finished : Table
  current : Table
  path : List String
  isListed : Bool

namespace Reading

/-- The beginning of a text. -/
def start : Reading := ⟨.empty, .empty, [], false⟩

/-- Puts a finished table of a list behind the earlier ones. -/
def addListed (key : String) (table parent : Table) : Option (Table × Unit) :=
  match parent.find? key with
  | none => some (parent.put key (.tables table []), ())
  | some .noTables => some (parent.put key (.tables table []), ())
  | some (.tables latest earlier) =>
      some (parent.put key (.tables table (latest :: earlier)), ())
  | some _ => none

/-- Puts a finished table in its place. -/
def addTable (key : String) (table parent : Table) : Option (Table × Unit) :=
  match parent.find? key with
  | none => some (parent.put key (.table table), ())
  | some (.table t) =>
      if t.isImplicit then some (parent.put key (.table table), ()) else none
  | some _ => none

/-- Finishes the table being read. -/
def finish? (r : Reading) : Option Table :=
  match r.path.getLast? with
  | none => some r.current
  | some key =>
    let add :=
      if r.isListed then addListed key r.current else addTable key r.current
    (r.finished.within false add r.path.dropLast).map Prod.fst

/-- Begins a table: a new one, or one that other headers passed through
before. -/
def openTable (key : String) (parent : Table) : Option (Table × Table) :=
  match parent.find? key with
  | none => some (parent, .empty)
  | some (.table t) =>
      if t.isImplicit && !t.isDotted then some (parent.erase key, t.defined)
      else none
  | some _ => none

/-- Makes sure that a list of tables can go on or begin. -/
def openList (key : String) (parent : Table) : Option (Table × Unit) :=
  match parent.find? key with
  | none => some (parent.put key .noTables, ())
  | some .noTables => some (parent, ())
  | some (.tables _ _) => some (parent, ())
  | some _ => none

/-- Reads a header in single brackets. -/
def header? (r : Reading) (path : List String) : Option Reading := do
  let key ← path.getLast?
  let finished ← r.finish?
  let (finished, current) ← finished.within false (openTable key) path.dropLast
  return ⟨finished, current, path, false⟩

/-- Reads a header in double brackets. -/
def listHeader? (r : Reading) (path : List String) : Option Reading := do
  let key ← path.getLast?
  let finished ← r.finish?
  let (finished, _) ← finished.within false (openList key) path.dropLast
  return ⟨finished, .empty, path, true⟩

/-- Reads a pair of a key and a value. -/
def pair? (r : Reading) (path : List String) (key : String) (v : Value) :
    Option Reading := do
  let current ← r.current.assign path key v
  return { r with current := current }

/-- Reads lines up to the end of the text. -/
def lines? : Nat → Reading → List Char → Option Reading
  | 0, _, _ => none
  | fuel + 1, r, cs =>
    match skipBlanks cs with
    | [] => some r
    | '#' :: rest =>
        (newlineOrEnd? (rest.dropWhile isPlain)).bind (lines? fuel r)
    | '\n' :: rest => lines? fuel r rest
    | '\r' :: rest => (newline? ('\r' :: rest)).bind (lines? fuel r)
    | '[' :: '[' :: rest => do
      let (path, behind) ← key? rest
      let behind ← expect? ']' behind
      let behind ← expect? ']' behind
      let behind ← lineEnd? behind
      lines? fuel (← r.listHeader? path) behind
    | '[' :: rest => do
      let (path, behind) ← key? rest
      let behind ← expect? ']' behind
      let behind ← lineEnd? behind
      lines? fuel (← r.header? path) behind
    | line => do
      let (path, key, behind) ← assignment? line
      let (v, behind) ← value? (behind.length + 1) depthLimit behind
      let behind ← lineEnd? behind
      lines? fuel (← r.pair? path key v) behind

end Reading

/-- The table of a whole text. A byte order mark in front is skipped. -/
def parse? (cs : List Char) : Option Table := do
  let text := match cs with
    | '\ufeff' :: rest => rest
    | _ => cs
  let reading ← Reading.start.lines? (text.length + 1) text
  reading.finish?

end AuditTrail.Toml

import MetricLayer.Toml.Reader

/-!
# TOML documents

A document is a sequence of key-value lines and headers, which together build one table. A header
opens a table, or appends a table to an array of tables; keys with points open tables of their own.
No key is defined twice, no table is opened twice, and a table opened in one way is not extended in
the other.
-/

namespace MetricLayer.Toml

/-- How a table came to be. -/
inductive Origin
  /-- By a header of its own. -/
  | header
  /-- As a step on the way to another table's header. -/
  | passage
  /-- By a key with points. -/
  | dotted
deriving DecidableEq, Repr

/-- A part of a document under construction. -/
inductive Node
  /-- A finished value, which nothing may extend. -/
  | value (value : Value)
  | table (origin : Origin) (entries : List (String × Node))
  /-- An array of tables, the last one first. -/
  | tables (items : List (List (String × Node)))
deriving Inhabited

/-- The entries of a table under construction. -/
abbrev Entries := List (String × Node)

/-- Change the entry of a key, or add one. -/
def alter (key : String) (f : Option Node → Option Node) : Entries → Option Entries
  | [] => (f none).map fun n => [(key, n)]
  | (k, n) :: rest =>
    if k = key then (f (some n)).map fun n => (k, n) :: rest
    else (alter key f rest).map ((k, n) :: ·)

/-- Change the table that a path of headers leads to. Missing tables are opened on the way; an array
of tables is entered at its last table. -/
def onHeaderPath (f : Entries → Option Entries) : (path : List String) → Entries → Option Entries
  | [], entries => f entries
  | key :: path, entries =>
    alter key (fun
      | none => (onHeaderPath f path []).map (.table .passage)
      | some (.table origin inner) => (onHeaderPath f path inner).map (.table origin)
      | some (.tables (last :: earlier)) =>
        (onHeaderPath f path last).map fun n => .tables (n :: earlier)
      | some _ => none) entries

/-- Set the value of a key with points. The last table on the way must have been opened by a key
with points, and no table on the way by a header. -/
def setDotted (value : Node) : (path : List String) → Entries → Option Entries
  | [], _ => none
  | [key], entries => alter key (fun
      | none => some value
      | some _ => none) entries
  | key :: path, entries =>
    alter key (fun
      | none => (setDotted value path []).map (.table .dotted)
      | some (.table .dotted inner) => (setDotted value path inner).map (.table .dotted)
      | some (.table .passage inner) =>
        if path.length ≤ 1 then none else (setDotted value path inner).map (.table .passage)
      | some (.tables (last :: earlier)) =>
        if path.length ≤ 1 then none
        else (setDotted value path last).map fun n => .tables (n :: earlier)
      | some _ => none) entries

/-- Open the table of a header. A table that was only passed through may still be opened. -/
def openTable (key : String) : Entries → Option Entries :=
  alter key fun
    | none => some (.table .header [])
    | some (.table .passage inner) => some (.table .header inner)
    | some _ => none

/-- Append a table to an array of tables. -/
def appendTable (key : String) : Entries → Option Entries :=
  alter key fun
    | none => some (.tables [[]])
    | some (.tables items) => some (.tables ([] :: items))
    | some _ => none

mutual

/-- A finished part of a document. -/
def Node.finish : Node → Value
  | .value v => v
  | .table _ entries => .table (finishEntries entries)
  | .tables items => .array (finishTables items).reverse
termination_by structural n => n

/-- The finished entries of a table. -/
def finishEntries : List (String × Node) → List (String × Value)
  | [] => []
  | (key, n) :: rest => (key, n.finish) :: finishEntries rest
termination_by structural es => es

/-- The finished tables of an array. -/
def finishTables : List (List (String × Node)) → List Value
  | [] => []
  | entries :: rest => .table (finishEntries entries) :: finishTables rest
termination_by structural ts => ts

end

/-- The table of an inline table's entries. -/
def inlineTable? (entries : List (List String × Value)) : Option Value := do
  let table ← entries.foldlM (fun t (path, v) => setDotted (.value v) path t) []
  return .table (finishEntries table)

/-- A value with at most `depth` containers around its innermost values. -/
def value? : (depth : Nat) → List Char → Option (Value × List Char)
  | 0, cs =>
    match cs with
    | '"' :: _ | '\'' :: _ => (string? cs).map fun (s, after) => (.string s, after)
    | _ => word? cs
  | depth + 1, cs =>
    match cs with
    | '"' :: _ | '\'' :: _ => (string? cs).map fun (s, after) => (.string s, after)
    | '[' :: rest =>
      (items? (value? depth) (rest.length + 1) rest).map fun (vs, after) => (.array vs, after)
    | '\x7b' :: rest => do
      let (entries, after) ← inlineEntries? (value? depth) (rest.length + 1) rest
      return (← inlineTable? entries, after)
    | _ => word? cs

/-- How many containers may enclose a value. -/
def depthLimit : Nat := 80

/-- A line of a document that says something. -/
inductive Line
  | keyValue (path : List String) (value : Value)
  | header (path : List String)
  | arrayHeader (path : List String)

/-- A line other than a blank one, without its comment and its end. -/
def line? (cs : List Char) : Option (Line × List Char) :=
  match cs with
  | '[' :: '[' :: rest => do
    let (path, rest) ← keyPath? rest
    match rest with
    | ']' :: ']' :: after => return (.arrayHeader path, after)
    | _ => none
  | '[' :: rest => do
    let (path, rest) ← keyPath? rest
    match rest with
    | ']' :: after => return (.header path, after)
    | _ => none
  | _ => do
    let ((path, v), after) ← keyValue? (fun cs => some (skipSpace cs)) (value? depthLimit) cs
    return (.keyValue path v, after)

/-- The lines of a document. The first argument bounds their number. -/
def lines? : (bound : Nat) → List Char → Option (List Line)
  | 0, _ => none
  | bound + 1, cs => do
    let cs ← skipAll? cs
    if cs.isEmpty then return []
    else
      let (line, rest) ← line? cs
      let rest ← skipComment? (skipSpace rest)
      if rest.isEmpty then return [line]
      else
        let rest ← lineEnd? rest
        let others ← lines? bound rest
        return line :: others

/-- A document under construction and the path of the table that key-value lines belong to. -/
structure Document where
  /-- The table built so far. -/
  root : Entries
  /-- The path of the last header. -/
  current : List String

/-- Change the table that a path leads to, its last key treated on its own. -/
def atLast (f : String → Entries → Option Entries) (path : List String) (root : Entries) :
    Option Entries :=
  match path.getLast? with
  | some key => onHeaderPath (f key) path.dropLast root
  | none => none

/-- Add a line to a document. -/
def Document.add? (d : Document) : Line → Option Document
  | .keyValue path v => do
    return { d with root := ← onHeaderPath (setDotted (.value v) path) d.current d.root }
  | .header path => do return ⟨← atLast openTable path d.root, path⟩
  | .arrayHeader path => do return ⟨← atLast appendTable path d.root, path⟩

/-- Read a document as one table. A byte order mark at its start is skipped. -/
def parse? (text : String) : Option Value := do
  let cs := match text.toList with
    | c :: rest => if c.toNat = 0xFEFF then rest else c :: rest
    | [] => []
  let lines ← lines? (cs.length + 1) cs
  let d ← lines.foldlM Document.add? ⟨[], []⟩
  return .table (finishEntries d.root)

end MetricLayer.Toml

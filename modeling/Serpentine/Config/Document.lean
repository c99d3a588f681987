import Serpentine.Config.Reader

/-!
# Configuration files

A file is a sequence of entries, and of headers that say which table the entries behind them belong
to. The entries of a table are kept in the order in which they were made.
-/

namespace Serpentine.Config

namespace Entries

/-- The entries with a value for a key. A new key comes last. -/
def put (key : String) (v : Value) : Entries → Entries
  | [] => [(key, v)]
  | (k, old) :: rest => if k == key then (k, v) :: rest else (k, old) :: put key v rest

def putLast (key : String) (v : Value) (entries : Entries) : Entries :=
  entries.filter (·.1 != key) ++ [(key, v)]

/-- Changes the entries of the table at a path, which starts from a table of form `here`. Missing
tables are made, of form `made`. Dotted keys do not lead through tables with headers. In an array
of tables the path goes on in the last one. -/
def within (made : Form) (change : Form → Entries → Option Entries) :
    Form → List String → Entries → Option Entries
  | here, [], entries => change here entries
  | _, key :: path, entries =>
    match entries.lookup key with
    | none => do
      return entries.put key (.table made (← within made change made path []))
    | some (.table form inner) => do
      guard (form != .inline && !(made == .dotted && form == .headed))
      return entries.put key (.table form (← within made change form path inner))
    | some (.array true items) =>
      match items.getLast? with
      | some (.table form inner) => do
        let last := Value.table form (← within made change form path inner)
        return entries.put key (.array true (items.dropLast ++ [last]))
      | _ => none
    | some _ => none

/-- The entries with one more. Its key must be new, and a dotted key leads to a table that only
dotted keys have made. -/
def addPair (path : List String) (v : Value) (entries : Entries) : Option Entries :=
  match path.getLast? with
  | none => none
  | some key =>
    let add (here : Form) (inner : Entries) : Option Entries :=
      if (here == .dotted) == path.dropLast.isEmpty || (inner.lookup key).isSome then none
      else some (inner.put key v)
    entries.within .dotted add .headed path.dropLast

/-- What the header of a table does. A table has one header, and comes behind the tables with
headers before it. -/
def openTable (path : List String) (entries : Entries) : Option Entries :=
  match path.getLast? with
  | none => none
  | some key =>
    let opened (_ : Form) (inner : Entries) : Option Entries :=
      match inner.lookup key with
      | none => some (inner.putLast key (.table .headed []))
      | some (.table .implied old) => some (inner.putLast key (.table .headed old))
      | some _ => none
    entries.within .implied opened .headed path.dropLast

/-- What the header of one more table in an array does. -/
def openRow (path : List String) (entries : Entries) : Option Entries :=
  match path.getLast? with
  | none => none
  | some key =>
    let opened (_ : Form) (inner : Entries) : Option Entries :=
      match inner.lookup key with
      | none => some (inner.put key (.array true [.table .headed []]))
      | some (.array true rows) => some (inner.put key (.array true (rows ++ [.table .headed []])))
      | some _ => none
    entries.within .implied opened .headed path.dropLast

end Entries

namespace Reader

/-! ## Values -/

def items (value : Reader Value) : Reader (List Value) := do
  exactly "["
  rounds do
    blankLines
    if ← taking "]" then return none
    let v ← value
    blankLines
    if !(← taking ",") then guard ((← peek?) == some ']')
    return some v

def pair (value : Reader Value) : Reader (List String × Value) := do
  let path ← keyPath
  exactly "="
  blanks
  return (path, ← value)

/-- The entries of a table that is written as a value, with its braces. -/
def inlineEntries (value : Reader Value) : Reader Entries := do
  exactly "\x7b"
  blanks
  if ← taking "\x7d" then return []
  let first ← pair value
  let others ← rounds do
    blanks
    if ← taking "\x7d" then return none
    exactly ","
    blanks
    return some (← pair value)
  (first :: others).foldlM (fun entries (path, v) => entries.addPair path v) ([] : Entries)

def scalar : Reader Value := do
  match ← peek? with
  | some '"' | some '\'' => return .text (← quotedText)
  | _ =>
    let word := wordAt (← get)
    modify (·.drop word.length)
    Value.ofWord? word

/-- A value, with so many brackets inside each other at most. -/
def value : Nat → Reader Value
  | 0 => scalar
  | n + 1 => do
    match ← peek? with
    | some '[' => return .array false (← items (value n))
    | some '\x7b' => return .table .inline (← inlineEntries (value n))
    | _ => scalar

/-! ## Documents -/

/-- The table that a header has opened, and all entries so far. -/
structure Progress where
  header : List String
  entries : Entries

/-- One line, or the lines of one entry. Nothing is left at the end of the text. -/
def line (p : Progress) : Reader Progress := do
  blanks
  match ← peek? with
  | none | some '#' | some '\n' | some '\r' => return p
  | some '[' =>
    let row ← taking "[["
    if !row then exactly "["
    blanks
    let path ← keyPath
    exactly (if row then "]]" else "]")
    return ⟨path, ← if row then p.entries.openRow path else p.entries.openTable path⟩
  | some _ =>
    let (path, v) ← pair (value depthLimit)
    let add (_ : Form) (inner : Entries) := Entries.addPair path v inner
    return { p with entries := ← p.entries.within .implied add .headed p.header }

/-- So many lines at most, to the end of the text. -/
def lines : Nat → Progress → Reader Entries
  | 0, _ => failure
  | n + 1, p => do
    if (← get).isEmpty then return p.entries
    let p ← line p
    endOfLine
    lines n p

end Reader

/-- The entries of a file. A mark of the byte order at its start does not count. -/
def readDocument? (text : String) : Option Entries :=
  let cs := match text.toList with
    | '\ufeff' :: cs => cs
    | cs => cs
  (Reader.lines (cs.length + 1) ⟨[], []⟩ cs).map (·.1)

end Serpentine.Config

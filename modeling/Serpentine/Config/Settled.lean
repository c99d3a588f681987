import Serpentine.Config.Document
import Serpentine.Sorted

/-!
# Settled values

A value as it is after a file was read: tables in ascending order of their keys, and moments in
place of the tables that stand for them.
-/

namespace Serpentine.Config

/-- The value behind the key of a moment, if this key comes first. -/
def Entries.momentEntry? : Entries → Option Value
  | (key, v) :: _ => if key == momentKey then some v else none
  | [] => none

namespace Value

def ofMomentEntry? : Value → Option Value
  | .text s => (moment? .lenient s.toList).map .moment
  | _ => none

mutual

/-- The settled form of a value. A table whose first key is that of a moment stands for a moment,
and its other entries do not count. -/
def settled? : Value → Option Value
  | .array growing items => (settledItems? items).map (.array growing)
  | .table form entries =>
    match Entries.momentEntry? entries with
    | some v => ofMomentEntry? v
    | none => (settledEntries? entries).map (.table form)
  | v => some v

def settledItems? : List Value → Option (List Value)
  | [] => some []
  | v :: vs => do return (← settled? v) :: (← settledItems? vs)

/-- The settled forms of a table's entries, in ascending order of their keys. -/
def settledEntries? : List (String × Value) → Option (List (String × Value))
  | [] => some []
  | (key, v) :: rest => do
    let v ← settled? v
    return Sorted.update key (fun _ => v) (← settledEntries? rest)

end

end Value

end Serpentine.Config

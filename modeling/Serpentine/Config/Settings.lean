import Serpentine.Config.Settled

/-!
# Settings

What a configuration file says: the name of the root module, and macros with their texts.
-/

namespace Serpentine.Config

structure Settings where
  rootModule? : Option String
  macros : List (String × String)
deriving Repr, DecidableEq, Inhabited

/-- The text that replaces a macro with a value. A truth value is a number there, and a moment is
a table. -/
def macroText : Value → String
  | .text s => s
  | .boolean b => if b then "1" else "0"
  | .moment s => (Value.table .inline [(momentKey, .text s)]).line
  | v => v.line

namespace Settings

def default : Settings := ⟨none, []⟩

/-- The macros that a value defines. A moment counts as the table that stands for it. -/
def macrosOf? : Value → Option (List (String × String))
  | .table _ entries =>
    (Value.settledEntries? entries).map (·.map fun (name, v) => (name, macroText v))
  | .moment s => some [(momentKey, s)]
  | _ => none

/-- The settings with one more entry. No other keys are known. -/
def add (s : Settings) : String × Value → Option Settings
  | ("root_module", .text name) => some { s with rootModule? := some name }
  | ("defines", v) => do return { s with macros := ← macrosOf? v }
  | _ => none

def parse? (text : String) : Option Settings := do
  (← readDocument? text).foldlM add default

end Settings

end Serpentine.Config

import Serpentine.Lowering.Module

/-!
# Writers

A writer makes the text of a module. Writers are found by the name of their language; one that was
registered later comes first.
-/

namespace Serpentine

/-- A text or fault, with the warnings given on the way. -/
structure Written where
  text : Except Fault String
  warnings : List String

/-- What writes the modules of a program in a language. -/
structure Writer where
  language : String
  extension : String
  write : Store → Resolutions → DeclId → Written

def Writer.script : Writer where
  language := "python"
  extension := "py"
  write store table id :=
    let lowered := Lowering.Scene.lowerModule ⟨store, table⟩ id
    ⟨lowered.result.map Script.Module.print, lowered.warnings⟩

abbrev Writers := List Writer

namespace Writers

def builtin : Writers :=
  [.script]

def register (ws : Writers) (w : Writer) : Writers :=
  w :: ws

def find? (ws : Writers) (language : String) : Option Writer :=
  List.find? (fun w => w.language == language) ws

end Writers

end Serpentine

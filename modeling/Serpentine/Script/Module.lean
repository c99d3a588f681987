import Serpentine.Script.Stmt

/-!
# Modules of the script
-/

namespace Serpentine.Script

/-- A function or method. -/
structure Def where
  name : String
  params : List (String × Option Term)
  isStatic : Bool
  body : List Stmt
deriving Repr, Inhabited

/-- What stands at the top of a module or class. -/
inductive Item where
  | stmt (s : Stmt)
  | function (d : Def)
  | classDef (name : String) (base : Option Term) (items : List Item)
  /-- A class whose lines stand close together. -/
  | enumDef (name : String) (lines : List Stmt)
deriving Repr, Inhabited

/-- A module of the script. -/
structure Module where
  imports : List (String × List String)
  items : List Item
deriving Repr, Inhabited

def importLine : String × List String → String
  | (path, []) => "import " ++ path
  | (path, symbols) => "from " ++ path ++ " import " ++ ", ".intercalate symbols

def paramText : String × Option Term → String
  | (name, none) => name
  | (name, some value) => name ++ "=" ++ value.text

def Def.head (d : Def) : String :=
  "def " ++ d.name ++ "(" ++ ", ".intercalate (d.params.map paramText) ++ "):"

def Def.print (l : Layout) (d : Def) : Layout :=
  let l := if d.isStatic then l.line "@staticmethod" else l
  (l.line d.head).block (Stmt.printAll · d.body)

def classHead (name : String) : Option Term → String
  | none => "class " ++ name ++ ":"
  | some base => "class " ++ name ++ "(" ++ base.text ++ "):"

mutual

def Item.print (l : Layout) : Item → Layout
  | .stmt s => s.print l.majorGap
  | .function d => d.print l.majorGap
  | .classDef name base items => (l.majorGap.line (classHead name base)).block (printItems · items)
  | .enumDef name lines =>
    (l.majorGap.line (classHead name (some (.atom "Enum")))).block (Stmt.printAll · lines)

def printItems (l : Layout) : List Item → Layout
  | [] => l
  | item :: rest => printItems (item.print l) rest

end

def Module.print (m : Module) : String :=
  let l := m.imports.foldl (fun l i => l.line (importLine i)) Layout.empty
  (printItems l m.items).finish

end Serpentine.Script

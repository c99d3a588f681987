import Serpentine.Grammar.Parse

/-!
# Rules of the grammar

The rules that refer to each other in a circle. The parse of a rule takes the parses of all rules
as an argument, so that each can be written and studied alone.
-/

namespace Serpentine.Grammar

/-- How much must be known of a name in the place of a type. -/
inductive Mode where
  /-- An unknown name counts as a type. -/
  | lenient
  /-- The name must be known as a type. -/
  | strict
deriving Repr, DecidableEq, Inhabited

/-- The words in front of a declaration. -/
structure Specifiers where
  isStatic : Bool
  isVirtual : Bool
  isExtern : Bool
  isTypedef : Bool
  isFriend : Bool
deriving Repr, DecidableEq, Inhabited

/-- No such word stands in front. -/
def Specifiers.none : Specifiers :=
  ⟨false, false, false, false, false⟩

/-- A type as written, and what is known of it. -/
structure TypeSpec where
  text : String
  primitive : Option Primitive
  named : Option String
  defined : Option DeclId
deriving Repr, DecidableEq, Inhabited

namespace TypeSpec

/-- The type of what is declared without one. -/
def none : TypeSpec :=
  ⟨"", .none, .none, .none⟩

/-- A built-in type; `auto` stands for none in particular. -/
def ofPrimitive (text : String) (primitive : Option Primitive) : TypeSpec :=
  ⟨text, primitive, .none, .none⟩

/-- A type by its name. -/
def ofName (raw : String) : TypeSpec :=
  ⟨raw, .none, some raw, .none⟩

/-- The type that a definition makes. -/
def ofDefinition (name : Option String) (id : DeclId) : TypeSpec :=
  ⟨name.getD "", .none, name, some id⟩

end TypeSpec

/-- The last part of a declared name. -/
inductive DeclaratorBase where
  | ident (name : String)
  | destructor (name : String)
  | operator (symbol : String)
  | conversion (type : Option Primitive)
deriving Repr, DecidableEq, Inhabited

/-- A declared name, which may be scoped. -/
structure DeclaratorName where
  /-- The parts in front; an empty first part means the root module. -/
  scope : List String
  base : DeclaratorBase
deriving Repr, DecidableEq, Inhabited

/-- A declared name with its pointers, array sizes and parameters. -/
structure Declarator where
  name : Option DeclaratorName
  indirect : Bool
  arrays : List (Option Expr)
  params : Option (List ParameterSpec)
  place : Position
deriving Repr, Inhabited

/-- The plain name that is declared. -/
def Declarator.ident? (d : Declarator) : Option String :=
  match d.name with
  | some ⟨_, .ident name⟩ => some name
  | _ => none

/-- The rules that refer to each other, by their effect and the type of their results. -/
inductive Rule : Effect → Type → Type where
  | templateArgs : Rule .look Unit
  /-- An expression of operators that bind at least so tightly. -/
  | expr (power : Nat) : Rule .look Expr
  | unary : Rule .look Expr
  | exprList (close : Kind) : Rule .look (List Expr)
  | declarator (mode : Mode) : Rule .look Declarator
  | templateParams : Rule .look (List String)
  | statement : Rule .declare Stmt
  | declaration : Rule .declare Unit

/-- A parse for each rule. -/
structure Rules where
  parse {e : Effect} {α : Type} : Rule e α → Parse e α

namespace Rules

/-- Template arguments. -/
def templateArgs (rules : Rules) : Parse .look Unit :=
  rules.parse .templateArgs

/-- An expression. -/
def expr (rules : Rules) (power : Nat) : Parse .look Expr :=
  rules.parse (.expr power)

/-- An operand. -/
def unary (rules : Rules) : Parse .look Expr :=
  rules.parse .unary

/-- Expressions up to a closing token. -/
def exprList (rules : Rules) (close : Kind) : Parse .look (List Expr) :=
  rules.parse (.exprList close)

/-- A declarator. -/
def declarator (rules : Rules) (mode : Mode) : Parse .look Declarator :=
  rules.parse (.declarator mode)

/-- The parameters of a template head. -/
def templateParams (rules : Rules) : Parse .look (List String) :=
  rules.parse .templateParams

/-- A statement. -/
def statement (rules : Rules) : Parse .declare Stmt :=
  rules.parse .statement

/-- A declaration. -/
def declaration (rules : Rules) : Parse .declare Unit :=
  rules.parse .declaration

end Rules

end Serpentine.Grammar

import Serpentine.Grammar.Definition

/-!
# Statements
-/

namespace Serpentine.Grammar

variable (rules : Rules)

/-- A local variable that is read and not yet declared. -/
structure LocalDecl where
  name : String
  value : Option Expr
  place : Position
deriving Repr, Inhabited

/-! ## Declarations in a block -/

def startsDeclaration (k : Kind) : Bool :=
  k.isPrimitive || [Kind.kwStatic, .kwConst, .kwConstexpr, .kwRegister, .kwVolatile, .kwExtern,
    .kwInline, .kwMutable, .kwTypename].contains k

/-- Whether to try a declaration before an expression. -/
def looksLikeDeclaration : Parse .look Bool := do
  if startsDeclaration (← kind) then
    return true
  match ← scanName 0 with
  | none => return false
  | some (segments, after) =>
    if ← isTypeName segments then
      return true
    match ← kindAt after with
    | .identifier => return true
    | .lt =>
      match ← scanAngles after with
      | none => return false
      | some after => checkAt after .identifier
    | _ => return false

/-- A local variable. A function that is only announced declares none. -/
def localDecl? (spec : TypeSpec) : Parse .look (Option LocalDecl) := do
  let d ← rules.declarator .strict
  if d.params.isSome then
    return none
  match d.ident? with
  | none => unexpected "a variable name"
  | some name => return some ⟨name, ← firstValue? rules spec d, d.place⟩

/-- A declaration up to the members of the type that it may define. -/
def blockHead : Parse .look TypeHead := do
  let _ ← specifiers
  typeHead rules

/-- The local variables of a declaration behind its type. -/
def localDecls (spec : TypeSpec) : Parse .look (List LocalDecl) := do
  skipQualifiers
  if ← eat .semicolon then
    return []
  let locals ← separated (localDecl? rules spec)
  require .semicolon "`;`"
  return locals.filterMap id

/-- The local variables of a declaration. -/
def blockDeclaration : Parse .declare (List LocalDecl) := do
  let head ← blockHead rules
  let spec ← head.complete rules
  localDecls rules spec

def commitLocal (v : LocalDecl) : Parse .declare Stmt := do
  let context := (← read).context
  let _ ← build (.addLocal context v.name v.place)
  declareName .value v.name
  return .declare v.name v.value

def grouped : List Stmt → Stmt
  | [s] => s
  | stmts => .block stmts

def commitLocals (locals : List LocalDecl) : Parse .declare Stmt :=
  return grouped (← locals.mapM commitLocal)

def blockDeclaration? : Parse .declare (Option (List LocalDecl)) := do
  if ← looksLikeDeclaration then speculate (blockDeclaration rules) else return none

/-! ## Expressions -/

def endStatement : Parse .look Unit :=
  require .semicolon "`;`"

def expressionStatement : Parse .look Stmt := do
  let exprs ← separated (rules.expr 0)
  endStatement
  return grouped (exprs.map .expr)

/-- An expression, or nothing before a `;`. -/
def expression? : Parse .look (Option Expr) := do
  if ← check .semicolon then return none else some <$> rules.expr 0

def conditionDeclaration : Parse .look Unit := do
  let _ ← specifiers
  let _ ← typeSpec rules .strict
  let _ ← rules.declarator .strict
  require .assign "`=`"

def condition : Parse .look Expr := do
  require .lParen "`(`"
  if ← looksLikeDeclaration then
    let declares ← attempt (conditionDeclaration rules)
    if declares.isSome then
      unsupported "declaration in a condition" (← here)
  let e ← rules.expr 0
  require .rParen "`)`"
  return e

/-! ## Compound statements -/

def body : Parse .declare (List Stmt) :=
  return (← rules.statement).toBlock

/-- The statements of a block. -/
def blockItems : Parse .declare (List Stmt) :=
  loop [] fun done => do
    if ← check .rBrace then
      return .inr done.reverse
    if ← check .eof then
      unexpected "`\x7d`"
    match ← rules.statement with
    | .block [] => return .inl done
    | s => return .inl (s :: done)

/-- The head of a loop over the items of a collection. -/
def forEachHead : Parse .look (String × Expr × Position) := do
  let _ ← specifiers
  let _ ← typeSpec rules .lenient
  let d ← rules.declarator .strict
  match d.ident? with
  | none => unexpected "a loop variable"
  | some name =>
    require .colon "`:`"
    let items ← rules.expr 0
    require .rParen "`)`"
    return (name, items, d.place)

def forInit : Parse .declare (List Stmt) := do
  if ← eat .semicolon then
    return []
  match ← blockDeclaration? rules with
  | some locals => return (← commitLocals locals).toBlock
  | none => return (← expressionStatement rules).toBlock

/-- A loop with a head, behind its opening parenthesis. -/
def forBehindParen : Parse .declare Stmt := do
  match ← attempt (forEachHead rules) with
  | some (name, items, place) =>
    let context := (← read).context
    let _ ← build (.addLocal context name place)
    declareName .value name
    return .forEach name items (← body rules)
  | none =>
    let init ← forInit rules
    let condition ← expression? rules
    endStatement
    let update ← if ← check .rParen then pure [] else separated (rules.expr 0)
    require .rParen "`)`"
    return .forLoop init condition update (← body rules)

/-- The groups of a switch with a label put in: the last group takes it as long as no statement
follows its labels. -/
def openCase (cases : List (Case Stmt)) (place : Position)
    (f : Case Stmt → Case Stmt) : List (Case Stmt) :=
  match cases with
  | case :: rest => if case.body.isEmpty then f case :: rest else f ⟨[], false, [], place⟩ :: cases
  | [] => [f ⟨[], false, [], place⟩]

/-- The groups of a switch up to its closing brace. The last group comes first in `cases`. -/
def switchCases : Parse .declare (List (Case Stmt)) :=
  loop [] fun cases => do
    let place ← here
    match ← kind with
    | .rBrace => return .inr cases.reverse
    | .kwCase =>
      skip
      let label ← rules.expr conditionalPower
      require .colon "`:`"
      return .inl (openCase cases place fun c => { c with labels := c.labels ++ [label] })
    | .kwDefault =>
      skip
      require .colon "`:`"
      return .inl (openCase cases place fun c => { c with isDefault := true })
    | .eof => unexpected "`\x7d`"
    | _ =>
      let s ← rules.statement
      match cases with
      | case :: rest => return .inl ({ case with body := case.body ++ [s] } :: rest)
      | [] => unsupported "statement before the first case" place

def switchStatement : Parse .declare Stmt := do
  let subject ← condition rules
  require .lBrace "`\x7b`"
  pushScope
  let cases ← switchCases rules
  require .rBrace "`\x7d`"
  popScope
  return .switch subject cases

/-- One statement that starts with a keyword or bracket; nothing if another sort of statement
stands here. -/
def keywordStatement? (k : Kind) (place : Position) :
    Parse .declare (Option Stmt) := do
  match k with
  | .lBrace =>
    skip
    pushScope
    let stmts ← blockItems rules
    require .rBrace "`\x7d`"
    popScope
    return some (.block stmts)
  | .semicolon =>
    skip
    return some (.block [])
  | .kwIf =>
    skip
    skipIf .kwConstexpr
    let test ← condition rules
    let ifTrue ← body rules
    let ifFalse ← if ← eat .kwElse then some <$> body rules else pure none
    return some (.ifElse test ifTrue ifFalse)
  | .kwWhile =>
    skip
    let test ← condition rules
    return some (.whileLoop test (← body rules))
  | .kwDo =>
    skip
    let stmts ← body rules
    require .kwWhile "`while`"
    let test ← condition rules
    endStatement
    return some (.doWhile stmts test)
  | .kwFor =>
    skip
    require .lParen "`(`"
    pushScope
    let s ← forBehindParen rules
    popScope
    return some s
  | .kwSwitch =>
    skip
    some <$> switchStatement rules
  | .kwBreak =>
    skip
    endStatement
    return some .breakStmt
  | .kwContinue =>
    skip
    endStatement
    return some .continueStmt
  | .kwReturn =>
    skip
    let value ← expression? rules
    endStatement
    return some (.ret value)
  | .kwThrow =>
    skip
    let value ← expression? rules
    endStatement
    return some (.throw value)
  | .kwDelete =>
    skip
    if ← eat .lBracket then
      require .rBracket "`]`"
    let target ← rules.expr 0
    endStatement
    return some (.delete target)
  | .kwGoto => unsupported "goto" place
  | .kwTry => unsupported "try block" place
  | .kwCase | .kwDefault => failHere .caseOutsideSwitch
  | .kwTypedef | .kwUsing | .kwStaticAssert =>
    rules.declaration
    return some (.block [])
  | .kwClass | .kwStruct | .kwUnion | .kwEnum =>
    some <$> (do commitLocals (← blockDeclaration rules))
  | _ => return none

/-- One statement of a body. -/
def statement : Parse .declare Stmt := do
  let place ← here
  let k ← kind
  match ← keywordStatement? rules k place with
  | some s => return s
  | none =>
    if ← pure (k == .identifier) <&&> checkAt 1 .colon then
      unsupported "label" place
    match ← blockDeclaration? rules with
    | some locals => commitLocals locals
    | none => expressionStatement rules

end Serpentine.Grammar

import Serpentine.Grammar.Statement

/-!
# Declarations
-/

namespace Serpentine.Grammar

variable (rules : Rules)

/-! ## Functions -/

inductive Tail where
  | announced | pure | defaulted | deleted | body
deriving Repr, DecidableEq, Inhabited

def specialMethod? (symbol : String) (arity : Nat) : Option String :=
  match symbol, arity with
  | "+", 0 => some "__pos__"
  | "-", 0 => some "__neg__"
  | "~", 0 => some "__invert__"
  | "+", _ => some "__add__"
  | "-", _ => some "__sub__"
  | "*", 1 => some "__mul__"
  | "/", _ => some "__truediv__"
  | "%", _ => some "__mod__"
  | "==", _ => some "__eq__"
  | "!=", _ => some "__ne__"
  | "<", _ => some "__lt__"
  | "<=", _ => some "__le__"
  | ">", _ => some "__gt__"
  | ">=", _ => some "__ge__"
  | "[]", _ => some "__getitem__"
  | "()", _ => some "__call__"
  | "<<", _ => some "__lshift__"
  | ">>", _ => some "__rshift__"
  | "&", 1 => some "__and__"
  | "|", _ => some "__or__"
  | "^", _ => some "__xor__"
  | "+=", _ => some "__iadd__"
  | "-=", _ => some "__isub__"
  | "*=", _ => some "__imul__"
  | "/=", _ => some "__itruediv__"
  | "%=", _ => some "__imod__"
  | "<<=", _ => some "__ilshift__"
  | ">>=", _ => some "__irshift__"
  | "&=", _ => some "__iand__"
  | "|=", _ => some "__ior__"
  | "^=", _ => some "__ixor__"
  | _, _ => none

def conversionMethod? : Option Primitive → Option String
  | some .int => some "__int__"
  | some .float => some "__float__"
  | some .bool => some "__bool__"
  | _ => none

def functionTail : Parse .look Tail := do
  match ← kind with
  | .assign =>
    skip
    let token ← advance
    match token.kind with
    | .kwDefault => return .defaulted
    | .kwDelete => return .deleted
    | k =>
      if k == .intLiteral && token.lexeme == "0" then return .pure
      else failHere (.functionTail token.lexeme)
  | .colon | .lBrace => return .body
  | .kwTry => unsupported "function try block" (← here)
  | _ => return .announced

/-- The value of a name is declared here, unless it belongs to another declaration. -/
def declareIdent (name : DeclaratorName) (ident : String) : Parse .name Unit := do
  if name.scope.isEmpty then
    declareName .value ident

/-- Adds a function or method under its own name. -/
def commitNamed (kind : RoutineKind) (owner : DeclId) (name : DeclaratorName) (ident : String)
    (spec : RoutineSpec) (place : Position) : Parse .declare DeclId := do
  declareIdent name ident
  noteTemplate ident
  build (.addRoutine kind owner ident spec place)

/-- Adds a member function of a class; nothing if it is passed over. -/
def commitMember (cls : DeclId) (name : DeclaratorName) (spec : RoutineSpec) (tail : Tail)
    (place : Position) : Parse .declare (Option DeclId) := do
  match name.base with
  | .ident ident =>
    if tail = .defaulted then
      return none
    if (← read).store.name? cls == some ident then
      some <$> build (.addConstructor cls spec place)
    else
      some <$> commitNamed .method cls name ident spec place
  | .destructor _ =>
    if tail = .defaulted then
      return none
    some <$> build (.addDestructor cls spec place)
  | .operator symbol =>
    match specialMethod? symbol spec.params.length with
    | some method => some <$> build (.addRoutine .method cls method spec place)
    | none =>
      if symbol == "=" then
        warn place "assignment operator skipped"
        return none
      else
        unsupported ("operator" ++ symbol) place
  | .conversion type =>
    match conversionMethod? type with
    | some method => some <$> build (.addRoutine .method cls method spec place)
    | none => unsupported "conversion operator" place

/-- Adds a function of a module; nothing if it is passed over. -/
def commitFree (owner : DeclId) (name : DeclaratorName) (spec : RoutineSpec) (place : Position) :
    Parse .declare (Option DeclId) := do
  match name.base with
  | .ident ident => some <$> commitNamed .function owner name ident spec place
  | .operator symbol =>
    warn place ("free function operator" ++ symbol ++ " skipped")
    return none
  | .conversion _ =>
    warn place "conversion operator outside a class skipped"
    return none
  | .destructor cls => failHere (.destructorOutside cls)

def routineSpec (specs : Specifiers) (spec : TypeSpec) (params : List ParameterSpec)
    (tail : Tail) : RoutineSpec :=
  { params
    returnType := spec.text
    isStatic := specs.isStatic
    isVirtual := specs.isVirtual || tail = .pure
    isPure := tail = .pure
    hasBody := tail = .body }

/-- Adds a function; nothing if it is passed over. -/
def commitFunction (specs : Specifiers) (spec : TypeSpec) (d : Declarator)
    (params : List ParameterSpec) (tail : Tail) : Parse .declare (Option DeclId) := do
  match d.name with
  | none => failHere .functionNameMissing
  | some name =>
    if tail = .deleted then
      return none
    let owner ← ownerOf name.scope d.place
    let head := routineSpec specs spec params tail
    match (← read).store.entity? owner with
    | some (.classType _) => commitMember owner name head tail d.place
    | some (.namespaceOf _) => commitFree owner name head d.place
    | _ => if head.hasBody then failHere .functionBodyHere else return none

def memberInits : Parse .look (List MemberInit) := do
  require .colon "`:`"
  separated do
    let place ← here
    let segments ← typeName rules
    let args ←
      if ← eat .lBrace then rules.exprList .rBrace
      else do
        require .lParen "`(`"
        rules.exprList .rParen
    skipIf .ellipsis
    return ⟨joinScope segments, args, place⟩

def parameterNames (s : Store) (routine : DeclId) : List String :=
  (((s.routine? routine).map Routine.parameters).getD []).filterMap s.name?

def isConstructor (s : Store) (id : DeclId) : Bool :=
  match s.entity? id with
  | some (.routine .constructor _) => true
  | _ => false

def functionDefinition (routine : DeclId) : Parse .declare Unit :=
  withContext routine do
    if ← check .colon then
      let inits ← memberInits rules
      unless isConstructor (← read).store routine do
        failHere .initialisersHere
      build (.setInitializers routine inits)
    require .lBrace "`\x7b`"
    pushScope
    (parameterNames (← read).store routine).forM (declareName .value ·)
    let stmts ← blockItems rules
    require .rBrace "`\x7d`"
    popScope
    build (.setStatements routine stmts)

/-- Passes over the definition of a function that is not kept. -/
def skipDefinition : Parse .look Unit := do
  if ← check .colon then
    discard (memberInits rules)
  skipBalanced

def functionRest (specs : Specifiers) (spec : TypeSpec) (d : Declarator)
    (params : List ParameterSpec) : Parse .declare Bool := do
  let tail ← functionTail
  let target ← commitFunction specs spec d params tail
  if tail = .body then
    match target with
    | some id => functionDefinition rules id
    | none => skipDefinition rules
    return true
  else
    return false

/-! ## Variables -/

def skipWidth : Parse .look Bool := do
  if ← eat .colon then
    discard (rules.expr conditionalPower)
    return true
  else
    return false

def commitVariable (specs : Specifiers) (owner : DeclId) (ident : String) (value : Option Expr)
    (place : Position) : Parse .declare Unit := do
  match (← read).store.entity? owner with
  | some (.classType _) =>
    discard <| build (.add owner (some ident) (.attribute ⟨value, specs.isStatic⟩) place)
  | some (.namespaceOf _) =>
    unless specs.isExtern && value.isNone do
      discard <| build (.add owner (some ident) (.variableOf ⟨value, false⟩) place)
  | _ => failHere .variableHere

def definedMember? (name : DeclaratorName) (owner : DeclId) (ident : String) :
    Parse .name (Option DeclId) := do
  if name.scope.isEmpty then
    declareName .value ident
    return none
  else
    return ((← read).store.members? owner).bind (·.get? ident)

def variableRest (specs : Specifiers) (spec : TypeSpec) (d : Declarator) :
    Parse .declare Unit := do
  match d.name, d.ident? with
  | none, _ =>
    unless ← skipWidth rules do
      unexpected "a declarator name"
  | some _, none => failHere .variableNameMissing
  | some name, some ident =>
    let _ ← skipWidth rules
    let explicit ← initialiser? rules spec
    let owner ← ownerOf name.scope d.place
    match ← definedMember? name owner ident with
    | some id => explicit.forM fun value => build (.setValue id value)
    | none =>
      let value ← match explicit with
        | some value => pure (some value)
        | none => defaultValue? spec d
      commitVariable specs owner ident value d.place

def declarators (specs : Specifiers) (spec : TypeSpec) : Parse .declare Unit :=
  loop () fun _ => do
    let d ← rules.declarator .lenient
    let ended ←
      if specs.isTypedef then do
        commitTypedef spec d
        pure false
      else match d.params with
        | some params => functionRest rules specs spec d params
        | none => do
          variableRest rules specs spec d
          pure false
    if ended then
      return .inr ()
    if ← eat .comma then
      return .inl ()
    require .semicolon "`;`"
    return .inr ()

/-! ## Simple declarations -/

/-- A constructor, destructor or conversion stands here. These have no type in front. -/
def atSpecialMember : Parse .look Bool := do
  match ← kind with
  | .tilde | .kwOperator => return true
  | .identifier | .colonColon =>
    match ← scanName 0 with
    | none => return false
    | some (segments, after) =>
      match ← kindAt after with
      | .lParen =>
        match segments.reverse with
        | [single] =>
          let s ← read
          return (s.store.class? s.context).isSome && s.store.name? s.context == some single
        | last :: before :: _ => return last == before
        | [] => return false
      | .colonColon => return [Kind.tilde, .kwOperator].contains (← kindAt (after + 1))
      | _ => return false
  | _ => return false

def specialMember (specs : Specifiers) : Parse .declare Unit := do
  let d ← rules.declarator .lenient
  match d.params with
  | none => unexpected "a parameter list"
  | some params =>
    unless ← functionRest rules specs .none d params do
      require .semicolon "`;`"

/-- Ends the definition of a class that declares nothing else. The members of one without a name
belong to the class around it. -/
def endBareDefinition (id : DeclId) : Parse .declare Unit := do
  let s ← read
  if (s.store.name? id).isNone && (s.store.class? id).isSome then
    if (s.store.class? s.context).isSome then
      build (.dissolve id)
    else
      warn (s.store.place id) "anonymous class is never used"

def simpleDeclaration : Parse .declare Unit := do
  let _ ← here
  let specs ← specifiers
  if specs.isFriend then
    skipDeclaration
  else if ← atSpecialMember then
    specialMember rules specs
  else
    let spec ← declType rules
    if ← eat .semicolon then
      spec.defined.forM endBareDefinition
    else
      declarators rules specs spec

/-! ## Other declarations -/

def namespaceNames : Parse .look (List String) :=
  loop [] fun done => do
    if ← check .identifier then
      let names := (← advance).lexeme :: done
      if ← eat .colonColon then
        skipIf .kwInline
        return .inl names
      else
        return .inr names.reverse
    else
      return .inr done.reverse

/-- A namespace. One without a name belongs to the namespace around it. -/
def namespaceDeclaration : Parse .declare Unit := do
  let place ← here
  require .kwNamespace "`namespace`"
  let names ← namespaceNames
  if ← check .assign then
    skipDeclaration
  else
    let context := (← read).context
    unless (← read).store.isModule context do
      failHere .namespaceHere
    let target ← names.foldlM (fun id name => build (.addModule id name place)) context
    require .lBrace "`\x7b`"
    pushScope
    withContext target (declarations rules .rBrace)
    require .rBrace "`\x7d`"
    popScope

/-- An alias of a type, or another use of `using`, which is passed over. -/
def usingDeclaration : Parse .declare Unit := do
  require .kwUsing "`using`"
  if ← check .identifier <&&> checkAt 1 .assign then
    let place ← here
    let name := (← advance).lexeme
    skip
    let spec ← declType rules
    let indirect ← abstractDeclarator
    commitTypedef spec ⟨some ⟨[], .ident name⟩, indirect, [], none, place⟩
    require .semicolon "`;`"
  else
    skipDeclaration

/-- A parameter of a template head, with its name if it stands for a type. -/
def templateParam : Parse .look (List String) := do
  match ← kind with
  | .kwTypename | .kwClass =>
    skip
    skipIf .ellipsis
    let name ← identifier?
    if ← eat .assign then
      discard <| withTemplateArgs true (typeId rules .lenient)
    return name.toList
  | .kwTemplate =>
    skip
    require .lt "`<`"
    let _ ← rules.templateParams
    closeAngle
    unless ← eat .kwClass <||> eat .kwTypename do
      unexpected "`class`"
    return (← identifier?).toList
  | _ =>
    let _ ← typeSpec rules .lenient
    skipIf .ellipsis
    let _ ← rules.declarator .lenient
    if ← eat .assign then
      discard <| withTemplateArgs true (rules.expr conditionalPower)
    return []

/-- The names of the parameters of a template head that stand for types. -/
def templateParams : Parse .look (List String) :=
  return (← separated (templateParam rules)).flatten

/-- A template. Instances and special cases are passed over. -/
def templateDeclaration : Parse .declare Unit := do
  require .kwTemplate "`template`"
  if !(← eat .lt) then
    skipDeclaration
  else if ← eat .gt then
    skipDeclaration
  else
    let params ← rules.templateParams
    closeAngle
    underTemplate params rules.declaration

def linkageDeclaration : Parse .declare Unit := do
  skip
  skip
  if ← eat .lBrace then
    declarations rules .rBrace
    require .rBrace "`\x7d`"
  else
    rules.declaration

/-- One declaration of a file, namespace or class. -/
def declaration : Parse .declare Unit := do
  match ← kind with
  | .semicolon => skip
  | .kwNamespace => namespaceDeclaration rules
  | .kwInline =>
    if ← checkAt 1 .kwNamespace then
      skip
      namespaceDeclaration rules
    else
      simpleDeclaration rules
  | .kwUsing => usingDeclaration rules
  | .kwTemplate => templateDeclaration rules
  | .kwStaticAssert => skipDeclaration
  | .kwExtern =>
    if ← checkAt 1 .stringLiteral then linkageDeclaration rules else simpleDeclaration rules
  | .kwPublic | .kwPrivate | .kwProtected =>
    if ← checkAt 1 .colon then
      skip
      skip
    else
      simpleDeclaration rules
  | _ => simpleDeclaration rules

end Serpentine.Grammar

import Serpentine.Grammar.Declarator

/-!
# Definitions of types
-/

namespace Serpentine.Grammar

variable (rules : Rules)

def inRoutine (id : DeclId) : Parse .look Bool :=
  return ((← read).store.routine? id).isSome

/-- The declaration that the parts in front of a declared name stand for. -/
def ownerOf (scope : List String) (place : Position) : Parse .look DeclId := do
  let s ← read
  if scope.isEmpty then
    return s.context
  match s.store.lookupQualified s.context scope with
  | .ok (.decl id) => return id
  | .ok (.enumerator ..) => failHere .enumeratorAsScope
  | .error missing => fail (.unresolved (joinScope scope) missing place)

def declarationBefore (close : Kind) : Parse .declare (Unit ⊕ Unit) := do
  if ← check close then
    return .inr ()
  if ← check .eof then
    unexpected "`\x7d`"
  rules.declaration
  return .inl ()

/-- Declarations up to a closing token. -/
def declarations (close : Kind) : Parse .declare Unit :=
  loop () fun _ => declarationBefore rules close

def braced {α : Type} (id : DeclId) (members : Parse .declare α) : Parse .declare α := do
  require .lBrace "`\x7b`"
  pushScope
  let result ← withContext id members
  require .rBrace "`\x7d`"
  popScope
  return result

/-! ## Heads of types -/

/-- The type of a declaration, as far as it is read before anything is declared. -/
inductive TypeHead where
  | plain (spec : TypeSpec)
  | classUse (segments : List String)
  /-- A special case of a class template, which is passed over. -/
  | specialisation (segments : List String)
  | classDefinition (key : ClassKey) (owner : DeclId) (name : Option String)
      (bases : List (String × Position)) (place : Position)
  | enumUse (name : String)
  | enumDefinition (owner : DeclId) (name : Option String) (isScoped : Bool) (place : Position)
deriving Repr, Inhabited

def TypeHead.owner? : TypeHead → Option DeclId
  | .classDefinition _ owner .. | .enumDefinition owner .. => some owner
  | _ => none

def baseClass : Parse .look (String × Position) := do
  skipAll [.kwPublic, .kwProtected, .kwPrivate, .kwVirtual]
  let place ← here
  let segments ← typeName rules
  skipIf .ellipsis
  return (joinScope segments, place)

def baseClause : Parse .look (List (String × Position)) := do
  require .colon "`:`"
  let bases ← separated (baseClass rules)
  if ← check .lBrace then return bases else unexpected "`\x7b`"

def classKeyOf (k : Kind) : ClassKey :=
  match k with
  | .kwStruct => .structKey
  | .kwUnion => .unionKey
  | _ => .classKey

def classOwner (segments : Option (List String)) (place : Position) :
    Parse .look (DeclId × Option String) := do
  match segments with
  | none => return ((← read).context, none)
  | some segments => return (← ownerOf segments.dropLast place, segments.getLast?)

def classUse (segments : Option (List String)) : Parse .look TypeHead := do
  match segments with
  | none => unexpected "a class name"
  | some segments => return .classUse segments

def classDefinition (key : ClassKey) (segments : Option (List String))
    (bases : List (String × Position)) (place : Position) : Parse .look TypeHead := do
  let (owner, name) ← classOwner segments place
  if ← inRoutine owner then
    unsupported "local class definition" place
  else
    return .classDefinition key owner name bases place

def skipFinal : Parse .look Unit := do
  let token ← peek
  if token.kind == .identifier && token.lexeme == "final" then
    skip

/-- The base classes behind the name of a class; nothing if a `:` stands there for something
else. -/
def bases? : Parse .look (Option (List (String × Position))) := do
  if ← check .colon then attempt (baseClause rules) else return some []

def classBehindName (key : ClassKey) (segments : Option (List String))
    (place : Position) : Parse .look TypeHead := do
  skipFinal
  match ← bases? rules with
  | none => classUse segments
  | some bases =>
    if ← check .lBrace then classDefinition key segments bases place else classUse segments

def classHead : Parse .look TypeHead := do
  let place ← here
  let key := classKeyOf (← advance).kind
  if ← checkAny [.identifier, .colonColon] then
    let segments ← scopedName fun _ => pure ()
    if ← check .lt then
      rules.templateArgs
      if ← checkAny [.lBrace, .colon] then
        return .specialisation segments
      else
        classBehindName rules key (some segments) place
    else
      classBehindName rules key (some segments) place
  else
    classBehindName rules key none place

def identifier? : Parse .look (Option String) := do
  if ← check .identifier then return some (← advance).lexeme else return none

def underlyingType : Parse .look Unit := do
  skip
  let _ ← typeSpec rules .lenient
  unless ← checkAny [.lBrace, .semicolon] do
    unexpected "`\x7b`"

/-- Passes over the type behind the name of an enumeration, unless it is the width of a field. -/
def skipUnderlying : Parse .look Unit := do
  if ← check .colon then
    discard <| attempt (underlyingType rules)

/-- An enumeration behind its name, of which no routine may hold a definition. -/
def enumBehindName (name : Option String) (isScoped : Bool) (place : Position) :
    Parse .look TypeHead := do
  if ← check .lBrace then
    let owner := (← read).context
    if ← inRoutine owner then
      unsupported "local enumeration" place
    else
      return .enumDefinition owner name isScoped place
  else
    match name with
    | none => unexpected "an enumeration name"
    | some name => return .enumUse name

def enumHead : Parse .look TypeHead := do
  let place ← here
  require .kwEnum "`enum`"
  let isScoped ← eat .kwClass <||> eat .kwStruct
  let name ← identifier?
  skipUnderlying rules
  enumBehindName name isScoped place

/-- The type of a declaration up to the members that it may define. -/
def typeHead : Parse .look TypeHead := do
  match ← kind with
  | .kwClass | .kwStruct | .kwUnion => classHead rules
  | .kwEnum => enumHead rules
  | _ => .plain <$> typeSpec rules .lenient

/-! ## Types behind their heads -/

def announceType (name : String) : Parse .name Unit := do
  if ← check .semicolon then
    declareName .type name

def useClass (segments : List String) : Parse .name TypeSpec := do
  if let [name] := segments then
    announceType name
  forgetTemplate
  return .ofName (joinScope segments)

def useEnum (name : String) : Parse .name TypeSpec := do
  announceType name
  return .ofName name

/-- Passes over the definition of a special case of a class template. -/
def skipSpecialisation (segments : List String) : Parse .name TypeSpec := do
  let _ ← many do
    if ← check .lBrace then
      return none
    if ← check .eof then
      unexpected "`\x7b`"
    skip
    return some ()
  skipBalanced
  forgetTemplate
  return .ofName (joinScope segments)

/-- Gives a class its first base class. The others are dropped with a warning. -/
def setBases (id : DeclId) : List (String × Position) → Parse .declare Unit
  | [] => pure ()
  | (raw, place) :: others => do
    let superclass ← nameExpr raw place
    build (.setSuperclass id superclass)
    others.forM fun (raw, place) => warn place ("additional base class `" ++ raw ++ "` dropped")

def declareClass (name : Option String) : Parse .name Unit := do
  match name with
  | some name =>
    declareName .type name
    noteTemplate name
  | none => forgetTemplate

def defineClass (key : ClassKey) (owner : DeclId) (name : Option String)
    (bases : List (String × Position)) (place : Position) : Parse .declare TypeSpec := do
  let id ← build (.add owner name (.classType (.empty key)) place)
  declareClass name
  withContext owner (setBases id bases)
  braced id (declarations rules .rBrace)
  return .ofDefinition name id

def enumerator (id : DeclId) : Parse .declare String := do
  let place ← here
  let name ← identifier
  let init ← if ← eat .assign then some <$> rules.expr conditionalPower else pure none
  build (.addEnumerator id name init place)
  declareName .value name
  return name

def enumerators (id : DeclId) : Parse .declare (List String) :=
  loop [] fun done => do
    if ← check .rBrace then
      return .inr done.reverse
    let name ← enumerator rules id
    if ← eat .comma then
      return .inl (name :: done)
    else
      return .inr (name :: done).reverse

/-- The definition of an enumeration, from its opening brace on. -/
def defineEnum (owner : DeclId) (name : Option String) (isScoped : Bool)
    (place : Position) : Parse .declare TypeSpec := do
  let id ← build (.add owner name (.enumeration (.empty isScoped)) place)
  name.forM (declareName .type ·)
  let names ← braced id (enumerators rules id)
  unless isScoped do
    names.forM (declareName .value ·)
  return .ofDefinition name id

/-- The use or definition of a type behind its head. -/
def TypeHead.complete : TypeHead → Parse .declare TypeSpec
  | .plain spec => return spec
  | .classUse segments => useClass segments
  | .specialisation segments => skipSpecialisation segments
  | .classDefinition key owner name bases place => defineClass rules key owner name bases place
  | .enumUse name => useEnum name
  | .enumDefinition owner name isScoped place => defineEnum rules owner name isScoped place

def declType : Parse .declare TypeSpec := do
  let head ← typeHead rules
  let spec ← head.complete rules
  skipQualifiers
  return spec

/-! ## Aliases -/

/-- Declares an alias of a class or enumeration, unless the name is that of something else. -/
def commitAlias (name raw : String) (place : Position) : Parse .declare Unit := do
  let s ← read
  if raw != name && s.store.namesType s.context (TypeName.segments raw) then
    let value ← nameExpr raw place
    discard <| build (.add s.context (some name) (.variableOf ⟨some value, true⟩) place)

/-- Makes another name for a type. -/
def commitTypedef (spec : TypeSpec) (d : Declarator) : Parse .declare Unit := do
  match d.ident? with
  | none => failHere .typedefNameMissing
  | some name =>
    declareName .type name
    if d.indirect || !d.arrays.isEmpty || d.params.isSome then
      return
    if let some primitive := spec.primitive then
      addAlias name primitive
      return
    let s ← read
    if let some id := spec.defined then
      if (s.store.name? id).isNone then
        build (.nameAnonymous id name)
        return
    if (s.store.routine? s.context).isSome then
      return
    if let some raw := spec.named then
      commitAlias name raw d.place

end Serpentine.Grammar

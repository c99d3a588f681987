import Serpentine.Grammar.Expression

/-!
# Declarators
-/

namespace Serpentine.Grammar

variable (rules : Rules)

/-! ## Names -/

def conversionName (first : Kind) : Parse .look DeclaratorBase := do
  let more ← many do
    let k ← kind
    if k.isPrimitive || k == .kwConst then
      skip
      return some k
    else
      return none
  skipAll [.colonColon, .identifier]
  let _ ← abstractDeclarator
  let words := (first :: more).filter (· != .kwConst)
  return .conversion (if words.all Kind.isPrimitive then primitiveOf words else none)

def operatorName : Parse .look DeclaratorBase := do
  let token ← advance
  match token.kind with
  | .lParen =>
    require .rParen "`)`"
    return .operator "()"
  | .lBracket =>
    require .rBracket "`]`"
    return .operator "[]"
  | .kwNew | .kwDelete =>
    if ← eat .lBracket then
      require .rBracket "`]`"
      return .operator (token.lexeme ++ "[]")
    else
      return .operator token.lexeme
  | .eof => unexpected "an operator"
  | k =>
    if k.isPrimitive || k == .identifier || k == .kwConst then conversionName k
    else return .operator token.lexeme

/-- The angle brackets in front belong to the scope of a name. -/
def scopeBehindAngles : Parse .look Bool := do
  match ← scanAngles 0 with
  | none => return false
  | some after => checkAt after .colonColon

def declaratorName : Parse .look DeclaratorName := do
  let start := if ← eat .colonColon then [""] else []
  loop start fun scope => do
    match ← kind with
    | .tilde =>
      skip
      return .inr ⟨scope, .destructor (← identifier)⟩
    | .kwOperator =>
      skip
      return .inr ⟨scope, ← operatorName⟩
    | _ =>
      let name ← identifier
      if ← check .lt <&&> (isTemplateName [name] <||> scopeBehindAngles) then
        rules.templateArgs
      if ← eat .colonColon then
        return .inl (scope ++ [name])
      else
        return .inr ⟨scope, .ident name⟩

/-! ## Parameters -/

/-- The spelling of a type with the pointers and array brackets of a declarator. -/
def parameterType (spec : TypeSpec) (d : Declarator) : String :=
  spec.text ++ (if d.indirect then "*" else "") ++ String.join (d.arrays.map fun _ => "[]")

def startsDeclarator (k : Kind) : Bool :=
  [Kind.identifier, .star, .amp, .andAnd, .tilde, .kwOperator, .colonColon].contains k

/-- A token that can stand behind the type of a parameter without a name. -/
def endsParameterType (k : Kind) : Bool :=
  [Kind.comma, .rParen, .assign, .lBracket, .lParen].contains k

def assigned? : Parse .look (Option Expr) := do
  if ← eat .assign then some <$> rules.expr 0 else return none

def parameter (mode : Mode) : Parse .look ParameterSpec := do
  let place ← here
  let _ ← specifiers
  let isLone ← check .identifier <&&> (do
    return [Kind.comma, .rParen, .assign].contains (← kindAt 1))
  let spec ← typeSpec rules mode
  if isLone && spec.primitive.isNone then
    unless ← (spec.named.elim (pure false) fun name => isTypeName [name]) do
      failHere (.notAParameterType spec.text)
  if mode == .lenient && spec.named.isSome then
    let k ← kind
    unless startsDeclarator k || endsParameterType k do
      unexpected "a parameter declarator"
  let d ← rules.declarator .lenient
  return ⟨d.ident?, parameterType spec d, ← assigned? rules, place⟩

/-- Parameters with commas between them. Nothing follows an ellipsis. -/
def parameterList (mode : Mode) : Parse .look (List ParameterSpec) :=
  loop [] fun done => do
    if ← eat .ellipsis then
      return .inr done.reverse
    let param ← parameter rules mode
    if ← eat .comma then
      return .inl (param :: done)
    else
      return .inr (param :: done).reverse

def functionQualifiers : Parse .look Unit :=
  loop () fun _ => do
    let token ← peek
    match token.kind with
    | .kwConst | .kwVolatile | .amp | .andAnd =>
      skip
      return .inl ()
    | .kwNoexcept | .kwThrow =>
      skip
      if ← check .lParen then
        skipBalanced
      return .inl ()
    | .identifier =>
      if token.lexeme == "override" || token.lexeme == "final" then
        skip
        return .inl ()
      else
        return .inr ()
    | .arrow =>
      skip
      let _ ← typeId rules .lenient
      return .inl ()
    | _ => return .inr ()

def parameters (mode : Mode) : Parse .look (List ParameterSpec) := do
  require .lParen "`(`"
  if ← check .kwVoid <&&> checkAt 1 .rParen then
    skip
  let params ← if ← check .rParen then pure [] else parameterList rules mode
  require .rParen "`)`"
  functionQualifiers rules
  return params

/-- The types of parameters that are declared between their names and the body. -/
def parameterTypes : Parse .look (List (String × String)) := do
  let groups ← many do
    if ← check .lBrace then
      return none
    let _ ← specifiers
    let spec ← typeSpec rules .lenient
    let types ← separated do
      let d ← rules.declarator .strict
      match d.ident? with
      | none => unexpected "a parameter name"
      | some name => return (name, spec.text ++ if d.indirect then "*" else "")
    require .semicolon "`;`"
    return some types
  return groups.flatten

/-- Gives each name its type. The last type of a name counts, and the first use of a name takes it;
what has no type is an `int`. -/
def assignTypes (types : List (String × String)) : List (String × Position) → List ParameterSpec
  | [] => []
  | (name, place) :: rest =>
    let type := (types.reverse.lookup name).getD "int"
    ⟨some name, type, none, place⟩ :: assignTypes (types.filter (·.1 != name)) rest

def namedParameters : Parse .look (List ParameterSpec) := do
  require .lParen "`(`"
  let names ← separated do
    let place ← here
    return (← identifier, place)
  require .rParen "`)`"
  return assignTypes (← parameterTypes rules) names

/-! ## Declarators -/

def arraySizes : Parse .look (List (Option Expr)) :=
  many do
    if ← eat .lBracket then
      if ← eat .rBracket then
        return some none
      let size ← rules.expr 0
      require .rBracket "`]`"
      return some (some size)
    else
      return none

/-- The parameters behind a name, if what stands there can be parameters. -/
def parameters? (mode : Mode) : Parse .look (Option (List ParameterSpec)) := do
  match ← attempt (parameters rules mode) with
  | some params => return some params
  | none => if mode == .lenient then attempt (namedParameters rules) else return none

def declarator (mode : Mode) : Parse .look Declarator := do
  let place ← here
  let indirect ← pointers
  if ← check .lParen <&&> (do return [Kind.star, .amp].contains (← kindAt 1)) then
    skip
    let inner ← rules.declarator mode
    require .rParen "`)`"
    if ← check .lParen then
      skipBalanced
    return { inner with indirect := true, params := none }
  let name ←
    if ← checkAny [.identifier, .colonColon, .tilde, .kwOperator] then
      some <$> declaratorName rules
    else pure none
  let arrays ← arraySizes rules
  let params ←
    if ← pure arrays.isEmpty <&&> check .lParen then parameters? rules mode else pure none
  return { name, indirect, arrays, params, place }

/-! ## First values -/

def namesClass (raw : String) : Parse .look Bool := do
  let s ← read
  return s.store.namesClass s.context (TypeName.segments raw)

/-- The value of a variable of a type that is made from arguments. -/
def construct (spec : TypeSpec) (args : List Expr) (braced : Bool) : Parse .look Expr := do
  let plain := if braced && 1 < args.length then Expr.list args else firstOrNone args
  match spec.primitive, spec.named with
  | none, some raw =>
    if ← namesClass raw then
      let place ← here
      return .call (← nameExpr raw place) args
    else
      return if braced then .list args else firstOrNone args
  | _, _ => return plain

def initialiser? (spec : TypeSpec) : Parse .look (Option Expr) := do
  if ← eat .assign then
    if ← eat .lBrace then
      some <$> construct spec (← rules.exprList .rBrace) true
    else
      some <$> rules.expr 0
  else if ← eat .lBrace then
    some <$> construct spec (← rules.exprList .rBrace) true
  else if ← eat .lParen then
    some <$> construct spec (← rules.exprList .rParen) false
  else
    return none

def defaultValue? (spec : TypeSpec) (d : Declarator) : Parse .look (Option Expr) := do
  match d.arrays, spec.named with
  | size :: _, _ => return size.map emptyPlaces
  | [], none => return none
  | [], some raw =>
    if d.indirect then
      return none
    if ← namesClass raw then
      return some (.call (← nameExpr raw d.place) [])
    else
      return none

def firstValue? (spec : TypeSpec) (d : Declarator) : Parse .look (Option Expr) := do
  match ← initialiser? rules spec with
  | some value => return some value
  | none => defaultValue? spec d

end Serpentine.Grammar

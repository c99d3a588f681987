import Serpentine.Grammar.Rule

/-!
# Types
-/

namespace Serpentine.Grammar

/-- The built-in type of some keywords, if they tell one. -/
def primitiveOf (words : List Kind) : Option Primitive :=
  if words.contains .kwVoid then some .void
  else if words.contains .kwBool then some .bool
  else if words.contains .kwFloat || words.contains .kwDouble then some .float
  else if words = [.kwChar] ∨ words = [.kwWcharT] then some .char
  else if words = [.kwAuto] then none
  else some .int

def specifiers : Parse .look Specifiers :=
  loop Specifiers.none fun specs => do
    let next ← match ← kind with
      | .kwStatic => pure (some { specs with isStatic := true })
      | .kwVirtual => pure (some { specs with isVirtual := true })
      | .kwTypedef => pure (some { specs with isTypedef := true })
      | .kwFriend => pure (some { specs with isFriend := true })
      | .kwExtern =>
        if ← checkAt 1 .stringLiteral then pure none
        else pure (some { specs with isExtern := true })
      | .kwInline | .kwExplicit | .kwConstexpr | .kwMutable | .kwRegister => pure (some specs)
      | _ => pure none
    match next with
    | none => return .inr specs
    | some specs =>
      skip
      return .inl specs

def skipQualifiers : Parse .look Unit :=
  skipAll [.kwConst, .kwVolatile]

/-- The parts of a scoped name. `behind` reads what may stand behind a part, given all parts up to
it. -/
def scopedName (behind : List String → Parse .look Unit) : Parse .look (List String) := do
  let start := if ← eat .colonColon then [""] else []
  loop start fun before => do
    let segments := before ++ [← identifier]
    behind segments
    if ← check .colonColon <&&> checkAt 1 .identifier then
      skip
      return .inl segments
    else
      return .inr segments

def joinScope (segments : List String) : String :=
  "::".intercalate segments

def typeName (rules : Rules) : Parse .look (List String) :=
  scopedName fun _ => do if ← check .lt then rules.templateArgs

def primitiveWords : Parse .look (List Token) := do
  let tokens ← many do
    let k ← kind
    if k.isPrimitive || k == .kwConst then some <$> advance else return none
  return tokens.filter (·.kind != .kwConst)

def namedType (rules : Rules) (mode : Mode) : Parse .look TypeSpec := do
  let place ← here
  let segments ← typeName rules
  let raw := joinScope segments
  match ← primitiveAlias? segments with
  | some primitive => return .ofPrimitive raw (some primitive)
  | none =>
    if mode == .strict then
      unless ← isTypeName segments do
        fail (.grammar (.notAType raw) place)
    return .ofName raw

/-- The type in front of a declarator. -/
def typeSpec (rules : Rules) (mode : Mode) : Parse .look TypeSpec := do
  skipQualifiers
  skipIf .kwTypename
  let k ← kind
  let spec ←
    if k.isPrimitive then do
      let words ← primitiveWords
      let spelling := " ".intercalate (words.map (·.lexeme))
      pure (.ofPrimitive spelling (primitiveOf (words.map (·.kind))))
    else if [.kwClass, .kwStruct, .kwUnion, .kwEnum].contains k then do
      skip
      pure (.ofName (joinScope (← typeName rules)))
    else if k == .identifier || k == .colonColon then namedType rules mode
    else unexpected "a type"
  skipQualifiers
  return spec

/-- Takes `*`, `&` and `&&` with their qualifiers, and tells whether there were any. -/
def pointers : Parse .look Bool := do
  let taken ← many do
    if ← checkAny [.star, .amp, .andAnd] then
      skip
      skipQualifiers
      return some ()
    else
      return none
  return !taken.isEmpty

/-- The pointers and array brackets of a type without a name, and whether there were pointers. -/
def abstractDeclarator : Parse .look Bool := do
  let indirect ← pointers
  let _ ← many do
    if ← check .lBracket then
      skipBalanced
      return some ()
    else
      return none
  return indirect

def typeId (rules : Rules) (mode : Mode) : Parse .look (TypeSpec × Bool) := do
  let spec ← typeSpec rules mode
  return (spec, ← abstractDeclarator)

/-- A template argument: a type, or else an expression. -/
def templateArg (rules : Rules) : Parse .look Unit := do
  let asType ← attempt do
    let _ ← typeId rules .lenient
    unless ← checkAny [.comma, .gt, .shr, .ellipsis] do
      unexpected "`,` or `>`"
  if asType.isNone then
    discard (rules.expr 0)
  skipIf .ellipsis

def templateArgs (rules : Rules) : Parse .look Unit := do
  require .lt "`<`"
  withTemplateArgs true do
    unless ← checkAny [.gt, .shr] do
      discard (separated (templateArg rules))
  closeAngle

/-! ## Looking ahead -/

def scanAngles (offset : Nat) : Parse .look (Option Nat) :=
  loop ((0 : Int), offset) fun (depth, i) => do
    let after (depth : Int) : (Int × Nat) ⊕ Option Nat :=
      if depth ≤ 0 then .inr (some (i + 1)) else .inl (depth, i + 1)
    match ← kindAt i with
    | .lt => return after (depth + 1)
    | .gt => return after (depth - 1)
    | .shr => return after (depth - 2)
    | .semicolon | .lBrace | .rBrace | .eof => return .inr none
    | _ => return after depth

def scanName (offset : Nat) : Parse .look (Option (List String × Nat)) := do
  let start := if ← checkAt offset .colonColon then ([""], offset + 1) else ([], offset)
  loop start fun (before, i) => do
    let token ← peekAt i
    if token.kind != .identifier then
      return .inr none
    let segments := before ++ [token.lexeme]
    let angles := checkAt (i + 1) .lt <&&> (pure (decide (1 < segments.length)) <||>
      isTemplateName segments <||> isTypeName segments)
    match ← (do if ← angles then scanAngles (i + 1) else return some (i + 1)) with
    | none => return .inr none
    | some i =>
      if ← checkAt i .colonColon <&&> checkAt (i + 1) .identifier then
        return .inl (segments, i + 1)
      else
        return .inr (some (segments, i))

end Serpentine.Grammar

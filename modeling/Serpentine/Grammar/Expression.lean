import Serpentine.Grammar.Type

/-!
# Expressions

Expressions by the binding powers of their operators.
-/

namespace Serpentine

namespace Grammar

inductive JointOp where
  | binary (op : BinaryOp)
  | assign (op : Option BinaryOp)
  | conditional
deriving Repr, DecidableEq, Inhabited

/-- What stands between two operands, with how tightly it binds the one on its left and the one on
its right. -/
structure Joint where
  left : Nat
  right : Nat
  op : JointOp
deriving Repr, DecidableEq, Inhabited

/-- An assignment binds the value on its right less tightly than the target on its left. -/
def Joint.assign (op : Option BinaryOp) : Joint :=
  ⟨2, 1, .assign op⟩

/-- An operator that groups to the left. -/
def Joint.binary (power : Nat) (op : BinaryOp) : Joint :=
  ⟨power, power + 1, .binary op⟩

end Grammar

open Grammar

def Kind.joint? : Kind → Option Joint
  | .assign => some (.assign none)
  | .plusAssign => some (.assign (some .add))
  | .minusAssign => some (.assign (some .sub))
  | .starAssign => some (.assign (some .mul))
  | .slashAssign => some (.assign (some .div))
  | .percentAssign => some (.assign (some .mod))
  | .ampAssign => some (.assign (some .bitAnd))
  | .pipeAssign => some (.assign (some .bitOr))
  | .caretAssign => some (.assign (some .bitXor))
  | .shlAssign => some (.assign (some .shl))
  | .shrAssign => some (.assign (some .shr))
  | .question => some ⟨4, 3, .conditional⟩
  | .orOr => some (.binary 5 .or)
  | .andAnd => some (.binary 7 .and)
  | .pipe => some (.binary 9 .bitOr)
  | .caret => some (.binary 11 .bitXor)
  | .amp => some (.binary 13 .bitAnd)
  | .eqEq => some (.binary 15 .eq)
  | .notEq => some (.binary 15 .ne)
  | .lt => some (.binary 17 .lt)
  | .gt => some (.binary 17 .gt)
  | .ltEq => some (.binary 17 .le)
  | .gtEq => some (.binary 17 .ge)
  | .shl => some (.binary 19 .shl)
  | .shr => some (.binary 19 .shr)
  | .plus => some (.binary 21 .add)
  | .minus => some (.binary 21 .sub)
  | .star => some (.binary 23 .mul)
  | .slash => some (.binary 23 .div)
  | .percent => some (.binary 23 .mod)
  | _ => none

def Kind.unaryOp? : Kind → Option UnaryOp
  | .minus => some .neg
  | .plus => some .plus
  | .bang => some .not
  | .tilde => some .bitNot
  | .star => some .deref
  | .amp => some .addressOf
  | _ => none

def Kind.startsOperand (k : Kind) : Bool :=
  k.isLiteral || k.isPrimitive ||
    [Kind.identifier, .colonColon, .lParen, .kwThis, .kwTrue, .kwFalse, .kwNullptr, .bang, .tilde,
      .minus, .plus, .star, .amp, .plusPlus, .minusMinus, .kwSizeof, .kwNew, .kwStaticCast,
      .kwDynamicCast, .kwReinterpretCast, .kwConstCast].contains k

namespace Grammar

variable (rules : Rules)

def unaryPower : Nat := 25

def conditionalPower : Nat := 3

/-- An operator that a `>` which closes template arguments looks like. -/
def looksLikeClose (k : Kind) : Bool :=
  [Kind.gt, .shr, .gtEq, .shrAssign].contains k

/-- The operand converted to a type. Only built-in values are converted. -/
def castTo (spec : TypeSpec) (indirect : Bool) (operand : Expr) : Expr :=
  match spec.primitive with
  | none | some .void => operand
  | some type => if indirect then operand else .cast type operand

def firstOrNone (args : List Expr) : Expr :=
  args.headD .none

def emptyPlaces (size : Expr) : Expr :=
  .binary .mul (.list [.none]) size

/-- The operand with the next operator and what stands on its right, or the whole expression if no
operator follows that binds tightly enough. -/
def joinRound (least : Nat) (left : Expr) : Parse .look (Expr ⊕ Expr) := do
  let k ← kind
  if (← read).inTemplateArgs && looksLikeClose k then
    return .inr left
  match k.joint? with
  | none => return .inr left
  | some joint =>
    if joint.left < least then
      return .inr left
    skip
    match joint.op with
    | .binary op => return .inl (.binary op left (← rules.expr joint.right))
    | .conditional =>
      let ifTrue ← rules.expr 0
      require .colon "`:`"
      return .inl (.conditional left ifTrue (← rules.expr joint.right))
    | .assign op =>
      let value ←
        if ← eat .lBrace then Expr.list <$> rules.exprList .rBrace
        else rules.expr joint.right
      return .inl (.assign op left value)

/-- An expression of operators that bind at least so tightly, given its first operand. -/
def joined (least : Nat) (first : Expr) : Parse .look Expr :=
  loop first (joinRound rules least)

/-- The arguments in parentheses or braces, if there are any. -/
def arguments? : Parse .look (Option (List Expr)) := do
  if ← eat .lParen then
    some <$> rules.exprList .rParen
  else if ← eat .lBrace then
    some <$> rules.exprList .rBrace
  else
    return none

def sizeofExpr : Parse .look Expr := do
  let place ← here
  require .kwSizeof "`sizeof`"
  skipIf .ellipsis
  let asType ←
    if ← check .lParen then
      attempt do
        skip
        let _ ← typeId rules .strict
        require .rParen "`)`"
    else pure none
  if asType.isNone then
    discard (rules.unary)
  return .sizeof place

def newExpr : Parse .look Expr := do
  let place ← here
  require .kwNew "`new`"
  if ← check .lParen then
    unsupported "placement new" place
  let spec ← typeSpec rules .lenient
  skipAll [.star]
  if ← eat .lBracket then
    let size ← rules.expr 0
    require .rBracket "`]`"
    return emptyPlaces size
  let args := (← arguments? rules).getD []
  match spec.primitive, spec.named with
  | none, some raw => return .new (← nameExpr raw place) args
  | _, _ => return firstOrNone args

def functionalCast (type : Option Primitive) : Parse .look Expr := do
  match ← arguments? rules with
  | none => unexpected "`(`"
  | some args =>
    match type, args with
    | none, [] => return .none
    | some type, [] => return .call (.primitive type) []
    | none, operand :: _ | some .void, operand :: _ => return operand
    | some type, operand :: _ => return .cast type operand

/-- The type behind an open parenthesis may be that of a cast. -/
def castAhead : Parse .look Bool := do
  let next ← kindAt 1
  if next.isPrimitive || [Kind.kwConst, .kwVolatile, .kwTypename, .kwStruct, .kwClass, .kwUnion,
      .kwEnum].contains next then
    return true
  match ← scanName 1 with
  | none => return false
  | some (segments, after) =>
    if ← isTypeName segments then
      return [Kind.rParen, .star, .amp].contains (← kindAt after)
    else
      return false

def typeCast : Parse .look Expr := do
  require .lParen "`(`"
  let (spec, indirect) ← typeId rules .strict
  require .rParen "`)`"
  unless (← kind).startsOperand do
    unexpected "a cast operand"
  return castTo spec indirect (← rules.expr unaryPower)

def parenthesised : Parse .look Expr := do
  if ← castAhead then
    if let some e ← attempt (typeCast rules) then
      return e
  require .lParen "`(`"
  let inner ← withTemplateArgs false (rules.expr 0)
  require .rParen "`)`"
  return .parens inner

def namedCast : Parse .look Expr := do
  skip
  require .lt "`<`"
  let (spec, indirect) ← withTemplateArgs true (typeId rules .lenient)
  closeAngle
  require .lParen "`(`"
  match ← rules.exprList .rParen with
  | [] => failHere .castWithoutOperand
  | operand :: _ => return castTo spec indirect operand

/-- The angle brackets in front hold template arguments of a call, object or scope. -/
def templateArgsFollow : Parse .look Bool := do
  match ← scanAngles 0 with
  | none => return false
  | some after => return [Kind.lParen, .colonColon, .lBrace].contains (← kindAt after)

def nameUse (segments : List String) (place : Position) : Parse .look Expr := do
  let isType ← isTypeName segments
  let e ← nameExpr (joinScope segments) place
  if isType then
    if ← eat .lBrace then
      return .call e (← rules.exprList .rBrace)
  return e

def nameExpression : Parse .look Expr := do
  let place ← here
  let segments ← scopedName fun segments => do
    if ← check .lt <&&> (pure (decide (1 < segments.length)) <||> isTemplateName segments <||>
        isTypeName segments) <&&> templateArgsFollow then
      rules.templateArgs
  if segments == ["NULL"] then
    return .none
  match ← primitiveAlias? segments with
  | none => nameUse rules segments place
  | some type =>
    if ← checkAny [.lParen, .lBrace] then
      functionalCast rules (some type)
    else
      nameUse rules segments place

def stringParts : Parse .look String := do
  let parts ← many do
    if ← check .stringLiteral then return some (← advance).lexeme else return none
  return " ".intercalate parts

def primary : Parse .look Expr := do
  let place ← here
  match ← kind with
  | .intLiteral => return .literal .int (← advance).lexeme
  | .floatLiteral => return .literal .float (← advance).lexeme
  | .charLiteral => return .literal .char (← advance).lexeme
  | .stringLiteral => return .literal .string (← stringParts)
  | .kwTrue | .kwFalse => return .literal .bool (← advance).lexeme
  | .kwNullptr =>
    skip
    return .none
  | .kwThis =>
    skip
    return .self
  | .lParen => parenthesised rules
  | .lBrace =>
    skip
    return .list (← rules.exprList .rBrace)
  | .kwStaticCast | .kwDynamicCast | .kwReinterpretCast | .kwConstCast => namedCast rules
  | .identifier | .colonColon => nameExpression rules
  | .lBracket => unsupported "lambda" place
  | .kwOperator => unsupported "operator name" place
  | k =>
    if k.isPrimitive then
      let spec ← typeSpec rules .lenient
      functionalCast rules spec.primitive
    else
      unexpected "an expression"

def memberOf (object : Expr) (place : Position) : Parse .look Expr := do
  skip
  skipIf .kwTemplate
  match ← kind with
  | .identifier =>
    let name := (← advance).lexeme
    if ← check .lt <&&> templateArgsFollow then
      rules.templateArgs
    return .member object name
  | .tilde => unsupported "explicit destructor call" place
  | .kwOperator => unsupported "explicit operator call" place
  | _ => unexpected "a member name"

/-- An operand with the calls, members and steps behind it. -/
def suffixed : Parse .look Expr := do
  loop (← primary rules) fun e => do
    let place ← here
    match ← kind with
    | .lParen =>
      skip
      return .inl (.call e (← rules.exprList .rParen))
    | .lBracket =>
      skip
      let position ← withTemplateArgs false (rules.expr 0)
      require .rBracket "`]`"
      return .inl (.index e position)
    | .dot | .arrow => return .inl (← memberOf rules e place)
    | .plusPlus =>
      skip
      return .inl (.step true false e)
    | .minusMinus =>
      skip
      return .inl (.step false false e)
    | .dotStar | .arrowStar => unsupported "pointer to member" place
    | _ => return .inr e

/-- An operand with the operators in front of it. -/
def unary : Parse .look Expr := do
  let place ← here
  let k ← kind
  match k.unaryOp? with
  | some op =>
    skip
    return .unary op (← rules.expr unaryPower)
  | none =>
    match k with
    | .plusPlus =>
      skip
      return .step true true (← rules.unary)
    | .minusMinus =>
      skip
      return .step false true (← rules.unary)
    | .kwSizeof => sizeofExpr rules
    | .kwNew => newExpr rules
    | .kwDelete => unsupported "delete expression" place
    | .kwThrow => unsupported "throw expression" place
    | _ => suffixed rules

/-- An expression of operators that bind at least so tightly. -/
def expression (least : Nat) : Parse .look Expr := do
  joined rules least (← unary rules)

/-- Expressions with commas between them, up to a closing bracket. -/
def exprList (close : Kind) : Parse .look (List Expr) :=
  withTemplateArgs false do
    let items ← loop [] fun done => do
      if ← check close then
        return .inr done.reverse
      let item ←
        if ← eat .lBrace then Expr.list <$> rules.exprList .rBrace else rules.expr 0
      skipIf .ellipsis
      if ← eat .comma then
        return .inl (item :: done)
      else
        return .inr (item :: done).reverse
    require close (if close = .rParen then "`)`" else "`\x7d`")
    return items

end Grammar

end Serpentine

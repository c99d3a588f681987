import Serpentine.Fault
import Serpentine.Literal.Integer
import Serpentine.Macro.Table

/-!
# Conditions of directives

The value of the expression behind `#if`: integers of 64 bits that wrap, the operators of C with
its precedence, `defined`, and macros, each of which stands for the value of its text.
-/

namespace Serpentine.Macro

inductive Operator where
  | or | and | eq | ne | le | ge | shl | shr | not | complement | minus | plus | times | divide
  | remainder | lt | gt | bitAnd | bitXor | bitOr | question | colon | leftParen | rightParen
deriving Repr, DecidableEq, Inhabited

/-- The spellings, with no spelling a proper start of a later one. -/
def spellings : List (List Char × Operator) :=
  [(['|', '|'], .or), (['&', '&'], .and), (['=', '='], .eq), (['!', '='], .ne), (['<', '='], .le),
   (['>', '='], .ge), (['<', '<'], .shl), (['>', '>'], .shr), (['!'], .not), (['~'], .complement),
   (['-'], .minus), (['+'], .plus), (['*'], .times), (['/'], .divide), (['%'], .remainder),
   (['<'], .lt), (['>'], .gt), (['&'], .bitAnd), (['^'], .bitXor), (['|'], .bitOr),
   (['?'], .question), ([':'], .colon), (['('], .leftParen), ([')'], .rightParen)]

def Operator.text : Operator → String
  | .or => "||" | .and => "&&" | .eq => "==" | .ne => "!=" | .le => "<=" | .ge => ">="
  | .shl => "<<" | .shr => ">>" | .not => "!" | .complement => "~" | .minus => "-" | .plus => "+"
  | .times => "*" | .divide => "/" | .remainder => "%" | .lt => "<" | .gt => ">" | .bitAnd => "&"
  | .bitXor => "^" | .bitOr => "|" | .question => "?" | .colon => ":" | .leftParen => "("
  | .rightParen => ")"

/-- How strongly an operator between two operands binds. -/
def Operator.strength : Operator → Option Nat
  | .or => some 1
  | .and => some 2
  | .bitOr => some 3
  | .bitXor => some 4
  | .bitAnd => some 5
  | .eq | .ne => some 6
  | .lt | .le | .gt | .ge => some 7
  | .shl | .shr => some 8
  | .plus | .minus => some 9
  | .times | .divide | .remainder => some 10
  | _ => none

/-- One for a condition that holds, zero for one that does not. -/
def truth (b : Bool) : Int64 :=
  if b then 1 else 0

/-- The value of an operator on two values. A shift takes its count modulo 64. -/
def Operator.apply (op : Operator) (l r : Int64) : Except DirectiveCause Int64 :=
  match op with
  | .or => .ok (truth (l != 0 || r != 0))
  | .and => .ok (truth (l != 0 && r != 0))
  | .bitOr => .ok (l ||| r)
  | .bitXor => .ok (l ^^^ r)
  | .bitAnd => .ok (l &&& r)
  | .eq => .ok (truth (l == r))
  | .ne => .ok (truth (l != r))
  | .lt => .ok (truth (l < r))
  | .le => .ok (truth (l ≤ r))
  | .gt => .ok (truth (r < l))
  | .ge => .ok (truth (r ≤ l))
  | .shl => .ok (l <<< r)
  | .shr => .ok (l >>> r)
  | .plus => .ok (l + r)
  | .minus => .ok (l - r)
  | .times => .ok (l * r)
  | .divide => if r == 0 then .error .divisionByZero else .ok (l / r)
  | _ => if r == 0 then .error .divisionByZero else .ok (l % r)

inductive ConditionToken where
  | number (value : Int64)
  | name (text : String)
  | op (operator : Operator)
deriving DecidableEq, Inhabited

/-- A character that goes on with a number of a condition. -/
def isConditionDigit (c : Char) : Bool :=
  c.isAlphanum || c == '\''

/-- The tokens of a condition that starts with no blank, in at most so many steps. -/
def conditionTokensWithin : Nat → List Char → Except DirectiveCause (List ConditionToken)
  | 0, _ => .ok []
  | _, [] => .ok []
  | n + 1, c :: cs =>
    if c.isDigit then
      let text := String.ofList ((c :: cs).takeWhile isConditionDigit)
      match Literal.intValue? text with
      | none => .error (.badNumber text)
      | some value => do
        let rest ← conditionTokensWithin n (trimStart ((c :: cs).dropWhile isConditionDigit))
        return .number (Int64.ofInt value) :: rest
    else if isNameStart c then do
      let rest ← conditionTokensWithin n (trimStart ((c :: cs).dropWhile isNameChar))
      return .name (String.ofList ((c :: cs).takeWhile isNameChar)) :: rest
    else
      match spellings.find? fun s => s.1.isPrefixOf (c :: cs) with
      | none => .error (.unexpectedChar c)
      | some (spelling, op) => do
        let rest ← conditionTokensWithin n (trimStart ((c :: cs).drop spelling.length))
        return .op op :: rest

/-- The tokens of a condition. Each step takes a character, so their number bounds the steps. -/
def conditionTokens (cs : List Char) : Except DirectiveCause (List ConditionToken) :=
  conditionTokensWithin cs.length (trimStart cs)

structure Names where
  isDefined : String → Bool
  value : String → Except DirectiveCause Int64

abbrev Reading := Except DirectiveCause (Int64 × List ConditionToken)

def expectOperator (op : Operator) : List ConditionToken →
    Except DirectiveCause (List ConditionToken)
  | .op found :: ts => if found = op then .ok ts else .error (.operatorMissing op.text)
  | _ => .error (.operatorMissing op.text)

/-- The value of `defined`, behind that word. -/
def readDefined (names : Names) : List ConditionToken → Reading
  | .op .leftParen :: .name target :: ts => do
    let ts ← expectOperator .rightParen ts
    return (truth (names.isDefined target), ts)
  | .name target :: ts => .ok (truth (names.isDefined target), ts)
  | _ => .error .definedWithoutName

mutual

/-- An expression with its `?` and `:`, in at most so many nested steps. -/
def readConditional (names : Names) : Nat → List ConditionToken → Reading
  | 0, _ => .error .incomplete
  | n + 1, ts => do
    let (condition, ts) ← readBinary names n 0 ts
    match ts with
    | .op .question :: ts =>
      let (ifTrue, ts) ← readConditional names n ts
      let ts ← expectOperator .colon ts
      let (ifFalse, ts) ← readConditional names n ts
      return (if condition != 0 then ifTrue else ifFalse, ts)
    | _ => return (condition, ts)

/-- An operand and the operators behind it that bind more strongly than `least`. -/
def readBinary (names : Names) : Nat → Nat → List ConditionToken → Reading
  | 0, _, _ => .error .incomplete
  | n + 1, least, ts => do
    let (left, ts) ← readUnary names n ts
    readOperators names n least left ts

/-- The operators behind the operand `left` that bind more strongly than `least`. -/
def readOperators (names : Names) : Nat → Nat → Int64 → List ConditionToken → Reading
  | 0, _, _, _ => .error .incomplete
  | n + 1, least, left, ts =>
    match ts with
    | .op op :: rest =>
      match op.strength with
      | none => .ok (left, ts)
      | some strength =>
        if strength ≤ least then .ok (left, ts)
        else do
          let (right, ts) ← readBinary names n strength rest
          let value ← op.apply left right
          readOperators names n least value ts
    | _ => .ok (left, ts)

/-- A number, a name, a group in parentheses, or one of these behind a sign. -/
def readUnary (names : Names) : Nat → List ConditionToken → Reading
  | 0, _ => .error .incomplete
  | _, [] => .error .incomplete
  | n + 1, token :: ts =>
    match token with
    | .number value => .ok (value, ts)
    | .op .not => do
      let (value, ts) ← readUnary names n ts
      return (truth (value == 0), ts)
    | .op .complement => do
      let (value, ts) ← readUnary names n ts
      return (~~~value, ts)
    | .op .minus => do
      let (value, ts) ← readUnary names n ts
      return (-value, ts)
    | .op .plus => readUnary names n ts
    | .op .leftParen => do
      let (value, ts) ← readConditional names n ts
      let ts ← expectOperator .rightParen ts
      return (value, ts)
    | .op op => .error (.unexpectedOperator op.text)
    | .name name =>
      if name == "defined" then readDefined names ts
      else if name == "true" then .ok (1, ts)
      else do
        let value ← names.value name
        return (value, ts)

end

/-- Enough nested steps for so many tokens: at most three lie between two tokens. -/
def stepsFor (ts : List ConditionToken) : Nat :=
  4 * (ts.length + 1)

/-- The value of a name: that of its text, or zero. So many macros may still be entered. -/
def Table.valueWithin (t : Table) : Nat → String → Except DirectiveCause Int64
  | 0, _ => .ok 0
  | depth + 1, name =>
    match t.text? name with
    | none => .ok 0
    | some text =>
      if (trim text.toList).isEmpty then .ok 0
      else do
        let ts ← conditionTokens text.toList
        let (value, _) ← readConditional ⟨t.isDefined, t.valueWithin depth⟩ (stepsFor ts) ts
        return value

/-- The value of a condition. -/
def Table.evaluate (t : Table) (cs : List Char) : Except DirectiveCause Int64 := do
  let ts ← conditionTokens cs
  let (value, rest) ← readConditional ⟨t.isDefined, t.valueWithin maxDepth⟩ (stepsFor ts) ts
  if rest.isEmpty then return value else throw .trailingTokens

end Serpentine.Macro

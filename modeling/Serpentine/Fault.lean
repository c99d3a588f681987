import Serpentine.Scopes
import Serpentine.Token.Scan

/-!
# Faults

Why a program is refused. Each fault is a cause with a place; its wording is in one function.
-/

namespace Serpentine

/-- Why a text is no program. -/
inductive GrammarCause where
  /-- Something else was expected; the token found, unless the text ended. -/
  | expected (what : String) (found : Option String)
  | notAType (name : String)
  | notAParameterType (name : String)
  | castWithoutOperand
  | caseOutsideSwitch
  | namespaceHere
  | functionTail (found : String)
  | enumeratorAsScope
  | functionNameMissing
  | destructorOutside (className : String)
  | functionBodyHere
  | initialisersHere
  | variableNameMissing
  | variableHere
  | typedefNameMissing
deriving Repr, DecidableEq, Inhabited

def GrammarCause.message : GrammarCause → String
  | .expected what none => "expected " ++ what ++ ", found end of input"
  | .expected what (some found) => "expected " ++ what ++ ", found `" ++ found ++ "`"
  | .notAType name => "`" ++ name ++ "` does not name a type"
  | .notAParameterType name => "`" ++ name ++ "` is not a parameter type"
  | .castWithoutOperand => "cast needs an operand"
  | .caseOutsideSwitch => "case label outside a switch"
  | .namespaceHere => "namespace definition is not allowed here"
  | .functionTail found => "expected `0`, `default` or `delete`, found `" ++ found ++ "`"
  | .enumeratorAsScope => "enumerator used as a scope"
  | .functionNameMissing => "expected a function name"
  | .destructorOutside name => "destructor `~" ++ name ++ "` declared outside its class"
  | .functionBodyHere => "function definition is not allowed here"
  | .initialisersHere => "member initialisers outside a constructor"
  | .variableNameMissing => "expected a variable name"
  | .variableHere => "variable declaration is not allowed here"
  | .typedefNameMissing => "expected a typedef name"

/-- Why a directive is refused. -/
inductive DirectiveCause where
  | nameMissing (directive : String)
  | withoutIf (directive : String)
  | elifAfterElse
  | duplicateElse
  | raised (text : String)
  | unknown (directive : String)
  | unterminated
  | badNumber (text : String)
  | unexpectedChar (c : Char)
  | trailingTokens
  | operatorMissing (op : String)
  | incomplete
  | definedWithoutName
  | unexpectedOperator (op : String)
  | divisionByZero
deriving Repr, DecidableEq, Inhabited

def DirectiveCause.message : DirectiveCause → String
  | .nameMissing directive => "`#" ++ directive ++ "` needs a name"
  | .withoutIf directive => "`#" ++ directive ++ "` without `#if`"
  | .elifAfterElse => "`#elif` after `#else`"
  | .duplicateElse => "duplicate `#else`"
  | .raised text => "#error " ++ text
  | .unknown directive => "unknown directive `#" ++ directive ++ "`"
  | .unterminated => "unterminated conditional directive"
  | .badNumber text => "invalid number `" ++ text ++ "` in `#if`"
  | .unexpectedChar c => "unexpected `" ++ c.toString ++ "` in `#if`"
  | .trailingTokens => "trailing tokens in `#if` expression"
  | .operatorMissing op => "expected `" ++ op ++ "` in `#if` expression"
  | .incomplete => "incomplete `#if` expression"
  | .definedWithoutName => "`defined` needs a macro name"
  | .unexpectedOperator op => "unexpected `" ++ op ++ "` in `#if` expression"
  | .divisionByZero => "division by zero in `#if` expression"

/-- What can stop a translation. -/
inductive Fault where
  | scan (file : String) (fault : ScanFault)
  | grammar (cause : GrammarCause) (place : Position)
  | destructors (className : String) (place : Position)
  /-- A scoped name, and the part of it that is nowhere declared. -/
  | unresolved (name missing : String) (place : Position)
  | directive (cause : DirectiveCause) (place : Position)
  | scope (cause : ScopeCause) (place : Position)
  | unsupported (construct : String) (place : Position)
  | unknownModule (path : String)
  /-- A number that is computed does not fit in 64 bits. -/
  | overflow
deriving Repr, DecidableEq, Inhabited

def Fault.position? : Fault → Option Position
  | .scan file fault => some (fault.spot.within file)
  | .grammar _ place | .destructors _ place | .unresolved _ _ place | .directive _ place
  | .scope _ place | .unsupported _ place => some place
  | .unknownModule _ | .overflow => none

def Fault.message : Fault → String
  | .scan file fault => file ++ ", " ++ fault.message
  | .grammar cause place => place.text ++ ": " ++ cause.message
  | .destructors name place =>
    place.text ++ ": cannot handle multiple destructors for `" ++ name ++ "`"
  | .unresolved name missing place =>
    place.text ++ ": unresolved name `" ++ name ++ "` (no `" ++ missing ++ "` in scope)"
  | .directive cause place => place.text ++ ": " ++ cause.message
  | .scope cause place => place.text ++ ": " ++ cause.message
  | .unsupported construct place => place.text ++ ": unsupported construct: " ++ construct
  | .unknownModule path => "unknown module `" ++ path ++ "`"
  | .overflow => "attempt to add with overflow"

end Serpentine

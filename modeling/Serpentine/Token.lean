import Serpentine.Position

/-!
# Tokens

The words of the source language: keywords, names, literals, operators and punctuation.
-/

namespace Serpentine

inductive Kind where
  | kwAuto | kwBool | kwBreak | kwCase | kwCatch | kwChar | kwClass | kwConst | kwConstCast
  | kwConstexpr | kwContinue | kwDefault | kwDelete | kwDo | kwDouble | kwDynamicCast | kwElse
  | kwEnum | kwExplicit | kwExtern | kwFalse | kwFloat | kwFor | kwFriend | kwGoto | kwIf
  | kwInline | kwInt | kwLong | kwMutable | kwNamespace | kwNew | kwNoexcept | kwNullptr
  | kwOperator | kwPrivate | kwProtected | kwPublic | kwRegister | kwReinterpretCast | kwReturn
  | kwShort | kwSigned | kwSizeof | kwStatic | kwStaticAssert | kwStaticCast | kwStruct | kwSwitch
  | kwTemplate | kwThis | kwThrow | kwTrue | kwTry | kwTypedef | kwTypename | kwUnion | kwUnsigned
  | kwUsing | kwVirtual | kwVoid | kwVolatile | kwWcharT | kwWhile
  | identifier | intLiteral | floatLiteral | charLiteral | stringLiteral
  | plus | minus | star | slash | percent | plusPlus | minusMinus
  | assign | plusAssign | minusAssign | starAssign | slashAssign | percentAssign | ampAssign
  | pipeAssign | caretAssign | shlAssign | shrAssign
  | eqEq | notEq | lt | gt | ltEq | gtEq | andAnd | orOr | bang | amp | pipe | caret | tilde
  | shl | shr | arrow | arrowStar | dot | dotStar | colonColon | question | colon | semicolon
  | comma | ellipsis | lParen | rParen | lBracket | rBracket | lBrace | rBrace
  | eof
deriving Repr, DecidableEq, Inhabited

/-- The keywords that can start a built-in type. -/
def Kind.isPrimitive : Kind → Bool
  | .kwAuto | .kwBool | .kwChar | .kwDouble | .kwFloat | .kwInt | .kwLong | .kwShort | .kwSigned
  | .kwUnsigned | .kwVoid | .kwWcharT => true
  | _ => false

def Kind.isLiteral : Kind → Bool
  | .intLiteral | .floatLiteral | .charLiteral | .stringLiteral => true
  | _ => false

def keywords : List (String × Kind) :=
  [("auto", .kwAuto), ("bool", .kwBool), ("break", .kwBreak), ("case", .kwCase),
   ("catch", .kwCatch), ("char", .kwChar), ("class", .kwClass), ("const", .kwConst),
   ("const_cast", .kwConstCast), ("constexpr", .kwConstexpr), ("continue", .kwContinue),
   ("default", .kwDefault), ("delete", .kwDelete), ("do", .kwDo), ("double", .kwDouble),
   ("dynamic_cast", .kwDynamicCast), ("else", .kwElse), ("enum", .kwEnum),
   ("explicit", .kwExplicit), ("extern", .kwExtern), ("false", .kwFalse), ("float", .kwFloat),
   ("for", .kwFor), ("friend", .kwFriend), ("goto", .kwGoto), ("if", .kwIf),
   ("inline", .kwInline), ("int", .kwInt), ("long", .kwLong), ("mutable", .kwMutable),
   ("namespace", .kwNamespace), ("new", .kwNew), ("noexcept", .kwNoexcept),
   ("nullptr", .kwNullptr), ("operator", .kwOperator), ("private", .kwPrivate),
   ("protected", .kwProtected), ("public", .kwPublic), ("register", .kwRegister),
   ("reinterpret_cast", .kwReinterpretCast), ("return", .kwReturn), ("short", .kwShort),
   ("signed", .kwSigned), ("sizeof", .kwSizeof), ("static", .kwStatic),
   ("static_assert", .kwStaticAssert), ("static_cast", .kwStaticCast), ("struct", .kwStruct),
   ("switch", .kwSwitch), ("template", .kwTemplate), ("this", .kwThis), ("throw", .kwThrow),
   ("true", .kwTrue), ("try", .kwTry), ("typedef", .kwTypedef), ("typename", .kwTypename),
   ("union", .kwUnion), ("unsigned", .kwUnsigned), ("using", .kwUsing), ("virtual", .kwVirtual),
   ("void", .kwVoid), ("volatile", .kwVolatile), ("wchar_t", .kwWcharT), ("while", .kwWhile)]

def Kind.ofWord (word : String) : Kind :=
  (keywords.lookup word).getD .identifier

/-- The operators and punctuation marks. No spelling is a proper start of a later one. -/
def operators : List (List Char × Kind) :=
  [(['<', '<', '='], .shlAssign), (['>', '>', '='], .shrAssign), (['-', '>', '*'], .arrowStar),
   (['.', '.', '.'], .ellipsis), (['+', '+'], .plusPlus), (['-', '-'], .minusMinus),
   (['+', '='], .plusAssign), (['-', '='], .minusAssign), (['*', '='], .starAssign),
   (['/', '='], .slashAssign), (['%', '='], .percentAssign), (['&', '='], .ampAssign),
   (['|', '='], .pipeAssign), (['^', '='], .caretAssign), (['=', '='], .eqEq),
   (['!', '='], .notEq), (['<', '='], .ltEq), (['>', '='], .gtEq), (['&', '&'], .andAnd),
   (['|', '|'], .orOr), (['<', '<'], .shl), (['>', '>'], .shr), (['-', '>'], .arrow),
   (['.', '*'], .dotStar), ([':', ':'], .colonColon), (['+'], .plus), (['-'], .minus),
   (['*'], .star), (['/'], .slash), (['%'], .percent), (['='], .assign), (['<'], .lt),
   (['>'], .gt), (['!'], .bang), (['&'], .amp), (['|'], .pipe), (['^'], .caret), (['~'], .tilde),
   (['.'], .dot), (['?'], .question), ([':'], .colon), ([';'], .semicolon), ([','], .comma),
   (['('], .lParen), ([')'], .rParen), (['['], .lBracket), ([']'], .rBracket), (['{'], .lBrace),
   (['}'], .rBrace)]

/-- A word of a text, where it stands. -/
structure Token where
  kind : Kind
  lexeme : String
  spot : Spot
deriving Repr, DecidableEq, Inhabited

def Token.isEnd (t : Token) : Bool :=
  t.kind == .eof

end Serpentine

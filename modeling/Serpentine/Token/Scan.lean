import Serpentine.Text.Blank
import Serpentine.Text.Quoted
import Serpentine.Token

/-!
# Scanning text into tokens

A text is cut from the front: blanks are dropped, then one piece is taken, which is a token or a
fault. A fault is reported and its characters are skipped, so that scanning goes on behind it.
Cutting does not look at positions; they are counted along the characters that were taken.
-/

namespace Serpentine

inductive ScanCause where
  | unexpected (c : Char)
  | unterminated
  | badEscape (what : String)
deriving Repr, DecidableEq, Inhabited

def ScanCause.message : ScanCause → String
  | .unexpected c => "unexpected character " ++ quotedChar c
  | .unterminated => "unterminated literal"
  | .badEscape what => "malformed " ++ what ++ " escape"

/-- A piece of text that is no token, and where it starts. -/
structure ScanFault where
  cause : ScanCause
  spot : Spot
deriving Repr, DecidableEq, Inhabited

def ScanFault.message (f : ScanFault) : String :=
  "line " ++ toString f.spot.line ++ ", column " ++ toString f.spot.column ++ ": " ++
    f.cause.message

/-- A piece taken from the front of a text: `taken ++ rest` is the text. -/
structure Cut where
  found : Except ScanCause Kind
  taken : List Char
  rest : List Char

def Cut.after (c : Cut) (front : List Char) : Cut :=
  ⟨c.found, front ++ c.taken, c.rest⟩

def isNameStart (c : Char) : Bool :=
  c == '_' || c.isAlpha

/-- A character that can go on with a name. -/
def isNameChar (c : Char) : Bool :=
  c == '_' || c.isAlphanum

def isHexDigit (c : Char) : Bool :=
  c.isDigit || ('a' ≤ c && c ≤ 'f') || ('A' ≤ c && c ≤ 'F')

def isOctalDigit (c : Char) : Bool :=
  '0' ≤ c && c ≤ '7'

/-! ## Names and numbers -/

def Cut.word (cs : List Char) : Cut :=
  let taken := cs.takeWhile isNameChar
  ⟨.ok (Kind.ofWord (String.ofList taken)), taken, cs.dropWhile isNameChar⟩

/-- The rest begins with a digit, after an optional sign. -/
def exponentFollows : List Char → Bool
  | [] => false
  | s :: cs => s.isDigit || ((s == '+' || s == '-') && (cs.head?.any Char.isDigit))

/-- How many characters from here belong to a decimal number, and whether it is a floating one.
The flag tells whether a point or an exponent has been seen. -/
def decimalLength (float : Bool) : List Char → Nat × Bool
  | [] => (0, float)
  | c :: cs =>
    if c.isDigit || c == '\'' then
      let r := decimalLength float cs
      (r.1 + 1, r.2)
    else if c == '.' && !float then
      let r := decimalLength true cs
      (r.1 + 1, r.2)
    else if (c == 'e' || c == 'E') && exponentFollows cs then
      match cs with
      | [] => (0, float)
      | _ :: tail =>
        let r := decimalLength true tail
        (r.1 + 2, r.2)
    else (0, float)

def isNumberSuffix (float : Bool) (c : Char) : Bool :=
  if float then c == 'f' || c == 'F' || c == 'l' || c == 'L'
  else c == 'u' || c == 'U' || c == 'l' || c == 'L'

/-- The text begins with a radix mark, as in `0x` or `0B`. -/
def hasRadixMark : List Char → Bool
  | '0' :: c :: _ => c == 'x' || c == 'X' || c == 'b' || c == 'B'
  | _ => false

/-- The length of a number without its suffix, and whether it is a floating one. -/
def numberLength (cs : List Char) : Nat × Bool :=
  if hasRadixMark cs then
    (2 + ((cs.drop 2).takeWhile fun c => isHexDigit c || c == '\'').length, false)
  else decimalLength false cs

def Cut.number (cs : List Char) : Cut :=
  let (n, float) := numberLength cs
  let tail := cs.drop n
  let suffix := tail.takeWhile (isNumberSuffix float)
  ⟨.ok (if float then .floatLiteral else .intLiteral), cs.take n ++ suffix,
    tail.dropWhile (isNumberSuffix float)⟩

/-! ## Quoted literals -/

inductive QuoteState where
  | plain
  | escaped
  /-- In an octal escape that may take so many more digits. -/
  | octal (more : Nat)
  /-- Behind `\x`, before the first digit. -/
  | hexStart
  | hexMore
  /-- In a universal character name that needs so many more digits, and one. -/
  | universal (more : Nat)
deriving Repr, DecidableEq, Inhabited

inductive QuoteStep where
  | more (next : QuoteState)
  | close
  | stop (cause : ScanCause)
deriving Repr, DecidableEq, Inhabited

/-- A character between two others. -/
def QuoteStep.plain (quote c : Char) : QuoteStep :=
  if c == '\n' then .stop .unterminated
  else if c == '\\' then .more .escaped
  else if c == quote then .close
  else .more .plain

/-- The letters that stand for one character behind a backslash. -/
def isSimpleEscape (c : Char) : Bool :=
  c == '\'' || c == '\"' || c == '?' || c == '\\' || c == 'a' || c == 'b' || c == 'f' ||
    c == 'n' || c == 'r' || c == 't' || c == 'v'

def QuoteState.step (quote : Char) : QuoteState → Char → QuoteStep
  | .plain, c => .plain quote c
  | .escaped, c =>
    if isSimpleEscape c then .more .plain
    else if isOctalDigit c then .more (.octal 2)
    else if c == 'x' then .more .hexStart
    else if c == 'u' then .more (.universal 3)
    else if c == 'U' then .more (.universal 7)
    else .stop (.badEscape "character")
  | .octal 0, c => .plain quote c
  | .octal (n + 1), c => if isOctalDigit c then .more (.octal n) else .plain quote c
  | .hexStart, c => if isHexDigit c then .more .hexMore else .stop (.badEscape "hex")
  | .hexMore, c => if isHexDigit c then .more .hexMore else .plain quote c
  | .universal 0, c =>
    if isHexDigit c then .more .plain else .stop (.badEscape "universal character")
  | .universal (n + 1), c =>
    if isHexDigit c then .more (.universal n) else .stop (.badEscape "universal character")

def QuoteState.atEnd : QuoteState → ScanCause
  | .plain | .octal _ | .hexMore => .unterminated
  | .escaped => .badEscape "character"
  | .hexStart => .badEscape "hex"
  | .universal _ => .badEscape "universal character"

def quotedKind (quote : Char) : Kind :=
  if quote == '\"' then .stringLiteral else .charLiteral

/-- The rest of a quoted literal, from inside it. A fault leaves the offending character. -/
def Cut.quotedFrom (quote : Char) : QuoteState → List Char → Cut
  | s, [] => ⟨.error s.atEnd, [], []⟩
  | s, c :: cs =>
    match s.step quote c with
    | .more next => (Cut.quotedFrom quote next cs).after [c]
    | .close => ⟨.ok (quotedKind quote), [c], cs⟩
    | .stop cause => ⟨.error cause, [], c :: cs⟩

def isQuote (c : Char) : Bool :=
  c == '\"' || c == '\''

/-- The encoding marks that may stand in front of a quote. -/
def encodingMarks : List (List Char) :=
  [['u', '8'], ['L'], ['u'], ['U']]

/-- The encoding mark at the front of a text, when a quote follows it. -/
def encodingMark? (cs : List Char) : Option (List Char) :=
  encodingMarks.find? fun mark => mark.isPrefixOf cs && (cs.drop mark.length).head?.any isQuote

/-- A quoted literal that starts at its opening quote. -/
def Cut.quoted : List Char → Cut
  | [] => ⟨.error .unterminated, [], []⟩
  | quote :: cs => (Cut.quotedFrom quote .plain cs).after [quote]

/-! ## Pieces -/

/-- An operator or punctuation mark, or one character that starts nothing. -/
def Cut.operator (c : Char) (cs : List Char) : Cut :=
  match operators.find? fun o => o.1.isPrefixOf (c :: cs) with
  | some (spelling, kind) => ⟨.ok kind, spelling, (c :: cs).drop spelling.length⟩
  | none => ⟨.error (.unexpected c), [c], cs⟩

/-- The first piece of a text whose first character is `c`, which is not blank. -/
def Cut.read (c : Char) (cs : List Char) : Cut :=
  match encodingMark? (c :: cs) with
  | some mark => (Cut.quoted ((c :: cs).drop mark.length)).after mark
  | none =>
    if isNameStart c then Cut.word (c :: cs)
    else if c.isDigit || (c == '.' && cs.head?.any Char.isDigit) then Cut.number (c :: cs)
    else if isQuote c then Cut.quoted (c :: cs)
    else Cut.operator c cs

/-- The rest of a text, and where it starts. -/
structure Scan where
  spot : Spot
  rest : List Char
deriving Repr, DecidableEq, Inhabited

def Scan.start (text : String) : Scan :=
  ⟨.first, text.toList⟩

/-- The scan behind some characters of its text. -/
def Scan.skipBlanks (s : Scan) : Scan :=
  ⟨s.spot.past (s.rest.takeWhile isBlank), s.rest.dropWhile isBlank⟩

/-- The next token or fault, and what is left. At the end there is always one more end token. -/
def Scan.next (s : Scan) : Except ScanFault Token × Scan :=
  let s := s.skipBlanks
  match s.rest with
  | [] => (.ok ⟨.eof, "", s.spot⟩, s)
  | c :: cs =>
    let cut := Cut.read c cs
    let left : Scan := ⟨s.spot.past cut.taken, cut.rest⟩
    match cut.found with
    | .ok kind => (.ok ⟨kind, String.ofList cut.taken, s.spot⟩, left)
    | .error cause => (.error ⟨cause, s.spot⟩, left)

/-- The next token in at most so many steps, with the faults in front of it, and what is left. -/
def Scan.pullWithin : Nat → Scan → List ScanFault × Token × Scan
  | 0, s => ([], ⟨.eof, "", s.spot⟩, s)
  | n + 1, s =>
    match s.next with
    | (.ok token, left) => ([], token, left)
    | (.error fault, left) =>
      let (faults, token, last) := Scan.pullWithin n left
      (fault :: faults, token, last)

/-- The next token, with the faults in front of it, and what is left. Each fault takes a character,
so their number bounds the steps. -/
def Scan.pull (s : Scan) : List ScanFault × Token × Scan :=
  s.pullWithin (s.rest.length + 1)

/-- A token with the faults that were skipped since the token before it. -/
structure Piece where
  skipped : List ScanFault
  token : Token
deriving Repr, DecidableEq, Inhabited

/-- The pieces of a text in at most so many steps, with the faults met since the last token. -/
def Scan.piecesFrom : Nat → List ScanFault → Scan → List Piece
  | 0, _, _ => []
  | n + 1, faults, s =>
    match s.next with
    | (.error fault, left) => Scan.piecesFrom n (faults ++ [fault]) left
    | (.ok token, left) =>
      if token.isEnd then [⟨faults, token⟩] else ⟨faults, token⟩ :: Scan.piecesFrom n [] left

/-- All pieces of a text. Each step but the last takes a character, so their number bounds the
steps. -/
def Scan.pieces (s : Scan) : List Piece :=
  s.piecesFrom (s.rest.length + 1) []

/-- All tokens and faults of a text. -/
def tokenize (text : String) : List Token × List ScanFault :=
  let pieces := (Scan.start text).pieces
  (pieces.map Piece.token, pieces.flatMap Piece.skipped)

end Serpentine

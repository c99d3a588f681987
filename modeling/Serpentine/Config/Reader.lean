import Serpentine.Config.Scalar

/-!
# Reading values
-/

namespace Serpentine.Config

def depthLimit : Nat := 79

abbrev Reader := StateT (List Char) Option

namespace Reader

variable {α : Type}

/-- So many rounds of a reader at most, until it says that it is done. -/
def roundsUpTo (step : Reader (Option α)) : Nat → Reader (List α)
  | 0 => failure
  | n + 1 => do
    match ← step with
    | none => return []
    | some a => return a :: (← roundsUpTo step n)

def rounds (step : Reader (Option α)) : Reader (List α) := do
  roundsUpTo step ((← get).length + 1)

def peek? : Reader (Option Char) := do
  return (← get).head?

def next : Reader Char := do
  match ← get with
  | [] => failure
  | c :: rest => set rest; return c

def taking (text : String) : Reader Bool := do
  let cs ← get
  if text.toList.isPrefixOf cs then
    set (cs.drop text.length)
    return true
  return false

def exactly (text : String) : Reader Unit := do
  guard (← taking text)

def takeWhile (test : Char → Bool) : Reader (List Char) := do
  let cs ← get
  set (cs.dropWhile test)
  return cs.takeWhile test

def takingLineEnd : Reader Bool :=
  taking "\n" <||> taking "\r\n"

def blanks : Reader Unit := do
  let _ ← takeWhile fun c => c == ' ' || c == '\t'

def isPlain (c : Char) : Bool :=
  c == '\t' || (' ' ≤ c && c.val != 0x7f)

def comment : Reader Unit := do
  if ← taking "#" then
    let _ ← takeWhile isPlain

def blankLines : Reader Unit := do
  let _ ← rounds do
    blanks
    comment
    return if ← takingLineEnd then some () else none

def endOfLine : Reader Unit := do
  blanks
  comment
  if (← peek?).isSome then guard (← takingLineEnd)

/-! ## Texts -/

/-- A character given by so many digits of its code. -/
def coded (width : Nat) : Reader Char := do
  let digits := (← get).take width
  guard (digits.length == width && digits.all isHexDigit)
  modify (·.drop width)
  let code := numberOf 16 digits
  guard (code < 0xd800 || (0xdfff < code && code < 0x110000))
  return Char.ofNat code

/-- The character that an escape stands for, behind its backslash. -/
def escape : Reader Char := do
  match ← next with
  | 'b' => return '\x08'
  | 't' => return '\t'
  | 'n' => return '\n'
  | 'f' => return '\x0c'
  | 'r' => return '\r'
  | '"' => return '"'
  | '\\' => return '\\'
  | 'u' => coded 4
  | 'U' => coded 8
  | _ => failure

def lineText (quote : Char) (escapes : Bool) : Reader (List Char) :=
  rounds do
    let c ← next
    if c == quote then return none
    if escapes && c == '\\' then return some (← escape)
    guard (isPlain c)
    return some c

/-- Quotes in a text with three quotes on each side. Up to two belong to the text, also right before
the three that end it. -/
def innerQuotes (quote : Char) : Reader (Option (List Char)) := do
  let run ← takeWhile (· == quote)
  if run.length < 3 then return some run
  if run.length == 3 then return none
  guard (run.length ≤ 5)
  modify (List.replicate 3 quote ++ ·)
  return some (run.drop 3)

/-- A backslash at the end of a line takes the blanks and ends of lines behind it away. -/
def takingContinuation : Reader Bool := do
  let rest := (← get).dropWhile fun c => c == ' ' || c == '\t'
  if rest.head? == some '\n' || "\r\n".toList.isPrefixOf rest then
    let _ ← rounds do
      blanks
      return if ← takingLineEnd then some () else none
    return true
  return false

/-- The rest of a text over several lines, behind its opening quotes. -/
def linesText (quote : Char) (escapes : Bool) : Reader (List Char) := do
  let _ ← takingLineEnd
  let pieces ← rounds do
    if (← peek?) == some quote then innerQuotes quote
    else if ← takingLineEnd then return some ['\n']
    else
      let c ← next
      if escapes && c == '\\' then
        if ← takingContinuation then return some []
        return some [← escape]
      guard (isPlain c)
      return some [c]
  return pieces.flatten

def quotedText : Reader String := do
  if ← taking "\"\"\"" then return String.ofList (← linesText '"' true)
  if ← taking "'''" then return String.ofList (← linesText '\'' false)
  if ← taking "\"" then return String.ofList (← lineText '"' true)
  exactly "'"
  return String.ofList (← lineText '\'' false)

/-! ## Keys -/

def key : Reader String := do
  if ← taking "\"" then return String.ofList (← lineText '"' true)
  if ← taking "'" then return String.ofList (← lineText '\'' false)
  let cs ← takeWhile isBareKeyChar
  guard !cs.isEmpty
  return String.ofList cs

def keyPath : Reader (List String) := do
  let first ← key
  blanks
  let others ← rounds do
    if ← taking "." then
      blanks
      let k ← key
      blanks
      return some k
    return none
  guard (others.length < depthLimit)
  return first :: others

end Reader

end Serpentine.Config

import Serpentine.Text.Blank

/-!
# Type names

The spelling of a type, reduced so that two spellings of one type compare equal, and the path of a
scoped name.
-/

namespace Serpentine

def cutAtScope : List Char → List (List Char)
  | [] => [[]]
  | ':' :: ':' :: cs => [] :: cutAtScope cs
  | c :: cs =>
    match cutAtScope cs with
    | [] => [[c]]
    | piece :: pieces => (c :: piece) :: pieces

namespace TypeName

/-- The words that do not tell types apart. -/
def noise : List String :=
  ["const", "volatile", "class", "struct", "union", "enum", "virtual", "typename"]

def isMark (c : Char) : Bool :=
  c == '*' || c == '&' || c == '<' || c == '>' || c == ','

/-- The text with blanks around each mark and each `::`. -/
def spaced : List Char → List Char
  | [] => []
  | ':' :: ':' :: cs => [' ', ':', ':', ' '] ++ spaced cs
  | c :: cs => if isMark c then [' ', c, ' '] ++ spaced cs else c :: spaced cs

def joinsNext (word : String) : Bool :=
  word == "::" || word == "<" || word == "*" || word == "&"

def joinsLast (word : String) : Bool :=
  word == "::" || word == "<" || word == ">" || word == "*" || word == "&" || word == ","

/-- The words in one text. A blank stands between two words that are not joined. -/
def join : List String → String
  | [] => ""
  | word :: rest =>
    if noise.contains word then join rest
    else match rest with
      | [] => word
      | next :: _ =>
        if joinsNext word || joinsLast next then word ++ join rest else word ++ " " ++ join rest

/-- The spelling of a type without qualifiers and superfluous blanks. -/
def normalize (raw : String) : String :=
  join ((words (spaced raw.toList)).map String.ofList)

/-- The text without what stands between angle brackets, given how many are open. -/
def dropArguments : Nat → List Char → List Char
  | _, [] => []
  | depth, c :: cs =>
    if c == '<' then dropArguments (depth + 1) cs
    else if c == '>' then dropArguments (depth - 1) cs
    else if depth = 0 then c :: dropArguments depth cs
    else dropArguments depth cs

/-- The names of a scoped name. A leading `::` gives an empty first name. -/
def segments (raw : String) : List String :=
  let plain := normalize (String.ofList (dropArguments 0 raw.toList))
  (cutAtScope plain.toList).map fun piece => String.ofList (trim piece)

/-- The text up to its first `::`. -/
def untilScope : List Char → List Char
  | [] => []
  | ':' :: ':' :: _ => []
  | c :: cs => c :: untilScope cs

/-- What follows the last `::`. -/
def last (raw : String) : String :=
  String.ofList (untilScope raw.toList.reverse).reverse

def isScoped (raw : String) : Bool :=
  1 < (cutAtScope raw.toList).length

end TypeName

end Serpentine

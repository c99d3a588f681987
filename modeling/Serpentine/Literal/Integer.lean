/-!
# Integer literals

The value of an integer literal: decimal, octal with a leading zero, hexadecimal after `0x`, binary
after `0b`; digit separators and suffix letters do not count. A value outside the signed 64-bit
range is no value.
-/

namespace Serpentine

def fitsInt64 (n : Int) : Bool :=
  -9223372036854775808 ≤ n && n ≤ 9223372036854775807

def checkedInt64 (n : Int) : Option Int :=
  if fitsInt64 n then some n else none

namespace Literal

def isIntSuffix (c : Char) : Bool :=
  c == 'u' || c == 'U' || c == 'l' || c == 'L' || c == 'z' || c == 'Z'

/-- The text without the suffix letters at its end. -/
def dropSuffix (isSuffix : Char → Bool) (cs : List Char) : List Char :=
  (cs.reverse.dropWhile isSuffix).reverse

/-- The text without suffix and digit separators, in lower case. -/
def digits (text : String) : List Char :=
  ((dropSuffix isIntSuffix text.toList).filter (· != '\'')).map Char.toLower

/-- The value of one digit in lower case, if it is one below the radix. -/
def digit? (radix : Nat) (c : Char) : Option Nat :=
  let value :=
    if c.isDigit then some (c.toNat - '0'.toNat)
    else if 'a' ≤ c && c ≤ 'z' then some (c.toNat - 'a'.toNat + 10)
    else none
  value.filter (· < radix)

/-- The number that the digits go on to spell behind `n`. -/
def natFrom? (radix : Nat) (n : Nat) : List Char → Option Nat
  | [] => some n
  | c :: cs => (digit? radix c).bind fun d => natFrom? radix (n * radix + d) cs

/-- The number that one or more digits spell. -/
def nat? (radix : Nat) (cs : List Char) : Option Nat :=
  if cs.isEmpty then none else natFrom? radix 0 cs

/-- The 64-bit number that digits spell behind an optional sign. -/
def int? (radix : Nat) : List Char → Option Int
  | '-' :: cs => (nat? radix cs).bind fun n => checkedInt64 (-n)
  | '+' :: cs => (nat? radix cs).bind fun n => checkedInt64 n
  | cs => (nat? radix cs).bind fun n => checkedInt64 n

def intValue? (text : String) : Option Int :=
  match digits text with
  | '0' :: 'x' :: cs => int? 16 cs
  | '0' :: 'b' :: cs => int? 2 cs
  | '0' :: c :: cs => int? 8 (c :: cs)
  | cs => int? 10 cs

end Literal

end Serpentine

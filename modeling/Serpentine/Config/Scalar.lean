import Serpentine.Config.Moment
import Serpentine.Config.Value

/-!
# Words

A value without quotes or brackets is one word: a number, a truth value or a moment.
-/

namespace Serpentine.Config

def bounded? (i : Int) : Option Int :=
  if -9223372036854775808 ≤ i ∧ i < 9223372036854775808 then some i else none

def signed : List Char → Bool × List Char
  | '-' :: rest => (true, rest)
  | '+' :: rest => (false, rest)
  | cs => (false, cs)

/-- Decimal digits without a zero in front. -/
def wholeDigits? (cs : List Char) : Option (List Char) :=
  (digitGroup? Char.isDigit cs).filter fun digits => digits.length == 1 || digits.head? != some '0'

/-! ## Numbers -/

/-- An integer, in base ten or with the mark of another base. -/
def integer? (cs : List Char) : Option Int := do
  let ofBase (base : Nat) (isDigit : Char → Bool) (rest : List Char) : Option Int := do
    bounded? (numberOf base (← digitGroup? isDigit rest))
  match cs with
  | '0' :: 'x' :: rest => ofBase 16 isHexDigit rest
  | '0' :: 'o' :: rest => ofBase 8 (fun c => '0' ≤ c && c ≤ '7') rest
  | '0' :: 'b' :: rest => ofBase 2 (fun c => c == '0' || c == '1') rest
  | _ =>
    let (negative, rest) := signed cs
    let n : Int := numberOf 10 (← wholeDigits? rest)
    bounded? (if negative then -n else n)

/-- An exponent, with its mark. No text is the exponent zero. -/
def exponent? : List Char → Option Int
  | [] => some 0
  | c :: rest => do
    guard (c == 'e' || c == 'E')
    let (negative, digits) := signed rest
    let n : Int := numberOf 10 (← digitGroup? Char.isDigit digits)
    return if negative then -n else n

/-- The magnitude of a float: digits, then a fraction, an exponent or both. -/
def magnitude? (cs : List Char) : Option Magnitude := do
  let inMantissa (c : Char) := c.isDigit || c == '_'
  let whole ← wholeDigits? (cs.takeWhile inMantissa)
  match cs.dropWhile inMantissa with
  | [] => none
  | '.' :: rest =>
    let places ← digitGroup? Char.isDigit (rest.takeWhile inMantissa)
    let e ← exponent? (rest.dropWhile inMantissa)
    return .ofDecimal (numberOf 10 (whole ++ places)) (e - places.length)
  | rest => return .ofDecimal (numberOf 10 whole) (← exponent? rest)

/-- A float. One that is too large is refused, unless it has a minus. -/
def float? (cs : List Char) : Option Binary64 := do
  let (negative, rest) := signed cs
  if rest == "inf".toList then return ⟨negative, .infinite⟩
  if rest == "nan".toList then return ⟨negative, .notANumber⟩
  let magnitude ← magnitude? rest
  guard (negative || magnitude != .infinite)
  return ⟨negative, magnitude⟩

/-! ## Words -/

def isWordChar (c : Char) : Bool :=
  c.isAlphanum || c == '_' || c == '+' || c == '-' || c == '.' || c == ':'

/-- The word at the front of a text. A date takes the time behind one blank with it. -/
def wordAt (cs : List Char) : List Char :=
  let word := cs.takeWhile isWordChar
  match date? word, cs.dropWhile isWordChar with
  | some (_, []), ' ' :: c :: rest =>
    if c.isDigit then word ++ ' ' :: (c :: rest).takeWhile isWordChar else word
  | _, _ => word

def Value.ofWord? (cs : List Char) : Option Value :=
  if cs == "true".toList then some (.boolean true)
  else if cs == "false".toList then some (.boolean false)
  else
    ((integer? cs).map .integer).or
      (((float? cs).map .float).or ((moment? .strict cs).map .moment))

end Serpentine.Config

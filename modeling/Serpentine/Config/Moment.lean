import Serpentine.Config.Digits

/-!
# Moments

A moment is a date, a time of day, or both with or without a distance from universal time. It is
kept as its text in normal form.
-/

namespace Serpentine.Config

/-- How far the parts of a time may go. -/
structure ClockRange where
  lastHour : Nat
  lastOffsetHour : Nat
  lastOffsetMinute : Nat
deriving Repr, DecidableEq, Inhabited

def ClockRange.strict : ClockRange := ⟨23, 23, 59⟩

/-- The range of a moment between quotes. A day may end at 24, and a distance may have any digits
as long as it is at most a day. -/
def ClockRange.lenient : ClockRange := ⟨24, 99, 99⟩

/-- The key of a table that stands for a moment. A moment without a table around it is written as
such a table. -/
def momentKey : String := "$__toml_private_datetime"

def after? (c : Char) : List Char → Option (List Char)
  | [] => none
  | d :: rest => if c == d then some rest else none

def daysOf (year month : Nat) : Nat :=
  if month = 2 then if year % 4 = 0 ∧ (year % 100 ≠ 0 ∨ year % 400 = 0) then 29 else 28
  else if month = 4 ∨ month = 6 ∨ month = 9 ∨ month = 11 then 30 else 31

def date? (cs : List Char) : Option (List Char × List Char) := do
  let (year, cs) ← fixed? 4 0 9999 cs
  let (month, cs) ← fixed? 2 1 12 (← after? '-' cs)
  let (day, cs) ← fixed? 2 1 (daysOf (numberOf 10 year) (numberOf 10 month)) (← after? '-' cs)
  return (year ++ ['-'] ++ month ++ ['-'] ++ day, cs)

/-- The fraction of a second, up to nine places and without zeros at the end. -/
def fraction? : List Char → Option (List Char × List Char)
  | '.' :: cs =>
    let places := cs.takeWhile Char.isDigit
    let kept := ((places.take 9).reverse.dropWhile (· == '0')).reverse
    if places.isEmpty then none
    else some (if kept.isEmpty then [] else '.' :: kept, cs.dropWhile Char.isDigit)
  | cs => some ([], cs)

/-- A time of day. A minute may have a leap second. -/
def time? (range : ClockRange) (cs : List Char) : Option (List Char × List Char) := do
  let (hour, cs) ← fixed? 2 0 range.lastHour cs
  let (minute, cs) ← fixed? 2 0 59 (← after? ':' cs)
  let (second, cs) ← fixed? 2 0 60 (← after? ':' cs)
  let (fraction, cs) ← fraction? cs
  return (hour ++ [':'] ++ minute ++ [':'] ++ second ++ fraction, cs)

/-- A distance from universal time, to the end of the text. It is at most a day, and none has a
minus. -/
def offset? (range : ClockRange) : List Char → Option (List Char)
  | [] => some []
  | ['Z'] | ['z'] => some ['Z']
  | sign :: cs => do
    guard (sign == '+' || sign == '-')
    let (hours, cs) ← fixed? 2 0 range.lastOffsetHour cs
    let (minutes, cs) ← fixed? 2 0 range.lastOffsetMinute (← after? ':' cs)
    guard cs.isEmpty
    let total := 60 * numberOf 10 hours + numberOf 10 minutes
    guard (total ≤ 1440)
    return (if total = 0 then '+' else sign) :: twoDigits (total / 60) ++ ':' ::
      twoDigits (total % 60)

/-- A date, a time, or a date and a time, in normal form. -/
def moment? (range : ClockRange) (cs : List Char) : Option String :=
  match date? cs with
  | some (date, []) => some (String.ofList date)
  | some (date, c :: rest) => do
    guard (c == 'T' || c == 't' || c == ' ')
    let (time, rest) ← time? range rest
    return String.ofList (date ++ 'T' :: time ++ (← offset? range rest))
  | none => do
    let (time, rest) ← time? range cs
    guard rest.isEmpty
    return String.ofList time

end Serpentine.Config

/-!
# Binary floating point numbers

The numbers of the 64-bit binary format: `m · 2 ^ q` with `m < 2 ^ 53` and `-1074 ≤ q ≤ 971`, the
infinities, and what is no number.
-/

namespace Serpentine

/-- A number of the format without its sign. -/
inductive Magnitude where
  /-- The number `m · 2 ^ q`. -/
  | finite (m : Nat) (q : Int)
  | infinite
  | notANumber
deriving Repr, DecidableEq, Inhabited

structure Binary64 where
  negative : Bool
  magnitude : Magnitude
deriving Repr, DecidableEq, Inhabited

namespace Magnitude

/-- What each `m` is below, `2 ^ 53`. -/
def limit : Nat := 9007199254740992

def minExponent : Int := -1074

def maxExponent : Int := 971

/-- The quotient to the nearest natural number; a tie goes to the even neighbour. -/
def roundQuotient (num den : Nat) : Nat :=
  let quotient := num / den
  let rest := 2 * (num % den)
  if rest < den then quotient
  else if den < rest then quotient + 1
  else quotient + quotient % 2

/-- The number nearest to `num / den`, which is above zero. -/
def ofQuotient (num den : Nat) : Magnitude :=
  let scaled (q : Int) : Nat × Nat := (num * Nat.pow 2 (-q).toNat, den * Nat.pow 2 q.toNat)
  let low := (num.log2 : Int) - den.log2 - 53
  let (n, d) := scaled low
  let q := max minExponent (if n / d < limit then low else low + 1)
  let (n, d) := scaled q
  let m := roundQuotient n d
  let (m, q) := if m < limit then (m, q) else (limit / 2, q + 1)
  if q ≤ maxExponent then .finite m q else .infinite

/-- The number nearest to `n · 10 ^ e`. Decimals far outside the format's range are not computed. -/
def ofDecimal (n : Nat) (e : Int) : Magnitude :=
  let point := (Nat.toDigits 10 n).length + e
  if n = 0 ∨ point < -330 then .finite 0 0
  else if 320 < point then .infinite
  else ofQuotient (n * Nat.pow 10 e.toNat) (Nat.pow 10 (-e).toNat)

end Magnitude

end Serpentine

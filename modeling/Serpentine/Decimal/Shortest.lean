import Serpentine.Decimal.Binary64

/-!
# Shortest decimals

A binary floating point number is written with the fewest digits that are read back as the same
number.
-/

namespace Serpentine

/-- A decimal `digits · 10 ^ power`. -/
structure Decimal where
  digits : Nat
  power : Int
deriving Repr, DecidableEq, Inhabited

namespace Decimal

/-- How `d` compares with `x · 2 ^ e`. -/
def compare (d : Decimal) (x : Nat) (e : Int) : Ordering :=
  Ord.compare (d.digits * Nat.pow 10 d.power.toNat * Nat.pow 2 (-e).toNat)
    (x * Nat.pow 2 e.toNat * Nat.pow 10 (-d.power).toNat)

/-- The decimal is read as `m · 2 ^ q`: it is between the middles to the neighbours. The middles
themselves belong to an even `m`. -/
def readsAs (d : Decimal) (m : Nat) (q : Int) : Bool :=
  let first := m = Magnitude.limit / 2 ∧ Magnitude.minExponent < q
  let low := if first then 4 * m - 1 else 4 * m - 2
  let even := m % 2 == 0
  let above := match d.compare low (q - 2) with
    | .gt => true
    | .eq => even
    | .lt => false
  let below := match d.compare (4 * m + 2) (q - 2) with
    | .lt => true
    | .eq => even
    | .gt => false
  above && below

/-- The decimal with a power of ten that is next below `m · 2 ^ q`, or equal to it. -/
def floorAt (m : Nat) (q power : Int) : Decimal :=
  let num := m * Nat.pow 2 q.toNat * Nat.pow 10 (-power).toNat
  ⟨num / (Nat.pow 2 (-q).toNat * Nat.pow 10 power.toNat), power⟩

/-- The decimal with a power of ten that is read as `m · 2 ^ q` and nearest to it. -/
def nearestAt? (m : Nat) (q power : Int) : Option Decimal :=
  let below := floorAt m q power
  let above : Decimal := ⟨below.digits + 1, power⟩
  match below.readsAs m q, above.readsAs m q with
  | false, false => none
  | true, false => some below
  | false, true => some above
  | true, true =>
    if (⟨2 * below.digits + 1, power⟩ : Decimal).compare m (q + 1) = .gt then some below
    else some above

/-- The first hit of so many powers of ten, from a power downwards. -/
def search (m : Nat) (q : Int) : Nat → Int → Option Decimal
  | 0, _ => none
  | n + 1, power => (nearestAt? m q power).or (search m q n (power - 1))

/-- The decimal with the fewest digits that is read as `m · 2 ^ q`, which is above zero. -/
def shortest (m : Nat) (q : Int) : Decimal :=
  (search m q 650 310).getD (floorAt m q (-340))

def positional (d : Decimal) : String :=
  let digits := Nat.toDigits 10 d.digits
  let places := (-d.power).toNat
  if places = 0 then String.ofList (digits ++ List.replicate d.power.toNat '0')
  else
    let padded := List.replicate (places + 1 - digits.length) '0' ++ digits
    String.ofList (padded.take (padded.length - places)) ++ "." ++
      String.ofList (padded.drop (padded.length - places))

end Decimal

end Serpentine

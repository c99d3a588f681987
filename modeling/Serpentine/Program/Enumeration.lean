import Serpentine.Literal.Integer
import Serpentine.Tree.Expr

/-!
# Enumerations

The values of enumerators. One without an initialiser has the value before it plus one, or zero at
the start. An initialiser that is a constant is computed; any other is kept as it is written, and
the enumerators behind it count from it.
-/

namespace Serpentine

/-- The value of an enumerator. -/
inductive EnumValue where
  | int (value : Int)
  | expr (e : Expr)
  /-- So much more than an earlier enumerator whose value is kept as written. -/
  | offset (base : String) (amount : Int)
deriving Repr, Inhabited

/-- A constant of an enumeration. -/
structure Enumerator where
  name : String
  init : Option Expr
  value : EnumValue
  place : Position
  /-- Only an initialiser is kept as written. -/
  init_of_value : ∀ e, value = .expr e → init = some e
deriving Repr

instance : Inhabited Enumerator where
  default := ⟨"", none, .int 0, default, nofun⟩

/-- An enumeration. The enumerators of a scoped one are not visible around it. -/
structure Enumeration where
  isScoped : Bool
  enumerators : List Enumerator
deriving Repr, Inhabited

/-- The signed number with the low 64 bits of an integer. -/
def wrapInt64 (n : Int) : Int :=
  n.bmod 18446744073709551616

def bits64 (n : Int) : BitVec 64 :=
  BitVec.ofInt 64 n

/-- The value of an operator on a 64-bit constant, if it is one. -/
def UnaryOp.constant? (op : UnaryOp) (v : Int) : Option Int :=
  match op with
  | .neg => checkedInt64 (-v)
  | .plus => some v
  | .bitNot => some (-v - 1)
  | .not => some (if v = 0 then 1 else 0)
  | .deref | .addressOf => none

/-- The value of an operator on two 64-bit constants, if it is one. -/
def BinaryOp.constant? (op : BinaryOp) (l r : Int) : Option Int :=
  match op with
  | .add => checkedInt64 (l + r)
  | .sub => checkedInt64 (l - r)
  | .mul => checkedInt64 (l * r)
  | .div => if r = 0 then none else checkedInt64 (l.tdiv r)
  | .mod =>
    if r = 0 then none else (checkedInt64 (l.tdiv r)).map fun _ => l.tmod r
  | .shl => if 0 ≤ r ∧ r < 64 then some (wrapInt64 (l * Int.pow 2 r.toNat)) else none
  | .shr => if 0 ≤ r ∧ r < 64 then some (l.fdiv (Int.pow 2 r.toNat)) else none
  | .bitAnd => some (bits64 l &&& bits64 r).toInt
  | .bitOr => some (bits64 l ||| bits64 r).toInt
  | .bitXor => some (bits64 l ^^^ bits64 r).toInt
  | _ => none

def escapedValue? (c : Char) : Option Int :=
  if c == 'n' then some 10
  else if c == 't' then some 9
  else if c == 'r' then some 13
  else if c == '0' then some 0
  else if c == '\\' then some 92
  else if c == '\'' then some 39
  else if c == '\"' then some 34
  else none

def unquoted? : List Char → Option (List Char)
  | '\'' :: cs => if cs.getLast? == some '\'' then some cs.dropLast else none
  | _ => none

/-- The number of the character in a character literal. -/
def charValue? (text : String) : Option Int :=
  match unquoted? text.toList with
  | some [c] => some c.toNat
  | some (first :: c :: _) => if first == '\\' then escapedValue? c else none
  | _ => none

namespace Enumeration

def empty (isScoped : Bool) : Enumeration :=
  ⟨isScoped, []⟩

def indexOf? (e : Enumeration) (name : String) : Option Nat :=
  e.enumerators.findIdx? (·.name == name)

def value? (e : Enumeration) (name : String) : Option Int :=
  match e.enumerators.find? (·.name == name) with
  | some ⟨_, _, .int v, _, _⟩ => some v
  | _ => none

/-- The value of an initialiser, if it is a constant. -/
def constant? (e : Enumeration) : Expr → Option Int
  | .literal .int text => Literal.intValue? text
  | .literal .char text => charValue? text
  | .literal .bool text => some (if text == "true" then 1 else 0)
  | .name ref | .scoped ref => e.value? ref.base
  | .parens inner | .cast _ inner => e.constant? inner
  | .unary op operand => (e.constant? operand).bind op.constant?
  | .binary op left right =>
    (e.constant? left).bind fun l => (e.constant? right).bind fun r => op.constant? l r
  | _ => none

def nextValue (e : Enumeration) : EnumValue :=
  match e.enumerators.getLast? with
  | none => .int 0
  | some last =>
    match last.value with
    | .int v => .int (wrapInt64 (v + 1))
    | .expr _ => .offset last.name 1
    | .offset base amount => .offset base (amount + 1)

/-- The value that an initialiser gives, or the next one. -/
def valueFor (e : Enumeration) : Option Expr → EnumValue
  | none => e.nextValue
  | some init =>
    match e.constant? init with
    | some v => .int v
    | none => .expr init

theorem init_of_valueFor {e : Enumeration} {init : Option Expr} {written : Expr}
    (h : e.valueFor init = .expr written) : init = some written := by
  cases init with
  | none =>
    rw [valueFor, nextValue] at h
    split at h
    · cases h
    · split at h <;> cases h
  | some init =>
    rw [valueFor] at h
    split at h
    · cases h
    · cases h
      rfl

def push (e : Enumeration) (name : String) (init : Option Expr) (place : Position) : Enumeration :=
  let added := ⟨name, init, e.valueFor init, place, fun _ => init_of_valueFor⟩
  { e with enumerators := e.enumerators ++ [added] }

end Enumeration

end Serpentine

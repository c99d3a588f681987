import Serpentine.Text.Printable

/-!
# Quoted characters

How a message shows one character between single quotes.
-/

namespace Serpentine

/-- The digits of a number in lower-case hexadecimal, without leading zeros. -/
def hexDigits (n : Nat) : String :=
  String.ofList (Nat.toDigits 16 n)

def escapedChar (c : Char) : String :=
  if c == '\x00' then "\\0"
  else if c == '\t' then "\\t"
  else if c == '\r' then "\\r"
  else if c == '\n' then "\\n"
  else if c == '\\' then "\\\\"
  else if c == '\'' then "\\'"
  else if isPrintable c then c.toString
  else "\\u\x7b" ++ hexDigits c.toNat ++ "\x7d"

def quotedChar (c : Char) : String :=
  "'" ++ escapedChar c ++ "'"

end Serpentine

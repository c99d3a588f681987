import Serpentine.Token.Scan

/-!
# Token streams

The tokens of a text, taken from a scan when they are asked for and kept, so that a parser may look
ahead as far as it likes and go back to where it was. A `>>` that closes two lists of template
arguments is split where it stands; a log of the splits lets the parser take them back.
-/

namespace Serpentine

/-- The tokens of a text, those taken and those looked at. -/
structure Stream where
  scan : Scan
  buffer : Array Token
  cursor : Nat
  /-- The places at which a `>>` was split, the last split first. -/
  splits : List Nat
  faults : List ScanFault
  size : Nat
deriving Repr, DecidableEq, Inhabited

namespace Stream

def start (text : String) : Stream :=
  { scan := Scan.start text
    buffer := #[]
    cursor := 0
    splits := []
    faults := []
    size := text.length }

def pull (s : Stream) : Stream :=
  let (faults, token, scan) := s.scan.pull
  { s with scan, buffer := s.buffer.push token, faults := s.faults ++ faults }

def pullMany (s : Stream) : Nat → Stream
  | 0 => s
  | n + 1 => s.pull.pullMany n

def fill (s : Stream) (index : Nat) : Stream :=
  s.pullMany (index + 1 - s.buffer.size)

def peekAt (s : Stream) (offset : Nat) : Token × Stream :=
  let s := s.fill (s.cursor + offset)
  (s.buffer.getD (s.cursor + offset) default, s)

/-- The next token and the stream behind it. The end is never passed. -/
def advance (s : Stream) : Token × Stream :=
  let (token, s) := s.peekAt 0
  (token, if token.isEnd then s else { s with cursor := s.cursor + 1 })

def firstHalf (token : Token) : Token :=
  ⟨.gt, ">", token.spot⟩

def secondHalf (token : Token) : Token :=
  ⟨.gt, ">", { token.spot with column := token.spot.column + 1 }⟩

/-- The `>>` of which a token is the first half. -/
def joined (token : Token) : Token :=
  ⟨.shr, ">>", token.spot⟩

/-- The stream with a `>>` in front read as two closing brackets. -/
def splitShift (s : Stream) : Stream :=
  let (token, s) := s.peekAt 0
  if token.kind = .shr then
    let buffer := s.buffer.setIfInBounds s.cursor (firstHalf token)
    { s with
      buffer := buffer.insertIdxIfInBounds (s.cursor + 1) (secondHalf token)
      splits := s.cursor :: s.splits }
  else s

def joinShift (s : Stream) (index : Nat) : Stream :=
  let token := s.buffer.getD index default
  let buffer := s.buffer.eraseIdxIfInBounds (index + 1)
  { s with buffer := buffer.setIfInBounds index (joined token) }

/-- A place in the text, and how many splits there were. -/
structure Mark where
  cursor : Nat
  splits : Nat
deriving Repr, DecidableEq, Inhabited

def mark (s : Stream) : Mark :=
  ⟨s.cursor, s.splits.length⟩

/-- Takes splits back, the last one first, until there are no more than so many. -/
def joinUntil (count : Nat) : List Nat → Stream → Stream
  | [], s => { s with splits := [] }
  | index :: rest, s =>
    if count < rest.length + 1 then joinUntil count rest (s.joinShift index)
    else { s with splits := index :: rest }

def restore (s : Stream) (m : Mark) : Stream :=
  { joinUntil m.splits s.splits s with cursor := m.cursor }

end Stream

end Serpentine

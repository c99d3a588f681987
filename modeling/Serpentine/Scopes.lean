/-!
# Scopes

Whether a name is a type, per brace level. `T * x;` declares a pointer when `T` is a type and
multiplies two values when it is not, so the grammar asks here.
-/

namespace Serpentine

/-- What the grammar has to know of a name. -/
inductive NameClass where
  | type
  | value
deriving Repr, DecidableEq, Inhabited

def NameClass.text : NameClass → String
  | .type => "type"
  | .value => "non-type"

/-- Why a change of scopes is refused. -/
inductive ScopeCause where
  | redeclared (name : String) (was now : NameClass)
  | underflow
deriving Repr, DecidableEq, Inhabited

def ScopeCause.message : ScopeCause → String
  | .redeclared name was now =>
    "`" ++ name ++ "` redeclared as a " ++ now.text ++ " in the same scope (was a " ++ was.text ++
      ")"
  | .underflow => "internal error: scope stack underflow"

/-- The names declared at one brace level. -/
abbrev Frame := List (String × NameClass)

/-- The open frames: the inner ones, innermost first, and the outermost. -/
structure Scopes where
  inner : List Frame
  outermost : Frame
deriving Repr, DecidableEq, Inhabited

namespace Scopes

def empty : Scopes :=
  ⟨[], []⟩

def depth (s : Scopes) : Nat :=
  s.inner.length + 1

def frames (s : Scopes) : List Frame :=
  s.inner ++ [s.outermost]

def push (s : Scopes) : Scopes :=
  { s with inner := [] :: s.inner }

/-- Closes the innermost frame. The outermost frame stays. -/
def pop (s : Scopes) : Except ScopeCause Scopes :=
  match s.inner with
  | [] => .error .underflow
  | _ :: rest => .ok { s with inner := rest }

def declareIn (frame : Frame) (name : String) (c : NameClass) : Except ScopeCause Frame :=
  match frame.lookup name with
  | none => .ok ((name, c) :: frame)
  | some was => if was = c then .ok frame else .error (.redeclared name was c)

def declare (s : Scopes) (name : String) (c : NameClass) : Except ScopeCause Scopes :=
  match s.inner with
  | [] => return { s with outermost := ← declareIn s.outermost name c }
  | frame :: rest => return { s with inner := (← declareIn frame name c) :: rest }

/-- The class of a name in the innermost frame that declares it. -/
def classify (s : Scopes) (name : String) : Option NameClass :=
  s.frames.findSome? (·.lookup name)

def isType (s : Scopes) (name : String) : Bool :=
  s.classify name == some .type

end Scopes

end Serpentine

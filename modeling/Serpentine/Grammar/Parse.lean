import Serpentine.Grammar.State

/-!
# Parsing

A parse reads tokens, declares names and adds to the program. A failure keeps the state in which it
arose, so that a caller can tell what a parse that is given up has left behind.

The type of a parse says how far its changes go, and the parse carries the proof: whatever it does,
the state after it is reached by single changes of its effect, and by going back after parses that
were given up.
-/

namespace Serpentine.Grammar

/-- A result or a fault, and in both cases the state after it. -/
inductive Outcome (α : Type) where
  | ok (a : α) (s : State)
  | error (fault : Fault) (s : State)

namespace Outcome

variable {α β : Type}

def state : Outcome α → State
  | .ok _ s => s
  | .error _ s => s

def bind : Outcome α → (α → State → Outcome β) → Outcome β
  | .ok a s, next => next a s
  | .error fault s, _ => .error fault s

def listing (next : α → State → List β) : Outcome α → List β
  | .ok a s => next a s
  | .error .. => []

end Outcome

variable {e e' : Effect} {α β : Type}

def Action.run (action : Action e α) (s : State) : Outcome α :=
  match action.apply s with
  | .ok (a, t) => .ok a t
  | .error fault => .error fault s

/-- A parse in its surroundings. A fault stays in them. -/
def Setting.run (setting : Setting e) (p : State → Outcome α) (s : State) : Outcome α :=
  match p (setting.enter s) with
  | .ok a t => .ok a (setting.leave s t)
  | .error fault t => .error fault t

/-- What parses are composed of: they look at the tokens and at what else is known, take tokens,
use names and act, follow each other, are given up, and stand in surroundings. The uses of names are
listed. -/
inductive Composed (e : Effect) :
    {α : Type} → (State → Outcome α) → (State → List NameRef) → Prop where
  | pure {α : Type} (a : α) : Composed e (fun s => .ok a s) fun _ => []
  | fail {α : Type} (fault : Fault) :
      Composed e (fun s => (.error fault s : Outcome α)) fun _ => []
  | bind {α β : Type} {p : State → Outcome α} {next : α → State → Outcome β}
      {uses : State → List NameRef} {later : α → State → List NameRef} (first : Composed e p uses)
      (rest : ∀ a, Composed e (next a) (later a)) :
      Composed e (fun s => (p s).bind next) fun s => uses s ++ (p s).listing later
  | read : Composed e (fun s => .ok s.withoutTokens s) fun _ => []
  | peek (offset : Nat) : Composed e (fun s =>
      .ok (s.stream.peekAt offset).1 { s with stream := (s.stream.peekAt offset).2 }) fun _ => []
  | advance : Composed e
      (fun s => .ok s.stream.advance.1 { s with stream := s.stream.advance.2 }) fun _ => []
  | split : Composed e (fun s => .ok () { s with stream := s.stream.splitShift }) fun _ => []
  | refer (raw : String) (place : Position) : Composed e
      (fun s => .ok (s.useOf raw place) { s with store := s.store.freshRef.2 })
      fun s => [s.useOf raw place]
  | act {α : Type} (action : Action e α) : Composed e action.run fun _ => []
  | speculate {α : Type} {p : State → Outcome α} {uses : State → List NameRef}
      (spec : Composed e p uses) : Composed e (fun s =>
      match p s with
      | .ok a t => .ok (some a) t
      | .error _ t => .ok none (t.restore s.checkpoint)) uses
  | within {α : Type} {p : State → Outcome α} {uses : State → List NameRef} (setting : Setting e)
      (inner : Composed e p uses) : Composed e (setting.run p) fun s => uses (setting.enter s)

namespace Composed

variable {run : State → Outcome α} {uses : State → List NameRef}

theorem mono (he : e ≤ e') (h : Composed e run uses) : Composed e' run uses := by
  induction h with
  | pure a => exact .pure a
  | fail fault => exact .fail fault
  | bind _ _ first next => exact .bind first next
  | read => exact .read
  | peek offset => exact .peek offset
  | advance => exact .advance
  | split => exact .split
  | refer raw place => exact .refer raw place
  | act action => exact .act (action.lift he)
  | speculate _ spec => exact .speculate spec
  | within setting _ inner => exact .within (setting.lift he) inner

theorem reaches (h : Composed e run uses) (s : State) : Reaches e s (run s).state := by
  induction h generalizing s with
  | pure | fail | read => exact .refl s
  | @bind _ _ p next _ _ _ _ first rest =>
    have hp := first s
    dsimp only
    generalize p s = outcome at hp ⊢
    cases outcome with
    | ok a t => exact hp.trans (rest a t)
    | error fault t => exact hp
  | peek offset => exact .single (.peek offset)
  | advance => exact .single .advance
  | split => exact .single .split
  | refer raw place => exact .single .refer
  | act action =>
    rw [Action.run]
    split
    · next hs => exact action.reaches hs
    · exact .refl s
  | @speculate _ p _ _ spec =>
    have hp := spec s
    dsimp only
    generalize p s = outcome at hp ⊢
    cases outcome with
    | ok a t => exact hp
    | error fault t => exact .rewind (.refl s) hp
  | @within _ p _ setting _ inner =>
    have hp := (setting.reaches_enter s).trans (inner (setting.enter s))
    rw [Setting.run]
    generalize p (setting.enter s) = outcome at hp ⊢
    cases outcome with
    | ok a t => exact hp.trans (setting.reaches_leave s t)
    | error fault t => exact hp

end Composed

/-- Parses that give a result or a fault by changes of an effect. -/
structure Parse (e : Effect) (α : Type) where
  run : State → Outcome α
  uses : State → List NameRef
  /-- The parse does nothing else with the state. -/
  composed : Composed e run uses

namespace Parse

theorem reaches (p : Parse e α) (s : State) : Reaches e s (p.run s).state :=
  p.composed.reaches s

protected def pure (a : α) : Parse e α where
  run s := .ok a s
  uses _ := []
  composed := .pure a

protected def bind (p : Parse e α) (next : α → Parse e β) : Parse e β where
  run s := (p.run s).bind fun a t => (next a).run t
  uses s := p.uses s ++ (p.run s).listing fun a t => (next a).uses t
  composed := .bind p.composed fun a => (next a).composed

/-- A parse where changes may go further than its own. -/
def lift (he : e ≤ e') (p : Parse e α) : Parse e' α where
  run := p.run
  uses := p.uses
  composed := p.composed.mono he

def ofAction (action : Action e α) : Parse e α where
  run := action.run
  uses _ := []
  composed := .act action

def within (setting : Setting e) (p : Parse e α) : Parse e α where
  run := setting.run p.run
  uses s := p.uses (setting.enter s)
  composed := .within setting p.composed

end Parse

instance : Monad (Parse e) where
  pure := Parse.pure
  bind := Parse.bind

instance : MonadLift (Parse .look) (Parse .name) where
  monadLift := Parse.lift (by decide)

instance : MonadLift (Parse .name) (Parse .declare) where
  monadLift := Parse.lift (by decide)

/-- What is known apart from the tokens. -/
instance : MonadReader State (Parse e) where
  read := { run := fun s => .ok s.withoutTokens s, uses := fun _ => [], composed := .read }

theorem Parse.run_bind (p : Parse e α) (next : α → Parse e β) (s : State) :
    (p >>= next).run s = (p.run s).bind fun a t => (next a).run t :=
  rfl

def fail (fault : Fault) : Parse e α where
  run s := .error fault s
  uses _ := []
  composed := .fail fault

/-! ## Tokens -/

/-- The token so many places ahead. -/
def peekAt (offset : Nat) : Parse e Token where
  run s :=
    match s.stream.peekAt offset with
    | (token, stream) => .ok token { s with stream }
  uses _ := []
  composed := .peek offset

def peek : Parse e Token :=
  peekAt 0

def kindAt (offset : Nat) : Parse e Kind :=
  return (← peekAt offset).kind

def kind : Parse e Kind :=
  kindAt 0

def checkAt (offset : Nat) (k : Kind) : Parse e Bool :=
  return (← kindAt offset) == k

def check (k : Kind) : Parse e Bool :=
  checkAt 0 k

def checkAny (kinds : List Kind) : Parse e Bool :=
  return kinds.contains (← kind)

def advance : Parse e Token where
  run s :=
    match s.stream.advance with
    | (token, stream) => .ok token { s with stream }
  uses _ := []
  composed := .advance

def skip : Parse e Unit :=
  discard advance

def eat (k : Kind) : Parse e Bool := do
  if ← check k then
    skip
    return true
  else
    return false

/-- Takes the next token if it is of a kind, and forgets whether it was. -/
def skipIf (k : Kind) : Parse e Unit :=
  discard (eat k)

def here : Parse e Position :=
  return (← peek).spot.within (← read).file

def failHere (cause : GrammarCause) : Parse e α := do
  fail (.grammar cause (← here))

/-- Fails because something else is expected at the next token. -/
def unexpected (what : String) : Parse e α := do
  let found ← peek
  failHere (.expected what (if found.isEnd then none else some found.lexeme))

def unsupported (construct : String) (place : Position) : Parse e α :=
  fail (.unsupported construct place)

def expect (k : Kind) (what : String) : Parse e Token := do
  if ← check k then advance else unexpected what

/-- Takes the next token, which must be of a kind, and forgets it. -/
def require (k : Kind) (what : String) : Parse e Unit :=
  discard (expect k what)

def identifier : Parse e String :=
  return (← expect .identifier "an identifier").lexeme

def splitShift : Parse e Unit where
  run s := .ok () { s with stream := s.stream.splitShift }
  uses _ := []
  composed := .split

/-- Takes the `>` at the end of template arguments. It may be half of a `>>`. -/
def closeAngle : Parse e Unit := do
  if ← check .shr then splitShift
  require .gt "`>`"

/-! ## Speculation and repetition -/

/-- A parse, or nothing if it fails. What it built stays. -/
def speculate (p : Parse e α) : Parse e (Option α) where
  run s :=
    match p.run s with
    | .ok a t => .ok (some a) t
    | .error _ t => .ok none (t.restore s.checkpoint)
  uses := p.uses
  composed := .speculate p.composed

/-- A parse that builds nothing, or nothing if it fails. -/
def attempt (p : Parse .look α) : Parse .look (Option α) :=
  speculate p

def withContext (id : DeclId) : Parse .declare α → Parse .declare α :=
  .within
    { enter := fun s => { s with context := id }
      leave := fun s t => { t with context := s.context }
      reaches_enter := fun _ => .single (.context (by decide) id)
      reaches_leave := fun s _ => .single (.context (by decide) s.context)
      keeps := fun h => ⟨rfl, h.templateParams, h.inTemplateArgs, h.pending⟩
      enter_blind := fun _ _ => rfl
      leave_blind := fun _ _ _ _ => rfl }

def withTemplateArgs (inside : Bool) : Parse e α → Parse e α :=
  .within
    { enter := fun s => { s with inTemplateArgs := inside }
      leave := fun s t => { t with inTemplateArgs := s.inTemplateArgs }
      reaches_enter := fun _ => .single (.inTemplateArgs inside)
      reaches_leave := fun s _ => .single (.inTemplateArgs s.inTemplateArgs)
      keeps := fun h => ⟨h.context, h.templateParams, rfl, h.pending⟩
      enter_blind := fun _ _ => rfl
      leave_blind := fun _ _ _ _ => rfl }

def underTemplate (params : List String) : Parse .declare α → Parse .declare α :=
  .within
    { enter := fun s =>
        { s with templateParams := params :: s.templateParams, pendingTemplate := true }
      leave := fun _ t =>
        { t with templateParams := t.templateParams.tail, pendingTemplate := false }
      reaches_enter := fun s =>
        .step (.single (.templateParams (by decide) (params :: s.templateParams)))
          (.pendingTemplate (by decide) true)
      reaches_leave := fun _ t =>
        .step (.single (.templateParams (by decide) t.templateParams.tail))
          (.pendingTemplate (by decide) false)
      keeps := fun h => ⟨h.context, congrArg List.tail h.templateParams, h.inTemplateArgs, nofun⟩
      enter_blind := fun _ _ => rfl
      leave_blind := fun _ _ _ _ => rfl }

/-- Fails at nesting that no text can have. -/
def tooDeep : Parse e α := do
  unsupported "nesting" (← here)

/-- At most so many rounds of a step, until it gives a result. -/
def loopWithin : Nat → (β → Parse e (β ⊕ α)) → β → Parse e α
  | 0, _, _ => tooDeep
  | n + 1, step, b => do
    match ← step b with
    | .inl next => loopWithin n step next
    | .inr a => return a

/-- Rounds of a step, until it gives a result. Each round but the last takes a token or looks one
token further, so the size of the text bounds their number. -/
def loop (init : β) (step : β → Parse e (β ⊕ α)) : Parse e α := do
  loopWithin ((← read).stream.size + 2) step init

def many (p : Parse e (Option α)) : Parse e (List α) :=
  loop [] fun done => do
    match ← p with
    | none => return .inr done.reverse
    | some a => return .inl (a :: done)

def separated (p : Parse e α) : Parse e (List α) := do
  let first ← p
  let rest ← many do if ← eat .comma then some <$> p else return none
  return first :: rest

def skipAll (kinds : List Kind) : Parse e Unit :=
  discard <| many do
    if ← checkAny kinds then
      skip
      return some ()
    else
      return none

/-- Takes the tokens up to the bracket that closes the next one. -/
def skipBalanced : Parse e Unit :=
  loop 0 fun depth => do
    match ← kind with
    | .lParen | .lBrace | .lBracket =>
      skip
      return .inl (depth + 1)
    | .rParen | .rBrace | .rBracket =>
      skip
      return if depth ≤ 1 then .inr () else .inl (depth - 1)
    | .eof => unexpected "a closing bracket"
    | _ =>
      skip
      return .inl depth

/-- Takes the tokens up to the end of a declaration: a `;`, or a body in braces. -/
def skipDeclaration : Parse e Unit :=
  loop () fun _ => do
    match ← kind with
    | .semicolon =>
      skip
      return .inr ()
    | .lBrace =>
      skipBalanced
      skipIf .semicolon
      return .inr ()
    | .lParen | .lBracket =>
      skipBalanced
      return .inl ()
    | .eof => unexpected "`;`"
    | _ =>
      skip
      return .inl ()

/-! ## Names -/

def isTypeName (segments : List String) : Parse e Bool :=
  return (← read).isTypeName segments

def isTemplateName (segments : List String) : Parse e Bool :=
  return (← read).isTemplateName segments

/-- The built-in type that a name of one part is another name of. -/
def primitiveAlias? (segments : List String) : Parse e (Option Primitive) := do
  match segments with
  | [name] => return (← read).names.aliases.lookup name
  | _ => return none

def addAlias (name : String) (type : Primitive) : Parse .name Unit :=
  .ofAction <| .always (fun s => s.addAlias name type) (fun _ => .addAlias (by decide) name type)
    (fun _ => ⟨rfl, rfl, rfl, id⟩) fun _ _ => rfl

def noteTemplate (name : String) : Parse .name Unit :=
  .ofAction <| .always (fun s => s.noteTemplate name) (fun _ => .noteTemplate (by decide) name)
    (fun _ => ⟨rfl, rfl, rfl, nofun⟩) fun _ _ => rfl

def forgetTemplate : Parse .name Unit :=
  .ofAction <| .always (fun s => { s with pendingTemplate := false })
    (fun _ => .pendingTemplate (by decide) false) (fun _ => ⟨rfl, rfl, rfl, nofun⟩) fun _ _ => rfl

def nameRef (raw : String) (place : Position) : Parse e NameRef where
  run s := .ok (s.useOf raw place) { s with store := s.store.freshRef.2 }
  uses s := [s.useOf raw place]
  composed := .refer raw place

/-- A use of a type or value by a name that may be scoped. -/
def nameExpr (raw : String) (place : Position) : Parse e Expr := do
  let ref ← nameRef raw place
  return if TypeName.isScoped raw then .scoped ref else .name ref

def pushScope : Parse .name Unit :=
  .ofAction <| .always (fun s => s.withScopes s.names.scopes.push)
    (fun _ => .pushScope (by decide)) (fun _ => ⟨rfl, rfl, rfl, id⟩) fun _ _ => rfl

/-- Puts in new scopes; if there are none, tells why. -/
def Action.rescope (f : Scopes → Except ScopeCause Scopes)
    (h : ∀ (s : State) scopes, f s.names.scopes = .ok scopes → Change e s (s.withScopes scopes)) :
    Action e (Except ScopeCause Unit) where
  apply s :=
    match f s.names.scopes with
    | .ok scopes => .ok (.ok (), s.withScopes scopes)
    | .error cause => .ok (.error cause, s)
  reaches := by
    intro s t a ht
    have hchange := h s
    split at ht <;> cases ht
    · next hs => exact .single (hchange _ hs)
    · exact .refl s
  keeps := by
    intro s t a ht
    split at ht <;> cases ht
    · exact ⟨rfl, rfl, rfl, id⟩
    · exact .refl s
  blind := by
    intro s stream
    dsimp only
    cases f s.names.scopes <;> rfl

/-- Puts in new scopes, or fails at the next token. -/
def rescope (f : Scopes → Except ScopeCause Scopes)
    (h : ∀ (s : State) scopes, f s.names.scopes = .ok scopes → Change e s (s.withScopes scopes)) :
    Parse e Unit := do
  match ← Parse.ofAction (.rescope f h) with
  | .ok () => return
  | .error cause => fail (.scope cause (← here))

def popScope : Parse .name Unit :=
  rescope Scopes.pop fun _ _ hp => .popScope (by decide) hp

/-- Declares a name as a type or value in the innermost scope. -/
def declareName (c : NameClass) (name : String) : Parse .name Unit :=
  rescope (·.declare name c) fun _ _ hd => .declareName (by decide) name c hd

/-! ## The program -/

def build (op : Build α) : Parse .declare α :=
  .ofAction
    { apply := fun s => (op.apply s.store).map fun (a, store) => (a, { s with store })
      reaches := by
        intro s t a ht
        match h : op.apply s.store with
        | .ok (b, store) =>
          rw [h] at ht
          cases ht
          exact .single (.build (by decide) op h)
        | .error fault =>
          rw [h] at ht
          cases ht
      keeps := by
        intro s t a ht
        generalize op.apply s.store = result at ht
        cases result with
        | ok result =>
          cases ht
          exact ⟨rfl, rfl, rfl, id⟩
        | error fault => cases ht
      blind := by
        intro s stream
        dsimp only
        cases op.apply s.store <;> rfl }

def warn (place : Position) (text : String) : Parse .declare Unit :=
  build (.notice (place.text ++ ": " ++ text))

end Serpentine.Grammar

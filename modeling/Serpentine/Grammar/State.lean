import Serpentine.Grammar.Stream
import Serpentine.Program.Build
import Serpentine.Program.Lookup

/-!
# The state of a parse
-/

namespace Serpentine.Grammar

/-- What a parse knows about names. -/
structure Names where
  scopes : Scopes
  aliases : List (String × Primitive)
  templates : List String
deriving Repr, DecidableEq, Inhabited

/-- Nothing is known. -/
def Names.empty : Names :=
  ⟨.empty, [], []⟩

/-- What a parse knows, and what it has built. -/
structure State where
  file : String
  stream : Stream
  names : Names
  store : Store
  context : DeclId
  /-- The parameters of the template heads around, innermost first. -/
  templateParams : List (List String)
  /-- The next declaration belongs to a template head. -/
  pendingTemplate : Bool
  /-- A `>` closes a list of template arguments. -/
  inTemplateArgs : Bool
deriving Repr, Inhabited

/-- What a parse that is given up has to leave as it was. -/
structure Checkpoint where
  mark : Stream.Mark
  scopes : Scopes
  context : DeclId
  templateParams : List (List String)
  pendingTemplate : Bool
  inTemplateArgs : Bool
deriving Repr, Inhabited

namespace State

/-- The state before a text is read. -/
def start (file text : String) (names : Names) (store : Store) : State :=
  { file, names, store
    stream := .start text
    context := Store.root
    templateParams := []
    pendingTemplate := false
    inTemplateArgs := false }

/-- What a parse keeps to go back. -/
def checkpoint (s : State) : Checkpoint :=
  { mark := s.stream.mark
    scopes := s.names.scopes
    context := s.context
    templateParams := s.templateParams
    pendingTemplate := s.pendingTemplate
    inTemplateArgs := s.inTemplateArgs }

/-- Goes back to a checkpoint. What was built stays. -/
def restore (s : State) (c : Checkpoint) : State :=
  { s with
    stream := s.stream.restore c.mark
    names := { s.names with scopes := c.scopes }
    context := c.context
    templateParams := c.templateParams
    pendingTemplate := c.pendingTemplate
    inTemplateArgs := c.inTemplateArgs }

/-- What a parse sees of the state without taking tokens. -/
def withoutTokens (s : State) : State :=
  { s with stream := { Stream.start "" with size := s.stream.size } }

/-- The name is one of a type, where it stands. -/
def isTypeName (s : State) (segments : List String) : Bool :=
  match segments with
  | [name] =>
    if s.templateParams.any (·.contains name) || (s.names.aliases.lookup name).isSome then true
    else match s.names.scopes.classify name with
      | some c => c == .type
      | none => s.store.namesType s.context segments
  | _ => s.store.namesType s.context segments

/-- The last part is the name of a template. -/
def isTemplateName (s : State) (segments : List String) : Bool :=
  segments.getLast?.any s.names.templates.contains

/-- The next use of a name. -/
def useOf (s : State) (raw : String) (place : Position) : NameRef :=
  ⟨s.store.freshRef.1, raw, s.context, place⟩

def withScopes (s : State) (scopes : Scopes) : State :=
  { s with names := { s.names with scopes } }

/-- Makes the name another one of a built-in type. -/
def addAlias (s : State) (name : String) (type : Primitive) : State :=
  let aliases := (name, type) :: s.names.aliases.filter (·.1 != name)
  { s with names := { s.names with aliases } }

/-- Behind a template head, the name is one of a template. -/
def noteTemplate (s : State) (name : String) : State :=
  let templates :=
    if s.pendingTemplate && !s.names.templates.contains name then name :: s.names.templates
    else s.names.templates
  { s with pendingTemplate := false, names := { s.names with templates } }

end State

/-! ## Changes -/

/-- How far the changes of a parse go. -/
inductive Effect where
  /-- Tokens are taken and the uses of names counted. -/
  | look
  /-- Also what is known of names changes. -/
  | name
  /-- Also the program changes. -/
  | declare
deriving Repr, DecidableEq, Inhabited

/-- How much may change. -/
def Effect.rank : Effect → Nat
  | .look => 0
  | .name => 1
  | .declare => 2

instance : LE Effect where
  le e e' := e.rank ≤ e'.rank

instance (e e' : Effect) : Decidable (e ≤ e') :=
  inferInstanceAs (Decidable (e.rank ≤ e'.rank))

/-- The single changes of the state. -/
inductive Change (e : Effect) (s : State) : State → Prop where
  | peek (offset : Nat) : Change e s { s with stream := (s.stream.peekAt offset).2 }
  | advance : Change e s { s with stream := s.stream.advance.2 }
  | split : Change e s { s with stream := s.stream.splitShift }
  | refer : Change e s { s with store := s.store.freshRef.2 }
  | inTemplateArgs (inside : Bool) : Change e s { s with inTemplateArgs := inside }
  | pushScope (h : .name ≤ e) : Change e s (s.withScopes s.names.scopes.push)
  | popScope (h : .name ≤ e) {scopes : Scopes} (hp : s.names.scopes.pop = .ok scopes) :
      Change e s (s.withScopes scopes)
  | declareName (h : .name ≤ e) (name : String) (c : NameClass) {scopes : Scopes}
      (hd : s.names.scopes.declare name c = .ok scopes) : Change e s (s.withScopes scopes)
  | addAlias (h : .name ≤ e) (name : String) (type : Primitive) :
      Change e s (s.addAlias name type)
  | noteTemplate (h : .name ≤ e) (name : String) : Change e s (s.noteTemplate name)
  | pendingTemplate (h : .name ≤ e) (pending : Bool) :
      Change e s { s with pendingTemplate := pending }
  | templateParams (h : .declare ≤ e) (params : List (List String)) :
      Change e s { s with templateParams := params }
  | context (h : .declare ≤ e) (id : DeclId) : Change e s { s with context := id }
  | build (h : .declare ≤ e) {α : Type} (op : Build α) {a : α} {store : Store}
      (hb : op.apply s.store = .ok (a, store)) : Change e s { s with store }

/-- A change is one of any effect that goes further. -/
theorem Change.mono {e e' : Effect} {s t : State} (he : e ≤ e') (h : Change e s t) :
    Change e' s t := by
  cases h with
  | peek offset => exact .peek offset
  | advance => exact .advance
  | split => exact .split
  | refer => exact .refer
  | inTemplateArgs inside => exact .inTemplateArgs inside
  | pushScope h => exact .pushScope (Nat.le_trans h he)
  | popScope h hp => exact .popScope (Nat.le_trans h he) hp
  | declareName h name c hd => exact .declareName (Nat.le_trans h he) name c hd
  | addAlias h name type => exact .addAlias (Nat.le_trans h he) name type
  | noteTemplate h name => exact .noteTemplate (Nat.le_trans h he) name
  | pendingTemplate h pending => exact .pendingTemplate (Nat.le_trans h he) pending
  | templateParams h params => exact .templateParams (Nat.le_trans h he) params
  | context h id => exact .context (Nat.le_trans h he) id
  | build h op hb => exact .build (Nat.le_trans h he) op hb

/-- What changes lead to, going back included. -/
inductive Reaches (e : Effect) : State → State → Prop where
  | refl (s : State) : Reaches e s s
  | step {s t u : State} (before : Reaches e s t) (change : Change e t u) : Reaches e s u
  | rewind {s t u : State} (before : Reaches e s t) (spec : Reaches e t u) :
      Reaches e s (u.restore t.checkpoint)

namespace Reaches

variable {e e' : Effect} {s t u : State}

theorem single (h : Change e s t) : Reaches e s t :=
  .step (.refl s) h

theorem trans (hs : Reaches e s t) (ht : Reaches e t u) : Reaches e s u := by
  induction ht with
  | refl => exact hs
  | step _ change ih => exact .step (ih hs) change
  | rewind _ spec ih _ => exact .rewind (ih hs) spec

theorem mono (he : e ≤ e') (h : Reaches e s t) : Reaches e' s t := by
  induction h with
  | refl s => exact .refl s
  | step _ change ih => exact .step ih (change.mono he)
  | rewind _ _ before spec => exact .rewind before spec

end Reaches

/-! ## Actions and settings -/

/-- A later state stands in the same surroundings. A template head may have got its declaration. -/
structure State.Keeps (s t : State) : Prop where
  context : t.context = s.context
  templateParams : t.templateParams = s.templateParams
  inTemplateArgs : t.inTemplateArgs = s.inTemplateArgs
  pending : t.pendingTemplate = true → s.pendingTemplate = true

namespace State.Keeps

theorem refl (s : State) : s.Keeps s :=
  ⟨rfl, rfl, rfl, id⟩

end State.Keeps

/-- A change that has nothing to do with the tokens. -/
structure Action (e : Effect) (α : Type) where
  apply : State → Except Fault (α × State)
  reaches {s t : State} {a : α} : apply s = .ok (a, t) → Reaches e s t
  keeps {s t : State} {a : α} : apply s = .ok (a, t) → s.Keeps t
  blind (s : State) (stream : Stream) :
    apply { s with stream } = (apply s).map fun (a, t) => (a, { t with stream })

/-- The action where more may change. -/
def Action.lift {e e' : Effect} {α : Type} (he : e ≤ e') (action : Action e α) : Action e' α :=
  { action with reaches := fun h => (action.reaches h).mono he }

/-- An action that never fails. -/
def Action.always {e : Effect} (f : State → State) (change : ∀ s, Change e s (f s))
    (keeps : ∀ s : State, s.Keeps (f s))
    (blind : ∀ (s : State) (stream : Stream), f { s with stream } = { f s with stream }) :
    Action e Unit where
  apply s := .ok ((), f s)
  reaches := by
    rintro s _ _ ⟨⟩
    exact .single (change s)
  keeps := by
    rintro s _ _ ⟨⟩
    exact keeps s
  blind s stream := by rw [blind]; rfl

/-- What is put around a parse, and taken away behind it. -/
structure Setting (e : Effect) where
  enter : State → State
  leave : State → State → State
  reaches_enter (s : State) : Reaches e s (enter s)
  reaches_leave (s t : State) : Reaches e t (leave s t)
  keeps {s t : State} : (enter s).Keeps t → s.Keeps (leave s t)
  enter_blind (s : State) (stream : Stream) : enter { s with stream } = { enter s with stream }
  leave_blind (s t : State) (stream stream' : Stream) :
    leave { s with stream } { t with stream := stream' } = { leave s t with stream := stream' }

/-- The setting where more may change. -/
def Setting.lift {e e' : Effect} (he : e ≤ e') (setting : Setting e) : Setting e' :=
  { setting with
    reaches_enter := fun s => (setting.reaches_enter s).mono he
    reaches_leave := fun s t => (setting.reaches_leave s t).mono he }

end Serpentine.Grammar

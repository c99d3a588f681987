import Serpentine.Program.Lookup
import Serpentine.Proofs.Tree.Relocation

/-!
# Programs with other places

Declarations remember where they stand, and hold trees that do. A program whose places are changed
holds the same declarations otherwise.
-/

namespace Serpentine

variable (f : Position → Position)

/-! ## Faults -/

/-- The fault with a function applied to its place. -/
def Fault.relocate : Fault → Fault
  | .scan file fault => .scan file fault
  | .grammar cause place => .grammar cause (f place)
  | .destructors className place => .destructors className (f place)
  | .unresolved name missing place => .unresolved name missing (f place)
  | .directive cause place => .directive cause (f place)
  | .scope cause place => .scope cause (f place)
  | .unsupported construct place => .unsupported construct (f place)
  | .unknownModule path => .unknownModule path
  | .overflow => .overflow

@[simp]
theorem Fault.relocate_id (fault : Fault) : fault.relocate id = fault := by
  cases fault <;> rfl

/-! ## Enumerations -/

def EnumValue.relocate : EnumValue → EnumValue
  | .int value => .int value
  | .expr e => .expr (e.relocate f)
  | .offset base amount => .offset base amount

def Enumerator.relocate (e : Enumerator) : Enumerator where
  name := e.name
  init := e.init.map (Expr.relocate f)
  value := e.value.relocate f
  place := f e.place
  init_of_value := by
    intro written h
    cases hvalue : e.value with
    | int value | offset base amount =>
      rw [hvalue] at h
      cases h
    | expr kept =>
      rw [hvalue] at h
      cases h
      rw [e.init_of_value kept hvalue, Option.map_some]

def Enumeration.relocate (e : Enumeration) : Enumeration :=
  { e with enumerators := e.enumerators.map (Enumerator.relocate f) }

namespace Enumeration

variable (e : Enumeration)

theorem value?_relocate (name : String) : (e.relocate f).value? name = e.value? name := by
  have hfind : (e.enumerators.map (Enumerator.relocate f)).find? (·.name == name) =
      (e.enumerators.find? (·.name == name)).map (Enumerator.relocate f) := by
    rw [List.find?_map]
    rfl
  unfold value? relocate
  rw [hfind]
  cases e.enumerators.find? (·.name == name) with
  | none => rfl
  | some enumerator =>
    obtain ⟨_, _, value, _, _⟩ := enumerator
    cases value <;> rfl

theorem constant?_relocate : (init : Expr) → (e.relocate f).constant? (init.relocate f) =
    e.constant? init
  | .literal kind _ => by cases kind <;> rfl
  | .name ref | .scoped ref => value?_relocate f e ref.base
  | .parens inner | .cast _ inner => constant?_relocate inner
  | .unary op operand => by
    rw [Expr.relocate, constant?, constant?_relocate operand, constant?]
  | .binary op left right => by
    rw [Expr.relocate, constant?, constant?_relocate left, constant?_relocate right, constant?]
  | .list _ | .primitive _ | .self | .member .. | .conditional .. | .index .. | .call .. | .new ..
  | .assign .. | .step .. | .sizeof _ => rfl

theorem valueFor_relocate (init : Option Expr) :
    (e.relocate f).valueFor (init.map (Expr.relocate f)) = (e.valueFor init).relocate f := by
  cases init with
  | none =>
    rw [Option.map_none, valueFor, valueFor, nextValue, nextValue, relocate, List.getLast?_map]
    cases e.enumerators.getLast? with
    | none => rfl
    | some last =>
      obtain ⟨_, _, value, _, _⟩ := last
      cases value <;> rfl
  | some init =>
    rw [Option.map_some, valueFor, valueFor, constant?_relocate]
    cases e.constant? init <;> rfl

theorem push_relocate (name : String) (init : Option Expr) (place : Position) :
    (e.push name init place).relocate f =
      (e.relocate f).push name (init.map (Expr.relocate f)) (f place) := by
  unfold push
  simp only [relocate, List.map_append, List.map_cons, List.map_nil, Enumeration.mk.injEq, true_and,
    List.append_cancel_left_eq, List.cons.injEq, and_true]
  unfold Enumerator.relocate
  simp only [Enumerator.mk.injEq, true_and, and_true]
  exact (valueFor_relocate f e init).symm

end Enumeration

/-! ## Declarations -/

def ClassType.relocate (c : ClassType) : ClassType :=
  { c with superclass := c.superclass.map (Expr.relocate f) }

def MemberInit.relocate (i : MemberInit) : MemberInit :=
  { i with args := i.args.map (Expr.relocate f), place := f i.place }

def Routine.relocate (r : Routine) : Routine :=
  { r with
    statements := Stmt.relocateElse f r.statements
    initializers := r.initializers.map (MemberInit.relocate f) }

theorem Routine.isSome_statements_relocate (r : Routine) :
    (r.relocate f).statements.isSome = r.statements.isSome := by
  rw [relocate, Stmt.relocateElse_eq_map, Option.isSome_map]

def Entity.relocate : Entity → Entity
  | .namespaceOf m => .namespaceOf m
  | .enumeration e => .enumeration (e.relocate f)
  | .classType c => .classType (c.relocate f)
  | .routine kind r => .routine kind (r.relocate f)
  | .attribute a => .attribute { a with value := a.value.map (Expr.relocate f) }
  | .variableOf v => .variableOf { v with value := v.value.map (Expr.relocate f) }
  | .parameter p => .parameter { p with default := p.default.map (Expr.relocate f) }

def Declaration.relocate (d : Declaration) : Declaration :=
  { d with place := f d.place, entity := d.entity.relocate f }

def ParameterSpec.relocate (p : ParameterSpec) : ParameterSpec :=
  { p with default := p.default.map (Expr.relocate f), place := f p.place }

def RoutineSpec.relocate (spec : RoutineSpec) : RoutineSpec :=
  { spec with params := spec.params.map (ParameterSpec.relocate f) }

@[simp]
theorem Entity.describe_relocate (e : Entity) : (e.relocate f).describe = e.describe := by
  rcases e with _ | _ | _ | ⟨_ | _ | _ | _, _⟩ | _ | _ | _ <;> rfl

@[simp]
theorem Entity.members?_relocate (e : Entity) : (e.relocate f).members? = e.members? := by
  cases e <;> rfl

theorem Entity.setMembers_relocate (members : Members) (e : Entity) :
    (e.setMembers members).relocate f = (e.relocate f).setMembers members := by
  cases e <;> rfl

theorem RoutineSpec.signature_relocate (spec : RoutineSpec) :
    (spec.relocate f).signature = spec.signature := by
  rw [signature, relocate, List.map_map]
  rfl

theorem RoutineSpec.routine_relocate (spec : RoutineSpec) :
    (spec.relocate f).routine = spec.routine.relocate f := by
  unfold routine
  rw [signature_relocate]
  rfl

theorem Entity.exprs_relocate (e : Entity) :
    (e.relocate f).exprs = e.exprs.map (Expr.relocate f) := by
  cases e with
  | namespaceOf => rfl
  | routine kind r =>
    simp only [relocate, exprs, Routine.relocate, List.flatMap_map, List.map_append,
      List.map_flatMap, Stmt.exprsOfElse_relocate, MemberInit.relocate]
  | enumeration e =>
    simp only [relocate, exprs, Enumeration.relocate, List.flatMap_map, List.map_flatMap,
      Enumerator.relocate, Option.toList_map]
  | _ => exact Option.toList_map ..

/-! ## Places that stay -/

section Stay

@[simp]
theorem Enumerator.relocate_id (e : Enumerator) : e.relocate id = e := by
  obtain ⟨name, init, value, place, hinit⟩ := e
  simp only [relocate, Stmt.map_relocate_id, id_eq, Enumerator.mk.injEq, true_and, and_true]
  cases value with
  | expr e => rw [EnumValue.relocate, Expr.relocate_id]
  | _ => rfl

@[simp]
theorem MemberInit.relocate_id (i : MemberInit) : i.relocate id = i := by
  simp [relocate]

@[simp]
theorem Routine.relocate_id (r : Routine) : r.relocate id = r := by
  simp [relocate, show MemberInit.relocate id = id from funext MemberInit.relocate_id]

@[simp]
theorem Entity.relocate_id (e : Entity) : e.relocate id = e := by
  cases e with
  | enumeration e =>
    simp [relocate, Enumeration.relocate,
      show Enumerator.relocate id = id from funext Enumerator.relocate_id]
  | _ => simp [relocate, ClassType.relocate]

@[simp]
theorem Declaration.relocate_id (d : Declaration) : d.relocate id = d := by
  simp [relocate]

@[simp]
theorem ParameterSpec.relocate_id (p : ParameterSpec) : p.relocate id = p := by
  simp [relocate]

end Stay

/-! ## Programs -/

/-- The program is another one with its places changed. -/
def Store.Relocated (s t : Store) : Prop :=
  t.decls = s.decls.map (Declaration.relocate f)

theorem Store.relocated_id (s : Store) : s.Relocated id s := by
  rw [Relocated, show Declaration.relocate id = id from funext Declaration.relocate_id,
    Array.map_id]

namespace Store.Relocated

variable {f} {s t : Store} (h : s.Relocated f t)

include h

theorem getElem? (id : DeclId) : t.decls[id]? = s.decls[id]?.map (Declaration.relocate f) := by
  rw [show t.decls = s.decls.map (Declaration.relocate f) from h, Array.getElem?_map]

theorem size_eq : t.decls.size = s.decls.size := by
  rw [show t.decls = s.decls.map (Declaration.relocate f) from h, Array.size_map]

section

variable (id : DeclId)

theorem entity? : t.entity? id = (s.entity? id).map (Entity.relocate f) := by
  unfold Store.entity?
  rw [h.getElem?, Option.map_map, Option.map_map]
  rfl

theorem name? : t.name? id = s.name? id := by
  unfold Store.name?
  rw [h.getElem?, Option.bind_map]
  rfl

theorem parent? : t.parent? id = s.parent? id := by
  unfold Store.parent?
  rw [h.getElem?, Option.bind_map]
  rfl

theorem owningModule : t.owningModule id = s.owningModule id := by
  unfold Store.owningModule
  rw [h.getElem?, Option.map_map]
  rfl

theorem module? : t.module? id = s.module? id := by
  unfold Store.module?
  rw [h.entity?]
  rcases s.entity? id with _ | _ | _ | _ | _ | _ | _ | _ <;> rfl

theorem class? : t.class? id = (s.class? id).map (ClassType.relocate f) := by
  unfold Store.class?
  rw [h.entity?]
  rcases s.entity? id with _ | _ | _ | _ | _ | _ | _ | _ <;> rfl

theorem routine? : t.routine? id = (s.routine? id).map (Routine.relocate f) := by
  unfold Store.routine?
  rw [h.entity?]
  rcases s.entity? id with _ | _ | _ | _ | _ | _ | _ | _ <;> rfl

theorem modulePath : t.modulePath id = s.modulePath id := by
  unfold Store.modulePath
  rw [h.module?, h.owningModule]

end

end Store.Relocated

end Serpentine

import Serpentine.Script.Stmt
import Serpentine.Tree.Stmt

/-!
# Execution

What statements of the source and of the script do to a store, as far as control flow goes. The
statements without parts are opaque: a meaning gives each of them a change of the store, and its
expressions are functions of the store.

Nothing bounds the rounds of a loop. A run is cut off at a loop that is not done after a number of
rounds.
-/

namespace Serpentine

/-! ## Computations on a store -/

/-- What a computation has come to: the opaque statements that it performed, the store behind them,
and a result unless the computation was cut off. -/
structure Progress (ε σ α : Type) where
  trace : List ε
  store : σ
  result : Option α

/-- Computations on a store that perform opaque statements on their way. -/
def Exec (ε σ α : Type) : Type :=
  σ → Progress ε σ α

namespace Exec

variable {ε σ α β γ : Type}

protected def pure (a : α) : Exec ε σ α :=
  fun s => ⟨[], s, some a⟩

protected def bind (x : Exec ε σ α) (f : α → Exec ε σ β) : Exec ε σ β := fun s =>
  match (x s).result with
  | none => ⟨(x s).trace, (x s).store, none⟩
  | some a => ⟨(x s).trace ++ (f a (x s).store).trace, (f a (x s).store).store,
      (f a (x s).store).result⟩

instance : Monad (Exec ε σ) where
  pure := Exec.pure
  bind := Exec.bind

theorem bind_apply (x : Exec ε σ α) (f : α → Exec ε σ β) (s : σ) :
    (x >>= f) s = match (x s).result with
      | none => ⟨(x s).trace, (x s).store, none⟩
      | some a => ⟨(x s).trace ++ (f a (x s).store).trace, (f a (x s).store).store,
          (f a (x s).store).result⟩ :=
  rfl

theorem pure_apply (a : α) (s : σ) : (pure a : Exec ε σ α) s = ⟨[], s, some a⟩ :=
  rfl

instance : LawfulMonad (Exec ε σ) := by
  refine LawfulMonad.mk' _ ?_ ?_ ?_
  · intro α x
    funext s
    show Exec.bind x (fun a => Exec.pure a) s = x s
    rcases h : x s with ⟨trace, store, _ | a⟩ <;> simp [Exec.bind, Exec.pure, h]
  · intro α β a f
    funext s
    simp [bind_apply, pure_apply]
  · intro α β γ x f g
    funext s
    rcases h : x s with ⟨trace, store, _ | a⟩
    · simp [bind_apply, h]
    · rcases h' : f a store with ⟨trace', store', _ | b⟩ <;> simp [bind_apply, h, h']

def look (f : σ → α) : Exec ε σ α :=
  fun s => ⟨[], s, some (f s)⟩

/-- Changes the store by an opaque statement. -/
def perform (label : ε) (f : σ → σ) : Exec ε σ Unit :=
  fun s => ⟨[label], f s, some ()⟩

/-- Changes the store unseen. -/
def update (f : σ → σ) : Exec ε σ Unit :=
  fun s => ⟨[], f s, some ()⟩

/-- Goes no further. -/
def cut : Exec ε σ α :=
  fun s => ⟨[], s, none⟩

theorem bind_apply_congr {x y : Exec ε σ α} {s : σ} (h : x s = y s) (f : α → Exec ε σ β) :
    (x >>= f) s = (y >>= f) s := by
  rw [bind_apply, bind_apply, h]

theorem look_bind_apply (f : σ → α) (g : α → Exec ε σ β) (s : σ) :
    (look f >>= g) s = g (f s) s := by
  simp [bind_apply, look]

end Exec

/-! ## Control flow -/

/-- How the run of a statement ends. -/
inductive Ending (V : Type) where
  /-- The next statement is reached. -/
  | next
  | broke
  | continued
  | returned (value : Option V)
  | thrown (value : Option V)
deriving Repr, DecidableEq

namespace Exec

variable {ε σ V : Type}

/-- Goes on behind a statement whose end is reached. -/
def andThen (first second : Exec ε σ (Ending V)) : Exec ε σ (Ending V) := do
  match ← first with
  | .next => second
  | ending => return ending

/-- Goes on behind the body of a loop, which a `continue` leaves as well. -/
def thenAlways (body last : Exec ε σ (Ending V)) : Exec ε σ (Ending V) := do
  match ← body with
  | .next | .continued => last
  | ending => return ending

/-- A part of a program that a `break` leads behind. -/
def breakable (body : Exec ε σ (Ending V)) : Exec ε σ (Ending V) := do
  match ← body with
  | .broke => return .next
  | ending => return ending

/-- At most so many rounds of a loop that only a jump leaves. -/
def rounds : Nat → Exec ε σ (Ending V) → Exec ε σ (Ending V)
  | 0, _ => cut
  | n + 1, round => do
    match ← round with
    | .next | .continued => rounds n round
    | .broke => return .next
    | ending => return ending

/-- One round of a loop for each value. -/
def forEach : List V → (V → Exec ε σ (Ending V)) → Exec ε σ (Ending V)
  | [], _ => return .next
  | v :: rest, round => do
    match ← round v with
    | .next | .continued => forEach rest round
    | .broke => return .next
    | ending => return ending

end Exec

/-! ## Laws of control flow -/

namespace Exec

variable {ε σ V : Type} {x y z : Exec ε σ (Ending V)}

@[simp]
theorem next_andThen : (return .next : Exec ε σ (Ending V)).andThen x = x := by
  simp [andThen]

@[simp]
theorem andThen_next : x.andThen (return .next) = x := by
  have hcases : (fun e : Ending V => match e with
      | .next => (return .next : Exec ε σ (Ending V))
      | ending => return ending) = pure := by
    funext e
    cases e <;> rfl
  unfold andThen
  rw [hcases, bind_pure]

theorem andThen_assoc : (x.andThen y).andThen z = x.andThen (y.andThen z) := by
  unfold andThen
  rw [bind_assoc]
  congr 1
  funext ending
  cases ending <;> simp

/-- The computation never ends in a way. -/
def Avoids (x : Exec ε σ (Ending V)) (ending : Ending V) : Prop :=
  ∀ s, (x s).result ≠ some ending

variable {ending : Ending V}

theorem Avoids.bind_congr (hx : x.Avoids ending) {f g : Ending V → Exec ε σ (Ending V)}
    (h : ∀ e, e ≠ ending → f e = g e) : x >>= f = x >>= g := by
  funext s
  rw [bind_apply, bind_apply]
  cases hr : (x s).result with
  | none => rfl
  | some e =>
    have he : e ≠ ending := by
      rintro rfl
      exact hx s hr
    simp only [h e he]

theorem avoids_bind {α : Type} {x : Exec ε σ α} {f : α → Exec ε σ (Ending V)}
    (h : ∀ a, (f a).Avoids ending) : (x >>= f).Avoids ending := by
  intro s hs
  rw [bind_apply] at hs
  split at hs
  · cases hs
  · exact h _ _ hs

theorem Avoids.bind {e ending : Ending V} {f : Ending V → Exec ε σ (Ending V)}
    (hx : x.Avoids e) (h : ∀ e', e' ≠ e → (f e').Avoids ending) : (x >>= f).Avoids ending := by
  intro s hs
  rw [bind_apply] at hs
  split at hs
  · cases hs
  · next e' he' =>
    refine h e' ?_ _ hs
    rintro rfl
    exact hx s he'

theorem avoids_pure {e ending : Ending V} (h : e ≠ ending) :
    (pure e : Exec ε σ (Ending V)).Avoids ending := by
  intro s hs
  exact h (Option.some.inj hs)

theorem avoids_map {α : Type} {x : Exec ε σ α} {f : α → Ending V} (h : ∀ a, f a ≠ ending) :
    (f <$> x).Avoids ending := by
  rw [← bind_pure_comp]
  exact avoids_bind fun a => avoids_pure (h a)

theorem Avoids.andThen (hx : ending ≠ .next → x.Avoids ending) (hy : y.Avoids ending) :
    (x.andThen y).Avoids ending := by
  intro s hs
  rw [Exec.andThen, bind_apply] at hs
  split at hs
  · cases hs
  · next e he =>
    cases e with
    | next => exact hy _ hs
    | _ =>
      cases hs
      exact hx (by rintro ⟨⟩) s he

theorem Avoids.andThen_eq (hx : x.Avoids .next) : x.andThen y = x := by
  calc x.andThen y = x.andThen (return .next) := hx.bind_congr fun e he => by
        cases e with
        | next => exact absurd rfl he
        | _ => rfl
    _ = x := andThen_next

theorem avoids_breakable : (breakable x).Avoids .broke := by
  refine avoids_bind fun e => ?_
  cases e <;> exact avoids_pure (by rintro ⟨⟩)

theorem Avoids.breakable_andThen (hx : x.Avoids .broke) :
    Exec.breakable (x.andThen y) = x.andThen (Exec.breakable y) := by
  unfold Exec.breakable Exec.andThen
  rw [bind_assoc]
  refine hx.bind_congr fun e he => ?_
  cases e with
  | broke => exact absurd rfl he
  | _ => simp

/-- A jump that leads to another round or out of a loop does not leave the loop. -/
theorem avoids_rounds (h : ending = .broke ∨ ending = .continued) (n : Nat) :
    (rounds n x).Avoids ending := by
  induction n with
  | zero =>
    intro s hs
    cases hs
  | succ n ih =>
    refine avoids_bind fun e => ?_
    cases e with
    | next => exact ih
    | continued => exact ih
    | _ => exact avoids_pure (by rcases h with rfl | rfl <;> rintro ⟨⟩)

theorem avoids_forEach (h : ending = .broke ∨ ending = .continued) (round : V → Exec ε σ (Ending V))
    (vs : List V) : (forEach vs round).Avoids ending := by
  induction vs with
  | nil => exact avoids_pure (by rcases h with rfl | rfl <;> rintro ⟨⟩)
  | cons v rest ih =>
    refine avoids_bind fun e => ?_
    cases e with
    | next => exact ih
    | continued => exact ih
    | _ => exact avoids_pure (by rcases h with rfl | rfl <;> rintro ⟨⟩)

/-- What the end of a round means to its loop. -/
def settled : Ending V → Ending V
  | .continued => .next
  | ending => ending

theorem settled_andThen_continued : settled <$> x.andThen (return .continued) = settled <$> x := by
  unfold andThen
  rw [map_bind, ← bind_pure_comp]
  congr 1
  funext e
  cases e <;> rfl

/-- A loop does not tell a `continue` from the end of its body. -/
theorem rounds_congr (h : settled <$> x = settled <$> y) (n : Nat) : rounds n x = rounds n y := by
  have hrounds (x : Exec ε σ (Ending V)) (n : Nat) :
      rounds (n + 1) x = (settled <$> x) >>= fun e => match e with
        | .next | .continued => rounds n x
        | .broke => return .next
        | ending => return ending := by
    rw [bind_map_left, rounds]
    congr 1
    funext e
    cases e <;> rfl
  induction n with
  | zero => rfl
  | succ n ih => rw [hrounds, hrounds, h, ih]

end Exec

/-! ## Meanings -/

/-- What the opaque parts of programs mean. -/
structure Meaning (stmt expr ε σ V : Type) where
  /-- What is seen of a statement when it is performed. -/
  label : stmt → ε
  act : stmt → σ → σ
  holds : expr → σ → Bool
  value : expr → σ → V
  /-- The values that a loop runs over. -/
  items : expr → σ → List V
  /-- Gives a loop variable its value. -/
  assign : String → V → σ → σ

namespace Meaning

variable {stmt expr ε σ V : Type} (m : Meaning stmt expr ε σ V)

def perform (s : stmt) : Exec ε σ (Ending V) := do
  Exec.perform (m.label s) (m.act s)
  return .next

def performAll : List stmt → Exec ε σ (Ending V)
  | [] => return .next
  | s :: rest => (m.perform s).andThen (performAll rest)

/-- A choice between two parts of a program. -/
def ifHolds (condition : expr) (yes no : Exec ε σ (Ending V)) : Exec ε σ (Ending V) := do
  if ← Exec.look (m.holds condition) then yes else no

/-- A choice by a condition that holds if there is none. -/
def ifHolds? (condition : Option expr) (yes no : Exec ε σ (Ending V)) : Exec ε σ (Ending V) :=
  match condition with
  | none => yes
  | some e => m.ifHolds e yes no

def value? (e : Option expr) : Exec ε σ (Option V) :=
  Exec.look fun s => e.map (m.value · s)

def loopOver (name : String) (e : expr) (body : Exec ε σ (Ending V)) : Exec ε σ (Ending V) := do
  Exec.forEach (← Exec.look (m.items e)) fun v => do
    Exec.update (m.assign name v)
    body

theorem ifHolds_apply (condition : expr) (yes no : Exec ε σ (Ending V)) (s : σ) :
    m.ifHolds condition yes no s = if m.holds condition s then yes s else no s := by
  rw [ifHolds, Exec.look_bind_apply]
  split <;> rfl

theorem ifHolds_bind (condition : expr) (yes no : Exec ε σ (Ending V))
    (f : Ending V → Exec ε σ (Ending V)) :
    m.ifHolds condition yes no >>= f = m.ifHolds condition (yes >>= f) (no >>= f) := by
  unfold ifHolds
  rw [bind_assoc]
  congr 1
  funext b
  split <;> rfl

theorem map_ifHolds? (f : Ending V → Ending V) (condition : Option expr)
    (yes no : Exec ε σ (Ending V)) :
    f <$> m.ifHolds? condition yes no = m.ifHolds? condition (f <$> yes) (f <$> no) := by
  cases condition with
  | none => rfl
  | some e =>
    unfold ifHolds?
    rw [← bind_pure_comp, ← bind_pure_comp, ← bind_pure_comp]
    exact m.ifHolds_bind e yes no _

end Meaning

/-! ## Statements of the source -/

/-- The groups from the one on that a switch jumps to: that of a label that matches, or else that of
the default. -/
def entered {α : Type} (labels : α → List Expr) (isDefault : α → Bool) (matches? : Expr → Bool)
    (groups : List α) : List α :=
  if groups.any fun g => (labels g).any matches? then
    groups.dropWhile fun g => !(labels g).any matches?
  else groups.dropWhile (!isDefault ·)

/-- A group of a switch with the execution of its statements. -/
structure Group (ε σ V : Type) where
  labels : List Expr
  isDefault : Bool
  run : Exec ε σ (Ending V)

/-- The statements of groups, one group behind the other. -/
def Group.runAll {ε σ V : Type} : List (Group ε σ V) → Exec ε σ (Ending V)
  | [] => return .next
  | g :: rest => g.run.andThen (Group.runAll rest)

namespace Stmt

open Exec

variable {ε σ V : Type} [DecidableEq V] (m : Meaning Stmt Expr ε σ V) (n : Nat)

mutual

def exec : Stmt → Exec ε σ (Ending V)
  | .ret value => .returned <$> m.value? value
  | .ifElse condition ifTrue ifFalse =>
    m.ifHolds condition (execAll ifTrue) (execElse ifFalse)
  | .block body => execAll body
  | .declare name value => m.perform (.declare name value)
  | .expr e => m.perform (.expr e)
  | .whileLoop condition body =>
    rounds n (m.ifHolds condition (execAll body) (return .broke))
  | .doWhile body condition =>
    rounds n ((execAll body).thenAlways (m.ifHolds condition (return .next) (return .broke)))
  | .forLoop init condition update body =>
    let round := (execAll body).thenAlways (m.performAll (update.map .expr))
    (execAll init).andThen (rounds n (m.ifHolds? condition round (return .broke)))
  | .forEach name items body => m.loopOver name items (execAll body)
  | .switch subject cases => do
    let groups := execCases cases
    let reached ← look fun s =>
      entered Group.labels Group.isDefault
        (fun label => m.value label s = m.value subject s) groups
    breakable (Group.runAll reached)
  | .breakStmt => return .broke
  | .continueStmt => return .continued
  | .throw value => .thrown <$> m.value? value
  | .delete target => m.perform (.delete target)

/-- The execution of statements, one behind the other. -/
def execAll : List Stmt → Exec ε σ (Ending V)
  | [] => return .next
  | s :: rest => s.exec.andThen (execAll rest)

def execElse : Option (List Stmt) → Exec ε σ (Ending V)
  | none => return .next
  | some body => execAll body

def execCases : List (Case Stmt) → List (Group ε σ V)
  | [] => []
  | case :: rest => execCase case :: execCases rest

def execCase : Case Stmt → Group ε σ V
  | ⟨labels, isDefault, body, _⟩ => ⟨labels, isDefault, execAll body⟩

end

theorem execAll_cons (s : Stmt) (rest : List Stmt) :
    execAll m n (s :: rest) = (exec m n s).andThen (execAll m n rest) :=
  rfl

theorem execAll_singleton (s : Stmt) : execAll m n [s] = exec m n s :=
  andThen_next

theorem execCases_eq_map (cases : List (Case Stmt)) :
    execCases m n cases = cases.map fun c => ⟨c.labels, c.isDefault, execAll m n c.body⟩ := by
  induction cases with
  | nil => rfl
  | cons c rest ih =>
    obtain ⟨labels, isDefault, body, place⟩ := c
    rw [execCases, execCase, ih, List.map_cons]

theorem exec_switch_apply (subject : Expr) (cases : List (Case Stmt)) (s : σ) :
    exec m n (.switch subject cases) s = breakable (Group.runAll (execCases m n
      (entered Case.labels Case.isDefault
        (fun label => m.value label s = m.value subject s) cases))) s := by
  rw [exec, look_bind_apply]
  unfold entered
  rw [execCases_eq_map, List.any_map, List.dropWhile_map, List.dropWhile_map,
    apply_ite (execCases m n), execCases_eq_map, execCases_eq_map]
  rfl

end Stmt

/-! ## Statements of the script -/

namespace Script.Stmt

open Exec

variable {ε σ V : Type} (m : Meaning Stmt Term ε σ V) (n : Nat)

mutual

def exec : Stmt → Exec ε σ (Ending V)
  | .eval e => m.perform (.eval e)
  | .assign targets value => m.perform (.assign targets value)
  | .augment target op value => m.perform (.augment target op value)
  | .del target => m.perform (.del target)
  | .ret value => .returned <$> m.value? value
  | .raise value => .thrown <$> m.value? value
  | .breakStmt => return .broke
  | .continueStmt => return .continued
  | .global _ => return .next
  | .whileLoop test body => rounds n (m.ifHolds test (execAll body) (return .broke))
  | .forLoop name items body => m.loopOver name items (execAll body)
  | .ifElse test body branches otherwise =>
    m.ifHolds test (execAll body) (execBranches branches (execElse otherwise))

/-- The execution of statements, one behind the other. -/
def execAll : List Stmt → Exec ε σ (Ending V)
  | [] => return .next
  | s :: rest => s.exec.andThen (execAll rest)

/-- The execution of further branches, and of what is behind them. -/
def execBranches : List (Term × List Stmt) → Exec ε σ (Ending V) → Exec ε σ (Ending V)
  | [], otherwise => otherwise
  | branch :: rest, otherwise => execBranch branch (execBranches rest otherwise)

/-- The execution of a further branch, or of what is behind it. -/
def execBranch : Term × List Stmt → Exec ε σ (Ending V) → Exec ε σ (Ending V)
  | (test, body), otherwise => m.ifHolds test (execAll body) otherwise

def execElse : Option (List Stmt) → Exec ε σ (Ending V)
  | none => return .next
  | some body => execAll body

end

theorem execAll_cons (s : Stmt) (rest : List Stmt) :
    execAll m n (s :: rest) = (exec m n s).andThen (execAll m n rest) :=
  rfl

theorem execAll_singleton (s : Stmt) : execAll m n [s] = exec m n s :=
  andThen_next

theorem execAll_append (as bs : List Stmt) :
    execAll m n (as ++ bs) = (execAll m n as).andThen (execAll m n bs) := by
  induction as with
  | nil => exact next_andThen.symm
  | cons a rest ih => rw [List.cons_append, execAll_cons, execAll_cons, ih, andThen_assoc]

end Script.Stmt

end Serpentine

import Serpentine.Lowering.Module
import Serpentine.Proofs.Grammar.Statements
import Serpentine.Proofs.Lowering.Execution
import Serpentine.Proofs.Lowering.Relocation

/-!
# Lowered control flow

The statements that a body is lowered to run as the body does.
-/

namespace Serpentine.Lowering

open Script (Term)
open Stmt (Every EveryIn EveryInElse EveryInCases EveryInCase Grouped)

/-! ## Results without warnings -/

section Quiet

variable {α β : Type}

theorem bind_eq_pure_iff {x : Lower α} {f : α → Lower β} {b : β} :
    x >>= f = pure b ↔ ∃ a, x = pure a ∧ f a = pure b := by
  obtain ⟨warnings, result⟩ := x
  show Lower.bind _ f = ⟨[], .ok b⟩ ↔ ∃ a, _ = (⟨[], .ok a⟩ : Lower α) ∧ f a = ⟨[], .ok b⟩
  cases result with
  | error fault => simp [Lower.bind]
  | ok a =>
    rcases hf : f a with ⟨later, last⟩
    simp only [Lower.bind, hf, Lower.mk.injEq, List.append_eq_nil_iff, Except.ok.injEq]
    constructor
    · rintro ⟨⟨rfl, rfl⟩, rfl⟩
      exact ⟨a, ⟨rfl, rfl⟩, hf⟩
    · rintro ⟨_, ⟨rfl, rfl⟩, h⟩
      rw [hf] at h
      cases h
      exact ⟨⟨rfl, rfl⟩, rfl⟩

theorem lift_eq_pure_iff {r : Except Fault α} {a : α} : lift r = pure a ↔ r = .ok a := by
  show (⟨[], r⟩ : Lower α) = ⟨[], .ok a⟩ ↔ _
  simp

theorem forM_warn_eq_pure_iff {places : List Position} {text : String} :
    (places.forM fun place => warn place text) = pure () ↔ places = [] := by
  cases places with
  | nil => simp
  | cons place rest =>
    show warn place text >>= _ = pure () ↔ _
    rw [bind_eq_pure_iff]
    simp only [reduceCtorEq, iff_false, not_exists, not_and]
    intro a ha
    cases ha

end Quiet

/-! ## Meanings of both sides -/

/-- A meaning of the script that knows the operators which lowering adds. -/
structure Knows {ε σ V : Type} [DecidableEq V] (script : Meaning Script.Stmt Term ε σ V) :
    Prop where
  holds_true : ∀ s, script.holds (.atom "True") s = true
  holds_not : ∀ t s, script.holds (.unary .not t) s = !script.holds t s
  holds_or : ∀ a b s, script.holds (.binary .or a b) s = (script.holds a s || script.holds b s)
  holds_eq : ∀ a b s, script.holds (.binary .eq a b) s = decide (script.value a s = script.value b s)

/-- A meaning of the script fits a meaning of the source. -/
structure Agrees {ε σ V : Type} [DecidableEq V] (env : Env) (source : Meaning Stmt Expr ε σ V)
    (script : Meaning Script.Stmt Term ε σ V) : Prop extends Knows script where
  expr : ∀ {e t}, env.exprStmt e = .ok t → script.perform t = source.perform (.expr e)
  declare : ∀ {name value t}, env.assignment name value = .ok t →
    script.perform t = source.perform (.declare name value)
  delete : ∀ {e t}, env.deletion e = .ok t → script.perform t = source.perform (.delete e)
  holds : ∀ {e t}, env.term e = .ok t → script.holds t = source.holds e
  value : ∀ {e t}, env.term e = .ok t → script.value t = source.value e
  items : ∀ {e t}, env.term e = .ok t → script.items t = source.items e
  assign : ∀ name, script.assign (Script.identifier name) = source.assign name

/-- The statement of the script for a statement without parts. -/
def Env.simple? (env : Env) : Stmt → Option Script.Stmt
  | .expr e => (env.exprStmt e).toOption
  | .declare name value => (env.assignment name value).toOption
  | .delete target => (env.deletion target).toOption
  | _ => none

/-- The meaning that parts of the source have when they are lowered. -/
def Env.meaning {ε σ V : Type} (env : Env) (script : Meaning Script.Stmt Term ε σ V) :
    Meaning Stmt Expr ε σ V where
  label s := script.label ((env.simple? s).getD default)
  act s := script.act ((env.simple? s).getD default)
  holds e := script.holds ((env.term e).toOption.getD default)
  value e := script.value ((env.term e).toOption.getD default)
  items e := script.items ((env.term e).toOption.getD default)
  assign name := script.assign (Script.identifier name)

/-- Each meaning of the script that knows the operators agrees with a meaning of the source. -/
theorem agrees_meaning {ε σ V : Type} [DecidableEq V] {script : Meaning Script.Stmt Term ε σ V}
    (env : Env) (h : Knows script) : Agrees env (env.meaning script) script where
  toKnows := h
  expr ht := by simp [Meaning.perform, Env.meaning, Env.simple?, ht, Except.toOption]
  declare ht := by simp [Meaning.perform, Env.meaning, Env.simple?, ht, Except.toOption]
  delete ht := by simp [Meaning.perform, Env.meaning, Env.simple?, ht, Except.toOption]
  holds ht := by simp [Env.meaning, ht, Except.toOption]
  value ht := by simp [Env.meaning, ht, Except.toOption]
  items ht := by simp [Env.meaning, ht, Except.toOption]
  assign name := rfl

section Runs

variable {ε σ V : Type} {source : Meaning Stmt Expr ε σ V}

/-! ## What comes before a `continue` -/

section Resume

variable (source)

def roundEnd : Frame → Exec ε σ (Ending V)
  | .forLoop update => source.performAll (update.map .expr)
  | .doWhile condition => source.ifHolds condition (return .next) (return .broke)
  | .loop | .switch => return .next

/-- What lowered statements do in the place of a `continue`. -/
def onContinue (frames : List Frame) : Exec ε σ (Ending V) :=
  match frames.find? (!·.isSwitch) with
  | some frame => (roundEnd source frame).andThen (return .continued)
  | none => return .continued

/-- What the lowered statements do where the source has a `continue`. -/
def resume (frames : List Frame) : Ending V → Exec ε σ (Ending V)
  | .continued => onContinue source frames
  | ending => return ending

end Resume

variable {frames : List Frame} {x y : Exec ε σ (Ending V)}

theorem resume_switch : resume source (.switch :: frames) = resume source frames := by
  rfl

theorem resume_loop : resume source (.loop :: frames) = pure := by
  funext ending
  cases ending with
  | continued => exact Exec.next_andThen
  | _ => rfl

theorem avoids_onContinue : (onContinue source frames).Avoids .next := by
  unfold onContinue
  split
  · exact Exec.Avoids.andThen (fun h => absurd rfl h) (Exec.avoids_pure (by rintro ⟨⟩))
  · exact Exec.avoids_pure (by rintro ⟨⟩)

theorem avoids_bind_resume (h : x.Avoids .next) : (x >>= resume source frames).Avoids .next := by
  refine h.bind fun e he => ?_
  cases e with
  | continued => exact avoids_onContinue
  | _ => exact Exec.avoids_pure he

theorem bind_resume_of_avoids (h : x.Avoids .continued) : x >>= resume source frames = x := by
  calc x >>= resume source frames = x >>= pure := h.bind_congr fun e he => by
        cases e with
        | continued => exact absurd rfl he
        | _ => rfl
    _ = x := bind_pure x

theorem andThen_bind_resume :
    x.andThen y >>= resume source frames =
      (x >>= resume source frames).andThen (y >>= resume source frames) := by
  unfold Exec.andThen
  rw [bind_assoc, bind_assoc]
  congr 1
  funext e
  cases e with
  | continued =>
    have havoids : (onContinue source frames).Avoids .next := avoids_onContinue
    exact havoids.andThen_eq.symm
  | _ => simp [resume]

/-- A round of a loop ends in the same way with its end behind the body and before each
`continue`. -/
theorem settled_round {frame : Frame} (hframe : frame.isSwitch = false) :
    Exec.settled <$> (x >>= resume source (frame :: frames)).andThen (roundEnd source frame) =
      Exec.settled <$> x.thenAlways (roundEnd source frame) := by
  have hcontinue : onContinue source (frame :: frames) =
      (roundEnd source frame).andThen (return .continued) := by
    unfold onContinue
    rw [List.find?_cons_of_pos (by simp [hframe])]
  have havoids : (onContinue source (frame :: frames)).Avoids .next := avoids_onContinue
  unfold Exec.thenAlways
  rw [Exec.andThen, bind_assoc, map_bind, map_bind]
  congr 1
  funext e
  cases e with
  | next => simp [resume]
  | continued =>
    calc Exec.settled <$> (onContinue source (frame :: frames)).andThen (roundEnd source frame)
        = Exec.settled <$> (roundEnd source frame).andThen (return .continued) := by
          rw [havoids.andThen_eq, hcontinue]
      _ = Exec.settled <$> roundEnd source frame := Exec.settled_andThen_continued
  | _ => simp [resume]

/-! ## Parts of statements -/

variable {env : Env} {script : Meaning Script.Stmt Term ε σ V} {n : Nat}

variable (source script n frames) in
/-- Lowered statements run as those of the source, which have no `break` of their own inside a
switch. -/
structure Runs (ts : List Script.Stmt) (x : Exec ε σ (Ending V)) : Prop where
  same : Script.Stmt.execAll script n ts = x >>= resume source frames
  unbroken : frames.head?.any Frame.isSwitch = true → x.Avoids .broke

variable {ts : List Script.Stmt}

/-- No `break` and no `continue` is left to the loops around. -/
theorem Runs.of_avoids
    (hx : ∀ e, e = .broke ∨ e = .continued → x.Avoids e)
    (h : Script.Stmt.execAll script n ts = x) : Runs source frames script n ts x :=
  ⟨h.trans (bind_resume_of_avoids (hx _ (.inr rfl))).symm, fun _ => hx _ (.inl rfl)⟩

theorem runs_nil : Runs source frames script n [] (return .next) :=
  ⟨(pure_bind _ _).symm, fun _ => Exec.avoids_pure (by rintro ⟨⟩)⟩

theorem runs_jump {value : Option V → Ending V} {x : Exec ε σ (Option V)}
    (hvalue : ∀ v, value v ≠ .broke ∧ value v ≠ .continued)
    (h : Script.Stmt.execAll script n ts = value <$> x) :
    Runs source frames script n ts (value <$> x) := by
  refine .of_avoids (fun _ he => Exec.avoids_map fun v => ?_) h
  rcases he with rfl | rfl
  · exact (hvalue v).1
  · exact (hvalue v).2

variable {t : Script.Stmt}

theorem exec_exprStmt {e : Expr} (h : env.exprStmt e = .ok t) :
    t.exec script n = script.perform t := by
  fun_induction Env.exprStmt env e generalizing t with
  | case1 inner ih => exact ih h
  | case2 target value =>
    obtain ⟨_, -, h⟩ := eq_ok_of_bind h
    cases h
    rfl
  | case3 op target value =>
    obtain ⟨_, -, h⟩ := eq_ok_of_bind h
    obtain ⟨_, -, h⟩ := eq_ok_of_bind h
    cases h
    rfl
  | case4 increment returnsOld target =>
    obtain ⟨_, -, h⟩ := eq_ok_of_bind h
    cases h
    rfl
  | case5 =>
    obtain ⟨_, -, h⟩ := eq_ok_of_bind h
    cases h
    rfl

theorem runs_line {s : Stmt} {x : Except Fault Script.Stmt}
    (hexec : ∀ t, x = .ok t → t.exec script n = source.perform s)
    (h : (do return [← lift x] : Lower (List Script.Stmt)) = pure ts) :
    Runs source frames script n ts (source.perform s) := by
  obtain ⟨t, ht, h⟩ := bind_eq_pure_iff.mp h
  cases h
  refine .of_avoids (fun _ he => Exec.avoids_bind fun _ => Exec.avoids_pure ?_) ?_
  · rcases he with rfl | rfl <;> rintro ⟨⟩
  · rw [Script.Stmt.execAll_singleton, hexec t (lift_eq_pure_iff.mp ht)]

theorem execAll_switchChain (branches : List (Term × List Script.Stmt))
    (otherwise : Option (List Script.Stmt)) :
    Script.Stmt.execAll script n (switchChain branches otherwise) =
      Script.Stmt.execBranches script n branches (Script.Stmt.execElse script n otherwise) := by
  cases branches with
  | nil =>
    cases otherwise <;> rfl
  | cons branch rest =>
    obtain ⟨test, body⟩ := branch
    exact Script.Stmt.execAll_singleton script n _

theorem execAll_globalLines (body : List Stmt) :
    Script.Stmt.execAll script n (env.globalLines body) = return .next := by
  unfold Env.globalLines
  split
  · rfl
  · exact Script.Stmt.execAll_singleton script n _

theorem exists_block_of_elseBranches {body : Option (List Stmt)}
    {branches : List (Term × List Script.Stmt)} {otherwise : Option (List Script.Stmt)}
    (h : elseBranches env frames body = pure (branches, otherwise)) :
    ∃ ts, block env frames (body.getD []) = pure ts ∧
      ∀ {ε σ V : Type} (script : Meaning Script.Stmt Term ε σ V) (n : Nat),
        Script.Stmt.execAll script n ts =
          Script.Stmt.execBranches script n branches (Script.Stmt.execElse script n otherwise) := by
  unfold elseBranches at h
  split at h
  · cases h
    exact ⟨[], rfl, fun _ _ => rfl⟩
  · cases h
    exact ⟨[], rfl, fun _ _ => rfl⟩
  · next condition ifTrue ifFalse =>
    obtain ⟨test, htest, h⟩ := bind_eq_pure_iff.mp h
    obtain ⟨stmts, hstmts, h⟩ := bind_eq_pure_iff.mp h
    obtain ⟨others, hothers, h⟩ := bind_eq_pure_iff.mp h
    cases h
    refine ⟨[.ifElse test stmts others.1 others.2], ?_, fun script n =>
      Script.Stmt.execAll_singleton script n _⟩
    refine bind_eq_pure_iff.mpr ⟨[.ifElse test stmts others.1 others.2], ?_, rfl⟩
    refine bind_eq_pure_iff.mpr ⟨test, htest, ?_⟩
    exact bind_eq_pure_iff.mpr ⟨stmts, hstmts, bind_eq_pure_iff.mpr ⟨others, hothers, rfl⟩⟩
  · obtain ⟨ts, hts, h⟩ := bind_eq_pure_iff.mp h
    cases h
    exact ⟨ts, hts, fun _ _ => rfl⟩

variable [DecidableEq V]

section Leaves

variable (agree : Agrees env source script)
include agree

theorem ifHolds_eq {condition : Expr} {t : Term} (h : env.term condition = .ok t) :
    script.ifHolds t = source.ifHolds condition := by
  unfold Meaning.ifHolds
  rw [agree.holds h]

theorem ifHolds_true (yes no : Exec ε σ (Ending V)) :
    script.ifHolds (.atom "True") yes no = yes := by
  funext s
  rw [Meaning.ifHolds_apply, agree.holds_true, if_pos rfl]

theorem loopOver_eq {items : Expr} {t : Term} (h : env.term items = .ok t) (name : String)
    (body : Exec ε σ (Ending V)) :
    script.loopOver (Script.identifier name) t body = source.loopOver name items body := by
  unfold Meaning.loopOver
  rw [agree.items h, agree.assign]

theorem value?_eq {value : Expr} {t : Term} (h : env.term value = .ok t) :
    script.value? (some t) = source.value? (some value) := by
  unfold Meaning.value?
  simp only [Option.map_some, agree.value h]

theorem exec_expr {e : Expr} (h : env.exprStmt e = .ok t) :
    t.exec script n = source.perform (.expr e) :=
  (exec_exprStmt h).trans (agree.expr h)

theorem exec_declare {name : String} {value : Option Expr}
    (h : env.assignment name value = .ok t) :
    t.exec script n = source.perform (.declare name value) := by
  obtain ⟨_, -, ht⟩ := eq_ok_of_bind h
  cases ht
  exact agree.declare h

theorem exec_delete {target : Expr} (h : env.deletion target = .ok t) :
    t.exec script n = source.perform (.delete target) := by
  rw [← agree.delete h]
  unfold Env.deletion at h
  -- what is not deleted is an expression
  have hcases (deletable : Bool) (h : (if deletable then return .del (← env.term target)
      else env.exprStmt target : Except Fault Script.Stmt) = .ok t) :
      t.exec script n = script.perform t := by
    cases deletable with
    | true =>
      obtain ⟨_, -, h⟩ := eq_ok_of_bind h
      cases h
      rfl
    | false => exact exec_exprStmt h
  exact hcases _ h

theorem exec_exprStmts {exprs : List Expr}
    (h : env.exprStmts exprs = .ok ts) :
    Script.Stmt.execAll script n ts = source.performAll (exprs.map .expr) := by
  unfold Env.exprStmts at h
  induction exprs generalizing ts with
  | nil =>
    cases h
    rfl
  | cons e rest ih =>
    rw [List.mapM_cons] at h
    obtain ⟨t, ht, h⟩ := eq_ok_of_bind h
    obtain ⟨ts', hts, h⟩ := eq_ok_of_bind h
    cases h
    rw [Script.Stmt.execAll_cons, exec_expr agree ht, ih hts]
    rfl

theorem exec_loopExit {condition : Expr} (h : env.loopExit condition = .ok t) :
    t.exec script n = roundEnd source (.doWhile condition) := by
  obtain ⟨test, htest, h⟩ := eq_ok_of_bind h
  cases h
  funext s
  show script.ifHolds (.unary .not test) (Script.Stmt.execAll script n [.breakStmt])
    (return .next) s = source.ifHolds condition (return .next) (return .broke) s
  rw [Meaning.ifHolds_apply, Meaning.ifHolds_apply, agree.holds_not, agree.holds htest,
    Script.Stmt.execAll_singleton]
  cases source.holds condition s <;> rfl

theorem ifHolds_loopTest {condition : Option Expr} {test : Term}
    (h : env.loopTest condition = .ok test) (yes no : Exec ε σ (Ending V)) :
    script.ifHolds test yes no = source.ifHolds? condition yes no := by
  cases condition with
  | none =>
    cases h
    exact ifHolds_true agree yes no
  | some e =>
    rw [ifHolds_eq agree h]
    rfl

theorem exec_beforeContinue (h : env.beforeContinue frames = .ok ts) :
    Script.Stmt.execAll script n (ts ++ [.continueStmt]) = onContinue source frames := by
  rw [Script.Stmt.execAll_append, Script.Stmt.execAll_singleton]
  unfold Env.beforeContinue at h
  unfold onContinue
  cases hframe : frames.find? (!·.isSwitch) with
  | none =>
    rw [hframe] at h
    cases h
    exact Exec.next_andThen
  | some frame =>
    rw [hframe] at h
    show _ = (roundEnd source frame).andThen (return .continued)
    congr 1
    cases frame with
    | forLoop update => exact exec_exprStmts agree h
    | doWhile condition =>
      obtain ⟨t, ht, h⟩ := eq_ok_of_bind h
      cases h
      rw [Script.Stmt.execAll_singleton, exec_loopExit agree ht]
    | loop =>
      cases h
      rfl
    | switch =>
      cases h
      rfl

end Leaves

/-- The end of a body that ends in a jump is not reached. -/
theorem avoids_of_endsInJump {body : List Stmt} (h : endsInJump body = true) :
    (Stmt.execAll source n body).Avoids .next := by
  induction body with
  | nil => cases h
  | cons s rest ih =>
    cases rest with
    | nil =>
      have hjump : s.isJump = true := by simpa [endsInJump] using h
      rw [Stmt.execAll_singleton]
      cases s with
      | breakStmt | continueStmt => exact Exec.avoids_pure (by rintro ⟨⟩)
      | ret | throw => exact Exec.avoids_map (by rintro _ ⟨⟩)
      | _ => cases hjump
    | cons s' rest' =>
      refine Exec.Avoids.andThen (fun hne => absurd rfl hne) (ih ?_)
      simpa [endsInJump] using h

theorem settled_loopUpdates (agree : Agrees env source script) {body : List Stmt}
    {update : List Expr} {stmts updates : List Script.Stmt}
    (hbody : Script.Stmt.execAll script n stmts =
      Stmt.execAll source n body >>= resume source (.forLoop update :: frames))
    (h : env.loopUpdates body update = .ok updates) :
    Exec.settled <$> Script.Stmt.execAll script n (stmts ++ updates) =
      Exec.settled <$> (Stmt.execAll source n body).thenAlways
        (source.performAll (update.map .expr)) := by
  rw [Script.Stmt.execAll_append, hbody]
  unfold Env.loopUpdates at h
  split at h
  · next hjump =>
    cases h
    have havoids : (Stmt.execAll source n body >>=
        resume source (.forLoop update :: frames)).Avoids .next :=
      avoids_bind_resume (avoids_of_endsInJump hjump)
    rw [havoids.andThen_eq, ← havoids.andThen_eq]
    exact settled_round rfl
  · rw [exec_exprStmts agree h]
    exact settled_round rfl

/-! ## The group that a switch selects -/

section Switch

variable (source)

/-- A label of the group has the value of the subject. -/
def isMatch (subject : Expr) (s : σ) (c : Case Stmt) : Bool :=
  c.labels.any fun label => source.value label s = source.value subject s

/-- The group that has a label with the value of the subject, or else the default. -/
def selected? (subject : Expr) (cases : List (Case Stmt)) (s : σ) : Option (Case Stmt) :=
  if cases.any (isMatch source subject s) then cases.find? (isMatch source subject s)
  else cases.find? (·.isDefault)

/-- The statements of a group, which a `break` leads behind. -/
def runGroup (n : Nat) : Option (Case Stmt) → Exec ε σ (Ending V)
  | some c => Exec.breakable (Stmt.execAll source n c.body)
  | none => return .next

end Switch

/-- No group but the last one runs on into the next. -/
structure NoFallThrough (cases : List (Case Stmt)) : Prop where
  quiet : fallThroughs cases = []
  filled : ∀ c ∈ cases.dropLast, c.body ≠ []

theorem NoFallThrough.endsInJump {c d : Case Stmt} {rest : List (Case Stmt)}
    (h : NoFallThrough (c :: d :: rest)) :
    endsInJump c.body = true ∧ NoFallThrough (d :: rest) := by
  obtain ⟨hplaces, hfilled⟩ := h
  rw [List.dropLast_cons_cons, List.forall_mem_cons] at hfilled
  have hnonempty : c.body.isEmpty = false := by
    rw [← Bool.not_eq_true, List.isEmpty_iff]
    exact hfilled.1
  rw [fallThroughs, hnonempty, Bool.false_or] at hplaces
  split at hplaces
  · next hjump => exact ⟨hjump, hplaces, hfilled.2⟩
  · cases hplaces

theorem NoFallThrough.tail {c : Case Stmt} {rest : List (Case Stmt)}
    (h : NoFallThrough (c :: rest)) : NoFallThrough rest := by
  cases rest with
  | nil => exact ⟨rfl, by simp⟩
  | cons d rest => exact h.endsInJump.2

/-- Behind the groups that a switch skips only one group runs. -/
theorem breakable_runAll {cases : List (Case Stmt)} (h : NoFallThrough cases)
    (p : Case Stmt → Bool) :
    Exec.breakable (Group.runAll (Stmt.execCases source n (cases.dropWhile (!p ·)))) =
      runGroup source n (cases.find? p) := by
  induction cases with
  | nil => exact pure_bind _ _
  | cons c rest ih =>
    cases hp : p c with
    | false =>
      rw [List.dropWhile_cons_of_pos (by simp [hp]), List.find?_cons_of_neg (by simp [hp])]
      exact ih h.tail
    | true =>
      rw [List.dropWhile_cons_of_neg (by simp [hp]), List.find?_cons_of_pos hp]
      have hlast : (Stmt.execAll source n c.body).andThen
          (Group.runAll (Stmt.execCases source n rest)) = Stmt.execAll source n c.body := by
        cases rest with
        | nil => exact Exec.andThen_next
        | cons d rest => exact (avoids_of_endsInJump h.endsInJump.1).andThen_eq
      rw [Stmt.execCases_eq_map, List.map_cons, ← Stmt.execCases_eq_map, Group.runAll, hlast]
      rfl

theorem exec_switch {subject : Expr} {cases : List (Case Stmt)} (h : NoFallThrough cases) (s : σ) :
    (Stmt.switch subject cases).exec source n s =
      runGroup source n (selected? source subject cases s) s := by
  rw [Stmt.exec_switch_apply]
  unfold selected? entered
  show Exec.breakable (Group.runAll (Stmt.execCases source n
    (if cases.any (isMatch source subject s) then cases.dropWhile (!isMatch source subject s ·)
    else cases.dropWhile (!Case.isDefault ·)))) s = _
  split
  · rw [breakable_runAll h]
  · rw [breakable_runAll h]

/-- With distinct labels the groups with labels only can be tested first. -/
theorem find?_groups {cases : List (Case Stmt)} {p d : Case Stmt → Bool}
    (hp : cases.Pairwise fun a b => ¬(p a ∧ p b)) (hd : cases.Pairwise fun a b => ¬(d a ∧ d b)) :
    (if cases.any p then cases.find? p else cases.find? d) =
      (cases.find? fun c => !d c && p c).or (cases.find? d) := by
  induction cases with
  | nil => rfl
  | cons c rest ih =>
    rw [List.pairwise_cons] at hp hd
    have hrest := ih hp.2 hd.2
    cases hpc : p c with
    | false =>
      cases hdc : d c with
      | false => simpa [hpc, hdc] using hrest
      | true =>
        -- no other group is a default
        have hnone : rest.find? d = none := by
          rw [List.find?_eq_none]
          intro e he hde
          exact hd.1 e he ⟨hdc, hde⟩
        rw [hnone, Option.or_none] at hrest
        by_cases hany : rest.any p
        · rw [if_pos hany] at hrest
          have hsome : (rest.find? p).isSome := by simpa using hany
          rw [hrest] at hsome
          obtain ⟨e, he⟩ := Option.isSome_iff_exists.mp hsome
          simp [hpc, hdc, hany, hrest, he]
        · rw [if_neg hany] at hrest
          simp [hpc, hdc, hany, ← hrest]
    | true =>
      cases hdc : d c with
      | false => simp [hpc, hdc]
      | true =>
        -- no other group matches
        have hnone : (rest.find? fun e => !d e && p e) = none := by
          rw [List.find?_eq_none]
          intro e he hpe
          rw [Bool.and_eq_true] at hpe
          exact hp.1 e he ⟨hpc, hpe.2⟩
        simp [hpc, hdc, hnone]

/-! ## Switches of the script -/

theorem holds_caseTest (agree : Agrees env source script) {subject : Expr} {t : Term}
    (ht : env.term subject = .ok t) {labels : List Expr} {test : Term}
    (h : env.caseTest t labels = .ok test) (hne : labels ≠ []) (s : σ) :
    script.holds test s =
      labels.any fun label => source.value label s = source.value subject s := by
  replace h := eq_ok_of_bind h
  obtain ⟨tests, htests, h⟩ := h
  have hall : tests.any (script.holds · s) =
      labels.any fun label => source.value label s = source.value subject s := by
    clear h hne
    induction labels generalizing tests with
    | nil =>
      cases htests
      rfl
    | cons label rest ih =>
      rw [List.mapM_cons] at htests
      obtain ⟨first, hfirst, htests⟩ := eq_ok_of_bind htests
      obtain ⟨others, hothers, htests⟩ := eq_ok_of_bind htests
      obtain ⟨l, hl, hfirst⟩ := eq_ok_of_bind hfirst
      cases hfirst
      cases htests
      rw [List.any_cons, List.any_cons, ih _ hothers, agree.holds_eq, agree.value ht,
        agree.value hl]
      simp only [eq_comm]
  cases tests with
  | nil =>
    cases labels with
    | nil => exact absurd rfl hne
    | cons label rest =>
      rw [List.mapM_cons] at htests
      obtain ⟨first, -, htests⟩ := eq_ok_of_bind htests
      obtain ⟨others, -, htests⟩ := eq_ok_of_bind htests
      cases htests
  | cons first rest =>
    have hfold : ∀ first, script.holds (rest.foldl (Term.binary .or) first) s =
        (script.holds first s || rest.any (script.holds · s)) := by
      clear htests hall h
      induction rest with
      | nil => simp
      | cons second rest ih =>
        intro first
        rw [List.foldl_cons, ih, agree.holds_or, List.any_cons, Bool.or_assoc]
    cases h
    rw [← hall]
    exact hfold first

/-! ## Plain statements -/

/-- A loop that does not count, a switch with distinct labels, or any other statement. -/
def Plain (env : Env) (source : Meaning Stmt Expr ε σ V) : Stmt → Prop
  | .forLoop init condition update body => env.counting? init condition update body = none
  | .switch _ cases =>
    (cases.flatMap (·.labels)).Pairwise (fun a b => ∀ s, source.value a s ≠ source.value b s) ∧
      cases.Pairwise fun c d => ¬(c.isDefault ∧ d.isDefault)
  | _ => True

theorem selected?_eq {subject : Expr} {cases : List (Case Stmt)}
    (h : Plain env source (.switch subject cases)) (s : σ) :
    selected? source subject cases s =
      (cases.find? fun c => !c.isDefault && isMatch source subject s c).or
        (cases.find? (·.isDefault)) := by
  refine find?_groups ?_ h.2
  have hlabels := (List.pairwise_flatMap.mp h.1).2
  refine hlabels.imp fun {c d} hcd hboth => ?_
  obtain ⟨a, ha, hav⟩ := List.any_eq_true.mp hboth.1
  obtain ⟨b, hb, hbv⟩ := List.any_eq_true.mp hboth.2
  exact hcd a ha b hb s ((of_decide_eq_true hav).trans (of_decide_eq_true hbv).symm)

/-- A plain statement that was read. -/
abbrev Regular (env : Env) (source : Meaning Stmt Expr ε σ V) (s : Stmt) : Prop :=
  Grouped s ∧ Plain env source s

/-! ## Statements -/

mutual

theorem exec_stmt (agree : Agrees env source script) (frames : List Frame) :
    ∀ (s : Stmt) {ts : List Script.Stmt}, s.Every (Regular env source) →
      stmt env frames s = pure ts → Runs source frames script n ts (s.exec source n)
  | .ret none, ts, _, h | .throw none, ts, _, h => by
    cases h
    exact runs_jump (fun _ => ⟨by rintro ⟨⟩, by rintro ⟨⟩⟩) (Script.Stmt.execAll_singleton ..)
  | .ret (some value), ts, _, h | .throw (some value), ts, _, h => by
    obtain ⟨t, ht, h⟩ := bind_eq_pure_iff.mp h
    cases h
    refine runs_jump (fun _ => ⟨by rintro ⟨⟩, by rintro ⟨⟩⟩) ?_
    rw [Script.Stmt.execAll_singleton, Script.Stmt.exec, value?_eq agree (lift_eq_pure_iff.mp ht)]
  | .declare .., ts, _, h => runs_line (fun _ => exec_declare agree) h
  | .expr _, ts, _, h => runs_line (fun _ => exec_expr agree) h
  | .delete _, ts, _, h => runs_line (fun _ => exec_delete agree) h
  | .ifElse condition ifTrue ifFalse, ts, hs, h => by
    obtain ⟨test, htest, h⟩ := bind_eq_pure_iff.mp h
    obtain ⟨stmts, hstmts, h⟩ := bind_eq_pure_iff.mp h
    obtain ⟨others, hothers, h⟩ := bind_eq_pure_iff.mp h
    cases h
    obtain ⟨ts', hts', helse⟩ := exists_block_of_elseBranches hothers
    have hTrue := exec_block agree frames ifTrue hs.2.1 hstmts
    have hFalse := exec_else agree frames ifFalse hs.2.2 hts'
    refine ⟨?_, fun hframes => Exec.avoids_bind fun holds => ?_⟩
    · rw [Script.Stmt.execAll_singleton, Script.Stmt.exec, ← helse, hTrue.same, hFalse.same,
        Stmt.exec, Meaning.ifHolds_bind, ifHolds_eq agree (lift_eq_pure_iff.mp htest)]
    · cases holds with
      | true => exact hTrue.unbroken hframes
      | false => exact hFalse.unbroken hframes
  | .block body, ts, hs, h => exec_block agree frames body hs.2 h
  | .whileLoop condition body, ts, hs, h => by
    obtain ⟨test, htest, h⟩ := bind_eq_pure_iff.mp h
    obtain ⟨stmts, hstmts, h⟩ := bind_eq_pure_iff.mp h
    cases h
    have hbody := (exec_block agree (.loop :: frames) body hs.2 hstmts).same
    rw [resume_loop, bind_pure] at hbody
    refine .of_avoids (fun _ he => Exec.avoids_rounds he n) ?_
    rw [Script.Stmt.execAll_singleton, Script.Stmt.exec, hbody,
      ifHolds_eq agree (lift_eq_pure_iff.mp htest), Stmt.exec]
  | .doWhile body condition, ts, hs, h => by
    obtain ⟨stmts, hstmts, h⟩ := bind_eq_pure_iff.mp h
    obtain ⟨exit, hexit, h⟩ := bind_eq_pure_iff.mp h
    cases h
    have hbody := exec_block agree (.doWhile condition :: frames) body hs.2 hstmts
    refine .of_avoids (fun _ he => Exec.avoids_rounds he n) ?_
    rw [Script.Stmt.execAll_singleton, Script.Stmt.exec, ifHolds_true agree,
      Script.Stmt.execAll_append, Script.Stmt.execAll_singleton,
      exec_loopExit agree (lift_eq_pure_iff.mp hexit), hbody.same]
    exact Exec.rounds_congr (settled_round rfl) n
  | .forLoop init condition update body, ts, hs, h => by
    have hcounting : env.counting? init condition update body = none := hs.1.2
    rw [stmt, hcounting] at h
    obtain ⟨first, hfirst, h⟩ := bind_eq_pure_iff.mp h
    obtain ⟨test, htest, h⟩ := bind_eq_pure_iff.mp h
    obtain ⟨stmts, hstmts, h⟩ := bind_eq_pure_iff.mp h
    obtain ⟨updates, hupdates, h⟩ := bind_eq_pure_iff.mp h
    cases h
    have hinit := exec_block agree frames init hs.2.1 hfirst
    have hbody := exec_block agree (.forLoop update :: frames) body hs.2.2 hstmts
    have hround := settled_loopUpdates agree hbody.same (lift_eq_pure_iff.mp hupdates)
    refine ⟨?_, fun hframes => Exec.Avoids.andThen (fun _ => hinit.unbroken hframes)
      (Exec.avoids_rounds (.inl rfl) n)⟩
    rw [Script.Stmt.execAll_append, hinit.same, Script.Stmt.execAll_singleton, Script.Stmt.exec,
      ifHolds_loopTest agree (lift_eq_pure_iff.mp htest), Stmt.exec, andThen_bind_resume,
      bind_resume_of_avoids (Exec.avoids_rounds (.inr rfl) n)]
    congr 1
    refine Exec.rounds_congr ?_ n
    rw [Meaning.map_ifHolds?, Meaning.map_ifHolds?, hround]
  | .forEach name items body, ts, hs, h => by
    obtain ⟨t, ht, h⟩ := bind_eq_pure_iff.mp h
    obtain ⟨stmts, hstmts, h⟩ := bind_eq_pure_iff.mp h
    cases h
    have hbody := (exec_block agree (.loop :: frames) body hs.2 hstmts).same
    rw [resume_loop, bind_pure] at hbody
    refine .of_avoids (fun _ he => Exec.avoids_bind fun _ => Exec.avoids_forEach he _ _) ?_
    rw [Script.Stmt.execAll_singleton, Script.Stmt.exec, hbody, loopOver_eq agree
      (lift_eq_pure_iff.mp ht), Stmt.exec]
  | .switch subject cases, ts, hs, h => by
    obtain ⟨t, ht, h⟩ := bind_eq_pure_iff.mp h
    obtain ⟨_, hquiet, h⟩ := bind_eq_pure_iff.mp h
    obtain ⟨branches, hbranches, h⟩ := bind_eq_pure_iff.mp h
    obtain ⟨otherwise, hotherwise, h⟩ := bind_eq_pure_iff.mp h
    cases h
    have hfall : NoFallThrough cases := ⟨forM_warn_eq_pure_iff.mp hquiet, hs.1.1.2⟩
    have hdefault := exec_defaultBranch agree frames cases hs.1.2.2 hs.2 hotherwise
    refine ⟨funext fun s => ?_, fun _ => Exec.avoids_bind fun _ => Exec.avoids_breakable⟩
    have hcases := exec_caseBranches agree frames (lift_eq_pure_iff.mp ht)
      (Script.Stmt.execElse script n otherwise) s cases hs.1.1.1 hs.2 hbranches
    rw [execAll_switchChain, hcases, Exec.bind_apply_congr (exec_switch hfall s),
      selected?_eq hs.1.2, hdefault]
    cases cases.find? fun c => !c.isDefault && isMatch source subject s c <;> rfl
  | .breakStmt, ts, _, h => by
    rw [stmt] at h
    split at h
    · rw [lift_eq_pure_iff] at h
      cases h
    · next hframes =>
      cases h
      refine ⟨?_, fun h => absurd h hframes⟩
      rw [Script.Stmt.execAll_singleton]
      exact (pure_bind _ _).symm
  | .continueStmt, ts, _, h => by
    obtain ⟨before, hbefore, h⟩ := bind_eq_pure_iff.mp h
    cases h
    refine ⟨?_, fun _ => Exec.avoids_pure (by rintro ⟨⟩)⟩
    rw [exec_beforeContinue agree (lift_eq_pure_iff.mp hbefore)]
    exact (pure_bind _ _).symm

theorem exec_block (agree : Agrees env source script) (frames : List Frame) :
    ∀ (body : List Stmt) {ts : List Script.Stmt}, EveryIn (Regular env source) body →
      block env frames body = pure ts →
      Runs source frames script n ts (Stmt.execAll source n body)
  | [], ts, _, h => by
    cases h
    exact runs_nil
  | s :: rest, ts, hs, h => by
    obtain ⟨first, hfirst, h⟩ := bind_eq_pure_iff.mp h
    obtain ⟨others, hothers, h⟩ := bind_eq_pure_iff.mp h
    cases h
    have hstmt := exec_stmt agree frames s hs.1 hfirst
    have hrest := exec_block agree frames rest hs.2 hothers
    refine ⟨?_, fun hframes => Exec.Avoids.andThen (fun _ => hstmt.unbroken hframes)
      (hrest.unbroken hframes)⟩
    rw [Script.Stmt.execAll_append, hstmt.same, hrest.same, Stmt.execAll_cons, andThen_bind_resume]

theorem exec_else (agree : Agrees env source script) (frames : List Frame) :
    ∀ (body : Option (List Stmt)) {ts : List Script.Stmt}, EveryInElse (Regular env source) body →
      block env frames (body.getD []) = pure ts →
      Runs source frames script n ts (Stmt.execElse source n body)
  | none, ts, _, h => by
    cases h
    exact runs_nil
  | some body, ts, hs, h => exec_block agree frames body hs h

theorem exec_caseBody (agree : Agrees env source script) (frames : List Frame) :
    ∀ (body : List Stmt) {ts : List Script.Stmt}, EveryIn (Regular env source) body →
      caseBody env frames body = pure ts →
      Script.Stmt.execAll script n ts =
        Exec.breakable (Stmt.execAll source n body) >>= resume source frames
  | [], ts, _, h => by
    cases h
    rfl
  | s :: rest, ts, hs, h => by
    rw [caseBody.eq_def] at h
    split at h
    · next heq => cases heq
    · next heq =>
      cases heq
      cases h
      rfl
    · next s' rest' hno heq =>
      cases heq
      obtain ⟨first, hfirst, h⟩ := bind_eq_pure_iff.mp h
      obtain ⟨others, hothers, h⟩ := bind_eq_pure_iff.mp h
      cases h
      have hstmt := exec_stmt agree (.switch :: frames) s hs.1 hfirst
      rw [Script.Stmt.execAll_append, hstmt.same, exec_caseBody agree frames rest hs.2 hothers,
        Stmt.execAll_cons, (hstmt.unbroken rfl).breakable_andThen, andThen_bind_resume,
        resume_switch]

theorem exec_caseBranches (agree : Agrees env source script) (frames : List Frame) {subject : Expr}
    {t : Term} (ht : env.term subject = .ok t) (otherwise : Exec ε σ (Ending V)) (s : σ) :
    ∀ (cases : List (Case Stmt)) {branches : List (Term × List Script.Stmt)},
      (∀ c ∈ cases, c.labels ≠ [] ∨ c.isDefault) → EveryInCases (Regular env source) cases →
      caseBranches env frames t cases = pure branches →
      Script.Stmt.execBranches script n branches otherwise s =
        match cases.find? fun c => !c.isDefault && isMatch source subject s c with
        | some c => (runGroup source n (some c) >>= resume source frames) s
        | none => otherwise s
  | [], branches, _, _, h => by
    cases h
    rfl
  | ⟨labels, isDefault, body, place⟩ :: rest, branches, hlabels, hs, h => by
    rw [List.forall_mem_cons] at hlabels
    cases isDefault with
    | true =>
      rw [List.find?_cons_of_neg (by simp)]
      exact exec_caseBranches agree frames ht otherwise s rest hlabels.2 hs.2 h
    | false =>
      obtain ⟨test, htest, h⟩ := bind_eq_pure_iff.mp h
      obtain ⟨stmts, hstmts, h⟩ := bind_eq_pure_iff.mp h
      obtain ⟨others, hothers, h⟩ := bind_eq_pure_iff.mp h
      cases h
      have hne : labels ≠ [] := by simpa using hlabels.1
      have hbody := exec_caseBody agree frames body hs.1 hstmts
      have hrest := exec_caseBranches agree frames ht otherwise s rest hlabels.2 hs.2 hothers
      have htests := holds_caseTest agree ht (lift_eq_pure_iff.mp htest) hne s
      rw [Script.Stmt.execBranches, Script.Stmt.execBranch, Meaning.ifHolds_apply, htests, hbody,
        hrest]
      by_cases hmatch : isMatch source subject s ⟨labels, false, body, place⟩ = true
      · rw [List.find?_cons_of_pos (by simpa using hmatch)]
        exact if_pos hmatch
      · rw [List.find?_cons_of_neg (by simpa using hmatch)]
        exact if_neg hmatch

theorem exec_defaultBranch (agree : Agrees env source script) (frames : List Frame) :
    ∀ (cases : List (Case Stmt)) {otherwise : Option (List Script.Stmt)},
      (cases.Pairwise fun c d => ¬(c.isDefault ∧ d.isDefault)) →
      EveryInCases (Regular env source) cases → defaultBranch env frames cases = pure otherwise →
      Script.Stmt.execElse script n otherwise =
        runGroup source n (cases.find? (·.isDefault)) >>= resume source frames
  | [], otherwise, _, _, h => by
    cases h
    exact (pure_bind _ _).symm
  | ⟨labels, isDefault, body, place⟩ :: rest, otherwise, hdefault, hs, h => by
    rw [List.pairwise_cons] at hdefault
    rw [defaultBranch] at h
    by_cases hlater : rest.any (·.isDefault) = true
    · rw [if_pos hlater] at h
      have hfirst : isDefault = false := by
        obtain ⟨d, hd, hdefaultd⟩ := List.any_eq_true.mp hlater
        rw [← Bool.not_eq_true]
        exact fun hfirst => hdefault.1 d hd ⟨hfirst, hdefaultd⟩
      rw [List.find?_cons_of_neg (by simp [hfirst])]
      exact exec_defaultBranch agree frames rest hdefault.2 hs.2 h
    · rw [if_neg hlater] at h
      cases isDefault with
      | true =>
        obtain ⟨stmts, hstmts, h⟩ := bind_eq_pure_iff.mp h
        cases h
        exact exec_caseBody agree frames body hs.1 hstmts
      | false =>
        cases h
        have hnone : rest.find? (·.isDefault) = none := by
          rw [List.find?_eq_none]
          exact fun d hd hdefaultd => hlater (List.any_eq_true.mpr ⟨d, hd, hdefaultd⟩)
        rw [List.find?_cons_of_neg (by simp), hnone]
        exact (pure_bind _ _).symm

end

/-! ## Bodies -/

/-- **Faithful control flow.** A body that was read, in which no loop counts and the labels of each
switch are distinct, is lowered without a warning to statements that run as it does: for all
meanings of its parts, and from every store, they perform the same statements in the same order and
end in the same way at the same store, or none of them ends within so many rounds of each loop. -/
theorem exec_bodyLines {depth : Nat} {start after : Grammar.State} {body : List Stmt}
    (hread : (Grammar.blockItems (.within depth)).run start = .ok body after)
    (hplain : EveryIn (Plain env source) body) {lines : List Script.Stmt}
    (hlines : Scene.bodyLines env body = ⟨[], .ok lines⟩) (agree : Agrees env source script)
    (n : Nat) (s : σ) : Script.Stmt.execAll script n lines s = Stmt.execAll source n body s := by
  have hgrouped : EveryIn Grouped body :=
    Grammar.gives_blockItems (Grammar.gives_statement_within depth) start body after hread
  have hregular : EveryIn (Regular env source) body := Stmt.everyIn_iff_inner.2 fun s hs =>
    ⟨Stmt.everyIn_iff_inner.1 hgrouped s hs, Stmt.everyIn_iff_inner.1 hplain s hs⟩
  obtain ⟨stmts, hstmts, hlines⟩ := bind_eq_pure_iff.mp hlines
  cases hlines
  have hnone : resume source [] = (pure : Ending V → Exec ε σ (Ending V)) := by
    funext ending
    cases ending <;> rfl
  rw [Script.Stmt.execAll_append, execAll_globalLines, Exec.next_andThen,
    (exec_block agree [] body hregular hstmts).same, hnone, bind_pure]

end Runs

/-! ## An instance -/

/-- The truth of a term over stores that tell whether the number of statements performed is even. -/
def parityTruth : Term → Bool → Bool
  | .unary .not t, even => !parityTruth t even
  | .binary .or a b, even => parityTruth a even || parityTruth b even
  | .binary .eq a b, _ => a.text = b.text
  | .atom text, even => text = "True" || even
  | _, even => !even

/-- A meaning over stores that tell whether the number of statements performed is even. -/
def parity : Meaning Script.Stmt Term String Bool String where
  label := Script.Stmt.lineText
  act _ even := !even
  holds := parityTruth
  value t _ := t.text
  items _ _ := []
  assign _ _ even := even

theorem knows_parity : Knows parity where
  holds_true _ := rfl
  holds_not _ _ := rfl
  holds_or _ _ _ := rfl
  holds_eq _ _ _ := rfl

/-- No names are bound. -/
def unbound : Env :=
  ⟨[], ⟨"t.cpp", 1, some 1⟩⟩

instance : DecidablePred (Plain unbound (unbound.meaning parity))
  | .forLoop init condition update body =>
    inferInstanceAs (Decidable (unbound.counting? init condition update body = none))
  | .switch _ cases => inferInstanceAs (Decidable
      ((cases.flatMap (·.labels)).Pairwise (fun a b =>
        ∀ s, (unbound.meaning parity).value a s ≠ (unbound.meaning parity).value b s) ∧
      cases.Pairwise fun c d => ¬(c.isDefault ∧ d.isDefault)))
  | .ret _ | .ifElse .. | .block _ | .declare .. | .expr _ | .whileLoop .. | .doWhile ..
  | .forEach .. | .breakStmt | .continueStmt | .throw _ | .delete _ => isTrue trivial

/-- A loop with a `continue` in a switch, and a loop in the default. -/
@[irreducible]
def nestedContinue : Grammar.Outcome (List Stmt) :=
  (Grammar.blockItems (.within 16)).run <| .start "t.cpp"
    ("for (; p; f()) \x7b switch (g) \x7b case 1: if (q) continue; a(); break; " ++
      "case 2: default: do \x7b if (r) continue; \x7d while (d); \x7d \x7d \x7d")
    .empty (.empty "main")

theorem exec_bodyLines_nestedContinue :
    ∃ body after lines, nestedContinue = .ok body after ∧
      EveryIn (Plain unbound (unbound.meaning parity)) body ∧
      Scene.bodyLines unbound body = ⟨[], .ok lines⟩ ∧
      ∀ n s, Script.Stmt.execAll parity n lines s =
        Stmt.execAll (unbound.meaning parity) n body s := by
  have hchecked : (match nestedContinue with
      | .ok body _ => decide (EveryIn (Plain unbound (unbound.meaning parity)) body) &&
          (Scene.bodyLines unbound body).warnings.isEmpty &&
          (Scene.bodyLines unbound body).result.isOk
      | .error .. => false) = true := by decide +kernel
  cases hread : nestedContinue with
  | error fault after =>
    rw [hread] at hchecked
    cases hchecked
  | ok body after =>
    rw [hread, Bool.and_eq_true, Bool.and_eq_true, decide_eq_true_iff, List.isEmpty_iff] at hchecked
    obtain ⟨⟨hplain, hquiet⟩, hlowered⟩ := hchecked
    rcases hlines : Scene.bodyLines unbound body with ⟨warnings, fault | lines⟩
    · rw [hlines] at hlowered
      cases hlowered
    · rw [hlines] at hquiet
      cases hquiet
      unfold nestedContinue at hread
      exact ⟨body, after, lines, rfl, hplain, hlines, fun n s =>
        exec_bodyLines hread hplain hlines (agrees_meaning unbound knows_parity) n s⟩

end Serpentine.Lowering

import Serpentine.Grammar.Unit
import Serpentine.Proofs.Tree.Children

/-!
# Statements that are read

What the parse of a body makes sure of in all statements that it gives.
-/

namespace Serpentine

variable {cases : List (Case Stmt)}

namespace Stmt

mutual

def Every (P : Stmt → Prop) : Stmt → Prop
  | .ifElse condition ifTrue ifFalse =>
    P (.ifElse condition ifTrue ifFalse) ∧ EveryIn P ifTrue ∧ EveryInElse P ifFalse
  | .block body => P (.block body) ∧ EveryIn P body
  | .whileLoop condition body => P (.whileLoop condition body) ∧ EveryIn P body
  | .doWhile body condition => P (.doWhile body condition) ∧ EveryIn P body
  | .forLoop init condition update body =>
    P (.forLoop init condition update body) ∧ EveryIn P init ∧ EveryIn P body
  | .forEach name items body => P (.forEach name items body) ∧ EveryIn P body
  | .switch subject cases => P (.switch subject cases) ∧ EveryInCases P cases
  | s => P s

/-- All statements of a list have a property, with the statements inside them. -/
def EveryIn (P : Stmt → Prop) : List Stmt → Prop
  | [] => True
  | s :: rest => s.Every P ∧ EveryIn P rest

/-- All statements of an `else` branch have a property. -/
def EveryInElse (P : Stmt → Prop) : Option (List Stmt) → Prop
  | none => True
  | some body => EveryIn P body

/-- All statements in the groups of a switch have a property. -/
def EveryInCases (P : Stmt → Prop) : List (Case Stmt) → Prop
  | [] => True
  | case :: rest => EveryInCase P case ∧ EveryInCases P rest

/-- All statements in a group of a switch have a property. -/
def EveryInCase (P : Stmt → Prop) : Case Stmt → Prop
  | ⟨_, _, body, _⟩ => EveryIn P body

end

variable {P : Stmt → Prop}

theorem everyIn_iff {stmts : List Stmt} : EveryIn P stmts ↔ ∀ s ∈ stmts, s.Every P := by
  induction stmts with
  | nil => simp [EveryIn]
  | cons s rest ih => simp [EveryIn, ih]

theorem everyInCases_iff : EveryInCases P cases ↔ ∀ c ∈ cases, EveryIn P c.body := by
  induction cases with
  | nil => simp [EveryInCases]
  | cons case rest ih =>
    obtain ⟨labels, isDefault, body, place⟩ := case
    rw [EveryInCases, EveryInCase, ih, List.forall_mem_cons]

theorem every_iff_children {s : Stmt} : s.Every P ↔ P s ∧ ∀ c ∈ s.children, c.Every P := by
  cases s with
  | ifElse condition ifTrue ifFalse =>
    cases ifFalse <;> simp [Every, children, EveryInElse, everyIn_iff, or_imp, forall_and]
  | switch subject cases =>
    simp only [Every, children, everyInCases_iff, everyIn_iff, List.forall_mem_flatMap]
  | _ => simp [Every, children, everyIn_iff, or_imp, forall_and]

theorem every_iff {s : Stmt} : s.Every P ↔ ∀ u ∈ s.inner, P u := by
  induction s using induct with
  | step s ih =>
    rw [every_iff_children, inner_eq, List.forall_mem_cons, List.forall_mem_flatMap]
    exact and_congr_right fun _ => forall₂_congr ih

theorem everyIn_iff_inner {body : List Stmt} : EveryIn P body ↔ ∀ u ∈ innerOfBlock body, P u := by
  rw [everyIn_iff, innerOfBlock_eq, List.forall_mem_flatMap]
  exact forall₂_congr fun _ _ => every_iff

instance [DecidablePred P] (body : List Stmt) : Decidable (EveryIn P body) :=
  decidable_of_iff' _ everyIn_iff_inner

def Grouped : Stmt → Prop
  | .switch _ cases =>
    (∀ c ∈ cases, c.labels ≠ [] ∨ c.isDefault) ∧ ∀ c ∈ cases.dropLast, c.body ≠ []
  | _ => True

end Stmt

namespace Grammar

open Stmt

/-! ## Results of parses -/

variable {e : Effect} {α β : Type}

theorem Parse.eq_of_run {p q : Parse e α} (h : ∀ s, p.run s = q.run s)
    (huses : ∀ s, p.uses s = q.uses s) : p = q := by
  obtain ⟨run, uses, composed⟩ := p
  obtain ⟨run', uses', composed'⟩ := q
  obtain rfl : run = run' := funext h
  obtain rfl : uses = uses' := funext huses
  rfl

instance : LawfulMonad (Parse e) := by
  refine LawfulMonad.mk' _ ?_ ?_ ?_
  · intro α p
    refine Parse.eq_of_run (fun s => ?_) fun s => ?_
    · show (p.run s).bind (fun a t => .ok a t) = p.run s
      cases p.run s <;> rfl
    · show p.uses s ++ (p.run s).listing (fun _ _ => []) = p.uses s
      cases p.run s <;> exact List.append_nil _
  · intro α β a next
    rfl
  · intro α β γ p next last
    refine Parse.eq_of_run (fun s => ?_) fun s => ?_
    · show ((p.run s).bind _).bind _ = (p.run s).bind _
      cases p.run s <;> rfl
    · show (p.uses s ++ (p.run s).listing _) ++ ((p.run s).bind _).listing _ =
        p.uses s ++ (p.run s).listing _
      rw [List.append_assoc]
      cases p.run s <;> rfl

/-- All results of a parse have a property. -/
def Parse.Gives (p : Parse e α) (Q : α → Prop) : Prop :=
  ∀ s a t, p.run s = .ok a t → Q a

variable {next : α → Parse e β} {p : Parse e α}

theorem gives_bind {P : α → Prop} {Q : β → Prop} (hp : p.Gives P)
    (h : ∀ a, P a → (next a).Gives Q) : (p >>= next).Gives Q := by
  intro s b u hrun
  rw [Parse.run_bind] at hrun
  cases hr : p.run s with
  | error fault t =>
    rw [hr] at hrun
    cases hrun
  | ok a t =>
    rw [hr] at hrun
    exact h a (hp s a t hr) t b u hrun

theorem gives_behind {Q : β → Prop} (h : ∀ a, (next a).Gives Q) : (p >>= next).Gives Q :=
  gives_bind (fun _ _ _ _ => trivial) fun a _ => h a

variable {Q : α → Prop}

theorem gives_pure {a : α} (h : Q a) : (pure a : Parse e α).Gives Q := by
  rintro s _ _ ⟨⟩
  exact h

theorem gives_fail {fault : Fault} : (fail fault : Parse e α).Gives Q := by
  rintro s _ _ ⟨⟩

theorem gives_stop {Q : β → Prop} (hp : p.Gives fun _ => False) : (p >>= next).Gives Q :=
  gives_bind hp fun _ h => h.elim

theorem gives_failHere {cause : GrammarCause} : (failHere cause : Parse e α).Gives Q :=
  gives_behind fun _ => gives_fail

theorem gives_unexpected {what : String} : (unexpected what : Parse e α).Gives Q :=
  gives_behind fun _ => gives_failHere

theorem gives_tooDeep : (tooDeep : Parse e α).Gives Q :=
  gives_behind fun _ => gives_fail

theorem gives_map {f : α → β} {P : α → Prop} {Q : β → Prop} (hp : p.Gives P)
    (h : ∀ a, P a → Q (f a)) : (f <$> p).Gives Q :=
  gives_bind hp fun a ha => gives_pure (h a ha)

theorem gives_loop {I : β → Prop} {init : β} {step : β → Parse e (β ⊕ α)} (hinit : I init)
    (hstep : ∀ b, I b → (step b).Gives (Sum.elim I Q)) : (loop init step).Gives Q := by
  have hrounds : ∀ n b, I b → (loopWithin n step b).Gives Q := by
    intro n
    induction n with
    | zero => exact fun _ _ => gives_tooDeep
    | succ n ih =>
      intro b hb
      refine gives_bind (hstep b hb) fun result hresult => ?_
      cases result with
      | inl next => exact ih next hresult
      | inr a => exact gives_pure hresult
  exact gives_behind fun s => hrounds _ _ hinit

/-! ## Statements -/

theorem every_grouped {P : Stmt → Prop} (hblock : ∀ body, P (.block body)) {stmts : List Stmt}
    (h : EveryIn P stmts) : (grouped stmts).Every P := by
  match stmts, h with
  | [], h => exact ⟨hblock _, h⟩
  | [s], h => exact h.1
  | s :: s' :: rest, h => exact ⟨hblock _, h⟩

theorem everyIn_toBlock {P : Stmt → Prop} {s : Stmt} (h : s.Every P) : EveryIn P s.toBlock := by
  cases s with
  | block body => exact h.2
  | _ => exact ⟨h, trivial⟩

variable {rules : Rules}

theorem gives_commitLocals (locals : List LocalDecl) :
    (commitLocals locals).Gives (Every Grouped) := by
  have hall : (locals.mapM commitLocal).Gives (EveryIn Grouped) := by
    induction locals with
    | nil => exact gives_pure trivial
    | cons v rest ih =>
      rw [List.mapM_cons]
      refine gives_bind (P := Every Grouped) ?_ fun s hs => ?_
      · refine gives_behind fun _ => gives_behind fun _ => gives_behind fun _ => gives_pure trivial
      · exact gives_bind ih fun stmts hstmts => gives_pure ⟨hs, hstmts⟩
  exact gives_bind hall fun stmts hstmts => gives_pure (every_grouped (fun _ => trivial) hstmts)

theorem gives_expressionStatement : (expressionStatement rules).Gives (Every Grouped) := by
  refine gives_behind fun exprs => gives_behind fun _ => gives_pure ?_
  refine every_grouped (fun _ => trivial) (everyIn_iff.mpr ?_)
  intro s hs
  obtain ⟨e, -, rfl⟩ := List.mem_map.mp hs
  trivial

theorem gives_forInit : (forInit rules).Gives (EveryIn Grouped) := by
  refine gives_behind fun ends => ?_
  cases ends with
  | true => exact gives_pure trivial
  | false =>
    refine gives_behind fun declares => ?_
    cases declares with
    | some locals =>
      exact gives_bind (gives_commitLocals locals) fun s hs => gives_pure (everyIn_toBlock hs)
    | none =>
      exact gives_bind gives_expressionStatement fun s hs => gives_pure (everyIn_toBlock hs)

/-! ## Groups of a switch -/

/-- The groups of a switch that is being read, the last one first. -/
structure OpenGroups (cases : List (Case Stmt)) : Prop where
  labelled : ∀ c ∈ cases, c.labels ≠ [] ∨ c.isDefault
  filled : ∀ c ∈ cases.tail, c.body ≠ []
  every : EveryInCases Grouped cases

theorem OpenGroups.openCase (h : OpenGroups cases) (place : Position) {f : Case Stmt → Case Stmt}
    (hbody : ∀ c, (f c).body = c.body) (hlabel : ∀ c, (f c).labels ≠ [] ∨ (f c).isDefault) :
    OpenGroups (openCase cases place f) := by
  have hnew : EveryIn Grouped (f ⟨[], false, [], place⟩).body := by
    rw [hbody]
    trivial
  obtain ⟨labelled, filled, every⟩ := h
  rw [everyInCases_iff] at every
  cases cases with
  | nil => exact ⟨by simp [Grammar.openCase, hlabel], by simp [Grammar.openCase],
      everyInCases_iff.mpr (by simpa [Grammar.openCase] using hnew)⟩
  | cons case rest =>
    rw [List.forall_mem_cons] at labelled every
    simp only [Grammar.openCase]
    by_cases hempty : case.body.isEmpty
    · rw [if_pos hempty]
      refine ⟨?_, filled, everyInCases_iff.mpr ?_⟩
      · exact List.forall_mem_cons.mpr ⟨hlabel case, labelled.2⟩
      · rw [List.forall_mem_cons, hbody]
        exact every
    · rw [if_neg hempty]
      have hfilled : case.body ≠ [] := fun hnil => hempty (List.isEmpty_iff.mpr hnil)
      refine ⟨?_, ?_, everyInCases_iff.mpr ?_⟩
      · rw [List.forall_mem_cons, List.forall_mem_cons]
        exact ⟨hlabel _, labelled⟩
      · rw [List.tail_cons, List.forall_mem_cons]
        exact ⟨hfilled, filled⟩
      · rw [List.forall_mem_cons, List.forall_mem_cons]
        exact ⟨hnew, every⟩

theorem OpenGroups.append {case : Case Stmt} {rest : List (Case Stmt)}
    (h : OpenGroups (case :: rest)) {s : Stmt} (hs : s.Every Grouped) :
    OpenGroups ({ case with body := case.body ++ [s] } :: rest) := by
  obtain ⟨labelled, filled, every⟩ := h
  rw [everyInCases_iff, List.forall_mem_cons] at every
  rw [List.forall_mem_cons] at labelled
  refine ⟨List.forall_mem_cons.mpr labelled, filled, everyInCases_iff.mpr ?_⟩
  refine List.forall_mem_cons.mpr ⟨everyIn_iff.mpr fun s' hs' => ?_, every.2⟩
  rcases List.mem_append.mp hs' with hs' | hs'
  · exact everyIn_iff.mp every.1 s' hs'
  · rw [List.mem_singleton.mp hs']
    exact hs

theorem OpenGroups.every_switch (h : OpenGroups cases) (subject : Expr) :
    (Stmt.switch subject cases.reverse).Every Grouped := by
  refine ⟨⟨fun c hc => h.labelled c (List.mem_reverse.mp hc), fun c hc => ?_⟩, ?_⟩
  · rw [List.dropLast_reverse, List.mem_reverse] at hc
    exact h.filled c hc
  · refine everyInCases_iff.mpr fun c hc => ?_
    exact everyInCases_iff.mp h.every c (List.mem_reverse.mp hc)

/-! ## Nested statements -/

theorem gives_some {s : Stmt} (hs : s.Every Grouped) :
    (pure (some s) : Parse e (Option Stmt)).Gives fun s? => ∀ s ∈ s?, s.Every Grouped := by
  refine gives_pure ?_
  rintro _ ⟨⟩
  exact hs

section Nested

variable (hrules : rules.statement.Gives (Every Grouped))
include hrules

theorem gives_body : (body rules).Gives (EveryIn Grouped) :=
  gives_bind hrules fun _ hs => gives_pure (everyIn_toBlock hs)

theorem gives_blockItems : (blockItems rules).Gives (EveryIn Grouped) := by
  refine gives_loop (I := EveryIn Grouped) trivial fun done hdone => ?_
  refine gives_behind fun atBrace => ?_
  cases atBrace with
  | true =>
    refine gives_pure (everyIn_iff.mpr fun s hs => ?_)
    exact everyIn_iff.mp hdone s (List.mem_reverse.mp hs)
  | false =>
    refine gives_behind fun atEnd => ?_
    cases atEnd with
    | true => exact gives_stop gives_unexpected
    | false =>
      refine gives_bind hrules fun s hs => ?_
      split
      · exact gives_pure hdone
      · exact gives_pure ⟨hs, hdone⟩

theorem gives_forBehindParen : (forBehindParen rules).Gives (Every Grouped) := by
  refine gives_behind fun head => ?_
  match head with
  | some (name, items, place) =>
    refine gives_behind fun _ => gives_behind fun _ => gives_behind fun _ => ?_
    exact gives_bind (gives_body hrules) fun stmts hstmts => gives_pure ⟨trivial, hstmts⟩
  | none =>
    refine gives_bind gives_forInit fun init hinit => ?_
    refine gives_behind fun condition => gives_behind fun _ => gives_behind fun closes => ?_
    have hlast (update : List Expr) : (do
        require .rParen "`)`"
        return .forLoop init condition update (← body rules) :
          Parse .declare Stmt).Gives (Every Grouped) :=
      gives_behind fun _ => gives_bind (gives_body hrules) fun stmts hstmts =>
        gives_pure ⟨trivial, hinit, hstmts⟩
    cases closes with
    | true => exact hlast []
    | false => exact gives_behind hlast

theorem gives_switchCases (subject : Expr) :
    (switchCases rules).Gives fun cases => (Stmt.switch subject cases).Every Grouped := by
  refine gives_loop (I := OpenGroups) ⟨by simp, by simp, trivial⟩ fun cases hcases => ?_
  refine gives_behind fun place => gives_behind fun k => ?_
  split
  · exact gives_pure (hcases.every_switch subject)
  · refine gives_behind fun _ => gives_behind fun label => gives_behind fun _ => gives_pure ?_
    exact hcases.openCase place (fun _ => rfl) fun _ => .inl (by simp)
  · refine gives_behind fun _ => gives_behind fun _ => gives_pure ?_
    exact hcases.openCase place (fun _ => rfl) fun _ => .inr rfl
  · exact gives_unexpected
  · refine gives_bind hrules fun s hs => ?_
    cases cases with
    | cons case rest => exact gives_pure (hcases.append hs)
    | nil => exact gives_fail

theorem gives_switchStatement : (switchStatement rules).Gives (Every Grouped) := by
  refine gives_behind fun subject => gives_behind fun _ => gives_behind fun _ => ?_
  refine gives_bind (gives_switchCases hrules subject) fun cases hcases => ?_
  exact gives_behind fun _ => gives_behind fun _ => gives_pure hcases

theorem gives_keywordStatement? (k : Kind) (place : Position) :
    (keywordStatement? rules k place).Gives fun s? => ∀ s ∈ s?, s.Every Grouped := by
  have hbody := gives_body hrules
  unfold keywordStatement?
  split
  case h_1 =>
    refine gives_behind fun _ => gives_behind fun _ => ?_
    refine gives_bind (gives_blockItems hrules) fun stmts hstmts => ?_
    exact gives_behind fun _ => gives_behind fun _ => gives_some ⟨trivial, hstmts⟩
  case h_3 =>
    refine gives_behind fun _ => gives_behind fun _ => gives_behind fun test => ?_
    refine gives_bind hbody fun ifTrue hTrue => gives_behind fun hasElse => ?_
    cases hasElse with
    | true =>
      refine gives_bind (P := fun b => ∀ stmts ∈ b, EveryIn Grouped stmts) ?_ fun b hb => ?_
      · exact gives_map hbody fun stmts hstmts => by simpa using hstmts
      · cases b with
        | none => exact gives_some ⟨trivial, hTrue, trivial⟩
        | some stmts => exact gives_some ⟨trivial, hTrue, hb stmts rfl⟩
    | false => exact gives_some ⟨trivial, hTrue, trivial⟩
  case h_4 =>
    refine gives_behind fun _ => gives_behind fun test => ?_
    exact gives_bind hbody fun stmts hstmts => gives_some ⟨trivial, hstmts⟩
  case h_5 =>
    refine gives_behind fun _ => gives_bind hbody fun stmts hstmts => ?_
    refine gives_behind fun _ => gives_behind fun test => gives_behind fun _ => ?_
    exact gives_some ⟨trivial, hstmts⟩
  case h_6 =>
    refine gives_behind fun _ => gives_behind fun _ => gives_behind fun _ => ?_
    refine gives_bind (gives_forBehindParen hrules) fun s hs => ?_
    exact gives_behind fun _ => gives_some hs
  case h_7 =>
    refine gives_behind fun _ => gives_map (gives_switchStatement hrules) fun s hs => ?_
    simpa using hs
  case h_2 => exact gives_behind fun _ => gives_some ⟨trivial, trivial⟩
  case h_8 | h_9 => exact gives_behind fun _ => gives_behind fun _ => gives_some trivial
  case h_10 | h_11 =>
    exact gives_behind fun _ => gives_behind fun _ => gives_behind fun _ => gives_some trivial
  case h_12 =>
    refine gives_behind fun _ => gives_behind fun isArray => ?_
    cases isArray with
    | true =>
      refine gives_behind fun _ => gives_behind fun _ => gives_behind fun _ => ?_
      exact gives_some trivial
    | false => exact gives_behind fun _ => gives_behind fun _ => gives_some trivial
  case h_13 | h_14 => exact gives_fail
  case h_15 | h_16 => exact gives_failHere
  case h_17 | h_18 | h_19 => exact gives_behind fun _ => gives_some ⟨trivial, trivial⟩
  case h_20 | h_21 | h_22 | h_23 =>
    refine gives_map (gives_behind fun locals => gives_commitLocals locals) fun s hs => ?_
    simpa using hs
  case h_24 => exact gives_pure (by simp)

theorem gives_statement : (statement rules).Gives (Every Grouped) := by
  refine gives_behind fun place => gives_behind fun k => ?_
  refine gives_bind (gives_keywordStatement? hrules k place) fun s? hs => ?_
  cases s? with
  | some s => exact gives_pure (hs s rfl)
  | none =>
    refine gives_behind fun isLabel => ?_
    cases isLabel with
    | true => exact gives_stop gives_fail
    | false =>
      refine gives_behind fun declares => ?_
      cases declares with
      | some locals => exact gives_commitLocals locals
      | none => exact gives_expressionStatement

end Nested

theorem gives_statement_within (depth : Nat) :
    (Rules.within depth).statement.Gives (Every Grouped) := by
  induction depth with
  | zero => exact gives_tooDeep
  | succ depth ih => exact gives_statement ih

end Grammar

end Serpentine

import Serpentine.Proofs.Grammar.Statements
import Serpentine.Proofs.Lowering.Relocation

/-!
# Expressions and statements of the script, part by part

What holds of the parts that the lowering puts together holds of all expressions and statements of
the script that it gives (**`matched_block`**).
-/

namespace Serpentine

namespace Script.Stmt

variable (V : Term → Prop) (N : String → Prop) (L : Stmt → Prop)

mutual

def Holds : Stmt → Prop
  | .whileLoop test body => V test ∧ HoldsAll body
  | .forLoop name items body => N name ∧ V items ∧ HoldsAll body
  | .ifElse test body branches otherwise =>
    V test ∧ HoldsAll body ∧ HoldsBranches branches ∧ HoldsElse otherwise
  | s => L s

def HoldsAll : List Stmt → Prop
  | [] => True
  | s :: rest => Holds s ∧ HoldsAll rest

def HoldsBranches : List (Term × List Stmt) → Prop
  | [] => True
  | branch :: rest => HoldsBranch branch ∧ HoldsBranches rest

def HoldsBranch : Term × List Stmt → Prop
  | (test, body) => V test ∧ HoldsAll body

def HoldsElse : Option (List Stmt) → Prop
  | none => True
  | some body => HoldsAll body

end

variable {V N L}

theorem holdsAll_iff {stmts : List Stmt} : HoldsAll V N L stmts ↔ ∀ s ∈ stmts, Holds V N L s := by
  induction stmts with
  | nil => simp [HoldsAll]
  | cons s rest ih => simp [HoldsAll, ih]

theorem holdsAll_append {first rest : List Stmt} (hfirst : HoldsAll V N L first)
    (hrest : HoldsAll V N L rest) : HoldsAll V N L (first ++ rest) := by
  rw [holdsAll_iff] at hfirst hrest ⊢
  intro s hs
  exact (List.mem_append.1 hs).elim (hfirst s) (hrest s)

theorem holdsAll_singleton {s : Stmt} (h : Holds V N L s) : HoldsAll V N L [s] :=
  ⟨h, trivial⟩

end Script.Stmt

namespace Lowering

open Script (Term)
open Script.Stmt (Holds HoldsAll HoldsBranches HoldsElse holdsAll_append holdsAll_singleton)

/-! ## Results -/

section Results

variable {α β : Type} {x : Lower α} {P : α → Prop} {Q : β → Prop}

namespace Lower

/-- The result of a lowering has a property. -/
def Gives (x : Lower α) (P : α → Prop) : Prop :=
  ∀ a, x.result = .ok a → P a

theorem gives_any : x.Gives fun _ => True :=
  fun _ _ => trivial

theorem gives_pure {a : α} (h : P a) : (pure a : Lower α).Gives P := by
  rintro _ ⟨⟩
  exact h

theorem Gives.bind {f : α → Lower β} (hx : x.Gives P) (hf : ∀ a, P a → (f a).Gives Q) :
    (x >>= f).Gives Q := by
  intro b hb
  change (Lower.bind x f).result = .ok b at hb
  unfold Lower.bind at hb
  split at hb
  · next a ha => exact hf a (hx a ha) b hb
  · cases hb

theorem gives_lift {result : Except Fault α} (h : ∀ a, result = .ok a → P a) :
    (lift result).Gives P :=
  h

/-- The same result with other places, and a result has a property. -/
structure Matched (f : Position → Position) (P : α → Prop) (x y : Lower α) : Prop
    extends Relocated f x y where
  gives : x.Gives P

variable {f : Position → Position} {y : Lower α}

theorem matched_pure {a : α} (h : P a) : Matched f P (pure a) (pure a) :=
  ⟨relocated_pure a, gives_pure h⟩

theorem matched_lift {x y : Except Fault α} (h : Tracks f P x y) : Matched f P (lift x) (lift y) :=
  ⟨relocated_lift h.same, h.holds⟩

theorem Matched.bind {next next' : α → Lower β} (h : Matched f P x y)
    (hnext : ∀ a, P a → Matched f Q (next a) (next' a)) :
    Matched f Q (x >>= next) (y >>= next') :=
  ⟨relocated_bind h.toRelocated fun a ha => (hnext a (h.gives a ha)).toRelocated,
    h.gives.bind fun a ha => (hnext a ha).gives⟩

end Lower

end Results

open Lower

/-! ## Statements from expressions -/

/-- What is to be known besides the parts of expressions: of the lines that they make, and of the
names that loops set. `V` is about expressions, `W` about tests, `T` about targets. -/
structure Finishes (env : Env) (X : Expr → Prop) (P : Stmt → Prop) (V W T : Term → Prop)
    (N : String → Prop) (L : Script.Stmt → Prop) : Prop where
  exprs {s} : P s → ∀ e ∈ s.exprs, e.Every X
  test {t} : V t → W t
  noTest : W (.atom "")
  always : V (.atom "True")
  nothing : V .none
  int n : V (.int n)
  range : V (.atom "range")
  target {e target t} : X e → e.assigned? = some target → env.term target = .ok t → V t → T t
  eval {t} : V t → L (.eval t)
  assign {t ts v} : (∀ t' ∈ t :: ts, T t') → V v → L (.assign (t :: ts) v)
  augment {t op v} : T t → V v → L (.augment t op v)
  ret {t} : V t → L (.ret (some t))
  raise {t} : V t → L (.raise (some t))
  plain : L (.ret none) ∧ L (.raise none) ∧ L .breakStmt ∧ L .continueStmt
  declare {name value v} : P (.declare name value) → V v →
    L (.assign [.atom (Script.identifier name)] v)
  delete {e t} : P (.delete e) → env.term e = .ok t → V t → L (.del t)
  declared {name value} : P (.declare name value) → N (Script.identifier name)
  assigned {ref value} : P (.expr (.assign none (.name ref) value)) → N (env.nameText ref)
  each {name items body} : P (.forEach name items body) → N (Script.identifier name)

/-- What a `continue` inside the loops may print is made of parts that are known. -/
def Framed (X : Expr → Prop) (frames : List Frame) : Prop :=
  ∀ frame ∈ frames, ∀ e ∈ frame.exprs, e.Every X

section Finish

variable {f : Position → Position} {env env' : Env} {X : Expr → Prop} {P : Stmt → Prop}
  {V W T : Term → Prop} {N : String → Prop} {L : Script.Stmt → Prop}

theorem Framed.cons {frames : List Frame} (h : Framed X frames) (frame : Frame)
    (hX : ∀ e ∈ frame.exprs, e.Every X) : Framed X (frame :: frames) :=
  List.forall_mem_cons.2 ⟨hX, h⟩

theorem holdsAll_switchChain {branches : List (Term × List Script.Stmt)}
    {otherwise : Option (List Script.Stmt)} (hbranches : HoldsBranches V N L branches)
    (hotherwise : HoldsElse V N L otherwise) : HoldsAll V N L (switchChain branches otherwise) := by
  cases branches with
  | nil =>
    cases otherwise with
    | none => exact trivial
    | some body => exact hotherwise
  | cons branch rest =>
    obtain ⟨test, body⟩ := branch
    obtain ⟨⟨htest, hbody⟩, hrest⟩ := hbranches
    exact holdsAll_singleton ⟨htest, hbody, hrest, hotherwise⟩

theorem composes_foldl_or (hV : Env.Composes env X V) (rest : List Term) {first : Term}
    (hfirst : V first) (hrest : ∀ t ∈ rest, V t) : V (rest.foldl (Term.binary .or) first) := by
  induction rest generalizing first with
  | nil => exact hfirst
  | cons second rest ih =>
    obtain ⟨hsecond, hrest⟩ := List.forall_mem_cons.1 hrest
    exact ih (hV.binary .or hfirst hsecond) hrest

theorem finishes_any (env : Env) (X : Expr → Prop) : Finishes env X
    (fun s => ∀ e ∈ s.exprs, e.Every X) (fun _ => True) (fun _ => True) (fun _ => True)
    (fun _ => True) fun _ => True := by
  constructor <;> simp

/-- A statement of one line. -/
theorem matched_line {α : Type} {x y : Except Fault α} {line : α → Script.Stmt}
    (h : Tracks f (fun a => Holds V N L (line a)) x y) :
    Matched f (HoldsAll V N L) (do return [line (← lift x)]) (do return [line (← lift y)]) :=
  .bind (matched_lift h) fun _ hline => matched_pure (holdsAll_singleton hline)

open Env

variable (ha : Alike f env env' X) (hV : Composes env X V) (hf : Finishes env X P V W T N L)

include hf in
theorem counting_parts {init body : List Stmt} {condition : Option Expr} {update : List Expr}
    {c : Counting} (hP : P (.forLoop init condition update body)) (hinit : Stmt.EveryIn P init)
    (hc : env.counting? init condition update body = some c) :
    N c.name ∧ c.start.Every X ∧ c.bound.Every X := by
  have hX := hf.exprs hP
  obtain ⟨hstart, op, ref, rfl⟩ := eq_of_counting? hc
  have hlast : c.bound.Every X := by
    refine fun part hpart => hX (.binary op (.name ref) c.bound) (by simp [Stmt.exprs]) part ?_
    exact List.mem_cons_of_mem _ (List.mem_append_right _ hpart)
  rcases hstart with ⟨var, rfl, hname⟩ | ⟨ref, rfl, hname⟩
  · refine ⟨hname ▸ hf.declared hinit.1, fun part hpart => hX c.start ?_ part hpart, hlast⟩
    simp [Stmt.exprs, Stmt.exprsOfBlock]
  · refine ⟨hname ▸ hf.assigned hinit.1, fun part hpart => ?_, hlast⟩
    refine hX (.assign none (.name ref) c.start) (by simp [Stmt.exprs, Stmt.exprsOfBlock]) part ?_
    exact List.mem_cons_of_mem _ (List.mem_append_right _ hpart)

include ha hV hf

-- The mutual proofs below pass the hypotheses on, which the linter does not see.
set_option linter.unusedSectionVars false

theorem tracks_test {e : Expr} (hX : e.Every X) :
    Tracks f W (env.term e) (env'.term (e.relocate f)) :=
  (tracks_term ha hV e hX).imp fun _ => hf.test

theorem tracks_line (e : Expr) (hX : e.Every X) :
    Tracks f (Holds W N L) (env.exprStmt e) (env'.exprStmt (e.relocate f)) :=
  tracks_exprStmt (L := Holds W N L) ha hV (fun _ _ _ => hf.target) (fun _ => hf.eval)
    (fun _ _ _ => hf.assign) (fun _ _ _ => hf.augment) e hX

theorem tracks_lines {es : List Expr} (hX : ∀ e ∈ es, e.Every X) :
    Tracks f (HoldsAll W N L) (env.exprStmts es) (env'.exprStmts (es.map (Expr.relocate f))) :=
  (Tracks.mapM fun e he => tracks_line ha hV hf e (hX e he)).imp fun _ =>
    Script.Stmt.holdsAll_iff.2

theorem tracks_valueTerm {value : Option Expr} (hX : ∀ e ∈ value.toList, e.Every X) :
    Tracks f V (env.valueTerm value) (env'.valueTerm (value.map (Expr.relocate f))) := by
  cases value with
  | none => exact .pure hf.nothing
  | some e => exact tracks_term ha hV e (List.forall_mem_cons.1 hX).1

theorem tracks_assignment {name : String} {value : Option Expr} (hs : P (.declare name value)) :
    Tracks f (Holds W N L) (env.assignment name value)
      (env'.assignment name (value.map (Expr.relocate f))) :=
  (tracks_valueTerm ha hV hf (hf.exprs hs)).bind fun _ _ hv => .pure (hf.declare hs hv)

theorem tracks_deletion {target : Expr} (hs : P (.delete target)) :
    Tracks f (Holds W N L) (env.deletion target) (env'.deletion (target.relocate f)) := by
  have hname : (target.relocate f).targetName?.isSome = target.targetName?.isSome := by
    rw [Expr.targetName?_relocate, Option.isSome_map]
  have hdeletable : isDeletable (target.relocate f) = isDeletable target := by
    cases target with
    | member | index => rfl
    | _ => exact hname
  have hX := (List.forall_mem_cons.1 (hf.exprs hs)).1
  rw [deletion_eq, deletion_eq, hdeletable]
  split
  · exact (tracks_term ha hV target hX).bind fun _ ht hv => .pure (hf.delete hs ht hv)
  · exact tracks_line ha hV hf target hX

theorem tracks_caseTest {subject : Term} (hsubject : V subject) {labels : List Expr}
    (hX : ∀ e ∈ labels, e.Every X) : Tracks f W (env.caseTest subject labels)
      (env'.caseTest subject (labels.map (Expr.relocate f))) := by
  refine (Tracks.mapM (P := V) fun label hlabel => ?_).bind fun tests _ htests => ?_
  · exact (tracks_term ha hV label (hX label hlabel)).bind fun _ _ ht =>
      .pure (hV.binary .eq hsubject ht)
  · cases tests with
    | nil => exact .pure hf.noTest
    | cons first rest =>
      obtain ⟨hfirst, hrest⟩ := List.forall_mem_cons.1 htests
      exact .pure (hf.test (composes_foldl_or hV rest hfirst hrest))

theorem tracks_items {c : Counting} (hstart : c.start.Every X) (hbound : c.bound.Every X) :
    Tracks f V (c.items env) ((c.relocate f).items env') := by
  have hstop : Tracks f V (c.stop env) ((c.relocate f).stop env') := by
    have hend := tracks_term ha hV c.bound hbound
    rw [Counting.stop_eq, Counting.stop_eq, show (c.relocate f).bound = c.bound.relocate f from rfl,
      show (c.relocate f).inclusive = c.inclusive from rfl,
      show (c.relocate f).step = c.step from rfl, literalValue?_relocate]
    split
    · cases literalValue? c.bound with
      | some n =>
        dsimp only
        generalize (if 0 < c.step then n + 1 else n - 1) = stop
        split
        · exact .pure (hf.int stop)
        · exact ⟨rfl, by rintro _ ⟨⟩⟩
      | none => exact hend.bind fun _ _ ht => .pure (hV.binary _ ht (hf.int 1))
    · exact hend
  refine hstop.bind fun stop _ hlast => (tracks_term ha hV c.start hstart).bind fun start _ hfirst =>
    .pure (hV.call hf.range ?_)
  split
  · simp [hlast, hfirst, hf.int]
  · split <;> simp [hlast, hfirst]

theorem tracks_loopTest {condition : Option Expr} (hX : ∀ e ∈ condition.toList, e.Every X) :
    Tracks f W (env.loopTest condition) (env'.loopTest (condition.map (Expr.relocate f))) := by
  cases condition with
  | none => exact .pure (hf.test hf.always)
  | some e => exact tracks_test ha hV hf (List.forall_mem_cons.1 hX).1

theorem tracks_loopExit {condition : Expr} (hX : condition.Every X) :
    Tracks f (Holds W N L) (env.loopExit condition) (env'.loopExit (condition.relocate f)) :=
  (tracks_term ha hV condition hX).bind fun _ _ ht => .pure
    ⟨hf.test (hV.unary .not ht), holdsAll_singleton hf.plain.2.2.1, trivial, trivial⟩

theorem tracks_loopUpdates (body : List Stmt) {update : List Expr}
    (hX : ∀ e ∈ update, e.Every X) :
    Tracks f (HoldsAll W N L) (env.loopUpdates body update)
      (env'.loopUpdates (Stmt.relocateAll f body) (update.map (Expr.relocate f))) := by
  unfold loopUpdates
  rw [endsInJump_relocate]
  split
  · exact .pure trivial
  · exact tracks_lines ha hV hf hX

theorem tracks_beforeContinue {frames : List Frame} (h : Framed X frames) :
    Tracks f (HoldsAll W N L) (env.beforeContinue frames)
      (env'.beforeContinue (frames.map (Frame.relocate f))) := by
  have hfind : (frames.map (Frame.relocate f)).find? (!·.isSwitch) =
      (frames.find? (!·.isSwitch)).map (Frame.relocate f) := by
    rw [List.find?_map]
    congr 1
    refine congrArg (List.find? · frames) (funext fun frame => ?_)
    rw [Function.comp_apply, Frame.isSwitch_relocate]
  unfold beforeContinue
  rw [hfind]
  cases hframe : frames.find? (!·.isSwitch) with
  | none => exact .pure trivial
  | some frame =>
    have hX := h frame (List.mem_of_find?_eq_some hframe)
    cases frame with
    | loop | switch => exact .pure trivial
    | forLoop update => exact tracks_lines ha hV hf hX
    | doWhile condition =>
      exact (tracks_loopExit ha hV hf (List.forall_mem_singleton.1 hX)).bind
        fun _ _ hs => .pure (holdsAll_singleton hs)

/-! ## Statements -/

mutual

theorem matched_stmt : (s : Stmt) → {frames : List Frame} → Framed X frames → s.Every P →
    Matched f (HoldsAll W N L) (stmt env frames s)
      (stmt env' (frames.map (Frame.relocate f)) (s.relocate f))
  | .ret none, _, _, _ => matched_pure (holdsAll_singleton hf.plain.1)
  | .ret (some value), _, _, hs => matched_line ((tracks_term ha hV value
      (List.forall_mem_cons.1 (hf.exprs hs)).1).imp fun _ => hf.ret)
  | .throw none, _, _, _ => matched_pure (holdsAll_singleton hf.plain.2.1)
  | .throw (some value), _, _, hs => matched_line ((tracks_term ha hV value
      (List.forall_mem_cons.1 (hf.exprs hs)).1).imp fun _ => hf.raise)
  | .ifElse condition ifTrue ifFalse, _, hframes, hs => by
    refine .bind (matched_lift (tracks_test ha hV hf
      (List.forall_mem_cons.1 (hf.exprs hs.1)).1)) fun test htest => ?_
    refine .bind (matched_block ifTrue hframes hs.2.1) fun body hbody => ?_
    exact .bind (matched_elseBranches ifFalse hframes hs.2.2) fun _ hbranches =>
      matched_pure (holdsAll_singleton ⟨htest, hbody, hbranches⟩)
  | .block body, _, hframes, hs => matched_block body hframes hs.2
  | .declare .., _, _, hs => matched_line (tracks_assignment ha hV hf hs)
  | .expr e, _, _, hs => matched_line (tracks_line ha hV hf e
      (List.forall_mem_cons.1 (hf.exprs hs)).1)
  | .delete _, _, _, hs => matched_line (tracks_deletion ha hV hf hs)
  | .whileLoop condition body, _, hframes, hs => by
    refine .bind (matched_lift (tracks_test ha hV hf
      (List.forall_mem_cons.1 (hf.exprs hs.1)).1)) fun test htest => ?_
    exact .bind (matched_block body (hframes.cons .loop nofun) hs.2) fun _ hstmts =>
      matched_pure (holdsAll_singleton ⟨htest, hstmts⟩)
  | .doWhile body condition, _, hframes, hs => by
    have hX := (List.forall_mem_cons.1 (hf.exprs hs.1)).1
    have hinside := hframes.cons (.doWhile condition) (List.forall_mem_singleton.2 hX)
    refine .bind (matched_block body hinside hs.2) fun stmts hstmts => ?_
    exact .bind (matched_lift (tracks_loopExit ha hV hf hX)) fun _ hlast =>
      matched_pure (holdsAll_singleton
        ⟨hf.test hf.always, holdsAll_append hstmts (holdsAll_singleton hlast)⟩)
  | .forLoop init condition update body, _, hframes, hs => by
    have hX := hf.exprs hs.1
    simp only [stmt, Stmt.relocate, counting?_relocate ha hX]
    cases hcounting : env.counting? init condition update body with
    | some c =>
      obtain ⟨hname, hstart, hbound⟩ := counting_parts hf hs.1 hs.2.1 hcounting
      refine .bind (matched_lift ((tracks_items ha hV hf hstart hbound).imp fun _ => hf.test))
        fun items hitems => ?_
      exact .bind (matched_block body (hframes.cons .loop nofun) hs.2.2) fun _ hstmts =>
        matched_pure (holdsAll_singleton ⟨hname, hitems, hstmts⟩)
    | none =>
      simp only [Stmt.exprs, List.forall_mem_append] at hX
      obtain ⟨⟨⟨-, hcondition⟩, hupdate⟩, -⟩ := hX
      refine .bind (matched_block init hframes hs.2.1) fun first hfirst => ?_
      refine .bind (matched_lift (tracks_loopTest ha hV hf hcondition)) fun test htest => ?_
      have hinside := hframes.cons (.forLoop update) hupdate
      refine .bind (matched_block body hinside hs.2.2) fun stmts hstmts => ?_
      exact .bind (matched_lift (tracks_loopUpdates ha hV hf body hupdate)) fun updates hupdates =>
        matched_pure (holdsAll_append hfirst
          (holdsAll_singleton ⟨htest, holdsAll_append hstmts hupdates⟩))
  | .forEach name items body, _, hframes, hs => by
    refine .bind (matched_lift (tracks_test ha hV hf
      (List.forall_mem_cons.1 (hf.exprs hs.1)).1)) fun t ht => ?_
    exact .bind (matched_block body (hframes.cons .loop nofun) hs.2) fun _ hstmts =>
      matched_pure (holdsAll_singleton ⟨hf.each hs.1, ht, hstmts⟩)
  | .switch subject cases, _, hframes, hs => by
    obtain ⟨hX, hXs⟩ := List.forall_mem_cons.1 (hf.exprs hs.1)
    refine .bind (matched_lift (tracks_term ha hV subject hX)) fun t ht => ?_
    rw [fallThroughs_relocate]
    refine .bind ⟨relocated_forM fun place _ => relocated_warn place _, gives_any⟩ fun _ _ => ?_
    refine .bind (matched_caseBranches cases hframes ht hXs hs.2) fun branches hbranches => ?_
    exact .bind (matched_defaultBranch cases hframes hs.2) fun _ hotherwise =>
      matched_pure (holdsAll_switchChain hbranches hotherwise)
  | .breakStmt, frames, _, _ => by
    have hswitch : (frames.map (Frame.relocate f)).head?.any Frame.isSwitch =
        frames.head?.any Frame.isSwitch := by
      cases frames with
      | nil => rfl
      | cons frame rest => exact frame.isSwitch_relocate
    simp only [stmt, Stmt.relocate, hswitch, ha.place]
    split
    · exact matched_lift ⟨rfl, nofun⟩
    · exact matched_pure (holdsAll_singleton hf.plain.2.2.1)
  | .continueStmt, _, hframes, _ =>
    .bind (matched_lift (tracks_beforeContinue ha hV hf hframes)) fun _ hbefore =>
      matched_pure (holdsAll_append hbefore (holdsAll_singleton hf.plain.2.2.2))

theorem matched_block : (body : List Stmt) → {frames : List Frame} → Framed X frames →
    Stmt.EveryIn P body → Matched f (HoldsAll W N L) (block env frames body)
      (block env' (frames.map (Frame.relocate f)) (Stmt.relocateAll f body))
  | [], _, _, _ => matched_pure trivial
  | s :: rest, _, hframes, hs =>
    .bind (matched_stmt s hframes hs.1) fun _ hfirst =>
      .bind (matched_block rest hframes hs.2) fun _ hrest =>
        matched_pure (holdsAll_append hfirst hrest)

theorem matched_elseBranches : (body : Option (List Stmt)) → {frames : List Frame} →
    Framed X frames → Stmt.EveryInElse P body →
    Matched f (fun branches => HoldsBranches W N L branches.1 ∧ HoldsElse W N L branches.2)
      (elseBranches env frames body)
      (elseBranches env' (frames.map (Frame.relocate f)) (Stmt.relocateElse f body))
  | none, _, _, _ | some [], _, _, _ => matched_pure ⟨trivial, trivial⟩
  | some (s :: rest), _, hframes, hs => by
    have hblock := matched_block (s :: rest) hframes hs
    cases s with
    | ifElse condition ifTrue ifFalse =>
      cases rest with
      | nil =>
        refine .bind (matched_lift (tracks_test ha hV hf
          (List.forall_mem_cons.1 (hf.exprs hs.1.1)).1)) fun test htest => ?_
        refine .bind (matched_block ifTrue hframes hs.1.2.1) fun body hbody => ?_
        exact .bind (matched_elseBranches ifFalse hframes hs.1.2.2) fun _ hbranches =>
          matched_pure ⟨⟨⟨htest, hbody⟩, hbranches.1⟩, hbranches.2⟩
      | cons => exact .bind hblock fun _ hbody => matched_pure ⟨trivial, hbody⟩
    | _ => cases rest <;> exact .bind hblock fun _ hbody => matched_pure ⟨trivial, hbody⟩

theorem matched_caseBody : (body : List Stmt) → {frames : List Frame} → Framed X frames →
    Stmt.EveryIn P body → Matched f (HoldsAll W N L) (caseBody env frames body)
      (caseBody env' (frames.map (Frame.relocate f)) (Stmt.relocateAll f body))
  | [], _, _, _ => matched_pure trivial
  | s :: rest, frames, hframes, hs => by
    have hboth : Matched f (HoldsAll W N L)
        (do
          let first ← stmt env (.switch :: frames) s
          return first ++ (← caseBody env frames rest))
        (do
          let first ← stmt env' (.switch :: frames.map (Frame.relocate f)) (s.relocate f)
          return first ++
            (← caseBody env' (frames.map (Frame.relocate f)) (Stmt.relocateAll f rest))) :=
      .bind (matched_stmt s (hframes.cons .switch nofun) hs.1) fun _ hfirst =>
        .bind (matched_caseBody rest hframes hs.2) fun _ hrest =>
          matched_pure (holdsAll_append hfirst hrest)
    cases s with
    | breakStmt =>
      cases rest with
      | nil => exact matched_pure trivial
      | cons s' rest => exact hboth
    | _ => exact hboth

theorem matched_caseBranches : (cases : List (Case Stmt)) → {subject : Term} →
    {frames : List Frame} → Framed X frames → V subject →
    (∀ e ∈ Stmt.exprsOfCases cases, e.Every X) → Stmt.EveryInCases P cases →
    Matched f (HoldsBranches W N L) (caseBranches env frames subject cases)
      (caseBranches env' (frames.map (Frame.relocate f)) subject (Stmt.relocateCases f cases))
  | [], _, _, _, _, _, _ => matched_pure trivial
  | ⟨labels, isDefault, body, place⟩ :: rest, subject, _, hframes, ht, hX, hs => by
    simp only [Stmt.exprsOfCases, Stmt.exprsOfCase, List.forall_mem_append] at hX
    cases isDefault with
    | true => exact matched_caseBranches rest hframes ht hX.2 hs.2
    | false =>
      refine .bind (matched_lift (tracks_caseTest ha hV hf ht hX.1.1)) fun test htest => ?_
      refine .bind (matched_caseBody body hframes hs.1) fun stmts hstmts => ?_
      exact .bind (matched_caseBranches rest hframes ht hX.2 hs.2) fun _ hbranches =>
        matched_pure ⟨⟨htest, hstmts⟩, hbranches⟩

theorem matched_defaultBranch : (cases : List (Case Stmt)) → {frames : List Frame} →
    Framed X frames → Stmt.EveryInCases P cases →
    Matched f (HoldsElse W N L) (defaultBranch env frames cases)
      (defaultBranch env' (frames.map (Frame.relocate f)) (Stmt.relocateCases f cases))
  | [], _, _, _ => matched_pure trivial
  | ⟨labels, isDefault, body, place⟩ :: rest, _, hframes, hs => by
    have hany : (Stmt.relocateCases f rest).any (·.isDefault) = rest.any (·.isDefault) := by
      rw [Stmt.relocateCases_eq_map, List.any_map]
      exact congrArg rest.any (funext (Stmt.isDefault_relocateCase f))
    simp only [Stmt.relocateCases, Stmt.relocateCase, defaultBranch, hany]
    split
    · exact matched_defaultBranch rest hframes hs.2
    · split
      · exact .bind (matched_caseBody body hframes hs.1) fun _ hstmts => matched_pure hstmts
      · exact matched_pure trivial

end

omit ha in
theorem holds_block {body : List Stmt} (hbody : Stmt.EveryIn P body) :
    (block env [] body).Gives (HoldsAll W N L) :=
  (matched_block (.refl env X) hV hf body (List.forall_mem_nil _) hbody).gives

end Finish

end Lowering

end Serpentine

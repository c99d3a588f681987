import Mathlib.Data.List.Forall2
import Serpentine.Proofs.Program.Relocation
import Serpentine.Writer

/-!
# Lowering of programs with other places

The lowering of a tree depends on its places in its faults and warnings only, and on the bindings of
names only as far as they occur in it. Both are shown at once: a lowering is compared with that of
the tree with other places, under a table that binds the same names alike.
-/

namespace Serpentine

/-! ## Faults with other places -/

section MapError

variable {ε ε' α β : Type} (g : ε → ε')

@[simp]
theorem mapError_error (e : ε) : (Except.error e : Except ε α).mapError g = .error (g e) :=
  rfl

@[simp]
theorem mapError_map (x : Except ε α) (h : α → β) : (h <$> x).mapError g = h <$> x.mapError g := by
  cases x <;> rfl

end MapError

/-! ## Parts of trees -/

namespace Expr

theorem every_targetName? {X : Expr → Prop} : (e : Expr) → e.Every X → {ref : NameRef} →
    e.targetName? = some ref → X (.name ref) ∨ X (.scoped ref)
  | .name _, hX, _, h => by
    cases h
    exact .inl (hX _ List.mem_cons_self)
  | .scoped _, hX, _, h => by
    cases h
    exact .inr (hX _ List.mem_cons_self)
  | .parens inner, hX, _, h | .unary .deref inner, hX, _, h | .unary .addressOf inner, hX, _, h =>
    every_targetName? inner (List.forall_mem_cons.1 hX).2 h

theorem parts_subset_of_assigned? {e target : Expr} (h : e.assigned? = some target) :
    target.parts ⊆ e.parts := by
  cases e with
  | assign op target' value =>
    cases h
    exact List.Subset.trans (List.subset_append_left ..) (List.subset_cons_self ..)
  | step increment before target' =>
    cases h
    exact List.subset_cons_self ..
  | _ => cases h

theorem every_of_assigned? {X : Expr → Prop} {es : List Expr} (hes : ∀ e ∈ es, e.Every X)
    {part target : Expr} (hpart : part ∈ es.flatMap parts) (h : part.assigned? = some target) :
    target.Every X := by
  obtain ⟨e, he, hpart⟩ := List.mem_flatMap.1 hpart
  exact fun p hp => hes e he p
    (parts_subset_of_mem_parts e hpart (parts_subset_of_assigned? h hp))

theorem parts_map_relocate (f : Position → Position) (es : List Expr) :
    (es.map (relocate f)).flatMap parts = (es.flatMap parts).map (relocate f) := by
  simp only [List.flatMap_map, List.map_flatMap, parts_relocate]

end Expr

namespace Lowering

open Script (Term)

variable {f : Position → Position}

/-! ## Expressions -/

/-- The same result with the places changed in a fault, and a result has a property. -/
structure Tracks {α : Type} (f : Position → Position) (P : α → Prop) (x y : Except Fault α) :
    Prop where
  same : y = x.mapError (Fault.relocate f)
  holds : ∀ a, x = .ok a → P a

section Tracks

variable {α β : Type} {P : α → Prop} {Q : β → Prop}

theorem eq_ok_of_bind {r : Except Fault α} {f : α → Except Fault β} {b : β}
    (h : (r >>= f) = .ok b) : ∃ a, r = .ok a ∧ f a = .ok b := by
  cases r with
  | error fault => cases h
  | ok a => exact ⟨a, rfl, h⟩

theorem Tracks.pure {a : α} (h : P a) : Tracks f P (Pure.pure a) (Pure.pure a) :=
  ⟨rfl, by rintro _ ⟨⟩; exact h⟩

variable {x y : Except Fault α}

theorem Tracks.imp {P' : α → Prop} (h : Tracks f P x y)
    (himp : ∀ a, P a → P' a) : Tracks f P' x y :=
  ⟨h.same, fun a ha => himp a (h.holds a ha)⟩

theorem Tracks.bind {next next' : α → Except Fault β} (h : Tracks f P x y)
    (hnext : ∀ a, x = .ok a → P a → Tracks f Q (next a) (next' a)) :
    Tracks f Q (x >>= next) (y >>= next') := by
  obtain ⟨rfl, hP⟩ := h
  cases x with
  | error fault => exact ⟨rfl, by rintro _ ⟨⟩⟩
  | ok a => exact hnext a rfl (hP a rfl)

theorem Tracks.mapM {γ δ : Type} {p : γ → Except Fault α} {q : δ → Except Fault α} {r : γ → δ}
    {l : List γ} (h : ∀ c ∈ l, Tracks f P (p c) (q (r c))) :
    Tracks f (fun as => ∀ a ∈ as, P a) (l.mapM p) ((l.map r).mapM q) := by
  induction l with
  | nil => exact .pure nofun
  | cons c rest ih =>
    obtain ⟨hfirst, hrest⟩ := List.forall_mem_cons.1 h
    rw [List.map_cons, List.mapM_cons, List.mapM_cons]
    exact hfirst.bind fun _ _ ha => (ih hrest).bind fun _ _ has =>
      .pure (List.forall_mem_cons.2 ⟨ha, has⟩)

theorem Tracks.filterMapM {γ δ : Type} {p : γ → Except Fault (Option α)}
    {q : δ → Except Fault (Option α)} {r : γ → δ} {l : List γ}
    (h : ∀ c ∈ l, Tracks f (fun a? => ∀ a ∈ a?, P a) (p c) (q (r c))) :
    Tracks f (fun as => ∀ a ∈ as, P a) (l.filterMapM p) ((l.map r).filterMapM q) := by
  induction l with
  | nil => exact .pure nofun
  | cons c rest ih =>
    obtain ⟨hfirst, hrest⟩ := List.forall_mem_cons.1 h
    rw [List.map_cons, List.filterMapM_cons, List.filterMapM_cons]
    refine hfirst.bind fun a? _ ha => ?_
    cases a? with
    | none => exact ih hrest
    | some a =>
      exact (ih hrest).bind fun _ _ has => .pure (List.forall_mem_cons.2 ⟨ha a rfl, has⟩)

end Tracks

/-- Other places, and tables that agree on some names. -/
structure Env.Alike (f : Position → Position) (env env' : Env) (X : Expr → Prop) : Prop where
  place : env'.place = f env.place
  table : ∀ ref, X (.name ref) ∨ X (.scoped ref) → env'.table.get? ref.id = env.table.get? ref.id

variable {condition : Option Expr} {update : List Expr} {X : Expr → Prop}

namespace Env

variable {env env' : Env}

theorem Alike.refl (env : Env) (X : Expr → Prop) : Alike id env env X :=
  ⟨rfl, fun _ _ => rfl⟩

/-- What is to be known of the parts of expressions. -/
structure Composes (env : Env) (X : Expr → Prop) (V : Term → Prop) : Prop where
  literal {kind text} : X (.literal kind text) → V (.atom (literalText kind text))
  name {ref} : X (.name ref) ∨ X (.scoped ref) → V (.atom (env.nameText ref))
  typeText type : V (.atom (typeText type))
  castText type : V (.atom (castText type))
  self : V .self
  one : V (.int 1)
  list {ts} : (∀ t ∈ ts, V t) → V (.list ts)
  attr {object name t} : X (.member object name) → V t → V (.attr t (Script.identifier name))
  unary op {t} : V t → V (.unary op t)
  binary op {l r} : V l → V r → V (.binary op l r)
  conditional {c a b} : V c → V a → V b → V (.conditional c a b)
  paren {t} : V t → V (.paren t)
  index {t i} : V t → V i → V (.index t i)
  call {f ts} : V f → (∀ t ∈ ts, V t) → V (.call f ts)
  walrus {e target t v} : X e → e.assigned? = some target → env.term target = .ok t → V t → V v →
    V (.walrus t v)

variable {V : Term → Prop}

theorem composes_withSelf (h : Composes env X V) {ts : List Term} (hts : ∀ t ∈ ts, V t) : ∀ t ∈
    withSelf ts, V t := by
  unfold withSelf
  split
  · simpa using h.self
  · exact List.forall_mem_cons.2 ⟨h.self, hts⟩

theorem composes_any (env : Env) (X : Expr → Prop) : Composes env X fun _ => True := by
  constructor <;> simp

section Terms

variable (ha : Alike f env env' X)
include ha

theorem nameText_relocate {ref : NameRef} (h : X (.name ref) ∨ X (.scoped ref)) :
    env'.nameText (ref.relocate f) = env.nameText ref := by
  unfold nameText
  rw [NameRef.id_relocate, ha.table ref h]
  rfl

theorem isUnboundMethod_relocate {e : Expr} (h : X e) :
    env'.isUnboundMethod (e.relocate f) = env.isUnboundMethod e := by
  cases e with
  | name ref => simp only [Expr.relocate, isUnboundMethod, NameRef.id_relocate, ha.table ref (.inl h)]
  | «scoped» ref =>
    simp only [Expr.relocate, isUnboundMethod, NameRef.id_relocate, ha.table ref (.inr h)]
  | _ => rfl

theorem tracks_checkTarget {target : Expr} (hX : target.Every X) :
    Tracks f (fun _ => True) (env.checkTarget target) (env'.checkTarget (target.relocate f)) := by
  have hbind : env'.canBind (target.relocate f) = env.canBind target := by
    unfold canBind
    rw [Expr.targetName?_relocate]
    cases hname : target.targetName? with
    | none => rfl
    | some ref =>
      simp only [Option.map_some, Option.any_some, NameRef.id_relocate,
        ha.table ref (target.every_targetName? hX hname)]
  unfold checkTarget
  rw [hbind, ha.place]
  cases env.canBind target <;> exact ⟨rfl, fun _ _ => trivial⟩

variable (h : Composes env X V)
include h

-- The mutual proofs below pass the hypotheses on, which the linter does not see.
set_option linter.unusedSectionVars false

mutual

theorem tracks_term : (e : Expr) → e.Every X → Tracks f V (env.term e) (env'.term (e.relocate f))
  | .literal .., hX => .pure (h.literal (hX _ List.mem_cons_self))
  | .name ref, hX => by
    have hname : X (.name ref) ∨ X (.scoped ref) := .inl (hX _ List.mem_cons_self)
    rw [Expr.relocate, term, term, nameText_relocate ha hname]
    exact .pure (h.name hname)
  | .scoped ref, hX => by
    have hname : X (.name ref) ∨ X (.scoped ref) := .inr (hX _ List.mem_cons_self)
    rw [Expr.relocate, term, term, nameText_relocate ha hname]
    exact .pure (h.name hname)
  | .primitive type, _ => .pure (h.typeText type)
  | .self, _ => .pure h.self
  | .sizeof _, _ => ⟨rfl, by rintro _ ⟨⟩⟩
  | .list items, hX =>
    (tracks_terms items (List.forall_mem_cons.1 hX).2).bind fun _ _ hts => .pure (h.list hts)
  | .member object _, hX => by
    obtain ⟨hown, hobject⟩ := List.forall_mem_cons.1 hX
    exact (tracks_term object hobject).bind fun _ _ ht => .pure (h.attr hown ht)
  | .unary op operand, hX => by
    refine (tracks_term operand (List.forall_mem_cons.1 hX).2).bind fun t _ ht => ?_
    cases op with
    | deref | addressOf => exact .pure ht
    | not | neg | plus | bitNot => exact .pure (h.unary _ ht)
  | .binary op left right, hX => by
    obtain ⟨hleft, hright⟩ := List.forall_mem_append.1 (List.forall_mem_cons.1 hX).2
    exact (tracks_term left hleft).bind fun _ _ hl =>
      (tracks_term right hright).bind fun _ _ hr => .pure (h.binary op hl hr)
  | .conditional condition ifTrue ifFalse, hX => by
    obtain ⟨hboth, hfalse⟩ := List.forall_mem_append.1 (List.forall_mem_cons.1 hX).2
    obtain ⟨hcondition, htrue⟩ := List.forall_mem_append.1 hboth
    exact (tracks_term ifTrue htrue).bind fun _ _ hyes =>
      (tracks_term condition hcondition).bind fun _ _ htest =>
        (tracks_term ifFalse hfalse).bind fun _ _ hno => .pure (h.conditional htest hyes hno)
  | .parens inner, hX =>
    (tracks_term inner (List.forall_mem_cons.1 hX).2).bind fun _ _ ht => .pure (h.paren ht)
  | .index object position, hX => by
    obtain ⟨hobject, hposition⟩ := List.forall_mem_append.1 (List.forall_mem_cons.1 hX).2
    exact (tracks_term object hobject).bind fun _ _ ht =>
      (tracks_term position hposition).bind fun _ _ hi => .pure (h.index ht hi)
  | .cast type operand, hX => by
    refine (tracks_term operand (List.forall_mem_cons.1 hX).2).bind fun _ _ ht => .pure ?_
    split
    · exact ht
    · exact h.call (h.castText type) (by simpa using ht)
  | .call callee args, hX => by
    obtain ⟨hcallee, hargs⟩ := List.forall_mem_append.1 (List.forall_mem_cons.1 hX).2
    rw [Expr.relocate, term, term, isUnboundMethod_relocate ha (Expr.Every.self hcallee)]
    refine (tracks_term callee hcallee).bind fun _ _ hf =>
      (tracks_terms args hargs).bind fun _ _ hts => .pure (h.call hf ?_)
    split
    · exact composes_withSelf h hts
    · exact hts
  | .new type args, hX => by
    obtain ⟨htype, hargs⟩ := List.forall_mem_append.1 (List.forall_mem_cons.1 hX).2
    exact (tracks_term type htype).bind fun _ _ hf =>
      (tracks_terms args hargs).bind fun _ _ hts => .pure (h.call hf hts)
  | .assign none target value, hX => by
    obtain ⟨hown, hboth⟩ := List.forall_mem_cons.1 hX
    obtain ⟨htarget, hvalue⟩ := List.forall_mem_append.1 hboth
    exact (tracks_term value hvalue).bind fun _ _ hv => (tracks_checkTarget ha htarget).bind
      fun _ _ _ => (tracks_term target htarget).bind fun _ htt ht =>
        .pure (h.walrus hown rfl htt ht hv)
  | .assign (some op) target value, hX => by
    obtain ⟨hown, hboth⟩ := List.forall_mem_cons.1 hX
    obtain ⟨htarget, hvalue⟩ := List.forall_mem_append.1 hboth
    exact (tracks_term target htarget).bind fun _ htt ht =>
      (tracks_term value hvalue).bind fun _ _ hv => (tracks_checkTarget ha htarget).bind
        fun _ _ _ => .pure (h.walrus hown rfl htt ht (h.binary op ht hv))
  | .step increment before target, hX => by
    obtain ⟨hown, htarget⟩ := List.forall_mem_cons.1 hX
    refine (tracks_term target htarget).bind fun _ htt ht => (tracks_checkTarget ha htarget).bind
      fun _ _ _ => .pure ?_
    have hstepped := h.walrus hown rfl htt ht
      (h.binary (if increment then .add else .sub) ht h.one)
    split
    · exact hstepped
    · exact h.binary _ hstepped h.one

theorem tracks_terms : (es : List Expr) → (∀ part ∈ Expr.partsOfList es, X part) →
    Tracks f (fun ts => ∀ t ∈ ts, V t) (env.terms es) (env'.terms (Expr.relocateAll f es))
  | [], _ => .pure nofun
  | e :: rest, hX => by
    obtain ⟨hfirst, hrest⟩ := List.forall_mem_append.1 hX
    exact (tracks_term e hfirst).bind fun _ _ ht =>
      (tracks_terms rest hrest).bind fun _ _ hts => .pure (List.forall_mem_cons.2 ⟨ht, hts⟩)

end

end Terms

/-! ## Counting loops -/

section Counting

variable (ha : Alike f env env' X)
include ha

theorem isSpelled_relocate (name : String) {e : Expr} (hX : e.Every X) :
    env'.isSpelled name (e.relocate f) = env.isSpelled name e := by
  unfold isSpelled
  rw [(tracks_term ha (composes_any env X) e hX).same]
  cases env.term e <;> rfl

theorem setsIn_relocate (name : String) {body : List Stmt}
    (hbody : ∀ e ∈ Stmt.exprsOfBlock body, e.Every X) :
    env'.setsIn name (Stmt.relocateAll f body) = env.setsIn name body := by
  unfold setsIn
  rw [Stmt.exprsOfBlock_relocate, Expr.parts_map_relocate, List.any_map, Bool.eq_iff_iff,
    List.any_eq_true, List.any_eq_true]
  refine exists_congr fun part => and_congr_right fun hmem => ?_
  rw [Function.comp_apply, Expr.assigned?_relocate]
  cases htarget : part.assigned? with
  | none => rfl
  | some target =>
    have hspelled := isSpelled_relocate ha name (Expr.every_of_assigned? hbody hmem htarget)
    rw [Option.map_some, Option.any_some, Option.any_some, hspelled]

theorem countedStart?_relocate {init : List Stmt}
    (hinit : ∀ e ∈ Stmt.exprsOfBlock init, e.Every X) :
    env'.countedStart? (Stmt.relocateAll f init) =
      (env.countedStart? init).map fun start => (start.1, start.2.relocate f) := by
  rcases init with _ | ⟨s, _ | ⟨s', rest⟩⟩
  · rfl
  · cases s with
    | declare name value => cases value <;> rfl
    | expr e =>
      cases e with
      | assign op target value =>
        rcases op with _ | op
        · cases target with
          | name ref =>
            have hname : X (.name ref) := hinit _ List.mem_cons_self _ (.tail _ List.mem_cons_self)
            simp only [Stmt.relocateAll, Stmt.relocate, Expr.relocate, countedStart?,
              nameText_relocate ha (.inl hname), Option.map_some]
          | _ => rfl
        · rfl
      | _ => rfl
    | _ => rfl
  · cases s with
    | declare name value => cases value <;> rfl
    | expr e =>
      cases e with
      | assign op target value =>
        rcases op with _ | op
        · cases target <;> rfl
        · rfl
      | _ => rfl
    | _ => rfl

theorem countedBound?_relocate (name : String)
    (hcondition : ∀ e ∈ condition.toList, e.Every X) :
    env'.countedBound? name (condition.map (Expr.relocate f)) =
      (env.countedBound? name condition).map fun bound => (bound.1, bound.2.relocate f) := by
  rcases condition with _ | e
  · rfl
  · cases e with
    | binary op left right =>
      cases left with
      | name ref =>
        have hname : X (.name ref) := hcondition _ List.mem_cons_self _ (.tail _ List.mem_cons_self)
        simp only [Option.map_some, Expr.relocate, countedBound?, nameText_relocate ha (.inl hname)]
        split <;> rfl
      | _ => rfl
    | _ => rfl

theorem countedStep?_relocate (name : String) (hupdate : ∀ e ∈ update, e.Every X) :
    env'.countedStep? name (update.map (Expr.relocate f)) = env.countedStep? name update := by
  rcases update with _ | ⟨e, _ | ⟨e', rest⟩⟩
  · rfl
  · have hspelled {target : Expr} (h : e.assigned? = some target) :=
      isSpelled_relocate ha name fun part hpart =>
        hupdate e List.mem_cons_self part (Expr.parts_subset_of_assigned? h hpart)
    cases e with
    | step increment before target =>
      simp only [List.map_cons, List.map_nil, Expr.relocate, countedStep?, hspelled rfl]
    | assign op target value =>
      rcases op with _ | op
      · rfl
      · cases value with
        | literal kind text =>
          cases kind with
          | int =>
            simp only [List.map_cons, List.map_nil, Expr.relocate, countedStep?, hspelled rfl]
          | _ => rfl
        | _ => rfl
    | _ => rfl
  · cases e with
    | assign op target value =>
      rcases op with _ | op
      · rfl
      · cases value with
        | literal kind text => cases kind <;> rfl
        | _ => rfl
    | _ => rfl

end Counting

end Env

def Counting.relocate (f : Position → Position) (c : Counting) : Counting :=
  { c with start := c.start.relocate f, bound := c.bound.relocate f }

namespace Env

variable {env env' : Env}

theorem counting?_relocate (ha : Alike f env env' X) {init body : List Stmt}
    (hX : ∀ e ∈ (Stmt.forLoop init condition update body).exprs, e.Every X) :
    env'.counting? (Stmt.relocateAll f init) (condition.map (Expr.relocate f))
        (update.map (Expr.relocate f)) (Stmt.relocateAll f body) =
      (env.counting? init condition update body).map (Counting.relocate f) := by
  simp only [Stmt.exprs, List.forall_mem_append] at hX
  obtain ⟨⟨⟨hinit, hcondition⟩, hupdate⟩, hbody⟩ := hX
  unfold counting?
  rw [countedStart?_relocate ha hinit]
  cases env.countedStart? init with
  | none => rfl
  | some start =>
    simp only [Option.map_some, Option.bind_eq_bind, Option.bind_some,
      countedBound?_relocate ha _ hcondition]
    cases env.countedBound? start.1 condition with
    | none => rfl
    | some bound =>
      simp only [Option.map_some, Option.bind_some, countedStep?_relocate ha _ hupdate]
      cases env.countedStep? start.1 update with
      | none => rfl
      | some step =>
        simp only [Option.bind_some, setsIn_relocate ha _ hbody]
        cases reachesBound? bound.1 (0 < step) with
        | none => rfl
        | some inclusive =>
          simp only [Option.bind_some]
          split <;> rfl

/-- What a counting loop starts with, and what it counts up or down to. -/
theorem eq_of_counting? {init body : List Stmt} {c : Counting}
    (h : env.counting? init condition update body = some c) :
    ((∃ var, init = [.declare var (some c.start)] ∧ c.name = Script.identifier var) ∨
      ∃ ref, init = [.expr (.assign none (.name ref) c.start)] ∧ c.name = env.nameText ref) ∧
    ∃ op ref, condition = some (.binary op (.name ref) c.bound) := by
  obtain ⟨⟨name, start⟩, hstart, h⟩ := Option.bind_eq_some_iff.mp h
  obtain ⟨⟨op, bound⟩, hbound, h⟩ := Option.bind_eq_some_iff.mp h
  obtain ⟨step, -, h⟩ := Option.bind_eq_some_iff.mp h
  obtain ⟨inclusive, -, h⟩ := Option.bind_eq_some_iff.mp h
  split at h
  · cases h
  cases h
  constructor
  · unfold countedStart? at hstart
    split at hstart
    · cases hstart
      exact .inl ⟨_, rfl, rfl⟩
    · cases hstart
      exact .inr ⟨_, rfl, rfl⟩
    · cases hstart
  · unfold countedBound? at hbound
    split at hbound
    · split at hbound
      · cases hbound
        exact ⟨_, _, rfl⟩
      · cases hbound
    · cases hbound

end Env

section Items

variable {env env' : Env} {c : Counting}

/-- The number of an integer literal. -/
def literalValue? : Expr → Option Int
  | .literal .int text => Literal.intValue? text
  | _ => none

theorem literalValue?_relocate (e : Expr) : literalValue? (e.relocate f) = literalValue? e := by
  cases e with
  | literal kind text => cases kind <;> rfl
  | _ => rfl

theorem Counting.stop_eq : c.stop env =
    if c.inclusive then
      match literalValue? c.bound with
      | some n =>
        let stop := if 0 < c.step then n + 1 else n - 1
        if fitsInt64 stop then return .int stop else throw .overflow
      | none =>
        return .binary (if 0 < c.step then .add else .sub) (← env.term c.bound) (.int 1)
    else env.term c.bound := by
  simp only [stop, decide_eq_true_eq]
  rfl

end Items

/-! ## Statements in parts -/

namespace Env

variable {env env' : Env} {V : Term → Prop}

theorem tracks_assignChain (ha : Alike f env env' X) (h : Composes env X V) {T : Term → Prop}
    (hT : ∀ e target t, X e → e.assigned? = some target → env.term target = .ok t → V t → T t) :
    (e : Expr) → e.Every X → Tracks f (fun chain => (∀ t ∈ chain.1, T t) ∧ V chain.2) (env.assignChain e)
      (env'.assignChain (e.relocate f))
  | .assign none target value, hX => by
    obtain ⟨hown, hboth⟩ := List.forall_mem_cons.1 hX
    obtain ⟨htarget, hvalue⟩ := List.forall_mem_append.1 hboth
    rw [Expr.relocate, assignChain, assignChain]
    exact (tracks_term ha h target htarget).bind fun t htt ht =>
      (tracks_assignChain ha h hT value hvalue).bind fun _ _ hrest =>
        .pure ⟨List.forall_mem_cons.2 ⟨hT _ target t hown rfl htt ht, hrest.1⟩, hrest.2⟩
  | .assign (some _) .., hX | .literal .., hX | .list _, hX | .name _, hX | .scoped _, hX
  | .primitive _, hX | .self, hX | .member .., hX | .unary .., hX | .binary .., hX
  | .conditional .., hX | .parens _, hX | .index .., hX | .cast .., hX | .call .., hX | .new .., hX
  | .step .., hX | .sizeof _, hX =>
    (tracks_term ha h _ hX).bind fun _ _ ht => .pure ⟨nofun, ht⟩

theorem tracks_exprStmt (ha : Alike f env env' X) (h : Composes env X V) {T : Term → Prop}
    {L : Script.Stmt → Prop}
    (hT : ∀ e target t, X e → e.assigned? = some target → env.term target = .ok t → V t → T t)
    (heval : ∀ t, V t → L (.eval t))
    (hassign : ∀ t ts v, (∀ t' ∈ t :: ts, T t') → V v → L (.assign (t :: ts) v))
    (haugment : ∀ t op v, T t → V v → L (.augment t op v)) :
    (e : Expr) → e.Every X → Tracks f L (env.exprStmt e) (env'.exprStmt (e.relocate f))
  | .parens inner, hX =>
    tracks_exprStmt ha h hT heval hassign haugment inner (List.forall_mem_cons.1 hX).2
  | .assign none target value, hX => by
    rw [Expr.relocate, exprStmt, exprStmt]
    refine (tracks_assignChain ha h hT _ hX).bind fun chain hchain hall => ?_
    rw [assignChain] at hchain
    obtain ⟨t, -, hchain⟩ := eq_ok_of_bind hchain
    obtain ⟨rest, -, hchain⟩ := eq_ok_of_bind hchain
    cases hchain
    exact .pure (hassign _ _ _ hall.1 hall.2)
  | .assign (some op) target value, hX => by
    obtain ⟨hown, hboth⟩ := List.forall_mem_cons.1 hX
    obtain ⟨htarget, hvalue⟩ := List.forall_mem_append.1 hboth
    rw [Expr.relocate, exprStmt, exprStmt]
    exact (tracks_term ha h target htarget).bind fun t htt ht =>
      (tracks_term ha h value hvalue).bind fun _ _ hv =>
        .pure (haugment _ _ _ (hT _ target t hown rfl htt ht) hv)
  | .step increment before target, hX => by
    obtain ⟨hown, htarget⟩ := List.forall_mem_cons.1 hX
    rw [Expr.relocate, exprStmt, exprStmt]
    exact (tracks_term ha h target htarget).bind fun t htt ht =>
      .pure (haugment _ _ _ (hT _ target t hown rfl htt ht) h.one)
  | .literal .., hX | .list _, hX | .name _, hX | .scoped _, hX | .primitive _, hX | .self, hX
  | .member .., hX | .unary .., hX | .binary .., hX | .conditional .., hX | .index .., hX
  | .cast .., hX | .call .., hX | .new .., hX | .sizeof _, hX =>
    (tracks_term ha h _ hX).bind fun _ _ ht => .pure (heval _ ht)

/-- An expression that a statement can delete. -/
def isDeletable : Expr → Bool
  | .member .. | .index .. => true
  | e => e.targetName?.isSome

theorem deletion_eq (env : Env) (target : Expr) : env.deletion target =
    if isDeletable target then return .del (← env.term target) else env.exprStmt target := by
  cases target <;> rfl

end Env

theorem endsInJump_relocate (body : List Stmt) :
    endsInJump (Stmt.relocateAll f body) = endsInJump body := by
  rw [endsInJump, Stmt.relocateAll_eq_map, List.getLast?_map, endsInJump, Option.any_map]
  congr 1
  funext s
  exact s.isJump_relocate f

theorem fallThroughs_relocate (cases : List (Case Stmt)) :
    fallThroughs (Stmt.relocateCases f cases) = (fallThroughs cases).map f := by
  induction cases with
  | nil => rfl
  | cons case rest ih =>
    cases rest with
    | nil => rfl
    | cons next rest =>
      obtain ⟨labels, isDefault, body, place⟩ := case
      have hempty : (Stmt.relocateAll f body).isEmpty = body.isEmpty := by cases body <;> rfl
      simp only [Stmt.relocateCases, Stmt.relocateCase, fallThroughs, endsInJump_relocate,
        hempty] at ih ⊢
      rw [ih]
      split
      · rfl
      · rfl

/-! ## Results with warnings -/

/-- A warning that names a place, and the same with its place changed. -/
def WarningRelocated (f : Position → Position) (w w' : String) : Prop :=
  ∃ (place : Position) (text : String),
    w = place.text ++ ": " ++ text ∧ w' = (f place).text ++ ": " ++ text

/-- The same result with the places changed in faults and warnings. -/
structure Lower.Relocated {α : Type} (f : Position → Position) (x y : Lower α) : Prop where
  warnings : List.Forall₂ (WarningRelocated f) x.warnings y.warnings
  result : y.result = x.result.mapError (Fault.relocate f)

namespace Lower

variable {α β : Type}

theorem relocated_pure (a : α) : Relocated f (pure a) (pure a) :=
  ⟨.nil, rfl⟩

theorem relocated_bind {x y : Lower α} {next next' : α → Lower β} (h : Relocated f x y)
    (hnext : ∀ a, x.result = .ok a → Relocated f (next a) (next' a)) :
    Relocated f (x >>= next) (y >>= next') := by
  obtain ⟨warnings, result⟩ := x
  obtain ⟨warnings', result'⟩ := y
  obtain ⟨hwarnings, hresult⟩ := h
  cases result with
  | error fault =>
    cases hresult
    exact ⟨hwarnings, rfl⟩
  | ok a =>
    cases hresult
    exact ⟨List.rel_append hwarnings (hnext a rfl).warnings, (hnext a rfl).result⟩

theorem relocated_lift (h : y = x.mapError (Fault.relocate f)) :
    Relocated f (lift x) (lift y) :=
  ⟨.nil, h⟩

theorem relocated_warn (place : Position) (text : String) :
    Relocated f (warn place text) (warn (f place) text) :=
  ⟨.cons ⟨place, text, rfl, rfl⟩ .nil, rfl⟩

theorem relocated_forM {γ δ : Type} {p : γ → Lower PUnit} {q : δ → Lower PUnit} {r : γ → δ}
    {l : List γ} (h : ∀ a ∈ l, Relocated f (p a) (q (r a))) :
    Relocated f (l.forM p) ((l.map r).forM q) := by
  induction l with
  | nil => exact relocated_pure _
  | cons a rest ih =>
    obtain ⟨hfirst, hrest⟩ := List.forall_mem_cons.mp h
    exact relocated_bind hfirst fun _ _ => ih hrest

end Lower

/-! ## Statements -/

def Frame.relocate (f : Position → Position) : Frame → Frame
  | .loop => .loop
  | .forLoop update => .forLoop (update.map (Expr.relocate f))
  | .doWhile condition => .doWhile (condition.relocate f)
  | .switch => .switch

def Frame.exprs : Frame → List Expr
  | .loop | .switch => []
  | .forLoop update => update
  | .doWhile condition => [condition]

theorem Frame.isSwitch_relocate (frame : Frame) : (frame.relocate f).isSwitch = frame.isSwitch := by
  cases frame <;> rfl

end Lowering

end Serpentine

import Serpentine.Proofs.Grammar.Invariant
import Serpentine.Proofs.Program.Wording

/-!
# Tokens and changes of worded programs

All names and literals that a parse writes into a program come from the tokens of its text.
-/

namespace Serpentine

open Relation (ReflTransGen)

/-! ## Streams -/

namespace Stream

/-- The tokens taken from the text are genuine. -/
def Genuine (s : Stream) : Prop :=
  ∀ (i : Nat) (token : Token), s.buffer[i]? = some token → token.Genuine

variable {s : Stream}

theorem genuine_start (text : String) : (start text).Genuine := by
  intro i token h
  simp [start] at h

theorem invariant_genuine : Invariant Genuine where
  pull {s} h i token hi := by
    rw [Stream.pull] at hi
    dsimp only at hi
    rw [Array.getElem?_push] at hi
    split at hi
    · cases hi
      exact s.scan.genuine_pull
    · exact h i token hi
  edit h hst i token hi := by
    rcases hst.buffer token (Array.mem_of_getElem? hi) with hmem | hkind
    · obtain ⟨j, hj⟩ := Array.getElem?_of_mem hmem
      exact h j token hj
    · refine Token.genuine_of_isTelling ?_
      rcases hkind with hkind | hkind <;> rw [hkind] <;> rfl

theorem Genuine.peeked (h : s.Genuine) (offset : Nat) : (s.peekAt offset).1.Genuine := by
  have hsize := (s.peekAt_eq offset).2.2
  have hcursor := (s.peekAt_eq offset).2.1.cursor
  have hbuffer := invariant_genuine.peekAt h offset
  show ((s.peekAt offset).2.buffer.getD ((s.peekAt offset).2.cursor + offset) default).Genuine
  rw [hcursor, Array.getD_eq_getD_getElem?, Array.getElem?_eq_getElem hsize]
  exact hbuffer _ _ (Array.getElem?_eq_getElem hsize)

end Stream

/-! ## Programs -/

variable {W : NameRef → Prop}

/-- A worded change of a program. -/
inductive Store.Writes (W : NameRef → Prop) (s : Store) : Store → Prop where
  | refer : Writes W s s.freshRef.2
  | build {α : Type} (op : Build α) {a : α} {t : Store} (hop : op.Worded W s)
      (h : op.apply s = .ok (a, t)) : Writes W s t

/-- A program changed by worded changes. -/
abbrev Store.Written (W : NameRef → Prop) : Store → Store → Prop :=
  ReflTransGen (Store.Writes W)

theorem Store.Written.worded {s t : Store} (h : Store.Written W s t) (hs : s.Worded W) :
    t.Worded W := by
  induction h with
  | refl => exact hs
  | tail _ hlast ih =>
    cases hlast with
    | refer => exact ih.of_decls rfl
    | build op hop hb => exact op.worded ih hop hb

/-- No change but worded ones makes a module or names a namespace. -/
theorem Store.Written.edits {s t : Store} (h : Store.Written W s t) :
    Store.Edits Entity.Fresh IsName s t := by
  induction h with
  | refl => exact .refl
  | tail _ hlast ih =>
    cases hlast with
    | refer => exact ih.tail (.note rfl (Nat.le_succ _))
    | build op hop hb =>
      refine ih.trans (op.edits (fun _ h => h) (fun e he => ?_) (fun name hname => ?_) hb)
      · cases op with
        | add parent name entity place =>
          cases he
          exact hop.2.2.2
        | _ => cases he
      · cases op with
        | addModule parent name place =>
          cases hname
          exact hop.1
        | _ => cases hname

namespace Grammar

variable {e : Effect}

theorem Reaches.genuine {s t : State} (h : Reaches e s t) (hs : s.stream.Genuine) :
    t.stream.Genuine :=
  h.invariant Stream.invariant_genuine hs

/-! ## Names and types -/

variable {name : String} {segments : List String}

theorem isScope_append {before : List String} (h : before = [] ∨ before = [""] ∨ IsScope before)
    (hname : IsName name) : IsScope (before ++ [name]) := by
  have hlast : ∀ names : List String, (∀ n ∈ names, IsName n) →
      names ++ [name] ≠ [] ∧ ∀ n ∈ names ++ [name], IsName n := by
    intro names hnames
    refine ⟨by simp, fun n hn => ?_⟩
    rcases List.mem_append.1 hn with hn | hn
    · exact hnames n hn
    · rw [List.mem_singleton.1 hn]
      exact hname
  rcases h with rfl | rfl | ⟨names, -, hnames, hbefore⟩
  · exact ⟨_, (hlast [] nofun).1, (hlast [] nofun).2, .inl rfl⟩
  · exact ⟨_, (hlast [] nofun).1, (hlast [] nofun).2, .inr rfl⟩
  · refine ⟨_, (hlast names hnames).1, (hlast names hnames).2, ?_⟩
    exact hbefore.imp (fun h => by rw [h]) fun h => by rw [h, List.cons_append]

theorem isScopedName_of_isName (h : IsName name) : IsScopedName name :=
  ⟨[name], ⟨[name], by simp, by simpa using h, .inl rfl⟩, by simp [joinScope]⟩

theorem IsScope.getLast (h : IsScope segments) : ∀ name ∈ segments.getLast?, IsName name := by
  obtain ⟨names, hne, hnames, rfl | rfl⟩ := h
  · exact fun name hname => hnames name (List.mem_of_getLast? hname)
  · obtain ⟨first, rest, rfl⟩ := List.exists_cons_of_ne_nil hne
    rw [List.getLast?_cons_cons]
    exact fun name hname => hnames name (List.mem_of_getLast? hname)

def TypeSpec.Worded (spec : TypeSpec) : Prop :=
  ∀ raw ∈ spec.named, IsScopedName raw

theorem worded_ofName (h : IsScope segments) : (TypeSpec.ofName (joinScope segments)).Worded := by
  rintro _ ⟨⟩
  exact ⟨segments, h, rfl⟩

theorem worded_ofPrimitive (text : String) (primitive : Option Primitive) :
    (TypeSpec.ofPrimitive text primitive).Worded :=
  nofun

theorem worded_ofDefinition {name : Option String} (h : ∀ n ∈ name, IsName n) (id : DeclId) :
    (TypeSpec.ofDefinition name id).Worded :=
  fun raw hraw => isScopedName_of_isName (h raw hraw)

theorem isWord_specialMethod {symbol method : String} {arity : Nat}
    (h : specialMethod? symbol arity = some method) : Script.IsWord method.toList := by
  unfold specialMethod? at h
  split at h <;> cases h <;> exact ⟨rfl, rfl⟩

theorem isWord_conversionMethod {type : Option Primitive} {method : String}
    (h : conversionMethod? type = some method) : Script.IsWord method.toList := by
  unfold conversionMethod? at h
  split at h <;> cases h <;> exact ⟨rfl, rfl⟩

/-! ## Expressions -/

theorem worded_castTo (spec : TypeSpec) (indirect : Bool) {operand : Expr}
    (h : operand.Worded W) : (castTo spec indirect operand).Worded W := by
  unfold castTo
  split
  · exact h
  · exact h
  · split
    · exact h
    · exact .cast h

theorem worded_firstOrNone {args : List Expr} (h : ∀ arg ∈ args, arg.Worded W) :
    (firstOrNone args).Worded W := by
  cases args with
  | nil => exact Expr.worded_none
  | cons first rest => exact h first List.mem_cons_self

theorem worded_emptyPlaces {size : Expr} (h : size.Worded W) : (emptyPlaces size).Worded W :=
  .binary (.list (by simpa using Expr.worded_none)) h

theorem isQuotation_intercalate {first : String} {more : List String}
    (h : ∀ part ∈ first :: more, IsQuotation part) :
    IsQuotation (" ".intercalate (first :: more)) := by
  induction more generalizing first with
  | nil => simpa using h first List.mem_cons_self
  | cons next rest ih =>
    obtain ⟨hfirst, hmore⟩ := List.forall_mem_cons.1 h
    have hrest := ih hmore
    have htext : (" ".intercalate (first :: next :: rest)).toList =
        first.toList ++ ' ' :: (" ".intercalate (next :: rest)).toList := by
      rw [String.intercalate_cons_cons, String.toList_append, String.toList_append,
        List.append_assoc]
      rfl
    obtain ⟨mark, quote, behind, hmark, hquote, hstart⟩ := hfirst.starts
    refine ⟨⟨mark, quote, behind ++ ' ' :: (" ".intercalate (next :: rest)).toList, hmark, hquote,
      by rw [htext, hstart, List.append_assoc, List.cons_append]⟩, ?_⟩
    have hline := hrest.inLine
    rw [htext]
    generalize (" ".intercalate (next :: rest)).toList = text at hline
    simpa using ⟨hfirst.inLine, hline⟩

/-! ## Declarators -/

def DeclaratorName.Worded (name : DeclaratorName) : Prop :=
  ∀ ident, name.base = .ident ident → IsName ident

/-- Its names and expressions are as tokens give them. -/
structure Declarator.Worded (W : NameRef → Prop) (d : Declarator) : Prop where
  name : ∀ name ∈ d.ident?, IsName name
  arrays : ∀ size ∈ d.arrays, ∀ e ∈ size, e.Worded W
  params : ∀ params ∈ d.params, ∀ p ∈ params, p.Worded W

theorem Declarator.Worded.declared {d : Declarator} (hd : d.Worded W) {name : DeclaratorName}
    (hname : d.name = some name) : name.Worded := by
  intro ident hbase
  refine hd.name ident ?_
  obtain ⟨scope, base⟩ := name
  cases hbase
  rw [Declarator.ident?, hname]
  rfl

theorem worded_assignTypes {names : List (String × Position)} (h : ∀ n ∈ names, IsName n.1)
    (types : List (String × String)) : ∀ p ∈ assignTypes types names, p.Worded W := by
  induction names generalizing types with
  | nil => exact nofun
  | cons first rest ih =>
    obtain ⟨hfirst, hrest⟩ := List.forall_mem_cons.1 h
    refine List.forall_mem_cons.2 ⟨⟨?_, nofun⟩, ih hrest _⟩
    rintro _ ⟨⟩
    exact hfirst

/-! ## Statements -/

open Stmt

structure LocalDecl.Worded (W : NameRef → Prop) (v : LocalDecl) : Prop where
  name : IsName v.name
  value : ∀ e ∈ v.value, e.Worded W

theorem worded_grouped {stmts : List Stmt} (h : ∀ s ∈ stmts, s.Worded W) : (grouped stmts).Worded W :=
  every_grouped (fun _ => trivial) (everyIn_iff.2 h)

theorem worded_toBlock {s : Stmt} (h : s.Worded W) : ∀ t ∈ s.toBlock, t.Worded W :=
  everyIn_iff.1 (everyIn_toBlock h)

theorem worded_block {stmts : List Stmt} (h : ∀ s ∈ stmts, s.Worded W) : (Stmt.block stmts).Worded W :=
  ⟨trivial, everyIn_iff.2 h⟩

/-- The labels and statements of a group of a switch are worded. -/
def CaseWorded (W : NameRef → Prop) (case : Case Stmt) : Prop :=
  (∀ label ∈ case.labels, label.Worded W) ∧ ∀ s ∈ case.body, s.Worded W

end Grammar

end Serpentine

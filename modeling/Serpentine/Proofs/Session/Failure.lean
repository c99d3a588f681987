import Serpentine.Proofs.Macro.Lines
import Serpentine.Proofs.Program.Edits
import Serpentine.Proofs.Reference.Stability

/-!
# Files that fail

A file that is refused is not taken back. What it leaves depends on how far it got
(**`Session.parse_fault`**).
-/

namespace Serpentine

/-- A later program, which has all declarations of an earlier one. -/
def Store.Continues (s t : Store) : Prop :=
  ∀ (id : DeclId) (d : Declaration), s.decls[id]? = some d → ∃ d', t.decls[id]? = some d' ∧
    d'.root = d.root ∧ d'.place = d.place ∧ d'.entity.describe = d.entity.describe

namespace Store

variable {s t u : Store}

theorem Continues.of_decls (h : t.decls = s.decls) : s.Continues t :=
  fun _ d hd => ⟨d, by rw [h, hd], rfl, rfl, rfl⟩

theorem Continues.trans (hst : s.Continues t) (htu : t.Continues u) : s.Continues u := by
  intro id d hd
  obtain ⟨d', hd', hroot, hplace, hsort⟩ := hst id d hd
  obtain ⟨d'', hd'', hroot', hplace', hsort'⟩ := htu id d' hd'
  exact ⟨d'', hd'', hroot'.trans hroot, hplace'.trans hplace, hsort'.trans hsort⟩

theorem continues_of_modify (id : DeclId) (f : Declaration → Declaration)
    (ht : t.decls = s.decls.modify id f)
    (hf : ∀ d, s.decls[id]? = some d → (f d).root = d.root ∧ (f d).place = d.place ∧
      (f d).entity.describe = d.entity.describe) : s.Continues t := by
  intro i d hd
  rw [ht, Array.getElem?_modify]
  split
  · next hi =>
    subst hi
    exact ⟨f d, by rw [hd]; rfl, hf d hd⟩
  · exact ⟨d, hd, rfl, rfl, rfl⟩

theorem continues_modifyEntity {id : DeclId} {f : Entity → Entity}
    (hf : ∀ e, s.entity? id = some e → (f e).describe = e.describe) :
    s.Continues (s.modifyEntity id f) :=
  continues_of_modify id (fun d => { d with entity := f d.entity }) rfl fun d hd =>
    ⟨rfl, rfl, hf d.entity (by rw [entity?, hd]; rfl)⟩

theorem continues_modifyModule (id : DeclId) (f : Module → Module) :
    s.Continues (s.modifyModule id f) := by
  refine continues_modifyEntity fun e _ => ?_
  cases e <;> rfl

theorem continues_alloc (parent : DeclId) (name : Option String) (place : Position)
    (entity : Entity) : s.Continues (s.alloc parent name place entity).2 := by
  intro id d hd
  have hlt : id < s.decls.size := (Array.getElem?_eq_some_iff.mp hd).1
  exact ⟨d, by rw [getElem?_alloc, if_neg (Nat.ne_of_lt hlt), hd], rfl, rfl, rfl⟩

theorem Edit.continues {P : Entity → Prop} {N : String → Prop} (h : Edit P N s t) :
    s.Continues t := by
  cases h with
  | note hdecls => exact .of_decls hdecls
  | alter id f hf => exact continues_modifyEntity fun e _ => (hf e).describe
  | push parent name place entity _ => exact continues_alloc _ _ _ _
  | enclose parent name place _ hnew =>
    unfold addModule
    rw [hnew]
    exact (continues_alloc _ _ _ _).trans (continues_modifyModule _ _)
  | importEnum id _ _ => exact continues_modifyModule _ _
  | rename id name =>
    exact continues_of_modify id (fun d => { d with name := some name }) rfl fun _ _ =>
      ⟨rfl, rfl, rfl⟩
  | move id parent hlt =>
    exact continues_of_modify id (fun d => { d with parent := some parent }) rfl fun _ _ =>
      ⟨rfl, rfl, rfl⟩

theorem Edits.continues {P : Entity → Prop} {N : String → Prop} (h : Edits P N s t) :
    s.Continues t := by
  induction h with
  | refl => exact .of_decls rfl
  | tail _ hlast ih => exact ih.trans hlast.continues

end Store

namespace Grammar

variable {e : Effect} {α : Type} {s t : State}

theorem Change.continues (h : Change e s t) : s.store.Continues t.store := by
  cases h with
  | build _ op hb =>
    have hedits : Store.Edits (fun _ => True) (fun _ => True) s.store _ :=
      op.edits (fun _ _ => trivial) (fun _ _ => trivial) (fun _ _ => trivial) hb
    exact hedits.continues
  | _ => exact .of_decls rfl

theorem Reaches.continues (h : Reaches e s t) : s.store.Continues t.store := by
  induction h with
  | refl => exact .of_decls rfl
  | step _ change ih => exact ih.trans change.continues
  | rewind _ _ before spec => exact before.trans spec

theorem parseFile_continues (names : Names) (store : Store) (file text : String) :
    store.Continues (parseFile names store file text).2 := by
  rw [parseFile_snd]
  exact (fileDeclarations.reaches (.start file text names store)).continues

end Grammar

namespace Macro

/-- A text whose directives fail leaves the macros as they are behind the lines that were run: those
in front of the refused one, or all of them if a group is still open at the end. -/
theorem run_error {table : Table} {file text : String} {fault : Fault}
    (h : (run table file text).text = .error fault) :
    ∃ before after outs q, sourceLines text = before ++ after ∧
      Progress.runLines file ⟨table, [], []⟩ 1 before = (.ok outs, q) ∧
      (run table file text).table = q.table ∧
      (after = [] ∧ q.groups ≠ [] ∨ ∃ line rest cause, after = line :: rest ∧
        q.line ⟨file, 1 + before.length, none⟩ line = .error cause) := by
  unfold run at h ⊢
  rw [show lines (stripComments (splice text.toList)) = sourceLines text from rfl] at h ⊢
  generalize sourceLines text = source at h ⊢
  dsimp only at h ⊢
  cases hrun : Progress.runLines file ⟨table, [], []⟩ 1 source with
  | mk result q =>
    rw [hrun] at h
    cases result with
    | error fault' =>
      obtain ⟨before, line, after, outs, cause, rfl, hbefore, hline, -⟩ := runLines_error hrun
      exact ⟨before, line :: after, outs, q, rfl, hbefore, rfl,
        .inr ⟨line, after, cause, rfl, hline⟩⟩
    | ok outs =>
      dsimp only at h ⊢
      by_cases hgroups : q.groups.isEmpty
      · rw [if_pos hgroups] at h
        cases h
      · rw [if_neg hgroups]
        refine ⟨source, [], outs, q, (List.append_nil _).symm, hrun, rfl, .inl ⟨rfl, ?_⟩⟩
        simpa using hgroups

end Macro

namespace Session

variable {s : Session} {file text : String} {fault : Fault}

/-- The declarations, what is known of names and the macros are those of another session. -/
structure Untouched (s t : Session) : Prop where
  decls : t.store.decls = s.store.decls
  names : t.names = s.names
  macros : t.macros = s.macros

theorem parse_of_error (h : (Macro.run s.macros file text).text = .error fault) :
    s.parse file text = (⟨.error fault, (Macro.run s.macros file text).warnings⟩,
      { s with macros := (Macro.run s.macros file text).table }) := by
  unfold parse
  dsimp only
  rw [h]

theorem parse_of_ok {expanded : String} (h : (Macro.run s.macros file text).text = .ok expanded)
    (hfault : (s.parse file text).1.result = .error fault) :
    ((s.parse file text).2.store.decls =
        (Grammar.parseFile s.names s.store file expanded).2.decls ∧
      (s.parse file text).2.names = .empty ∧
      (s.parse file text).2.macros = (Macro.run s.macros file text).table) := by
  unfold parse at hfault ⊢
  dsimp only at hfault ⊢
  rw [h] at hfault ⊢
  dsimp only at hfault ⊢
  generalize Grammar.parseFile s.names s.store file expanded = parsed at hfault ⊢
  obtain ⟨result, store⟩ := parsed
  cases result with
  | ok names => cases hfault
  | error fault => exact ⟨rfl, rfl, rfl⟩

/-- **What a failed file leaves.** Bindings and writer are always as before. A fault of a directive
leaves the program and what is known of names; the macros are those behind the lines in front of
it. A fault of the grammar keeps the macros of the whole file and all that was declared before it,
while nothing is known of names any more. So the file has left everything as it was exactly when its
directives have changed no macro and, if it got as far as the grammar, nothing had been known of
names and nothing was declared. -/
theorem parse_fault (h : (s.parse file text).1.result = .error fault) :
    ((s.parse file text).2.table = s.table ∧ (s.parse file text).2.writer = s.writer) ∧
      (∀ cause, (Macro.run s.macros file text).text = .error cause →
        (s.parse file text).2.store = s.store ∧ (s.parse file text).2.names = s.names ∧
        ∃ before after outs q, Macro.sourceLines text = before ++ after ∧
          Macro.Progress.runLines file ⟨s.macros, [], []⟩ 1 before = (.ok outs, q) ∧
          (s.parse file text).2.macros = q.table ∧
          (after = [] ∧ q.groups ≠ [] ∨ ∃ line rest cause, after = line :: rest ∧
            q.line ⟨file, 1 + before.length, none⟩ line = .error cause)) ∧
      (∀ expanded, (Macro.run s.macros file text).text = .ok expanded →
        s.store.Continues (s.parse file text).2.store ∧
          (s.parse file text).2.names = .empty) ∧
      (s.Untouched (s.parse file text).2 ↔
        (Macro.run s.macros file text).table = s.macros ∧
          ∀ expanded, (Macro.run s.macros file text).text = .ok expanded → s.names = .empty ∧
            (Grammar.parseFile s.names s.store file expanded).2.decls = s.store.decls) := by
  cases hrun : (Macro.run s.macros file text).text with
  | error cause =>
    rw [parse_of_error hrun]
    refine ⟨⟨rfl, rfl⟩, fun _ _ => ⟨rfl, rfl, Macro.run_error hrun⟩, nofun, ?_⟩
    exact ⟨fun hsame => ⟨hsame.macros, nofun⟩, fun hsame => ⟨rfl, rfl, hsame.1⟩⟩
  | ok expanded =>
    obtain ⟨hdecls, hnames, hmacros⟩ := parse_of_ok hrun h
    have hcontinues := Grammar.parseFile_continues s.names s.store file expanded
    refine ⟨s.keeps_parse file text, nofun, ?_, ?_⟩
    · rintro _ ⟨⟩
      exact ⟨hcontinues.trans (.of_decls hdecls), hnames⟩
    · constructor
      · rintro ⟨hsame, hsameNames, hsameMacros⟩
        refine ⟨hmacros.symm.trans hsameMacros, ?_⟩
        rintro _ ⟨⟩
        exact ⟨hsameNames.symm.trans hnames, hdecls.symm.trans hsame⟩
      · rintro ⟨hsameMacros, hsame⟩
        obtain ⟨hempty, hsameDecls⟩ := hsame expanded rfl
        exact ⟨hdecls.trans hsameDecls, hnames.trans hempty.symm, hmacros.trans hsameMacros⟩

/-- A session in which nothing was read. -/
def fresh : Session :=
  start "main" (.ofTexts []) .script

/-- A fault behind a variable: the variable stays, and nothing is known of names. -/
theorem parse_fault_strayBrace :
    ∃ fault, (fresh.parse "a.cpp" "int g; \x7d").1.result = .error fault ∧
      fresh.store.Continues (fresh.parse "a.cpp" "int g; \x7d").2.store ∧
      (fresh.parse "a.cpp" "int g; \x7d").2.names = .empty ∧
      ¬ fresh.Untouched (fresh.parse "a.cpp" "int g; \x7d").2 := by
  have hrun : (fresh.parse "a.cpp" "int g; \x7d").1.result.toOption = none ∧
      (Macro.run fresh.macros "a.cpp" "int g; \x7d").text.toOption = some "int g; \x7d" ∧
      (Grammar.parseFile fresh.names fresh.store "a.cpp" "int g; \x7d").2.decls.size ≠
        fresh.store.decls.size := by
    decide +kernel
  obtain ⟨hresult, htext, hsize⟩ := hrun
  have hexpanded := eq_ok_of_toOption htext
  cases hfault : (fresh.parse "a.cpp" "int g; \x7d").1.result with
  | ok a =>
    rw [hfault] at hresult
    cases hresult
  | error fault =>
    obtain ⟨-, -, hgrammar, huntouched⟩ := parse_fault hfault
    obtain ⟨hcontinues, hnames⟩ := hgrammar _ hexpanded
    refine ⟨fault, rfl, hcontinues, hnames, fun hsame => hsize ?_⟩
    rw [((huntouched.mp hsame).2 _ hexpanded).2]

/-- The variable in front of the fault is in the root module. -/
theorem parse_strayBrace :
    (fresh.parse "a.cpp" "int g; \x7d").1.result.toOption = none ∧
      fresh.store.decls.size = 1 ∧
      (fresh.parse "a.cpp" "int g; \x7d").2.store.decls.size = 2 ∧
      (fresh.parse "a.cpp" "int g; \x7d").2.store.name? 1 = some "g" := by
  decide +kernel

end Session

end Serpentine

import Mathlib.Data.List.Sort
import Serpentine.Proofs.Reference.Imports

/-!
# Requests for imports

The import lines of a module follow from what was asked for, in whatever order and however often
(**`Module.importLines_request`**).
-/

namespace Serpentine

/-! ## Tables in order -/

/-- Paths in ascending order, each with symbols in ascending order. -/
structure Imports.Tidy (imports : Imports) : Prop where
  paths : (imports.map Prod.fst).Pairwise (· < ·)
  symbols : ∀ entry ∈ imports, entry.2.Pairwise (· < ·)

variable {imports : Imports} {path : String} {m : Module}

theorem Imports.Tidy.mem_iff (h : imports.Tidy) {symbols : List String} :
    (path, symbols) ∈ imports ↔ imports.Has path none ∧ symbols.Pairwise (· < ·) ∧
      ∀ x, x ∈ symbols ↔ imports.Has path (some x) := by
  have hof {own : List String} (hown : (path, own) ∈ imports) (x : String) :
      x ∈ own ↔ imports.Has path (some x) := by
    refine ⟨fun hx => ⟨own, hown, by simpa using hx⟩, ?_⟩
    rintro ⟨other, hother, hx⟩
    cases List.inj_on_of_nodup_map h.paths.nodup hother hown rfl
    exact hx x rfl
  constructor
  · exact fun hmem => ⟨⟨symbols, hmem, by simp⟩, h.symbols _ hmem, hof hmem⟩
  · rintro ⟨⟨own, hown, -⟩, hsorted, hmem⟩
    rwa [hsorted.eq_of_mem_iff (h.symbols _ hown) fun x => (hmem x).trans (hof hown x).symm]

theorem Imports.Tidy.addImport (h : m.imports.Tidy) (path : String) (symbol : Option String) :
    (m.addImport path symbol).imports.Tidy := by
  have hadd {symbols : List String} (hsymbols : symbols.Pairwise (· < ·)) :
      (symbol.elim symbols (Sorted.insert · symbols)).Pairwise (· < ·) := by
    cases symbol with
    | none => exact hsymbols
    | some x => exact Sorted.pairwise_insert hsymbols
  refine ⟨?_, Sorted.forall_update h.symbols ?_ fun _ _ hold => ?_⟩
  · rw [Module.addImport, Sorted.keys_update]
    exact Sorted.pairwise_insert h.paths
  · cases symbol <;> exact hadd .nil
  · cases symbol <;> exact hadd hold

/-! ## Lines -/

theorem Script.importLine_eq_import {entry : String × List String} :
    importLine entry = "import " ++ path ↔ entry = (path, []) := by
  obtain ⟨own, symbols⟩ := entry
  rw [← String.toList_inj]
  cases symbols <;> simp [importLine, String.toList_inj]

namespace Module

/-- Requests one after the other. -/
def request (m : Module) (requests : List ImportRequest) : Module :=
  requests.foldl (fun m r => m.addImport r.1 r.2) m

variable {requests : List ImportRequest}

theorem tidy_request (h : m.imports.Tidy) : (m.request requests).imports.Tidy := by
  induction requests generalizing m with
  | nil => exact h
  | cons r rest ih => exact ih (h.addImport r.1 r.2)

theorem has_request {symbol : Option String} : (m.request requests).imports.Has path symbol ↔
    m.imports.Has path symbol ∨ ∃ r ∈ requests, ImportRequest.Meets r path symbol := by
  induction requests generalizing m with
  | nil => simp [request]
  | cons r rest ih =>
    rw [show m.request (r :: rest) = (m.addImport r.1 r.2).request rest from rfl, ih, has_addImport,
      List.exists_mem_cons_iff, or_assoc]

variable (hm : m.imports = [])

include hm

theorem mem_request {symbols : List String} : (path, symbols) ∈ (m.request requests).imports ↔
    (∃ symbol, (path, symbol) ∈ requests) ∧ symbols.Pairwise (· < ·) ∧
      ∀ x, x ∈ symbols ↔ (path, some x) ∈ requests := by
  have htidy : m.imports.Tidy := by
    rw [hm]
    exact ⟨.nil, by simp⟩
  have hhas {symbol : Option String} : (m.request requests).imports.Has path symbol ↔
      ∃ r ∈ requests, ImportRequest.Meets r path symbol := by
    rw [has_request, hm]
    simp [Imports.Has]
  rw [(tidy_request htidy).mem_iff, hhas]
  refine and_congr ?_ (and_congr_right fun _ => forall_congr' fun x => iff_congr Iff.rfl ?_)
  · constructor
    · rintro ⟨⟨_, symbol⟩, hr, rfl, -⟩
      exact ⟨symbol, hr⟩
    · rintro ⟨symbol, hr⟩
      exact ⟨_, hr, rfl, by simp⟩
  · rw [hhas]
    constructor
    · rintro ⟨⟨_, symbol⟩, hr, rfl, hx⟩
      cases hx x rfl
      exact hr
    · exact fun hr => ⟨_, hr, rfl, fun _ => id⟩

theorem import_mem_lines : "import " ++ path ∈ (m.request requests).imports.map Script.importLine ↔
    (path, none) ∈ requests ∧ ∀ x, (path, some x) ∉ requests := by
  simp only [List.mem_map, Script.importLine_eq_import, exists_eq_right, mem_request hm]
  constructor
  · rintro ⟨⟨symbol, hsymbol⟩, -, hnone⟩
    have hfree : ∀ x, (path, some x) ∉ requests := by simpa using hnone
    cases symbol with
    | none => exact ⟨hsymbol, hfree⟩
    | some x => exact absurd hsymbol (hfree x)
  · exact fun h => ⟨⟨none, h.1⟩, .nil, by simpa using h.2⟩

/-- **Requests for imports.** Each path that was asked for has one line, in ascending order, which lists
the symbols that were asked for under it, each once and in ascending order. The line of a whole
module is there exactly if no symbol was asked for under its path: so the start of a program finds
`sys` imported exactly if nothing else is imported from a module of that name. -/
theorem importLines_request (requests : List ImportRequest) :
    ((m.request requests).imports.map Prod.fst).Pairwise (· < ·) ∧
    (∀ path symbols, (path, symbols) ∈ (m.request requests).imports ↔
      (∃ symbol, (path, symbol) ∈ requests) ∧ symbols.Pairwise (· < ·) ∧
        ∀ x, x ∈ symbols ↔ (path, some x) ∈ requests) ∧
    (∀ path, "import " ++ path ∈ (m.request requests).imports.map Script.importLine ↔
      (path, none) ∈ requests ∧ ∀ x, (path, some x) ∉ requests) ∧
    ∀ s : Store, s.module? Store.root = some (m.request requests) → s.mainFunction?.isSome →
      ∃ after, s.importForMain.module? Store.root = some after ∧
        ("import sys" ∈ after.imports.map Script.importLine ↔ ∀ x, ("sys", some x) ∉ requests) := by
  have htidy : m.imports.Tidy := by
    rw [hm]
    exact ⟨.nil, by simp⟩
  refine ⟨(tidy_request htidy).paths, fun _ _ => mem_request hm, fun _ => import_mem_lines hm,
    fun s hs hmain => ?_⟩
  have hafter : s.importForMain.module? Store.root =
      some (m.request (requests ++ [("sys", none)])) := by
    rw [Store.importForMain, if_pos hmain, Store.module?_addImport, if_pos rfl, hs, Option.map_some,
      request, request, List.foldl_append]
    rfl
  refine ⟨_, hafter, ?_⟩
  rw [show "import sys" = "import " ++ "sys" from rfl, import_mem_lines hm]
  simp

end Module

/-- A program with nothing but its start. -/
@[irreducible] def plainMain : Store :=
  (Grammar.parseFile .empty (.empty "main") "t.cpp" "int main() \x7b return 0; \x7d").2

theorem importLines_request_plainMain :
    ∃ m, plainMain.module? Store.root = some m ∧ m.imports = [] ∧ plainMain.mainFunction?.isSome ∧
      ∃ after, plainMain.importForMain.module? Store.root = some after ∧
        "import sys" ∈ after.imports.map Script.importLine := by
  have hrun : (plainMain.module? Store.root).map Module.imports = some [] ∧
      plainMain.mainFunction?.isSome := by
    unfold plainMain
    decide +kernel
  obtain ⟨⟨m, hmodule, hm⟩, hmain⟩ := hrun.imp_left Option.map_eq_some_iff.1
  obtain ⟨after, hafter, hiff⟩ := (Module.importLines_request hm []).2.2.2 plainMain hmodule hmain
  exact ⟨m, hmodule, hm, hmain, after, hafter, hiff.2 (by simp)⟩

/-- A namespace of the name of the module that the start needs, one of whose variables is used. -/
@[irreducible] def shadowedSys : Store :=
  (Grammar.parseFile .empty (.empty "main") "t.cpp"
    "namespace sys \x7b int x = 1; \x7d int main() \x7b return sys::x; \x7d").2

/-- The start uses `sys`, which is not imported. -/
theorem importLines_shadowedSys :
    shadowedSys.mainFunction?.isSome ∧
    (resolve shadowedSys []).1.toOption = some () ∧
    (Writer.script.write (resolve shadowedSys []).2.store (resolve shadowedSys []).2.table
      Store.root).text.toOption = some ("from sys import x\n\n\ndef main():\n    return x\n\n\n" ++
        "if __name__ == \"__main__\":\n    sys.exit(main())\n") := by
  unfold shadowedSys
  decide +kernel

end Serpentine

import Serpentine.Proofs.Lowering.Lines
import Serpentine.Proofs.Session.Wording

/-!
# The blocks of written modules

The text of a module that a session writes, cut at its line ends, consists of the lines of the
module and the blank lines between them. What a line looks like says how deep it stands and whether
a block follows, if the name of the root stays in its line (**`Session.written_blocked`**).
-/

namespace Serpentine

namespace Script

/-! ## Lines of a text -/

theorem toList_endLines_cons (text : String) (rest : List String) :
    (endLines (text :: rest)).toList = text.toList ++ '\n' :: (endLines rest).toList := by
  rw [← List.singleton_append, endLines_append, String.toList_append]
  simp [endLines]

theorem splitOn_endLines {texts : List String} (h : ∀ text ∈ texts, IsOneLine text) :
    (endLines texts).toList.splitOn '\n' = texts.map String.toList ++ [[]] := by
  induction texts with
  | nil => rfl
  | cons text rest ih =>
    obtain ⟨htext, hrest⟩ := List.forall_mem_cons.1 h
    rw [toList_endLines_cons, List.splitOn_append_cons_self_of_not_mem htext, ih hrest]
    rfl

def leadingBlanks (text : String) : Nat :=
  (text.toList.takeWhile (· == ' ')).length

theorem toList_indentation (n : Nat) :
    (Layout.replicate n Layout.indent).toList = List.replicate (4 * n) ' ' := by
  induction n with
  | zero => rfl
  | succ n ih =>
    rw [Layout.replicate, String.toList_append, ih, show 4 * (n + 1) = 4 + 4 * n by omega,
      List.replicate_add]
    rfl

theorem leadingBlanks_written {line : Line} (h : line.Sound) :
    leadingBlanks line.written = 4 * line.depth := by
  have hstarts := h.starts
  rw [leadingBlanks, Line.written, String.toList_append, toList_indentation]
  cases htext : line.text.toList with
  | nil => simp [htext] at hstarts
  | cons c cs =>
    have hc : (c == ' ') = false := by simpa [htext, bne] using hstarts
    rw [List.takeWhile_append_of_pos (by simp), List.takeWhile_cons_of_neg (by simp [hc])]
    simp

theorem isOneLine_written {line : Line} (h : line.Sound) : IsOneLine line.written := by
  refine isOneLine_append.2 ⟨?_, h.oneLine⟩
  rw [IsOneLine, toList_indentation]
  exact fun hmem => absurd (List.eq_of_mem_replicate hmem) (by decide)

theorem mem_outLines {text : String} {lines : List Line} {before : Option Line}
    (h : text ∈ outLines before lines) : text = "" ∨ ∃ line ∈ lines, text = line.written := by
  induction lines generalizing before with
  | nil => cases h
  | cons line rest ih =>
    rw [outLines] at h
    rcases List.mem_append.1 h with hblank | hline
    · exact .inl (List.eq_of_mem_replicate hblank)
    · rcases List.mem_cons.1 hline with rfl | hrest
      · exact .inr ⟨line, List.mem_cons_self, rfl⟩
      · rcases ih hrest with hblank | ⟨other, hother, rfl⟩
        · exact .inl hblank
        · exact .inr ⟨other, List.mem_cons_of_mem _ hother, rfl⟩

/-! ## Blocks -/

/-- A text is blocked as the lines of a module are nested. -/
structure Blocked (text : String) (lines : List Line) : Prop where
  /-- The lines of the text are the given ones, with two blank lines before each item of the module
  and one before each item of a class, but for the first line and the line behind a header. -/
  written : text.toList.splitOn '\n' = (outLines none lines).map String.toList ++ [[]]
  /-- A line is indented by four blanks for each level, and more than these. -/
  indented : ∀ line ∈ lines, leadingBlanks line.written = 4 * line.depth ∧ line.text ≠ ""
  /-- A block is announced by the first word of a line. -/
  header : ∀ line ∈ lines, line.isHeader = true ↔ leadingWord line.text ∈ headerWords
  /-- The lines start without indentation. Behind a header, and only there, the next line stands one
  level deeper, and the last line is no header. -/
  nested : Block 0 lines

theorem Module.blocked_print {m : Module} (h : AllSound m.lines) : Blocked m.print m.lines where
  written := by
    rw [m.print_eq h.full, splitOn_endLines fun text htext => ?_]
    rcases mem_outLines htext with rfl | ⟨line, hline, rfl⟩
    · decide
    · exact isOneLine_written (h line hline)
  indented line hline := ⟨leadingBlanks_written (h line hline), h.full line hline⟩
  header line hline := (h line hline).header
  nested := m.block_lines

end Script

/-! ## Sessions -/

namespace Session

open Script (Blocked)

/-- **Written modules are correctly blocked.** Whatever a session has read and resolved, the text
that is written for one of its modules is blocked as the lines of the script are that the module is
lowered to, if the name of the root stays in its line. -/
theorem written_blocked {root : String} (hroot : IsOneLine root) (macros : Macro.Table)
    (writer : Writer) (steps : List Step) (id : DeclId) :
    let s := (start root macros writer).afterAll steps
    ∀ text, (Writer.script.write s.store s.table id).text = .ok text →
      ∃ m, (Lowering.Scene.lowerModule ⟨s.store, s.table⟩ id).result = .ok m ∧
        Blocked text m.lines := by
  intro s text h
  have hspelled : Resolving.Spelled root ⟨s.store, s.table⟩ := spelled hroot macros writer steps
  unfold Writer.script at h
  dsimp only at h
  cases hm : (Lowering.Scene.lowerModule ⟨s.store, s.table⟩ id).result with
  | error fault =>
    rw [hm] at h
    cases h
  | ok m =>
    rw [hm] at h
    cases h
    have hgives : (Lowering.Scene.lowerModule ⟨s.store, s.table⟩ id).Gives _ :=
      Lowering.Scene.plain_lowerModule hspelled.worded hspelled.table id
    obtain ⟨himports, hitems⟩ := hgives m hm
    exact ⟨m, rfl, Script.Module.blocked_print (Script.Module.sound_lines himports hitems)⟩

/-- A class with items of several sorts, and a variable behind it. -/
theorem written_blocked_classWithItems :
    let s := (start "main" (.ofTexts []) .script).afterAll
      [.parse "t.cpp" ("struct A \x7b static int n; enum \x7b P, Q \x7d; int f() " ++
        "\x7b if (n) \x7b \x7d return n; \x7d \x7d; int g;"), .resolve]
    let text := "class A:\n    n = None\n\n    P = 0\n\n    Q = 1\n\n    def f(self):\n" ++
      "        if A.n:\n            pass\n        return A.n\n\n\ng = None\n"
    ∃ m, (Lowering.Scene.lowerModule ⟨s.store, s.table⟩ Store.root).result = .ok m ∧
      Blocked text m.lines := by
  intro s text
  have htext : (Writer.script.write s.store s.table Store.root).text.toOption = some text := by
    decide +kernel
  exact written_blocked (by decide) _ _ _ _ text (eq_ok_of_toOption htext)

/-- A root whose name has line breaks in it: the import of its variable is written over three lines,
one of which is blank and one indented by two. -/
theorem not_blocked_brokenRoot :
    let s := (start "a\n\n  b" (.ofTexts []) .script).afterAll
      [.parse "t.cpp" "int g = 1; namespace N \x7b int f() \x7b return g; \x7d \x7d", .resolve]
    (s.render "N").text.toOption = some "from a\n\n  b import g\n\n\ndef f():\n    return g\n" ∧
      ¬ ∃ lines, Blocked "from a\n\n  b import g\n\n\ndef f():\n    return g\n" lines := by
  refine ⟨by decide +kernel, ?_⟩
  rintro ⟨lines, h⟩
  have hmem : "  b import g".toList ∈ (Script.outLines none lines).map String.toList ++ [[]] := by
    rw [← h.written]
    decide +kernel
  obtain ⟨text, htext, heq⟩ : ∃ text ∈ Script.outLines none lines,
      text.toList = "  b import g".toList := by simpa using hmem
  obtain rfl := String.toList_inj.1 heq
  rcases Script.mem_outLines htext with hempty | ⟨line, hline, hwritten⟩
  · exact absurd hempty (by decide)
  · have hindented := (h.indented line hline).1
    rw [← hwritten, show Script.leadingBlanks "  b import g" = 2 by decide] at hindented
    omega

end Session

end Serpentine

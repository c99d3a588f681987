import Mathlib.Data.List.Chain
import Serpentine.Script.Module

/-!
# The lines of a module

A module of the script is a list of lines, each with its depth, and some of them the first of an
item. Its text is these lines with their indentation, and blank lines before the items.
-/

namespace Serpentine.Script

structure Line where
  depth : Nat
  /-- The line is the first of an item of a module or class. -/
  isItem : Bool
  /-- A block follows. -/
  isHeader : Bool
  text : String
deriving Repr, DecidableEq, Inhabited

/-! ## The lines of statements and items -/

/-- The lines of a block, or `pass`. -/
def suite (depth : Nat) (lines : List Line) : List Line :=
  if lines.isEmpty then [⟨depth, false, false, "pass"⟩] else lines

mutual

def Stmt.lines (depth : Nat) : Stmt → List Line
  | .whileLoop test body =>
    ⟨depth, false, true, "while " ++ test.text ++ ":"⟩ :: suite (depth + 1) (linesAll (depth + 1) body)
  | .forLoop name items body =>
    ⟨depth, false, true, "for " ++ name ++ " in " ++ items.text ++ ":"⟩ ::
      suite (depth + 1) (linesAll (depth + 1) body)
  | .ifElse test body branches otherwise =>
    ⟨depth, false, true, "if " ++ test.text ++ ":"⟩ ::
      (suite (depth + 1) (linesAll (depth + 1) body) ++ linesBranches depth branches ++
        linesElse depth otherwise)
  | s => [⟨depth, false, false, s.lineText⟩]

def Stmt.linesAll (depth : Nat) : List Stmt → List Line
  | [] => []
  | s :: rest => s.lines depth ++ linesAll depth rest

def Stmt.linesBranches (depth : Nat) : List (Term × List Stmt) → List Line
  | [] => []
  | branch :: rest => linesBranch depth branch ++ linesBranches depth rest

def Stmt.linesBranch (depth : Nat) : Term × List Stmt → List Line
  | (test, body) =>
    ⟨depth, false, true, "elif " ++ test.text ++ ":"⟩ :: suite (depth + 1) (linesAll (depth + 1) body)

def Stmt.linesElse (depth : Nat) : Option (List Stmt) → List Line
  | none => []
  | some body => ⟨depth, false, true, "else:"⟩ :: suite (depth + 1) (linesAll (depth + 1) body)

end

/-- The lines of an item, the first of which is marked. -/
def asItem : List Line → List Line
  | [] => []
  | line :: rest => { line with isItem := true } :: rest

def Def.lines (depth : Nat) (d : Def) : List Line :=
  (if d.isStatic then [⟨depth, false, false, "@staticmethod"⟩] else []) ++
    ⟨depth, false, true, d.head⟩ :: suite (depth + 1) (Stmt.linesAll (depth + 1) d.body)

mutual

def Item.lines (depth : Nat) : Item → List Line
  | .stmt s => asItem (s.lines depth)
  | .function d => asItem (d.lines depth)
  | .classDef name base items =>
    ⟨depth, true, true, classHead name base⟩ :: suite (depth + 1) (linesItems (depth + 1) items)
  | .enumDef name lines =>
    ⟨depth, true, true, classHead name (some (.atom "Enum"))⟩ ::
      suite (depth + 1) (Stmt.linesAll (depth + 1) lines)

def linesItems (depth : Nat) : List Item → List Line
  | [] => []
  | item :: rest => item.lines depth ++ linesItems depth rest

end

/-- The lines of a module. -/
def Module.lines (m : Module) : List Line :=
  m.imports.map (fun i => ⟨0, false, false, importLine i⟩) ++ linesItems 0 m.items

/-! ## The text of lines -/

def blanksBefore (before : Option Line) (line : Line) : Nat :=
  match before with
  | none => 0
  | some last => if !line.isItem || last.isHeader then 0 else if line.depth = 0 then 2 else 1

def Line.written (line : Line) : String :=
  Layout.replicate line.depth Layout.indent ++ line.text

/-- The lines of the text that lines give behind another line, the blank ones among them. -/
def outLines : Option Line → List Line → List String
  | _, [] => []
  | before, line :: rest =>
    List.replicate (blanksBefore before line) "" ++ line.written :: outLines (some line) rest

def endLines (lines : List String) : String :=
  String.join (lines.map (· ++ "\n"))

theorem outLines_append (before : Option Line) (first second : List Line) :
    outLines before (first ++ second) =
      outLines before first ++ outLines ((first.getLast?).or before) second := by
  induction first generalizing before with
  | nil => simp [outLines]
  | cons line rest ih =>
    rw [List.cons_append, outLines, outLines, ih, List.append_assoc, List.cons_append]
    cases hlast : rest.getLast? with
    | none =>
      obtain rfl := List.getLast?_eq_none_iff.1 hlast
      simp
    | some last => simp [List.getLast?_cons, hlast]

theorem endLines_append (first second : List String) :
    endLines (first ++ second) = endLines first ++ endLines second := by
  simp [endLines, String.join_append]

theorem endLines_blanks (n : Nat) : endLines (List.replicate n "") = Layout.replicate n "\n" := by
  induction n with
  | zero => rfl
  | succ n ih =>
    rw [List.replicate_succ, ← List.singleton_append, endLines_append, ih]
    rfl

theorem endLines_concat (lines : List Line) (line : Line) :
    endLines (outLines none (lines ++ [line])) = endLines (outLines none lines) ++
      Layout.replicate (blanksBefore lines.getLast? line) "\n" ++ line.written ++ "\n" := by
  rw [outLines_append, endLines_append, Option.or_none, outLines, endLines_append, endLines_blanks]
  simp [outLines, endLines, String.append_assoc]

theorem isEmpty_endLines {lines : List Line} :
    (endLines (outLines none lines)).isEmpty = lines.isEmpty := by
  rcases List.eq_nil_or_concat' lines with rfl | ⟨before, line, rfl⟩
  · rfl
  · have hfull : (before ++ [line]).isEmpty = false := by simp
    rw [endLines_concat, hfull, String.isEmpty_eq_false_iff]
    intro h
    have hlist := congrArg String.toList h
    simp at hlist

/-! ## Nesting -/

/-- One line can stand behind another: one level deeper behind a header, otherwise not deeper. -/
def Line.Precedes (line next : Line) : Prop :=
  if line.isHeader then next.depth = line.depth + 1 else next.depth ≤ line.depth

/-- Lines that are correctly nested. -/
structure Block (d : Nat) (lines : List Line) : Prop where
  starts : ∀ line ∈ lines.head?, line.depth = d
  inside : ∀ line ∈ lines, d ≤ line.depth
  chain : lines.IsChain Line.Precedes
  ends : ∀ line ∈ lines.getLast?, line.isHeader = false

variable {d : Nat} {lines first second : List Line}

theorem block_nil : Block d [] :=
  ⟨nofun, nofun, .nil, nofun⟩

theorem block_line (isItem : Bool) (text : String) : Block d [⟨d, isItem, false, text⟩] :=
  ⟨by simp, by simp, .singleton _, by simp⟩

theorem Block.append (hfirst : Block d first) (hsecond : Block d second) :
    Block d (first ++ second) := by
  refine ⟨fun line hline => ?_, fun line hline => ?_, ?_, fun line hline => ?_⟩
  · rw [List.head?_append] at hline
    rcases Option.or_eq_some_iff.1 hline with h | ⟨-, h⟩
    · exact hfirst.starts line h
    · exact hsecond.starts line h
  · exact (List.mem_append.1 hline).elim (hfirst.inside line) (hsecond.inside line)
  · refine List.isChain_append.2 ⟨hfirst.chain, hsecond.chain, fun last hlast next hnext => ?_⟩
    rw [Line.Precedes, hfirst.ends last hlast, hsecond.starts next hnext]
    simpa using hfirst.inside last (List.mem_of_getLast? hlast)
  · rw [List.getLast?_append] at hline
    rcases Option.or_eq_some_iff.1 hline with h | ⟨-, h⟩
    · exact hsecond.ends line h
    · exact hfirst.ends line h

theorem suite_ne_nil (d : Nat) (lines : List Line) : suite d lines ≠ [] := by
  cases lines <;> simp [suite]

theorem mem_suite {line : Line} (d : Nat) (h : line ∈ lines) : line ∈ suite d lines := by
  cases lines with
  | nil => cases h
  | cons first rest => exact h

theorem Block.suite (h : Block d lines) : Block d (suite d lines) := by
  cases lines with
  | nil => exact block_line false "pass"
  | cons first rest => exact h

theorem Block.header (h : Block (d + 1) lines) (isItem : Bool) (text : String) :
    Block d (⟨d, isItem, true, text⟩ :: Script.suite (d + 1) lines) := by
  have hsuite := h.suite
  have hne := suite_ne_nil (d + 1) lines
  generalize Script.suite (d + 1) lines = inner at hsuite hne
  refine ⟨by simp, fun line hline => ?_, ?_, fun line hline => ?_⟩
  · rcases List.mem_cons.1 hline with rfl | hline
    · exact Nat.le_refl d
    · exact Nat.le_of_succ_le (hsuite.inside line hline)
  · refine List.isChain_cons.2 ⟨fun next hnext => ?_, hsuite.chain⟩
    exact hsuite.starts next hnext
  · refine hsuite.ends line ?_
    obtain ⟨first, rest, rfl⟩ := List.exists_cons_of_ne_nil hne
    rw [List.getLast?_cons_cons] at hline
    exact hline

theorem Block.asItem (h : Block d lines) : Block d (asItem lines) := by
  cases lines with
  | nil => exact h
  | cons first rest =>
    refine ⟨?_, ?_, ?_, ?_⟩
    · rintro line ⟨⟩
      exact h.starts first rfl
    · intro line hline
      rcases List.mem_cons.1 hline with rfl | hline
      · exact h.inside first List.mem_cons_self
      · exact h.inside line (List.mem_cons_of_mem _ hline)
    · obtain ⟨hnext, hchain⟩ := List.isChain_cons.1 h.chain
      exact List.isChain_cons.2 ⟨hnext, hchain⟩
    · intro line hline
      cases rest with
      | nil =>
        cases hline
        exact h.ends first rfl
      | cons second rest => exact h.ends line hline

namespace Stmt

mutual

theorem block_lines (d : Nat) : (s : Stmt) → Block d (s.lines d)
  | .whileLoop test body => (block_linesAll (d + 1) body).header false _
  | .forLoop name items body => (block_linesAll (d + 1) body).header false _
  | .ifElse test body branches otherwise => by
    rw [Stmt.lines, ← List.cons_append, ← List.cons_append]
    exact (((block_linesAll (d + 1) body).header false _).append
      (block_linesBranches d branches)).append (block_linesElse d otherwise)
  | .eval _ | .assign .. | .augment .. | .del _ | .ret _ | .raise _ | .breakStmt | .continueStmt
  | .global _ => block_line false _

theorem block_linesAll (d : Nat) : (stmts : List Stmt) → Block d (linesAll d stmts)
  | [] => block_nil
  | s :: rest => (block_lines d s).append (block_linesAll d rest)

theorem block_linesBranches (d : Nat) :
    (branches : List (Term × List Stmt)) → Block d (linesBranches d branches)
  | [] => block_nil
  | branch :: rest => (block_linesBranch d branch).append (block_linesBranches d rest)

theorem block_linesBranch (d : Nat) : (branch : Term × List Stmt) → Block d (linesBranch d branch)
  | (_, body) => (block_linesAll (d + 1) body).header false _

theorem block_linesElse (d : Nat) : (otherwise : Option (List Stmt)) → Block d
    (linesElse d otherwise)
  | none => block_nil
  | some body => (block_linesAll (d + 1) body).header false _

end

end Stmt

theorem Def.block_lines (d : Nat) (f : Def) : Block d (f.lines d) := by
  have hbody := (Stmt.block_linesAll (d + 1) f.body).header false f.head
  rw [Def.lines]
  split
  · exact (block_line false _).append hbody
  · exact hbody

mutual

theorem Item.block_lines (d : Nat) : (item : Item) → Block d (item.lines d)
  | .stmt s => (s.block_lines d).asItem
  | .function f => (f.block_lines d).asItem
  | .classDef _ _ items => (block_linesItems (d + 1) items).header true _
  | .enumDef _ lines => (Stmt.block_linesAll (d + 1) lines).header true _

theorem block_linesItems (d : Nat) : (items : List Item) → Block d (linesItems d items)
  | [] => block_nil
  | item :: rest => (item.block_lines d).append (block_linesItems d rest)

end

theorem Module.block_lines (m : Module) : Block 0 m.lines := by
  refine Block.append ?_ (block_linesItems 0 m.items)
  induction m.imports with
  | nil => exact block_nil
  | cons i rest ih => exact (block_line false (importLine i)).append ih

/-! ## Layouts -/

namespace Layout

/-- The layout has written the lines, and the next one may be wanted as an item. -/
structure Shows (l : Layout) (pending : Bool) (lines : List Line) : Prop where
  text : l.text = endLines (outLines none lines)
  closed : l.lineOpen = false
  blanks : l.blanks = if pending then if l.depth = 0 then 2 else 1 else 0
  start : l.atBlockStart = lines.getLast?.any Line.isHeader

variable {l : Layout} {pending : Bool} {lines new : List Line} {text : String} {d : Nat}

theorem Shows.majorGap (h : l.Shows false lines) : l.majorGap.Shows true lines := by
  have hend : l.endLine = l := by simp [endLine, h.closed]
  refine ⟨?_, ?_, ?_, ?_⟩
  · rw [Layout.majorGap, hend]
    exact h.text
  · rw [Layout.majorGap, hend]
    exact h.closed
  · have hblanks : l.blanks = 0 := h.blanks
    simp only [Layout.majorGap, hend, hblanks, if_true]
    split <;> rfl
  · rw [Layout.majorGap, hend]
    exact h.start

theorem depth_majorGap (h : l.Shows false lines) : l.majorGap.depth = l.depth := by
  have hend : l.endLine = l := by simp [endLine, h.closed]
  rw [Layout.majorGap, hend]

theorem line_eq (h : l.Shows pending lines) (htext : text ≠ "") (isHeader : Bool) :
    l.line text = ⟨endLines (outLines none (lines ++ [⟨l.depth, pending, isHeader, text⟩])), l.depth,
      false, 0, false⟩ := by
  have hgap : (if l.text.isEmpty || l.atBlockStart then "" else replicate l.blanks "\n") =
      replicate (blanksBefore lines.getLast? ⟨l.depth, pending, isHeader, text⟩) "\n" := by
    rw [h.text, isEmpty_endLines, h.start, h.blanks]
    rcases List.eq_nil_or_concat' lines with rfl | ⟨before, last, rfl⟩
    · rfl
    · have hfull : (before ++ [last]).isEmpty = false := by simp
      rw [hfull, Bool.false_or, List.getLast?_append, List.getLast?_singleton, Option.some_or,
        Option.any_some]
      cases hlast : last.isHeader <;> cases pending <;> simp [blanksBefore, replicate, hlast]
  have hempty : text.isEmpty = false := String.isEmpty_eq_false_iff.2 htext
  rw [line, write, hempty, h.closed, startLine, hgap, h.text, endLines_concat]
  simp [endLine, Line.written, String.append_assoc]

/-- The lines that are written, the first of which may be wanted as an item. -/
def mark (pending : Bool) (lines : List Line) : List Line :=
  if pending then asItem lines else lines

/-- From a depth, the layout writes the lines and comes back to the depth. -/
def Prints (d : Nat) (f : Layout → Layout) (new : List Line) : Prop :=
  ∀ l pending lines, l.depth = d → l.Shows pending lines →
    (f l).Shows (pending && new.isEmpty) (lines ++ mark pending new) ∧ (f l).depth = d

/-- The same where no item is wanted. -/
def Lays (d : Nat) (f : Layout → Layout) (new : List Line) : Prop :=
  ∀ l lines, l.depth = d → l.Shows false lines →
    (f l).Shows false (lines ++ new) ∧ (f l).depth = d

theorem Prints.lays {f : Layout → Layout} (h : Prints d f new) : Lays d f new :=
  fun l lines hd hl => h l false lines hd hl

theorem Prints.item {f : Layout → Layout} (h : Prints d f new) (hnew : new ≠ []) :
    Lays d (fun l => f l.majorGap) (asItem new) := by
  intro l lines hd hl
  have hempty : new.isEmpty = false := by simpa using hnew
  have hprints := h l.majorGap true lines ((depth_majorGap hl).trans hd) hl.majorGap
  rw [hempty] at hprints
  exact hprints

theorem lays_nil : Lays d (fun l => l) [] := by
  intro l lines hd h
  rw [List.append_nil]
  exact ⟨h, hd⟩

theorem Lays.trans {f g : Layout → Layout} {first second : List Line} (hf : Lays d f first)
    (hg : Lays d g second) : Lays d (fun l => g (f l)) (first ++ second) := by
  intro l lines hd h
  obtain ⟨hfirst, hdepth⟩ := hf l lines hd h
  rw [← List.append_assoc]
  exact hg _ _ hdepth hfirst

theorem prints_nil : Prints d (fun l => l) [] := by
  intro l pending lines hd h
  cases pending <;> simpa [mark, asItem] using ⟨h, hd⟩

theorem Prints.trans {f g : Layout → Layout} {first second : List Line} (hf : Prints d f first)
    (hg : Prints d g second) : Prints d (fun l => g (f l)) (first ++ second) := by
  intro l pending lines hd h
  obtain ⟨hfirst, hdepth⟩ := hf l pending lines hd h
  obtain ⟨hsecond, hend⟩ := hg _ _ _ hdepth hfirst
  refine ⟨?_, hend⟩
  rw [List.append_assoc] at hsecond
  have hmark : mark pending first ++ mark (pending && first.isEmpty) second =
      mark pending (first ++ second) := by
    cases pending <;> cases first <;> simp [mark, asItem]
  have hempty : (first ++ second).isEmpty = (first.isEmpty && second.isEmpty) := by
    cases first <;> rfl
  rw [hmark, Bool.and_assoc, ← hempty] at hsecond
  exact hsecond

theorem prints_line (htext : text ≠ "") : Prints d (·.line text) [⟨d, false, false, text⟩] := by
  rintro l pending lines rfl h
  dsimp only
  rw [line_eq h htext false]
  refine ⟨⟨?_, rfl, ?_, ?_⟩, rfl⟩
  · cases pending <;> rfl
  · simp
  · cases pending <;> simp [mark, asItem]

theorem Shows.closeBlock (h : l.Shows false lines)
    (hlast : ∀ line ∈ lines.getLast?, line.isHeader = false) : l.closeBlock.Shows false lines := by
  have hend : l.endLine = l := by simp [endLine, h.closed]
  rw [Layout.closeBlock, hend]
  refine ⟨h.text, h.closed, rfl, ?_⟩
  cases hall : lines.getLast? with
  | none => rfl
  | some last => simp [hlast last hall]

theorem prints_block (htext : text ≠ "") {body : Layout → Layout} (hbody : Lays (d + 1) body new)
    (hnew : ∀ line ∈ new.getLast?, line.isHeader = false) :
    Prints d (fun l => (l.line text).block body)
      (⟨d, false, true, text⟩ :: suite (d + 1) new) := by
  rintro l pending lines rfl h
  have hopen : (l.line text).openBlock.Shows false (lines ++ [⟨l.depth, pending, true, text⟩]) ∧
      (l.line text).openBlock.depth = l.depth + 1 := by
    rw [line_eq h htext true]
    exact ⟨⟨rfl, rfl, rfl, by simp [openBlock, endLine]⟩, rfl⟩
  obtain ⟨hshows, hinside⟩ := hbody _ _ hopen.2 hopen.1
  have hmark : lines ++ mark pending (⟨l.depth, false, true, text⟩ :: suite (l.depth + 1) new) =
      lines ++ [⟨l.depth, pending, true, text⟩] ++ suite (l.depth + 1) new := by
    cases pending <;> simp [mark, asItem]
  have hlast : ∀ line ∈ (lines ++ [Line.mk l.depth pending true text] ++
      suite (l.depth + 1) new).getLast?, line.isHeader = false := by
    cases new with
    | nil => simp [suite]
    | cons first rest => simpa [suite, List.getLast?_append, List.getLast?_cons] using hnew
  -- a block without lines still holds `pass` before it is closed
  obtain ⟨u, hu, hdepth, hall⟩ : ∃ u : Layout, (l.line text).block body = u.closeBlock ∧
      u.depth = l.depth + 1 ∧
      u.Shows false (lines ++ [⟨l.depth, pending, true, text⟩] ++ suite (l.depth + 1) new) := by
    cases new with
    | nil =>
      have hstart : (body (l.line text).openBlock).atBlockStart = true := by
        rw [hshows.start]
        simp
      obtain ⟨hpass, hdepth⟩ := prints_line (show "pass" ≠ "" by decide) _ _ _ hinside hshows
      exact ⟨_, by rw [block, if_pos hstart], hdepth, by simpa [mark, suite] using hpass⟩
    | cons first rest =>
      have hstart : (body (l.line text).openBlock).atBlockStart = false := by
        rw [hshows.start, Option.any_eq_false_iff_get]
        exact fun hsome => hlast _ (Option.get_mem hsome)
      exact ⟨_, by rw [block, hstart]; rfl, hinside, hshows⟩
  dsimp only
  rw [hu, hmark]
  refine ⟨by simpa using hall.closeBlock hlast, ?_⟩
  simp [closeBlock, endLine, hall.closed, hdepth]

end Layout

/-! ## Printing -/

open Layout (Prints Lays prints_nil lays_nil prints_line prints_block)

variable {d : Nat}

def Full (lines : List Line) : Prop :=
  ∀ line ∈ lines, line.text ≠ ""

theorem full_append {first second : List Line} :
    Full (first ++ second) ↔ Full first ∧ Full second := by
  simp [Full, or_imp, forall_and]

theorem full_header {line : Line} {lines : List Line} (h : Full (line :: suite d lines)) :
    line.text ≠ "" ∧ Full lines :=
  ⟨h line List.mem_cons_self, fun inner hinner =>
    h inner (List.mem_cons_of_mem _ (mem_suite d hinner))⟩

namespace Stmt

mutual

theorem prints : (s : Stmt) → (d : Nat) → Full (s.lines d) → Prints d (s.print ·) (s.lines d)
  | .whileLoop _ body, d, h | .forLoop _ _ body, d, h =>
    prints_block (full_header h).1 (prints_all body (d + 1) (full_header h).2).lays
      (block_linesAll (d + 1) body).ends
  | .ifElse test body branches otherwise, d, h => by
    rw [Stmt.lines, ← List.cons_append, ← List.cons_append] at h ⊢
    obtain ⟨hfirst, helse⟩ := full_append.1 h
    obtain ⟨hif, hbranches⟩ := full_append.1 hfirst
    have htest := prints_block (full_header hif).1 (prints_all body (d + 1) (full_header hif).2).lays
      (block_linesAll (d + 1) body).ends
    exact (htest.trans (prints_branches branches d hbranches)).trans (prints_else otherwise d helse)
  | .eval _, _, h | .assign .., _, h | .augment .., _, h | .del _, _, h | .ret _, _, h
  | .raise _, _, h | .breakStmt, _, h | .continueStmt, _, h | .global _, _, h =>
    prints_line (h _ List.mem_cons_self)

theorem prints_all : (stmts : List Stmt) → (d : Nat) → Full (linesAll d stmts) →
    Prints d (printAll · stmts) (linesAll d stmts)
  | [], _, _ => prints_nil
  | s :: rest, d, h =>
    (s.prints d (full_append.1 h).1).trans (prints_all rest d (full_append.1 h).2)

theorem prints_branches : (branches : List (Term × List Stmt)) → (d : Nat) →
    Full (linesBranches d branches) → Prints d (printBranches · branches) (linesBranches d branches)
  | [], _, _ => prints_nil
  | branch :: rest, d, h =>
    (prints_branch branch d (full_append.1 h).1).trans (prints_branches rest d (full_append.1 h).2)

theorem prints_branch : (branch : Term × List Stmt) → (d : Nat) → Full (linesBranch d branch) →
    Prints d (printBranch · branch) (linesBranch d branch)
  | (_, body), d, h =>
    prints_block (full_header h).1 (prints_all body (d + 1) (full_header h).2).lays
      (block_linesAll (d + 1) body).ends

theorem prints_else : (otherwise : Option (List Stmt)) → (d : Nat) → Full (linesElse d otherwise) →
    Prints d (printElse · otherwise) (linesElse d otherwise)
  | none, _, _ => prints_nil
  | some body, d, h =>
    prints_block (full_header h).1 (prints_all body (d + 1) (full_header h).2).lays
      (block_linesAll (d + 1) body).ends

end

theorem lines_ne_nil (d : Nat) (s : Stmt) : s.lines d ≠ [] := by
  cases s <;> simp [Stmt.lines]

end Stmt

theorem Def.prints (f : Def) (d : Nat) (h : Full (f.lines d)) :
    Prints d (f.print ·) (f.lines d) := by
  unfold Def.lines at h ⊢
  obtain ⟨hstatic, hdef⟩ := full_append.1 h
  have hbody := prints_block (full_header hdef).1
    (Stmt.prints_all f.body (d + 1) (full_header hdef).2).lays (Stmt.block_linesAll (d + 1) f.body).ends
  unfold Def.print
  cases hf : f.isStatic with
  | true =>
    rw [hf] at hstatic
    exact (prints_line (hstatic _ List.mem_cons_self)).trans hbody
  | false => exact hbody

theorem full_asItem {lines : List Line} (h : Full (asItem lines)) : Full lines := by
  cases lines with
  | nil => exact h
  | cons first rest =>
    exact List.forall_mem_cons.2 ⟨h { first with isItem := true } List.mem_cons_self,
      fun line hline => h line (List.mem_cons_of_mem _ hline)⟩

mutual

theorem Item.lays : (item : Item) → (d : Nat) → Full (item.lines d) →
    Lays d (item.print ·) (item.lines d)
  | .stmt s, d, h => (s.prints d (full_asItem h)).item (s.lines_ne_nil d)
  | .function f, d, h => (f.prints d (full_asItem h)).item (by simp [Def.lines])
  | .classDef _ _ items, d, h =>
    (prints_block (full_header h).1 (lays_items items (d + 1) (full_header h).2)
      (block_linesItems (d + 1) items).ends).item (List.cons_ne_nil _ _)
  | .enumDef _ lines, d, h =>
    (prints_block (full_header h).1 (Stmt.prints_all lines (d + 1) (full_header h).2).lays
      (Stmt.block_linesAll (d + 1) lines).ends).item (List.cons_ne_nil _ _)

theorem lays_items : (items : List Item) → (d : Nat) → Full (linesItems d items) →
    Lays d (printItems · items) (linesItems d items)
  | [], _, _ => lays_nil
  | item :: rest, d, h =>
    (item.lays d (full_append.1 h).1).trans (lays_items rest d (full_append.1 h).2)

end

theorem Module.print_eq (m : Module) (h : Full m.lines) :
    m.print = endLines (outLines none m.lines) := by
  have himports : ∀ imports : List (String × List String),
      Full (imports.map fun i => ⟨0, false, false, importLine i⟩) →
      Lays 0 (fun l => imports.foldl (fun l i => l.line (importLine i)) l)
        (imports.map fun i => ⟨0, false, false, importLine i⟩) := by
    intro imports
    induction imports with
    | nil => exact fun _ => lays_nil
    | cons i rest ih =>
      intro hfull
      obtain ⟨hi, hrest⟩ := List.forall_mem_cons.1 hfull
      exact (prints_line hi).lays.trans (ih hrest)
  obtain ⟨hfirst, hitems⟩ := full_append.1 h
  have hempty : Layout.empty.Shows false [] := ⟨rfl, rfl, rfl, rfl⟩
  obtain ⟨hshows, -⟩ := ((himports m.imports hfirst).trans (lays_items m.items 0 hitems))
    Layout.empty [] rfl hempty
  rw [Module.print, Layout.finish, Layout.endLine, hshows.closed]
  exact hshows.text

end Serpentine.Script

import Serpentine.Proofs.Script.Lines

/-!
# Calls of a layout

What a layout has written after calls in any order, in terms of the calls alone
(**`Layout.finish_eq_rows`**). A history holds the latest call first.
-/

namespace Serpentine.Script

/-- The calls that make up a text. -/
inductive Call where
  | write (content : String)
  | line (content : String)
  | endLine
  | gap
  | majorGap
  | openBlock
  | closeBlock
deriving Repr, DecidableEq, Inhabited

namespace Call

def content : Call → String
  | .write content | .line content => content
  | _ => ""

/-- The line that is open ends. -/
def endsLine : Call → Bool
  | .write _ => false
  | _ => true

/-- Neither content nor the border of a block. -/
def isQuiet : Call → Bool
  | .write content | .line content => content = ""
  | .openBlock | .closeBlock => false
  | _ => true

/-- The blank lines that are asked for. -/
def request (depth : Nat) : Call → Nat
  | .gap => 1
  | .majorGap => if depth = 0 then 2 else 1
  | _ => 0

theorem request_le (depth : Nat) (c : Call) :
    c.request depth ≤ 2 ∧ (0 < depth → c.request depth ≤ 1) := by
  cases c <;> grind [request]

end Call

def Layout.apply (l : Layout) : Call → Layout
  | .write content => l.write content
  | .line content => l.line content
  | .endLine => l.endLine
  | .gap => l.gap
  | .majorGap => l.majorGap
  | .openBlock => l.openBlock
  | .closeBlock => l.closeBlock

/-- Calls one after the other. -/
def Layout.run (l : Layout) (calls : List Call) : Layout :=
  calls.foldl apply l

/-! ## Histories -/

def depthAt : List Call → Nat
  | [] => 0
  | .openBlock :: before => depthAt before + 1
  | .closeBlock :: before => depthAt before - 1
  | _ :: before => depthAt before

/-- Something was written since a line was ended. -/
def lineOpenAt (before : List Call) : Bool :=
  (before.takeWhile (!·.endsLine)).any (·.content ≠ "")

def isFirstAt (before : List Call) : Bool :=
  before.all (·.content = "")

/-- Since the last block was opened nothing was written and no block was closed. -/
def blockStartAt (before : List Call) : Bool :=
  before.find? (!·.isQuiet) == some .openBlock

/-- The most blank lines asked for since the last content or border of a block. -/
def wishedAt (before : List Call) : Nat :=
  ((before.takeWhile (·.isQuiet)).map (·.request (depthAt before))).foldr max 0

def blanksAt (before : List Call) : Nat :=
  if isFirstAt before || blockStartAt before then 0 else wishedAt before

variable {c : Call} {before calls : List Call}

theorem lineOpenAt_cons (c : Call) (before : List Call) :
    lineOpenAt (c :: before) = (!c.endsLine && (c.content ≠ "" || lineOpenAt before)) := by
  rw [lineOpenAt, List.takeWhile_cons]
  cases c.endsLine <;> simp [lineOpenAt]

theorem blockStartAt_cons (c : Call) (before : List Call) :
    blockStartAt (c :: before) = if c.isQuiet then blockStartAt before else c = .openBlock := by
  rw [blockStartAt, List.find?_cons]
  cases c.isQuiet <;> simp [blockStartAt, beq_eq_decide]

theorem depthAt_of_isQuiet (h : c.isQuiet) (before : List Call) :
    depthAt (c :: before) = depthAt before := by
  cases c with
  | openBlock | closeBlock => cases h
  | _ => rfl

theorem wishedAt_cons (c : Call) (before : List Call) :
    wishedAt (c :: before) =
      if c.isQuiet then max (c.request (depthAt before)) (wishedAt before) else 0 := by
  rw [wishedAt, List.takeWhile_cons]
  split
  · next hquiet =>
    rw [List.map_cons, List.foldr_cons, depthAt_of_isQuiet hquiet]
    rfl
  · rfl

theorem wishedAt_le (before : List Call) :
    wishedAt before ≤ 2 ∧ (0 < depthAt before → wishedAt before ≤ 1) := by
  unfold wishedAt
  induction before.takeWhile (·.isQuiet) with
  | nil => simp
  | cons c rest ih =>
    have hrequest := c.request_le (depthAt before)
    simp only [List.map_cons, List.foldr_cons]
    omega

/-! ## Rows -/

structure Row where
  blanks : Nat
  depth : Nat
  contents : List String
deriving Repr, DecidableEq, Inhabited

def Row.text (row : Row) : String :=
  String.ofList (List.replicate (4 * row.depth) ' ') ++ String.join row.contents

def Row.lines (row : Row) : List String :=
  List.replicate row.blanks "" ++ [row.text]

/-- What calls write before the line ends. -/
def sameLine : List Call → List String
  | [] => []
  | c :: rest => c.content :: if c.endsLine then [] else sameLine rest

/-- The lines that are started by calls behind others. -/
def rows (before : List Call) : List Call → List Row
  | [] => []
  | c :: rest =>
    if c.content = "" ∨ lineOpenAt before then rows (c :: before) rest
    else ⟨blanksAt before, depthAt before, sameLine (c :: rest)⟩ :: rows (c :: before) rest

theorem mem_sameLine {content : String} (h : content ∈ sameLine calls) :
    ∃ c ∈ calls, c.content = content := by
  induction calls with
  | nil => cases h
  | cons c rest ih =>
    rcases List.mem_cons.1 h with rfl | h
    · exact ⟨c, List.mem_cons_self, rfl⟩
    · split at h
      · cases h
      · obtain ⟨other, hother, heq⟩ := ih h
        exact ⟨other, List.mem_cons_of_mem c hother, heq⟩

/-- A row starts with something written, and with as many blank lines as its place has. -/
theorem of_mem_rows {row : Row} (h : row ∈ rows before calls) :
    ∃ history c rest, c :: rest <:+ calls ∧ c.content ≠ "" ∧
      row = ⟨blanksAt history, depthAt history, sameLine (c :: rest)⟩ := by
  induction calls generalizing before with
  | nil => cases h
  | cons c rest ih =>
    rw [rows] at h
    obtain hrow | hlater : row = ⟨blanksAt before, depthAt before, sameLine (c :: rest)⟩ ∧
        c.content ≠ "" ∨ row ∈ rows (c :: before) rest := by grind
    · exact ⟨before, c, rest, List.suffix_refl _, hrow.2, hrow.1⟩
    · obtain ⟨history, first, more, hmore, heq⟩ := ih hlater
      exact ⟨history, first, more, hmore.trans (List.suffix_cons c rest), heq⟩

namespace Layout

/-! ## One call -/

theorem replicate_indent (depth : Nat) :
    replicate depth indent = String.ofList (List.replicate (4 * depth) ' ') := by
  induction depth with
  | zero => rfl
  | succ depth ih =>
    rw [replicate, ih, Nat.mul_succ, Nat.add_comm, List.replicate_add, String.ofList_append]
    rfl

/-- A layout agrees with the calls before it. -/
structure Follows (l : Layout) (before : List Call) : Prop where
  depth : l.depth = depthAt before
  lineOpen : l.lineOpen = lineOpenAt before
  isFirst : l.text = "" ↔ isFirstAt before
  blanks : l.blanks = wishedAt before
  start : l.atBlockStart = blockStartAt before
  /-- A line that was started has used up what it was started with. -/
  started : l.lineOpen → l.blanks = 0 ∧ l.atBlockStart = false ∧ l.text ≠ ""

theorem follows_empty : empty.Follows [] :=
  ⟨rfl, rfl, by simp [empty, isFirstAt], rfl, rfl, nofun⟩

/-- What is written before the first content of a line. -/
def opening (before : List Call) : String :=
  replicate (blanksAt before) "\n" ++ replicate (depthAt before) indent

variable {l : Layout} {content : String}

theorem Follows.write_eq (h : l.Follows before) (hcontent : content ≠ "") :
    l.write content = ⟨l.text ++ (if l.lineOpen then "" else opening before) ++ content, l.depth,
      true, 0, false⟩ := by
  have hgap : (if l.text = "" ∨ l.atBlockStart then "" else replicate l.blanks "\n") =
      replicate (blanksAt before) "\n" := by
    simp only [h.isFirst, h.start, h.blanks, blanksAt, Bool.or_eq_true]
    split <;> rfl
  by_cases ho : l.lineOpen
  · obtain ⟨hblanks, hstart, -⟩ := h.started ho
    simp [Layout.write, hcontent, ho, ← hblanks, ← hstart]
  · simp [Layout.write, startLine, hgap, hcontent, ho, opening, h.depth, String.append_assoc]

theorem Follows.write (h : l.Follows before) (content : String) :
    (l.write content).Follows (.write content :: before) := by
  by_cases hcontent : content = ""
  · subst hcontent
    refine ⟨h.depth, ?_, h.isFirst, ?_, h.start, h.started⟩
    · rw [lineOpenAt_cons]
      exact h.lineOpen
    · rw [wishedAt_cons]
      exact h.blanks.trans (Nat.zero_max _).symm
  · rw [h.write_eq hcontent]
    refine ⟨h.depth, ?_, ?_, ?_, ?_, ?_⟩
    · simp [lineOpenAt_cons, Call.content, Call.endsLine, hcontent]
    · simp [isFirstAt, Call.content, hcontent]
    · simp [wishedAt_cons, Call.isQuiet, hcontent]
    · simp [blockStartAt_cons, Call.isQuiet, hcontent]
    · simp [hcontent]

theorem lineOpen_endLine (l : Layout) : l.endLine.lineOpen = false := by
  grind [endLine]

theorem Follows.endLine (h : l.Follows before) : l.endLine.Follows (.endLine :: before) := by
  have hblanks : l.blanks = wishedAt (.endLine :: before) := by
    rw [wishedAt_cons]
    exact h.blanks.trans (Nat.zero_max _).symm
  rw [Layout.endLine]
  split
  · next hopen =>
    refine ⟨h.depth, rfl, ?_, hblanks, h.start, by rintro ⟨⟩⟩
    rw [← (show _ ↔ isFirstAt (.endLine :: before) from h.isFirst)]
    simp [(h.started hopen).2.2]
  · next hclosed => exact ⟨h.depth, Bool.eq_false_iff.2 hclosed, h.isFirst, hblanks, h.start, h.started⟩

theorem Follows.apply (h : l.Follows before) (c : Call) : (l.apply c).Follows (c :: before) := by
  have hend := h.endLine
  have hblanks : l.endLine.blanks = wishedAt before := by
    rw [hend.blanks, wishedAt_cons]
    exact Nat.zero_max _
  have hdepth : l.endLine.depth = depthAt before := hend.depth
  have hstarted : l.endLine.lineOpen → False := by simp [lineOpen_endLine]
  cases c with
  | write content => exact h.write content
  | line content =>
    have hline := (h.write content).endLine
    refine ⟨hline.depth, hline.lineOpen, hline.isFirst, ?_, ?_, hline.started⟩
    · refine hline.blanks.trans ?_
      rw [wishedAt_cons, wishedAt_cons, wishedAt_cons]
      exact Nat.zero_max _
    · refine hline.start.trans ?_
      rw [blockStartAt_cons, blockStartAt_cons, blockStartAt_cons]
      simp [Call.isQuiet]
  | endLine => exact hend
  | gap =>
    refine ⟨hdepth, hend.lineOpen, hend.isFirst, ?_, hend.start, fun ho => (hstarted ho).elim⟩
    rw [wishedAt_cons, ← hblanks]
    exact Nat.max_comm ..
  | majorGap =>
    refine ⟨hdepth, hend.lineOpen, hend.isFirst, ?_, hend.start, fun ho => (hstarted ho).elim⟩
    rw [wishedAt_cons, ← hblanks, ← hdepth]
    exact Nat.max_comm ..
  | openBlock =>
    exact ⟨congrArg (· + 1) hdepth, hend.lineOpen, hend.isFirst, rfl, rfl,
      fun ho => (hstarted ho).elim⟩
  | closeBlock =>
    exact ⟨congrArg (· - 1) hdepth, hend.lineOpen, hend.isFirst, rfl, rfl,
      fun ho => (hstarted ho).elim⟩

/-- A call writes its content, and ends the line unless it is a write. -/
theorem text_apply (l : Layout) (c : Call) :
    (l.apply c).text = (if c.endsLine then (l.write c.content).endLine else l.write c.content).text ∧
    (l.apply c).lineOpen = (!c.endsLine && (l.write c.content).lineOpen) := by
  cases c <;> simp [apply, Call.endsLine, Call.content, line, gap, majorGap, openBlock, closeBlock,
    lineOpen_endLine] <;> rfl

/-! ## Many calls -/

theorem endLines_row (before : List Call) (contents : List String) :
    endLines (Row.lines ⟨blanksAt before, depthAt before, contents⟩) =
      opening before ++ (String.join contents ++ "\n") := by
  rw [Row.lines, endLines_append, endLines_blanks, opening, replicate_indent]
  simp [endLines, Row.text, String.append_assoc]

/-- What is written from a place on: the rest of the line that is open, and the rows. -/
theorem Follows.finish_run (h : l.Follows before) (calls : List Call) :
    (l.run calls).finish =
      l.text ++ (if l.lineOpen then String.join (sameLine calls) ++ "\n" else "") ++
        endLines ((rows before calls).flatMap Row.lines) := by
  induction calls generalizing l before with
  | nil =>
    show l.endLine.text = _
    rw [Layout.endLine]
    split <;> simp [sameLine, rows, endLines]
  | cons c rest ih =>
    obtain ⟨htext, hopen⟩ := l.text_apply c
    rw [show l.run (c :: rest) = (l.apply c).run rest from rfl, ih (h.apply c), htext, hopen, rows]
    by_cases hcontent : c.content = ""
    · rw [if_pos (Or.inl hcontent), sameLine, hcontent, show l.write "" = l from rfl, Layout.endLine]
      cases c.endsLine <;> cases l.lineOpen <;> simp
    · rw [h.write_eq hcontent, Layout.endLine]
      by_cases ho : l.lineOpen
      · rw [if_pos (Or.inr (h.lineOpen ▸ ho)), sameLine]
        cases c.endsLine <;> simp [ho, String.append_assoc]
      · have hstarts : ¬ (c.content = "" ∨ lineOpenAt before) := by simp [← h.lineOpen, ho, hcontent]
        rw [if_neg hstarts, List.flatMap_cons, endLines_append, endLines_row, sameLine]
        cases c.endsLine <;> simp [ho, String.append_assoc]

/-- The finished text is that of the rows, each line with an end. If no content has one of its own,
these are the lines of the text; those of the rows are not blank, so there are at most two blank lines
in a row, and one inside a block. -/
theorem finish_eq_rows (calls : List Call) (hplain : ∀ c ∈ calls, '\n' ∉ c.content.toList) :
    (empty.run calls).finish = endLines ((rows [] calls).flatMap Row.lines) ∧
    (∀ line ∈ (rows [] calls).flatMap Row.lines, '\n' ∉ line.toList) ∧
    ∀ row ∈ rows [] calls, row.text ≠ "" ∧ row.blanks ≤ 2 ∧ (0 < row.depth → row.blanks ≤ 1) := by
  refine ⟨?_, fun line hline => ?_, fun row hrow => ?_⟩
  · rw [follows_empty.finish_run]
    rfl
  · obtain ⟨row, hrow, hline⟩ := List.mem_flatMap.1 hline
    obtain ⟨history, c, rest, hrest, -, rfl⟩ := of_mem_rows hrow
    rcases List.mem_append.1 hline with hblank | htext
    · rw [List.eq_of_mem_replicate hblank]
      simp
    · rw [List.mem_singleton.1 htext, Row.text]
      have hcontents : ∀ content ∈ sameLine (c :: rest), '\n' ∉ content.toList := by
        intro content hcontent
        obtain ⟨other, hother, rfl⟩ := mem_sameLine hcontent
        exact hplain other (hrest.subset hother)
      simpa [List.mem_replicate] using hcontents
  · obtain ⟨history, c, rest, -, hcontent, rfl⟩ := of_mem_rows hrow
    refine ⟨?_, ?_⟩
    · intro hempty
      have hlist := congrArg String.toList hempty
      simp [Row.text, sameLine] at hlist
      exact hcontent hlist.2.1
    · have hle := wishedAt_le history
      simp only [blanksAt]
      split <;> grind

/-- A block with an empty write, a wish that its opening cancels and one too many ends. -/
def sampleCalls : List Call :=
  [.majorGap, .write "if a", .write ":", .gap, .openBlock, .gap, .write "", .line "b", .gap,
    .majorGap, .line "c", .closeBlock, .closeBlock, .majorGap, .write "d"]

theorem finish_eq_rows_sampleCalls :
    (empty.run sampleCalls).finish = "if a:\n    b\n\n    c\n\n\nd\n" ∧
    ∀ row ∈ rows [] sampleCalls, row.text ≠ "" ∧ row.blanks ≤ 2 ∧ (0 < row.depth → row.blanks ≤ 1) :=
  have h := finish_eq_rows sampleCalls (by decide)
  ⟨h.1.trans (by decide), h.2.2⟩

end Layout

end Serpentine.Script

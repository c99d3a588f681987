import Serpentine.Proofs.Macro.Marks
import Serpentine.Proofs.Token.Shape

/-!
# Lines and directives

Continued lines, comments, directives and macros leave each line of a text in its place: the text
after its directives has as many lines as the text before, and a fault names one of them
(**`run_lineNumbers`**).
-/

namespace Serpentine.Macro

/-! ## Continued lines and comments -/

/-- Each carriage return is followed by a newline. -/
def returnsPaired : List Char → Bool
  | [] => true
  | c :: rest => (c != '\r' || rest.head? == some '\n') && returnsPaired rest

/-- The text starts with a backslash and a carriage return that no newline follows. -/
def continuesAlone : List Char → Bool
  | '\\' :: '\r' :: rest => rest.head? != some '\n'
  | _ => false

/-- How many lines are continued by a carriage return alone. -/
def loneReturns (cs : List Char) : Nat :=
  cs.tails.countP continuesAlone

theorem loneReturns_cons (c : Char) (cs : List Char) :
    loneReturns (c :: cs) = loneReturns cs + if continuesAlone (c :: cs) then 1 else 0 := by
  rw [loneReturns, List.tails, List.countP_cons, loneReturns]

theorem loneReturns_eq_zero {cs : List Char} (h : returnsPaired cs = true) :
    loneReturns cs = 0 := by
  induction cs with
  | nil => rfl
  | cons c cs ih =>
    rw [returnsPaired, Bool.and_eq_true] at h
    have halone : continuesAlone (c :: cs) = false := by
      unfold continuesAlone
      split
      · next rest heq =>
        obtain ⟨-, rfl⟩ := List.cons.inj heq
        have hnewline : (rest.head? == some '\n') = true := by
          simp only [returnsPaired, Bool.and_eq_true] at h
          exact h.2.1
        rw [bne, hnewline]
        rfl
      · rfl
    rw [loneReturns_cons, ih h.2, halone]
    rfl

/-- A carriage return alone that continues a line is counted as the end of one. -/
theorem count_spliceFrom (owed : Nat) (cs : List Char) :
    (spliceFrom owed cs).count '\n' = owed + cs.count '\n' + loneReturns cs := by
  fun_induction spliceFrom owed cs with
  | case1 owed => simp [loneReturns, continuesAlone]
  | case2 owed cs ih =>
    simp [ih, loneReturns_cons, continuesAlone]
    omega
  | case3 owed cs ih =>
    simp [ih, loneReturns_cons, continuesAlone]
    omega
  | case4 owed cs hne ih =>
    have halone : (cs.head? != some '\n') = true := by
      rw [bne_iff_ne]
      intro hnewline
      obtain ⟨rest, hrest⟩ := List.head?_eq_some_iff.1 hnewline
      exact hne rest hrest
    simp [ih, loneReturns_cons, continuesAlone, halone]
    omega
  | case5 owed cs ih => simp [ih, loneReturns_cons, continuesAlone]
  | case6 owed cs ih =>
    simp [ih, loneReturns_cons, continuesAlone]
    omega
  | case7 owed c cs _ _ hreturned _ hc ih =>
    have hne : (c == '\n') = false := by simpa using hc
    have halone : continuesAlone (c :: cs) = false := by
      unfold continuesAlone
      split
      · next rest heq =>
        obtain ⟨hslash, hrest⟩ := List.cons.inj heq
        exact absurd hrest (hreturned rest hslash)
      · rfl
    simp [List.count_cons, hne, ih, loneReturns_cons, halone]

theorem count_splice (cs : List Char) :
    (splice cs).count '\n' = cs.count '\n' + loneReturns cs := by
  rw [splice, count_spliceFrom, Nat.zero_add]

theorem count_stripComments (cs : List Char) : (stripComments cs).count '\n' = cs.count '\n' := by
  rw [stripComments]
  generalize CommentState.code false = state
  fun_induction stripFrom state cs with
  | case1 => rfl
  | case2 | case3 | case4 | case5 | case6 | case7 | case8 | case9 | case10 => simp_all
  | case11 | case12 => simp_all [List.count_cons]

/-! ## Lines -/

theorem length_lines (cs : List Char) : (lines cs).length = cs.count '\n' + 1 := by
  fun_induction lines cs with
  | case1 => rfl
  | case2 => simp_all
  | case3 => simp_all
  | case4 => simp_all

theorem newline_notMem_lines {cs line : List Char} (h : line ∈ lines cs) : '\n' ∉ line := by
  fun_induction lines cs generalizing line with
  | case1 => simp_all
  | case2 c cs hc ih =>
    obtain rfl | h := List.mem_cons.1 h
    · exact List.not_mem_nil
    · exact ih h
  | case3 c cs hc hnil ih =>
    rw [List.mem_singleton.1 h, List.mem_singleton]
    exact fun hnewline => hc (beq_iff_eq.2 hnewline.symm)
  | case4 c cs hc first rest hlines ih =>
    rw [hlines] at ih
    obtain rfl | h := List.mem_cons.1 h
    · rw [List.mem_cons, not_or]
      exact ⟨fun hnewline => hc (beq_iff_eq.2 hnewline.symm), ih List.mem_cons_self⟩
    · exact ih (List.mem_cons_of_mem _ h)

theorem count_unlines {outs : List (List Char)} (h : ∀ out ∈ outs, '\n' ∉ out) :
    (unlines outs).count '\n' = outs.length - 1 := by
  fun_induction unlines outs with
  | case1 => rfl
  | case2 out => exact List.count_eq_zero.2 (h out List.mem_cons_self)
  | case3 out rest hrest ih =>
    rw [List.count_append, List.count_eq_zero.2 (h out List.mem_cons_self), List.count_cons_self,
      ih fun o ho => h o (List.mem_cons_of_mem _ ho)]
    have hpos : rest.length ≠ 0 := fun hnil => hrest (List.length_eq_zero_iff.1 hnil)
    simp only [List.length_cons]
    omega

theorem mem_of_mem_trim {c : Char} {cs : List Char} (h : c ∈ trim cs) : c ∈ cs := by
  rw [trim, trimEnd, List.mem_reverse] at h
  have hstart := (List.dropWhile_sublist _).mem h
  exact (List.dropWhile_sublist _).mem (List.mem_reverse.1 hstart)

/-! ## Macros -/

theorem lookup_of_filter {name other text : String} {entries : List (String × String)}
    (h : (entries.filter (·.1 != name)).lookup other = some text) :
    entries.lookup other = some text := by
  have hother : other ≠ name := by simpa using (List.mem_filter.1 (mem_of_lookup h)).2
  rwa [lookup_filter_ne hother] at h

namespace Table

/-- No macro stands for a text with a newline. -/
def InLine (t : Table) : Prop :=
  ∀ name text, t.text? name = some text → IsOneLine text

/-- What a directive with a text behind it can do to the macros. -/
inductive Edited (rest : List Char) (t : Table) : Table → Prop
  | kept : Edited rest t t
  | undefined (name : String) : Edited rest t (t.undefine name)
  | function (name : String) : Edited rest t (t.defineFunction name)
  | defined (name : String) (n : Nat) :
    Edited rest t (t.define name (String.ofList (trim (rest.drop n))))

variable {t t' : Table}

theorem InLine.ofTexts {texts : List (String × String)} (h : ∀ entry ∈ texts, IsOneLine entry.2) :
    (ofTexts texts).InLine := by
  intro name text htext
  exact h (name, text) (List.mem_reverse.1 (mem_of_lookup htext))

theorem InLine.edited {rest : List Char} (ht : t.InLine) (h : Edited rest t t')
    (hrest : '\n' ∉ rest) : t'.InLine := by
  intro name text htext
  cases h with
  | kept => exact ht name text htext
  | undefined other => exact ht name text (lookup_of_filter htext)
  | function other => exact ht name text htext
  | defined other n =>
    rw [text?, define, List.lookup_cons] at htext
    split at htext
    · cases htext
      rw [IsOneLine, String.toList_ofList]
      exact fun hmem => hrest (List.mem_of_mem_drop (mem_of_mem_trim hmem))
    · exact ht name text (lookup_of_filter htext)

end Table

theorem mem_of_mem_consRun {isWord : Bool} {c x : Char} {rs : List Run} {r : Run}
    (hr : r ∈ consRun isWord c rs) (hx : x ∈ r.text) : x = c ∨ ∃ r' ∈ rs, x ∈ r'.text := by
  cases rs with
  | nil => simp_all [consRun]
  | cons first rest =>
    rw [consRun] at hr
    split at hr <;> grind

variable {line : List Char}

theorem mem_of_mem_runsFrom {s : LineState} {r : Run} {x : Char} (hr : r ∈ runsFrom s line)
    (hx : x ∈ r.text) : x ∈ line := by
  induction line generalizing s r with
  | nil => simp [runsFrom] at hr
  | cons c cs ih =>
    obtain rfl | ⟨r', hr', hx'⟩ := mem_of_mem_consRun hr hx
    · exact List.mem_cons_self
    · exact List.mem_cons_of_mem _ (ih hr' hx')

theorem Table.InLine.expandWithin {t : Table} (ht : t.InLine) (depth : Nat) (active : List String)
    (hline : '\n' ∉ line) : '\n' ∉ t.expandWithin depth active line := by
  induction depth generalizing active line with
  | zero => exact hline
  | succ depth ih =>
    rw [Table.expandWithin, List.mem_flatMap]
    rintro ⟨r, hr, hmem⟩
    dsimp only at hmem
    split at hmem
    · exact hline (mem_of_mem_runsFrom hr hmem)
    case h_2 text htext =>
      refine ih _ (ht (String.ofList r.text) text ?_) hmem
      split at htext
      · exact htext
      · cases htext

theorem Table.InLine.expand {t : Table} (ht : t.InLine) (hline : '\n' ∉ line) :
    '\n' ∉ t.expand line :=
  ht.expandWithin maxDepth [] hline

/-! ## Directives -/

/-- The text that a line may keep or give to a macro. -/
def Mark.body : Mark → List Char
  | .text line => line
  | .plain _ rest => rest
  | _ => []

theorem mem_of_mem_directiveText {line text : List Char} {c : Char}
    (h : directiveText? line = some text) (hc : c ∈ text) : c ∈ line := by
  rw [directiveText?] at h
  split at h
  case h_1 cs hcs =>
    cases h
    have hstart : c ∈ trimStart line := hcs ▸ List.mem_cons_of_mem _ (mem_of_mem_trim hc)
    exact (List.dropWhile_sublist _).mem hstart
  case h_2 => cases h

theorem mem_of_mem_body {c : Char} (h : c ∈ (markOf line).body) : c ∈ line := by
  rw [markOf] at h
  split at h
  case h_1 => exact h
  case h_2 text htext =>
    refine mem_of_mem_directiveText htext ?_
    unfold directiveMark at h
    split at h
    case h_7 => exact (List.dropWhile_sublist _).mem (mem_of_mem_trim h)
    all_goals cases h

namespace Progress

variable {p q : Progress} {place : Position} {rest : List Char}

theorem edited_plainDirective {name : String} (h : p.plainDirective place name rest = .ok q) :
    p.table.Edited rest q.table := by
  unfold plainDirective at h
  split at h
  · rw [define] at h
    cases hname : neededName "define" rest with
    | error cause => rw [hname] at h; cases h
    | ok name =>
      simp only [hname, bind, Except.bind, pure, Except.pure] at h
      split at h <;> cases h
      · exact .function name
      · exact .defined name name.length
  · cases hname : neededName "undef" rest with
    | error cause => rw [hname] at h; cases h
    | ok name =>
      rw [hname] at h
      cases h
      exact .undefined name
  all_goals first | cases h; exact .kept | cases h

theorem Passes.inLine {m : Mark} {out : List Char} (h : p.Passes place m out q)
    (hp : p.table.InLine) (hm : '\n' ∉ m.body) : q.table.InLine ∧ '\n' ∉ out := by
  cases h with
  | text line =>
    refine ⟨hp, ?_⟩
    split
    · exact hp.expand hm
    · exact List.not_mem_nil
  | obeyed hactive hdirective =>
    exact ⟨hp.edited (edited_plainDirective hdirective) hm, List.not_mem_nil⟩
  -- the other directives leave the macros alone
  | skipped | opened | turned | last | closed => exact ⟨hp, List.not_mem_nil⟩

theorem runLines_inLine {file : String} {n : Nat} {source : List (List Char)}
    (hp : p.table.InLine) (hsource : ∀ line ∈ source, '\n' ∉ line) :
    (p.runLines file n source).2.table.InLine ∧
      ∀ outs, (p.runLines file n source).1 = .ok outs →
        outs.length = source.length ∧ ∀ out ∈ outs, '\n' ∉ out := by
  induction source generalizing p n with
  | nil => exact ⟨hp, by rintro outs ⟨⟩; simp⟩
  | cons line rest ih =>
    rw [runLines]
    cases hline : p.line ⟨file, n, none⟩ line with
    | error cause => exact ⟨hp, by rintro outs ⟨⟩⟩
    | ok step =>
      obtain ⟨out, q⟩ := step
      have hbody : '\n' ∉ (markOf line).body :=
        fun hmem => hsource line List.mem_cons_self (mem_of_mem_body hmem)
      obtain ⟨hq, hout⟩ := (passes_of_mark (p.line_eq_mark _ line ▸ hline)).inLine hp hbody
      obtain ⟨htable, houts⟩ := ih (n := n + 1) hq fun l hl => hsource l (List.mem_cons_of_mem _ hl)
      dsimp only
      cases hrest : q.runLines file (n + 1) rest with
      | mk result q' =>
        rw [hrest] at htable houts
        cases result with
        | error fault => exact ⟨htable, by rintro outs ⟨⟩⟩
        | ok more =>
          obtain ⟨hlength, hmore⟩ := houts more rfl
          refine ⟨htable, ?_⟩
          rintro outs ⟨⟩
          refine ⟨by simp [hlength], ?_⟩
          intro o ho
          obtain rfl | ho := List.mem_cons.1 ho
          · exact hout
          · exact hmore o ho

end Progress

/-- The lines, continued ones joined and without comments. -/
def sourceLines (text : String) : List (List Char) :=
  lines (stripComments (splice text.toList))

/-- A run of lines that fails has run all lines in front of one that is refused. -/
theorem runLines_error {file : String} {p q : Progress} {n : Nat} {source : List (List Char)}
    {fault : Fault} (h : p.runLines file n source = (.error fault, q)) :
    ∃ before line after outs cause, source = before ++ line :: after ∧
      p.runLines file n before = (.ok outs, q) ∧
      q.line ⟨file, n + before.length, none⟩ line = .error cause ∧
      fault = .directive cause ⟨file, n + before.length, none⟩ := by
  induction source generalizing p n with
  | nil => cases h
  | cons line rest ih =>
    rw [Progress.runLines] at h
    cases hline : p.line ⟨file, n, none⟩ line with
    | error cause =>
      rw [hline] at h
      cases h
      exact ⟨[], line, rest, [], cause, rfl, rfl, hline, rfl⟩
    | ok step =>
      obtain ⟨out, p'⟩ := step
      rw [hline] at h
      dsimp only at h
      cases hrest : p'.runLines file (n + 1) rest with
      | mk result q' =>
        rw [hrest] at h
        cases result with
        | ok outs => cases h
        | error fault' =>
          cases h
          obtain ⟨before, bad, after, outs, cause, rfl, hbefore, hbad, rfl⟩ := ih hrest
          have hplace : n + 1 + before.length = n + (line :: before).length := by
            rw [List.length_cons]
            omega
          rw [hplace] at hbad ⊢
          refine ⟨line :: before, bad, after, out :: outs, cause, rfl, ?_, hbad, rfl⟩
          rw [Progress.runLines, hline]
          dsimp only
          rw [hbefore]

/-! ## Texts -/

theorem length_sourceLines_eq (text : String) :
    (sourceLines text).length = text.toList.count '\n' + 1 + loneReturns text.toList := by
  rw [sourceLines, length_lines, count_stripComments, count_splice, Nat.add_right_comm]

theorem length_sourceLines {text : String} (h : returnsPaired text.toList = true) :
    (sourceLines text).length = text.toList.count '\n' + 1 := by
  rw [length_sourceLines_eq, loneReturns_eq_zero h, Nat.add_zero]

theorem runLines_sourceLines_inLine {table : Table} (ht : table.InLine) (file text : String) :
    let ran := Progress.runLines file ⟨table, [], []⟩ 1 (sourceLines text)
    ran.2.table.InLine ∧
      ∀ outs, ran.1 = .ok outs →
        outs.length = (sourceLines text).length ∧ ∀ out ∈ outs, '\n' ∉ out :=
  Progress.runLines_inLine ht fun _ => newline_notMem_lines

theorem table_run (table : Table) (file text : String) :
    (run table file text).table =
      (Progress.runLines file ⟨table, [], []⟩ 1 (sourceLines text)).2.table := by
  rw [run, sourceLines]
  split
  case h_1 heq => rw [heq]
  case h_2 heq =>
    rw [heq]
    split <;> rfl

/-- The macros behind some files, given as names and texts. -/
def tableAfter (table : Table) (files : List (String × String)) : Table :=
  files.foldl (fun t file => (run t file.1 file.2).table) table

theorem Table.InLine.tableAfter {table : Table} (ht : table.InLine)
    (files : List (String × String)) : (tableAfter table files).InLine := by
  induction files generalizing table with
  | nil => exact ht
  | cons file rest ih =>
    refine ih ?_
    change (run table file.1 file.2).table.InLine
    rw [table_run]
    exact (runLines_sourceLines_inLine ht file.1 file.2).1

/-- Lines keep their numbers: the text behind the directives has as many lines as the text, and a
fault is at one of them. This holds of any file, whatever files were read before it. -/
theorem run_lineNumbers {table : Table} (ht : table.InLine) (files : List (String × String))
    (file : String) {text : String} (hreturns : returnsPaired text.toList = true) :
    (∀ out, (run (tableAfter table files) file text).text = .ok out →
      out.toList.count '\n' = text.toList.count '\n') ∧
    ∀ fault, (run (tableAfter table files) file text).text = .error fault →
      ∃ place, fault.position? = some place ∧ 1 ≤ place.line ∧
        place.line ≤ text.toList.count '\n' + 1 := by
  have hlength := length_sourceLines hreturns
  obtain ⟨-, houts⟩ := runLines_sourceLines_inLine (ht.tableAfter files) file text
  rw [run, ← sourceLines]
  cases hran : Progress.runLines file ⟨tableAfter table files, [], []⟩ 1 (sourceLines text) with
  | mk result q =>
    rw [hran] at houts
    cases result with
    | error fault =>
      refine ⟨by rintro out ⟨⟩, ?_⟩
      rintro fault' ⟨⟩
      obtain ⟨before, line, after, -, cause, hsource, -, -, rfl⟩ := runLines_error hran
      refine ⟨⟨file, 1 + before.length, none⟩, rfl, Nat.le_add_right .., ?_⟩
      rw [← hlength, hsource, List.length_append, List.length_cons]
      dsimp only
      omega
    | ok outs =>
      obtain ⟨hsame, hinLine⟩ := houts outs rfl
      dsimp only
      split
      · refine ⟨?_, by rintro fault ⟨⟩⟩
        rintro out ⟨⟩
        rw [String.toList_ofList, count_unlines hinLine, hsame, hlength, Nat.add_sub_cancel]
      · -- an open group is reported at the last line
        refine ⟨by rintro out ⟨⟩, ?_⟩
        rintro fault ⟨⟩
        exact ⟨⟨file, (sourceLines text).length, none⟩, rfl, by dsimp only; omega, hlength.le⟩

theorem run_lineNumbers_twoFiles :
    let table := tableAfter (.ofTexts [("B", "2")]) [("a.h", "#define A B\n")]
    let text := "#ifdef A\r\nint x = \\\r\nA; /* \n */ int y;\n#endif\n"
    (run table "b.cc" text).text = .ok "\nint x = 2;  \n\n int y;\n\n" ∧
      "\nint x = 2;  \n\n int y;\n\n".toList.count '\n' = text.toList.count '\n' ∧
      ∀ fault, (run table "b.cc" "#if B\n").text = .error fault →
        ∃ place, fault.position? = some place ∧ 1 ≤ place.line ∧ place.line ≤ 2 := by
  have hvalues : (Table.ofTexts [("B", "2")]).InLine := .ofTexts (by decide)
  refine ⟨by rfl, ?_, ?_⟩
  · exact (run_lineNumbers hvalues [("a.h", "#define A B\n")] "b.cc" (by decide)).1 _ (by rfl)
  · exact (run_lineNumbers hvalues [("a.h", "#define A B\n")] "b.cc" (by decide)).2

end Serpentine.Macro

import Serpentine.Proofs.Macro.Groups
import Serpentine.Proofs.Token.Concatenation

/-!
# Directives of texts one below the other

A text is run line by line, and nothing but the macros is carried from one text to the next. So a
text below another one is run as it would be alone, with the macros that the first leaves, unless
the first ends inside a comment or with a line that is continued (**`run_append_newline`**).
-/

namespace Serpentine

/-! ## Further down -/

def Position.below (n : Nat) (p : Position) : Position :=
  { p with line := p.line + n }

/-- The fault in a text so many lines further down. -/
def Fault.below (n : Nat) : Fault → Fault
  | .scan file fault => .scan file (fault.below n)
  | .grammar cause place => .grammar cause (place.below n)
  | .destructors name place => .destructors name (place.below n)
  | .unresolved name missing place => .unresolved name missing (place.below n)
  | .directive cause place => .directive cause (place.below n)
  | .scope cause place => .scope cause (place.below n)
  | .unsupported construct place => .unsupported construct (place.below n)
  | .unknownModule path => .unknownModule path
  | .overflow => .overflow

namespace Macro

/-! ## Continued lines -/

/-- The last line goes on below. -/
def EndsContinued (cs : List Char) : Prop :=
  ['\\'] <:+ cs ∨ ['\\', '\r'] <:+ cs

instance (cs : List Char) : Decidable (EndsContinued cs) :=
  inferInstanceAs (Decidable (_ ∨ _))

variable {cs : List Char}

theorem EndsContinued.cons (c : Char) (h : EndsContinued cs) : EndsContinued (c :: cs) :=
  h.imp (·.trans (List.suffix_cons c cs)) (·.trans (List.suffix_cons c cs))

variable {c : Char}

theorem spliceFrom_cons (owed : Nat) (hreturn : c ≠ '\r') (hnewline : c ≠ '\n')
    (hnext : c = '\\' → cs.head? ≠ some '\n' ∧ cs.head? ≠ some '\r') :
    spliceFrom owed (c :: cs) = c :: spliceFrom owed cs := by
  rw [spliceFrom]
  · rintro rest rfl rfl
    exact (hnext rfl).1 rfl
  · rintro rest rfl rfl
    exact (hnext rfl).2 rfl
  · rintro rest rfl rfl
    exact (hnext rfl).2 rfl
  · exact hreturn
  · exact hnewline

theorem spliceFrom_append_newline (owed : Nat) {a : List Char} (ha : ¬EndsContinued a)
    (b : List Char) :
    spliceFrom owed (a ++ '\n' :: b) = spliceFrom owed a ++ '\n' :: spliceFrom 0 b := by
  fun_induction spliceFrom owed a with
  | case1 owed =>
    rw [List.nil_append, spliceFrom, ← List.cons_append, ← List.replicate_succ,
      List.replicate_succ', List.append_assoc]
    rfl
  | case2 owed cs ih => exact ih fun h => ha ((h.cons _).cons _)
  | case3 owed cs ih => exact ih fun h => ha (((h.cons _).cons _).cons _)
  | case4 owed cs hne ih =>
    cases cs with
    | nil => exact absurd (.inr (List.suffix_refl _)) ha
    | cons c cs =>
      have hc : c ≠ '\n' := fun h => hne cs (by rw [h])
      rw [← ih fun h => ha ((h.cons _).cons _)]
      simp [spliceFrom, hc]
  | case5 owed cs ih => exact ih fun h => ha (h.cons _)
  | case6 owed cs ih =>
    rw [List.cons_append, spliceFrom, ih fun h => ha (h.cons _), List.cons_append, List.append_assoc]
  | case7 owed c cs hjoined hjoinedReturn hreturned hreturn hnewline ih =>
    rw [List.cons_append, spliceFrom_cons owed hreturn hnewline, ih fun h => ha (h.cons _)]
    · rfl
    · rintro rfl
      cases cs with
      | nil => exact absurd (.inl (List.suffix_refl _)) ha
      | cons d cs =>
        refine ⟨?_, ?_⟩
        · rintro ⟨⟩
          exact hjoined cs rfl rfl
        · rintro ⟨⟩
          exact hreturned cs rfl rfl

/-! ## Comments -/

/-- Where the search for comments stands behind some characters. -/
def CommentState.past : CommentState → List Char → CommentState
  | state, [] => state
  | .line, c :: cs => past (if c == '\n' then .code false else .line) cs
  | .block, '*' :: '/' :: cs => past (.code false) cs
  | .block, _ :: cs => past .block cs
  | .literal quote escaped, c :: cs =>
    past (if c == '\n' then .code false else .inLiteral quote escaped c) cs
  | .code _, '/' :: '/' :: cs => past .line cs
  | .code _, '/' :: '*' :: cs => past .block cs
  | .code afterDigit, c :: cs =>
    past (if isQuote c && !(c == '\'' && afterDigit) then .literal c false else .code c.isDigit) cs

theorem stripFrom_newline {state : CommentState} (h : state ≠ .block) (cs : List Char) :
    stripFrom state ('\n' :: cs) = '\n' :: stripFrom (.code false) cs := by
  cases state with
  | block => exact absurd rfl h
  | line | literal | code => rfl

theorem stripFrom_block_cons (h : c = '*' → cs.head? ≠ some '/') :
    stripFrom .block (c :: cs) =
      if c == '\n' then c :: stripFrom .block cs else stripFrom .block cs := by
  rw [stripFrom]
  rintro rest rfl rfl
  exact h rfl rfl

theorem stripFrom_code_cons (afterDigit : Bool)
    (h : c = '/' → cs.head? ≠ some '/' ∧ cs.head? ≠ some '*') :
    stripFrom (.code afterDigit) (c :: cs) =
      if isQuote c && !(c == '\'' && afterDigit) then c :: stripFrom (.literal c false) cs
      else c :: stripFrom (.code c.isDigit) cs := by
  rw [stripFrom]
  · rintro rest rfl rfl
    exact (h rfl).1 rfl
  · rintro rest rfl rfl
    exact (h rfl).2 rfl

theorem head?_ne_of_ne_cons (h : ∀ rest, cs ≠ c :: rest) : cs.head? ≠ some c := by
  intro hhead
  obtain ⟨rest, hrest⟩ := List.head?_eq_some_iff.1 hhead
  exact h rest hrest

theorem head?_append_newline (hc : c ≠ '\n') {a : List Char} (ha : a.head? ≠ some c)
    (b : List Char) : (a ++ '\n' :: b).head? ≠ some c := by
  cases a with
  | nil => simpa using hc.symm
  | cons d a => exact ha

/-- Only a comment between marks reaches over the end of a line. -/
theorem stripFrom_append_newline (state : CommentState) {a : List Char}
    (ha : state.past a ≠ .block) (b : List Char) :
    stripFrom state (a ++ '\n' :: b) = stripFrom state a ++ '\n' :: stripFrom (.code false) b := by
  fun_induction CommentState.past state a with
  | case1 state =>
    rw [List.nil_append, stripFrom_newline ha]
    cases state <;> rfl
  | case2 c cs ih =>
    rw [List.cons_append, stripFrom, stripFrom]
    split
    · next hc =>
      rw [if_pos hc] at ih ha
      rw [ih ha]
      rfl
    · next hc =>
      rw [if_neg hc] at ih ha
      rw [ih ha]
  | case3 cs ih => exact ih ha
  | case4 c cs hmark ih =>
    have hnext (h : c = '*') : cs.head? ≠ some '/' := head?_ne_of_ne_cons fun rest => hmark rest h
    rw [List.cons_append, stripFrom_block_cons hnext,
      stripFrom_block_cons fun h => head?_append_newline (by decide) (hnext h) b, ih ha]
    split <;> rfl
  | case5 quote escaped c cs ih =>
    rw [List.cons_append, stripFrom, stripFrom]
    split_ifs at ih ha ⊢
    all_goals
      rw [ih ha]
      rfl
  | case6 _ cs ih => exact ih ha
  | case7 _ cs ih => exact congrArg (' ' :: ·) (ih ha)
  | case8 afterDigit c cs hline hblock ih =>
    have hnext (h : c = '/') : cs.head? ≠ some '/' ∧ cs.head? ≠ some '*' :=
      ⟨head?_ne_of_ne_cons fun rest => hline rest h, head?_ne_of_ne_cons fun rest => hblock rest h⟩
    rw [List.cons_append, stripFrom_code_cons _ hnext, stripFrom_code_cons _ fun h =>
      ⟨head?_append_newline (by decide) (hnext h).1 b, head?_append_newline (by decide) (hnext h).2 b⟩]
    split_ifs at ih ha ⊢
    all_goals
      rw [ih ha]
      rfl

/-! ## Lines -/

theorem lines_ne_nil (cs : List Char) : lines cs ≠ [] :=
  List.ne_nil_of_length_pos (by rw [length_lines]; exact Nat.succ_pos _)

theorem lines_append_newline (a b : List Char) : lines (a ++ '\n' :: b) = lines a ++ lines b := by
  induction a with
  | nil => rfl
  | cons c a ih =>
    obtain ⟨line, rest, hlines⟩ := List.exists_cons_of_ne_nil (lines_ne_nil a)
    rw [hlines] at ih
    rw [List.cons_append, lines, lines, ih, hlines]
    split <;> rfl

theorem unlines_append {first second : List (List Char)} (hfirst : first ≠ [])
    (hsecond : second ≠ []) : unlines (first ++ second) = unlines first ++ '\n' :: unlines second := by
  fun_induction unlines first with
  | case1 => exact absurd rfl hfirst
  | case2 line =>
    obtain ⟨next, rest, rfl⟩ := List.exists_cons_of_ne_nil hsecond
    rfl
  | case3 line rest hrest ih =>
    have happend : rest ++ second ≠ [] := List.append_ne_nil_of_left_ne_nil hrest second
    rw [List.cons_append, unlines, ih hrest, List.append_assoc, List.cons_append]
    exact happend

/-- The text ends inside a comment. -/
def EndsInComment (text : String) : Prop :=
  (CommentState.code false).past (splice text.toList) = .block

instance (text : String) : Decidable (EndsInComment text) :=
  inferInstanceAs (Decidable (_ = _))

theorem sourceLines_append_newline {a : String} (hcomment : ¬EndsInComment a)
    (hcontinued : ¬EndsContinued a.toList) (b : String) :
    sourceLines (a ++ "\n" ++ b) = sourceLines a ++ sourceLines b := by
  have htext : (a ++ "\n" ++ b).toList = a.toList ++ '\n' :: b.toList := by simp
  have hsplice : splice (a ++ "\n" ++ b).toList = splice a.toList ++ '\n' :: splice b.toList := by
    rw [htext]
    exact spliceFrom_append_newline 0 hcontinued b.toList
  rw [sourceLines, hsplice, stripComments, stripFrom_append_newline _ hcomment, lines_append_newline]
  rfl

/-! ## Runs -/

variable {outs : List (List Char)}

namespace Progress

/-- The macros and groups, without the warnings. -/
def bare (p : Progress) : Progress :=
  { p with warnings := [] }

theorem plainDirective_bare (p : Progress) (place place' : Position) (name : String)
    (rest : List Char) :
    (p.plainDirective place name rest).map bare = (p.bare.plainDirective place' name rest).map bare := by
  unfold plainDirective
  split
  · rw [define, define]
    cases neededName "define" rest with
    | error cause => rfl
    | ok name =>
      simp only [bind, Except.bind, pure, Except.pure]
      split <;> rfl
  · cases neededName "undef" rest <;> rfl
  all_goals rfl

theorem elif_bare (p : Progress) (rest : List Char) :
    (p.elif rest).map bare = (p.bare.elif rest).map bare := by
  rw [Progress.elif, Progress.elif, show p.bare.groups = p.groups from rfl]
  cases p.groups with
  | nil => rfl
  | cons g groups =>
    dsimp only
    split
    · rfl
    · rw [show p.bare.holds rest = p.holds rest from rfl]
      split
      · cases p.holds rest <;> rfl
      · rfl

theorem otherwise_bare (p : Progress) : p.otherwise.map bare = p.bare.otherwise.map bare := by
  rw [Progress.otherwise, Progress.otherwise, show p.bare.groups = p.groups from rfl]
  cases p.groups with
  | nil => rfl
  | cons g groups =>
    dsimp only
    split <;> rfl

theorem mark_bare (p : Progress) (place place' : Position) (m : Mark) :
    (p.mark place m).map (Prod.map id bare) = (p.bare.mark place' m).map (Prod.map id bare) := by
  have hempty (step : Except DirectiveCause Progress) :
      (do let q ← step; return (([] : List Char), q)).map (Prod.map id bare) =
        (step.map bare).map ([], ·) := by
    cases step <;> rfl
  cases m with
  | text line => rfl
  | plain name rest =>
    rw [mark, mark, show p.bare.active = p.active from rfl]
    split
    · exact (hempty _).trans (Eq.trans (by rw [p.plainDirective_bare place place']) (hempty _).symm)
    · rfl
  | opening o =>
    rw [mark, mark, show p.bare.active = p.active from rfl, show p.bare.table = p.table from rfl]
    split
    · cases o.chosen p.table <;> rfl
    · rfl
  | elif rest => rw [mark, mark, hempty, hempty, elif_bare]
  | otherwise => rw [mark, mark, hempty, hempty, otherwise_bare]
  | closing =>
    rw [mark, mark, show p.bare.groups = p.groups from rfl]
    cases p.groups <;> rfl

variable {file : String} {p q : Progress} {n : Nat} {marks : List Mark}

/-- **Where lines stand is seen in faults and warnings only.** -/
theorem runMarks_below (k : Nat) (h : p.bare = q.bare) :
    (q.runMarks file (n + k) marks).1 = (p.runMarks file n marks).1.mapError (Fault.below k) ∧
      (q.runMarks file (n + k) marks).2.bare = (p.runMarks file n marks).2.bare := by
  induction marks generalizing p q n with
  | nil => exact ⟨rfl, h.symm⟩
  | cons m rest ih =>
    have hmark : (p.mark ⟨file, n, none⟩ m).map (Prod.map id bare) =
        (q.mark ⟨file, n + k, none⟩ m).map (Prod.map id bare) := by
      rw [p.mark_bare _ ⟨file, n + k, none⟩, h, ← q.mark_bare ⟨file, n + k, none⟩]
    cases hp : p.mark ⟨file, n, none⟩ m with
    | error cause =>
      cases hq : q.mark ⟨file, n + k, none⟩ m with
      | ok step =>
        rw [hp, hq] at hmark
        cases hmark
      | error cause' =>
        rw [hp, hq] at hmark
        cases hmark
        rw [runMarks_cons_error hp, runMarks_cons_error hq]
        exact ⟨rfl, h.symm⟩
    | ok step =>
      cases hq : q.mark ⟨file, n + k, none⟩ m with
      | error cause =>
        rw [hp, hq] at hmark
        cases hmark
      | ok step' =>
        obtain ⟨out, p'⟩ := step
        obtain ⟨out', q'⟩ := step'
        rw [hp, hq] at hmark
        obtain ⟨rfl, hbare⟩ := Prod.mk.inj (Except.ok.inj hmark)
        obtain ⟨hresult, hleft⟩ := ih (n := n + 1) hbare
        rw [runMarks_cons_ok hp, runMarks_cons_ok hq]
        dsimp only [Result.andThen]
        rw [Nat.add_right_comm n k 1, hresult]
        refine ⟨?_, hleft⟩
        cases (p'.runMarks file (n + 1) rest).1 <;> rfl

theorem length_of_runMarks (h : (p.runMarks file n marks).1 = .ok outs) :
    outs.length = marks.length := by
  induction marks generalizing p n outs with
  | nil =>
    cases h
    rfl
  | cons m rest ih =>
    cases hmark : p.mark ⟨file, n, none⟩ m with
    | error cause =>
      rw [runMarks_cons_error hmark] at h
      cases h
    | ok step =>
      obtain ⟨out, q⟩ := step
      rw [runMarks_cons_ok hmark] at h
      dsimp only [Result.andThen] at h
      cases hrest : (q.runMarks file (n + 1) rest).1 with
      | error fault =>
        rw [hrest] at h
        cases h
      | ok more =>
        rw [hrest] at h
        cases h
        rw [List.length_append, ih hrest, List.length_cons]
        exact Nat.add_comm ..

end Progress

/-- What a run of so many lines leaves. -/
def Result.outcome (file : String) (count : Nat) (r : Result Progress) : Outcome :=
  match r with
  | (.error fault, p) => ⟨.error fault, p.table, p.warnings⟩
  | (.ok outs, p) =>
    if p.groups.isEmpty then ⟨.ok (String.ofList (unlines outs)), p.table, p.warnings⟩
    else ⟨.error (.directive .unterminated ⟨file, count, none⟩), p.table, p.warnings⟩

theorem run_eq_outcome (table : Table) (file text : String) :
    run table file text = Result.outcome file (sourceLines text).length
      (Progress.runMarks file ⟨table, [], []⟩ 1 ((sourceLines text).map markOf)) := by
  rw [run, ← sourceLines, Progress.runLines_eq_runMarks]
  rfl

/-- A text that is not refused leaves no group open. -/
theorem outcome_eq_ok {file out : String} {count : Nat} {r : Result Progress}
    (h : (r.outcome file count).text = .ok out) :
    ∃ outs q, r = (.ok outs, q) ∧ q.groups = [] ∧ q.table = (r.outcome file count).table ∧
      out = String.ofList (unlines outs) := by
  obtain ⟨result, q⟩ := r
  cases result with
  | error fault => cases h
  | ok outs =>
    rw [Result.outcome] at h ⊢
    split at h
    · next hgroups =>
      cases h
      exact ⟨outs, q, rfl, List.isEmpty_iff.1 hgroups, by rw [if_pos hgroups], rfl⟩
    · cases h

theorem Progress.ne_nil_of_runMarks {file : String} {p : Progress} {n : Nat} {text : String}
    (h : (p.runMarks file n ((sourceLines text).map markOf)).1 = .ok outs) : outs ≠ [] := by
  have hlength := length_of_runMarks h
  have hlines : 0 < (sourceLines text).length := List.length_pos_iff.2 (lines_ne_nil _)
  rw [List.length_map] at hlength
  exact List.length_pos_iff.1 (hlength ▸ hlines)

theorem outcome_andThen {file : String} {count k : Nat} {r r' : Result Progress}
    (hresult : r'.1 = r.1.mapError (Fault.below k)) (hbare : r'.2.bare = r.2.bare)
    (houts : outs ≠ []) (hmore : ∀ more, r.1 = .ok more → more ≠ []) (q : Progress) :
    let whole := (Result.andThen (.ok outs, q) fun _ => r').outcome file (k + count)
    whole.table = (r.outcome file count).table ∧
      whole.text = ((r.outcome file count).text.map
        (String.ofList (unlines outs) ++ "\n" ++ ·)).mapError (Fault.below k) := by
  intro whole
  obtain ⟨result, p⟩ := r
  obtain ⟨result', p'⟩ := r'
  dsimp only at hresult hbare hmore
  subst hresult
  have htable : p'.bare.table = p.bare.table := congrArg Progress.table hbare
  have hgroups : p'.bare.groups = p.bare.groups := congrArg Progress.groups hbare
  change p'.table = p.table at htable
  change p'.groups = p.groups at hgroups
  cases result with
  | error fault => exact ⟨htable, rfl⟩
  | ok more =>
    have hwhole : whole = Result.outcome file (k + count) (.ok (outs ++ more), p') := rfl
    rw [hwhole, Result.outcome, Result.outcome, hgroups]
    split
    · refine ⟨htable, ?_⟩
      rw [unlines_append houts (hmore more rfl)]
      simp [Except.map, Except.mapError, String.ext_iff]
    · refine ⟨htable, ?_⟩
      rw [Nat.add_comm]
      rfl

/-- **Texts one below the other** are run one after the other. If the first is not refused and its
last line does not go on below, the second is run with the macros that the first leaves: both leave
the same macros, what is written is written on lines below the first, and what is refused is refused
for the same cause, as many lines further down as the first has. A return that continues a line
without being followed by a line feed counts as a line. -/
theorem run_append_newline {table : Table} {file a first : String}
    (hfirst : (run table file a).text = .ok first) (hcomment : ¬EndsInComment a)
    (hcontinued : ¬EndsContinued a.toList) (b : String) :
    let second := run (run table file a).table file b
    let whole := run table file (a ++ "\n" ++ b)
    whole.table = second.table ∧
      whole.text = (second.text.map (first ++ "\n" ++ ·)).mapError
        (Fault.below (a.toList.count '\n' + 1 + loneReturns a.toList)) := by
  intro second whole
  rw [run_eq_outcome] at hfirst
  obtain ⟨outs, q, hran, hgroups, htable, rfl⟩ := outcome_eq_ok hfirst
  rw [← run_eq_outcome] at htable
  have hsecond : second = Result.outcome file (sourceLines b).length
      (Progress.runMarks file ⟨q.table, [], []⟩ 1 ((sourceLines b).map markOf)) := by
    rw [htable]
    exact run_eq_outcome ..
  have hwhole : whole = Result.outcome file ((sourceLines a).length + (sourceLines b).length)
      (Result.andThen (.ok outs, q) fun _ =>
        q.runMarks file (1 + (sourceLines a).length) ((sourceLines b).map markOf)) := by
    show run table file (a ++ "\n" ++ b) = _
    rw [run_eq_outcome, sourceLines_append_newline hcomment hcontinued, List.length_append,
      List.map_append, Progress.runMarks_append, hran, List.length_map]
    rfl
  -- The open groups of the first text are none, so the second starts as it would alone.
  have hbare : (⟨q.table, [], []⟩ : Progress).bare = q.bare := by
    rw [Progress.bare, Progress.bare, hgroups]
  obtain ⟨hresult, hleft⟩ := Progress.runMarks_below (sourceLines a).length hbare
  rw [hwhole, hsecond, ← length_sourceLines_eq]
  refine outcome_andThen hresult hleft ?_ (fun _ => Progress.ne_nil_of_runMarks) q
  exact Progress.ne_nil_of_runMarks (congrArg Prod.fst hran)

theorem run_append_newline_continued :
    let a := "#define A 2 // two\nint x = \\\r\nA;"
    (run ⟨[], []⟩ "a.cc" a).text = .ok "\nint x = 2;\n" ∧
      (run ⟨[], []⟩ "a.cc" (a ++ "\n" ++ "A")).text = .ok "\nint x = 2;\n\n2" ∧
      (run ⟨[], []⟩ "a.cc" (a ++ "\n" ++ "\n#error B")).text =
        .error (Fault.below 3 (.directive (.raised "B") ⟨"a.cc", 2, none⟩)) := by
  have hfirst : (run ⟨[], []⟩ "a.cc" "#define A 2 // two\nint x = \\\r\nA;").text =
      .ok "\nint x = 2;\n" := by rfl
  refine ⟨hfirst, ?_, ?_⟩
  · exact (run_append_newline hfirst (by decide) (by decide) "A").2
  · exact (run_append_newline hfirst (by decide) (by decide) "\n#error B").2

/-- A return that continues a line and is not followed by a line feed is no line end of the text,
but what stands below is a line further down for it. -/
theorem run_below_loneReturn :
    let a := "x\\\ry"
    (run ⟨[], []⟩ "a.cc" a).text = .ok "xy\n" ∧ ¬EndsInComment a ∧ ¬EndsContinued a.toList ∧
      a.toList.count '\n' = 0 ∧
      (run ⟨[], []⟩ "a.cc" "#error z").text =
        .error (.directive (.raised "z") ⟨"a.cc", 1, none⟩) ∧
      (run ⟨[], []⟩ "a.cc" (a ++ "\n" ++ "#error z")).text =
        .error (.directive (.raised "z") ⟨"a.cc", 3, none⟩) := by
  exact ⟨by rfl, by decide, by decide, by decide, by rfl, by rfl⟩

end Macro

end Serpentine

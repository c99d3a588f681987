import Serpentine.Proofs.Macro.Lines

/-!
# Groups of conditional lines

The groups of a text form a forest. A stack of flags reads it line by line; what comes out is what
the forest itself says: in a group that is reached, the first branch whose condition holds is read,
and no other line has any effect. A text without a forest is refused (**`run_follows_groups`**).
-/

namespace Serpentine.Macro

/-! ## Forests -/

mutual

/-- The lines of a text, with its groups nested. -/
inductive Forest where
  | nil
  | text (line : List Char) (rest : Forest)
  | plain (name : String) (text : List Char) (rest : Forest)
  | group (o : Opening) (body : Forest) (branches : Branches) (rest : Forest)

inductive Branches where
  | closing
  | otherwise (body : Forest)
  | elif (condition : List Char) (body : Forest) (branches : Branches)

end

mutual

/-- The lines of the text. -/
def Forest.marks : Forest → List Mark
  | .nil => []
  | .text line rest => .text line :: rest.marks
  | .plain name text rest => .plain name text :: rest.marks
  | .group o body branches rest =>
    (.opening o :: (body.marks ++ branches.marks)) ++ rest.marks

/-- The lines of the rest of a group. -/
def Branches.marks : Branches → List Mark
  | .closing => [.closing]
  | .otherwise body => .otherwise :: (body.marks ++ [.closing])
  | .elif condition body branches => .elif condition :: (body.marks ++ branches.marks)

end

def Forest.size (f : Forest) : Nat :=
  f.marks.length

def Branches.size (b : Branches) : Nat :=
  b.marks.length

/-! ## What a forest says -/

/-- What lines become, or the fault among them, and the state that they leave. -/
abbrev Result (σ : Type) :=
  Except Fault (List (List Char)) × σ

namespace Result

variable {σ : Type}

/-- Goes on behind lines without a fault. -/
def andThen (r : Result σ) (next : σ → Result σ) : Result σ :=
  match r with
  | (.error fault, s) => (.error fault, s)
  | (.ok outs, s) => ((next s).1.map (outs ++ ·), (next s).2)

/-- So many lines that become empty and change nothing. -/
def blank (n : Nat) (s : σ) : Result σ :=
  (.ok (List.replicate n []), s)

/-- A directive that chooses between two ways to go on, or is refused. -/
def choose (place : Position) (choice : Except DirectiveCause Bool) (yes no : σ → Result σ) (s : σ) :
    Result σ :=
  match choice with
  | .error cause => (.error (.directive cause place), s)
  | .ok chosen => (blank 1 s).andThen (if chosen then yes else no)

end Result

/-- What is known between two lines, apart from the groups around them. -/
structure Known where
  table : Table
  warnings : List String

def Known.within (groups : List Group) (s : Known) : Progress :=
  ⟨s.table, groups, s.warnings⟩

def Progress.known (p : Progress) : Known :=
  ⟨p.table, p.warnings⟩

/-- A directive that has nothing to do with groups. -/
def Known.plain (place : Position) (name : String) (rest : List Char) (s : Known) : Result Known :=
  match (s.within []).plainDirective place name rest with
  | .error cause => (.error (.directive cause place), s)
  | .ok p => .blank 1 p.known

mutual

/-- What a forest says whose first line is number `n`. -/
def Forest.run (file : String) : Forest → Nat → Known → Result Known
  | .nil, _, s => .blank 0 s
  | .text line rest, n, s => Result.andThen (.ok [s.table.expand line], s) (rest.run file (n + 1))
  | .plain name text rest, n, s =>
    (s.plain ⟨file, n, none⟩ name text).andThen (rest.run file (n + 1))
  | .group o body branches rest, n, s =>
    Result.andThen
      (.choose ⟨file, n, none⟩ (o.chosen s.table)
        (fun s => (body.run file (n + 1) s).andThen (Result.blank branches.size))
        (fun s => (Result.blank body.size s).andThen (branches.run file (n + 1 + body.size))) s)
      (rest.run file (n + 1 + body.size + branches.size))

/-- What the rest of a group says of which no branch has been chosen. -/
def Branches.run (file : String) : Branches → Nat → Known → Result Known
  | .closing, _, s => .blank 1 s
  | .otherwise body, n, s =>
    (Result.blank 1 s).andThen fun s => (body.run file (n + 1) s).andThen (Result.blank 1)
  | .elif condition body branches, n, s =>
    .choose ⟨file, n, none⟩ ((s.table.evaluate condition).map (· != 0))
      (fun s => (body.run file (n + 1) s).andThen (Result.blank branches.size))
      (fun s => (Result.blank body.size s).andThen (branches.run file (n + 1 + body.size))) s

end

/-- What a text with these groups comes to. -/
def Forest.outcome (f : Forest) (table : Table) (file : String) : Outcome :=
  match f.run file 1 ⟨table, []⟩ with
  | (.error fault, s) => ⟨.error fault, s.table, s.warnings⟩
  | (.ok outs, s) => ⟨.ok (String.ofList (unlines outs)), s.table, s.warnings⟩

/-! ## Runs of marks -/

namespace Result

variable {σ : Type}

@[simp]
theorem andThen_ok_nil (s : σ) (next : σ → Result σ) : andThen (.ok [], s) next = next s := by
  rw [andThen]
  cases hnext : next s with
  | mk result s' => cases result <;> rfl

theorem andThen_assoc (r : Result σ) (f g : σ → Result σ) :
    (r.andThen f).andThen g = r.andThen fun s => (f s).andThen g := by
  obtain ⟨result, s⟩ := r
  cases result with
  | error fault => rfl
  | ok outs =>
    simp only [andThen]
    cases hf : f s with
    | mk result' s' =>
      cases result' with
      | error fault => rfl
      | ok more =>
        simp only [Except.map]
        cases (g s').1 <;> simp

theorem blank_andThen_blank (m n : Nat) (s : σ) :
    (blank m s).andThen (blank n) = blank (m + n) s := by
  simp [blank, andThen, Except.map]

end Result

namespace Progress

/-- Runs lines with some marks, the first of which is number `n`. -/
def runMarks (file : String) : Progress → Nat → List Mark → Result Progress
  | p, _, [] => (.ok [], p)
  | p, n, m :: rest =>
    match p.mark ⟨file, n, none⟩ m with
    | .error cause => (.error (.directive cause ⟨file, n, none⟩), p)
    | .ok (out, q) => Result.andThen (.ok [out], q) fun q => q.runMarks file (n + 1) rest

variable {file : String} {p q : Progress} {n : Nat} {m : Mark} {rest : List Mark}

theorem runLines_eq_runMarks (source : List (List Char)) :
    p.runLines file n source = p.runMarks file n (source.map markOf) := by
  induction source generalizing p n with
  | nil => rfl
  | cons line rest ih =>
    rw [runLines, List.map_cons, runMarks, line_eq_mark]
    cases hmark : p.mark ⟨file, n, none⟩ (markOf line) with
    | error cause => rfl
    | ok step =>
      obtain ⟨out, q⟩ := step
      dsimp only [Result.andThen]
      rw [← ih]
      cases hrest : q.runLines file (n + 1) rest with
      | mk result q' => cases result <;> rfl

theorem runMarks_cons_ok {out : List Char} (h : p.mark ⟨file, n, none⟩ m = .ok (out, q)) :
    p.runMarks file n (m :: rest) =
      Result.andThen (.ok [out], q) fun q => q.runMarks file (n + 1) rest := by
  rw [runMarks, h]

theorem runMarks_cons_error {cause : DirectiveCause}
    (h : p.mark ⟨file, n, none⟩ m = .error cause) :
    p.runMarks file n (m :: rest) = (.error (.directive cause ⟨file, n, none⟩), p) := by
  rw [runMarks, h]

theorem runMarks_append (first second : List Mark) :
    p.runMarks file n (first ++ second) =
      (p.runMarks file n first).andThen fun q => q.runMarks file (n + first.length) second := by
  induction first generalizing p n with
  | nil => simp [runMarks]
  | cons m first ih =>
    rw [List.cons_append]
    cases hmark : p.mark ⟨file, n, none⟩ m with
    | error cause => rw [runMarks_cons_error hmark, runMarks_cons_error hmark, Result.andThen]
    | ok step =>
      obtain ⟨out, q⟩ := step
      rw [runMarks_cons_ok hmark, runMarks_cons_ok hmark, Result.andThen_assoc]
      have hplace : n + (m :: first).length = n + 1 + first.length := by
        rw [List.length_cons]
        omega
      rw [hplace]
      simp only [ih]

/-! ## Lines that are not kept -/

/-- All lines become empty, and lead from one progress to another. -/
def Skips (file : String) (p : Progress) (n : Nat) (marks : List Mark) (q : Progress) : Prop :=
  p.runMarks file n marks = .blank marks.length q

theorem Skips.nil : p.Skips file n [] p :=
  rfl

theorem Skips.cons {q' : Progress} (h : p.mark ⟨file, n, none⟩ m = .ok ([], q))
    (hrest : q.Skips file (n + 1) rest q') : p.Skips file n (m :: rest) q' := by
  rw [Skips] at hrest ⊢
  rw [runMarks_cons_ok h, List.length_cons, Nat.add_comm rest.length, ← Result.blank_andThen_blank]
  simp only [Result.andThen, Result.blank, hrest, List.replicate_one]

theorem Skips.append {first : List Mark} {q' : Progress} (hfirst : p.Skips file n first q)
    (hrest : q.Skips file (n + first.length) rest q') : p.Skips file n (first ++ rest) q' := by
  rw [Skips] at hfirst hrest ⊢
  rw [runMarks_append, hfirst, List.length_append, ← Result.blank_andThen_blank]
  simp only [Result.andThen, Result.blank, hrest]

/-- No later branch of the innermost group can be chosen. -/
structure Settled (p : Progress) (g : Group) (groups : List Group) : Prop where
  groups : p.groups = g :: groups
  seenElse : g.seenElse = false
  settled : (g.outer && !g.taken) = false

theorem Settled.mark_elif {g : Group} {groups : List Group} (h : p.Settled g groups)
    (place : Position) (condition : List Char) :
    p.mark place (.elif condition) =
      .ok ([], { p with groups := { g with active := false } :: groups }) := by
  rw [mark, Progress.elif, h.groups]
  simp only [h.seenElse, h.settled, Bool.false_eq_true, if_false, Bool.or_false, pure_bind]
  rfl

theorem Settled.mark_otherwise {g : Group} {groups : List Group} (h : p.Settled g groups)
    (place : Position) :
    p.mark place .otherwise =
      .ok ([], { p with groups := ⟨false, true, g.outer, true⟩ :: groups }) := by
  rw [mark, Progress.otherwise, h.groups]
  simp [h.seenElse, h.settled]

theorem mark_closing {g : Group} {groups : List Group} (h : p.groups = g :: groups)
    (place : Position) : p.mark place .closing = .ok ([], { p with groups }) := by
  rw [mark, h]

end Progress

open Progress in
mutual

/-- Lines that are not kept have no effect, whatever they say. -/
theorem Forest.skip (file : String) (f : Forest) (p : Progress) (n : Nat) (hp : p.active = false) :
    p.Skips file n f.marks p := by
  cases f with
  | nil => exact .nil
  | text line rest => exact .cons (by simp [mark, hp]) (rest.skip file p (n + 1) hp)
  | plain name text rest => exact .cons (by simp [mark, hp]; rfl) (rest.skip file p (n + 1) hp)
  | group o body branches rest =>
    have hmark : p.mark ⟨file, n, none⟩ (.opening o) = .ok ([], p.openGroup false) := by
      simp [mark, hp]
      rfl
    have hsettled : (p.openGroup false).Settled ⟨false, false, false, false⟩ p.groups :=
      ⟨by rw [openGroup, hp], rfl, rfl⟩
    have hbody := body.skip file (p.openGroup false) (n + 1) rfl
    have hgroup := hbody.append (branches.skip file (p.openGroup false) _ hsettled)
    exact (hgroup.cons hmark).append (rest.skip file p _ hp)

/-- Nor has the rest of a group of which no branch can be chosen any more. -/
theorem Branches.skip (file : String) (b : Branches) (p : Progress) (n : Nat) {g : Group}
    {groups : List Group} (h : p.Settled g groups) : p.Skips file n b.marks { p with groups } := by
  cases b with
  | closing => exact .cons (mark_closing h.groups _) .nil
  | otherwise body =>
    refine .cons (h.mark_otherwise _) ?_
    exact (body.skip file _ (n + 1) rfl).append (.cons (mark_closing rfl _) .nil)
  | elif condition body branches =>
    refine .cons (h.mark_elif _ condition) ?_
    exact (body.skip file _ (n + 1) rfl).append
      (branches.skip file _ _ ⟨rfl, h.seenElse, h.settled⟩)

end

/-! ## Lines that are kept -/

/-- A run of lines does what they should, and leaves some groups open. -/
structure Agrees (groups : List Group) (r : Result Progress) (e : Result Known) : Prop where
  result : r.1 = e.1
  known : r.2.known = e.2
  groups : ∀ outs, e.1 = .ok outs → r.2.groups = groups

namespace Agrees

variable {groups groups' : List Group} {r : Result Progress} {e : Result Known}

theorem ok (outs : List (List Char)) (s : Known) :
    Agrees groups (.ok outs, s.within groups) (.ok outs, s) :=
  ⟨rfl, rfl, fun _ _ => rfl⟩

theorem error (fault : Fault) (p : Progress) :
    Agrees groups (.error fault, p) (.error fault, p.known) :=
  ⟨rfl, rfl, by rintro outs ⟨⟩⟩

theorem blank (n : Nat) (s : Known) :
    Agrees groups (Result.blank n (s.within groups)) (Result.blank n s) :=
  ok _ s

theorem andThen {next : Progress → Result Progress} {next' : Known → Result Known}
    (h : Agrees groups r e) (hnext : ∀ s, Agrees groups' (next (s.within groups)) (next' s)) :
    Agrees groups' (r.andThen next) (e.andThen next') := by
  obtain ⟨result, p⟩ := r
  obtain ⟨result', s⟩ := e
  obtain ⟨hresult, hknown, hgroups⟩ := h
  dsimp only at hresult hknown hgroups
  subst hresult hknown
  cases result with
  | error fault => exact error fault p
  | ok outs =>
    have hp : p.known.within groups = p := by
      rw [← hgroups outs rfl]
      rfl
    obtain ⟨hmore, hs, hopen⟩ := hnext p.known
    rw [hp] at hmore hs hopen
    refine ⟨by rw [Result.andThen, Result.andThen, hmore], hs, ?_⟩
    intro all hall
    rw [Result.andThen] at hall
    cases hresult : (next' p.known).1 with
    | error fault => rw [hresult] at hall; cases hall
    | ok more => exact hopen more hresult

variable {file : String} {n : Nat} {s : Known} {m : Mark} {marks : List Mark}

theorem of_skips (h : (s.within groups).Skips file n marks (s.within groups')) :
    Agrees groups' ((s.within groups).runMarks file n marks) (Result.blank marks.length s) := by
  rw [h]
  exact blank _ s

theorem cons {e' : Known → Result Known}
    (hfirst : Agrees groups' ((s.within groups).runMarks file n [m]) e)
    (hrest : ∀ s, Agrees groups' ((s.within groups').runMarks file (n + 1) marks) (e' s)) :
    Agrees groups' ((s.within groups).runMarks file n (m :: marks)) (e.andThen e') := by
  rw [← List.singleton_append, Progress.runMarks_append]
  exact hfirst.andThen hrest

end Agrees

/-- The groups inside a group that is reached and of which a branch has been chosen or not. -/
def reached (chosen : Bool) (groups : List Group) : List Group :=
  ⟨chosen, chosen, true, false⟩ :: groups

theorem agrees_choose {file : String} {n : Nat} {s : Known} {groups groups' : List Group} {m : Mark}
    {choice : Except DirectiveCause Bool} {body : Forest} {branches : Branches}
    (hmark : (s.within groups').mark ⟨file, n, none⟩ m =
      choice.map fun chosen => ([], s.within (reached chosen groups)))
    (hbody : ∀ s, Agrees (reached true groups)
      ((s.within (reached true groups)).runMarks file (n + 1) body.marks) (body.run file (n + 1) s))
    (hbranches : ∀ s, Agrees groups
      ((s.within (reached false groups)).runMarks file (n + 1 + body.size) branches.marks)
      (branches.run file (n + 1 + body.size) s)) :
    Agrees groups ((s.within groups').runMarks file n (m :: (body.marks ++ branches.marks)))
      (.choose ⟨file, n, none⟩ choice
        (fun s => (body.run file (n + 1) s).andThen (Result.blank branches.size))
        (fun s => (Result.blank body.size s).andThen (branches.run file (n + 1 + body.size))) s) := by
  cases choice with
  | error cause =>
    rw [Progress.runMarks_cons_error hmark]
    exact .error _ (s.within groups')
  | ok chosen =>
    rw [Progress.runMarks_cons_ok hmark]
    refine .andThen (.ok [[]] s) fun s => ?_
    rw [Progress.runMarks_append]
    cases chosen with
    | true =>
      -- the branch is taken, which settles the group for all that stands behind it
      refine (hbody s).andThen fun s => ?_
      exact .of_skips (branches.skip file _ _ ⟨rfl, rfl, rfl⟩)
    | false =>
      have hskip := body.skip file (s.within (reached false groups)) (n + 1) rfl
      exact (Agrees.of_skips hskip).andThen hbranches

theorem plainDirective_within (place : Position) (name : String) (rest : List Char) (s : Known)
    (groups : List Group) :
    (s.within groups).plainDirective place name rest =
      ((s.within []).plainDirective place name rest).map fun p => p.known.within groups := by
  unfold Progress.plainDirective
  split
  · rw [Progress.define, Progress.define]
    cases neededName "define" rest with
    | error cause => rfl
    | ok name =>
      simp only [bind, Except.bind, pure, Except.pure]
      split <;> rfl
  · cases neededName "undef" rest <;> rfl
  all_goals rfl

theorem groups_plainDirective {place : Position} {name : String} {rest : List Char} {p q : Progress}
    (h : p.plainDirective place name rest = .ok q) : q.groups = p.groups := by
  have hwithin := plainDirective_within place name rest p.known p.groups
  change p.plainDirective place name rest = _ at hwithin
  rw [h] at hwithin
  cases hplain : (p.known.within []).plainDirective place name rest with
  | error cause => rw [hplain] at hwithin; cases hwithin
  | ok q' =>
    rw [hplain] at hwithin
    cases hwithin
    rfl

section Directives

variable {groups : List Group} (place : Position) (s : Known)

theorem mark_plain_within (name : String) (rest : List Char)
    (hactive : (s.within groups).active = true) :
    (s.within groups).mark place (.plain name rest) =
      ((s.within []).plainDirective place name rest).map fun p => ([], p.known.within groups) := by
  rw [Progress.mark, hactive, if_pos rfl, plainDirective_within]
  cases (s.within []).plainDirective place name rest <;> rfl

theorem mark_opening_within (o : Opening) (hactive : (s.within groups).active = true) :
    (s.within groups).mark place (.opening o) =
      (o.chosen s.table).map fun chosen => ([], s.within (reached chosen groups)) := by
  have hopen (chosen : Bool) : (s.within groups).openGroup chosen =
      s.within (reached chosen groups) := by
    rw [Progress.openGroup, hactive]
    rfl
  rw [Progress.mark, hactive, if_pos rfl]
  change (o.chosen s.table >>= fun chosen => pure ([], (s.within groups).openGroup chosen)) = _
  simp only [hopen]
  cases o.chosen s.table <;> rfl

theorem mark_elif_within (condition : List Char) (active : Bool) :
    (s.within (⟨active, false, true, false⟩ :: groups)).mark place (.elif condition) =
      ((s.table.evaluate condition).map (· != 0)).map
        fun chosen => ([], s.within (reached chosen groups)) := by
  simp only [Progress.mark, Progress.elif, Progress.holds_eq, Known.within]
  cases s.table.evaluate condition <;> rfl

end Directives

mutual

/-- The lines that are kept do what their forest says. -/
theorem Forest.agrees (file : String) (f : Forest) (s : Known) (n : Nat) {groups : List Group}
    (hactive : (s.within groups).active = true) :
    Agrees groups ((s.within groups).runMarks file n f.marks) (f.run file n s) := by
  cases f with
  | nil => exact .ok [] s
  | text line rest =>
    refine .cons ?_ fun s' => rest.agrees file s' (n + 1) hactive
    rw [Progress.runMarks, Progress.mark, hactive]
    exact .ok _ s
  | plain name text rest =>
    refine .cons ?_ fun s' => rest.agrees file s' (n + 1) hactive
    have hmark := mark_plain_within ⟨file, n, none⟩ s name text hactive
    rw [Known.plain]
    cases hdirective : (s.within []).plainDirective ⟨file, n, none⟩ name text with
    | error cause =>
      rw [hdirective] at hmark
      rw [Progress.runMarks_cons_error hmark]
      exact .error _ (s.within groups)
    | ok p =>
      rw [hdirective] at hmark
      rw [Progress.runMarks_cons_ok hmark]
      exact .ok [[]] p.known
  | group o body branches rest =>
    rw [Forest.marks, Progress.runMarks_append]
    refine Agrees.andThen (agrees_choose (mark_opening_within _ s o hactive)
      (fun s' => body.agrees file s' _ rfl)
      fun s' => branches.agrees file s' _ false groups) fun s' => ?_
    have hplace : n + (Mark.opening o :: (body.marks ++ branches.marks)).length =
        n + 1 + body.size + branches.size := by
      rw [List.length_cons, List.length_append, Forest.size, Branches.size]
      omega
    rw [hplace]
    exact rest.agrees file s' _ hactive

/-- So does the rest of a group that is reached and of which no branch has been chosen. -/
theorem Branches.agrees (file : String) (b : Branches) (s : Known) (n : Nat) (active : Bool)
    (groups : List Group) :
    Agrees groups ((s.within (⟨active, false, true, false⟩ :: groups)).runMarks file n b.marks)
      (b.run file n s) := by
  cases b with
  | closing => exact .ok [[]] s
  | otherwise body =>
    let inside : List Group := ⟨true, true, true, true⟩ :: groups
    have hmark : (s.within (⟨active, false, true, false⟩ :: groups)).mark ⟨file, n, none⟩
        .otherwise = .ok ([], s.within inside) := rfl
    rw [Branches.marks, Progress.runMarks_cons_ok hmark]
    refine .andThen (.ok [[]] s) fun s' => ?_
    rw [Progress.runMarks_append]
    have hbody : Agrees inside _ _ := body.agrees file s' (n + 1) rfl
    exact hbody.andThen fun s'' => .ok [[]] s''
  | elif condition body branches =>
    exact agrees_choose (mark_elif_within _ s condition active)
      (fun s' => body.agrees file s' _ rfl) fun s' => branches.agrees file s' _ false groups

end

/-! ## Texts without a forest -/

/-- The lines close all open groups. -/
def Completes : List Bool → List Mark → Prop
  | [], marks => ∃ f : Forest, marks = f.marks
  | seenElse :: outer, marks => ∃ (body : Forest) (branches : Branches) (rest : List Mark),
    marks = body.marks ++ (branches.marks ++ rest) ∧
      (seenElse = true → branches = .closing) ∧ Completes outer rest

namespace Completes

variable {outer : List Bool} {marks : List Mark}

theorem front (first : List Mark) (grow : Forest → Forest)
    (hgrow : ∀ f, (grow f).marks = first ++ f.marks) (h : Completes outer marks) :
    Completes outer (first ++ marks) := by
  cases outer with
  | nil =>
    obtain ⟨f, rfl⟩ := h
    exact ⟨grow f, (hgrow f).symm⟩
  | cons seenElse outer =>
    obtain ⟨body, branches, rest, rfl, hclosing, hrest⟩ := h
    exact ⟨grow body, branches, rest, by rw [hgrow, List.append_assoc], hclosing, hrest⟩

theorem opening (o : Opening) (h : Completes (false :: outer) marks) :
    Completes outer (.opening o :: marks) := by
  obtain ⟨body, branches, rest, rfl, -, hrest⟩ := h
  have hfront := hrest.front _ (.group o body branches) fun _ => rfl
  simpa using hfront

theorem elif (condition : List Char) (h : Completes (false :: outer) marks) :
    Completes (false :: outer) (.elif condition :: marks) := by
  obtain ⟨body, branches, rest, rfl, -, hrest⟩ := h
  refine ⟨.nil, .elif condition body branches, rest, ?_, by rintro ⟨⟩, hrest⟩
  simp [Forest.marks, Branches.marks]

theorem otherwise (h : Completes (true :: outer) marks) :
    Completes (false :: outer) (.otherwise :: marks) := by
  obtain ⟨body, branches, rest, rfl, hclosing, hrest⟩ := h
  refine ⟨.nil, .otherwise body, rest, ?_, by rintro ⟨⟩, hrest⟩
  simp [Forest.marks, Branches.marks, hclosing rfl]

theorem closing {seenElse : Bool} (h : Completes outer marks) :
    Completes (seenElse :: outer) (.closing :: marks) :=
  ⟨.nil, .closing, marks, rfl, fun _ => rfl, h⟩

end Completes

open Progress in
/-- Lines that are not refused and leave no group open have closed all that were open. -/
theorem completes_of_runMarks {file : String} {p q : Progress} {n : Nat} {marks : List Mark}
    {outs : List (List Char)} (h : p.runMarks file n marks = (.ok outs, q)) (hq : q.groups = []) :
    Completes (p.groups.map (·.seenElse)) marks := by
  -- along the lines, for any groups open in front of them
  induction marks generalizing p n outs with
  | nil =>
    cases h
    rw [hq]
    exact ⟨.nil, rfl⟩
  | cons m rest ih =>
    cases hmark : p.mark ⟨file, n, none⟩ m with
    | error cause => rw [runMarks_cons_error hmark] at h; cases h
    | ok step =>
      obtain ⟨out, p'⟩ := step
      rw [runMarks_cons_ok hmark] at h
      have hrest : Completes (p'.groups.map (·.seenElse)) rest := by
        cases hran : p'.runMarks file (n + 1) rest with
        | mk result q' =>
          rw [Result.andThen, hran] at h
          cases result with
          | error fault => cases h
          | ok more =>
            cases h
            exact ih hran
      cases passes_of_mark hmark with
      | text line => exact hrest.front [.text line] (.text line) fun _ => rfl
      | @obeyed name text _ hactive hdirective =>
        rw [groups_plainDirective hdirective] at hrest
        exact hrest.front [.plain name text] (.plain name text) fun _ => rfl
      | @skipped name text => exact hrest.front [.plain name text] (.plain name text) fun _ => rfl
      | opened chosen => exact hrest.opening _
      | turned chosen hgroups helse =>
        rw [hgroups, List.map_cons, helse]
        rw [List.map_cons, helse] at hrest
        exact hrest.elif _
      | last hgroups helse hlast =>
        rw [hgroups, List.map_cons, helse]
        rw [List.map_cons, hlast] at hrest
        exact hrest.otherwise
      | closed hgroups =>
        rw [hgroups, List.map_cons]
        exact hrest.closing

/-- A text does what its groups say: in a group that is reached, the first branch whose condition
holds is read, and all other lines become empty without effect. A text whose groups are not well
nested is refused. -/
theorem run_follows_groups (table : Table) (file text : String) :
    (∀ f : Forest, (sourceLines text).map markOf = f.marks →
      run table file text = f.outcome table file) ∧
    ((¬∃ f : Forest, (sourceLines text).map markOf = f.marks) →
      ∃ fault, (run table file text).text = .error fault) := by
  have hrun : Progress.runLines file ⟨table, [], []⟩ 1 (sourceLines text) =
    Progress.runMarks file ⟨table, [], []⟩ 1 ((sourceLines text).map markOf) :=
    Progress.runLines_eq_runMarks (sourceLines text)
  rw [run, ← sourceLines, hrun]
  constructor
  · intro f hf
    rw [hf, Forest.outcome]
    have hagrees : Agrees [] (Progress.runMarks file ⟨table, [], []⟩ 1 f.marks)
      (f.run file 1 ⟨table, []⟩) := f.agrees file ⟨table, []⟩ 1 rfl
    generalize Progress.runMarks file ⟨table, [], []⟩ 1 f.marks = ran at hagrees ⊢
    generalize f.run file 1 ⟨table, []⟩ = said at hagrees ⊢
    obtain ⟨result, q⟩ := ran
    obtain ⟨result', s⟩ := said
    obtain ⟨hresult, hknown, hgroups⟩ := hagrees
    dsimp only at hresult hknown hgroups
    subst hresult hknown
    cases result with
    | error fault => rfl
    | ok outs =>
      dsimp only
      rw [hgroups outs rfl, List.isEmpty_nil, if_pos rfl]
      rfl
  · intro hnone
    cases hran : Progress.runMarks file ⟨table, [], []⟩ 1 ((sourceLines text).map markOf) with
    | mk result q =>
      cases result with
      | error fault => exact ⟨fault, rfl⟩
      | ok outs =>
        dsimp only
        split
        case isTrue hq => exact absurd (completes_of_runMarks hran (List.isEmpty_iff.1 hq)) hnone
        case isFalse => exact ⟨_, rfl⟩

theorem run_follows_groups_nested : let text :=
      "#define A 2\n#if A\n#ifdef B\n#error B\n#else\nA\n#endif\n#elif (\n#undef A\n#endif"
    let inner := Forest.group (.defined ['B']) (.plain "error" ['B'] .nil)
      (.otherwise (.text ['A'] .nil)) .nil
    let f := Forest.plain "define" "A 2".toList
      (.group (.condition ['A']) inner (.elif ['('] (.plain "undef" ['A'] .nil) .closing) .nil)
    run ⟨[], []⟩ "a.cc" text = f.outcome ⟨[], []⟩ "a.cc" ∧
      (f.outcome ⟨[], []⟩ "a.cc").text = .ok "\n\n\n\n\n2\n\n\n\n" ∧
      ∃ fault, (run ⟨[], []⟩ "a.cc" "A\n#endif").text = .error fault := by
  refine ⟨(run_follows_groups _ _ _).1 _ (by decide +kernel), by rfl, ?_⟩
  refine (run_follows_groups _ _ _).2 ?_
  rintro ⟨f, hf⟩
  have hmarks : f.marks = [.text ['A'], .closing] := hf.symm.trans (by decide +kernel)
  cases f with
  | nil | plain | group => simp [Forest.marks] at hmarks
  | text line rest => cases rest <;> simp [Forest.marks] at hmarks

end Serpentine.Macro

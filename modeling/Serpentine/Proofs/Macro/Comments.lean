import Serpentine.Proofs.Macro.Concatenation
import Serpentine.Proofs.Token.Spacing

/-!
# Comments and tokens

Comments are taken out of a text before it is cut into tokens, by rules of their own for what is a
literal. Where these agree with the rules for tokens, the text without comments has the tokens of
the text, at the same lines, when comments are skipped like blanks (**`tokenize_stripComments`**).
-/

namespace Serpentine

/-! ## Comments as blanks -/

inductive Gap where
  | blank
  | line
  | block
deriving Repr, DecidableEq

/-- How many characters stand in front of the next token. -/
def Gap.length : Gap → List Char → Nat
  | _, [] => 0
  | .blank, '/' :: '/' :: cs => length .line cs + 2
  | .blank, '/' :: '*' :: cs => length .block cs + 2
  | .blank, c :: cs => if isBlank c then length .blank cs + 1 else 0
  | .line, c :: cs => length (if c == '\n' then .blank else .line) cs + 1
  | .block, '*' :: '/' :: cs => length .blank cs + 2
  | .block, _ :: cs => length .block cs + 1

/-- The scan in front of its next token, behind blanks and comments. -/
def Scan.skipGap (s : Scan) : Scan :=
  let n := Gap.length .blank s.rest
  ⟨s.spot.past (s.rest.take n), s.rest.drop n⟩

/-- The pieces of a text with comments in at most so many steps, with the faults met since the last
token. -/
def Scan.commentedFrom : Nat → List ScanFault → Scan → List Piece
  | 0, _, _ => []
  | n + 1, faults, s =>
    match s.skipGap.next with
    | (.error fault, left) => Scan.commentedFrom n (faults ++ [fault]) left
    | (.ok token, left) =>
      if token.isEnd then [⟨faults, token⟩] else ⟨faults, token⟩ :: Scan.commentedFrom n [] left

/-- The tokens of a text in which comments are blanks. -/
def tokenizeCommented (text : String) : List Token × List ScanFault :=
  let s := Scan.start text
  let pieces := s.commentedFrom (s.rest.length + 1) []
  (pieces.map Piece.token, pieces.flatMap Piece.skipped)

/-! ## Quotes and digits -/

/-- Each single quote follows a decimal digit; the flag tells whether one stands in front. -/
def quotesFollowDigits : Bool → List Char → Bool
  | _, [] => true
  | afterDigit, c :: cs => (c != '\'' || afterDigit) && quotesFollowDigits c.isDigit cs

/-- The last character is a decimal digit; the flag tells whether one stands in front. -/
def endsInDigit (afterDigit : Bool) (cs : List Char) : Bool :=
  (cs.getLast?.map Char.isDigit).getD afterDigit

/-- Quotes in a number follow digits, and the opening quote of a character literal does not. -/
def Kind.quotesPlainly (cs : List Char) : Kind → Bool
  | .intLiteral | .floatLiteral => quotesFollowDigits false cs
  | .charLiteral => !(['u', '8'].isPrefixOf cs)
  | _ => true

namespace Token

/-- The second token does not open with a single quote directly behind a digit of the first. -/
def Clear (t u : Token) : Prop :=
  u.spot = t.spot.past t.lexeme.toList → endsInDigit false t.lexeme.toList = true →
    u.lexeme.toList.head? ≠ some '\''

instance (t u : Token) : Decidable (t.Clear u) :=
  inferInstanceAs (Decidable (_ → _ → _))

/-- What is left of a token but for its column. -/
def inLine (t : Token) : Kind × String × Nat :=
  (t.kind, t.lexeme, t.spot.line)

end Token

/-- A quote follows a digit just where it separates digits of a number. -/
structure Separated (tokens : List Token) : Prop where
  inside : ∀ t ∈ tokens, t.kind.quotesPlainly t.lexeme.toList = true
  between : tokens.IsChain Token.Clear

theorem Separated.of_cons {t : Token} {tokens : List Token} (h : Separated (t :: tokens)) :
    t.kind.quotesPlainly t.lexeme.toList = true ∧ (∀ u ∈ tokens.head?, t.Clear u) ∧
      Separated tokens := by
  obtain ⟨hfirst, hinside⟩ := List.forall_mem_cons.1 h.inside
  cases tokens with
  | nil => exact ⟨hfirst, by rintro _ ⟨⟩, hinside, .nil⟩
  | cons u rest =>
    obtain ⟨hclear, hbetween⟩ := List.isChain_cons_cons.1 h.between
    refine ⟨hfirst, ?_, hinside, hbetween⟩
    rintro _ ⟨⟩
    exact hclear

/-! ## Gaps -/

variable {c : Char}

theorem isDigit_of_isBlank (h : isBlank c = true) : c.isDigit = false := by
  rw [← Bool.not_eq_true]
  intro hdigit
  have hname : isNameChar c = true := by simp [isNameChar, Char.isAlphanum, hdigit]
  rw [isBlank_of_isNameChar hname] at h
  cases h

theorem isQuote_of_isBlank (h : isBlank c = true) : isQuote c = false := by
  rw [← Bool.not_eq_true, isQuote, Bool.or_eq_true, beq_iff_eq, beq_iff_eq]
  rintro (rfl | rfl) <;> cases h

theorem Spot.line_past (s : Spot) (cs : List Char) : (s.past cs).line = s.line + cs.count '\n' := by
  induction cs generalizing s with
  | nil => rfl
  | cons c cs ih =>
    show ((s.next c).past cs).line = _
    rw [ih, Spot.next, List.count_cons]
    split
    · exact Nat.add_right_comm ..
    · rfl

def Gap.state : Gap → Macro.CommentState
  | .blank => .code false
  | .line => .line
  | .block => .block

namespace Macro

open Cut (Stops)

/-- From some state on, so many characters become blanks with the same line ends. -/
def BecomesBlank (state : CommentState) (cs : List Char) (n : Nat) : Prop :=
  ∃ blanks, stripFrom state cs = blanks ++ stripFrom (.code false) (cs.drop n) ∧
    (∀ c ∈ blanks, isBlank c = true) ∧ blanks.count '\n' = (cs.take n).count '\n'

namespace BecomesBlank

variable {state next : CommentState} {c : Char} {cs : List Char} {n : Nat}

theorem keep (h : BecomesBlank next cs n) (hc : isBlank c = true)
    (hstrip : stripFrom state (c :: cs) = c :: stripFrom next cs) :
    BecomesBlank state (c :: cs) (n + 1) := by
  obtain ⟨blanks, hblanks, hblank, hcount⟩ := h
  refine ⟨c :: blanks, ?_, List.forall_mem_cons.2 ⟨hc, hblank⟩, ?_⟩
  · rw [hstrip, hblanks]
    rfl
  · rw [List.take_succ_cons, List.count_cons, List.count_cons, hcount]

theorem drop (h : BecomesBlank next cs n) (hc : c ≠ '\n')
    (hstrip : stripFrom state (c :: cs) = stripFrom next cs) :
    BecomesBlank state (c :: cs) (n + 1) := by
  obtain ⟨blanks, hblanks, hblank, hcount⟩ := h
  refine ⟨blanks, hstrip.trans hblanks, hblank, ?_⟩
  rw [List.take_succ_cons, List.count_cons_of_ne hc, hcount]

end BecomesBlank

theorem becomesBlank_gap (gap : Gap) (cs : List Char) :
    BecomesBlank gap.state cs (gap.length cs) := by
  fun_induction Gap.length gap cs with
  | case1 gap => exact ⟨[], by cases gap <;> rfl, by simp, rfl⟩
  | case2 cs ih => exact ih
  | case3 cs ih =>
    obtain ⟨blanks, hblanks, hblank, hcount⟩ := ih
    exact ⟨' ' :: blanks, congrArg (' ' :: ·) hblanks, List.forall_mem_cons.2 ⟨rfl, hblank⟩, hcount⟩
  | case4 c cs hline hblock hc ih =>
    refine ih.keep hc ?_
    rw [Gap.state, stripFrom_code_cons, isQuote_of_isBlank hc, isDigit_of_isBlank hc]
    · rfl
    · rintro rfl
      cases hc
  | case5 c cs hline hblock hc => exact ⟨[], rfl, by simp, rfl⟩
  | case6 c cs ih =>
    by_cases hc : c = '\n'
    · subst hc
      exact ih.keep rfl rfl
    · rw [if_neg (mt beq_iff_eq.1 hc)] at ih ⊢
      exact ih.drop hc (by simp [Gap.state, stripFrom, hc])
  | case7 cs ih => exact ih
  | case8 c cs hclose ih =>
    have hcons : stripFrom .block (c :: cs) = _ :=
      stripFrom_block_cons fun hc => head?_ne_of_ne_cons fun rest => hclose rest hc
    by_cases hc : c = '\n'
    · subst hc
      exact ih.keep rfl hcons
    · exact ih.drop hc (hcons.trans (if_neg (mt beq_iff_eq.1 hc)))

variable {cs : List Char}

theorem length_blank_cons (h : c = '/' → cs.head? ≠ some '/' ∧ cs.head? ≠ some '*') :
    Gap.length .blank (c :: cs) = if isBlank c then Gap.length .blank cs + 1 else 0 := by
  rw [Gap.length.eq_def]
  split
  · next htext => cases htext
  · next htext =>
    cases htext
    exact absurd rfl (h rfl).1
  · next htext =>
    cases htext
    exact absurd rfl (h rfl).2
  · next htext =>
    cases htext
    rfl
  · next hgap _ => cases hgap
  · next hgap _ => cases hgap
  · next hgap _ => cases hgap

theorem start_of_length_eq_zero (h : Gap.length .blank (c :: cs) = 0) :
    isBlank c = false ∧ (c = '/' → cs.head? ≠ some '/' ∧ cs.head? ≠ some '*') := by
  have hcomment : c = '/' → cs.head? ≠ some '/' ∧ cs.head? ≠ some '*' := by
    rintro rfl
    rcases cs with - | ⟨d, cs⟩
    · simp
    · refine ⟨?_, ?_⟩ <;>
      · rintro ⟨⟩
        cases h
  rw [length_blank_cons hcomment] at h
  refine ⟨?_, hcomment⟩
  rw [← Bool.not_eq_true]
  intro hc
  rw [if_pos hc] at h
  cases h

theorem length_drop_gap (gap : Gap) (cs : List Char) :
    Gap.length .blank (cs.drop (gap.length cs)) = 0 := by
  fun_induction Gap.length gap cs with
  | case1 gap => rfl
  | case5 c cs hline hblock hc =>
    have hcomment (h : c = '/') : cs.head? ≠ some '/' ∧ cs.head? ≠ some '*' :=
      ⟨head?_ne_of_ne_cons fun rest => hline rest h, head?_ne_of_ne_cons fun rest => hblock rest h⟩
    exact (length_blank_cons hcomment).trans (if_neg hc)
  | case2 cs ih | case3 cs ih | case4 c cs hline hblock hc ih | case6 c cs ih | case7 cs ih
  | case8 c cs hclose ih => exact ih

theorem stripFrom_of_gap (h : Gap.length .blank cs ≠ 0) (afterDigit : Bool) :
    stripFrom (.code afterDigit) cs = stripFrom (.code false) cs := by
  cases cs with
  | nil => rfl
  | cons c cs =>
    by_cases hcomment : c = '/' → cs.head? ≠ some '/' ∧ cs.head? ≠ some '*'
    · have hc : isBlank c = true := by
        by_contra hc
        exact h ((length_blank_cons hcomment).trans (if_neg hc))
      rw [stripFrom_code_cons _ hcomment, stripFrom_code_cons _ hcomment, isQuote_of_isBlank hc]
      rfl
    · rw [Classical.not_imp, not_and_or, not_not, not_not] at hcomment
      obtain ⟨rfl, hhead⟩ := hcomment
      rcases cs with - | ⟨d, cs⟩
      · rcases hhead with ⟨⟨⟩⟩ | ⟨⟨⟩⟩
      · rcases hhead with ⟨⟨⟩⟩ | ⟨⟨⟩⟩ <;> rfl

/-! ## Tokens -/

theorem endsInDigit_cons (afterDigit : Bool) (c : Char) (cs : List Char) :
    endsInDigit afterDigit (c :: cs) = endsInDigit c.isDigit cs := by
  rw [endsInDigit, endsInDigit, List.getLast?_cons]
  cases cs.getLast? <;> rfl

variable {afterDigit : Bool}

theorem stripFrom_step {rest : List Char}
    (hcomment : c = '/' → rest.head? ≠ some '/' ∧ rest.head? ≠ some '*') (hquote : c ≠ '\"')
    (hsep : c = '\'' → afterDigit = true) :
    stripFrom (.code afterDigit) (c :: rest) = c :: stripFrom (.code c.isDigit) rest := by
  rw [stripFrom_code_cons afterDigit hcomment, if_neg]
  rw [isQuote, beq_eq_false_iff_ne.2 hquote, Bool.false_or, Bool.and_eq_true, beq_iff_eq]
  rintro ⟨rfl, hopen⟩
  rw [hsep rfl] at hopen
  cases hopen

theorem stripFrom_run {run : List Char} (hslash : '/' ∉ run) (hquote : '\"' ∉ run)
    (hsep : quotesFollowDigits afterDigit run = true) (rest : List Char) :
    stripFrom (.code afterDigit) (run ++ rest) =
      run ++ stripFrom (.code (endsInDigit afterDigit run)) rest := by
  induction run generalizing afterDigit with
  | nil => rfl
  | cons c run ih =>
    rw [List.mem_cons, not_or] at hslash hquote
    rw [quotesFollowDigits, Bool.and_eq_true, Bool.or_eq_true, bne_iff_ne] at hsep
    rw [List.cons_append, stripFrom_step (fun hc => absurd hc.symm hslash.1) (Ne.symm hquote.1),
      ih hslash.2 hquote.2 hsep.2, endsInDigit_cons]
    · rfl
    · exact fun hc => hsep.1.resolve_left (not_not_intro hc)

/-! ### Literals -/

theorem inLiteral_of_more {quote c : Char} {state next : QuoteState} (hquote : isQuote quote = true)
    (h : state.step quote c = .more next) :
    CommentState.inLiteral quote (state == .escaped) c = .literal quote (next == .escaped) := by
  obtain ⟨-, hopen, hnext⟩ := Cut.step_more hquote h
  rw [hnext]
  cases hstate : state == .escaped with
  | true => rfl
  | false => cases hc : c == '\\' <;> simp [CommentState.inLiteral, hc, hopen hstate]

/-- A literal that ends stays. -/
theorem stripFrom_literal {quote : Char} (hquote : isQuote quote = true) {kind : Kind}
    {state : QuoteState} (h : (Cut.quotedFrom quote state cs).found = .ok kind) :
    ∃ body rest, Cut.quotedFrom quote state cs = ⟨.ok kind, body ++ [quote], rest⟩ ∧
      stripFrom (.literal quote (state == .escaped)) cs =
        body ++ quote :: stripFrom (.code false) rest := by
  induction cs generalizing state with
  | nil => cases h
  | cons c cs ih =>
    have hline : c = '\n' → False := by
      rintro rfl
      rw [Cut.quotedFrom, Cut.step_line] at h
      cases h
    rw [stripFrom, if_neg (mt beq_iff_eq.1 hline)]
    rw [Cut.quotedFrom] at h ⊢
    cases hstep : state.step quote c with
    | stop cause =>
      rw [hstep] at h
      cases h
    | close =>
      rw [hstep] at h
      cases h
      obtain ⟨rfl, -, hslash, hstate⟩ := Cut.step_close hstep
      refine ⟨[], cs, rfl, ?_⟩
      rw [hstate, CommentState.inLiteral, if_neg (by decide), if_neg (by simpa using hslash),
        if_pos (by simp)]
      rfl
    | more next =>
      rw [hstep] at h
      obtain ⟨body, rest, hcut, hstrip⟩ := ih h
      refine ⟨c :: body, rest, ?_, ?_⟩
      · dsimp only
        rw [hcut]
        rfl
      · rw [inLiteral_of_more hquote hstep, hstrip]
        rfl

/-! ### Names, numbers and operators -/

theorem stops_line (cs : List Char) : Stops (stripFrom .line cs) := by
  induction cs with
  | nil => rintro _ ⟨⟩
  | cons c cs ih =>
    rw [stripFrom]
    split
    · next hc =>
      rw [beq_iff_eq.1 hc]
      rintro _ ⟨⟩
      decide
    · exact ih

/-- Up to the first comment nothing changes. -/
theorem exists_stops {state : CommentState} (hline : state ≠ .line) (hblock : state ≠ .block)
    (cs : List Char) : ∃ x u v, cs = x ++ u ∧ stripFrom state cs = x ++ v ∧ Stops u ∧ Stops v := by
  induction cs generalizing state with
  | nil => exact ⟨[], [], [], rfl, by rw [stripFrom]; rfl, by rintro _ ⟨⟩, by rintro _ ⟨⟩⟩
  | cons c cs ih =>
    have hcons (next : CommentState) (hline : next ≠ .line) (hblock : next ≠ .block)
        (hstrip : stripFrom state (c :: cs) = c :: stripFrom next cs) :
        ∃ x u v, c :: cs = x ++ u ∧ stripFrom state (c :: cs) = x ++ v ∧ Stops u ∧ Stops v := by
      obtain ⟨x, u, v, hx, hv, hstops⟩ := ih hline hblock
      exact ⟨c :: x, u, v, congrArg (c :: ·) hx, hstrip.trans (congrArg (c :: ·) hv), hstops⟩
    cases state with
    | line => exact absurd rfl hline
    | block => exact absurd rfl hblock
    | literal quote escaped =>
      by_cases hc : c = '\n'
      · exact hcons (.code false) (by simp) (by simp) (by simp [stripFrom, hc])
      · refine hcons (.inLiteral quote escaped c) ?_ ?_ (by simp [stripFrom, hc]) <;>
        · unfold CommentState.inLiteral
          split_ifs <;> simp
    | code afterDigit =>
      by_cases hcomment : c = '/' → cs.head? ≠ some '/' ∧ cs.head? ≠ some '*'
      · have hstrip := stripFrom_code_cons afterDigit hcomment
        split at hstrip
        · exact hcons _ (by simp) (by simp) hstrip
        · exact hcons _ (by simp) (by simp) hstrip
      · rw [Classical.not_imp, not_and_or, not_not, not_not] at hcomment
        obtain ⟨rfl, hhead⟩ := hcomment
        rcases cs with - | ⟨d, cs⟩
        · rcases hhead with ⟨⟨⟩⟩ | ⟨⟨⟩⟩
        · have hslash : Stops ('/' :: d :: cs) := by
            rintro _ ⟨⟩
            decide
          rcases hhead with ⟨⟨⟩⟩ | ⟨⟨⟩⟩
          · exact ⟨[], _, _, rfl, rfl, hslash, stops_line cs⟩
          · refine ⟨[], _, _, rfl, rfl, hslash, ?_⟩
            rintro _ ⟨⟩
            decide

theorem quotesFollowDigits_of_not_mem (h : '\'' ∉ cs) (afterDigit : Bool) :
    quotesFollowDigits afterDigit cs = true := by
  induction cs generalizing afterDigit with
  | nil => rfl
  | cons c cs ih =>
    rw [List.mem_cons, not_or] at h
    simp [quotesFollowDigits, ih h.2, Ne.symm h.1]

theorem break_not_mem_number {b c : Char} (hb : b ∈ Cut.breaks) (hc : c ≠ b) (cs : List Char) :
    b ∉ (Cut.number (c :: cs)).taken := by
  intro hmem
  have hcs : b ∈ cs := by
    have hin : b ∈ c :: cs := Cut.number_append (c :: cs) ▸ List.mem_append_left _ hmem
    exact (List.mem_cons.1 hin).resolve_left (Ne.symm hc)
  obtain ⟨x, y, rfl, hx⟩ := List.eq_append_cons_of_mem hcs
  obtain ⟨found, taken, rest, halone, hcut⟩ := Cut.stopsAtBreak_number (c :: x)
  have hnumber := hcut (b :: y) (by rintro _ ⟨⟩; exact hb)
  rw [List.cons_append] at hnumber
  rw [hnumber] at hmem
  have happend := Cut.number_append (c :: x)
  rw [halone] at happend
  have hin : b ∈ c :: x := happend ▸ List.mem_append_left rest hmem
  exact (List.mem_cons.1 hin).elim (Ne.symm hc) hx

theorem word_chars (cs : List Char) (h : c ∈ (Cut.word cs).taken) :
    c ≠ '/' ∧ c ≠ '\"' ∧ c ≠ '\'' := by
  have hname : isNameChar c = true := List.mem_takeWhile_imp h
  refine ⟨?_, ?_, ?_⟩ <;>
  · rintro rfl
    cases hname

theorem operator_chars {kind : Kind} (h : (Cut.operator c cs).found = .ok kind) :
    '/' ∉ (Cut.operator c cs).taken.tail ∧ '\"' ∉ (Cut.operator c cs).taken ∧
      '\'' ∉ (Cut.operator c cs).taken := by
  have hall : ∀ o ∈ operators, '/' ∉ o.1.tail ∧ '\"' ∉ o.1 ∧ '\'' ∉ o.1 := by decide
  unfold Cut.operator at h ⊢
  split at h
  · next spelling kind hfind => exact hall _ (List.mem_of_find?_eq_some hfind)
  · cases h

/-- The characters of a piece that is no literal open neither comments nor literals. -/
theorem read_chars {w cs : List Char} {kind : Kind} {rest : List Char}
    (hread : Cut.read c cs = ⟨.ok kind, c :: w, rest⟩) (hmark : encodingMark? (c :: cs) = none)
    (hquote : isQuote c = false) (hplain : kind.quotesPlainly (c :: w) = true) (afterDigit : Bool) :
    '/' ∉ w ∧ '\"' ∉ c :: w ∧ quotesFollowDigits afterDigit (c :: w) = true := by
  have hc : c ≠ '\"' ∧ c ≠ '\'' := by
    refine ⟨?_, ?_⟩ <;>
    · rintro rfl
      cases hquote
  simp only [Cut.read, hmark, hquote, Bool.false_eq_true, if_false] at hread
  split_ifs at hread with hname hnumber
  · have hchars (a : Char) (ha : a ∈ c :: w) : a ≠ '/' ∧ a ≠ '\"' ∧ a ≠ '\'' :=
      word_chars (c :: cs) (by rw [hread]; exact ha)
    refine ⟨fun ha => ?_, fun ha => (hchars _ ha).2.1 rfl, ?_⟩
    · exact (hchars _ (List.mem_cons_of_mem c ha)).1 rfl
    · exact quotesFollowDigits_of_not_mem (fun ha => (hchars _ ha).2.2 rfl) afterDigit
  · have hslash : c ≠ '/' := by
      rintro rfl
      cases hnumber
    have hchars {b : Char} (hb : b ∈ Cut.breaks) (hne : c ≠ b) : b ∉ c :: w := by
      have hmem := break_not_mem_number hb hne cs
      rwa [hread] at hmem
    have hkind : kind = .floatLiteral ∨ kind = .intLiteral := by
      have hfound := congrArg Cut.found hread
      simp only [Cut.number, Except.ok.injEq] at hfound
      split at hfound
      · exact .inl hfound.symm
      · exact .inr hfound.symm
    have hsep : quotesFollowDigits false (c :: w) = true := by
      rcases hkind with rfl | rfl <;> exact hplain
    refine ⟨fun ha => hchars (by decide) hslash (List.mem_cons_of_mem c ha),
      hchars (by decide) hc.1, ?_⟩
    simpa [quotesFollowDigits, hc.2] using hsep
  · have hchars := operator_chars (congrArg Cut.found hread)
    rw [hread] at hchars
    exact ⟨hchars.1, hchars.2.1, quotesFollowDigits_of_not_mem hchars.2.2 afterDigit⟩

theorem stripFrom_mark {mark : List Char} (hmark : mark = [] ∨ mark ∈ encodingMarks)
    (afterDigit : Bool) (rest : List Char) :
    stripFrom (.code afterDigit) (mark ++ rest) =
      mark ++ stripFrom (.code (endsInDigit afterDigit mark)) rest := by
  have hall : ∀ mark ∈ [] :: encodingMarks, '/' ∉ mark ∧ '\"' ∉ mark ∧ '\'' ∉ mark := by decide
  obtain ⟨hslash, hdouble, hsingle⟩ := hall mark (List.mem_cons.2 hmark)
  exact stripFrom_run hslash hdouble (quotesFollowDigits_of_not_mem hsingle afterDigit) rest

theorem opens_literal {mark : List Char} {quote : Char} {body : List Char}
    (hmark : mark = [] ∨ mark ∈ encodingMarks)
    (hclear : mark ++ [quote] = ['\''] → afterDigit = false)
    (hplain : (quotedKind quote).quotesPlainly (mark ++ quote :: body) = true) :
    (quote == '\'' && endsInDigit afterDigit mark) = false := by
  by_cases hquote : quote = '\''
  · subst hquote
    simp only [encodingMarks, List.mem_cons, List.not_mem_nil, or_false] at hmark
    rcases hmark with rfl | rfl | rfl | rfl | rfl
    · rw [hclear rfl]
      rfl
    · cases hplain
    · rfl
    · rfl
    · rfl
  · rw [beq_eq_false_iff_ne.2 hquote, Bool.false_and]

section Piece

variable {c : Char} {w rest : List Char} {kind : Kind} {afterDigit : Bool}
  (hread : Cut.read c (w ++ rest) = ⟨.ok kind, c :: w, rest⟩)
  (hplain : kind.quotesPlainly (c :: w) = true)
include hread hplain

theorem stripFrom_unquoted (hmark : encodingMark? (c :: (w ++ rest)) = none)
    (hquote : isQuote c = false)
    (hcomment : c = '/' → (w ++ rest).head? ≠ some '/' ∧ (w ++ rest).head? ≠ some '*') :
    let behind := stripFrom (.code (endsInDigit false (c :: w))) rest
    stripFrom (.code afterDigit) (c :: (w ++ rest)) = c :: (w ++ behind) ∧
      Cut.read c (w ++ behind) = ⟨.ok kind, c :: w, behind⟩ := by
  intro behind
  obtain ⟨hslash, hdouble, hsep⟩ := read_chars hread hmark hquote hplain afterDigit
  rw [List.mem_cons, not_or] at hdouble
  rw [quotesFollowDigits, Bool.and_eq_true, Bool.or_eq_true, bne_iff_ne] at hsep
  refine ⟨?_, ?_⟩
  · rw [stripFrom_step hcomment (Ne.symm hdouble.1) fun hc => hsep.1.resolve_left (not_not_intro hc),
      stripFrom_run hslash hdouble.2 hsep.2, ← endsInDigit_cons false]
  · -- Up to the first comment nothing changes, and the piece ends in front of it.
    have hstops : ∃ x u v, rest = x ++ u ∧ behind = x ++ v ∧ Stops u ∧ Stops v :=
      exists_stops (by simp) (by simp) rest
    obtain ⟨x, u, v, rfl, hbehind, hu, hv⟩ := hstops
    rw [hbehind]
    rw [← List.append_assoc] at hread hmark ⊢
    have hnone := Cut.encodingMark?_breaks (c :: (w ++ x)) hu.breaks hu.any_head?_isQuote
    rw [List.cons_append, hmark] at hnone
    obtain ⟨found, taken, left, hcut⟩ := Cut.read_stops hnone.symm hquote
    rw [hcut u hu, Cut.mk.injEq, List.append_cancel_right_eq] at hread
    obtain ⟨rfl, rfl, rfl⟩ := hread
    exact hcut v hv

theorem stripFrom_quoted {mark z : List Char} {quote : Char}
    (hmark : mark = [] ∨ mark ∈ encodingMarks) (hquote : isQuote quote = true)
    (hz : c :: (w ++ rest) = mark ++ quote :: z) (hclear : afterDigit = true → c ≠ '\'') :
    let behind := stripFrom (.code (endsInDigit false (c :: w))) rest
    stripFrom (.code afterDigit) (c :: (w ++ rest)) = c :: (w ++ behind) ∧
      Cut.read c (w ++ behind) = ⟨.ok kind, c :: w, behind⟩ := by
  intro behind
  refine ⟨?_, Cut.read_literal hread hmark hquote hz behind⟩
  rw [Cut.read_quoted hmark hquote hz] at hread
  obtain ⟨body, left, hcut, hstrip⟩ := stripFrom_literal hquote (congrArg Cut.found hread)
  obtain rfl := Cut.quotedFrom_ok (congrArg Cut.found hread)
  rw [Cut.quoted, hcut] at hread
  simp only [Cut.after, Cut.mk.injEq] at hread
  obtain ⟨-, htaken, rfl⟩ := hread
  have htaken' : c :: w = mark ++ quote :: (body ++ [quote]) := htaken.symm
  have hopens : (quote == '\'' && endsInDigit afterDigit mark) = false := by
    refine opens_literal hmark (fun hempty => ?_) (htaken' ▸ hplain)
    obtain ⟨rfl, rfl⟩ : mark = [] ∧ quote = '\'' := by
      simpa using List.append_eq_singleton_iff.1 hempty
    exact Bool.eq_false_iff.2 fun hdigit => hclear hdigit (List.cons.inj hz).1
  have hbehind : behind = stripFrom (.code false) left := by
    have hdigit : quote.isDigit = false := by
      rw [isQuote, Bool.or_eq_true, beq_iff_eq, beq_iff_eq] at hquote
      rcases hquote with rfl | rfl <;> rfl
    have hends : endsInDigit false (c :: w) = false := by
      rw [htaken', ← List.cons_append, ← List.append_assoc, endsInDigit, List.getLast?_concat]
      exact hdigit
    exact congrArg (fun d => stripFrom (.code d) left) hends
  have hbody : c :: (w ++ behind) = mark ++ quote :: (body ++ quote :: behind) := by
    rw [← List.cons_append, htaken']
    simp
  rw [hz, hbody, stripFrom_mark hmark, stripFrom_code_cons, hquote, hopens, Bool.not_false,
    Bool.and_self, if_pos rfl, hbehind]
  · exact congrArg (fun t => mark ++ quote :: t) hstrip
  · rintro rfl
    cases hquote

end Piece

/-- **A token stays**, and it is the first one of what stays. -/
theorem stripFrom_piece {kind : Kind} {taken rest : List Char}
    (hread : Cut.read c cs = ⟨.ok kind, taken, rest⟩)
    (hcomment : c = '/' → cs.head? ≠ some '/' ∧ cs.head? ≠ some '*')
    (hplain : kind.quotesPlainly taken = true)
    (hclear : afterDigit = true → taken.head? ≠ some '\'') :
    ∃ w, taken = c :: w ∧
      let behind := stripFrom (.code (endsInDigit false taken)) rest
      stripFrom (.code afterDigit) (c :: cs) = c :: (w ++ behind) ∧
        Cut.read c (w ++ behind) = ⟨.ok kind, taken, behind⟩ := by
  obtain ⟨w, rfl, rfl⟩ := Cut.read_cons hread
  refine ⟨w, rfl, ?_⟩
  rcases Cut.literal_or_not c (w ++ rest) with ⟨mark, quote, z, hmark, hquote, hz⟩ | ⟨hmark, hquote⟩
  · exact stripFrom_quoted hread hplain hmark hquote hz fun h hc => hclear h (congrArg some hc)
  · exact stripFrom_unquoted hread hplain hmark hquote hcomment

/-! ## Texts -/

theorem Spot.line_past_eq {s t : Spot} (h : s.line = t.line) {x y : List Char}
    (hcount : x.count '\n' = y.count '\n') : (s.past x).line = (t.past y).line := by
  rw [Spot.line_past, Spot.line_past, h, hcount]

theorem skipGap_stripFrom (s : Scan) (spot : Spot) (afterDigit : Bool) :
    ∃ blanks behind, (∀ c ∈ blanks, isBlank c = true) ∧
      stripFrom (.code afterDigit) s.rest = blanks ++ stripFrom (.code behind) s.skipGap.rest ∧
      (spot.line = s.spot.line → (spot.past blanks).line = s.skipGap.spot.line) ∧
      (behind = true → afterDigit = true ∧ s.skipGap.spot = s.spot) := by
  by_cases hgap : Gap.length .blank s.rest = 0
  · refine ⟨[], afterDigit, by simp, ?_, ?_, fun h => ⟨h, ?_⟩⟩ <;> simp [Scan.skipGap, hgap, Spot.past]
  · obtain ⟨blanks, hstrip, hblank, hcount⟩ := becomesBlank_gap .blank s.rest
    refine ⟨blanks, false, hblank, ?_, fun h => Spot.line_past_eq h hcount, by rintro ⟨⟩⟩
    rw [stripFrom_of_gap hgap]
    exact hstrip

theorem length_skipGap_le (s : Scan) : s.skipGap.rest.length ≤ s.rest.length := by
  rw [Scan.skipGap, List.length_drop]
  exact Nat.sub_le ..

section Steps

variable {s left : Scan} {token : Token} (n : Nat) (faults : List ScanFault)

theorem commentedFrom_end (h : s.skipGap.next = (.ok token, left)) (hend : token.isEnd = true) :
    s.commentedFrom (n + 1) faults = [⟨faults, token⟩] := by
  rw [Scan.commentedFrom, h]
  exact if_pos hend

theorem commentedFrom_token (h : s.skipGap.next = (.ok token, left)) (hend : token.isEnd = false) :
    s.commentedFrom (n + 1) faults = ⟨faults, token⟩ :: left.commentedFrom n [] := by
  rw [Scan.commentedFrom, h]
  exact if_neg (Bool.eq_false_iff.1 hend)

theorem commentedFrom_fault {fault : ScanFault} (h : s.skipGap.next = (.error fault, left)) :
    s.commentedFrom (n + 1) faults = left.commentedFrom n (faults ++ [fault]) := by
  rw [Scan.commentedFrom, h]

end Steps

theorem skipped_ne_nil {n : Nat} {s : Scan} (hn : s.rest.length < n) {faults : List ScanFault}
    (h : faults ≠ []) : (s.commentedFrom n faults).flatMap Piece.skipped ≠ [] := by
  induction n generalizing s faults with
  | zero => omega
  | succ n ih =>
    rcases hnext : s.skipGap.next with ⟨fault | token, left⟩
    · have hlt := (Scan.next_error hnext).1
      have hle := length_skipGap_le s
      rw [commentedFrom_fault n faults hnext]
      exact ih (by omega) (by simp)
    · cases hend : token.isEnd with
      | true => simp [commentedFrom_end n faults hnext hend, h]
      | false => simp [commentedFrom_token n faults hnext hend, h]

theorem next_stripFrom {s left : Scan} {token : Token} (hnext : s.skipGap.next = (.ok token, left))
    (hplain : token.kind.quotesPlainly token.lexeme.toList = true)
    (hclear : afterDigit = true → token.spot = s.spot → token.lexeme.toList.head? ≠ some '\'')
    {spot : Spot} (hline : spot.line = s.spot.line) :
    ∃ token' spot', token'.inLine = token.inLine ∧ spot'.line = left.spot.line ∧
      left.spot = token.spot.past token.lexeme.toList ∧
      (⟨spot, stripFrom (.code afterDigit) s.rest⟩ : Scan).next = (.ok token',
        ⟨spot', stripFrom (.code (endsInDigit false token.lexeme.toList)) left.rest⟩) := by
  obtain ⟨blanks, behind, hblank, hstrip, hspot, hbehind⟩ := skipGap_stripFrom s spot afterDigit
  have hgap : Gap.length .blank s.skipGap.rest = 0 := length_drop_gap .blank s.rest
  rw [hstrip, Scan.next_of_blanks hblank]
  specialize hspot hline
  generalize s.skipGap = gap at hnext hgap hspot hbehind
  rcases gap with ⟨start, - | ⟨c, cs⟩⟩
  · cases hnext
    exact ⟨⟨.eof, "", spot.past blanks⟩, spot.past blanks, by rw [Token.inLine, hspot]; rfl, hspot,
      rfl, rfl⟩
  · obtain ⟨hc, hcomment⟩ := start_of_length_eq_zero hgap
    rcases hread : Cut.read c cs with ⟨cause | kind, taken, rest⟩
    · rw [Scan.next_of_read hc hread] at hnext
      cases hnext
    · rw [Scan.next_of_read hc hread] at hnext
      cases hnext
      dsimp only at hplain hclear ⊢
      rw [String.toList_ofList] at hplain hclear ⊢
      obtain ⟨w, rfl, hstay, hsame⟩ :=
        stripFrom_piece hread hcomment hplain fun h => hclear (hbehind h).1 (hbehind h).2
      rw [hstay, Scan.next_of_read hc hsame]
      exact ⟨_, _, by rw [Token.inLine, hspot]; rfl, Spot.line_past_eq hspot rfl, rfl, rfl⟩

/-- The tokens of what stays of a text, from a place on where the search for comments is in the
program. -/
theorem tokens_stripFrom {n : Nat} {s : Scan} {spot : Spot} (afterDigit : Bool)
    (hn : s.rest.length < n) (hline : spot.line = s.spot.line)
    (hfaults : (s.commentedFrom n []).flatMap Piece.skipped = [])
    (hsep : Separated ((s.commentedFrom n []).map Piece.token))
    (hclear : afterDigit = true → ∀ t ∈ ((s.commentedFrom n []).map Piece.token).head?,
      t.spot = s.spot → t.lexeme.toList.head? ≠ some '\'') :
    let t : Scan := ⟨spot, stripFrom (.code afterDigit) s.rest⟩
    t.faults = [] ∧
      t.tokens.map Token.inLine = ((s.commentedFrom n []).map Piece.token).map Token.inLine := by
  induction n generalizing s spot afterDigit with
  | zero => omega
  | succ n ih =>
    have hle := length_skipGap_le s
    rcases hnext : s.skipGap.next with ⟨fault | token, left⟩
    · have hlt := (Scan.next_error hnext).1
      rw [commentedFrom_fault n [] hnext] at hfaults
      exact absurd hfaults (skipped_ne_nil (by omega) (by simp))
    · obtain ⟨hshort, hpos⟩ := Scan.next_length hnext
      cases hend : token.isEnd with
      | true =>
        rw [commentedFrom_end n [] hnext hend] at hsep hclear ⊢
        obtain ⟨token', spot', hsame, -, -, hnext'⟩ :=
          next_stripFrom hnext hsep.of_cons.1 (fun h => hclear h token rfl) hline
        have hend' : token'.isEnd = true := (congrArg (·.1 == .eof) hsame).trans hend
        obtain ⟨htokens, hnone⟩ := Scan.tokens_of_end hnext' hend'
        refine ⟨hnone, (congrArg (List.map Token.inLine) htokens).trans ?_⟩
        exact congrArg ([·]) hsame
      | false =>
        rw [commentedFrom_token n [] hnext hend] at hfaults hsep hclear ⊢
        obtain ⟨hplain, hfollow, hrest⟩ := hsep.of_cons
        obtain ⟨token', spot', hsame, hline', hspot, hnext'⟩ :=
          next_stripFrom hnext hplain (fun h => hclear h token rfl) hline
        have hend' : token'.isEnd = false := (congrArg (·.1 == .eof) hsame).trans hend
        obtain ⟨htokens, hnone⟩ := Scan.tokens_of_token hnext' hend'
        have hlt := hpos hend
        obtain ⟨hnone', htokens'⟩ := ih _ (by omega) hline' hfaults hrest
          fun hdigit u hu hat => hfollow u hu (hat.trans hspot) hdigit
        refine ⟨hnone.trans hnone', (congrArg (List.map Token.inLine) htokens).trans ?_⟩
        exact congrArg₂ List.cons hsame htokens'

/-- **Comments and tokens**: if the text with comments has no fault and its quotes separate digits
just where they follow digits, the text without comments has no fault either, and the same tokens at
the same lines. -/
theorem tokenize_stripComments {text : String} (hfaults : (tokenizeCommented text).2 = [])
    (hsep : Separated (tokenizeCommented text).1) :
    let stripped := tokenize (String.ofList (stripComments text.toList))
    stripped.2 = [] ∧
      stripped.1.map Token.inLine = (tokenizeCommented text).1.map Token.inLine := by
  intro stripped
  let s : Scan := .start text
  have hstripped : stripped = (Scan.tokens ⟨.first, stripFrom (.code false) s.rest⟩,
      Scan.faults ⟨.first, stripFrom (.code false) s.rest⟩) := by
    show tokenize _ = _
    rw [tokenize, Scan.start, String.toList_ofList]
    rfl
  have hfirst : Spot.first.line = s.spot.line := rfl
  obtain ⟨hnone, htokens⟩ :=
    tokens_stripFrom false (Nat.lt_succ_self s.rest.length) hfirst hfaults hsep (by rintro ⟨⟩)
  rw [hstripped]
  exact ⟨hnone, htokens⟩

theorem tokenize_stripComments_literals :
    let text := "x = 1'000 /* a\n' */ + u8\"//\"; // '\n'/*' /"
    let stripped := tokenize (String.ofList (stripComments text.toList))
    stripped.2 = [] ∧ stripped.1.map Token.inLine =
      [(.identifier, "x", 1), (.assign, "=", 1), (.intLiteral, "1'000", 1), (.plus, "+", 2),
        (.stringLiteral, "u8\"//\"", 2), (.semicolon, ";", 2), (.charLiteral, "'/*'", 3),
        (.slash, "/", 3), (.eof, "", 3)] := by
  intro text stripped
  have hfaults : (tokenizeCommented text).2 = [] := by decide +kernel
  have hsep : Separated (tokenizeCommented text).1 := ⟨by decide +kernel, by decide +kernel⟩
  obtain ⟨hnone, htokens⟩ := tokenize_stripComments hfaults hsep
  refine ⟨hnone, htokens.trans ?_⟩
  decide +kernel

/-- A quote behind the mark `u8` is taken for a separator of digits, so that the comment behind the
literal stays. -/
theorem stripComments_keeps_comment :
    let text := "u8'a' // b"
    (tokenizeCommented text).2 = [] ∧
      (tokenizeCommented text).1.map Token.inLine = [(.charLiteral, "u8'a'", 1), (.eof, "", 1)] ∧
      stripComments text.toList = text.toList ∧
      ((tokenize text).1.map Token.inLine).length = 5 := by
  decide +kernel

end Macro

end Serpentine

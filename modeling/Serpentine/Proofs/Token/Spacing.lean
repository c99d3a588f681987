import Serpentine.Proofs.Token.Concatenation
import Serpentine.Proofs.Token.Shape

/-!
# Lexemes on their own

Where a token ends is decided by what follows it. The decision holds up when something else follows:
alone or in front of a space, the characters of a token are read as the same token
(**`tokenize_spaced`**).
-/

namespace Serpentine

namespace Cut

variable {c : Char} {x z cs : List Char} {kind : Kind}

theorem word_alone (cs : List Char) :
    word (word cs).taken = ⟨(word cs).found, (word cs).taken, []⟩ := by
  have hall : (cs.takeWhile isNameChar).dropWhile isNameChar = [] :=
    List.dropWhile_eq_nil_iff.2 fun _ => List.mem_takeWhile_imp
  simp only [word, List.takeWhile_idem, hall]

/-! ### Numbers -/

/-- A character that a decimal number goes on with. -/
def isDecimalPart (c : Char) : Bool :=
  c.isDigit || c == '\'' || c == '.' || c == 'e' || c == 'E'

theorem decimalLength_stop (float : Bool) (hz : z.head?.any isDecimalPart = false) :
    decimalLength float z = (0, float) := by
  cases z with
  | nil => rfl
  | cons c z =>
    simp only [List.head?_cons, Option.any_some, isDecimalPart, Bool.or_eq_false_iff] at hz
    simp [decimalLength.eq_def, hz]

theorem decimalLength_take (float : Bool) (cs : List Char)
    (hz : z.head?.any isDecimalPart = false) :
    decimalLength float (cs.take (decimalLength float cs).1 ++ z) = decimalLength float cs := by
  induction float, cs using decimalLength.induct with
  | case1 float => exact decimalLength_stop float hz
  | case2 float c x hdigit ih =>
    rw [decimalLength.eq_def float (c :: x)]
    simp only [if_pos hdigit, List.take_succ_cons, List.cons_append]
    rw [decimalLength.eq_def]
    simp only [if_pos hdigit, ih]
  | case3 float c x hdigit hpoint ih =>
    rw [decimalLength.eq_def float (c :: x)]
    simp only [if_neg hdigit, if_pos hpoint, List.take_succ_cons, List.cons_append]
    rw [decimalLength.eq_def]
    simp only [if_neg hdigit, if_pos hpoint, ih]
  | case4 float c hdigit hpoint hexp => simp [exponentFollows] at hexp
  | case5 float c hdigit hpoint sign x hexp ih =>
    -- The digit behind a sign is taken with it.
    have hkept : ((c == 'e' || c == 'E') &&
        exponentFollows (sign :: (x.take (decimalLength true x).1 ++ z))) = true := by
      simp only [exponentFollows, Bool.or_eq_true, Bool.and_eq_true] at hexp ⊢
      refine hexp.imp_right (Or.imp_right (And.imp_right fun hhead => ?_))
      cases x with
      | nil => cases hhead
      | cons d x =>
        have hd : d.isDigit = true := hhead
        simp [decimalLength.eq_def true (d :: x), hd]
    rw [decimalLength.eq_def float (c :: sign :: x)]
    simp only [if_neg hdigit, if_neg hpoint, if_pos hexp, List.take_succ_cons, List.cons_append]
    rw [decimalLength.eq_def]
    simp only [if_neg hdigit, if_neg hpoint, if_pos hkept, ih]
  | case6 float c x hdigit hpoint hexp =>
    rw [decimalLength.eq_def float (c :: x)]
    simp only [if_neg hdigit, if_neg hpoint, if_neg hexp, List.take_zero, List.nil_append]
    exact decimalLength_stop float hz

/-- The characters of a suffix. -/
def suffixes (float : Bool) : List Char :=
  'l' :: 'L' :: if float then ['f', 'F'] else ['u', 'U']

theorem head?_suffix {float : Bool} {p : Char → Bool} (hz : ∀ c ∈ z, isNumberSuffix float c = true)
    (hp : (suffixes float).any p = false) : z.head?.any p = false := by
  cases z with
  | nil => rfl
  | cons c z =>
    refine Bool.eq_false_iff.2 (List.any_eq_false.1 hp c ?_)
    have hc := hz c List.mem_cons_self
    cases float <;> simp [isNumberSuffix, suffixes] at hc ⊢ <;> tauto

theorem hasRadixMark_cons_cons (a b : Char) (x y : List Char) :
    hasRadixMark (a :: b :: x) = hasRadixMark (a :: b :: y) := by
  by_cases ha : a = '0'
  · subst ha
    rfl
  · simp [hasRadixMark, ha]

theorem hasRadixMark_of_take {n : Nat} (h : hasRadixMark (cs.take n) = true) :
    hasRadixMark cs = true := by
  have hlen := length_ge_of_hasRadixMark h
  rcases n with - | - | n
  · simp at hlen
  · rw [List.length_take] at hlen
    omega
  · rcases cs with - | ⟨a, - | ⟨b, cs⟩⟩
    · exact h
    · exact h
    · exact (hasRadixMark_cons_cons a b _ _).symm.trans h

theorem numberLength_take {float : Bool} {n : Nat} (hn : numberLength cs = (n, float))
    (hz : ∀ c ∈ z, isNumberSuffix float c = true) : numberLength (cs.take n ++ z) = (n, float) := by
  unfold numberLength at hn ⊢
  by_cases hmark : hasRadixMark cs
  · rw [if_pos hmark] at hn
    obtain ⟨rfl, rfl⟩ := Prod.mk.inj hn
    rcases cs with - | ⟨a, - | ⟨b, cs⟩⟩
    · cases hmark
    · simp [hasRadixMark] at hmark
    · have htake := List.prefix_iff_eq_take.1
        (List.takeWhile_prefix (l := cs) fun c => isHexDigit c || c == '\'')
      have hstop := head?_suffix hz (p := fun c => isHexDigit c || c == '\'') (by decide)
      simp only [Nat.add_comm 2, List.take_succ_cons, List.cons_append, List.drop_succ_cons,
        List.drop_zero, ← htake, takeWhile_append_of_head _ hstop, List.takeWhile_idem,
        hasRadixMark_cons_cons a b _ cs, if_pos hmark]
  · have hnone : ¬ hasRadixMark (cs.take n ++ z) = true := by
      rw [hasRadixMark_append _ (head?_suffix hz (by cases float <;> decide))]
      exact fun h => hmark (hasRadixMark_of_take h)
    rw [if_neg hmark] at hn
    rw [if_neg hnone]
    have hstop := head?_suffix hz (p := isDecimalPart) (by cases float <;> decide)
    have hdecimal := decimalLength_take false cs hstop
    rwa [hn] at hdecimal

theorem number_alone (cs : List Char) :
    number (number cs).taken = ⟨(number cs).found, (number cs).taken, []⟩ := by
  have hle := (numberLength_breaks cs (y := []) (by rintro _ ⟨⟩)).2
  rcases hn : numberLength cs with ⟨n, float⟩
  rw [hn] at hle
  have hsuffix : ∀ c ∈ (cs.drop n).takeWhile (isNumberSuffix float), isNumberSuffix float c = true :=
    fun _ => List.mem_takeWhile_imp
  have hlen : (cs.take n).length = n := List.length_take_of_le hle
  simp only [number, hn, numberLength_take hn hsuffix, List.take_left' hlen, List.drop_left' hlen,
    List.takeWhile_idem, List.dropWhile_eq_nil_iff.2 hsuffix]

theorem digit_behind_point (hc : (c.isDigit || (c == '.' && cs.head?.any Char.isDigit)) = true)
    (hx : (number (c :: cs)).taken = c :: x) :
    (c.isDigit || (c == '.' && x.head?.any Char.isDigit)) = true := by
  rw [Bool.or_eq_true, Bool.and_eq_true, beq_iff_eq] at hc ⊢
  refine hc.imp_right ?_
  rintro ⟨rfl, hhead⟩
  cases cs with
  | nil => cases hhead
  | cons d cs =>
    have hd : d.isDigit = true := hhead
    have hn : (numberLength ('.' :: d :: cs)).1 = (decimalLength true cs).1 + 2 := by
      change (decimalLength true (d :: cs)).1 + 1 = _
      rw [decimalLength.eq_def]
      simp [hd]
    simp only [number, hn, List.take_succ_cons, List.cons_append, List.cons.injEq, true_and] at hx
    rw [← hx]
    exact ⟨rfl, hd⟩

/-! ### Quoted literals -/

theorem quotedFrom_taken {quote : Char} {state : QuoteState}
    (h : (quotedFrom quote state cs).found = .ok kind) (y : List Char) :
    quotedFrom quote state ((quotedFrom quote state cs).taken ++ y) =
      ⟨.ok kind, (quotedFrom quote state cs).taken, y⟩ := by
  induction cs generalizing state with
  | nil => cases h
  | cons c cs ih =>
    rw [quotedFrom] at h ⊢
    cases hstep : state.step quote c with
    | more next =>
      rw [hstep] at h
      simp only [after, List.cons_append, List.nil_append, quotedFrom, hstep, ih h]
    | close =>
      rw [hstep] at h
      simp only [List.cons_append, List.nil_append, quotedFrom, hstep]
      rw [← h]
    | stop cause =>
      rw [hstep] at h
      cases h

theorem quoted_taken (h : (quoted cs).found = .ok kind) (y : List Char) :
    quoted ((quoted cs).taken ++ y) = ⟨.ok kind, (quoted cs).taken, y⟩ := by
  cases cs with
  | nil => cases h
  | cons quote cs =>
    simp only [quoted, after, List.cons_append, List.nil_append]
    rw [quotedFrom_taken h y]

/-! ### Operators -/

section

variable (h : (operator c cs).found = .ok kind)

include h

theorem operator_found :
    ∃ before behind, operators = before ++ ((operator c cs).taken, kind) :: behind ∧
      (operator c cs).taken <+: c :: cs ∧ ∀ o ∈ before, ¬ o.1 <+: c :: cs := by
  unfold operator at h ⊢
  cases hfind : operators.find? fun o => o.1.isPrefixOf (c :: cs) with
  | none =>
    rw [hfind] at h
    cases h
  | some o =>
    rw [hfind] at h
    obtain ⟨spelling, found⟩ := o
    obtain rfl := Except.ok.inj h
    obtain ⟨hbegins, before, behind, hsplit, hnone⟩ := List.find?_eq_some_iff_append.1 hfind
    refine ⟨before, behind, hsplit, List.isPrefixOf_iff_prefix.1 hbegins, fun o ho hstart => ?_⟩
    have hfalse := hnone o ho
    rw [List.isPrefixOf_iff_prefix.2 hstart] at hfalse
    cases hfalse

theorem operator_alone
    (hx : (operator c cs).taken = c :: x) : operator c x = ⟨.ok kind, c :: x, []⟩ := by
  obtain ⟨before, behind, hsplit, hbegins, hnone⟩ := operator_found h
  rw [hx] at hsplit hbegins
  have hfind : (operators.find? fun o => o.1.isPrefixOf (c :: x)) = some (c :: x, kind) := by
    refine List.find?_eq_some_iff_append.2 ⟨?_, before, behind, hsplit, fun o ho => ?_⟩
    · exact List.isPrefixOf_iff_prefix.2 (List.prefix_refl _)
    · rw [Bool.not_eq_true', ← Bool.not_eq_true, List.isPrefixOf_iff_prefix]
      exact fun hstart => hnone o ho (hstart.trans hbegins)
  rw [operator, hfind]
  simp

theorem operator_longest {o : List Char × Kind} (ho : o ∈ operators) (hbegins : o.1 <+: c :: cs) :
    o.1.length ≤ (operator c cs).taken.length := by
  have hsorted : operators.Pairwise fun a b => b.1.length ≤ a.1.length := by decide
  obtain ⟨before, behind, hsplit, -, hnone⟩ := operator_found h
  rw [hsplit, List.pairwise_append, List.pairwise_cons] at hsorted
  rw [hsplit, List.mem_append, List.mem_cons] at ho
  rcases ho with ho | rfl | ho
  · exact absurd hbegins (hnone o ho)
  · exact Nat.le_refl _
  · exact hsorted.2.1.1 o ho

end

/-! ### Pieces -/

theorem encodingMark?_of_append (h : encodingMark? (x ++ z) = none) : encodingMark? x = none := by
  refine List.find?_eq_none.2 fun mark hmark hx => List.find?_eq_none.1 h mark hmark ?_
  rw [Bool.and_eq_true, List.isPrefixOf_iff_prefix] at hx ⊢
  refine ⟨hx.1.trans (List.prefix_append x z), ?_⟩
  rw [List.drop_append_of_le_length hx.1.length_le]
  cases hrest : x.drop mark.length with
  | nil => simp [hrest] at hx
  | cons quote rest => simpa [hrest] using hx.2

section

variable (h : read c (x ++ z) = ⟨.ok kind, c :: x, z⟩)

include h

/-- A token that is no literal, on its own. -/
theorem read_alone (hmark : encodingMark? (c :: (x ++ z)) = none) (hquote : isQuote c = false) :
    read c x = ⟨.ok kind, c :: x, []⟩ := by
  have hnone : encodingMark? (c :: x) = none := encodingMark?_of_append hmark
  simp only [read, hmark, hquote, Bool.false_eq_true, if_false] at h
  simp only [read, hnone, hquote, Bool.false_eq_true, if_false]
  split_ifs at h with hname hnumber
  · have hword := word_alone (c :: (x ++ z))
    rw [h] at hword
    rw [if_pos hname, hword]
  · have halone := number_alone (c :: (x ++ z))
    rw [h] at halone
    rw [if_neg hname, if_pos (digit_behind_point hnumber (congrArg Cut.taken h)), halone]
  · have hpoint : ¬ (c.isDigit || (c == '.' && x.head?.any Char.isDigit)) = true := by
      cases x with
      | nil => simp_all
      | cons d x => exact hnumber
    rw [if_neg hname, if_neg hpoint]
    exact operator_alone (congrArg Cut.found h) (congrArg Cut.taken h)

/-- Nothing behind a literal has a part in it. -/
theorem read_literal {mark w : List Char} {quote : Char} (hmark : mark = [] ∨ mark ∈ encodingMarks)
    (hquote : isQuote quote = true) (hw : c :: (x ++ z) = mark ++ quote :: w) (y : List Char) :
    read c (x ++ y) = ⟨.ok kind, c :: x, y⟩ := by
  rw [read_quoted hmark hquote hw] at h
  have htaken : mark ++ (quoted (quote :: w)).taken = c :: x := congrArg Cut.taken h
  have hagain := quoted_taken (congrArg Cut.found h) y
  obtain ⟨more, hmore⟩ := starts_quoted quote w
  rw [hmore] at htaken hagain
  have hliteral : c :: (x ++ y) = mark ++ quote :: (more ++ y) := by
    rw [← List.cons_append, ← htaken, List.append_assoc, List.cons_append]
  rw [read_quoted hmark hquote hliteral, ← List.cons_append, hagain, after, htaken]

/-- A token in front of a gap. -/
theorem read_before {y : List Char} (hy : Stops y) : read c (x ++ y) = ⟨.ok kind, c :: x, y⟩ := by
  rcases literal_or_not c (x ++ z) with ⟨mark, quote, w, hmark, hquote, hw⟩ | ⟨hmark, hquote⟩
  · exact read_literal h hmark hquote hw y
  · have hnone : encodingMark? (c :: x) = none := encodingMark?_of_append hmark
    obtain ⟨found, taken, rest, hcut⟩ := read_stops hnone hquote
    have halone := hcut [] (by rintro _ ⟨⟩)
    rw [List.append_nil, List.append_nil, read_alone h hmark hquote] at halone
    cases halone
    exact hcut y hy

end

theorem read_longest (h : (read c cs).found = .ok kind)
    (hkind : ((read c cs).taken, kind) ∈ operators) {o : List Char × Kind} (ho : o ∈ operators)
    (hbegins : o.1 <+: c :: cs) : o.1.length ≤ (read c cs).taken.length := by
  have hall : ∀ o ∈ operators, o.2 ∉ wordKinds := by decide
  have hread := (read_cases h).resolve_left (hall _ hkind)
  rw [hread] at h ⊢
  exact operator_longest h ho hbegins

end Cut

/-! ## Scans -/

namespace Scan

variable {s left : Scan} {token : Token}

theorem next_passed (s : Scan) :
    ∃ passed, s.rest = passed ++ s.next.2.rest ∧ s.next.2.spot = s.spot.past passed := by
  have hsplit : s.rest.takeWhile isBlank ++ s.rest.dropWhile isBlank = s.rest :=
    List.takeWhile_append_dropWhile
  cases hrest : s.rest.dropWhile isBlank with
  | nil =>
    refine ⟨s.rest.takeWhile isBlank, ?_⟩
    simp only [next, skipBlanks, hrest]
    exact ⟨by rw [← hrest, hsplit], trivial⟩
  | cons c cs =>
    refine ⟨s.rest.takeWhile isBlank ++ (Cut.read c cs).taken, ?_⟩
    rw [List.append_assoc, Spot.past_append]
    simp only [next, skipBlanks, hrest]
    split <;> exact ⟨by rw [Cut.read_append, ← hrest, hsplit], rfl⟩

/-- A token is the next one at some place of a text. -/
def Meets (s : Scan) (token : Token) : Prop :=
  ∃ (passed : List Char) (a left : Scan), s.rest = passed ++ a.rest ∧
    a.spot = s.spot.past passed ∧ a.next = (.ok token, left)

theorem Meets.of_next (h : s.next.2.Meets token) : s.Meets token := by
  obtain ⟨passed, a, left, hrest, hspot, ha⟩ := h
  obtain ⟨before, hbefore, hleft⟩ := s.next_passed
  refine ⟨before ++ passed, a, left, ?_, ?_, ha⟩
  · rw [hbefore, hrest, List.append_assoc]
  · rw [hspot, hleft, Spot.past_append]

theorem meets_of_mem (ht : token ∈ s.tokens) : s.Meets token := by
  induction s using piece_induction with
  | ends s other left hnext hend =>
    rw [(tokens_of_end hnext hend).1, List.mem_singleton] at ht
    exact ⟨[], s, left, rfl, rfl, ht ▸ hnext⟩
  | token s other left hnext hend ih =>
    rw [(tokens_of_token hnext hend).1, List.mem_cons] at ht
    rcases ht with rfl | ht
    · exact ⟨[], s, left, rfl, rfl, hnext⟩
    · exact .of_next (by rw [hnext]; exact ih ht)
  | fault s fault left hnext ih =>
    rw [(tokens_of_fault hnext).1] at ht
    exact .of_next (by rw [hnext]; exact ih ht)

theorem next_spaced (h : s.next = (.ok token, left)) (hend : token.isEnd = false) {a : Scan}
    {front y : List Char} (ha : a.rest = front ++ (token.lexeme.toList ++ y))
    (hfront : ∀ c ∈ front, isBlank c = true) (hy : Cut.Stops y) :
    ∃ spot left, a.next = (.ok ⟨token.kind, token.lexeme, spot⟩, left) ∧ left.rest = y := by
  obtain ⟨rfl, -, -⟩ | ⟨c, cs, kind, taken, hrest, hread, rfl, -⟩ := next_eq_ok h
  · cases hend
  · obtain ⟨w, rfl, rfl⟩ := Cut.read_cons hread
    rw [String.toList_ofList] at ha
    have hnext := next_of_read (isBlank_of_skipBlanks hrest) (Cut.read_before hread hy)
      (a.spot.past front)
    rw [← next_of_blanks hfront] at hnext
    refine ⟨a.spot.past front, ⟨(a.spot.past front).past (c :: w), y⟩, ?_, rfl⟩
    rw [show a = ⟨a.spot, front ++ c :: (w ++ y)⟩ by rw [← List.cons_append, ← ha], hnext]
    rfl

theorem tokens_spaced (hs : s.faults = []) {a : Scan} {front : List Char}
    (ha : a.rest = front ++ [' '].intercalate (s.tokens.map (·.lexeme.toList)))
    (hfront : ∀ c ∈ front, isBlank c = true) :
    a.faults = [] ∧ a.tokens.map Token.word = s.tokens.map Token.word := by
  induction s using piece_induction generalizing a front with
  | ends s token left hnext hend =>
    rw [(tokens_of_end hnext hend).1] at ha ⊢
    obtain ⟨rfl, -, -⟩ | ⟨c, cs, kind, taken, -, hread, rfl, -⟩ := next_eq_ok hnext
    · obtain ⟨htokens, hfaults⟩ := tokens_of_blank (s := a) (by simpa [ha] using hfront)
      rw [htokens, hfaults]
      exact ⟨rfl, rfl⟩
    · obtain rfl : kind = .eof := beq_iff_eq.1 hend
      exact absurd (congrArg Cut.found hread) (Cut.read_ne_eof c cs)
  | token s token left hnext hend ih =>
    obtain ⟨htokens, hfaults⟩ := tokens_of_token hnext hend
    have hjoin : [' '].intercalate (s.tokens.map (·.lexeme.toList)) =
        token.lexeme.toList ++ ' ' :: [' '].intercalate (left.tokens.map (·.lexeme.toList)) := by
      rw [htokens, tokens, pieces_eq]
      simp [List.intercalate]
    rw [hjoin] at ha
    obtain ⟨spot, rest, hagain, hrest⟩ := next_spaced hnext hend ha hfront
      (by rintro _ ⟨⟩; exact List.mem_cons_self)
    obtain ⟨htokens', hfaults'⟩ := tokens_of_token hagain hend
    have hblank : ∀ c ∈ [' '], isBlank c = true := List.forall_mem_singleton.2 rfl
    obtain ⟨hclean, hwords⟩ := ih (hfaults ▸ hs) hrest hblank
    rw [htokens', hfaults', htokens, List.map_cons, List.map_cons, hwords]
    exact ⟨hclean, rfl⟩
  | fault s fault left hnext ih =>
    rw [(tokens_of_fault hnext).2] at hs
    cases hs

end Scan

/-- **Lexemes delimit themselves.** A text without faults is made of the same words as its lexemes set
apart by spaces. Each lexeme alone is one token of its kind, and an operator is the longest that the
text goes on with at its place. -/
theorem tokenize_spaced {text : String} (h : (tokenize text).2 = []) :
    SameWords text (" ".intercalate ((tokenize text).1.map Token.lexeme)) ∧
      (∀ t ∈ (tokenize text).1, t.kind ≠ .eof → (tokenize t.lexeme).2 = [] ∧
        (tokenize t.lexeme).1.map Token.word = [t.word, (.eof, "")]) ∧
      ∀ t ∈ (tokenize text).1, (t.lexeme.toList, t.kind) ∈ operators →
        ∃ front rest, text.toList = front ++ (t.lexeme.toList ++ rest) ∧ t.spot = .behind front ∧
          ∀ o ∈ operators, o.1 <+: t.lexeme.toList ++ rest → o.1.length ≤ t.lexeme.length := by
  refine ⟨?_, fun t ht hkind => ?_, fun t ht hoperator => ?_⟩
  · have hjoined : (Scan.start (" ".intercalate ((tokenize text).1.map Token.lexeme))).rest =
        [] ++ [' '].intercalate ((Scan.start text).tokens.map (·.lexeme.toList)) := by
      rw [Scan.start, String.toList_intercalate, List.map_map]
      rfl
    generalize " ".intercalate ((tokenize text).1.map Token.lexeme) = spaced at hjoined
    obtain ⟨hclean, hwords⟩ := Scan.tokens_spaced (s := .start text) h hjoined (by simp)
    exact ⟨h, hclean, hwords.symm⟩
  · have hend : t.isEnd = false := by simpa [Token.isEnd] using hkind
    obtain ⟨_, _, _, -, -, hnext⟩ := Scan.meets_of_mem ht
    have halone : (Scan.start t.lexeme).rest = [] ++ (t.lexeme.toList ++ []) := by simp [Scan.start]
    obtain ⟨spot, left, hagain, hrest⟩ := Scan.next_spaced hnext hend halone (by simp)
      (by rintro _ ⟨⟩)
    obtain ⟨htokens, hfaults⟩ := Scan.tokens_of_token hagain hend
    obtain ⟨hlast, hclean⟩ := Scan.tokens_of_blank (s := left) (by simp [hrest])
    refine ⟨hfaults.trans hclean, ?_⟩
    change (Scan.start t.lexeme).tokens.map Token.word = _
    rw [htokens, hlast]
    rfl
  · have hall : ∀ o ∈ operators, o.2 ≠ .eof := by decide
    obtain ⟨passed, a, left, hpassed, hspot, hnext⟩ := Scan.meets_of_mem ht
    obtain ⟨rfl, -, -⟩ | ⟨c, cs, kind, taken, hrest, hread, rfl, -⟩ := Scan.next_eq_ok hnext
    · exact absurd rfl (hall _ hoperator)
    · have happend := Cut.read_append c cs
      rw [hread] at happend
      rw [String.toList_ofList] at hoperator ⊢
      refine ⟨passed ++ a.rest.takeWhile isBlank, left.rest, ?_, ?_, fun o ho hbegins => ?_⟩
      · rw [List.append_assoc, happend, ← hrest, ← Scan.rest_eq]
        exact hpassed
      · rw [← List.nil_append (passed ++ _), Spot.behind_append, Spot.past_append]
        exact congrArg (Spot.past · _) hspot
      · rw [happend] at hbegins
        have hlongest := Cut.read_longest (congrArg Cut.found hread) (by rwa [hread]) ho hbegins
        rw [hread] at hlongest
        exact hlongest.trans_eq String.length_ofList.symm

theorem tokenize_spaced_glued :
    (tokenize "x->*y.5e+3f>>=L'\\''...").2 = [] ∧
      SameWords "x->*y.5e+3f>>=L'\\''..." "x ->* y .5e+3f >>= L'\\'' ... " := by
  have h : (tokenize "x->*y.5e+3f>>=L'\\''...").2 = [] := by decide +kernel
  have htext : " ".intercalate ((tokenize "x->*y.5e+3f>>=L'\\''...").1.map Token.lexeme) =
      "x ->* y .5e+3f >>= L'\\'' ... " := by decide +kernel
  have hwords := (tokenize_spaced h).1
  rw [htext] at hwords
  exact ⟨h, hwords⟩

end Serpentine

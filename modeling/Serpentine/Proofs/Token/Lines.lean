import Mathlib.Data.Bool.AllAny
import Mathlib.Data.List.TakeWhile
import Serpentine.Proofs.Token.Order

/-!
# Lines of a text

No piece of a text reaches over the end of a line, so what stands behind the line has no part in it.
For names, numbers and operators the same holds of other characters that they do not go on with.
-/

namespace Serpentine

variable {p : Char → Bool}

section Append

variable (x : List Char) {y : List Char}

theorem takeWhile_append_of_head (hy : y.head?.any p = false) :
    (x ++ y).takeWhile p = x.takeWhile p := by
  induction x with
  | nil => cases y <;> simp_all
  | cons c x ih =>
    simp only [List.cons_append, List.takeWhile_cons, ih]

theorem dropWhile_append_of_head (hy : y.head?.any p = false) :
    (x ++ y).dropWhile p = x.dropWhile p ++ y := by
  induction x with
  | nil => cases y <;> simp_all
  | cons c x ih =>
    simp only [List.cons_append, List.dropWhile_cons, ih]
    split <;> rfl

theorem isPrefixOf_append_of_head {word : List Char} (hw : ∀ c ∈ word, y.head? ≠ some c) :
    word.isPrefixOf (x ++ y) = word.isPrefixOf x := by
  induction word generalizing x with
  | nil => simp
  | cons c word ih =>
    rw [List.forall_mem_cons] at hw
    cases x with
    | nil =>
      cases y with
      | nil => rfl
      | cons d y => simp [List.isPrefixOf, show c ≠ d by rintro rfl; exact hw.1 rfl]
    | cons d x => simp [List.isPrefixOf, ih x hw.2]

theorem any_head?_append (hy : y.head?.any p = false) : (x ++ y).head?.any p = x.head?.any p := by
  cases x with
  | nil => simpa using hy
  | cons c x => rfl

end Append

theorem find?_congr {α : Type} {p q : α → Bool} {l : List α} (h : ∀ a ∈ l, p a = q a) :
    l.find? p = l.find? q := by
  rw [← List.head?_filter, List.filter_congr h, List.head?_filter]

/-! ## Pieces -/

namespace Cut

theorem read_cons {c : Char} {cs taken rest : List Char} {found : Except ScanCause Kind}
    (h : read c cs = ⟨found, taken, rest⟩) : ∃ w, taken = c :: w ∧ w ++ rest = cs := by
  have happend := read_append c cs
  have hne := taken_ne_nil c cs
  rw [h] at happend hne
  obtain ⟨d, w, rfl⟩ := List.exists_cons_of_ne_nil hne
  obtain ⟨rfl, hrest⟩ := List.cons.inj happend
  exact ⟨w, rfl, hrest⟩

/-! ### What a piece does not depend on -/

/-- Characters that no name, number or operator goes on with. -/
def breaks : List Char :=
  [' ', '\n', '/', '\"']

/-- The text is over, or goes on with such a character. -/
def Breaks (y : List Char) : Prop :=
  ∀ c ∈ y.head?, c ∈ breaks

section Breaks

variable (x : List Char) {y : List Char} (hy : Breaks y)
include hy

theorem Breaks.any_head? (hp : breaks.any p = false) : y.head?.any p = false := by
  cases y with
  | nil => rfl
  | cons c y => exact Bool.eq_false_iff.2 (List.any_eq_false.1 hp c (hy c rfl))

theorem Breaks.head?_ne {word : List Char} (hw : breaks.all (· ∉ word)) :
    ∀ c ∈ word, y.head? ≠ some c :=
  fun c hc hhead => List.all_iff_forall_prop.1 hw c (hy c hhead) hc

theorem exponentFollows_breaks : exponentFollows (x ++ y) = exponentFollows x := by
  cases x with
  | nil =>
    cases y with
    | nil => rfl
    | cons c y =>
      have hc : ∀ c ∈ breaks, (c.isDigit || c == '+' || c == '-') = false :=
        List.all_iff_forall_prop.1 (by decide)
      have hfalse := hc c (hy c rfl)
      simp only [Bool.or_eq_false_iff] at hfalse
      simp [exponentFollows, hfalse]
  | cons c x =>
    rw [List.cons_append, exponentFollows, exponentFollows,
      any_head?_append x (hy.any_head? (by decide))]

theorem decimalLength_breaks (float : Bool) :
    decimalLength float (x ++ y) = decimalLength float x ∧
      (decimalLength float x).1 ≤ x.length := by
  induction float, x using decimalLength.induct with
  | case1 float =>
    refine ⟨?_, Nat.zero_le _⟩
    cases y with
    | nil => rfl
    | cons c y =>
      have hc : ∀ c ∈ breaks, (c.isDigit || c == '\'') = false ∧ c ≠ '.' ∧ c ≠ 'e' ∧ c ≠ 'E' :=
        List.all_iff_forall_prop.1 (by decide)
      obtain ⟨hdigit, hpoint, he, hE⟩ := hc c (hy c rfl)
      rw [List.nil_append, decimalLength.eq_def, decimalLength]
      simp [hdigit, hpoint, he, hE]
  | case2 float c x hdigit ih =>
    rw [List.cons_append, decimalLength.eq_def float (c :: (x ++ _)),
      decimalLength.eq_def float (c :: x)]
    simp only [if_pos hdigit, ih.1, true_and, List.length_cons]
    omega
  | case3 float c x hdigit hpoint ih =>
    rw [List.cons_append, decimalLength.eq_def float (c :: (x ++ _)),
      decimalLength.eq_def float (c :: x)]
    simp only [if_neg hdigit, if_pos hpoint, ih.1, true_and, List.length_cons]
    omega
  | case4 float c hdigit hpoint hexp => simp [exponentFollows] at hexp
  | case5 float c hdigit hpoint sign x hexp ih =>
    have hsame := exponentFollows_breaks (sign :: x) hy
    rw [List.cons_append] at hsame
    rw [List.cons_append, List.cons_append, decimalLength.eq_def float (c :: sign :: (x ++ _)),
      decimalLength.eq_def float (c :: sign :: x)]
    simp only [if_neg hdigit, if_neg hpoint, hsame, if_pos hexp, ih.1, true_and, List.length_cons]
    omega
  | case6 float c x hdigit hpoint hexp =>
    have hsame := exponentFollows_breaks x hy
    rw [List.cons_append, decimalLength.eq_def float (c :: (x ++ _)),
      decimalLength.eq_def float (c :: x)]
    simp only [if_neg hdigit, if_neg hpoint, hsame, if_neg hexp]
    simp

omit hy in
theorem hasRadixMark_append
    (hy : y.head?.any (fun c => c == '0' || c == 'x' || c == 'X' || c == 'b' || c == 'B') = false) :
    hasRadixMark (x ++ y) = hasRadixMark x := by
  have hhead : ∀ d ∈ y.head?, d ≠ '0' ∧ (d == 'x' || d == 'X' || d == 'b' || d == 'B') = false := by
    intro d hd
    simpa [Option.mem_def.1 hd, and_assoc] using hy
  rcases x with - | ⟨c, - | ⟨d, x⟩⟩
  · cases y with
    | nil => rfl
    | cons d y => simp [hasRadixMark, (hhead d rfl).1]
  · by_cases hc : c = '0'
    · subst hc
      cases y with
      | nil => rfl
      | cons d y => exact (hhead d rfl).2
    · simp [hasRadixMark, hc]
  · by_cases hc : c = '0'
    · subst hc
      rfl
    · simp [hasRadixMark, hc]

omit hy in
theorem length_ge_of_hasRadixMark {x : List Char} (h : hasRadixMark x = true) : 2 ≤ x.length := by
  rcases x with - | ⟨c, - | ⟨d, x⟩⟩
  · cases h
  · simp [hasRadixMark] at h
  · simp

theorem numberLength_breaks :
    numberLength (x ++ y) = numberLength x ∧ (numberLength x).1 ≤ x.length := by
  rw [numberLength, numberLength, hasRadixMark_append x (hy.any_head? (by decide))]
  by_cases hmark : hasRadixMark x
  · have hlen := length_ge_of_hasRadixMark hmark
    rw [if_pos hmark, if_pos hmark, List.drop_append_of_le_length hlen,
      takeWhile_append_of_head _ (hy.any_head? (by decide))]
    refine ⟨rfl, ?_⟩
    have htake := (List.takeWhile_sublist (l := x.drop 2) fun c => isHexDigit c || c == '\'').length_le
    rw [List.length_drop] at htake
    dsimp only
    omega
  · rw [if_neg hmark, if_neg hmark]
    exact decimalLength_breaks x hy false

end Breaks

def StopsAtBreak (cut : List Char → Cut) (x : List Char) : Prop :=
  ∃ found taken rest, cut x = ⟨found, taken, rest⟩ ∧
    ∀ y, Breaks y → cut (x ++ y) = ⟨found, taken, rest ++ y⟩

theorem stopsAtBreak_word (x : List Char) : StopsAtBreak word x := by
  refine ⟨.ok (Kind.ofWord (String.ofList (x.takeWhile isNameChar))), x.takeWhile isNameChar,
    x.dropWhile isNameChar, rfl, fun y hy => ?_⟩
  have hhead : y.head?.any isNameChar = false := hy.any_head? (by decide)
  rw [word, takeWhile_append_of_head x hhead, dropWhile_append_of_head x hhead]

theorem stopsAtBreak_number (x : List Char) : StopsAtBreak number x := by
  have hsuffix (float : Bool) : breaks.any (isNumberSuffix float) = false := by
    cases float <;> decide
  have hlen {y : List Char} (hy : Breaks y) := numberLength_breaks x hy
  rcases hn : numberLength x with ⟨n, float⟩
  simp only [hn] at hlen
  refine ⟨.ok (if float then .floatLiteral else .intLiteral),
    x.take n ++ (x.drop n).takeWhile (isNumberSuffix float),
    (x.drop n).dropWhile (isNumberSuffix float), by rw [number, hn], fun y hy => ?_⟩
  obtain ⟨heq, hle⟩ := hlen hy
  have hhead := hy.any_head? (hsuffix float)
  rw [number, heq]
  dsimp only
  rw [List.take_append_of_le_length hle, List.drop_append_of_le_length hle,
    takeWhile_append_of_head _ hhead, dropWhile_append_of_head _ hhead]

theorem stopsAtBreak_operator (c : Char) (x : List Char) : StopsAtBreak (operator c) x := by
  -- The first character is there already, and no operator goes on with a break.
  have hall : ∀ o ∈ operators, breaks.all (· ∉ o.1.tail) := by decide
  have hfind {y : List Char} (hy : Breaks y) :
      (operators.find? fun o => o.1.isPrefixOf (c :: (x ++ y))) =
        operators.find? fun o => o.1.isPrefixOf (c :: x) := by
    refine find?_congr fun o ho => ?_
    have hprefix := isPrefixOf_append_of_head x (hy.head?_ne (hall o ho))
    cases hword : o.1 with
    | nil => rfl
    | cons d word =>
      rw [hword, List.tail_cons] at hprefix
      simp only [List.isPrefixOf, hprefix]
  cases hx : operators.find? fun o => o.1.isPrefixOf (c :: x) with
  | none =>
    refine ⟨.error (.unexpected c), [c], x, by rw [operator, hx], fun y hy => ?_⟩
    rw [operator, hfind hy, hx]
  | some o =>
    obtain ⟨spelling, kind⟩ := o
    have hprefix := List.find?_some hx
    rw [List.isPrefixOf_iff_prefix] at hprefix
    refine ⟨.ok kind, spelling, (c :: x).drop spelling.length, by rw [operator, hx], fun y hy => ?_⟩
    rw [operator, hfind hy, hx]
    dsimp only
    rw [← List.cons_append, List.drop_append_of_le_length hprefix.length_le]

theorem encodingMark?_breaks (x : List Char) {y : List Char} (hy : Breaks y)
    (hquote : y.head?.any isQuote = false) : encodingMark? (x ++ y) = encodingMark? x := by
  have hall : ∀ mark ∈ encodingMarks, breaks.all (· ∉ mark) := by decide
  refine find?_congr fun mark hmark => ?_
  rw [isPrefixOf_append_of_head x (hy.head?_ne (hall mark hmark))]
  by_cases hprefix : mark.isPrefixOf x
  · have hle := (List.isPrefixOf_iff_prefix.1 hprefix).length_le
    rw [List.drop_append_of_le_length hle, any_head?_append _ hquote]
  · rw [Bool.eq_false_iff.2 hprefix, Bool.false_and, Bool.false_and]

/-- The text is over, or goes on with a gap. -/
def Stops (y : List Char) : Prop :=
  ∀ c ∈ y.head?, c ∈ [' ', '\n', '/']

theorem Stops.breaks {y : List Char} (hy : Stops y) : Breaks y := by
  have hall : ∀ c ∈ [' ', '\n', '/'], c ∈ Cut.breaks := List.all_iff_forall_prop.1 (by decide)
  exact fun c hc => hall c (hy c hc)

theorem Stops.any_head?_isQuote {y : List Char} (hy : Stops y) : y.head?.any isQuote = false := by
  have hall : ∀ c ∈ [' ', '\n', '/'], isQuote c = false :=
    List.all_iff_forall_prop.1 (by decide)
  cases y with
  | nil => rfl
  | cons c y => exact hall c (hy c rfl)

/-- A piece that is no literal does not depend on what follows behind a gap. -/
theorem read_stops {c : Char} {z : List Char} (hmark : encodingMark? (c :: z) = none)
    (hquote : isQuote c = false) :
    ∃ found taken rest, ∀ y, Stops y → read c (z ++ y) = ⟨found, taken, rest ++ y⟩ := by
  have hsame {y : List Char} (hy : Stops y) : encodingMark? (c :: (z ++ y)) = none :=
    (encodingMark?_breaks (c :: z) hy.breaks hy.any_head?_isQuote).trans hmark
  have hdigit {y : List Char} (hy : Stops y) : (z ++ y).head?.any Char.isDigit = z.head?.any _ :=
    any_head?_append z (hy.breaks.any_head? (by decide))
  obtain ⟨cut, ⟨found, taken, rest, -, hcut⟩, hread⟩ : ∃ cut, StopsAtBreak cut z ∧
      ∀ y, Stops y → read c (z ++ y) = cut (z ++ y) := by
    by_cases hname : isNameStart c
    · refine ⟨fun x => word (c :: x), stopsAtBreak_word (c :: z), fun y hy => ?_⟩
      simp only [read, hsame hy, if_pos hname]
    by_cases hnumber : c.isDigit || (c == '.' && z.head?.any Char.isDigit)
    · refine ⟨fun x => number (c :: x), stopsAtBreak_number (c :: z), fun y hy => ?_⟩
      simp only [read, hsame hy, if_neg hname, hdigit hy, if_pos hnumber]
    · refine ⟨operator c, stopsAtBreak_operator c z, fun y hy => ?_⟩
      simp only [read, hsame hy, if_neg hname, hdigit hy, if_neg hnumber, hquote, Bool.false_eq_true,
        if_false]
  exact ⟨found, taken, rest, fun y hy => (hread y hy).trans (hcut y hy.breaks)⟩

theorem quote_behind_mark {cs mark : List Char} (h : encodingMark? cs = some mark) :
    mark ∈ encodingMarks ∧ ∃ quote rest, isQuote quote = true ∧
      cs.drop mark.length = quote :: rest := by
  refine ⟨List.mem_of_find?_eq_some h, ?_⟩
  have hquote := List.find?_some h
  simp only [Bool.and_eq_true] at hquote
  cases hbehind : cs.drop mark.length with
  | nil => simp [hbehind] at hquote
  | cons quote rest => exact ⟨quote, rest, by simpa [hbehind] using hquote.2, rfl⟩

theorem read_quoted {mark : List Char} {quote c : Char} {z cs : List Char}
    (hmark : mark = [] ∨ mark ∈ encodingMarks) (hquote : isQuote quote = true)
    (h : c :: cs = mark ++ quote :: z) : read c cs = (quoted (quote :: z)).after mark := by
  rw [isQuote, Bool.or_eq_true, beq_iff_eq, beq_iff_eq] at hquote
  simp only [encodingMarks, List.mem_cons, List.not_mem_nil, or_false] at hmark
  rcases hmark with rfl | rfl | rfl | rfl | rfl <;> rcases hquote with rfl | rfl <;>
  · cases h
    rfl

theorem literal_or_not (c : Char) (cs : List Char) :
    (∃ mark quote z, (mark = [] ∨ mark ∈ encodingMarks) ∧ isQuote quote = true ∧
      c :: cs = mark ++ quote :: z) ∨ encodingMark? (c :: cs) = none ∧ isQuote c = false := by
  cases hmark : encodingMark? (c :: cs) with
  | some mark =>
    obtain ⟨hmem, quote, z, hquote, hbehind⟩ := quote_behind_mark hmark
    exact .inl ⟨mark, quote, z, .inr hmem, hquote, by rw [← hbehind, (mark_append hmark).1]⟩
  | none =>
    cases hquote : isQuote c with
    | true => exact .inl ⟨[], c, cs, .inl rfl, hquote, rfl⟩
    | false => exact .inr ⟨rfl, rfl⟩

/-! ### Pieces of a line -/

/-- A way to cut stays in a line: the piece is that of the line alone, whatever follows the line. -/
def InLine (cut : List Char → Cut) (x : List Char) : Prop :=
  ∃ found taken rest, cut x = ⟨found, taken, rest⟩ ∧
    ∀ y, cut (x ++ '\n' :: y) = ⟨found, taken, rest ++ '\n' :: y⟩

theorem InLine.after {cut : List Char → Cut} {x : List Char} (h : InLine cut x)
    (front : List Char) : InLine (fun cs => (cut cs).after front) x := by
  obtain ⟨found, taken, rest, halone, hcut⟩ := h
  refine ⟨found, front ++ taken, rest, ?_, fun y => ?_⟩
  · simp only [halone, Cut.after]
  · simp only [hcut, Cut.after]

/-- A quoted literal ends with its line as it would with the text, in whatever state it is. -/
theorem step_line (quote : Char) (state : QuoteState) :
    state.step quote '\n' = .stop state.atEnd := by
  cases state with
  | octal more => cases more <;> rfl
  | universal more => cases more <;> rfl
  | plain | hexMore | escaped | hexStart => rfl

/-- The characters that mean something in a literal. -/
def telling : List Char :=
  ['\\', '\"', '\'']

/-- What a character does to a literal: it is read as between two others, or it is refused, or it
goes on with an escape. -/
theorem step_cases (quote c : Char) (state : QuoteState) :
    state ≠ .escaped ∧ state.step quote c = .plain quote c ∨
      (∃ cause, state.step quote c = .stop cause) ∨
      ∃ next, state.step quote c = .more next ∧ next ≠ .escaped ∧
        (state = .escaped ∨ c ∉ telling) := by
  have hdigit {p : Char → Bool} (hp : telling.any p = false) (hc : p c = true) : c ∉ telling :=
    fun hmem => List.any_eq_false.1 hp c hmem hc
  cases state with
  | plain => exact .inl ⟨by decide, rfl⟩
  | escaped =>
    right
    rw [QuoteState.step]
    split_ifs
    iterate 5 exact .inr ⟨_, rfl, by decide, .inl rfl⟩
    exact .inl ⟨_, rfl⟩
  | octal more =>
    cases more with
    | zero => exact .inl ⟨by decide, rfl⟩
    | succ more =>
      rw [QuoteState.step]
      split
      · next hc => exact .inr (.inr ⟨_, rfl, by simp, .inr (hdigit (by decide) hc)⟩)
      · exact .inl ⟨by simp, rfl⟩
  | hexStart =>
    rw [QuoteState.step]
    split
    · next hc => exact .inr (.inr ⟨_, rfl, by simp, .inr (hdigit (by decide) hc)⟩)
    · exact .inr (.inl ⟨_, rfl⟩)
  | hexMore =>
    rw [QuoteState.step]
    split
    · next hc => exact .inr (.inr ⟨_, rfl, by simp, .inr (hdigit (by decide) hc)⟩)
    · exact .inl ⟨by simp, rfl⟩
  | universal more =>
    cases more with
    | zero | succ more =>
      rw [QuoteState.step]
      split
      · next hc => exact .inr (.inr ⟨_, rfl, by simp, .inr (hdigit (by decide) hc)⟩)
      · exact .inr (.inl ⟨_, rfl⟩)

section Step

variable {quote c : Char} {state next : QuoteState}

/-- A character that does not end a literal is a backslash in front of an escape or no quote, unless
it is escaped itself. -/
theorem step_more (hquote : isQuote quote = true) (h : state.step quote c = .more next) :
    c ≠ '\n' ∧ ((state == .escaped) = false → c ≠ quote) ∧
      (next == .escaped) = (!(state == .escaped) && c == '\\') := by
  have hline : c ≠ '\n' := by
    rintro rfl
    rw [step_line] at h
    cases h
  have htold : quote ∈ telling ∧ '\\' ≠ quote := by
    rw [isQuote, Bool.or_eq_true, beq_iff_eq, beq_iff_eq] at hquote
    rcases hquote with rfl | rfl <;> decide
  refine ⟨hline, ?_⟩
  rcases step_cases quote c state with ⟨hstate, hplain⟩ | ⟨cause, hstop⟩ | ⟨next', hmore, hnext, hwhy⟩
  · rw [hplain, QuoteStep.plain] at h
    split_ifs at h with hend hslash hclose <;> cases h
    · simp [hstate, beq_iff_eq.1 hslash, htold.2]
    · simp [hstate, hslash, mt beq_iff_eq.2 hclose]
  · rw [hstop] at h
    cases h
  · rw [hmore] at h
    cases h
    rcases hwhy with rfl | htelling
    · simp [hnext]
    · have hclose : c ≠ quote := fun hc => htelling (hc ▸ htold.1)
      have hslash : c ≠ '\\' := fun hc => htelling (hc ▸ List.mem_cons_self)
      rw [beq_eq_false_iff_ne.2 hnext, beq_eq_false_iff_ne.2 hslash, Bool.and_false]
      exact ⟨fun _ => hclose, rfl⟩

theorem step_close (h : state.step quote c = .close) :
    c = quote ∧ c ≠ '\n' ∧ c ≠ '\\' ∧ (state == .escaped) = false := by
  rcases step_cases quote c state with ⟨hstate, hplain⟩ | ⟨cause, hstop⟩ | ⟨next, hmore, -⟩
  · rw [hplain, QuoteStep.plain] at h
    split_ifs at h with hline hslash hclose
    exact ⟨beq_iff_eq.1 hclose, mt beq_iff_eq.2 hline, mt beq_iff_eq.2 hslash,
      beq_eq_false_iff_ne.2 hstate⟩
  · rw [hstop] at h
    cases h
  · rw [hmore] at h
    cases h

end Step

theorem inLine_quotedFrom (quote : Char) (state : QuoteState) (x : List Char) :
    InLine (quotedFrom quote state) x := by
  induction x generalizing state with
  | nil =>
    refine ⟨.error state.atEnd, [], [], rfl, fun y => ?_⟩
    simp only [List.nil_append, quotedFrom, step_line]
  | cons c x ih =>
    cases hstep : state.step quote c with
    | more next =>
      obtain ⟨found, taken, rest, halone, hcut⟩ := (ih next).after [c]
      refine ⟨found, taken, rest, ?_, fun y => ?_⟩
      · rw [quotedFrom, hstep]
        exact halone
      · rw [List.cons_append, quotedFrom, hstep]
        exact hcut y
    | close =>
      refine ⟨.ok (quotedKind quote), [c], x, by simp only [quotedFrom, hstep], fun y => ?_⟩
      simp only [List.cons_append, quotedFrom, hstep]
    | stop cause =>
      refine ⟨.error cause, [], c :: x, by simp only [quotedFrom, hstep], fun y => ?_⟩
      simp only [List.cons_append, quotedFrom, hstep]

theorem inLine_quoted (quote : Char) (x : List Char) : InLine quoted (quote :: x) :=
  (inLine_quotedFrom quote .plain x).after [quote]

theorem inLine_read (c : Char) (x : List Char) : InLine (read c) x := by
  rcases literal_or_not c x with ⟨mark, quote, z, hmark, hquote, hz⟩ | ⟨hmark, hquote⟩
  · -- The opening quote stands in the line.
    obtain ⟨found, taken, rest, halone, hcut⟩ := (inLine_quoted quote z).after mark
    refine ⟨found, taken, rest, (read_quoted hmark hquote hz).trans halone, fun y => ?_⟩
    have hline : c :: (x ++ '\n' :: y) = mark ++ quote :: (z ++ '\n' :: y) := by
      rw [← List.cons_append, hz, List.append_assoc, List.cons_append]
    exact (read_quoted hmark hquote hline).trans (hcut y)
  · obtain ⟨found, taken, rest, hcut⟩ := read_stops hmark hquote
    have halone := hcut [] (by rintro _ ⟨⟩)
    rw [List.append_nil, List.append_nil] at halone
    exact ⟨found, taken, rest, halone, fun y => hcut _ (by rintro _ ⟨⟩; decide)⟩

end Cut

/-! ## Scans -/

theorem Spot.past_append (s : Spot) (x y : List Char) : s.past (x ++ y) = (s.past x).past y :=
  List.foldl_append

namespace Scan

variable {a b : Scan}

theorem isBlank_of_skipBlanks {s : Scan} {c : Char} {cs : List Char}
    (h : s.skipBlanks.rest = c :: cs) : isBlank c = false := by
  have hhead := List.head?_dropWhile_not isBlank s.rest
  rwa [show s.rest.dropWhile isBlank = c :: cs from h] at hhead

theorem pull_eq_of_skipBlanks (h : a.skipBlanks = b.skipBlanks) : a.pull = b.pull := by
  have hnext : a.next = b.next := by rw [next, next, h]
  rw [pull_eq a, pull_eq b, hnext]

theorem skipBlanks_append {x : List Char} (h : ∀ c ∈ x, isBlank c = true) (spot : Spot)
    (y : List Char) : (⟨spot, x ++ y⟩ : Scan).skipBlanks = (⟨spot.past x, y⟩ : Scan).skipBlanks := by
  rw [skipBlanks, skipBlanks, List.takeWhile_append_of_pos h, List.dropWhile_append_of_pos h,
    Spot.past_append]

theorem next_of_blanks {blanks : List Char} (h : ∀ c ∈ blanks, isBlank c = true) (spot : Spot)
    (cs : List Char) : (⟨spot, blanks ++ cs⟩ : Scan).next = (⟨spot.past blanks, cs⟩ : Scan).next := by
  rw [next, next, skipBlanks_append h]

theorem next_of_read {c : Char} {cs taken rest : List Char} {found : Except ScanCause Kind}
    (hc : isBlank c = false) (hread : Cut.read c cs = ⟨found, taken, rest⟩) (spot : Spot) :
    (⟨spot, c :: cs⟩ : Scan).next =
      ((found.map (⟨·, String.ofList taken, spot⟩)).mapError (⟨·, spot⟩), ⟨spot.past taken, rest⟩) := by
  have hskip : (⟨spot, c :: cs⟩ : Scan).skipBlanks = ⟨spot, c :: cs⟩ := by
    simp [skipBlanks, hc, Spot.past]
  rw [next, hskip]
  dsimp only
  rw [hread]
  cases found <;> rfl

theorem pull_blank (h : ∀ c ∈ a.rest, isBlank c = true) :
    a.pull = ([], ⟨.eof, "", a.skipBlanks.spot⟩, a.skipBlanks) := by
  have hrest : a.skipBlanks.rest = [] := List.dropWhile_eq_nil_iff.2 h
  rw [pull, pullWithin, next]
  simp only [hrest]

end Scan

end Serpentine

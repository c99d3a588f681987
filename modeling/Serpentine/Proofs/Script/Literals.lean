import Serpentine.Lowering.Term
import Serpentine.Proofs.Script.Atom

/-!
# Literals

The literals of the source, and that each of them is written as a number, a constant or quoted texts
of the script (**`isAtom_literalText`**).
-/

namespace Serpentine.Script

/-! ## Literals of the source -/

/-- Digits with separators between them. -/
inductive Digits (isDigit : Char → Bool) (sep : Char) : List Char → Prop where
  | one {c : Char} (h : isDigit c = true) : Digits isDigit sep [c]
  | next {c : Char} {cs : List Char} (h : isDigit c = true) (hcs : Digits isDigit sep cs) :
      Digits isDigit sep (c :: cs)
  | sep {c : Char} {cs : List Char} (h : isDigit c = true) (hcs : Digits isDigit sep cs) :
      Digits isDigit sep (c :: sep :: cs)

/-- An integer without its suffix. -/
inductive IsIntBody : List Char → Prop where
  | decimal {cs : List Char} (h : Digits Char.isDigit '\'' cs) (hzero : cs.head? ≠ some '0') :
      IsIntBody cs
  | octal {cs : List Char} (h : Digits isOctalDigit '\'' ('0' :: cs)) : IsIntBody ('0' :: cs)
  | radix {mark : Char} {r : Radix} {cs : List Char} (hmark : Radix.ofMark? mark = some r)
      (hr : r ≠ .octal) (h : Digits r.isDigit '\'' cs) : IsIntBody ('0' :: mark :: cs)

/-- The integers of the source. -/
def IsInt (text : String) : Prop :=
  ∃ body suffix, text.toList = body ++ suffix ∧ IsIntBody body ∧
    suffix.all Literal.isIntSuffix = true

/-- An exponent: `e`, a sign that may be missing, and digits. -/
inductive IsExponent : List Char → Prop where
  | unsigned {e : Char} {cs : List Char} (he : e = 'e' ∨ e = 'E')
      (h : Digits Char.isDigit '\'' cs) : IsExponent (e :: cs)
  | signed {e s : Char} {cs : List Char} (he : e = 'e' ∨ e = 'E') (hs : s = '+' ∨ s = '-')
      (h : Digits Char.isDigit '\'' cs) : IsExponent (e :: s :: cs)

/-- A decimal number with a point or an exponent, without its suffix. -/
inductive IsFloatBody : List Char → Prop where
  | point {whole fraction exponent : List Char}
      (hwhole : whole = [] ∨ Digits Char.isDigit '\'' whole)
      (hfraction : fraction = [] ∨ Digits Char.isDigit '\'' fraction)
      (hne : whole ≠ [] ∨ fraction ≠ []) (hexponent : exponent = [] ∨ IsExponent exponent) :
      IsFloatBody (whole ++ '.' :: (fraction ++ exponent))
  | exponent {whole exponent : List Char} (hwhole : Digits Char.isDigit '\'' whole)
      (hexponent : IsExponent exponent) : IsFloatBody (whole ++ exponent)

def IsFloat (text : String) : Prop :=
  ∃ body suffix, text.toList = body ++ suffix ∧ IsFloatBody body ∧
    suffix.all isFloatSuffix = true

/-- A quoted text behind an encoding mark that may be missing. -/
def markedText (quote : Char) (piece : List Char × List Char) : String :=
  String.ofList (piece.1 ++ quote :: piece.2)

def IsQuoted (quote : Char) (text : String) : Prop :=
  ∃ pieces : List (List Char × List Char), pieces ≠ [] ∧
    (∀ piece ∈ pieces, (piece.1 = [] ∨ piece.1 ∈ encodingMarks) ∧ ClosedBy quote piece.2) ∧
    text = " ".intercalate (pieces.map (markedText quote))

def IsLiteral : LiteralKind → String → Prop
  | .int, text => IsInt text
  | .float, text => IsFloat text
  | .char, text => IsQuoted '\'' text
  | .string, text => IsQuoted '\"' text
  | .bool, text => text = "true" ∨ text = "false"
  | .null, _ => True

/-! ## Digits -/

variable {isDigit : Char → Bool}

variable {cs : List Char}

theorem Digits.head {sep : Char} (h : Digits isDigit sep cs) :
    ∃ c rest, cs = c :: rest ∧ isDigit c = true := by
  cases h with
  | one h | next h _ | sep h _ => exact ⟨_, _, rfl, h⟩

theorem Digits.getLast {sep : Char} (h : Digits isDigit sep cs) :
    ∃ front c, cs = front ++ [c] ∧ isDigit c = true := by
  induction h with
  | @one c h => exact ⟨[], c, rfl, h⟩
  | @next d cs _ _ ih =>
    obtain ⟨front, c, rfl, hc⟩ := ih
    exact ⟨d :: front, c, rfl, hc⟩
  | @sep d cs _ _ ih =>
    obtain ⟨front, c, rfl, hc⟩ := ih
    exact ⟨d :: sep :: front, c, rfl, hc⟩

theorem Digits.isDigit_of_mem {sep : Char} (h : Digits isDigit sep cs) :
    ∀ c ∈ cs, isDigit c = true ∨ c = sep := by
  induction h with
  | one h => simpa using .inl h
  | next h _ ih | sep h _ ih => simpa [h] using ih

theorem Digits.separators (h : Digits isDigit '\'' cs) (hsep : isDigit '\'' = false) :
    Digits isDigit '_' (separators cs) := by
  have hkeep : ∀ c, isDigit c = true → (if c == '\'' then '_' else c) = c := by
    intro c hc
    have hne : c ≠ '\'' := by
      rintro rfl
      simp [hsep] at hc
    simp [hne]
  induction h with
  | one h =>
    rw [Script.separators, List.map_singleton, hkeep _ h]
    exact .one h
  | next h _ ih =>
    rw [Script.separators, List.map_cons, hkeep _ h]
    exact .next h ih
  | sep h _ ih =>
    rw [Script.separators, List.map_cons, List.map_cons, hkeep _ h]
    exact .sep h ih

theorem Digits.dropZeros (h : Digits isDigit '_' cs) :
    cs.dropWhile (fun d => d == '0' || d == '_') = [] ∨
      Digits isDigit '_' (cs.dropWhile fun d => d == '0' || d == '_') := by
  induction h with
  | @one c h =>
    rw [List.dropWhile_cons]
    split
    · exact .inl rfl
    · exact .inr (.one h)
  | @next c cs h hcs ih =>
    rw [List.dropWhile_cons]
    split
    · exact ih
    · exact .inr (.next h hcs)
  | @sep c cs h hcs ih =>
    rw [List.dropWhile_cons]
    split
    · simpa [List.dropWhile_cons] using ih
    · exact .inr (.sep h hcs)

/-! ## The automaton on digits -/

variable {q : NumberState}

namespace NumberState

theorem run_cons (q : NumberState) (c : Char) (cs : List Char) :
    q.run (c :: cs) = (q.step c).bind fun next => next.run cs :=
  rfl

theorem run_append {q next : NumberState} (h : q.run cs = some next) (ds : List Char) :
    q.run (cs ++ ds) = next.run ds := by
  simp only [run] at *
  simp [List.foldlM_append, h]

/-- A digit leads to a state of a sort. -/
def TakesDigit (isDigit : Char → Bool) (P : NumberState → Prop) (q : NumberState) : Prop :=
  ∀ c, isDigit c = true → ∃ next, q.step c = some next ∧ P next

/-- From each state of a sort, a digit leads to one again, and so does a separator with a digit. -/
def Loops (isDigit : Char → Bool) (P : NumberState → Prop) : Prop :=
  ∀ q, P q → TakesDigit isDigit P q ∧ ∃ next, q.step '_' = some next ∧ TakesDigit isDigit P next

variable {P : NumberState → Prop}

theorem TakesDigit.head (hq : TakesDigit isDigit P q)
    (h : Digits isDigit '_' cs) : ∀ c ∈ cs.head?, ∃ next, q.step c = some next ∧ P next := by
  intro c hc
  obtain ⟨d, rest, rfl, hd⟩ := h.head
  obtain rfl : d = c := by simpa using hc
  exact hq d hd

/-- **Digits with separators are taken** by the states of a sort that digits do not lead out of. -/
theorem run_digits (hloops : Loops isDigit P) (h : Digits isDigit '_' cs)
    (hq : ∀ c ∈ cs.head?, ∃ next, q.step c = some next ∧ P next) :
    ∃ next, q.run cs = some next ∧ P next := by
  induction h generalizing q with
  | @one c _ =>
    obtain ⟨next, hstep, hnext⟩ := hq c rfl
    exact ⟨next, by rw [run_cons, hstep]; rfl, hnext⟩
  | @next c cs _ hcs ih =>
    obtain ⟨next, hstep, hnext⟩ := hq c rfl
    obtain ⟨last, hrun, hlast⟩ := ih ((hloops next hnext).1.head hcs)
    exact ⟨last, by rw [run_cons, hstep]; exact hrun, hlast⟩
  | @sep c cs _ hcs ih =>
    obtain ⟨next, hstep, hnext⟩ := hq c rfl
    obtain ⟨behind, hsep, hdigit⟩ := (hloops next hnext).2
    obtain ⟨last, hrun, hlast⟩ := ih (hdigit.head hcs)
    refine ⟨last, ?_, hlast⟩
    rw [run_cons, hstep, Option.bind_some, run_cons, hsep]
    exact hrun

theorem loops_of_step (state : Bool → NumberState)
    (hdigit : ∀ sep c, isDigit c = true → (state sep).step c = some (state false))
    (hsep : (state false).step '_' = some (state true)) : Loops isDigit (· = state false) := by
  rintro q rfl
  exact ⟨fun c hc => ⟨_, hdigit false c hc, rfl⟩, _, hsep, fun c hc => ⟨_, hdigit true c hc, rfl⟩⟩

theorem loops_digits : Loops Char.isDigit (· = .digits false) :=
  loops_of_step .digits (fun sep c hc => by simp [step, hc]) rfl

theorem loops_fraction : Loops Char.isDigit (· = .fraction false) :=
  loops_of_step .fraction (fun sep c hc => by simp [step, hc]) rfl

theorem loops_exponentDigits : Loops Char.isDigit (· = .exponentDigits false) :=
  loops_of_step .exponentDigits (fun sep c hc => by simp [step, hc]) rfl

theorem loops_radixDigits (r : Radix) : Loops r.isDigit (· = .radixDigits r false) :=
  loops_of_step (.radixDigits r) (fun sep c hc => by simp [step, hc]) (by cases r <;> rfl)

/-- Behind the digits of a whole number, the first of which may be zeros. -/
def IsWhole (q : NumberState) : Prop :=
  q = .zero ∨ q = .zeros false ∨ q = .digits false ∨ q = .padded false

theorem takesDigit_of_step (first other : NumberState) (hzero : q.step '0' = some first)
    (hother : ∀ c, c.isDigit = true → c ≠ '0' → q.step c = some other)
    (h : IsWhole first ∧ IsWhole other) : TakesDigit Char.isDigit IsWhole q := by
  intro c hc
  by_cases h0 : c = '0'
  · exact ⟨first, h0 ▸ hzero, h.1⟩
  · exact ⟨other, hother c hc h0, h.2⟩

theorem takesDigit_start : TakesDigit Char.isDigit IsWhole .start :=
  takesDigit_of_step .zero (.digits false) rfl
    (fun c hc h0 => by simp [step, h0, hc]) (by simp [IsWhole])

theorem takesDigit_zeros (sep : Bool) : TakesDigit Char.isDigit IsWhole (.zeros sep) :=
  takesDigit_of_step (.zeros false) (.padded false) rfl
    (fun c hc h0 => by simp [step, h0, hc]) (by simp [IsWhole])

theorem loops_isWhole : Loops Char.isDigit IsWhole := by
  rintro q (rfl | rfl | rfl | rfl)
  · exact ⟨takesDigit_of_step (.zeros false) (.padded false) rfl
      (fun c hc h0 => by simp [step, h0, hc]) (by simp [IsWhole]), .zeros true, rfl,
      takesDigit_zeros true⟩
  · exact ⟨takesDigit_zeros false, .zeros true, rfl, takesDigit_zeros true⟩
  · refine ⟨fun c hc => ?_, .digits true, rfl, fun c hc => ?_⟩ <;>
      exact ⟨.digits false, by simp [step, hc], by simp [IsWhole]⟩
  · refine ⟨fun c hc => ?_, .padded true, rfl, fun c hc => ?_⟩ <;>
      exact ⟨.padded false, by simp [step, hc], by simp [IsWhole]⟩

theorem IsWhole.step_point (h : IsWhole q) : q.step '.' = some .point := by
  rcases h with rfl | rfl | rfl | rfl <;> rfl

theorem IsWhole.step_exponent (h : IsWhole q) {e : Char} (he : e = 'e' ∨ e = 'E') :
    q.step e = some .exponent := by
  rcases h with rfl | rfl | rfl | rfl <;> rcases he with rfl | rfl <;> rfl

theorem run_digits_of_takes (hloops : Loops isDigit P)
    (h : Digits isDigit '_' cs) (hq : TakesDigit isDigit P q) :
    ∃ next, q.run cs = some next ∧ P next :=
  run_digits hloops h (hq.head h)

end NumberState

/-! ## Integers -/

theorem dropSuffix_append {p : Char → Bool} {body suffix : List Char} {last : Char}
    (hsuffix : suffix.all p = true) (hlast : p last = false) :
    Literal.dropSuffix p (body ++ [last] ++ suffix) = body ++ [last] := by
  have hall : ∀ c ∈ suffix.reverse, p c = true := fun c hc =>
    List.all_eq_true.1 hsuffix c (List.mem_reverse.1 hc)
  rw [Literal.dropSuffix, List.reverse_append, List.dropWhile_append_of_pos hall]
  simp [hlast]

theorem isIntSuffix_of_isHexDigit {c : Char} (h : isHexDigit c = true) :
    Literal.isIntSuffix c = false := by
  simpa using of_isHexDigit (p := fun c => !Literal.isIntSuffix c) (by decide) h

theorem IsIntBody.getLast (h : IsIntBody cs) :
    ∃ front c, cs = front ++ [c] ∧ isHexDigit c = true := by
  cases h with
  | decimal h _ =>
    obtain ⟨front, c, rfl, hc⟩ := h.getLast
    exact ⟨front, c, rfl, isHexDigit_of_isDigit hc⟩
  | octal h =>
    obtain ⟨front, c, hcs, hc⟩ := h.getLast
    exact ⟨front, c, hcs, Radix.isHexDigit_of_isDigit (r := .octal) hc⟩
  | @radix mark r cs _ _ h =>
    obtain ⟨front, c, rfl, hc⟩ := h.getLast
    exact ⟨'0' :: mark :: front, c, rfl, Radix.isHexDigit_of_isDigit hc⟩

theorem isDigit_quote (r : Radix) : r.isDigit '\'' = false := by
  cases r <;> decide

variable {mark : Char}

theorem run_radix {r : Radix} (hmark : Radix.ofMark? mark = some r)
    (h : Digits r.isDigit '_' cs) :
    NumberState.run .start ('0' :: mark :: cs) = some (.radixDigits r false) := by
  have hstep : NumberState.zero.step mark = some (.radix r) := by
    have hm : mark = 'x' ∨ mark = 'X' ∨ mark = 'o' ∨ mark = 'O' ∨ mark = 'b' ∨ mark = 'B' := by
      unfold Radix.ofMark? at hmark
      grind
    rcases hm with rfl | rfl | rfl | rfl | rfl | rfl <;> cases hmark <;> rfl
  have hfirst : NumberState.TakesDigit r.isDigit (· = .radixDigits r false) (.radix r) :=
    fun c hc => ⟨_, by simp [NumberState.step, hc], rfl⟩
  obtain ⟨last, hrun, rfl⟩ :=
    NumberState.run_digits_of_takes (NumberState.loops_radixDigits r) h hfirst
  show NumberState.zero.run (mark :: cs) = _
  rw [NumberState.run_cons, hstep]
  exact hrun

theorem isNumber_radix {r : Radix} (hmark : Radix.ofMark? mark = some r)
    (h : Digits r.isDigit '_' cs) : IsNumber ('0' :: mark :: cs) :=
  ⟨_, run_radix hmark h, rfl⟩

theorem run_decimal (h : Digits Char.isDigit '_' cs) (hzero : cs.head? ≠ some '0') :
    NumberState.run .start cs = some (.digits false) := by
  have hfirst : ∀ c ∈ cs.head?, ∃ next, NumberState.start.step c = some next ∧
      next = .digits false := by
    intro c hc
    obtain ⟨d, rest, rfl, hd⟩ := h.head
    obtain rfl : d = c := by simpa using hc
    have hne : d ≠ '0' := by simpa using hzero
    exact ⟨_, by simp [NumberState.step, hne, hd], rfl⟩
  obtain ⟨last, hrun, rfl⟩ := NumberState.run_digits NumberState.loops_digits h hfirst
  exact hrun

theorem isNumber_decimal (h : Digits Char.isDigit '_' cs) (hzero : cs.head? ≠ some '0') :
    IsNumber cs :=
  ⟨_, run_decimal h hzero, rfl⟩

/-- The digits that an octal number is written with. -/
theorem Digits.octal (h : Digits isOctalDigit '_' ('0' :: cs)) :
    let octal := cs.dropWhile fun d => d == '0' || d == '_'
    Digits isOctalDigit '_' (if octal.isEmpty then ['0'] else octal) := by
  have hzeros := h.dropZeros
  rw [List.dropWhile_cons, if_pos (by decide)] at hzeros
  rcases hzeros with hnil | hdigits
  · rw [hnil]
    exact .one (by decide)
  · obtain ⟨c, rest, hcons, -⟩ := hdigits.head
    rw [hcons] at hdigits ⊢
    exact hdigits

theorem hasRadix_mark {r : Radix} (hmark : Radix.ofMark? mark = some r)
    (hr : r ≠ .octal) (cs : List Char) : hasRadix ('0' :: mark :: cs) = true := by
  unfold Radix.ofMark? at hmark
  simp only [hasRadix]
  grind

theorem hasRadix_octal (h : Digits isOctalDigit '_' ('0' :: cs)) :
    hasRadix ('0' :: cs) = false := by
  have hdigit : ∀ c rest, cs = c :: rest → isOctalDigit c = true ∨ c = '_' := by
    rintro c rest rfl
    cases h with
    | next _ hcs =>
      obtain ⟨d, _, heq, hd⟩ := hcs.head
      obtain rfl : c = d := (List.cons.inj heq).1
      exact .inl hd
    | sep _ _ => exact .inr rfl
  cases cs with
  | nil => rfl
  | cons c rest =>
    rcases hdigit c rest rfl with hc | rfl
    · have hne : ∀ d : Char, isOctalDigit d = false → c ≠ d := by
        rintro d hd rfl
        simp [hd] at hc
      simp [hasRadix, hne 'x' (by decide), hne 'X' (by decide), hne 'b' (by decide),
        hne 'B' (by decide)]
    · rfl

variable {text : String}

/-- The text of an integer without its suffix. -/
theorem IsInt.isIntBody (h : IsInt text) :
    IsIntBody (Literal.dropSuffix Literal.isIntSuffix text.toList) := by
  obtain ⟨body, suffix, htext, hbody, hsuffix⟩ := h
  obtain ⟨front, c, rfl, hc⟩ := hbody.getLast
  rw [htext, dropSuffix_append hsuffix (isIntSuffix_of_isHexDigit hc)]
  exact hbody

theorem head?_separators (h : Digits Char.isDigit '\'' cs) (hzero : cs.head? ≠ some '0') :
    (separators cs).head? ≠ some '0' := by
  obtain ⟨c, rest, rfl, hc⟩ := h.head
  have hne : c ≠ '\'' := by rintro rfl; exact absurd hc (by decide)
  simpa [separators, hne] using hzero

theorem intLiteral_decimal (hbody : Literal.dropSuffix Literal.isIntSuffix text.toList = cs)
    (h : Digits Char.isDigit '\'' cs) (hzero : cs.head? ≠ some '0') :
    intLiteral text = String.ofList (separators cs) := by
  have hhead := head?_separators h hzero
  rw [intLiteral, hbody]
  obtain ⟨c, rest, hcons, -⟩ := (h.separators (by decide)).head
  rw [hcons] at hhead ⊢
  have hc : c ≠ '0' := by simpa using hhead
  simp [hasRadix, hc]

theorem intLiteral_zero (hbody : Literal.dropSuffix Literal.isIntSuffix text.toList = ['0']) :
    intLiteral text = "0" := by
  rw [intLiteral, hbody]
  rfl

theorem intLiteral_octal
    (hbody : Literal.dropSuffix Literal.isIntSuffix text.toList = '0' :: cs)
    (h : Digits isOctalDigit '\'' ('0' :: cs)) (hne : cs ≠ []) :
    let octal := (separators cs).dropWhile fun d => d == '0' || d == '_'
    intLiteral text =
      String.ofList ('0' :: 'o' :: if octal.isEmpty then ['0'] else octal) := by
  intro octal
  have hdigits : Digits isOctalDigit '_' ('0' :: separators cs) := h.separators (by decide)
  have hsep : separators ('0' :: cs) = '0' :: separators cs := rfl
  rw [intLiteral, hbody, hsep, hasRadix_octal hdigits]
  obtain ⟨c, rest, hcs⟩ : ∃ c rest, separators cs = c :: rest :=
    List.exists_cons_of_ne_nil (by simpa [separators] using hne)
  simp only [octal, hcs]
  rw [← String.toList_inj]
  simp

theorem intLiteral_radix {r : Radix}
    (hbody : Literal.dropSuffix Literal.isIntSuffix text.toList = '0' :: mark :: cs)
    (hmark : Radix.ofMark? mark = some r) (hr : r ≠ .octal) :
    intLiteral text = String.ofList ('0' :: mark :: separators cs) := by
  have hne : mark ≠ '\'' := by rintro rfl; simp [Radix.ofMark?] at hmark
  have hsep : separators ('0' :: mark :: cs) = '0' :: mark :: separators cs := by
    simp [separators, hne]
  rw [intLiteral, hbody, hsep, hasRadix_mark hmark hr]
  rfl

/-- **Integers**: an integer of the source is written as a number. -/
theorem isNumber_intLiteral (h : IsInt text) : IsNumber (intLiteral text).toList := by
  have hbody := h.isIntBody
  generalize hcs : Literal.dropSuffix Literal.isIntSuffix text.toList = body at hbody
  cases hbody with
  | decimal h hzero =>
    rw [intLiteral_decimal hcs h hzero, String.toList_ofList]
    exact isNumber_decimal (h.separators (by decide)) (head?_separators h hzero)
  | @octal cs h =>
    by_cases hne : cs = []
    · subst hne
      rw [intLiteral_zero hcs]
      exact ⟨.zero, rfl, rfl⟩
    · rw [intLiteral_octal hcs h hne, String.toList_ofList]
      exact isNumber_radix (r := .octal) rfl
        (Digits.octal (h.separators (by decide) : Digits isOctalDigit '_' ('0' :: separators cs)))
  | @radix mark r cs hmark hr h =>
    rw [intLiteral_radix hcs hmark hr, String.toList_ofList]
    exact isNumber_radix hmark (h.separators (isDigit_quote r))

/-! ## Numbers with a point or an exponent -/

theorem separators_append (cs ds : List Char) :
    separators (cs ++ ds) = separators cs ++ separators ds :=
  List.map_append

namespace NumberState

/-- An exponent may follow. -/
def StartsExponent (q : NumberState) : Prop :=
  ∀ e, e = 'e' ∨ e = 'E' → q.step e = some .exponent

theorem startsExponent_point : StartsExponent .point := by
  rintro e (rfl | rfl) <;> rfl

theorem startsExponent_fraction : StartsExponent (.fraction false) := by
  rintro e (rfl | rfl) <;> rfl

theorem run_exponent (hq : q.StartsExponent) (h : IsExponent cs) :
    q.run (separators cs) = some (.exponentDigits false) := by
  have hdigits : ∀ q cs, TakesDigit Char.isDigit (· = .exponentDigits false) q →
      Digits Char.isDigit '\'' cs → q.run (separators cs) = some (.exponentDigits false) := by
    intro q cs hq hcs
    obtain ⟨next, hrun, rfl⟩ :=
      run_digits_of_takes loops_exponentDigits (hcs.separators (by decide)) hq
    exact hrun
  cases h with
  | @unsigned e cs he h =>
    have hrun := hdigits .exponent cs (fun c hc => ⟨_, by simp [step, hc], rfl⟩) h
    have hsep : separators (e :: cs) = e :: separators cs := by
      rcases he with rfl | rfl <;> rfl
    rw [hsep, run_cons, hq e he]
    exact hrun
  | @signed e s cs he hs h =>
    have hrun := hdigits .exponentSign cs (fun c hc => ⟨_, by simp [step, hc], rfl⟩) h
    have hsep : separators (e :: s :: cs) = e :: s :: separators cs := by
      rcases he with rfl | rfl <;> rcases hs with rfl | rfl <;> rfl
    have hsign : NumberState.exponent.step s = some .exponentSign := by
      rcases hs with rfl | rfl <;> rfl
    rw [hsep, run_cons, hq e he, Option.bind_some, run_cons, hsign]
    exact hrun

theorem exists_final_of_exponent (hq : q.StartsExponent) (hfinal : q.isFinal = true)
    (h : cs = [] ∨ IsExponent cs) :
    ∃ last, q.run (separators cs) = some last ∧ last.isFinal = true := by
  rcases h with rfl | h
  · exact ⟨q, rfl, hfinal⟩
  · exact ⟨_, run_exponent hq h, rfl⟩

end NumberState

variable {body : List Char}

open NumberState in
theorem IsFloatBody.isNumber (h : IsFloatBody body) : IsNumber (separators body) := by
  cases h with
  | @point whole fraction exponent hwhole hfraction hne hexponent =>
    rw [separators_append]
    -- the state behind the point, which takes the fraction
    obtain ⟨q, hq, hpoint, hdigit⟩ : ∃ q, (q = .point ∨ whole = []) ∧
        NumberState.start.run (separators whole ++ ['.']) = some q ∧
        TakesDigit Char.isDigit (· = .fraction false) q := by
      rcases hwhole with rfl | hwhole
      · exact ⟨.barePoint, .inr rfl, rfl, fun c hc => ⟨_, by simp [step, hc], rfl⟩⟩
      · obtain ⟨q, hrun, hq⟩ :=
          run_digits_of_takes loops_isWhole (hwhole.separators (by decide)) takesDigit_start
        refine ⟨.point, .inl rfl, ?_, fun c hc => ⟨_, by simp [step, hc], rfl⟩⟩
        rw [run_append hrun, run_cons, hq.step_point]
        rfl
    have hsplit : separators whole ++ separators ('.' :: (fraction ++ exponent)) =
        (separators whole ++ ['.']) ++ (separators fraction ++ separators exponent) := by
      simp [separators]
    rw [IsNumber, hsplit, run_append hpoint]
    rcases hfraction with rfl | hfraction
    · obtain rfl : q = .point := hq.resolve_right (hne.resolve_right (by simp))
      exact exists_final_of_exponent startsExponent_point rfl hexponent
    · obtain ⟨_, hrun, rfl⟩ :=
        run_digits_of_takes loops_fraction (hfraction.separators (by decide)) hdigit
      rw [run_append hrun]
      exact exists_final_of_exponent startsExponent_fraction rfl hexponent
  | @exponent whole exponent hwhole hexponent =>
    obtain ⟨q, hrun, hq⟩ :=
      run_digits_of_takes loops_isWhole (hwhole.separators (by decide)) takesDigit_start
    refine ⟨.exponentDigits false, ?_, rfl⟩
    rw [separators_append, run_append hrun]
    exact run_exponent (fun e he => hq.step_exponent he) hexponent

theorem IsExponent.getLast (h : IsExponent cs) :
    ∃ front c, cs = front ++ [c] ∧ c.isDigit = true := by
  cases h with
  | @unsigned e cs _ h =>
    obtain ⟨front, c, rfl, hc⟩ := h.getLast
    exact ⟨e :: front, c, rfl, hc⟩
  | @signed e s cs _ _ h =>
    obtain ⟨front, c, rfl, hc⟩ := h.getLast
    exact ⟨e :: s :: front, c, rfl, hc⟩

theorem IsFloatBody.getLast (h : IsFloatBody body) :
    ∃ front c, body = front ++ [c] ∧ (c.isDigit = true ∨ c = '.') := by
  cases h with
  | @point whole fraction exponent _ hfraction _ hexponent =>
    rcases hexponent with rfl | hexponent
    · rcases hfraction with rfl | hfraction
      · exact ⟨whole, '.', by simp, .inr rfl⟩
      · obtain ⟨front, c, rfl, hc⟩ := hfraction.getLast
        exact ⟨whole ++ '.' :: front, c, by simp, .inl hc⟩
    · obtain ⟨front, c, rfl, hc⟩ := hexponent.getLast
      exact ⟨whole ++ '.' :: (fraction ++ front), c, by simp, .inl hc⟩
  | @exponent whole exponent _ hexponent =>
    obtain ⟨front, c, rfl, hc⟩ := hexponent.getLast
    exact ⟨whole ++ front, c, by simp, .inl hc⟩

/-- The text has no mark of a hexadecimal number. -/
def Unmarked (cs : List Char) : Prop :=
  'x' ∉ cs ∧ 'X' ∉ cs

theorem Unmarked.append {cs ds : List Char} (hcs : Unmarked cs) (hds : Unmarked ds) :
    Unmarked (cs ++ ds) := by
  simp [Unmarked, hcs.1, hcs.2, hds.1, hds.2]

theorem Unmarked.isHex (h : Unmarked cs) : isHex cs = false := by
  unfold Script.isHex
  split
  · next c rest =>
    have hx : c ≠ 'x' := by rintro rfl; exact h.1 (by simp)
    have hX : c ≠ 'X' := by rintro rfl; exact h.2 (by simp)
    simp [hx, hX]
  · rfl

theorem Digits.unmarked (h : Digits Char.isDigit '\'' cs) : Unmarked cs := by
  constructor <;>
  · intro hx
    exact absurd (h.isDigit_of_mem _ hx) (by decide)

theorem IsExponent.unmarked (h : IsExponent cs) : Unmarked cs := by
  cases h with
  | unsigned he h =>
    have hcs := h.unmarked
    rcases he with rfl | rfl <;> simpa [Unmarked] using hcs
  | signed he hs h =>
    have hcs := h.unmarked
    rcases he with rfl | rfl <;> rcases hs with rfl | rfl <;> simpa [Unmarked] using hcs

theorem IsFloatBody.unmarked (h : IsFloatBody body) : Unmarked body := by
  have hnil : Unmarked [] := by simp [Unmarked]
  cases h with
  | @point whole fraction exponent hwhole hfraction _ hexponent =>
    have hw : Unmarked whole := hwhole.elim (· ▸ hnil) Digits.unmarked
    have hf : Unmarked fraction := hfraction.elim (· ▸ hnil) Digits.unmarked
    have he : Unmarked exponent := hexponent.elim (· ▸ hnil) IsExponent.unmarked
    have hpoint : Unmarked ('.' :: (fraction ++ exponent)) := by
      simpa [Unmarked] using hf.append he
    exact hw.append hpoint
  | exponent hwhole hexponent => exact hwhole.unmarked.append hexponent.unmarked

theorem isFloatSuffix_eq_false {c : Char} (h : c.isDigit = true ∨ c = '.') :
    isFloatSuffix c = false := by
  rcases h with h | rfl
  · have hc := of_isHexDigit (p := fun c => !c.isDigit || !isFloatSuffix c) (by decide)
      (isHexDigit_of_isDigit h)
    simpa [h] using hc
  · decide

/-- **Numbers with a point or an exponent**: one of the source is written as a number. -/
theorem isNumber_floatLiteral (h : IsFloat text) : IsNumber (floatLiteral text).toList := by
  obtain ⟨body, suffix, htext, hbody, hsuffix⟩ := h
  have hunmarked : Unmarked suffix := by
    constructor <;>
    · intro hx
      exact absurd (List.all_eq_true.1 hsuffix _ hx) (by decide)
  have hhex : isHex text.toList = false := htext ▸ (hbody.unmarked.append hunmarked).isHex
  have hdrop : Literal.dropSuffix isFloatSuffix text.toList = body := by
    obtain ⟨front, c, rfl, hc⟩ := hbody.getLast
    rw [htext, dropSuffix_append hsuffix (isFloatSuffix_eq_false hc)]
  simpa [floatLiteral, hhex, hdrop] using hbody.isNumber

/-! ## Quoted texts -/

variable {quote : Char}

theorem keepQuoted_inside (hq : isQuote quote = true) {escaped : Bool} {r : List Char × List Char}
    (h : closeQuote quote escaped cs = some r) :
    keepQuoted (.inside quote escaped) cs = r.1 ++ keepQuoted .outside r.2 := by
  have hslash : quote ≠ '\\' := by
    rintro rfl
    exact absurd hq (by decide)
  fun_induction closeQuote quote escaped cs generalizing r with
  | case1 | case3 => cases h
  | case2 c cs ih =>
    obtain ⟨tail, htail, rfl⟩ := Option.map_eq_some_iff.1 h
    simp [keepQuoted, ih htail]
  | case4 =>
    cases h
    simp [keepQuoted, hslash]
  | case5 c cs _ hclose ih =>
    obtain ⟨tail, htail, rfl⟩ := Option.map_eq_some_iff.1 h
    have hcut := ih htail
    cases hc : c == '\\' <;> rw [hc] at hcut <;> simp [keepQuoted, hc, hclose, hcut]

theorem keepQuoted_mark {mark : List Char} (h : mark = [] ∨ mark ∈ encodingMarks)
    (rest : List Char) : keepQuoted .outside (mark ++ rest) = keepQuoted .outside rest := by
  simp only [encodingMarks, List.mem_cons, List.not_mem_nil, or_false] at h
  rcases h with rfl | rfl | rfl | rfl | rfl <;> rfl

theorem keepQuoted_piece (hq : isQuote quote = true) {mark body : List Char}
    (hmark : mark = [] ∨ mark ∈ encodingMarks) (h : ClosedBy quote body) (rest : List Char) :
    keepQuoted .outside (mark ++ quote :: body ++ rest) =
      quote :: body ++ keepQuoted .outside rest := by
  have hopen : (quote == '\"' || quote == '\'') = true := hq
  rw [List.append_assoc, keepQuoted_mark hmark, List.cons_append, keepQuoted, if_pos hopen,
    keepQuoted_inside hq (closeQuote_append h rest), List.cons_append, List.nil_append]

/-- The quoted texts keep the blanks between them, and lose their marks. -/
theorem quotedLiteral_eq (hq : isQuote quote = true) (pieces : List (List Char × List Char))
    (h : ∀ piece ∈ pieces, (piece.1 = [] ∨ piece.1 ∈ encodingMarks) ∧ ClosedBy quote piece.2) :
    quotedLiteral (" ".intercalate (pieces.map (markedText quote))) =
      " ".intercalate (quotedTexts quote (pieces.map Prod.snd)) := by
  induction pieces with
  | nil => rfl
  | cons piece more ih =>
    obtain ⟨⟨hmark, hclosed⟩, hmore⟩ := List.forall_mem_cons.1 h
    have hpiece := keepQuoted_piece hq hmark hclosed
    have hrest := ih hmore
    rw [quotedLiteral, ← String.toList_inj, String.toList_ofList] at hrest ⊢
    cases more with
    | nil => simpa [markedText, quotedTexts, keepQuoted] using hpiece []
    | cons next more =>
      simp only [List.map_cons, quotedTexts, String.intercalate_cons_cons, String.toList_append,
        List.append_assoc, String.toList_ofList, markedText] at hrest hpiece ⊢
      rw [hpiece, ← hrest]
      rfl

theorem IsQuoted.exists_quotedTexts (hq : isQuote quote = true) (h : IsQuoted quote text) :
    ∃ bodies, bodies ≠ [] ∧ (∀ body ∈ bodies, ClosedBy quote body) ∧
      quotedLiteral text = " ".intercalate (quotedTexts quote bodies) := by
  obtain ⟨pieces, hne, hpieces, rfl⟩ := h
  refine ⟨pieces.map Prod.snd, by simpa using hne, fun body hbody => ?_,
    quotedLiteral_eq hq pieces hpieces⟩
  obtain ⟨piece, hmem, rfl⟩ := List.mem_map.1 hbody
  exact (hpieces piece hmem).2

theorem isAtom_literalText {kind : LiteralKind} (h : IsLiteral kind text) :
    IsAtom (Lowering.literalText kind text) ∧
      Term.ofAtom (Lowering.literalText kind text) = .atom (Lowering.literalText kind text) := by
  have hnumber : ∀ {text}, IsNumber text.toList → IsAtom text ∧ Term.ofAtom text = .atom text :=
    fun h => ⟨.number h, ofAtom_number h⟩
  have hconstant : ∀ {text}, (text = "None" ∨ text = "True" ∨ text = "False") →
      IsAtom text ∧ Term.ofAtom text = .atom text :=
    fun h => ⟨.constant h, ofAtom_constant h⟩
  have hquoted : ∀ quote, isQuote quote = true → IsQuoted quote text →
      IsAtom (quotedLiteral text) ∧
        Term.ofAtom (quotedLiteral text) = .atom (quotedLiteral text) := by
    intro quote hq hquoted
    obtain ⟨bodies, hne, hbodies, htext⟩ := hquoted.exists_quotedTexts hq
    rw [htext]
    exact ⟨.quoted hq hne hbodies, ofAtom_quotedTexts hq hne⟩
  cases kind with
  | int => exact hnumber (isNumber_intLiteral h)
  | float => exact hnumber (isNumber_floatLiteral h)
  | char => exact hquoted '\'' (by decide) h
  | string => exact hquoted '\"' (by decide) h
  | bool =>
    refine hconstant ?_
    rcases h with rfl | rfl <;> decide
  | null => exact hconstant (.inl rfl)

theorem not_isNumber_quotedTexts (hq : isQuote quote = true) {bodies : List (List Char)}
    (hne : bodies ≠ []) : ¬ IsNumber (" ".intercalate (quotedTexts quote bodies)).toList := by
  intro hnum
  obtain ⟨c, rest, hcons, -, -, hc⟩ := isNumber_head hnum
  obtain rfl : c = quote := by simpa [hcons] using head?_quotedTexts quote hne
  rcases isQuote_iff.1 hq with rfl | rfl <;> exact absurd hc (by simp)

theorem isNumber_literalText {kind : LiteralKind} (h : IsLiteral kind text)
    (hnum : IsNumber (Lowering.literalText kind text).toList) : kind = .int ∨ kind = .float := by
  have hquoted : ∀ quote, isQuote quote = true → IsQuoted quote text →
      ¬ IsNumber (quotedLiteral text).toList := by
    intro quote hq hquoted
    obtain ⟨bodies, hne, -, htext⟩ := hquoted.exists_quotedTexts hq
    rw [htext]
    exact not_isNumber_quotedTexts hq hne
  cases kind with
  | int => exact .inl rfl
  | float => exact .inr rfl
  | char => exact absurd hnum (hquoted '\'' (by decide) h)
  | string => exact absurd hnum (hquoted '\"' (by decide) h)
  | bool =>
    rcases h with rfl | rfl
    · exact absurd hnum (not_isNumber_cons (c := 'T') (by decide) _)
    · exact absurd hnum (not_isNumber_cons (c := 'F') (by decide) _)
  | null =>
    have hnone : ¬ IsNumber "None".toList := not_isNumber_cons (by decide) _
    exact absurd hnum hnone

end Serpentine.Script

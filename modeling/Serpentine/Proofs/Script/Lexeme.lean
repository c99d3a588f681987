import Mathlib.Tactic.Common
import Mathlib.Tactic.IntervalCases
import Serpentine.Script.Identifier
import Serpentine.Script.Term
import Serpentine.Token.Scan

/-!
# Lexemes of expressions

The text of an expression of the script cut into lexemes, by the rules of Python: the longest word,
number or operator is taken, blanks separate lexemes, and a number is not followed by a letter.
-/

namespace Serpentine.Script

/-- The lexemes of expressions. -/
inductive Lexeme where
  | name (text : String)
  /-- `None`, `True` or `False`. -/
  | constant (text : String)
  | number (text : String)
  | quoted (text : String)
  /-- An operator between two operands; two of them can also stand in front of one. -/
  | op (op : BinaryOp)
  | tilde | not | ifWord | elseWord
  | lParen | rParen | lBracket | rBracket | comma | dot
deriving Repr, DecidableEq, Inhabited

/-! ## Numbers -/

/-- The bases of numbers other than ten. -/
inductive Radix where
  | hex | octal | binary
deriving Repr, DecidableEq, Inhabited

def Radix.isDigit : Radix → Char → Bool
  | .hex, c => isHexDigit c
  | .octal, c => isOctalDigit c
  | .binary, c => c == '0' || c == '1'

/-- The base that a letter behind a zero stands for. -/
def Radix.ofMark? (c : Char) : Option Radix :=
  if c == 'x' || c == 'X' then some .hex
  else if c == 'o' || c == 'O' then some .octal
  else if c == 'b' || c == 'B' then some .binary
  else none

/-- The automaton of numbers. -/
inductive NumberState where
  | start
  /-- Behind a single zero. -/
  | zero
  /-- In a run of zeros. -/
  | zeros (sep : Bool)
  /-- In digits of which the first is no zero. -/
  | digits (sep : Bool)
  /-- In digits of which the first is a zero and another one is not. -/
  | padded (sep : Bool)
  /-- Behind a point that follows digits. -/
  | point
  /-- Behind a point that follows nothing. -/
  | barePoint
  | fraction (sep : Bool)
  /-- Behind the letter of an exponent. -/
  | exponent
  | exponentSign
  | exponentDigits (sep : Bool)
  /-- Behind the mark of a base. -/
  | radix (r : Radix)
  | radixDigits (r : Radix) (sep : Bool)
deriving Repr, DecidableEq, Inhabited

namespace NumberState

/-- What may follow the digits of a whole number. -/
def behindDigits (c : Char) : Option NumberState :=
  if c == '.' then some .point
  else if c == 'e' || c == 'E' then some .exponent
  else none

/-- One more character of a number. -/
def step : NumberState → Char → Option NumberState
  | .start, c =>
    if c == '0' then some .zero
    else if c.isDigit then some (.digits false)
    else if c == '.' then some .barePoint
    else none
  | .zero, c =>
    if c == '0' then some (.zeros false)
    else if c.isDigit then some (.padded false)
    else if c == '_' then some (.zeros true)
    else match Radix.ofMark? c with
      | some r => some (.radix r)
      | none => behindDigits c
  | .zeros sep, c =>
    if c == '0' then some (.zeros false)
    else if c.isDigit then some (.padded false)
    else if sep then none
    else if c == '_' then some (.zeros true)
    else behindDigits c
  | .digits sep, c =>
    if c.isDigit then some (.digits false)
    else if sep then none
    else if c == '_' then some (.digits true)
    else behindDigits c
  | .padded sep, c =>
    if c.isDigit then some (.padded false)
    else if sep then none
    else if c == '_' then some (.padded true)
    else behindDigits c
  | .point, c =>
    if c.isDigit then some (.fraction false)
    else if c == 'e' || c == 'E' then some .exponent
    else none
  | .barePoint, c => if c.isDigit then some (.fraction false) else none
  | .fraction sep, c =>
    if c.isDigit then some (.fraction false)
    else if sep then none
    else if c == '_' then some (.fraction true)
    else if c == 'e' || c == 'E' then some .exponent
    else none
  | .exponent, c =>
    if c.isDigit then some (.exponentDigits false)
    else if c == '+' || c == '-' then some .exponentSign
    else none
  | .exponentSign, c => if c.isDigit then some (.exponentDigits false) else none
  | .exponentDigits sep, c =>
    if c.isDigit then some (.exponentDigits false)
    else if sep then none
    else if c == '_' then some (.exponentDigits true)
    else none
  | .radix r, c =>
    if r.isDigit c then some (.radixDigits r false)
    else if c == '_' then some (.radixDigits r true)
    else none
  | .radixDigits r sep, c =>
    if r.isDigit c then some (.radixDigits r false)
    else if sep then none
    else if c == '_' then some (.radixDigits r true)
    else none

/-- A number may end here. -/
def isFinal : NumberState → Bool
  | .zero | .point => true
  | .zeros sep | .digits sep | .fraction sep | .exponentDigits sep | .radixDigits _ sep => !sep
  | _ => false

/-- The state behind some characters of a number. -/
def run (q : NumberState) (cs : List Char) : Option NumberState :=
  cs.foldlM step q

/-- The longest part of a text that goes on with a number, and the state behind it. -/
def take : NumberState → List Char → NumberState × List Char × List Char
  | q, [] => (q, [], [])
  | q, c :: cs =>
    match q.step c with
    | none => (q, [], c :: cs)
    | some next =>
      let r := next.take cs
      (r.1, c :: r.2.1, r.2.2)

end NumberState

def IsNumber (cs : List Char) : Prop :=
  ∃ q, NumberState.run .start cs = some q ∧ q.isFinal = true

/-! ## Cutting a text -/

/-- The lexeme of a word. Other reserved words stand in no expression. -/
def Lexeme.ofWord? (word : String) : Option Lexeme :=
  if word = "not" then some .not
  else if word = "and" then some (.op .and)
  else if word = "or" then some (.op .or)
  else if word = "if" then some .ifWord
  else if word = "else" then some .elseWord
  else if word = "None" ∨ word = "True" ∨ word = "False" then some (.constant word)
  else if reserved.contains word then none
  else some (.name word)

/-- The operators and brackets, the longest first. -/
def marks : List (List Char × Lexeme) :=
  [(['<', '<'], .op .shl), (['>', '>'], .op .shr), (['=', '='], .op .eq), (['!', '='], .op .ne),
   (['<', '='], .op .le), (['>', '='], .op .ge), (['<'], .op .lt), (['>'], .op .gt),
   (['+'], .op .add), (['-'], .op .sub), (['*'], .op .mul), (['/'], .op .div), (['%'], .op .mod),
   (['&'], .op .bitAnd), (['|'], .op .bitOr), (['^'], .op .bitXor), (['~'], .tilde),
   (['('], .lParen), ([')'], .rParen), (['['], .lBracket), ([']'], .rBracket), ([','], .comma),
   (['.'], .dot)]

/-- The rest of a quoted text with its closing quote, and what follows it. -/
def closeQuote (quote : Char) : Bool → List Char → Option (List Char × List Char)
  | _, [] => none
  | true, c :: cs => (closeQuote quote false cs).map fun r => (c :: r.1, r.2)
  | false, c :: cs =>
    if c = '\n' then none
    else if c = quote then some ([c], cs)
    else (closeQuote quote (c == '\\') cs).map fun r => (c :: r.1, r.2)

namespace Lexeme

def cutWord (cs : List Char) : Option (Lexeme × List Char) :=
  (ofWord? (String.ofList (cs.takeWhile isNameChar))).map (·, cs.dropWhile isNameChar)

def cutNumber (cs : List Char) : Option (Lexeme × List Char) :=
  let r := NumberState.start.take cs
  if r.1.isFinal && !r.2.2.head?.any isNameChar then some (.number (String.ofList r.2.1), r.2.2)
  else none

/-- A quoted text behind its opening quote. Three quotes in a row open a text of another sort. -/
def cutQuoted (quote : Char) (cs : List Char) : Option (Lexeme × List Char) :=
  if [quote, quote].isPrefixOf cs then none
  else (closeQuote quote false cs).map fun r => (.quoted (String.ofList (quote :: r.1)), r.2)

/-- An operator or bracket at the front of a text. -/
def cutMark (cs : List Char) : Option (Lexeme × List Char) :=
  (marks.find? fun m => m.1.isPrefixOf cs).map fun m => (m.2, cs.drop m.1.length)

/-- The first lexeme of a text that starts with no blank. -/
def cut (c : Char) (cs : List Char) : Option (Lexeme × List Char) :=
  if isNameStart c then cutWord (c :: cs)
  else if c.isDigit || (c == '.' && cs.head?.any Char.isDigit) then cutNumber (c :: cs)
  else if isQuote c then cutQuoted c cs
  else cutMark (c :: cs)

end Lexeme

/-! ### A lexeme takes characters -/

theorem NumberState.length_take_le (q : NumberState) (cs : List Char) :
    (q.take cs).2.2.length ≤ cs.length := by
  induction cs generalizing q with
  | nil => exact Nat.le_refl _
  | cons c cs ih =>
    rw [take]
    split
    · exact Nat.le_refl _
    · exact Nat.le_succ_of_le (ih _)

theorem length_closeQuote_le {quote : Char} {escaped : Bool} {cs : List Char}
    {r : List Char × List Char} (h : closeQuote quote escaped cs = some r) :
    r.2.length ≤ cs.length := by
  fun_induction closeQuote quote escaped cs generalizing r with
  | case1 | case3 => cases h
  | case4 =>
    cases h
    exact Nat.le_succ _
  | case2 c cs ih | case5 c cs _ _ ih =>
    obtain ⟨tail, htail, rfl⟩ := Option.map_eq_some_iff.1 h
    have hle : tail.2.length ≤ cs.length := ih htail
    exact Nat.le_succ_of_le hle

variable {c : Char}

theorem isNameChar_of_isNameStart (h : isNameStart c = true) : isNameChar c = true := by
  simp only [isNameStart, isNameChar, Char.isAlphanum, Bool.or_eq_true] at *
  exact h.imp_right .inl

theorem marks_ne_nil : ∀ m ∈ marks, m.1 ≠ [] := by
  decide

theorem Lexeme.length_cut_le {cs rest : List Char} {l : Lexeme} (h : cut c cs = some (l, rest)) :
    rest.length ≤ cs.length := by
  rw [cut] at h
  split at h
  · next hstart =>
    obtain ⟨_, -, heq⟩ := Option.map_eq_some_iff.1 h
    cases heq
    rw [List.dropWhile_cons_of_pos (isNameChar_of_isNameStart hstart)]
    exact (List.dropWhile_sublist _).length_le
  split at h
  · -- the first character is taken, since there is no number without one
    rw [cutNumber, NumberState.take] at h
    split at h
    · cases h
    · rw [Option.ite_none_right_eq_some] at h
      cases h.2
      exact NumberState.length_take_le _ cs
  split at h
  · rw [cutQuoted, Option.ite_none_left_eq_some] at h
    obtain ⟨tail, htail, heq⟩ := Option.map_eq_some_iff.1 h.2
    cases heq
    exact length_closeQuote_le htail
  · obtain ⟨m, hm, heq⟩ := Option.map_eq_some_iff.1 h
    cases heq
    have hne : m.1 ≠ [] := marks_ne_nil m (List.mem_of_find?_eq_some hm)
    obtain ⟨d, ds, hcons⟩ := List.exists_cons_of_ne_nil hne
    rw [hcons, List.length_cons, List.drop_succ_cons, List.length_drop]
    exact Nat.sub_le _ _

/-- All lexemes of a text. -/
def lex (cs : List Char) : Option (List Lexeme) :=
  match cs with
  | [] => some []
  | c :: cs =>
    if c = ' ' then lex cs
    else match h : Lexeme.cut c cs with
      | none => none
      | some (l, rest) =>
        have : rest.length ≤ cs.length := Lexeme.length_cut_le h
        (lex rest).map (l :: ·)
termination_by cs.length

/-! ## One lexeme in front of a text -/

/-- What cannot be taken for a part of the word or literal in front. -/
def Clear (cs : List Char) : Prop :=
  ∀ c ∈ cs.head?, isNameChar c = false ∧ isQuote c = false

def ClearOfNumber (cs : List Char) : Prop :=
  Clear cs ∧ cs.head? ≠ some '.'

theorem clear_cons (cs : List Char) (h : isNameChar c = false) (hq : isQuote c = false) :
    Clear (c :: cs) := by
  intro d hd
  obtain rfl : c = d := by simpa using hd
  exact ⟨h, hq⟩

theorem clearOfNumber_cons (cs : List Char) (h : isNameChar c = false) (hq : isQuote c = false)
    (hc : c ≠ '.') : ClearOfNumber (c :: cs) :=
  ⟨clear_cons cs h hq, by simpa using hc⟩

/-- The text is a word: a letter or `_`, and letters, digits or `_` behind it. -/
def IsWord (cs : List Char) : Prop :=
  cs.head?.any isNameStart = true ∧ cs.all isNameChar = true

theorem IsWord.exists_cons {w : List Char} (h : IsWord w) :
    ∃ c cs, w = c :: cs ∧ isNameStart c = true := by
  cases w with
  | nil => cases h.1
  | cons c cs => exact ⟨c, cs, rfl, by simpa using h.1⟩

theorem lex_nil : lex [] = some [] := by
  rw [lex]

theorem lex_blank (cs : List Char) : lex (' ' :: cs) = lex cs := by
  rw [lex, if_pos rfl]

variable {ls : List Lexeme}

theorem lex_cons {cs rest : List Char} {l : Lexeme} (hc : c ≠ ' ')
    (hcut : Lexeme.cut c cs = some (l, rest)) (hls : lex rest = some ls) :
    lex (c :: cs) = some (l :: ls) := by
  rw [lex, if_neg hc]
  split
  · next hnone => cases hnone.symm.trans hcut
  · next hsome =>
    cases hsome.symm.trans hcut
    rw [hls]
    rfl

theorem takeWhile_append_clear {w rest : List Char} (hw : w.all isNameChar = true)
    (hr : Clear rest) :
    (w ++ rest).takeWhile isNameChar = w ∧ (w ++ rest).dropWhile isNameChar = rest := by
  induction w with
  | nil =>
    cases rest with
    | nil => simp
    | cons c rest => simp [(hr c rfl).1]
  | cons c w ih =>
    simp only [List.all_cons, Bool.and_eq_true] at hw
    simp [hw.1, ih hw.2]

theorem ne_blank_of_isNameStart (h : isNameStart c = true) : c ≠ ' ' := by
  rintro rfl
  exact absurd h (by decide)

theorem lex_word {w rest : List Char} {l : Lexeme} (hw : IsWord w)
    (hl : Lexeme.ofWord? (String.ofList w) = some l) (hr : Clear rest) (hls : lex rest = some ls) :
    lex (w ++ rest) = some (l :: ls) := by
  obtain ⟨c, w, rfl, hc⟩ := hw.exists_cons
  obtain ⟨htake, hdrop⟩ := takeWhile_append_clear hw.2 hr
  show lex (c :: (w ++ rest)) = _
  refine lex_cons (ne_blank_of_isNameStart hc) ?_ hls
  rw [Lexeme.cut, if_pos hc, Lexeme.cutWord, ← List.cons_append, htake, hdrop, hl]
  rfl

/-! ### Numbers -/

theorem NumberState.take_append {q q' : NumberState} {cs rest : List Char}
    (hrun : q.run cs = some q') (hrest : ∀ c ∈ rest.head?, q'.step c = none) :
    q.take (cs ++ rest) = (q', cs, rest) := by
  induction cs generalizing q with
  | nil =>
    obtain rfl : q = q' := by simpa [run] using hrun
    cases rest with
    | nil => rfl
    | cons c rest => simp [take, hrest c rfl]
  | cons c cs ih =>
    rw [run, List.foldlM_cons] at hrun
    obtain ⟨next, hnext, htail⟩ := Option.bind_eq_some_iff.1 hrun
    rw [List.cons_append, take, hnext]
    simp only [ih htail]

theorem isAlpha_iff : c.isAlpha = true ↔ ('A' ≤ c ∧ c ≤ 'Z') ∨ ('a' ≤ c ∧ c ≤ 'z') :=
  Bool.or_eq_true_iff.trans <| or_congr decide_eq_true_iff <|
    Bool.and_eq_true_iff.trans <| and_congr decide_eq_true_iff decide_eq_true_iff

/-- The digits of the largest base. -/
def hexDigits : List Char :=
  "0123456789abcdefABCDEF".toList

theorem of_isHexDigit {p : Char → Bool} (hall : hexDigits.all p = true) (h : isHexDigit c = true) :
    p c = true := by
  have hbounds : (48 ≤ c.toNat ∧ c.toNat ≤ 57) ∨ (97 ≤ c.toNat ∧ c.toNat ≤ 102) ∨
      65 ≤ c.toNat ∧ c.toNat ≤ 70 := by
    simp only [isHexDigit, Char.isDigit, Bool.or_eq_true, Bool.and_eq_true, decide_eq_true_eq] at h
    exact or_assoc.1 h
  refine List.all_eq_true.1 hall c ?_
  rw [← Char.ofNat_toNat c]
  generalize c.toNat = n at hbounds
  rcases hbounds with ⟨h₁, h₂⟩ | ⟨h₁, h₂⟩ | ⟨h₁, h₂⟩ <;> interval_cases n <;> decide

theorem isHexDigit_of_isDigit (h : c.isDigit = true) : isHexDigit c = true := by
  simp [isHexDigit, h]

theorem isNameChar_of_isHexDigit (h : isHexDigit c = true) : isNameChar c = true :=
  of_isHexDigit (by decide) h

theorem Radix.isHexDigit_of_isDigit {r : Radix} (h : r.isDigit c = true) : isHexDigit c = true := by
  cases r with
  | hex => exact h
  | octal =>
    simp only [Radix.isDigit, isOctalDigit, isHexDigit, Char.isDigit, Bool.or_eq_true,
      Bool.and_eq_true, decide_eq_true_eq] at *
    exact .inl (.inl ⟨h.1, Char.le_trans h.2 (by decide)⟩)
  | binary =>
    rcases (by simpa [Radix.isDigit] using h : c = '0' ∨ c = '1') with rfl | rfl <;> decide

theorem NumberState.step_eq_none {q : NumberState} (hq : q.isFinal = true)
    (hc : isNameChar c = false) (hdot : c ≠ '.') : q.step c = none := by
  have hhex : isHexDigit c = false := by
    by_contra h
    exact absurd (isNameChar_of_isHexDigit (by simpa using h)) (by simp [hc])
  have hdigit : c.isDigit = false := by
    by_contra h
    exact absurd (isHexDigit_of_isDigit (by simpa using h)) (by simp [hhex])
  have hne : ∀ d : Char, isNameChar d = true → c ≠ d := by
    rintro d hd rfl
    simp [hc] at hd
  have hradix : ∀ r : Radix, r.isDigit c = false := by
    intro r
    by_contra h
    exact absurd (Radix.isHexDigit_of_isDigit (by simpa using h)) (by simp [hhex])
  have h0 := hne '0' (by decide)
  have hu := hne '_' (by decide)
  have he := hne 'e' (by decide)
  have hE := hne 'E' (by decide)
  have hmark : Radix.ofMark? c = none := by
    simp [Radix.ofMark?, hne 'x' (by decide), hne 'X' (by decide), hne 'o' (by decide),
      hne 'O' (by decide), hne 'b' (by decide), hne 'B' (by decide)]
  cases q <;> simp_all [step, behindDigits, isFinal]

theorem isNameStart_of_isDigit (h : c.isDigit = true) : isNameStart c = false := by
  have hc := of_isHexDigit (p := fun c => !c.isDigit || !isNameStart c) (by decide)
    (isHexDigit_of_isDigit h)
  simpa [h] using hc

theorem isNumber_head {cs : List Char} (h : IsNumber cs) :
    ∃ c rest, cs = c :: rest ∧ isNameStart c = false ∧ c ≠ ' ' ∧
      (c.isDigit || (c == '.' && rest.head?.any Char.isDigit)) = true := by
  obtain ⟨q, hrun, hq⟩ := h
  cases cs with
  | nil =>
    obtain rfl : NumberState.start = q := by simpa [NumberState.run] using hrun
    simp [NumberState.isFinal] at hq
  | cons c rest =>
    refine ⟨c, rest, rfl, ?_⟩
    rw [NumberState.run, List.foldlM_cons] at hrun
    obtain ⟨next, hnext, htail⟩ := Option.bind_eq_some_iff.1 hrun
    by_cases hd : c.isDigit = true
    · refine ⟨isNameStart_of_isDigit hd, ?_, by simp [hd]⟩
      rintro rfl
      exact absurd hd (by decide)
    · -- only a point is left, and a number has a digit behind it
      have h0 : c ≠ '0' := by
        rintro rfl
        exact hd (by decide)
      have hdot : c = '.' ∧ next = .barePoint := by
        by_cases hp : c = '.' <;> simp_all [NumberState.step]
      obtain ⟨rfl, rfl⟩ := hdot
      refine ⟨by decide, by decide, ?_⟩
      cases rest with
      | nil =>
        obtain rfl : NumberState.barePoint = q := by simpa using htail
        simp [NumberState.isFinal] at hq
      | cons d rest =>
        rw [List.foldlM_cons] at htail
        obtain ⟨_, hstep, -⟩ := Option.bind_eq_some_iff.1 htail
        simp only [NumberState.step, Option.ite_none_right_eq_some] at hstep
        simp [hstep.1]

theorem not_isNumber_cons (h : isNameStart c = true) (cs : List Char) : ¬ IsNumber (c :: cs) := by
  intro hnum
  obtain ⟨d, _, hcons, hd, -⟩ := isNumber_head hnum
  obtain rfl : c = d := (List.cons.inj hcons).1
  simp [h] at hd

theorem lex_number {w rest : List Char} (hw : IsNumber w) (hr : ClearOfNumber rest)
    (hls : lex rest = some ls) : lex (w ++ rest) = some (.number (String.ofList w) :: ls) := by
  obtain ⟨c, w', rfl, hstart, hblank, hnum⟩ := isNumber_head hw
  obtain ⟨q, hrun, hq⟩ := hw
  have htake : NumberState.start.take (c :: w' ++ rest) = (q, c :: w', rest) := by
    refine NumberState.take_append hrun fun d hd => ?_
    refine NumberState.step_eq_none hq (hr.1 d hd).1 ?_
    rintro rfl
    exact hr.2 hd
  have hrest : rest.head?.any isNameChar = false := by
    cases rest with
    | nil => rfl
    | cons d rest => simp [(hr.1 d rfl).1]
  have hnum' : (c.isDigit || (c == '.' && (w' ++ rest).head?.any Char.isDigit)) = true := by
    cases w' with
    | nil => simp_all
    | cons d w' => simpa using hnum
  show lex (c :: (w' ++ rest)) = _
  refine lex_cons hblank ?_ hls
  rw [Lexeme.cut, if_neg (by simp [hstart]), if_pos hnum', Lexeme.cutNumber,
    ← List.cons_append, htake]
  simp [hq, hrest]

/-! ### Quoted texts -/

/-- The text behind an opening quote ends in the quote that closes it. -/
def ClosedBy (quote : Char) (body : List Char) : Prop :=
  closeQuote quote false body = some (body, [])

theorem closeQuote_append {quote : Char} {escaped : Bool} {cs : List Char}
    {r : List Char × List Char} (h : closeQuote quote escaped cs = some r) (rest : List Char) :
    closeQuote quote escaped (cs ++ rest) = some (r.1, r.2 ++ rest) := by
  fun_induction closeQuote quote escaped cs generalizing r with
  | case1 | case3 => cases h
  | case2 c cs ih =>
    obtain ⟨tail, htail, rfl⟩ := Option.map_eq_some_iff.1 h
    simp [closeQuote, ih htail]
  | case4 cs hline =>
    cases h
    simp [closeQuote, hline]
  | case5 c cs hline hclose ih =>
    obtain ⟨tail, htail, rfl⟩ := Option.map_eq_some_iff.1 h
    simp [closeQuote, hline, hclose, ih htail]

theorem isQuote_iff : isQuote c = true ↔ c = '\"' ∨ c = '\'' := by
  simp [isQuote]

theorem lex_quoted {quote : Char} {body rest : List Char} (hquote : isQuote quote = true)
    (hbody : ClosedBy quote body) (hr : Clear rest) (hls : lex rest = some ls) :
    lex (quote :: body ++ rest) = some (.quoted (String.ofList (quote :: body)) :: ls) := by
  have hthree : [quote, quote].isPrefixOf (body ++ rest) = false := by
    unfold ClosedBy at hbody
    match body, rest with
    | [], _ => simp [closeQuote] at hbody
    | [c], [] => simp [List.isPrefixOf]
    | [c], d :: rest =>
      have hd : quote ≠ d := by
        rintro rfl
        simp [(hr _ rfl).2] at hquote
      simp [List.isPrefixOf, hd]
    | c :: d :: body, _ =>
      have hc : quote ≠ c := by
        rintro rfl
        by_cases hn : quote = '\n' <;> simp [closeQuote, hn] at hbody
      simp [List.isPrefixOf, hc]
  have hq := isQuote_iff.1 hquote
  show lex (quote :: (body ++ rest)) = _
  refine lex_cons (by rcases hq with rfl | rfl <;> decide) ?_ hls
  have hstart : isNameStart quote = false := by rcases hq with rfl | rfl <;> decide
  have hdigit : quote.isDigit = false := by rcases hq with rfl | rfl <;> decide
  have hdot : quote ≠ '.' := by rcases hq with rfl | rfl <;> decide
  rw [Lexeme.cut, if_neg (by simp [hstart]), if_neg (by simp [hdigit, hdot]), if_pos hquote,
    Lexeme.cutQuoted, if_neg (by simp [hthree]), closeQuote_append hbody]
  rfl

/-! ### Marks -/

/-- The marks of one character that start no longer one. -/
def singles : List (Char × Lexeme) :=
  [('(', .lParen), (')', .rParen), ('[', .lBracket), (']', .rBracket), (',', .comma),
   ('+', .op .add), ('-', .op .sub), ('~', .tilde)]

theorem lex_single {l : Lexeme} (h : (c, l) ∈ singles) {rest : List Char}
    (hls : lex rest = some ls) : lex (c :: rest) = some (l :: ls) := by
  simp only [singles, List.mem_cons, Prod.mk.injEq, List.not_mem_nil, or_false] at h
  rcases h with ⟨rfl, rfl⟩ | ⟨rfl, rfl⟩ | ⟨rfl, rfl⟩ | ⟨rfl, rfl⟩ | ⟨rfl, rfl⟩ | ⟨rfl, rfl⟩ |
    ⟨rfl, rfl⟩ | ⟨rfl, rfl⟩ <;>
  exact lex_cons (by decide) rfl hls

theorem lex_dot {rest : List Char} (hc : isNameStart c = true) (hls : lex (c :: rest) = some ls) :
    lex ('.' :: c :: rest) = some (.dot :: ls) := by
  have hd : c.isDigit = false := by
    by_contra h
    rw [isNameStart_of_isDigit (by simpa using h)] at hc
    exact Bool.noConfusion hc
  refine lex_cons (by decide) ?_ hls
  rw [Lexeme.cut, if_neg (by decide), if_neg (by simp [hd]), if_neg (by decide)]
  rfl

theorem lex_operator (op : BinaryOp) {rest : List Char} (hls : lex rest = some ls) :
    lex (' ' :: (op.symbol.toList ++ ' ' :: rest)) = some (.op op :: ls) := by
  have hblank : lex (' ' :: rest) = some ls := by rw [lex_blank, hls]
  have hclear : Clear (' ' :: rest) := clear_cons rest (by decide) (by decide)
  rw [lex_blank]
  cases op with
  | and | or => exact lex_word ⟨by decide, by decide⟩ (by decide) hclear hblank
  | _ => exact lex_cons (by decide) rfl hblank

end Serpentine.Script

import Mathlib.Data.List.Basic
import Serpentine.Config.Digits
import Serpentine.Proofs.Script.Literals
import Serpentine.Proofs.Token.Spacing

/-!
# The values of numerals

* **`numeral?_intLiteral`**: an integer of the source is written as a numeral of its value.
* **`intValue?_eq`**: the value that lowering computes with is this number, if it fits.
-/

namespace Serpentine

open Config (digitValue numberOf)

/-- The number that digits of a base spell. What stands between digits does not count. -/
def spelled (base : Nat) (cs : List Char) : Nat :=
  numberOf base (cs.filter isHexDigit)

def Script.Radix.base : Radix → Nat
  | .hex => 16
  | .octal => 8
  | .binary => 2

/-- The number that an integer of the source without its suffix stands for: octal behind a zero, or
of the base of a mark. -/
def Literal.amountOf : List Char → Nat
  | '0' :: c :: cs =>
    match Script.Radix.ofMark? c with
    | some r => spelled r.base cs
    | none => spelled 8 (c :: cs)
  | cs => spelled 10 cs

/-- The number that an integer of the source stands for. -/
def Literal.amount (text : String) : Nat :=
  amountOf (dropSuffix isIntSuffix text.toList)

namespace Script

/-- The whole number that a text of the script stands for, if it is one. -/
def numeral? (text : String) : Option Nat :=
  match NumberState.run .start text.toList with
  | some .zero | some (.zeros false) | some (.digits false) => some (spelled 10 text.toList)
  | some (.radixDigits r false) => some (spelled r.base (text.toList.drop 2))
  | _ => none

variable {cs : List Char} {text : String}

/-! ## Digits -/

/-- The characters of a sort are the digits of a base. -/
def Spells (isDigit : Char → Bool) (base : Nat) : Prop :=
  ∀ c, isDigit c = true → isHexDigit c = true ∧
    Literal.digit? base c.toLower = some (digitValue c)

theorem spells_of_all {isDigit : Char → Bool} {base : Nat}
    (hhex : ∀ c, isDigit c = true → isHexDigit c = true)
    (h : (hexDigits.all fun c =>
      !isDigit c || Literal.digit? base c.toLower == some (digitValue c)) = true) :
    Spells isDigit base := by
  intro c hc
  have hdigit := of_isHexDigit h (hhex c hc)
  rw [hc, Bool.not_true, Bool.false_or, beq_iff_eq] at hdigit
  exact ⟨hhex c hc, hdigit⟩

theorem spells_decimal : Spells Char.isDigit 10 :=
  spells_of_all (fun _ h => isHexDigit_of_isDigit h) (by decide)

theorem spells_radix (r : Radix) : Spells r.isDigit r.base :=
  spells_of_all (fun _ h => Radix.isHexDigit_of_isDigit h) (by cases r <;> decide)

section Reading

variable {isDigit : Char → Bool} {base : Nat}

theorem Spells.natFrom?_map (hspells : Spells isDigit base) (h : ∀ c ∈ cs, isDigit c = true)
    (n : Nat) : Literal.natFrom? base n (cs.map Char.toLower) =
      some (cs.foldl (fun n c => base * n + digitValue c) n) := by
  induction cs generalizing n with
  | nil => rfl
  | cons c rest ih =>
    obtain ⟨hc, hrest⟩ := List.forall_mem_cons.1 h
    rw [List.map_cons, Literal.natFrom?, (hspells c hc).2, Option.bind_some, ih hrest, Nat.mul_comm]
    rfl

theorem Spells.filter_quote (hspells : Spells isDigit base) (h : Digits isDigit '\'' cs) :
    cs.filter (· != '\'') = cs.filter isHexDigit := by
  refine List.filter_congr fun c hc => ?_
  rcases h.isDigit_of_mem c hc with hdigit | rfl
  · rw [(hspells c hdigit).1, bne_iff_ne]
    rintro rfl
    exact absurd (hspells _ hdigit).1 (by decide)
  · decide

/-- The number that lowering reads from digits. -/
theorem Spells.int?_digits (hspells : Spells isDigit base) (h : Digits isDigit '\'' cs) :
    Literal.int? base ((cs.filter (· != '\'')).map Char.toLower) =
      checkedInt64 (spelled base cs) := by
  have hdigits : ∀ c ∈ cs.filter isHexDigit, isDigit c = true := by
    intro c hc
    obtain ⟨hmem, hhex⟩ := List.mem_filter.1 hc
    refine (h.isDigit_of_mem c hmem).resolve_right ?_
    rintro rfl
    exact absurd hhex (by decide)
  have hnat := hspells.natFrom?_map hdigits 0
  rw [hspells.filter_quote h]
  -- the first digit is no sign
  obtain ⟨c, rest, rfl, hc⟩ := h.head
  have hhex := (hspells c hc).1
  have hsign := of_isHexDigit (p := fun c => c.toLower != '-' && c.toLower != '+') (by decide) hhex
  rw [Bool.and_eq_true, bne_iff_ne, bne_iff_ne] at hsign
  rw [List.filter_cons_of_pos hhex, List.map_cons] at hnat ⊢
  unfold Literal.int?
  split
  · next heq => exact absurd (List.cons.inj heq).1 hsign.1
  · next heq => exact absurd (List.cons.inj heq).1 hsign.2
  · rw [Literal.nat?, if_neg (by simp), hnat, Option.bind_some, spelled, numberOf,
      List.filter_cons_of_pos hhex]

end Reading

/-! ## The integers of the source -/

theorem toLower_mark {mark : Char} {r : Radix} (hmark : Radix.ofMark? mark = some r)
    (hr : r ≠ .octal) : mark ≠ '\'' ∧ (r = .hex ∧ mark.toLower = 'x' ∨
      r = .binary ∧ mark.toLower = 'b') := by
  have hm : (mark = 'x' ∨ mark = 'X') ∧ r = .hex ∨ (mark = 'b' ∨ mark = 'B') ∧ r = .binary := by
    unfold Radix.ofMark? at hmark
    grind
  rcases hm with ⟨rfl | rfl, rfl⟩ | ⟨rfl | rfl, rfl⟩ <;> decide

/-- Behind the zero of an octal number there is nothing, or there are digits. -/
theorem Digits.octal_tail (h : Digits isOctalDigit '\'' ('0' :: cs)) :
    cs = [] ∨ ∃ ds, (cs = ds ∨ cs = '\'' :: ds) ∧ Digits isOctalDigit '\'' ds := by
  cases h with
  | one => exact .inl rfl
  | next _ hcs => exact .inr ⟨cs, .inl rfl, hcs⟩
  | @sep _ ds _ hds => exact .inr ⟨ds, .inr rfl, hds⟩

theorem not_mark_of_isOctalDigit {c : Char} (h : isOctalDigit c = true) :
    c ≠ '\'' ∧ Radix.ofMark? c = none ∧ c.toLower ≠ 'x' ∧ c.toLower ≠ 'b' := by
  have hc := of_isHexDigit (p := fun c => !isOctalDigit c || (c != '\'') && Radix.ofMark? c == none &&
    c.toLower != 'x' && c.toLower != 'b') (by decide) (Radix.isHexDigit_of_isDigit (r := .octal) h)
  simpa [h, and_assoc] using hc

theorem amountOf_decimal (hzero : cs.head? ≠ some '0') : Literal.amountOf cs = spelled 10 cs := by
  unfold Literal.amountOf
  split
  · exact absurd rfl hzero
  · rfl

theorem amountOf_octal (h : Digits isOctalDigit '\'' ('0' :: cs)) :
    Literal.amountOf ('0' :: cs) = spelled 8 cs := by
  rcases h.octal_tail with rfl | ⟨ds, hcs, hds⟩
  · rfl
  · obtain ⟨d, rest, rfl, hd⟩ := hds.head
    rcases hcs with rfl | rfl
    · rw [Literal.amountOf, (not_mark_of_isOctalDigit hd).2.1]
    · rfl

theorem amountOf_radix {mark : Char} {r : Radix} (hmark : Radix.ofMark? mark = some r) :
    Literal.amountOf ('0' :: mark :: cs) = spelled r.base cs := by
  rw [Literal.amountOf, hmark]

/-- **The value of an integer** that lowering computes with is the number it stands for, if it is in
range. -/
theorem intValue?_eq (h : IsInt text) :
    Literal.intValue? text = checkedInt64 (Literal.amount text) := by
  have hbody := h.isIntBody
  unfold Literal.intValue? Literal.digits Literal.amount
  generalize Literal.dropSuffix Literal.isIntSuffix text.toList = body at hbody
  cases hbody with
  | decimal h hzero =>
    have hvalue := spells_decimal.int?_digits h
    rw [spells_decimal.filter_quote h] at hvalue ⊢
    rw [amountOf_decimal hzero, ← hvalue]
    obtain ⟨c, rest, rfl, hc⟩ := h.head
    have hc0 : c ≠ '0' := by simpa using hzero
    have hlower := of_isHexDigit (p := fun c => c == '0' || c.toLower != '0') (by decide)
      (isHexDigit_of_isDigit hc)
    replace hlower : c.toLower ≠ '0' := by simpa [hc0] using hlower
    rw [List.filter_cons_of_pos (isHexDigit_of_isDigit hc), List.map_cons]
    simp [hlower]
  | @octal cs h =>
    rw [amountOf_octal h]
    rcases h.octal_tail with rfl | ⟨ds, hcs, hds⟩
    · rfl
    · have hvalue := (spells_radix .octal).int?_digits hds
      have hquote : cs.filter (· != '\'') = ds.filter (· != '\'') := by
        rcases hcs with rfl | rfl <;> rfl
      have hamount : spelled 8 cs = spelled 8 ds := by rcases hcs with rfl | rfl <;> rfl
      obtain ⟨d, rest, rfl, hd⟩ := hds.head
      obtain ⟨hne, -, hx, hb⟩ := not_mark_of_isOctalDigit hd
      have hfilter : (d :: rest).filter (· != '\'') = d :: rest.filter (· != '\'') := by simp [hne]
      rw [hfilter] at hvalue
      rw [List.filter_cons_of_pos (by decide), hquote, hfilter, hamount]
      simpa [hx, hb, Radix.base] using hvalue
  | @radix mark r cs hmark hr h =>
    have hvalue := (spells_radix r).int?_digits h
    obtain ⟨hne, hcase⟩ := toLower_mark hmark hr
    have hfilter : ('0' :: mark :: cs).filter (· != '\'') =
        '0' :: mark :: cs.filter (· != '\'') := by simp [hne]
    rw [amountOf_radix hmark, hfilter, List.map_cons, List.map_cons, ← hvalue]
    rcases hcase with ⟨rfl, hlower⟩ | ⟨rfl, hlower⟩ <;> simp [hlower, Radix.base]

/-! ## Numerals of the script -/

theorem spelled_separators (base : Nat) (cs : List Char) :
    spelled base (separators cs) = spelled base cs := by
  have hfilter : (separators cs).filter isHexDigit = cs.filter isHexDigit := by
    induction cs with
    | nil => rfl
    | cons c rest ih =>
      by_cases hc : c = '\''
      · subst hc
        exact ih
      · have hsep : separators (c :: rest) = c :: separators rest := by simp [separators, hc]
        rw [hsep, List.filter_cons, List.filter_cons, ih]
  rw [spelled, spelled, hfilter]

/-- Zeros in front of digits do not count. -/
theorem spelled_dropZeros (base : Nat) (cs : List Char) :
    spelled base (cs.dropWhile fun d => d == '0' || d == '_') = spelled base cs := by
  induction cs with
  | nil => rfl
  | cons c rest ih =>
    rw [List.dropWhile_cons]
    split
    · next hc =>
      rw [ih]
      rcases (by simpa using hc : c = '0' ∨ c = '_') with rfl | rfl
      · simp [spelled, numberOf, isHexDigit, digitValue]
      · rfl
    · rfl

theorem numeral?_radix {mark : Char} {r : Radix} (hmark : Radix.ofMark? mark = some r)
    (h : Digits r.isDigit '_' cs) :
    numeral? (String.ofList ('0' :: mark :: cs)) = some (spelled r.base cs) := by
  rw [numeral?, String.toList_ofList, run_radix hmark h]
  rfl

theorem numeral?_decimal (h : Digits Char.isDigit '_' cs) (hzero : cs.head? ≠ some '0') :
    numeral? (String.ofList cs) = some (spelled 10 cs) := by
  rw [numeral?, String.toList_ofList, run_decimal h hzero]

/-- **Integers keep their values**: an integer of the source is written as a numeral that stands for
the same number. -/
theorem numeral?_intLiteral (h : IsInt text) :
    numeral? (intLiteral text) = some (Literal.amount text) := by
  have hbody := h.isIntBody
  unfold Literal.amount
  generalize hcs : Literal.dropSuffix Literal.isIntSuffix text.toList = body at hbody
  cases hbody with
  | decimal h hzero =>
    rw [intLiteral_decimal hcs h hzero, amountOf_decimal hzero,
      numeral?_decimal (h.separators (by decide)) (head?_separators h hzero), spelled_separators]
  | @octal cs h =>
    rw [amountOf_octal h]
    by_cases hne : cs = []
    · subst hne
      rw [intLiteral_zero hcs]
      decide
    · have hdigits : Digits isOctalDigit '_' ('0' :: separators cs) := h.separators (by decide)
      have hvalue := spelled_dropZeros 8 (separators cs)
      rw [spelled_separators] at hvalue
      rw [intLiteral_octal hcs h hne, numeral?_radix (r := .octal) rfl hdigits.octal, ← hvalue]
      cases (separators cs).dropWhile fun d => d == '0' || d == '_' <;> rfl
  | @radix mark r cs hmark hr h =>
    rw [intLiteral_radix hcs hmark hr, amountOf_radix hmark,
      numeral?_radix hmark (h.separators (isDigit_quote r)), spelled_separators]

/-! ## Integers as tokens -/

theorem isDigit_of_isOctalDigit {c : Char} (h : isOctalDigit c = true) : c.isDigit = true := by
  have hc := of_isHexDigit (p := fun c => !isOctalDigit c || c.isDigit) (by decide)
    (Radix.isHexDigit_of_isDigit (r := .octal) h)
  simpa [h] using hc

section Suffix

variable {suffix : List Char} (hsuffix : ∀ c ∈ suffix, isNumberSuffix false c = true)

include hsuffix

theorem decimalLength_suffix (h : ∀ c ∈ cs, c.isDigit = true ∨ c = '\'') :
    decimalLength false (cs ++ suffix) = (cs.length, false) := by
  induction cs with
  | nil => exact Cut.decimalLength_stop false (Cut.head?_suffix hsuffix (by decide))
  | cons c cs ih =>
    obtain ⟨hc, hcs⟩ := List.forall_mem_cons.1 h
    rw [List.cons_append, decimalLength.eq_def]
    simp [hc, ih hcs]

theorem hasRadixMark_suffix (h : ∀ c ∈ cs, c.isDigit = true ∨ c = '\'') :
    hasRadixMark (cs ++ suffix) = false := by
  rw [Cut.hasRadixMark_append cs (Cut.head?_suffix hsuffix (by decide))]
  unfold hasRadixMark
  split
  · next c rest =>
    have hne (d : Char) (hd : d.isDigit = false ∧ d ≠ '\'') : (c == d) = false := by
      rw [beq_eq_false_iff_ne]
      rintro rfl
      exact (h c (by simp)).elim (Bool.eq_false_iff.1 hd.1) hd.2
    rw [hne 'x' (by decide), hne 'X' (by decide), hne 'b' (by decide), hne 'B' (by decide)]
    rfl
  · rfl

/-- The number at the front of a text takes the digits of an integer. -/
theorem IsIntBody.numberLength_eq (h : IsIntBody cs) :
    numberLength (cs ++ suffix) = (cs.length, false) := by
  have hdecimal : (∀ c ∈ cs, c.isDigit = true ∨ c = '\'') →
      numberLength (cs ++ suffix) = (cs.length, false) := by
    intro hdigits
    rw [numberLength, hasRadixMark_suffix hsuffix hdigits]
    exact decimalLength_suffix hsuffix hdigits
  cases h with
  | decimal h _ => exact hdecimal h.isDigit_of_mem
  | octal h => exact hdecimal fun c hc => (h.isDigit_of_mem c hc).imp_left isDigit_of_isOctalDigit
  | @radix mark r cs hmark hr h =>
    have hradix : hasRadixMark ('0' :: mark :: (cs ++ suffix)) = true :=
      hasRadix_mark hmark hr (cs ++ suffix)
    have htake : (cs ++ suffix).takeWhile (fun c => isHexDigit c || c == '\'') = cs := by
      rw [takeWhile_append_of_head cs (Cut.head?_suffix hsuffix (by decide)),
        List.takeWhile_eq_self_iff]
      intro c hc
      simpa using (h.isDigit_of_mem c hc).imp_left Radix.isHexDigit_of_isDigit
    show numberLength ('0' :: mark :: (cs ++ suffix)) = _
    rw [numberLength, hradix, if_pos rfl, List.drop_succ_cons, List.drop_succ_cons, List.drop_zero,
      htake, Nat.add_comm]
    rfl

theorem IsIntBody.number_eq (h : IsIntBody cs) :
    Cut.number (cs ++ suffix) = ⟨.ok .intLiteral, cs ++ suffix, []⟩ := by
  rw [Cut.number, h.numberLength_eq hsuffix]
  simp [List.takeWhile_eq_self_iff.2 hsuffix, List.dropWhile_eq_nil_iff.2 hsuffix]

end Suffix

theorem IsIntBody.head (h : IsIntBody cs) : ∃ c rest, cs = c :: rest ∧ c.isDigit = true := by
  cases h with
  | decimal h _ => exact h.head
  | octal | radix => exact ⟨_, _, rfl, rfl⟩

/-- **An integer is one token**, unless its suffix has a letter that the lexer does not know. -/
theorem tokenize_int (h : IsInt text) (hz : 'z' ∉ text.toList ∧ 'Z' ∉ text.toList) :
    tokenize text = ([⟨.intLiteral, text, .first⟩,
      ⟨.eof, "", Spot.first.past text.toList⟩], []) := by
  obtain ⟨body, suffix, htext, hbody, hletters⟩ := h
  have hsuffix : ∀ c ∈ suffix, isNumberSuffix false c = true := by
    intro c hc
    have hletter := List.all_eq_true.1 hletters c hc
    have hmem : c ∈ text.toList := htext ▸ List.mem_append_right body hc
    have hne : c ≠ 'z' ∧ c ≠ 'Z' := ⟨fun h => hz.1 (h ▸ hmem), fun h => hz.2 (h ▸ hmem)⟩
    simpa [Literal.isIntSuffix, isNumberSuffix, hne] using hletter
  obtain ⟨c, rest, rfl, hc⟩ := hbody.head
  have hchars : text.toList = c :: (rest ++ suffix) := htext
  have hmark : encodingMark? (c :: (rest ++ suffix)) = none := by
    have hu : c ≠ 'u' ∧ c ≠ 'L' ∧ c ≠ 'U' := by
      refine ⟨?_, ?_, ?_⟩ <;> rintro rfl <;> cases hc
    simp [encodingMark?, encodingMarks, List.isPrefixOf, hu.1.symm, hu.2.1.symm, hu.2.2.symm]
  have hread : Cut.read c (rest ++ suffix) = ⟨.ok .intLiteral, text.toList, []⟩ := by
    rw [Cut.read, hmark, isNameStart_of_isDigit hc, hc, hchars]
    exact hbody.number_eq hsuffix
  have hblank : isBlank c = false :=
    isBlank_of_isNameChar (isNameChar_of_isHexDigit (isHexDigit_of_isDigit hc))
  have hnext : (Scan.start text).next = (.ok ⟨.intLiteral, text, .first⟩,
      ⟨Spot.first.past text.toList, []⟩) := by
    rw [Scan.start, hchars, Scan.next_of_read hblank hread, ← hchars, String.ofList_toList]
    rfl
  obtain ⟨htokens, hfaults⟩ := Scan.tokens_of_token hnext rfl
  obtain ⟨hend, hnone⟩ := Scan.tokens_of_end (s := ⟨Spot.first.past text.toList, []⟩) rfl rfl
  exact Prod.ext (htokens.trans (congrArg _ hend)) (hfaults.trans hnone)

/-- **Integers are read alike.** An integer of the source is written as a number of the script that
stands for the same number, it is computed with as that number if it is in range and not at all
otherwise, and it is one token if the lexer knows its suffix. -/
theorem IsInt.readings_agree (h : IsInt text) :
    numeral? (intLiteral text) = some (Literal.amount text) ∧
      Literal.intValue? text =
        (if Literal.amount text < 2 ^ 63 then some (Literal.amount text : Int) else none) ∧
      ('z' ∉ text.toList ∧ 'Z' ∉ text.toList → tokenize text =
        ([⟨.intLiteral, text, .first⟩, ⟨.eof, "", Spot.first.past text.toList⟩], [])) := by
  refine ⟨numeral?_intLiteral h, ?_, tokenize_int h⟩
  have hfits : fitsInt64 (Literal.amount text) = true ↔ Literal.amount text < 2 ^ 63 := by
    simp only [fitsInt64, Bool.and_eq_true, decide_eq_true_eq]
    omega
  rw [intValue?_eq h, checkedInt64, if_congr hfits rfl rfl]

/-- Zeros and separators in front of octal digits, and a suffix behind them. -/
theorem IsInt.readings_agree_octal :
    IsInt "0'0'17uL" ∧ intLiteral "0'0'17uL" = "0o17" ∧ numeral? "0o17" = some 15 ∧
      Literal.intValue? "0'0'17uL" = some 15 ∧
      tokenize "0'0'17uL" = ([⟨.intLiteral, "0'0'17uL", ⟨1, 1⟩⟩, ⟨.eof, "", ⟨1, 9⟩⟩], []) := by
  have hint : IsInt "0'0'17uL" := ⟨"0'0'17".toList, "uL".toList, by decide,
    .octal (.sep (by decide) (.sep (by decide) (.next (by decide) (.one (by decide))))), by decide⟩
  obtain ⟨hnumeral, hvalue, htokens⟩ := hint.readings_agree
  have htext : intLiteral "0'0'17uL" = "0o17" := by decide
  have hamount : Literal.amount "0'0'17uL" = 15 := by decide
  rw [htext, hamount] at hnumeral
  rw [hamount] at hvalue
  exact ⟨hint, htext, hnumeral, hvalue, htokens (by decide)⟩

end Script

end Serpentine

import Serpentine.Proofs.Lowering.Composition
import Serpentine.Proofs.Script.Lines
import Serpentine.Proofs.Script.Literals
import Serpentine.Proofs.Token.Shape

/-!
# The texts of lines

A line that no block follows does not start with a word that announces a block, and no line starts
with a blank or reaches over its end.
-/

namespace Serpentine.Script

def headerWords : List String :=
  ["class", "def", "if", "elif", "else", "while", "for"]

def leadingWord (text : String) : String :=
  String.ofList (text.toList.takeWhile isNameChar)

/-- The text of a line that no block follows. -/
structure IsPlain (text : String) : Prop where
  oneLine : IsOneLine text
  starts : text.toList.head?.any (· != ' ') = true
  free : leadingWord text ∉ headerWords

instance (text : String) : Decidable (IsPlain text) :=
  decidable_of_iff (IsOneLine text ∧ text.toList.head?.any (· != ' ') = true ∧
    leadingWord text ∉ headerWords) ⟨fun h => ⟨h.1, h.2.1, h.2.2⟩, fun h => ⟨h.1, h.2, h.3⟩⟩

/-! ## Texts -/

/-- The text does not go on with a word. -/
def Breaks (text : String) : Prop :=
  text.toList.takeWhile isNameChar = []

instance (text : String) : Decidable (Breaks text) :=
  inferInstanceAs (Decidable (text.toList.takeWhile isNameChar = []))

variable {text first second : String}

/-- The first word of a text is not changed by what follows, if it is complete or no word
follows. -/
theorem leadingWord_append (h : first.toList.any (!isNameChar ·) = true ∨ Breaks second) :
    leadingWord (first ++ second) = leadingWord first := by
  unfold leadingWord
  rw [String.toList_append, List.takeWhile_append]
  split
  · next hlength =>
    have hall := (List.takeWhile_prefix isNameChar).eq_of_length hlength
    rw [hall, h.resolve_left ?_, List.append_nil]
    simpa [List.takeWhile_eq_self_iff] using hall
  · rfl

theorem starts_append (h : first.toList.head?.any (· != ' ') = true) :
    (first ++ second).toList.head?.any (· != ' ') = true := by
  rw [String.toList_append]
  cases hfirst : first.toList with
  | nil => simp [hfirst] at h
  | cons c cs => simpa [hfirst] using h

/-- A plain text whose first word is complete. -/
structure IsOpening (text : String) : Prop extends IsPlain text where
  complete : text.toList.any (!isNameChar ·) = true

instance (text : String) : Decidable (IsOpening text) :=
  decidable_of_iff (IsPlain text ∧ text.toList.any (!isNameChar ·) = true)
    ⟨fun h => ⟨h.1, h.2⟩, fun h => ⟨h.1, h.2⟩⟩

theorem any_append_left (h : first.toList.any (!isNameChar ·) = true) :
    (first ++ second).toList.any (!isNameChar ·) = true := by
  rw [String.toList_append, List.any_append, h, Bool.true_or]

theorem IsOpening.append (h : IsOpening first) (hsecond : IsOneLine second) :
    IsOpening (first ++ second) :=
  ⟨⟨isOneLine_append.2 ⟨h.oneLine, hsecond⟩, starts_append h.starts,
    by rw [leadingWord_append (.inl h.complete)]; exact h.free⟩, any_append_left h.complete⟩

/-- A mark completes the word in front of it. -/
theorem IsPlain.mark (h : IsPlain first) (hmark : IsOneLine second ∧ Breaks second ∧
    second.toList.any (!isNameChar ·) = true) : IsOpening (first ++ second) := by
  refine ⟨⟨isOneLine_append.2 ⟨h.oneLine, hmark.1⟩, starts_append h.starts, ?_⟩, ?_⟩
  · rw [leadingWord_append (.inr hmark.2.1)]
    exact h.free
  · rw [String.toList_append, List.any_append, hmark.2.2, Bool.or_true]

variable {c : Char} {cs : List Char}

theorem isPlain_of_head (htext : text.toList = c :: cs)
    (hc : c ∉ [' ', 'c', 'd', 'i', 'e', 'w', 'f']) (hline : IsOneLine text) : IsPlain text := by
  have hspace : c ≠ ' ' := fun h => hc (by simp [h])
  refine ⟨hline, by simpa [htext] using hspace, fun hmem => ?_⟩
  have hheads : (headerWords.all fun w =>
      w.toList.head?.any [' ', 'c', 'd', 'i', 'e', 'w', 'f'].contains) = true := by decide
  obtain ⟨h, hhead, hcontains⟩ := (Option.any_eq_true _ _).1 (List.all_eq_true.1 hheads _ hmem)
  have hh := List.contains_iff_mem.1 hcontains
  rw [leadingWord, String.toList_ofList, htext] at hhead
  cases hname : isNameChar c with
  | true =>
    rw [List.takeWhile_cons_of_pos hname] at hhead
    exact hc (Option.some.inj hhead ▸ hh)
  | false => simp [hname] at hhead

theorem isOneLine_intercalate {sep : String} (hsep : IsOneLine sep) {texts : List String}
    (h : ∀ text ∈ texts, IsOneLine text) : IsOneLine (sep.intercalate texts) := by
  induction texts with
  | nil => rw [String.intercalate_nil]; decide
  | cons first rest ih =>
    obtain ⟨hfirst, hrest⟩ := List.forall_mem_cons.1 h
    cases rest with
    | nil =>
      rw [String.intercalate_singleton]
      exact hfirst
    | cons second rest =>
      rw [String.intercalate_cons_cons]
      exact isOneLine_append.2 ⟨isOneLine_append.2 ⟨hfirst, hsep⟩, ih hrest⟩

/-! ## Literals -/

theorem not_mem_of_isDigit (h : c.isDigit = true) : c ∉ [' ', 'c', 'd', 'i', 'e', 'w', 'f'] := by
  have hall : ([' ', 'c', 'd', 'i', 'e', 'w', 'f'].all fun x => !x.isDigit) = true := by decide
  intro hmem
  simpa [h] using List.all_eq_true.1 hall c hmem

theorem isPlain_toString (n : Nat) : IsPlain (toString n) := by
  have htext : (toString n).toList = Nat.toDigits 10 n := by simp [toString, Nat.repr]
  have hdigits : ∀ c ∈ Nat.toDigits 10 n, c.isDigit = true := fun c hc =>
    Nat.isDigit_of_mem_toDigits (by decide) (by decide) hc
  have hline : IsOneLine (toString n) := by
    rw [IsOneLine, htext]
    exact fun hmem => absurd (hdigits _ hmem) (by decide)
  obtain ⟨c, cs, hcs⟩ := List.exists_cons_of_ne_nil (Nat.toDigits_ne_nil (n := n) (b := 10))
  exact isPlain_of_head (htext.trans hcs)
    (not_mem_of_isDigit (hdigits c (hcs ▸ List.mem_cons_self))) hline

def isNumberStart (c : Char) : Bool :=
  c.isDigit || c == '.'

theorem not_mem_of_isNumberStart (h : isNumberStart c = true) :
    c ∉ [' ', 'c', 'd', 'i', 'e', 'w', 'f'] := by
  rcases Bool.or_eq_true_iff.1 h with hdigit | hpoint
  · exact not_mem_of_isDigit hdigit
  · rw [eq_of_beq hpoint]
    decide

theorem dropSuffix_cons {p : Char → Bool} (hc : p c = false) (cs : List Char) :
    ∃ rest, Literal.dropSuffix p (c :: cs) = c :: rest ∧ rest ⊆ cs := by
  have hlast : ∀ l : List Char, (l ++ [c]).dropWhile p = l.dropWhile p ++ [c] := by
    intro l
    rw [List.dropWhile_append]
    split <;> simp_all
  refine ⟨(cs.reverse.dropWhile p).reverse, ?_, fun x hx => ?_⟩
  · rw [Literal.dropSuffix, List.reverse_cons, hlast, List.reverse_append]
    rfl
  · exact List.mem_reverse.1 ((List.dropWhile_sublist p).subset (List.mem_reverse.1 hx))

theorem separators_cons (hc : isNumberStart c = true) (hcs : '\n' ∉ cs) :
    ∃ rest, separators (c :: cs) = c :: rest ∧ '\n' ∉ rest := by
  refine ⟨separators cs, ?_, fun hmem => ?_⟩
  · have hne : (c == '\'') = false := by
      rw [beq_eq_false_iff_ne]
      rintro rfl
      exact absurd hc (by decide)
    rw [separators, List.map_cons, hne]
    rfl
  · obtain ⟨d, hd, hsep⟩ := List.mem_map.1 hmem
    split at hsep
    · exact absurd hsep (by decide)
    · exact hcs (hsep ▸ hd)

theorem exists_digits {text : String} (h : IsNumeral text) {p : Char → Bool}
    (hp : ∀ c, isNumberStart c = true → p c = false) :
    ∃ c cs, isNumberStart c = true ∧ '\n' ∉ c :: cs ∧
      separators (Literal.dropSuffix p text.toList) = c :: cs := by
  have hline := h.inLine
  obtain ⟨c, cs, hcs, hstart⟩ : ∃ c cs, text.toList = c :: cs ∧ isNumberStart c = true := by
    have hstarts := h.starts
    cases htext : text.toList with
    | nil => simp [htext] at hstarts
    | cons c cs => exact ⟨c, cs, rfl, by simpa [htext, isNumberStart] using hstarts⟩
  rw [hcs] at hline
  obtain ⟨body, hbody, hsub⟩ := dropSuffix_cons (hp c hstart) cs
  have hbodyLine : '\n' ∉ body := fun hmem => hline (List.mem_cons_of_mem _ (hsub hmem))
  obtain ⟨rest, hrest, hrestLine⟩ := separators_cons hstart hbodyLine
  refine ⟨c, rest, hstart, fun hmem => ?_, by rw [hcs, hbody, hrest]⟩
  rcases List.mem_cons.1 hmem with rfl | hmem
  · exact hline List.mem_cons_self
  · exact hrestLine hmem

theorem isPlain_ofList (hc : isNumberStart c = true) (hline : '\n' ∉ c :: cs) :
    IsPlain (String.ofList (c :: cs)) :=
  isPlain_of_head String.toList_ofList (not_mem_of_isNumberStart hc) (by
    rw [IsOneLine, String.toList_ofList]
    exact hline)

theorem isPlain_intLiteral {text : String} (h : IsNumeral text) : IsPlain (intLiteral text) := by
  have hsuffix : ∀ c, isNumberStart c = true → Literal.isIntSuffix c = false := by
    intro c hc
    rcases Bool.or_eq_true_iff.1 hc with hdigit | hpoint
    · exact isIntSuffix_of_isHexDigit (isHexDigit_of_isDigit hdigit)
    · rw [eq_of_beq hpoint]
      rfl
  obtain ⟨c, cs, hc, hline, hdigits⟩ := exists_digits h hsuffix
  unfold intLiteral
  rw [hdigits]
  dsimp only
  split
  · exact isPlain_ofList hc hline
  · split
    · next d rest heq =>
      obtain ⟨rfl, rfl⟩ := List.cons.inj heq
      refine isPlain_of_head (show _ = '0' :: 'o' :: _ by rw [String.toList_append]; rfl)
        (by decide) (isOneLine_append.2 ⟨by decide, ?_⟩)
      rw [IsOneLine, String.toList_ofList]
      split
      · decide
      · exact fun hmem => hline (List.mem_cons_of_mem _ ((List.dropWhile_sublist _).subset hmem))
    · exact isPlain_ofList hc hline

theorem isPlain_floatLiteral {text : String} (h : IsNumeral text) :
    IsPlain (floatLiteral text) := by
  have hsuffix : ∀ c, isNumberStart c = true → isFloatSuffix c = false := fun c hc =>
    isFloatSuffix_eq_false (by simpa [isNumberStart] using hc)
  have hkeep : ∀ cs : List Char, Literal.dropSuffix (fun _ => false) cs = cs := by
    intro cs
    rw [Literal.dropSuffix]
    cases hcs : cs.reverse with
    | nil => simpa using hcs.symm
    | cons c rest =>
      rw [List.dropWhile_cons_of_neg (by simp), ← hcs, List.reverse_reverse]
  unfold floatLiteral
  dsimp only
  split
  · obtain ⟨c, cs, hc, hline, hdigits⟩ := exists_digits h (p := fun _ => false) fun _ _ => rfl
    rw [hkeep] at hdigits
    rw [hdigits]
    exact isPlain_ofList hc hline
  · obtain ⟨c, cs, hc, hline, hdigits⟩ := exists_digits h hsuffix
    rw [hdigits]
    exact isPlain_ofList hc hline

theorem mem_of_mem_keepQuoted : ∀ {place : QuotePlace}, c ∈ keepQuoted place cs → c ∈ cs := by
  induction cs with
  | nil =>
    intro place h
    cases place <;> cases h
  | cons d cs ih =>
    intro place h
    cases place with
    | outside =>
      rw [keepQuoted] at h
      split at h
      · exact List.mem_cons.2 ((List.mem_cons.1 h).imp_right ih)
      · split at h
        · exact List.mem_cons.2 ((List.mem_cons.1 h).imp_right ih)
        · exact List.mem_cons_of_mem _ (ih h)
    | inside quote escaped => exact List.mem_cons.2 ((List.mem_cons.1 h).imp_right ih)

theorem isPlain_quotedLiteral {text : String} (h : IsQuotation text) :
    IsPlain (quotedLiteral text) := by
  obtain ⟨mark, quote, rest, hmark, hquote, htext⟩ := h.starts
  have hline : IsOneLine (quotedLiteral text) := by
    rw [IsOneLine, quotedLiteral, String.toList_ofList]
    exact fun hmem => h.inLine (mem_of_mem_keepQuoted hmem)
  have hstart : (quote == '\"' || quote == '\'') = true := hquote
  have hhead : (quotedLiteral text).toList = quote :: keepQuoted (.inside quote false) rest := by
    rw [quotedLiteral, String.toList_ofList, htext, keepQuoted_mark hmark, keepQuoted, if_pos hstart]
  refine isPlain_of_head hhead ?_ hline
  rcases isQuote_iff.1 hquote with rfl | rfl <;> decide

/-! ## Expressions -/

namespace Term

def IsPlain (t : Term) : Prop :=
  ∀ least, Script.IsPlain (t.print least)

variable {t u v : Term} {ts : List Term} {name : String}

theorem IsPlain.oneLine (h : t.IsPlain) (least : Level) : IsOneLine (t.print least) :=
  (h least).oneLine

theorem isPlain_bracketed {opening closing : String} (hopen : IsOpening opening)
    (hclose : IsOneLine closing) (htext : IsOneLine text) :
    Script.IsPlain (opening ++ text ++ closing) :=
  ((hopen.append htext).append hclose).toIsPlain

theorem isPlain_wrap (h : Script.IsPlain text) (own least : Level) :
    Script.IsPlain (wrap own least text) := by
  unfold wrap
  split
  · exact isPlain_bracketed (by decide) (by decide) h.oneLine
  · exact h

theorem oneLine_printArgs (h : ∀ t ∈ ts, t.IsPlain) : IsOneLine (printArgs ts) := by
  induction ts with
  | nil =>
    rw [printArgs]
    decide
  | cons t rest ih =>
    obtain ⟨ht, hrest⟩ := List.forall_mem_cons.1 h
    cases rest with
    | nil =>
      rw [printArgs]
      exact ht.oneLine _
    | cons u rest =>
      rw [printArgs]
      · exact isOneLine_append.2 ⟨isOneLine_append.2 ⟨ht.oneLine _, by decide⟩, ih hrest⟩
      · exact List.cons_ne_nil _ _

theorem isPlain_atom (h : Script.IsPlain text) : (atom text).IsPlain := by
  intro least
  rw [print]
  exact isPlain_wrap h _ _

theorem isPlain_list (h : ∀ t ∈ ts, t.IsPlain) : (list ts).IsPlain := by
  intro least
  rw [print]
  exact isPlain_wrap (isPlain_bracketed (by decide) (by decide) (oneLine_printArgs h)) _ _

theorem isPlain_tuple (h : ∀ t ∈ ts, t.IsPlain) : (tuple ts).IsPlain := by
  intro least
  rw [print]
  exact isPlain_wrap (isPlain_bracketed (by decide) (by decide) (oneLine_printArgs h)) _ _

theorem isPlain_attr (h : t.IsPlain) (hname : IsOneLine name) : (attr t name).IsPlain := by
  intro least
  rw [print]
  exact isPlain_wrap (((h _).mark (by decide)).append hname).toIsPlain _ _

theorem isPlain_unary (op : UnaryOp) (h : t.IsPlain) : (unary op t).IsPlain := by
  intro least
  rw [print]
  refine isPlain_wrap ?_ _ _
  cases op <;> exact (IsOpening.append (by decide) (h.oneLine _)).toIsPlain

theorem oneLine_symbol (op : BinaryOp) : IsOneLine op.symbol := by
  cases op <;> decide

theorem isPlain_binary (op : BinaryOp) (ht : t.IsPlain) (hu : u.IsPlain) :
    (binary op t u).IsPlain := by
  intro least
  rw [print]
  have hsymbol := ((ht op.leftLevel).mark (by decide : _ ∧ Breaks " " ∧ _)).append (oneLine_symbol op)
  exact isPlain_wrap ((hsymbol.append (by decide)).append (hu.oneLine _)).toIsPlain _ _

theorem isPlain_conditional (ht : t.IsPlain) (hu : u.IsPlain) (hv : v.IsPlain) :
    (conditional t u v).IsPlain := by
  intro least
  rw [print]
  refine isPlain_wrap ?_ _ _
  exact (((((hu _).mark (by decide)).append (ht.oneLine _)).append (by decide)).append
    (hv.oneLine _)).toIsPlain

theorem isPlain_paren (h : t.IsPlain) : (paren t).IsPlain := by
  intro least
  rw [print]
  exact isPlain_wrap (isPlain_bracketed (by decide) (by decide) (h.oneLine _)) _ _

theorem isPlain_index (ht : t.IsPlain) (hu : u.IsPlain) : (index t u).IsPlain := by
  intro least
  rw [print]
  exact isPlain_wrap (isPlain_bracketed ((ht _).mark (by decide)) (by decide) (hu.oneLine _)) _ _

theorem isPlain_call (ht : t.IsPlain) (hts : ∀ t ∈ ts, t.IsPlain) : (call t ts).IsPlain := by
  intro least
  rw [print]
  refine isPlain_wrap ?_ _ _
  exact isPlain_bracketed ((ht _).mark (by decide)) (by decide) (oneLine_printArgs hts)

theorem isPlain_walrus (ht : t.IsPlain) (hu : u.IsPlain) : (walrus t u).IsPlain := by
  intro least
  rw [print]
  have htarget := (IsOpening.append (by decide : IsOpening "(") (ht.oneLine .primary))
  exact isPlain_wrap (isPlain_bracketed (htarget.append (by decide)) (by decide) (hu.oneLine _)) _ _

theorem isPlain_int (n : Int) : (int n).IsPlain := by
  refine isPlain_atom ?_
  cases n with
  | ofNat n => exact isPlain_toString n
  | negSucc n =>
    exact (IsOpening.append (show IsOpening "-" by decide) (isPlain_toString (n + 1)).oneLine).toIsPlain

end Term

/-! ## Lines -/

/-- A line is a header exactly if its first word says so. -/
structure Line.Sound (line : Line) : Prop where
  oneLine : IsOneLine line.text
  starts : line.text.toList.head?.any (· != ' ') = true
  header : line.isHeader = true ↔ leadingWord line.text ∈ headerWords

/-- The text can be that of a header. -/
structure IsHead (text : String) : Prop where
  oneLine : IsOneLine text
  starts : text.toList.head?.any (· != ' ') = true
  complete : text.toList.any (!isNameChar ·) = true
  leads : leadingWord text ∈ headerWords

instance (text : String) : Decidable (IsHead text) :=
  decidable_of_iff (IsOneLine text ∧ text.toList.head?.any (· != ' ') = true ∧
    text.toList.any (!isNameChar ·) = true ∧ leadingWord text ∈ headerWords)
    ⟨fun h => ⟨h.1, h.2.1, h.2.2.1, h.2.2.2⟩, fun h => ⟨h.1, h.2, h.3, h.4⟩⟩

theorem IsHead.append (h : IsHead first) (hsecond : IsOneLine second) :
    IsHead (first ++ second) := by
  refine ⟨isOneLine_append.2 ⟨h.oneLine, hsecond⟩, starts_append h.starts,
    any_append_left h.complete, ?_⟩
  rw [leadingWord_append (.inl h.complete)]
  exact h.leads

theorem sound_plain (h : IsPlain text) (depth : Nat) (isItem : Bool) :
    (⟨depth, isItem, false, text⟩ : Line).Sound :=
  ⟨h.oneLine, h.starts, iff_of_false (by simp) h.free⟩

theorem sound_header (h : IsHead text) (depth : Nat) (isItem : Bool) :
    (⟨depth, isItem, true, text⟩ : Line).Sound :=
  ⟨h.oneLine, h.starts, iff_of_true rfl h.leads⟩

def AllSound (lines : List Line) : Prop :=
  ∀ line ∈ lines, line.Sound

variable {lines : List Line}

theorem AllSound.full (h : AllSound lines) : Full lines := by
  intro line hline hempty
  have hstarts := (h line hline).starts
  rw [hempty] at hstarts
  cases hstarts

theorem allSound_append {first second : List Line} (hfirst : AllSound first)
    (hsecond : AllSound second) : AllSound (first ++ second) :=
  List.forall_mem_append.2 ⟨hfirst, hsecond⟩

theorem AllSound.suite (h : AllSound lines) (d : Nat) : AllSound (suite d lines) := by
  cases lines with
  | nil =>
    intro line hline
    rw [List.mem_singleton.1 hline]
    exact sound_plain (by decide) _ _
  | cons first rest => exact h

theorem AllSound.header (h : AllSound lines) {d : Nat} (isItem : Bool) (htext : IsHead text) :
    AllSound (⟨d, isItem, true, text⟩ :: Script.suite (d + 1) lines) :=
  List.forall_mem_cons.2 ⟨sound_header htext _ _, h.suite (d + 1)⟩

theorem AllSound.asItem (h : AllSound lines) : AllSound (asItem lines) := by
  cases lines with
  | nil => exact h
  | cons first rest =>
    obtain ⟨hfirst, hrest⟩ := List.forall_mem_cons.1 h
    exact List.forall_mem_cons.2 ⟨⟨hfirst.oneLine, hfirst.starts, hfirst.header⟩, hrest⟩

/-! ## Statements -/

variable {t : Term}

theorem isPlain_keywordLine {word : String} (h : IsPlain word) (ht : t.IsPlain) :
    IsPlain (keywordLine word (some t)) :=
  ((h.mark (by decide)).append (ht.oneLine _)).toIsPlain

namespace Stmt

theorem isPlain_assign {ts : List Term} (hts : ∀ t' ∈ t :: ts, t'.IsPlain) {v : Term}
    (hv : v.IsPlain) : Script.IsPlain (assign (t :: ts) v).lineText := by
  have htargets (ts : List Term) (hts : ∀ t ∈ ts, t.IsPlain) :
      IsOneLine (String.join (ts.map fun t => t.print .primary ++ " = ")) := by
    induction ts with
    | nil => decide
    | cons t rest ih =>
      obtain ⟨ht, hrest⟩ := List.forall_mem_cons.1 hts
      rw [List.map_cons, String.join_cons]
      exact isOneLine_append.2 ⟨isOneLine_append.2 ⟨ht.oneLine _, by decide⟩, ih hrest⟩
  obtain ⟨ht, hrest⟩ := List.forall_mem_cons.1 hts
  rw [lineText, List.map_cons, String.join_cons]
  exact ((((ht _).mark (by decide)).append (htargets ts hrest)).append (hv.oneLine _)).toIsPlain

section

variable (ht : t.IsPlain)

include ht

theorem isPlain_augment (op : BinaryOp) {v : Term} (hv : v.IsPlain) :
    Script.IsPlain (augment t op v).lineText := by
  rw [lineText]
  exact (((((ht _).mark (by decide)).append (Term.oneLine_symbol op)).append (by decide)).append
    (hv.oneLine _)).toIsPlain

theorem isPlain_eval : Script.IsPlain (eval t).lineText :=
  ht _

theorem isPlain_ret : Script.IsPlain (ret (some t)).lineText :=
  isPlain_keywordLine (show Script.IsPlain "return" by decide) ht

theorem isPlain_raise : Script.IsPlain (raise (some t)).lineText :=
  isPlain_keywordLine (show Script.IsPlain "raise" by decide) ht

theorem isPlain_del : Script.IsPlain (del t).lineText :=
  (IsOpening.append (by decide) (ht.oneLine _)).toIsPlain

end

theorem isPlain_global {names : List String} (h : ∀ name ∈ names, IsOneLine name) :
    Script.IsPlain (global names).lineText :=
  (IsOpening.append (by decide) (isOneLine_intercalate (by decide) h)).toIsPlain

abbrev IsPlain : Stmt → Prop :=
  Holds (fun t => IsOneLine t.text) IsOneLine fun s => Script.IsPlain s.lineText

/-- The same of all statements of a list. -/
abbrev ArePlain : List Stmt → Prop :=
  HoldsAll (fun t => IsOneLine t.text) IsOneLine fun s => Script.IsPlain s.lineText

mutual

theorem sound_lines (d : Nat) : (s : Stmt) → s.IsPlain → AllSound (s.lines d)
  | .whileLoop test body, h =>
    (sound_linesAll (d + 1) body h.2).header false
      ((IsHead.append (by decide) h.1).append (by decide))
  | .forLoop name items body, h =>
    (sound_linesAll (d + 1) body h.2.2).header false
      ((((IsHead.append (by decide) h.1).append (by decide)).append h.2.1).append (by decide))
  | .ifElse test body branches otherwise, h => by
    rw [Stmt.lines, ← List.cons_append, ← List.cons_append]
    exact allSound_append (allSound_append ((sound_linesAll (d + 1) body h.2.1).header false
      ((IsHead.append (by decide) h.1).append (by decide))) (sound_linesBranches d branches h.2.2.1))
      (sound_linesElse d otherwise h.2.2.2)
  | .eval _, h | .assign .., h | .augment .., h | .del _, h | .ret _, h | .raise _, h
  | .breakStmt, h | .continueStmt, h | .global _, h =>
    List.forall_mem_singleton.2 (sound_plain h _ _)

theorem sound_linesAll (d : Nat) : (stmts : List Stmt) → ArePlain stmts →
    AllSound (linesAll d stmts)
  | [], _ => nofun
  | s :: rest, h => allSound_append (sound_lines d s h.1) (sound_linesAll d rest h.2)

theorem sound_linesBranches (d : Nat) : (branches : List (Term × List Stmt)) →
    HoldsBranches (fun t => IsOneLine t.text) IsOneLine (fun s => Script.IsPlain s.lineText) branches →
    AllSound (linesBranches d branches)
  | [], _ => nofun
  | branch :: rest, h =>
    allSound_append (sound_linesBranch d branch h.1) (sound_linesBranches d rest h.2)

theorem sound_linesBranch (d : Nat) : (branch : Term × List Stmt) →
    HoldsBranch (fun t => IsOneLine t.text) IsOneLine (fun s => Script.IsPlain s.lineText) branch →
    AllSound (linesBranch d branch)
  | (_, body), h =>
    (sound_linesAll (d + 1) body h.2).header false
      ((IsHead.append (by decide) h.1).append (by decide))

theorem sound_linesElse (d : Nat) : (otherwise : Option (List Stmt)) →
    HoldsElse (fun t => IsOneLine t.text) IsOneLine (fun s => Script.IsPlain s.lineText) otherwise →
    AllSound (linesElse d otherwise)
  | none, _ => nofun
  | some body, h => (sound_linesAll (d + 1) body h).header false (by decide)

end

end Stmt

/-! ## Items -/

structure Def.IsPlain (f : Def) : Prop where
  name : IsOneLine f.name
  params : ∀ p ∈ f.params, IsOneLine (paramText p)
  body : Stmt.ArePlain f.body

theorem Def.sound_lines {f : Def} (h : f.IsPlain) (d : Nat) : AllSound (f.lines d) := by
  have hhead : IsHead f.head := by
    have hparams : IsOneLine (", ".intercalate (f.params.map paramText)) :=
      isOneLine_intercalate (by decide) fun text htext => by
        obtain ⟨p, hp, rfl⟩ := List.mem_map.1 htext
        exact h.params p hp
    exact (((IsHead.append (by decide) h.name).append (by decide)).append hparams).append (by decide)
  refine allSound_append ?_ ((Stmt.sound_linesAll (d + 1) f.body h.body).header false hhead)
  split
  · exact List.forall_mem_singleton.2 (sound_plain (by decide) _ _)
  · exact nofun

mutual

def Item.IsPlain : Item → Prop
  | .stmt s => s.IsPlain
  | .function f => f.IsPlain
  | .classDef name base items => IsOneLine name ∧ (∀ t ∈ base, IsOneLine t.text) ∧ ItemsArePlain items
  | .enumDef name lines => IsOneLine name ∧ Stmt.ArePlain lines

def ItemsArePlain : List Item → Prop
  | [] => True
  | item :: rest => item.IsPlain ∧ ItemsArePlain rest

end

theorem itemsArePlain_iff {items : List Item} :
    ItemsArePlain items ↔ ∀ item ∈ items, item.IsPlain := by
  induction items with
  | nil => simp [ItemsArePlain]
  | cons item rest ih => simp [ItemsArePlain, ih]

theorem itemsArePlain_singleton {item : Item} (h : item.IsPlain) : ItemsArePlain [item] :=
  ⟨h, trivial⟩

theorem isHead_classHead {name : String} (hname : IsOneLine name) {base : Option Term}
    (hbase : ∀ t ∈ base, IsOneLine t.text) : IsHead (classHead name base) := by
  have hfirst : IsHead ("class " ++ name) := IsHead.append (by decide) hname
  cases base with
  | none => exact hfirst.append (by decide)
  | some t => exact ((hfirst.append (by decide)).append (hbase t rfl)).append (by decide)

mutual

theorem Item.sound_lines (d : Nat) : (item : Item) → item.IsPlain → AllSound (item.lines d)
  | .stmt s, h => (s.sound_lines d h).asItem
  | .function _, h => (Def.sound_lines h d).asItem
  | .classDef _ _ items, h =>
    (sound_linesItems (d + 1) items h.2.2).header true (isHead_classHead h.1 h.2.1)
  | .enumDef _ lines, h =>
    (Stmt.sound_linesAll (d + 1) lines h.2).header true (isHead_classHead h.1 fun t ht => by
      cases ht
      exact (Term.isPlain_atom (by decide)).oneLine _)

theorem sound_linesItems (d : Nat) : (items : List Item) → ItemsArePlain items →
    AllSound (linesItems d items)
  | [], _ => nofun
  | item :: rest, h => allSound_append (item.sound_lines d h.1) (sound_linesItems d rest h.2)

end

theorem Module.sound_lines {m : Module} (himports : ∀ i ∈ m.imports, IsOneLine i.1 ∧
    ∀ symbol ∈ i.2, IsOneLine symbol) (hitems : ItemsArePlain m.items) : AllSound m.lines := by
  refine allSound_append (fun line hline => ?_) (sound_linesItems 0 m.items hitems)
  obtain ⟨⟨path, symbols⟩, hi, rfl⟩ := List.mem_map.1 hline
  obtain ⟨hpath, hsymbols⟩ := himports _ hi
  refine sound_plain ?_ _ _
  cases symbols with
  | nil => exact (IsOpening.append (by decide) hpath).toIsPlain
  | cons symbol symbols =>
    have hlist := isOneLine_intercalate (show IsOneLine ", " by decide) hsymbols
    exact (((IsOpening.append (by decide) hpath).append (by decide)).append hlist).toIsPlain

end Serpentine.Script

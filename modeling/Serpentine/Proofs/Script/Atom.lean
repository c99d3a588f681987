import Serpentine.Proofs.Script.Reader

/-!
# Names and literals, read back

The texts that an expression of the script has at its leaves, with their lexemes
(**`IsAtom.exists_lexemes`**).
-/

namespace Serpentine.Script

namespace Term

/-- A name with its attributes. -/
def ofPath : List String → Term
  | [] => .atom ""
  | first :: rest => rest.foldl .attr (.atom first)

variable {bodies : List (List Char)}

/-- The expression that the text of a name or literal is. -/
def ofAtom (text : String) : Term :=
  if text.toList.head?.any isNameStart then ofPath (pathParts text) else .atom text

end Term

/-- A word that is not reserved. -/
def IsIdent (name : String) : Prop :=
  IsWord name.toList ∧ name ∉ reserved

def quotedTexts (quote : Char) (bodies : List (List Char)) : List String :=
  bodies.map fun body => String.ofList (quote :: body)

/-- The texts of names and literals. -/
inductive IsAtom : String → Prop where
  | number {text : String} (h : IsNumber text.toList) : IsAtom text
  | constant {text : String} (h : text = "None" ∨ text = "True" ∨ text = "False") : IsAtom text
  | quoted {quote : Char} (hq : isQuote quote = true) {bodies : List (List Char)}
      (hne : bodies ≠ []) (h : ∀ body ∈ bodies, ClosedBy quote body) :
      IsAtom (" ".intercalate (quotedTexts quote bodies))
  | path {parts : List String} (hne : parts ≠ []) (h : ∀ part ∈ parts, IsIdent part) :
      IsAtom (".".intercalate parts)

def attrLexemes (names : List String) : List Lexeme :=
  names.flatMap fun name => [.dot, .name name]

/-! ## Dotted names -/

theorem ofWord?_of_isIdent {name : String} (h : IsIdent name) :
    Lexeme.ofWord? name = some (.name name) := by
  have hne : ∀ word ∈ reserved, name ≠ word := fun word hword heq => h.2 (heq ▸ hword)
  have hcontains : reserved.contains name = false := by simpa using h.2
  simp [Lexeme.ofWord?, hne "not" (by decide), hne "and" (by decide), hne "or" (by decide),
    hne "if" (by decide), hne "else" (by decide), hne "None" (by decide), hne "True" (by decide),
    hne "False" (by decide), h.2]

theorem lex_ident {name : String} (h : IsIdent name) {rest : List Char} {ls : List Lexeme}
    (hr : Clear rest) (hls : lex rest = some ls) :
    lex (name.toList ++ rest) = some (.name name :: ls) := by
  refine lex_word h.1 ?_ hr hls
  rw [String.ofList_toList, ofWord?_of_isIdent h]

theorem lex_attrs {names : List String} (h : ∀ name ∈ names, IsIdent name) {rest : List Char}
    {ls : List Lexeme} (hr : Clear rest) (hls : lex rest = some ls) :
    ∃ text, (∀ first : String, (".".intercalate (first :: names)).toList = first.toList ++ text) ∧
      Clear (text ++ rest) ∧ lex (text ++ rest) = some (attrLexemes names ++ ls) := by
  induction names with
  | nil => exact ⟨[], by simp, hr, hls⟩
  | cons name names ih =>
    obtain ⟨text, htext, hclear, hlex⟩ := ih fun n hn => h n (List.mem_cons_of_mem _ hn)
    have hname := h name List.mem_cons_self
    refine ⟨'.' :: (name.toList ++ text), ?_, clear_cons _ (by decide) (by decide), ?_⟩
    · intro first
      rw [String.intercalate_cons_cons, String.toList_append, String.toList_append, htext name]
      simp
    · have hrest := lex_ident hname hclear hlex
      rw [← List.append_assoc] at hrest
      obtain ⟨c, cs, hcs, hc⟩ := hname.1.exists_cons
      rw [hcs] at hrest ⊢
      exact lex_dot hc hrest

theorem readRest_attrs (names : List String) (t : Term) (rest : List Lexeme) :
    readRest .primary t (attrLexemes names ++ rest) =
      readRest .primary (names.foldl .attr t) rest := by
  induction names generalizing t with
  | nil => rfl
  | cons name names ih => exact (readRest_attr t name _).trans (ih _)

theorem cutAtDots_eq (cs : List Char) : cutAtDots cs = cs.splitOn '.' := by
  induction cs with
  | nil => rfl
  | cons c cs ih =>
    obtain ⟨piece, pieces, hpieces⟩ := List.exists_cons_of_ne_nil (List.splitOn_ne_nil '.' cs)
    rw [cutAtDots, ih, List.splitOn_cons_eq_if_modifyHead, hpieces]
    rfl

theorem not_mem_dot_of_isIdent {name : String} (h : IsIdent name) : '.' ∉ name.toList := by
  intro hdot
  have := List.all_eq_true.1 h.1.2 '.' hdot
  exact absurd this (by decide)

theorem pathParts_ne_nil (path : String) : pathParts path ≠ [] := by
  simp [pathParts, cutAtDots_eq]

theorem pathParts_intercalate {parts : List String} (hne : parts ≠ [])
    (h : ∀ part ∈ parts, '.' ∉ part.toList) : pathParts (".".intercalate parts) = parts := by
  have hcut := List.splitOn_intercalate '.' (List.forall_mem_map.2 h) (by simpa using hne)
  rw [pathParts, cutAtDots_eq, String.toList_intercalate]
  exact (congrArg (List.map String.ofList) hcut).trans (by simp)

theorem ofAtom_path {first : String} {rest : List String}
    (h : ∀ part ∈ first :: rest, IsIdent part) :
    Term.ofAtom (".".intercalate (first :: rest)) = rest.foldl .attr (.atom first) := by
  obtain ⟨c, cs, hcs, hc⟩ := (h first List.mem_cons_self).1.exists_cons
  have hhead : (".".intercalate (first :: rest)).toList.head?.any isNameStart = true := by
    cases rest <;> simp [hcs, hc, String.intercalate_cons_cons]
  rw [Term.ofAtom, if_pos hhead,
    pathParts_intercalate (List.cons_ne_nil _ _) fun p hp => not_mem_dot_of_isIdent (h p hp)]
  rfl

/-! ## Quoted texts -/

theorem lex_quotedTexts {quote : Char} (hq : isQuote quote = true) {body : List Char}
    (h : ∀ b ∈ body :: bodies, ClosedBy quote b) {rest : List Char} {ls : List Lexeme}
    (hr : Clear rest) (hls : lex rest = some ls) :
    lex ((" ".intercalate (quotedTexts quote (body :: bodies))).toList ++ rest) =
      some ((quotedTexts quote (body :: bodies)).map .quoted ++ ls) := by
  induction bodies generalizing body with
  | nil =>
    have := lex_quoted hq (h body List.mem_cons_self) hr hls
    simpa [quotedTexts] using this
  | cons next bodies ih =>
    have htail := ih fun b hb => h b (List.mem_cons_of_mem _ hb)
    rw [← lex_blank] at htail
    have := lex_quoted hq (h body List.mem_cons_self)
      (clear_cons _ (by decide) (by decide)) htail
    simpa [quotedTexts, String.intercalate_cons_cons] using this

theorem takeQuoted_append {rest : List Lexeme} (h : ∀ text, rest.head? ≠ some (.quoted text))
    (texts : List String) : takeQuoted (texts.map .quoted ++ rest) = (texts, rest) := by
  induction texts with
  | nil =>
    match rest with
    | [] => rfl
    | l :: rest => cases l <;> simp_all [takeQuoted]
  | cons text texts ih => simp [takeQuoted, ih]

/-! ## Names and literals -/

theorem ofAtom_number {text : String} (h : IsNumber text.toList) :
    Term.ofAtom text = .atom text := by
  obtain ⟨c, cs, hcs, hstart, -⟩ := isNumber_head h
  simp [Term.ofAtom, hcs, hstart]

theorem ofAtom_constant {text : String} (h : text = "None" ∨ text = "True" ∨ text = "False") :
    Term.ofAtom text = .atom text := by
  rcases h with rfl | rfl | rfl <;> rfl

theorem head?_quotedTexts (quote : Char) (hne : bodies ≠ []) :
    (" ".intercalate (quotedTexts quote bodies)).toList.head? = some quote := by
  match bodies with
  | [] => exact absurd rfl hne
  | [_] => simp [quotedTexts]
  | _ :: _ :: _ => simp [quotedTexts, String.intercalate_cons_cons]

theorem ofAtom_quotedTexts {quote : Char} (hq : isQuote quote = true) (hne : bodies ≠ []) :
    Term.ofAtom (" ".intercalate (quotedTexts quote bodies)) =
      .atom (" ".intercalate (quotedTexts quote bodies)) := by
  have hstart : isNameStart quote = false := by
    rcases isQuote_iff.1 hq with rfl | rfl <;> decide
  rw [Term.ofAtom, head?_quotedTexts quote hne, if_neg (by simp [hstart])]

theorem IsAtom.exists_lexemes {text : String} (h : IsAtom text) :
    ∃ l ls, l.isClose = false ∧ (∀ k, prefixOp? k l = none) ∧
      (∀ rest ls', Clear rest → (IsNumber text.toList → rest.head? ≠ some '.') →
        lex rest = some ls' → lex (text.toList ++ rest) = some (l :: ls ++ ls')) ∧
      ∀ rest, (∀ q, rest.head? ≠ some (.quoted q)) →
        read .primary (l :: ls ++ rest) = readRest .primary (Term.ofAtom text) rest := by
  cases h with
  | number h =>
    refine ⟨.number text, [], rfl, fun k => rfl, ?_, ?_⟩
    · intro rest ls' hr hdot hls
      simpa using lex_number h ⟨hr, hdot h⟩ hls
    · intro rest _
      rw [ofAtom_number h]
      exact read_of_atom (readAtom_atom (by simp) rest)
  | constant h =>
    have hword : IsWord text.toList := by
      rcases h with rfl | rfl | rfl <;> exact ⟨by decide, by decide⟩
    have hof : Lexeme.ofWord? (String.ofList text.toList) = some (.constant text) := by
      rcases h with rfl | rfl | rfl <;> decide
    refine ⟨.constant text, [], rfl, fun k => rfl, ?_, ?_⟩
    · intro rest ls' hr _ hls
      exact lex_word hword hof hr hls
    · intro rest _
      rw [ofAtom_constant h]
      exact read_of_atom (readAtom_atom (by simp) rest)
  | @quoted quote hq bodies hne h =>
    cases bodies with
    | nil => exact absurd rfl hne
    | cons body bodies =>
      refine ⟨.quoted (String.ofList (quote :: body)), (quotedTexts quote bodies).map .quoted,
        rfl, fun k => rfl, fun rest ls' hr _ hls => lex_quotedTexts hq h hr hls, ?_⟩
      intro rest hrest
      rw [ofAtom_quotedTexts hq hne, List.cons_append]
      refine read_of_atom ?_
      rw [readAtom_quoted, takeQuoted_append hrest]
      rfl
  | @path parts hne h =>
    cases parts with
    | nil => exact absurd rfl hne
    | cons first names =>
      refine ⟨.name first, attrLexemes names, rfl, fun k => rfl, ?_, ?_⟩
      · intro rest ls' hr _ hls
        obtain ⟨text, htext, hclear, hlex⟩ :=
          lex_attrs (fun n hn => h n (List.mem_cons_of_mem _ hn)) hr hls
        rw [htext, List.append_assoc]
        exact lex_ident (h first List.mem_cons_self) hclear hlex
      · intro rest _
        rw [ofAtom_path h, ← readRest_attrs]
        exact read_of_atom (readAtom_atom (by simp) _)

end Serpentine.Script

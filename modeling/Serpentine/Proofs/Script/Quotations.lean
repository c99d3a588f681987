import Serpentine.Proofs.Script.Literals
import Serpentine.Proofs.Token.Spacing

/-!
# Quoted literals in the script

A quoted literal is read with all its escapes. To find its end again it is enough to know whether a
character stands behind a backslash that is not escaped itself, and so literals that are joined to
one text are told apart in it (**`quotedLiteral_lexemes`**).
-/

namespace Serpentine.Script

variable {quote : Char}

theorem closeQuote_of_quotedFrom (hquote : isQuote quote = true) {state : QuoteState} {kind : Kind}
    {cs : List Char} (h : (Cut.quotedFrom quote state cs).found = .ok kind) :
    closeQuote quote (state == .escaped) cs =
      some ((Cut.quotedFrom quote state cs).taken, (Cut.quotedFrom quote state cs).rest) := by
  induction cs generalizing state with
  | nil => cases h
  | cons c cs ih =>
    rw [Cut.quotedFrom] at h ⊢
    cases hstep : state.step quote c with
    | stop cause =>
      rw [hstep] at h
      cases h
    | close =>
      obtain ⟨rfl, hline, -, hstate⟩ := Cut.step_close hstep
      simp [closeQuote, hstate, hline]
    | more next =>
      rw [hstep] at h
      obtain ⟨hline, hopen, hnext⟩ := Cut.step_more hquote hstep
      have hcons : closeQuote quote (state == .escaped) (c :: cs) =
          (closeQuote quote (next == .escaped) cs).map fun r => (c :: r.1, r.2) := by
        rw [hnext]
        cases hstate : state == .escaped with
        | true => rfl
        | false => simp [closeQuote, hline, hopen hstate]
      rw [hcons, ih h]
      rfl

/-- A literal without its encoding mark. -/
def withoutMark (lexeme : String) : String :=
  String.ofList (lexeme.toList.drop ((encodingMark? lexeme.toList).getD []).length)

theorem withoutMark_markedText (hquote : isQuote quote = true) {piece : List Char × List Char}
    (hmark : piece.1 = [] ∨ piece.1 ∈ encodingMarks) :
    withoutMark (markedText quote piece) = String.ofList (quote :: piece.2) := by
  obtain ⟨mark, body⟩ := piece
  simp only [encodingMarks, List.mem_cons, List.not_mem_nil, or_false] at hmark
  rw [withoutMark, markedText, String.toList_ofList]
  rcases isQuote_iff.1 hquote with rfl | rfl <;> rcases hmark with rfl | rfl | rfl | rfl | rfl <;> rfl

/-- The text of a literal is closed in the script. -/
theorem exists_closedBy {t : Token} {text : String} (ht : t ∈ (tokenize text).1)
    (hquote : isQuote quote = true) (hkind : t.kind = quotedKind quote) :
    ∃ piece : List Char × List Char, (piece.1 = [] ∨ piece.1 ∈ encodingMarks) ∧
      ClosedBy quote piece.2 ∧ t.lexeme = markedText quote piece := by
  have hquoted : t.kind = .charLiteral ∨ t.kind = .stringLiteral := by
    rw [hkind]
    rcases isQuote_iff.1 hquote with rfl | rfl <;> decide
  obtain ⟨_, _, left, -, -, hnext⟩ := Scan.meets_of_mem ht
  obtain ⟨mark, opening, body, hmark, hopening, htext⟩ :=
    ((Scan.genuine_next hnext).quoted hquoted).starts
  obtain ⟨rfl, -, -⟩ | ⟨c, cs, kind, taken, -, hread, rfl, -⟩ := Scan.next_eq_ok hnext
  · rcases hquoted with h | h <;> cases h
  rw [String.toList_ofList] at htext
  have happend := Cut.read_append c cs
  rw [hread, htext, List.append_assoc, List.cons_append] at happend
  rw [Cut.read_quoted hmark hopening happend.symm, Cut.quoted] at hread
  have hfound : (Cut.quotedFrom opening .plain (body ++ left.rest)).found = .ok kind :=
    congrArg Cut.found hread
  have htaken : (Cut.quotedFrom opening .plain (body ++ left.rest)).taken = body := by
    simpa [Cut.after] using (congrArg Cut.taken hread).trans htext
  obtain rfl : opening = quote := by
    have hsame := (Cut.quotedFrom_ok hfound).symm.trans hkind
    rcases isQuote_iff.1 hopening with rfl | rfl <;> rcases isQuote_iff.1 hquote with rfl | rfl <;>
      first | rfl | cases hsame
  have halone := Cut.quotedFrom_taken hfound []
  rw [htaken, List.append_nil] at halone
  have hclose := closeQuote_of_quotedFrom hquote (congrArg Cut.found halone)
  rw [halone] at hclose
  exact ⟨(mark, body), hmark, hclose, congrArg String.ofList htext⟩

/-- **Literals keep their bounds.** String literals side by side, or a character literal, are written
as they were read, each without its encoding mark. -/
theorem quotedLiteral_lexemes {tokens : List Token} (hquote : isQuote quote = true)
    (h : ∀ t ∈ tokens, t.kind = quotedKind quote ∧ ∃ text, t ∈ (tokenize text).1) :
    quotedLiteral (" ".intercalate (tokens.map Token.lexeme)) =
      " ".intercalate (tokens.map fun t => withoutMark t.lexeme) := by
  have hpieces : ∀ t ∈ tokens, ∃ piece : List Char × List Char,
      (piece.1 = [] ∨ piece.1 ∈ encodingMarks) ∧ ClosedBy quote piece.2 ∧
        t.lexeme = markedText quote piece := by
    intro t ht
    obtain ⟨hkind, text, hmem⟩ := h t ht
    exact exists_closedBy hmem hquote hkind
  choose! piece hmark hclosed hlexeme using hpieces
  have hread := quotedLiteral_eq hquote (tokens.map piece)
    (List.forall_mem_map.2 fun t ht => ⟨hmark t ht, hclosed t ht⟩)
  rw [quotedTexts, List.map_map, List.map_map, List.map_map] at hread
  rw [List.map_congr_left hlexeme]
  refine hread.trans (congrArg _ (List.map_congr_left fun t ht => ?_))
  rw [hlexeme t ht, withoutMark_markedText hquote (hmark t ht)]
  rfl

theorem quotedLiteral_lexemes_marked :
    quotedLiteral "u8\"a \\\"\" L\"'\\x1f\"" = "\"a \\\"\" \"'\\x1f\"" := by
  have htokens : ∀ t ∈ ([⟨.stringLiteral, "u8\"a \\\"\"", ⟨1, 1⟩⟩,
      ⟨.stringLiteral, "L\"'\\x1f\"", ⟨1, 9⟩⟩] : List Token),
      t.kind = quotedKind '\"' ∧ t ∈ (tokenize "u8\"a \\\"\"L\"'\\x1f\"").1 := by
    decide +kernel
  exact (quotedLiteral_lexemes (by decide) fun t ht => ⟨(htokens t ht).1, _, (htokens t ht).2⟩ :)

end Serpentine.Script

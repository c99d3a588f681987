import Serpentine.Proofs.Script.Lexeme
import Serpentine.Proofs.Token.Lines

/-!
# The texts of tokens

What the kind of a token says about its text: a name is a word, a number starts with a digit or
point, a quoted literal with a quote behind an encoding mark, and none of them reaches over the end
of a line (**`Scan.genuine_pull`**).
-/

namespace Serpentine

open Script (IsWord isAlpha_iff isNameChar_of_isNameStart)

variable {c : Char}

theorem toNat_of_isNameChar (h : isNameChar c = true) :
    c.toNat = 95 ∨ 48 ≤ c.toNat ∧ c.toNat ≤ 57 ∨ 65 ≤ c.toNat ∧ c.toNat ≤ 90 ∨
      97 ≤ c.toNat ∧ c.toNat ≤ 122 := by
  simp only [isNameChar, Char.isAlphanum, isAlpha_iff, Char.isDigit, Bool.or_eq_true,
    Bool.and_eq_true, decide_eq_true_eq, beq_iff_eq, ge_iff_le, Char.le_def,
    UInt32.le_iff_toNat_le] at h
  rcases h with rfl | (h | h) | h
  · exact .inl rfl
  · exact .inr (.inr (.inl h))
  · exact .inr (.inr (.inr h))
  · exact .inr (.inl h)

theorem isBlank_of_isNameChar (h : isNameChar c = true) : isBlank c = false := by
  have hn := toNat_of_isNameChar h
  rw [← Bool.not_eq_true]
  intro hblank
  simp only [isBlank, Bool.or_eq_true, Bool.and_eq_true, decide_eq_true_eq, beq_iff_eq] at hblank
  omega

/-- The text stays in a line. -/
def IsOneLine (text : String) : Prop :=
  '\n' ∉ text.toList

instance (text : String) : Decidable (IsOneLine text) :=
  inferInstanceAs (Decidable ('\n' ∉ text.toList))

@[simp]
theorem isOneLine_append {first second : String} :
    IsOneLine (first ++ second) ↔ IsOneLine first ∧ IsOneLine second := by
  simp [IsOneLine]

/-- The texts of names. -/
structure IsName (text : String) : Prop where
  word : IsWord text.toList
  free : keywords.lookup text = none

structure IsNumeral (text : String) : Prop where
  starts : text.toList.head?.any (fun c => c.isDigit || c == '.') = true
  inLine : '\n' ∉ text.toList

structure IsQuotation (text : String) : Prop where
  starts : ∃ mark quote rest, (mark = [] ∨ mark ∈ encodingMarks) ∧ isQuote quote = true ∧
    text.toList = mark ++ quote :: rest
  inLine : '\n' ∉ text.toList

/-- The text of a token is as its kind says. -/
structure Token.Genuine (t : Token) : Prop where
  name : t.kind = .identifier → IsName t.lexeme
  number : t.kind = .intLiteral ∨ t.kind = .floatLiteral → IsNumeral t.lexeme
  quoted : t.kind = .charLiteral ∨ t.kind = .stringLiteral → IsQuotation t.lexeme

/-- The kinds that say something about their texts. -/
def Kind.isTelling (k : Kind) : Bool :=
  k == .identifier || k.isLiteral

theorem Token.genuine_of_isTelling {t : Token} (h : t.kind.isTelling = false) : t.Genuine := by
  constructor <;> intro hkind
  · rw [hkind] at h
    cases h
  · rcases hkind with hkind | hkind <;> rw [hkind] at h <;> cases h
  · rcases hkind with hkind | hkind <;> rw [hkind] at h <;> cases h

/-! ## Pieces -/

namespace Cut

theorem newline_not_mem_taken (hc : c ≠ '\n') (cs : List Char) : '\n' ∉ (read c cs).taken := by
  have happend := read_append c cs
  by_cases hmem : '\n' ∈ cs
  · obtain ⟨x, y, rfl, hx⟩ := List.eq_append_cons_of_mem hmem
    obtain ⟨found, taken, rest, -, hcut⟩ := inLine_read c x
    rw [hcut y] at happend ⊢
    have hline : taken ++ rest = c :: x := by
      rw [← List.append_assoc, ← List.cons_append] at happend
      exact List.append_cancel_right happend
    intro hn
    have hin : '\n' ∈ c :: x := hline ▸ List.mem_append_left rest hn
    exact (List.mem_cons.1 hin).elim (fun h => hc h.symm) hx
  · intro hn
    have hin : '\n' ∈ c :: cs := happend ▸ List.mem_append_left _ hn
    exact (List.mem_cons.1 hin).elim (fun h => hc h.symm) hmem

variable {cs : List Char}

theorem isName_word (hc : isNameStart c = true) (h : (word (c :: cs)).found = .ok .identifier) :
    IsName (String.ofList (word (c :: cs)).taken) := by
  refine ⟨?_, ?_⟩
  · rw [String.toList_ofList, word, IsWord]
    dsimp only
    rw [List.takeWhile_cons_of_pos (isNameChar_of_isNameStart hc)]
    exact ⟨hc, by simp [isNameChar_of_isNameStart hc]⟩
  · have hkinds : ∀ entry ∈ keywords, entry.2 ≠ .identifier := by decide
    have hkind : Kind.ofWord (String.ofList (word (c :: cs)).taken) = .identifier :=
      Except.ok.inj h
    exact (ofWord_cases _).elim And.left fun hmem => absurd hkind (hkinds _ hmem)

theorem starts_number (hc : (c.isDigit || c == '.') = true) :
    (number (c :: cs)).taken.head?.any (fun c => c.isDigit || c == '.') = true := by
  have hpos : 0 < (numberLength (c :: cs)).1 := numberLength_pos hc
  obtain ⟨n, hn⟩ := Nat.exists_eq_add_one.2 hpos
  simp [number, hn, hc]

theorem starts_quoted (quote : Char) (cs : List Char) :
    ∃ rest, (quoted (quote :: cs)).taken = quote :: rest :=
  ⟨_, rfl⟩

theorem ofWord_isLiteral (text : String) : (Kind.ofWord text).isLiteral = false := by
  have hkinds : ∀ entry ∈ keywords, entry.2.isLiteral = false := by decide
  rcases ofWord_cases text with ⟨-, hkind⟩ | hmem
  · rw [hkind]
    rfl
  · exact hkinds _ hmem

theorem genuine_quotation {kind : Kind} {text : String} {spot : Spot}
    (hkind : kind ≠ .identifier ∧ kind ≠ .intLiteral ∧ kind ≠ .floatLiteral)
    (h : IsQuotation text) : (⟨kind, text, spot⟩ : Token).Genuine :=
  ⟨fun hk => absurd hk hkind.1, fun hk => absurd hk (not_or.2 hkind.2), fun _ => h⟩

theorem quoted_kind {kind : Kind} (h : (quoted cs).found = .ok kind) :
    kind ≠ .identifier ∧ kind ≠ .intLiteral ∧ kind ≠ .floatLiteral := by
  cases cs with
  | nil => cases h
  | cons quote cs =>
    rw [quotedFrom_ok h, quotedKind]
    split <;> decide

theorem genuine_read (hc : c ≠ '\n') {kind : Kind} (spot : Spot)
    (h : (read c cs).found = .ok kind) :
    (⟨kind, String.ofList (read c cs).taken, spot⟩ : Token).Genuine := by
  have hline : '\n' ∉ (String.ofList (read c cs).taken).toList := by
    rw [String.toList_ofList]
    exact newline_not_mem_taken hc cs
  rcases literal_or_not c cs with ⟨mark, quote, z, hmark, hquote, hz⟩ | ⟨hmark, hquote⟩
  · rw [read_quoted hmark hquote hz] at h hline ⊢
    obtain ⟨more, hmore⟩ := starts_quoted quote z
    refine genuine_quotation (quoted_kind h) ⟨⟨mark, quote, more, hmark, hquote, ?_⟩, hline⟩
    rw [String.toList_ofList, after, hmore]
  · unfold read at h hline ⊢
    rw [hmark, hquote] at h hline ⊢
    dsimp only at h hline ⊢
    split_ifs at h hline ⊢ with hname hnumber hfalse
    · refine ⟨fun hk => isName_word hname (h.trans (congrArg _ hk)), fun hk => ?_, fun hk => ?_⟩
      all_goals
        have hliteral := ofWord_isLiteral (String.ofList ((c :: cs).takeWhile isNameChar))
        rw [Except.ok.inj h] at hliteral
        rcases hk with rfl | rfl <;> cases hliteral
    · have hstart : (c.isDigit || c == '.') = true := by
        simp only [Bool.or_eq_true, Bool.and_eq_true] at hnumber ⊢
        exact hnumber.imp_right And.left
      have hkind : kind = .intLiteral ∨ kind = .floatLiteral := by
        rw [← Except.ok.inj h]
        split
        · exact .inr rfl
        · exact .inl rfl
      refine ⟨fun hk => ?_, fun _ => ⟨?_, hline⟩, fun hk => ?_⟩
      · rcases hkind with rfl | rfl <;> cases hk
      · rw [String.toList_ofList]
        exact starts_number hstart
      · rcases hkind with rfl | rfl <;> rcases hk with hk | hk <;> cases hk
    · cases hfalse
    · refine Token.genuine_of_isTelling ?_
      have hall : ∀ o ∈ operators, o.2.isTelling = false := by decide
      exact hall _ (operator_mem h)

end Cut

/-! ## Scans -/

namespace Scan

theorem genuine_next {s left : Scan} {token : Token} (h : s.next = (.ok token, left)) :
    token.Genuine := by
  obtain ⟨rfl, -, -⟩ | ⟨c, cs, kind, taken, hrest, hread, rfl, -⟩ := next_eq_ok h
  · exact Token.genuine_of_isTelling rfl
  · have hc : c ≠ '\n' := by
      rintro rfl
      cases isBlank_of_skipBlanks hrest
    have hgenuine := Cut.genuine_read hc s.skipBlanks.spot (congrArg Cut.found hread)
    rwa [hread] at hgenuine

theorem genuine_pull (s : Scan) : s.pull.2.1.Genuine := by
  obtain ⟨a, ha, -⟩ := s.exists_next_eq_pull
  exact genuine_next ha

end Scan

end Serpentine

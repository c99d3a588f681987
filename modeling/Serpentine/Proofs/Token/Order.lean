import Mathlib.Tactic.Common
import Serpentine.Proofs.Sorted
import Serpentine.Token.Scan

/-!
# The order of tokens and faults

A scan goes through its text from the front to the end: what it takes is never empty if it is no
token, and each fault stands behind the faults before it (**`Scan.pull_order`**).
-/

namespace Serpentine

/-! ## Spots -/

variable {cs : List Char}

namespace Spot

/-- The order of the places in a text. -/
def Before (a b : Spot) : Prop :=
  a.line < b.line ∨ (a.line = b.line ∧ a.column < b.column)

def NotAfter (a b : Spot) : Prop :=
  a = b ∨ a.Before b

variable {a b c : Spot}

theorem Before.trans (hab : a.Before b) (hbc : b.Before c) : a.Before c := by
  unfold Before at *
  omega

theorem not_before_self (a : Spot) : ¬ a.Before a := by
  unfold Before
  omega

theorem NotAfter.trans_before (hab : a.NotAfter b) (hbc : b.Before c) :
    a.Before c := by
  rcases hab with rfl | hab
  · exact hbc
  · exact hab.trans hbc

theorem Before.trans_notAfter (hab : a.Before b) (hbc : b.NotAfter c) :
    a.Before c := by
  rcases hbc with rfl | hbc
  · exact hab
  · exact hab.trans hbc

theorem NotAfter.trans (hab : a.NotAfter b) (hbc : b.NotAfter c) : a.NotAfter c := by
  rcases hbc with rfl | hbc
  · exact hab
  · exact .inr (hab.trans_before hbc)

theorem before_next (s : Spot) (c : Char) : s.Before (s.next c) := by
  unfold next Before
  split
  · exact .inl (Nat.lt_succ_self _)
  · exact .inr ⟨rfl, Nat.lt_succ_self _⟩

theorem notAfter_past (s : Spot) (cs : List Char) : s.NotAfter (s.past cs) := by
  induction cs generalizing s with
  | nil => exact .inl rfl
  | cons c cs ih => exact NotAfter.trans (.inr (s.before_next c)) (ih (s.next c))

theorem before_past (s : Spot) (h : cs ≠ []) : s.Before (s.past cs) := by
  cases cs with
  | nil => exact absurd rfl h
  | cons c cs => exact (s.before_next c).trans_notAfter (notAfter_past (s.next c) cs)

end Spot

/-! ## Cuts -/

namespace Cut

theorem quotedFrom_append (quote : Char) (state : QuoteState) (cs : List Char) :
    (quotedFrom quote state cs).taken ++ (quotedFrom quote state cs).rest = cs := by
  induction cs generalizing state with
  | nil => rfl
  | cons c cs ih =>
    rw [quotedFrom]
    split
    · next more _ => simpa [after] using ih more
    · rfl
    · rfl

variable {kind : Kind}

theorem quotedFrom_ok {quote : Char} {state : QuoteState}
    (h : (quotedFrom quote state cs).found = .ok kind) : kind = quotedKind quote := by
  induction cs generalizing state with
  | nil => simp [quotedFrom] at h
  | cons c cs ih =>
    rw [quotedFrom] at h
    split at h
    · exact ih h
    · simpa using h.symm
    · simp at h

theorem quoted_append (cs : List Char) : (quoted cs).taken ++ (quoted cs).rest = cs := by
  cases cs with
  | nil => rfl
  | cons quote cs => simpa [quoted, after] using quotedFrom_append quote .plain cs

theorem mark_append {cs mark : List Char} (h : encodingMark? cs = some mark) :
    mark ++ cs.drop mark.length = cs ∧ mark ≠ [] := by
  have hmem := List.mem_of_find?_eq_some h
  have hprefix := List.find?_some h
  simp only [Bool.and_eq_true, List.isPrefixOf_iff_prefix] at hprefix
  obtain ⟨rest, rfl⟩ := hprefix.1
  refine ⟨by simp, ?_⟩
  rintro rfl
  exact absurd hmem (by decide)

theorem word_append (cs : List Char) : (word cs).taken ++ (word cs).rest = cs :=
  List.takeWhile_append_dropWhile

theorem number_append (cs : List Char) : (number cs).taken ++ (number cs).rest = cs := by
  simp [number]

theorem operator_append (c : Char) (cs : List Char) :
    (operator c cs).taken ++ (operator c cs).rest = c :: cs := by
  unfold operator
  split
  · next spelling kind hfind =>
    have hprefix := List.find?_some hfind
    rw [List.isPrefixOf_iff_prefix] at hprefix
    exact List.prefix_iff_eq_append.1 hprefix
  · rfl

theorem read_append (c : Char) (cs : List Char) :
    (read c cs).taken ++ (read c cs).rest = c :: cs := by
  unfold read
  split
  · next mark hmark =>
    rw [after, List.append_assoc, quoted_append, (mark_append hmark).1]
  · split_ifs
    · exact word_append _
    · exact number_append _
    · exact quoted_append _
    · exact operator_append c cs

variable {c : Char}

theorem numberLength_pos {cs : List Char} (h : (c.isDigit || c == '.') = true) :
    0 < (numberLength (c :: cs)).1 := by
  unfold numberLength
  split_ifs
  · dsimp only
    omega
  · rw [decimalLength.eq_def]
    dsimp only
    by_cases hdigit : (c.isDigit || c == '\'') = true
    · rw [if_pos hdigit]
      exact Nat.succ_pos _
    · have hpoint : (c == '.') = true := by
        rw [Bool.or_eq_true, not_or] at hdigit
        rw [Bool.or_eq_true] at h
        exact h.resolve_left hdigit.1
      rw [if_neg hdigit, if_pos (by simp [hpoint])]
      exact Nat.succ_pos _

theorem taken_ne_nil (c : Char) (cs : List Char) : (read c cs).taken ≠ [] := by
  unfold read
  split
  · next mark hmark => simp [after, (mark_append hmark).2]
  · split_ifs with hname hnumber
    · have hc : isNameChar c = true := by
        simp only [isNameStart, isNameChar, Char.isAlphanum, Bool.or_eq_true] at hname ⊢
        exact hname.imp_right .inl
      simp [word, hc]
    · have hpos : 0 < (numberLength (c :: cs)).1 := by
        refine numberLength_pos ?_
        simp only [Bool.or_eq_true, Bool.and_eq_true] at hnumber ⊢
        exact hnumber.imp_right And.left
      simp [number, Nat.ne_of_gt hpos]
    · simp [quoted, after]
    · unfold operator
      split
      · next spelling kind hfind =>
        have hall : ∀ o ∈ operators, o.1 ≠ [] := by decide
        exact hall _ (List.mem_of_find?_eq_some hfind)
      · exact List.cons_ne_nil _ _

/-- The kinds of words, numbers and quoted literals. -/
def wordKinds : List Kind :=
  [.identifier, .intLiteral, .floatLiteral, .charLiteral, .stringLiteral] ++ keywords.map Prod.snd

/-- A word is a name or a keyword. -/
theorem ofWord_cases (word : String) :
    keywords.lookup word = none ∧ Kind.ofWord word = .identifier ∨
      (word, Kind.ofWord word) ∈ keywords := by
  unfold Kind.ofWord
  cases hlookup : keywords.lookup word with
  | none => exact .inl ⟨rfl, rfl⟩
  | some kind => exact .inr (mem_of_lookup hlookup)

theorem ofWord_mem_wordKinds (word : String) : Kind.ofWord word ∈ wordKinds := by
  rcases ofWord_cases word with ⟨-, hkind⟩ | hmem
  · rw [hkind]
    exact List.mem_cons_self
  · exact List.mem_append_right _ (List.mem_map_of_mem hmem)

theorem quoted_mem_wordKinds (h : (quoted cs).found = .ok kind) :
    kind ∈ wordKinds := by
  cases cs with
  | nil => simp [quoted] at h
  | cons quote cs =>
    rw [quotedFrom_ok h, quotedKind, wordKinds]
    split <;> simp

theorem read_cases (h : (read c cs).found = .ok kind) :
    kind ∈ wordKinds ∨ read c cs = operator c cs := by
  unfold read at h ⊢
  split at h
  · exact .inl (quoted_mem_wordKinds h)
  · split_ifs at h ⊢
    · obtain rfl := Except.ok.inj h
      exact .inl (ofWord_mem_wordKinds _)
    · obtain rfl := Except.ok.inj h
      refine .inl ?_
      rw [wordKinds]
      split <;> simp
    · exact .inl (quoted_mem_wordKinds h)
    · exact .inr rfl

theorem operator_mem (h : (operator c cs).found = .ok kind) :
    ((operator c cs).taken, kind) ∈ operators := by
  unfold operator at h ⊢
  split at h
  · next spelling kind' hfind =>
    obtain rfl := Except.ok.inj h
    exact List.mem_of_find?_eq_some hfind
  · cases h

theorem read_found (h : (read c cs).found = .ok kind) :
    kind ∈ wordKinds ∨ ((read c cs).taken, kind) ∈ operators := by
  refine (read_cases h).imp_right fun hread => ?_
  rw [hread] at h ⊢
  exact operator_mem h

theorem read_shr (h : (read c cs).found = .ok .shr) :
    (read c cs).taken = ['>', '>'] := by
  have hword : Kind.shr ∉ wordKinds := by decide
  have hall : ∀ o ∈ operators, o.2 = .shr → o.1 = ['>', '>'] := by decide
  exact (read_found h).elim (absurd · hword) (hall _ · rfl)

theorem read_ne_eof (c : Char) (cs : List Char) : (read c cs).found ≠ .ok .eof := by
  have hword : Kind.eof ∉ wordKinds := by decide
  have hall : ∀ o ∈ operators, o.2 ≠ .eof := by decide
  exact fun h => (read_found h).elim hword (hall _ · rfl)

end Cut

/-! ## Scans -/

namespace Scan

theorem skipBlanks_spot (s : Scan) : s.spot.NotAfter s.skipBlanks.spot :=
  s.spot.notAfter_past _

theorem length_skipBlanks_le (s : Scan) : s.skipBlanks.rest.length ≤ s.rest.length :=
  (List.dropWhile_sublist _).length_le

section Next

variable {s left : Scan} {token : Token} {fault : ScanFault}

/-- How the next token is read: at the end, or from the first character that is not blank. -/
theorem next_eq_ok (h : s.next = (.ok token, left)) :
    (token = ⟨.eof, "", s.skipBlanks.spot⟩ ∧ left = s.skipBlanks ∧ s.skipBlanks.rest = []) ∨
    ∃ c cs kind taken, s.skipBlanks.rest = c :: cs ∧ Cut.read c cs = ⟨.ok kind, taken, left.rest⟩ ∧
      token = ⟨kind, String.ofList taken, s.skipBlanks.spot⟩ ∧
      left.spot = s.skipBlanks.spot.past taken := by
  unfold next at h
  dsimp only at h
  cases hrest : s.skipBlanks.rest with
  | nil =>
    simp only [hrest, Prod.mk.injEq, Except.ok.injEq] at h
    exact .inl ⟨h.1.symm, h.2.symm, rfl⟩
  | cons c cs =>
    rcases hread : Cut.read c cs with ⟨cause | kind, taken, rest⟩
    · simp [hrest, hread] at h
    · simp only [hrest, hread, Prod.mk.injEq, Except.ok.injEq] at h
      obtain ⟨rfl, rfl⟩ := h
      exact .inr ⟨c, cs, kind, taken, rfl, hread, rfl, rfl⟩

theorem next_eq_error (h : s.next = (.error fault, left)) :
    ∃ c cs taken, s.skipBlanks.rest = c :: cs ∧
      Cut.read c cs = ⟨.error fault.cause, taken, left.rest⟩ ∧ fault.spot = s.skipBlanks.spot ∧
      left.spot = s.skipBlanks.spot.past taken := by
  unfold next at h
  dsimp only at h
  cases hrest : s.skipBlanks.rest with
  | nil => simp [hrest] at h
  | cons c cs =>
    rcases hread : Cut.read c cs with ⟨cause | kind, taken, rest⟩
    · simp only [hrest, hread, Prod.mk.injEq, Except.error.injEq] at h
      obtain ⟨rfl, rfl⟩ := h
      exact ⟨c, cs, taken, rfl, hread, rfl, rfl⟩
    · simp [hrest, hread] at h

/-- A fault stands at or behind the place of the scan, and the scan goes on behind it. -/
theorem next_error (h : s.next = (.error fault, left)) :
    left.rest.length < s.rest.length ∧ s.spot.NotAfter fault.spot ∧
      fault.spot.Before left.spot := by
  have hlen := s.length_skipBlanks_le
  obtain ⟨c, cs, taken, hrest, hread, hspot, hleft⟩ := next_eq_error h
  have hne := Cut.taken_ne_nil c cs
  have happend := Cut.read_append c cs
  rw [hread] at hne happend
  rw [hspot, hleft]
  refine ⟨?_, s.skipBlanks_spot, Spot.before_past _ hne⟩
  have hlength := congrArg List.length happend
  have hpos := List.length_pos_iff.2 hne
  rw [hrest] at hlen
  simp only [List.length_append, List.length_cons] at hlength hlen hpos
  omega

theorem next_ok (h : s.next = (.ok token, left)) :
    s.spot.NotAfter left.spot ∧ (token.kind = .shr → token.lexeme = ">>") := by
  obtain ⟨rfl, rfl, -⟩ | ⟨c, cs, kind, taken, -, hread, rfl, hleft⟩ := next_eq_ok h
  · exact ⟨s.skipBlanks_spot, by simp⟩
  · refine ⟨hleft ▸ s.skipBlanks_spot.trans (Spot.notAfter_past _ _), ?_⟩
    rintro rfl
    have hshr := Cut.read_shr (congrArg Cut.found hread)
    rw [hread] at hshr
    exact congrArg String.ofList hshr

end Next

theorem pullWithin_of_le {n : Nat} {s : Scan} (h : s.rest.length + 1 ≤ n) :
    s.pullWithin n = s.pull := by
  rw [pull]
  generalize hm : s.rest.length + 1 = m at h
  have hs : s.rest.length < m := by omega
  clear hm
  induction m generalizing n s with
  | zero => omega
  | succ m ih =>
    obtain ⟨n, rfl⟩ : ∃ k, n = k + 1 := ⟨n - 1, by omega⟩
    rw [pullWithin, pullWithin]
    split
    · rfl
    · next fault left hnext =>
      have hlt := (next_error hnext).1
      rw [ih (by omega) (by omega)]

/-- The next token is the next piece, or behind the fault that the next piece is. -/
theorem pull_eq (s : Scan) :
    s.pull = match s.next with
      | (.ok token, left) => ([], token, left)
      | (.error fault, left) => (fault :: left.pull.1, left.pull.2) := by
  rw [pull, pullWithin]
  rcases hnext : s.next with ⟨fault | token, left⟩
  · have hlt := (next_error hnext).1
    simp only [pullWithin_of_le (show left.rest.length + 1 ≤ s.rest.length by omega)]
  · rfl

theorem pull_induction {P : Scan → Prop}
    (ok : ∀ s token left, s.next = (.ok token, left) → P s)
    (error : ∀ s fault left, s.next = (.error fault, left) → P left → P s) (s : Scan) : P s := by
  generalize hn : s.rest.length = n
  induction n using Nat.strongRecOn generalizing s with
  | _ n ih =>
    rcases hnext : s.next with ⟨fault | token, left⟩
    · exact error s fault left hnext (ih _ (hn ▸ (next_error hnext).1) left rfl)
    · exact ok s token left hnext

/-- The token that a scan delivers is the next piece of some rest of the text. -/
theorem exists_next_eq_pull (s : Scan) :
    ∃ a : Scan, a.next = (.ok s.pull.2.1, s.pull.2.2) ∧ a.rest.length ≤ s.rest.length := by
  induction s using pull_induction with
  | ok s token left hnext =>
    rw [pull_eq, hnext]
    exact ⟨s, hnext, Nat.le_refl _⟩
  | error s fault left hnext ih =>
    obtain ⟨a, ha, hle⟩ := ih
    rw [pull_eq, hnext]
    exact ⟨a, ha, Nat.le_trans hle (Nat.le_of_lt (next_error hnext).1)⟩

theorem pull_shr (s : Scan) : s.pull.2.1.kind = .shr → s.pull.2.1.lexeme = ">>" := by
  obtain ⟨a, ha, -⟩ := s.exists_next_eq_pull
  exact (next_ok ha).2

theorem pull_order (s : Scan) :
    s.spot.NotAfter s.pull.2.2.spot ∧
      s.pull.1.Pairwise (fun f g => f.spot.Before g.spot) ∧
      ∀ f ∈ s.pull.1, s.spot.NotAfter f.spot ∧ f.spot.Before s.pull.2.2.spot := by
  induction s using pull_induction with
  | ok s token left hnext =>
    rw [pull_eq, hnext]
    exact ⟨(next_ok hnext).1, .nil, by simp⟩
  | error s fault left hnext ih =>
    obtain ⟨-, hspot, hleft⟩ := next_error hnext
    obtain ⟨hlast, hpairwise, hall⟩ := ih
    rw [pull_eq, hnext]
    have hbehind : s.spot.NotAfter left.spot := .inr (hspot.trans_before hleft)
    refine ⟨hbehind.trans hlast, .cons (fun f hf => ?_) hpairwise, ?_⟩
    · exact hleft.trans_notAfter (hall f hf).1
    · simp only [List.mem_cons, forall_eq_or_imp]
      refine ⟨⟨hspot, hleft.trans_notAfter hlast⟩, fun f hf => ?_⟩
      exact ⟨hbehind.trans (hall f hf).1, (hall f hf).2⟩

end Scan

end Serpentine

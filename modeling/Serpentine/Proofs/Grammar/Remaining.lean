import Serpentine.Proofs.Grammar.Progress

/-!
# The tokens that are left

How many tokens stand between a parse and the end of its text. A `>>` counts as two, since it may be
split, so neither a split nor the way back changes the count, and each token that is taken lowers it
(**`Reaches.left_add_cursor_le`**).
-/

namespace Serpentine

/-- How much a token counts. -/
def Token.weight (t : Token) : Nat :=
  if t.kind = .shr then 2 else 1

/-- How much the tokens of a sequence count up to its end, which is among so many of them. -/
def tokensBefore (f : Nat → Token) : Nat → Nat
  | 0 => 0
  | n + 1 => if (f 0).isEnd then 0 else (f 0).weight + tokensBefore (fun i => f (i + 1)) n

section TokensBefore

variable {f g : Nat → Token} {m n size : Nat}

theorem tokensBefore_le_textLength (hpos : ∀ i, (f i).isEnd = false → 0 < (f i).lexeme.length)
    (hshr : ∀ i, (f i).kind = .shr → (f i).lexeme = ">>") : tokensBefore f n ≤ textLength f n := by
  induction n generalizing f with
  | zero => exact Nat.le_refl _
  | succ n ih =>
    have hrest := ih (fun i => hpos (i + 1)) fun i => hshr (i + 1)
    rw [tokensBefore, textLength]
    split
    · exact Nat.zero_le _
    · next hend =>
      refine Nat.add_le_add ?_ hrest
      unfold Token.weight
      split
      · next hkind =>
        rw [hshr 0 hkind]
        decide
      · exact hpos 0 (Bool.eq_false_iff.2 hend)

theorem tokensBefore_eq (hlength : ∀ k, textLength f k ≤ size)
    (hpos : ∀ i, (f i).isEnd = false → 0 < (f i).lexeme.length) (hm : size ≤ m) (hn : size ≤ n) :
    tokensBefore f m = tokensBefore f n := by
  induction m generalizing f n size with
  | zero =>
    cases n with
    | zero => rfl
    | succ n =>
      have hfirst := hlength 1
      have hend : (f 0).isEnd = true := by
        by_contra hend
        have hlt := hpos 0 (Bool.eq_false_iff.2 hend)
        simp only [textLength] at hfirst
        omega
      rw [tokensBefore, tokensBefore, if_pos hend]
  | succ m ih =>
    cases hend : (f 0).isEnd with
    | true => cases n <;> simp [tokensBefore, hend]
    | false =>
      have hlt := hpos 0 hend
      have hfirst := hlength 1
      simp only [textLength] at hfirst
      obtain ⟨n, rfl⟩ : ∃ k, n = k + 1 := ⟨n - 1, by omega⟩
      simp only [tokensBefore, hend, Bool.false_eq_true, if_false, Nat.add_left_cancel_iff]
      have hrest : ∀ k, textLength (fun i => f (i + 1)) k ≤ size - 1 := by
        intro k
        have hk := hlength (k + 1)
        rw [textLength] at hk
        omega
      exact ih hrest (fun i => hpos (i + 1)) (by omega) (by omega)

theorem tokensBefore_congr (h : ∀ i, (f i).kind = (g i).kind) :
    tokensBefore f n = tokensBefore g n := by
  induction n generalizing f g with
  | zero => rfl
  | succ n ih =>
    rw [tokensBefore, tokensBefore, ih fun i => h (i + 1), Token.isEnd, Token.isEnd, Token.weight,
      Token.weight, h 0]

end TokensBefore

namespace Stream

/-- How many tokens are left, an unsplit `>>` counted as two. -/
def left (s : Stream) : Nat :=
  tokensBefore (fun i => s.tokenAt (s.cursor + i)) s.size

variable {s t : Stream} {size : Nat}

theorem textLength_drop_le {f : Nat → Token} (h : ∀ n, textLength f n ≤ size) (k n : Nat) :
    textLength (fun i => f (k + i)) n ≤ size := by
  induction k generalizing f with
  | zero => simpa using h n
  | succ k ih =>
    have hrest : ∀ n, textLength (fun i => f (i + 1)) n ≤ size := by
      intro n
      have hn := h (n + 1)
      rw [textLength] at hn
      omega
    simpa [Nat.add_right_comm] using ih hrest

theorem Counted.left_eq (h : s.Counted s.size) {n : Nat} (hn : s.size ≤ n) :
    s.left = tokensBefore (fun i => s.tokenAt (s.cursor + i)) n :=
  tokensBefore_eq (textLength_drop_le h.length s.cursor) (fun i => h.pos (s.cursor + i))
    (Nat.le_refl _) hn

theorem Counted.left_le (h : s.Counted s.size) (hs : s.Fits) : s.left ≤ s.size :=
  Nat.le_trans (tokensBefore_le_textLength (fun i => h.pos (s.cursor + i)) fun i =>
    hs.shr (s.cursor + i)) (textLength_drop_le h.length s.cursor s.size)

theorem left_of_alike (htokens : t.tokenAt = s.tokenAt) (hcursor : t.cursor = s.cursor)
    (hsize : t.size = s.size) : t.left = s.left := by
  unfold left
  rw [htokens, hcursor, hsize]

theorem left_peekAt (s : Stream) (offset : Nat) : (s.peekAt offset).2.left = s.left := by
  obtain ⟨-, hpulled, -⟩ := s.peekAt_eq offset
  exact left_of_alike hpulled.tokenAt hpulled.cursor (s.size_peekAt offset)

theorem tokenAt_advance (s : Stream) : s.advance.2.tokenAt = s.tokenAt := by
  obtain ⟨-, hpulled, -⟩ := s.peekAt_eq 0
  rw [← hpulled.tokenAt]
  unfold advance
  dsimp only
  split <;> rfl

theorem Counted.left_advance (h : s.Counted s.size) :
    s.advance.2.left + s.advance.2.cursor ≤ s.left + s.cursor := by
  have hcursor := s.cursor_advance
  cases hend : (s.tokenAt s.cursor).isEnd with
  | true =>
    rw [hend, if_pos rfl] at hcursor
    rw [left_of_alike s.tokenAt_advance hcursor s.size_advance, hcursor]
  | false =>
    rw [hend, if_neg (by decide)] at hcursor
    have hleft : s.left = (s.tokenAt s.cursor).weight + s.advance.2.left := by
      rw [h.left_eq (Nat.le_succ _), tokensBefore]
      simp only [Nat.add_zero, hend, Bool.false_eq_true, if_false, left, hcursor,
        s.tokenAt_advance, s.size_advance, Nat.add_right_comm, Nat.add_assoc]
    have hweight : 1 ≤ (s.tokenAt s.cursor).weight := by
      unfold Token.weight
      split <;> omega
    omega

theorem Counted.left_splitShift (h : s.Counted s.size) (hs : s.Fits) :
    s.splitShift.left = s.left := by
  obtain ⟨-, hpulled, hsize⟩ := s.peekAt_eq 0
  have hcounted : s.splitShift.Counted s.splitShift.size := by
    rw [s.size_splitShift]
    exact h.splitShift hs
  by_cases hshr : (s.tokenAt s.cursor).kind = .shr
  · -- Behind a `>>` and behind its two halves the same tokens are left.
    rw [Nat.add_zero, ← hpulled.cursor] at hsize
    have htokens : s.splitShift.tokenAt = splitAt s.cursor s.tokenAt := by
      rw [splitShift_eq, if_pos hshr, ← hpulled.tokenAt, ← hpulled.cursor, tokenAt_split hsize]
    have hfirst : splitAt s.cursor s.tokenAt (s.cursor + 0) = firstHalf (s.tokenAt s.cursor) := by
      simp [splitAt]
    have hsecond : splitAt s.cursor s.tokenAt (s.cursor + (0 + 1)) =
        secondHalf (s.tokenAt s.cursor) := by
      simp [splitAt, show ¬ s.cursor + 1 < s.cursor by omega]
    have hbehind : (fun i => splitAt s.cursor s.tokenAt (s.cursor + (i + 1 + 1))) =
        fun i => s.tokenAt (s.cursor + (i + 1)) := by
      funext i
      simp [splitAt, show ¬ s.cursor + (i + 1 + 1) < s.cursor by omega]
    rw [h.left_eq (Nat.le_succ _), hcounted.left_eq (n := s.size + 2) (by simp [s.size_splitShift]),
      htokens, s.cursor_splitShift, tokensBefore, tokensBefore, tokensBefore, hfirst, hsecond,
      hbehind]
    simp [firstHalf, secondHalf, Token.isEnd, Token.weight, hshr]
    omega
  · rw [splitShift_eq, if_neg hshr]
    exact s.left_peekAt 0

end Stream

namespace Grammar

variable {e : Effect} {s t : State}

def State.left (s : State) : Nat :=
  s.stream.left

/-- The tokens fit the text they are from. -/
structure State.Sound (s : State) : Prop where
  fits : s.stream.Fits
  counted : s.stream.Counted s.stream.size

theorem State.sound_start (file text : String) (names : Names) (store : Store) :
    (State.start file text names store).Sound :=
  ⟨Stream.fits_start text, Stream.counted_start text⟩

theorem State.Sound.left_le (h : s.Sound) : s.left ≤ s.stream.size :=
  h.counted.left_le h.fits

theorem Reaches.sound (h : Reaches e s t) (hs : s.Sound) : t.Sound := by
  refine ⟨(h.later hs.fits).fits, ?_⟩
  rw [h.file_eq.2]
  exact h.counted hs.fits hs.counted

theorem State.left_restore (hs : s.Sound) (h : Reaches e s t) :
    (t.restore s.checkpoint).left = s.left := by
  obtain ⟨htokens, hcursor, -⟩ := Stream.restore_eq (h.later hs.fits) hs.fits
  exact Stream.left_of_alike htokens hcursor ((Stream.size_restore _ _).trans h.file_eq.2)

theorem Reaches.left_add_cursor_le (h : Reaches e s t) (hs : s.Sound) :
    t.left + t.stream.cursor ≤ s.left + s.stream.cursor := by
  induction h with
  | refl s => exact Nat.le_refl _
  | @step _ u _ before change ih =>
    refine Nat.le_trans ?_ (ih hs)
    have hu := before.sound hs
    cases change with
    | peek offset =>
      exact Nat.le_of_eq (congrArg₂ (· + ·) (u.stream.left_peekAt offset)
        (u.stream.cursor_peekAt offset))
    | advance => exact hu.counted.left_advance
    | split =>
      exact Nat.le_of_eq (congrArg₂ (· + ·) (hu.counted.left_splitShift hu.fits)
        u.stream.cursor_splitShift)
    | _ => exact Nat.le_refl _
  | @rewind _ u v before spec ih _ =>
    have hu := before.sound hs
    rw [State.left_restore hu spec]
    exact ih hs

theorem Reaches.left_le (h : Reaches e s t) (hs : s.Sound) : t.left ≤ s.left := by
  have hle := h.left_add_cursor_le hs
  have hcursor := h.cursor_le
  omega

theorem Reaches.left_lt (h : Reaches e s t) (hs : s.Sound)
    (hlt : s.stream.cursor < t.stream.cursor) : t.left < s.left := by
  have hle := h.left_add_cursor_le hs
  omega

end Grammar

end Serpentine

import Serpentine.Grammar.Stream
import Serpentine.Proofs.Token.Order

/-!
# The sequence of tokens of a stream

A stream stands for one endless sequence of tokens: those it has taken from the text, and those that
the text still delivers. Looking ahead does not change it. A split and the way back change it at one
place (**`Stream.restore_eq`**).
-/

namespace Serpentine

/-- The token that a text delivers behind so many others. -/
def Scan.tokenAt (s : Scan) : Nat → Token
  | 0 => s.pull.2.1
  | n + 1 => s.pull.2.2.tokenAt n

theorem Scan.tokenAt_shr (s : Scan) (i : Nat) :
    (s.tokenAt i).kind = .shr → (s.tokenAt i).lexeme = ">>" := by
  induction i generalizing s with
  | zero => exact s.pull_shr
  | succ i ih => exact ih s.pull.2.2

namespace Stream

/-- The sequence of tokens: those taken from the text, and those that it still delivers. -/
def tokenAt (s : Stream) (i : Nat) : Token :=
  if i < s.buffer.size then s.buffer.getD i default else s.scan.tokenAt (i - s.buffer.size)

/-- Each split of a log was made inside so many tokens; the splits before it were made inside one
token less. -/
def SplitsFit : List Nat → Nat → Prop
  | [], _ => True
  | index :: rest, size => index + 1 < size ∧ SplitsFit rest (size - 1)

theorem SplitsFit.mono {splits : List Nat} {m n : Nat} (h : SplitsFit splits m) (hle : m ≤ n) :
    SplitsFit splits n := by
  induction splits generalizing m n with
  | nil => trivial
  | cons index rest ih => exact ⟨Nat.lt_of_lt_of_le h.1 hle, ih h.2 (Nat.sub_le_sub_right hle 1)⟩

/-- The log of splits fits the tokens, and each `>>` is written as one. -/
structure Fits (s : Stream) : Prop where
  splits : SplitsFit s.splits s.buffer.size
  shr : ∀ i, (s.tokenAt i).kind = .shr → (s.tokenAt i).lexeme = ">>"
  order : s.faults.Pairwise fun f g => f.spot.Before g.spot
  behind : ∀ f ∈ s.faults, f.spot.Before s.scan.spot

theorem fits_start (text : String) : (start text).Fits where
  splits := trivial
  shr i := (Scan.start text).tokenAt_shr i
  order := .nil
  behind := by simp [start]

/-! ## Looking ahead -/

theorem tokenAt_pull (s : Stream) : s.pull.tokenAt = s.tokenAt := by
  funext i
  simp only [tokenAt, pull, Array.size_push, Array.getD_eq_getD_getElem?, Array.getElem?_push]
  rcases Nat.lt_trichotomy i s.buffer.size with hlt | rfl | hgt
  · rw [if_pos (by omega), if_pos hlt, if_neg (by omega)]
  · simp [Scan.tokenAt]
  · obtain ⟨k, rfl⟩ : ∃ k, i = s.buffer.size + 1 + k := ⟨i - (s.buffer.size + 1), by omega⟩
    rw [if_neg (by omega), if_neg (by omega),
      show s.buffer.size + 1 + k - s.buffer.size = k + 1 by omega,
      show s.buffer.size + 1 + k - (s.buffer.size + 1) = k by omega, Scan.tokenAt]

variable {s : Stream}

theorem Fits.pull (h : s.Fits) : s.pull.Fits := by
  obtain ⟨hspot, hpairwise, hall⟩ := s.scan.pull_order
  refine ⟨?_, ?_, ?_, ?_⟩
  · exact h.splits.mono (by simp [Stream.pull])
  · rw [tokenAt_pull]
    exact h.shr
  · refine List.pairwise_append.2 ⟨h.order, hpairwise, fun f hf g hg => ?_⟩
    exact (h.behind f hf).trans_notAfter (hall g hg).1
  · intro f hf
    rcases List.mem_append.1 hf with hf | hf
    · exact (h.behind f hf).trans_notAfter hspot
    · exact (hall f hf).2

/-- A stream with more tokens taken from its text. -/
structure Pulled (s later : Stream) : Prop where
  fits : s.Fits → later.Fits
  tokenAt : later.tokenAt = s.tokenAt
  cursor : later.cursor = s.cursor
  splits : later.splits = s.splits
  faults : s.faults <+: later.faults

theorem Pulled.refl (s : Stream) : Pulled s s :=
  ⟨id, rfl, rfl, rfl, List.prefix_refl _⟩

theorem Pulled.trans {s t u : Stream} (hst : Pulled s t) (htu : Pulled t u) : Pulled s u :=
  ⟨fun h => htu.fits (hst.fits h), htu.tokenAt.trans hst.tokenAt, htu.cursor.trans hst.cursor,
    htu.splits.trans hst.splits, hst.faults.trans htu.faults⟩

theorem pulled_pull (s : Stream) : Pulled s s.pull :=
  ⟨Fits.pull, s.tokenAt_pull, rfl, rfl, List.prefix_append _ _⟩

theorem pulled_pullMany (s : Stream) (n : Nat) :
    Pulled s (s.pullMany n) ∧ (s.pullMany n).buffer.size = s.buffer.size + n := by
  induction n generalizing s with
  | zero => exact ⟨.refl s, rfl⟩
  | succ n ih =>
    obtain ⟨hpulled, hsize⟩ := ih s.pull
    refine ⟨s.pulled_pull.trans hpulled, ?_⟩
    rw [pullMany, hsize, pull, Array.size_push]
    omega

theorem pulled_fill (s : Stream) (index : Nat) :
    Pulled s (s.fill index) ∧ index < (s.fill index).buffer.size := by
  obtain ⟨hpulled, hsize⟩ := s.pulled_pullMany (index + 1 - s.buffer.size)
  refine ⟨hpulled, ?_⟩
  rw [fill, hsize]
  omega

theorem peekAt_eq (s : Stream) (offset : Nat) :
    (s.peekAt offset).1 = s.tokenAt (s.cursor + offset) ∧ Pulled s (s.peekAt offset).2 ∧
      s.cursor + offset < (s.peekAt offset).2.buffer.size := by
  obtain ⟨hpulled, hsize⟩ := s.pulled_fill (s.cursor + offset)
  refine ⟨?_, hpulled, hsize⟩
  rw [← hpulled.tokenAt, tokenAt, if_pos hsize, peekAt]
  show (s.fill _).buffer.getD ((s.fill _).cursor + offset) default = _
  rw [hpulled.cursor]

/-! ## Splits -/

/-- The sequence with the token at a place replaced by the two halves of a `>>`. -/
def splitAt (k : Nat) (f : Nat → Token) (i : Nat) : Token :=
  if i < k then f i
  else if i = k then firstHalf (f k)
  else if i = k + 1 then secondHalf (f k)
  else f (i - 1)

/-- The sequence with the tokens at a place and behind it replaced by one `>>`. -/
def joinAt (k : Nat) (f : Nat → Token) (i : Nat) : Token :=
  if i < k then f i
  else if i = k then joined (f k)
  else f (i + 1)

/-- The sequence with splits taken back, the first one in the list first. -/
def joinAll : List Nat → (Nat → Token) → Nat → Token
  | [], f => f
  | k :: rest, f => joinAll rest (joinAt k f)

theorem joinAt_splitAt {k : Nat} {f : Nat → Token} (hkind : (f k).kind = .shr)
    (hlexeme : (f k).lexeme = ">>") : joinAt k (splitAt k f) = f := by
  funext i
  have hk : joined (firstHalf (f k)) = f k := by
    rw [joined, firstHalf, ← hkind, ← hlexeme]
  rcases Nat.lt_trichotomy i k with hlt | rfl | hgt
  · simp [joinAt, splitAt, hlt]
  · simp [joinAt, splitAt, hk]
  · have h₁ : ¬ i < k := by omega
    have h₂ : i ≠ k := by omega
    have h₃ : ¬ i + 1 < k := by omega
    have h₄ : i + 1 ≠ k := by omega
    simp [joinAt, splitAt, h₁, h₂, h₃, h₄]

theorem joinAll_append (newer older : List Nat) (f : Nat → Token) :
    joinAll (newer ++ older) f = joinAll older (joinAll newer f) := by
  induction newer generalizing f with
  | nil => rfl
  | cons k rest ih => exact ih (joinAt k f)

theorem tokenAt_of_lt {i : Nat} (h : i < s.buffer.size) : s.tokenAt i = s.buffer.getD i default :=
  if_pos h

theorem getElem?_joinShift {k : Nat} (h : k + 1 < s.buffer.size) (i : Nat) :
    (s.joinShift k).buffer[i]? =
      if k = i then some (joined (s.buffer.getD k default))
      else if i < k + 1 then s.buffer[i]? else s.buffer[i + 1]? := by
  have hk : k < s.buffer.size - 1 := by omega
  simp [joinShift, Array.eraseIdxIfInBounds, h, Array.getElem?_setIfInBounds,
    Array.getElem?_eraseIdx, hk]

theorem tokenAt_joinShift {k : Nat} (h : k + 1 < s.buffer.size) :
    (s.joinShift k).tokenAt = joinAt k s.tokenAt := by
  have hsize : (s.joinShift k).buffer.size = s.buffer.size - 1 := by
    simp [joinShift, Array.eraseIdxIfInBounds, h]
  have hscan : (s.joinShift k).scan = s.scan := rfl
  funext i
  simp only [tokenAt, joinAt, hsize, hscan, Array.getD_eq_getD_getElem?, getElem?_joinShift h]
  rcases Nat.lt_trichotomy i k with hlt | rfl | hgt
  · rw [if_pos (by omega), if_neg (by omega), if_pos (by omega), if_pos hlt, if_pos (by omega)]
  · rw [if_pos (by omega), if_pos rfl, if_neg (by omega), if_pos rfl, if_pos (by omega)]
    rfl
  · rw [if_neg (by omega : ¬ k = i), if_neg (by omega : ¬ i < k + 1), if_neg (by omega : ¬ i < k),
      if_neg (by omega : ¬ i = k)]
    by_cases hi : i + 1 < s.buffer.size
    · rw [if_pos (by omega), if_pos hi]
    · rw [if_neg (by omega), if_neg hi,
        show i - (s.buffer.size - 1) = i + 1 - s.buffer.size by omega]

theorem getElem?_split {buffer : Array Token} {k : Nat} (h : k < buffer.size)
    (first second : Token) (i : Nat) :
    ((buffer.setIfInBounds k first).insertIdxIfInBounds (k + 1) second)[i]? =
      if i < k then buffer[i]? else if i = k then some first
      else if i = k + 1 then some second else buffer[i - 1]? := by
  have hk : k + 1 ≤ (buffer.setIfInBounds k first).size := by
    rw [Array.size_setIfInBounds]
    exact h
  rw [Array.insertIdxIfInBounds, dif_pos hk, Array.getElem?_insertIdx]
  rcases Nat.lt_trichotomy i k with hlt | rfl | hgt
  · simp [hlt, show i < k + 1 by omega, show k ≠ i by omega]
  · simp [h]
  · by_cases hi : i = k + 1
    · subst hi
      simp [show k + 1 ≤ buffer.size from h, show ¬ k + 1 < k by omega]
    · simp [hi, show ¬ i < k + 1 by omega, show ¬ i < k by omega, show i ≠ k by omega,
        show k ≠ i - 1 by omega]

/-- The stream with the token in front, which is taken from the text, replaced by two halves. -/
def split (s : Stream) (token : Token) : Stream :=
  { s with
    buffer := (s.buffer.setIfInBounds s.cursor (firstHalf token)).insertIdxIfInBounds
      (s.cursor + 1) (secondHalf token)
    splits := s.cursor :: s.splits }

theorem size_split (h : s.cursor < s.buffer.size) (token : Token) :
    (s.split token).buffer.size = s.buffer.size + 1 := by
  have hk : s.cursor + 1 ≤ (s.buffer.setIfInBounds s.cursor (firstHalf token)).size := by
    rw [Array.size_setIfInBounds]
    exact h
  rw [split, Array.insertIdxIfInBounds, dif_pos hk, Array.size_insertIdx, Array.size_setIfInBounds]

theorem tokenAt_split (h : s.cursor < s.buffer.size) :
    (s.split (s.tokenAt s.cursor)).tokenAt = splitAt s.cursor s.tokenAt := by
  have hscan : (s.split (s.tokenAt s.cursor)).scan = s.scan := rfl
  funext i
  rw [tokenAt, size_split h, hscan, Array.getD_eq_getD_getElem?, split, getElem?_split h, splitAt]
  rcases Nat.lt_trichotomy i s.cursor with hlt | rfl | hgt
  · rw [if_pos (by omega), if_pos hlt, if_pos hlt, tokenAt_of_lt (by omega),
      Array.getD_eq_getD_getElem?]
  · rw [if_pos (by omega), if_neg (by omega), if_pos rfl, if_neg (by omega), if_pos rfl]
    rfl
  · rw [if_neg (by omega : ¬ i < s.cursor), if_neg (by omega : ¬ i = s.cursor),
      if_neg (by omega : ¬ i < s.cursor), if_neg (by omega : ¬ i = s.cursor)]
    by_cases hi : i = s.cursor + 1
    · rw [if_pos (by omega), if_pos hi, if_pos hi]
      rfl
    · rw [if_neg hi, if_neg hi]
      by_cases hsize : i < s.buffer.size + 1
      · rw [if_pos hsize, tokenAt_of_lt (by omega), Array.getD_eq_getD_getElem?]
      · rw [if_neg hsize, tokenAt, if_neg (by omega),
          show i - (s.buffer.size + 1) = i - 1 - s.buffer.size by omega]

theorem splitShift_eq (s : Stream) :
    s.splitShift =
      if (s.tokenAt s.cursor).kind = .shr then (s.peekAt 0).2.split (s.tokenAt s.cursor)
      else (s.peekAt 0).2 := by
  have htoken : (s.peekAt 0).1 = s.tokenAt s.cursor := (s.peekAt_eq 0).1
  rw [← htoken]
  rfl

/-! ## The way back -/

/-- A later stream: its newer splits taken back, it has the same sequence, and its faults go on with
those from before. -/
structure Later (s later : Stream) : Prop where
  fits : later.Fits
  joins : ∃ newer, later.splits = newer ++ s.splits ∧ joinAll newer later.tokenAt = s.tokenAt
  faults : s.faults <+: later.faults

theorem Later.refl (h : s.Fits) : Later s s :=
  ⟨h, ⟨[], rfl, rfl⟩, List.prefix_refl _⟩

theorem Later.trans {s t u : Stream} (hst : Later s t) (htu : Later t u) : Later s u := by
  obtain ⟨older, hsplits, hjoin⟩ := hst.joins
  obtain ⟨newer, hsplits', hjoin'⟩ := htu.joins
  refine ⟨htu.fits, ⟨newer ++ older, ?_, ?_⟩, hst.faults.trans htu.faults⟩
  · rw [hsplits', hsplits, List.append_assoc]
  · rw [joinAll_append, hjoin', hjoin]

theorem Pulled.later {s later : Stream} (h : Pulled s later) (hs : s.Fits) : Later s later :=
  ⟨h.fits hs, ⟨[], h.splits, h.tokenAt⟩, h.faults⟩

theorem later_peekAt (h : s.Fits) (offset : Nat) : Later s (s.peekAt offset).2 :=
  (s.peekAt_eq offset).2.1.later h

theorem later_advance (h : s.Fits) : Later s s.advance.2 := by
  have hpeek := later_peekAt h 0
  unfold advance
  simp only
  split
  · exact hpeek
  · exact ⟨⟨hpeek.fits.splits, hpeek.fits.shr, hpeek.fits.order, hpeek.fits.behind⟩, hpeek.joins,
      hpeek.faults⟩

theorem later_splitShift (h : s.Fits) : Later s s.splitShift := by
  obtain ⟨-, hpulled, hsize⟩ := s.peekAt_eq 0
  have hlater := hpulled.later h
  rw [splitShift_eq]
  split
  · next hshr =>
    rw [← hpulled.tokenAt, ← hpulled.cursor] at hshr ⊢
    rw [Nat.add_zero, ← hpulled.cursor] at hsize
    have hlexeme := hlater.fits.shr _ hshr
    refine hlater.trans ⟨⟨?_, ?_, hlater.fits.order, hlater.fits.behind⟩, ?_, List.prefix_refl _⟩
    · rw [size_split hsize]
      exact ⟨Nat.succ_lt_succ hsize, hlater.fits.splits⟩
    · intro i
      rw [tokenAt_split hsize, splitAt]
      split_ifs
      · exact hlater.fits.shr i
      · simp [firstHalf]
      · simp [secondHalf]
      · exact hlater.fits.shr _
    · exact ⟨[_], rfl, by rw [tokenAt_split hsize]; exact joinAt_splitAt hshr hlexeme⟩
  · exact hlater

theorem joinUntil_eq {newer older : List Nat} (h : SplitsFit (newer ++ older) s.buffer.size) :
    (joinUntil older.length (newer ++ older) s).tokenAt = joinAll newer s.tokenAt ∧
      (joinUntil older.length (newer ++ older) s).splits = older ∧
      (joinUntil older.length (newer ++ older) s).scan = s.scan ∧
      (joinUntil older.length (newer ++ older) s).faults = s.faults ∧
      SplitsFit older (joinUntil older.length (newer ++ older) s).buffer.size := by
  induction newer generalizing s with
  | nil =>
    have hstop : joinUntil older.length older s = { s with splits := older } := by
      cases older <;> simp [joinUntil]
    rw [List.nil_append, hstop]
    exact ⟨rfl, rfl, rfl, rfl, h⟩
  | cons k newer ih =>
    have hgo : joinUntil older.length (k :: newer ++ older) s =
        joinUntil older.length (newer ++ older) (s.joinShift k) := by
      rw [List.cons_append, joinUntil, if_pos]
      simp only [List.length_append]
      omega
    have hsize : (s.joinShift k).buffer.size = s.buffer.size - 1 := by
      simp [joinShift, Array.eraseIdxIfInBounds, h.1]
    obtain ⟨htokens, hsplits, hscan, hfaults, hfit⟩ := ih (hsize ▸ h.2)
    rw [hgo]
    refine ⟨?_, hsplits, hscan, hfaults, hfit⟩
    rw [htokens, tokenAt_joinShift h.1]
    rfl

theorem restore_eq {s later : Stream} (h : Later s later) (hs : s.Fits) :
    (later.restore s.mark).tokenAt = s.tokenAt ∧ (later.restore s.mark).cursor = s.cursor ∧
      (later.restore s.mark).splits = s.splits ∧ (later.restore s.mark).faults = later.faults ∧
      Later s (later.restore s.mark) := by
  obtain ⟨newer, hsplits, hjoin⟩ := h.joins
  have hfit := h.fits.splits
  rw [hsplits] at hfit
  obtain ⟨htokens, hsplits', hscan, hfaults, hfit'⟩ := joinUntil_eq hfit
  have hrestore : later.restore s.mark =
      { joinUntil s.splits.length (newer ++ s.splits) later with cursor := s.cursor } := by
    rw [restore, hsplits]
    rfl
  have htokens' : (later.restore s.mark).tokenAt = s.tokenAt := by
    rw [hrestore, ← hjoin, ← htokens]
    rfl
  have hfits : (later.restore s.mark).Fits := by
    refine ⟨?_, ?_, ?_, ?_⟩
    · rw [hrestore]
      show SplitsFit (joinUntil _ _ _).splits _
      rw [hsplits']
      exact hfit'
    · rw [htokens']
      exact hs.shr
    · rw [hrestore]
      show (joinUntil _ _ _).faults.Pairwise _
      rw [hfaults]
      exact h.fits.order
    · rw [hrestore]
      show ∀ f ∈ (joinUntil _ _ _).faults, f.spot.Before (joinUntil _ _ _).scan.spot
      rw [hfaults, hscan]
      exact h.fits.behind
  have hkeep : (later.restore s.mark).faults = later.faults := by
    rw [hrestore]
    exact hfaults
  have hlog : (later.restore s.mark).splits = s.splits := by
    rw [hrestore]
    exact hsplits'
  refine ⟨htokens', by rw [hrestore], hlog, hkeep, hfits, ⟨[], hlog, htokens'⟩, ?_⟩
  rw [hkeep]
  exact h.faults

/-! ## Streams that cannot be told apart -/

/-- Streams that no look ahead, step or split can tell apart. -/
structure Alike (s t : Stream) : Prop where
  tokenAt : s.tokenAt = t.tokenAt
  cursor : s.cursor = t.cursor
  splits : s.splits = t.splits

theorem Alike.trans {s t u : Stream} (hst : Alike s t) (htu : Alike t u) : Alike s u :=
  ⟨hst.tokenAt.trans htu.tokenAt, hst.cursor.trans htu.cursor, hst.splits.trans htu.splits⟩

theorem Alike.symm {s t : Stream} (h : Alike s t) : Alike t s :=
  ⟨h.tokenAt.symm, h.cursor.symm, h.splits.symm⟩

theorem Pulled.alike {s later : Stream} (h : Pulled s later) : Alike later s :=
  ⟨h.tokenAt, h.cursor, h.splits⟩

theorem Later.alike_restore {s later : Stream} (h : Later s later) (hs : s.Fits) :
    Alike (later.restore s.mark) s := by
  obtain ⟨htokens, hcursor, hsplits, -⟩ := restore_eq h hs
  exact ⟨htokens, hcursor, hsplits⟩

variable {s t : Stream}

theorem Alike.peekAt (h : Alike s t) (offset : Nat) :
    (s.peekAt offset).1 = (t.peekAt offset).1 ∧ Alike (s.peekAt offset).2 (t.peekAt offset).2 := by
  obtain ⟨hanswer, hpulled, -⟩ := s.peekAt_eq offset
  obtain ⟨hanswer', hpulled', -⟩ := t.peekAt_eq offset
  refine ⟨?_, hpulled.alike.trans (h.trans hpulled'.alike.symm)⟩
  rw [hanswer, hanswer', h.tokenAt, h.cursor]

theorem Alike.advance (h : Alike s t) :
    s.advance.1 = t.advance.1 ∧ Alike s.advance.2 t.advance.2 := by
  obtain ⟨hanswer, halike⟩ := h.peekAt 0
  refine ⟨hanswer, ?_⟩
  simp only [Stream.advance, hanswer]
  split
  · exact halike
  · exact ⟨halike.tokenAt, congrArg (· + 1) halike.cursor, halike.splits⟩

theorem Alike.splitShift (h : Alike s t) : Alike s.splitShift t.splitShift := by
  obtain ⟨-, hpulled, hsize⟩ := s.peekAt_eq 0
  obtain ⟨-, hpulled', hsize'⟩ := t.peekAt_eq 0
  have halike := (h.peekAt 0).2
  rw [splitShift_eq, splitShift_eq, h.tokenAt, h.cursor]
  split
  · rw [Nat.add_zero, ← hpulled.cursor] at hsize
    rw [Nat.add_zero, ← hpulled'.cursor] at hsize'
    have htoken : t.tokenAt t.cursor = (s.peekAt 0).2.tokenAt (s.peekAt 0).2.cursor := by
      rw [hpulled.tokenAt, hpulled.cursor, h.tokenAt, h.cursor]
    have htoken' : t.tokenAt t.cursor = (t.peekAt 0).2.tokenAt (t.peekAt 0).2.cursor := by
      rw [hpulled'.tokenAt, hpulled'.cursor]
    refine ⟨?_, halike.cursor, ?_⟩
    · nth_rewrite 1 [htoken]
      rw [htoken', tokenAt_split hsize, tokenAt_split hsize', halike.tokenAt, halike.cursor]
    · show _ :: _ = _ :: _
      rw [halike.cursor, halike.splits]
  · exact halike

end Stream

end Serpentine

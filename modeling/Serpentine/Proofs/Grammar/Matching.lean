import Mathlib.Data.List.InsertIdx
import Serpentine.Proofs.Grammar.Remaining
import Serpentine.Proofs.Grammar.Scopes
import Serpentine.Proofs.Grammar.Wording
import Serpentine.Proofs.Program.Likeness

/-!
# Texts of the same words

Two texts that deliver the same words, at places that need not be the same. What a reader sees of
places is a parameter: all of them, so that the texts are the same, or nothing, so that only their
layouts may differ.
-/

namespace Serpentine

def Token.seen (see : Position → Position) (file : String) (t : Token) : Kind × String × Position :=
  (t.kind, t.lexeme, see (t.spot.within file))

/-- Scans that deliver the same words at places that look the same. -/
structure Matching where
  /-- What is seen of a place. -/
  see : Position → Position
  /-- What is seen of the place of the second half of a `>>`, given that of the first. -/
  half : Position → Position
  see_half (spot : Spot) (file : String) :
    see ({ spot with column := spot.column + 1 }.within file) = half (see (spot.within file))
  file : String
  file' : String
  /-- How many characters the texts have. -/
  size : Nat
  size' : Nat
  /-- Whether the scopes of a parse are followed too. -/
  nested : Prop
  /-- Whether it is followed that all names and literals come from tokens. -/
  worded : Prop := False
  /-- What the uses of names have in common, if wording is followed. -/
  words : NameRef → Prop := fun _ => True
  /-- The program from which wording is followed. -/
  origin : Store := default
  Same : Scan → Scan → Prop
  pull {a b : Scan} (h : Same a b) : a.pull.1 = b.pull.1 ∧
    a.pull.2.1.seen see file = b.pull.2.1.seen see file' ∧ Same a.pull.2.2 b.pull.2.2

/-- The same text. -/
def Matching.exact (nested : Prop) (file : String) (size size' : Nat) : Matching where
  see := id
  half p := { p with column := p.column.map (· + 1) }
  see_half _ _ := rfl
  file := file
  file' := file
  size := size
  size' := size'
  nested := nested
  Same := Eq
  pull := by
    rintro a _ rfl
    exact ⟨rfl, rfl, rfl⟩

variable {m : Matching}

/-- Tokens of the two texts that look the same. -/
def Matching.Tokens (m : Matching) (a b : Token) : Prop :=
  a.seen m.see m.file = b.seen m.see m.file'

namespace Matching.Tokens

variable {a b : Token} (h : m.Tokens a b)

include h

theorem kind : b.kind = a.kind :=
  (congrArg Prod.fst h).symm

theorem lexeme : b.lexeme = a.lexeme :=
  (congrArg (·.2.1) h).symm

theorem place : m.see (a.spot.within m.file) = m.see (b.spot.within m.file') :=
  congrArg (·.2.2) h

theorem isEnd : b.isEnd = a.isEnd := by
  rw [Token.isEnd, Token.isEnd, h.kind]

theorem firstHalf : m.Tokens (Stream.firstHalf a) (Stream.firstHalf b) :=
  congrArg (fun p => (Kind.gt, ">", p)) h.place

theorem secondHalf : m.Tokens (Stream.secondHalf a) (Stream.secondHalf b) := by
  refine congrArg (fun p => (Kind.gt, ">", p)) ?_
  rw [Stream.secondHalf, Stream.secondHalf, m.see_half, m.see_half, h.place]

theorem joined : m.Tokens (Stream.joined a) (Stream.joined b) :=
  congrArg (fun p => (Kind.shr, ">>", p)) h.place

end Matching.Tokens

theorem Matching.map_kind_eq {l l' : List Token} (h : List.Forall₂ m.Tokens l l') :
    l'.map (·.kind) = l.map (·.kind) := by
  induction h with
  | nil => rfl
  | cons ht _ ih => rw [List.map_cons, List.map_cons, ht.kind, ih]

theorem Matching.map_lexeme_eq {l l' : List Token} (h : List.Forall₂ m.Tokens l l') :
    l'.map (·.lexeme) = l.map (·.lexeme) := by
  induction h with
  | nil => rfl
  | cons ht _ ih => rw [List.map_cons, List.map_cons, ht.lexeme, ih]

theorem Matching.tokenAt {a b : Scan} (h : m.Same a b) (i : Nat) :
    m.Tokens (a.tokenAt i) (b.tokenAt i) := by
  induction i generalizing a b with
  | zero => exact (m.pull h).2.1
  | succ i ih => exact ih (m.pull h).2.2

/-! ## Streams -/

section Arrays

variable {α β : Type} (f : α → β) (xs : Array α) (i : Nat) (a : α)

theorem map_eraseIdxIfInBounds :
    (xs.eraseIdxIfInBounds i).map f = (xs.map f).eraseIdxIfInBounds i := by
  refine Array.ext' ?_
  by_cases hi : i < xs.size
  · simp [Array.eraseIdxIfInBounds, hi, List.eraseIdx_map]
  · simp [Array.eraseIdxIfInBounds, hi]

theorem map_insertIdxIfInBounds :
    (xs.insertIdxIfInBounds i a).map f = (xs.map f).insertIdxIfInBounds i (f a) := by
  refine Array.ext' ?_
  by_cases hi : i ≤ xs.size
  · simp [Array.insertIdxIfInBounds, hi, List.map_insertIdx]
  · simp [Array.insertIdxIfInBounds, hi]

end Arrays

namespace Stream

/-- Streams that stand at the same word of matching texts. -/
structure Matches (m : Matching) (s t : Stream) : Prop where
  scan : m.Same s.scan t.scan
  buffer : s.buffer.map (Token.seen m.see m.file) = t.buffer.map (Token.seen m.see m.file')
  cursor : t.cursor = s.cursor
  splits : t.splits = s.splits
  faults : t.faults = s.faults

namespace Matches

variable {s t : Stream}

section Changes

variable (h : Matches m s t)

include h

theorem size_buffer : t.buffer.size = s.buffer.size := by
  have hsize := congrArg Array.size h.buffer
  rw [Array.size_map, Array.size_map] at hsize
  exact hsize.symm

theorem getD {i : Nat} (hi : i < s.buffer.size) :
    m.Tokens (s.buffer.getD i default) (t.buffer.getD i default) := by
  have hi' : i < t.buffer.size := h.size_buffer ▸ hi
  have hget := congrArg (·[i]?) h.buffer
  simpa [hi, hi', Array.getD_eq_getD_getElem?, Matching.Tokens] using hget

theorem tokenAt (i : Nat) : m.Tokens (s.tokenAt i) (t.tokenAt i) := by
  rw [Stream.tokenAt, Stream.tokenAt, h.size_buffer]
  by_cases hi : i < s.buffer.size
  · rw [if_pos hi, if_pos hi]
    exact h.getD hi
  · rw [if_neg hi, if_neg hi]
    exact m.tokenAt h.scan _

theorem pull : Matches m s.pull t.pull := by
  obtain ⟨hfaults, htoken, hscan⟩ := m.pull h.scan
  refine ⟨hscan, ?_, h.cursor, h.splits, ?_⟩
  · simp only [Stream.pull, Array.map_push, h.buffer, htoken]
  · simp only [Stream.pull, h.faults, hfaults]

theorem pullMany (n : Nat) : Matches m (s.pullMany n) (t.pullMany n) := by
  induction n generalizing s t with
  | zero => exact h
  | succ n ih => exact ih h.pull

theorem peekAt (offset : Nat) :
    m.Tokens (s.peekAt offset).1 (t.peekAt offset).1 ∧
      Matches m (s.peekAt offset).2 (t.peekAt offset).2 := by
  constructor
  · rw [(s.peekAt_eq offset).1, (t.peekAt_eq offset).1, h.cursor]
    exact h.tokenAt _
  · simp only [Stream.peekAt, fill, h.cursor, h.size_buffer]
    exact h.pullMany _

theorem advance : m.Tokens s.advance.1 t.advance.1 ∧ Matches m s.advance.2 t.advance.2 := by
  obtain ⟨htoken, hpeek⟩ := h.peekAt 0
  refine ⟨htoken, ?_⟩
  unfold Stream.advance
  dsimp only
  rw [htoken.isEnd]
  split
  · exact hpeek
  · exact ⟨hpeek.scan, hpeek.buffer, congrArg (· + 1) hpeek.cursor, hpeek.splits, hpeek.faults⟩

theorem split {token token' : Token} (htoken : m.Tokens token token') :
    Matches m (s.split token) (t.split token') := by
  refine ⟨h.scan, ?_, h.cursor, ?_, h.faults⟩
  · simp only [Stream.split, h.cursor]
    rw [map_insertIdxIfInBounds, map_insertIdxIfInBounds, Array.map_setIfInBounds,
      Array.map_setIfInBounds, h.buffer, htoken.firstHalf, htoken.secondHalf]
  · simp only [Stream.split, h.cursor, h.splits]

theorem splitShift : Matches m s.splitShift t.splitShift := by
  have htoken := h.tokenAt s.cursor
  obtain ⟨-, hpeek⟩ := h.peekAt 0
  rw [splitShift_eq, splitShift_eq, h.cursor, htoken.kind]
  split
  · exact hpeek.split htoken
  · exact hpeek

theorem joinShift (index : Nat) : Matches m (s.joinShift index) (t.joinShift index) := by
  refine ⟨h.scan, ?_, h.cursor, h.splits, h.faults⟩
  simp only [Stream.joinShift]
  rw [Array.map_setIfInBounds, Array.map_setIfInBounds, map_eraseIdxIfInBounds,
    map_eraseIdxIfInBounds, h.buffer]
  by_cases hi : index < s.buffer.size
  · rw [(h.getD hi).joined]
  · have hsize : ∀ token, ((t.buffer.map (Token.seen m.see m.file')).eraseIdxIfInBounds
        (index + 1)).setIfInBounds index token =
        (t.buffer.map (Token.seen m.see m.file')).eraseIdxIfInBounds (index + 1) := by
      intro token
      have hle : t.buffer.size ≤ index := by
        rw [h.size_buffer]
        omega
      have herase : ¬ index + 1 < t.buffer.size := by omega
      refine Array.setIfInBounds_eq_of_size_le ?_
      simpa [Array.eraseIdxIfInBounds, herase] using hle
    rw [hsize, hsize]

theorem joinUntil (count : Nat) (splits : List Nat) :
    Matches m (Stream.joinUntil count splits s) (Stream.joinUntil count splits t) := by
  induction splits generalizing s t with
  | nil => exact ⟨h.scan, h.buffer, h.cursor, rfl, h.faults⟩
  | cons index splits ih =>
    rw [Stream.joinUntil, Stream.joinUntil]
    split
    · exact ih (h.joinShift index)
    · exact ⟨h.scan, h.buffer, h.cursor, rfl, h.faults⟩

theorem restore {s' t' : Stream} (h' : Matches m s' t') :
    Matches m (s'.restore s.mark) (t'.restore t.mark) := by
  have hjoin := h'.joinUntil s.splits.length s'.splits
  rw [Stream.restore, Stream.restore, mark, mark, h.cursor, h.splits, h'.splits]
  exact ⟨hjoin.scan, hjoin.buffer, rfl, hjoin.splits, hjoin.faults⟩

theorem left_eq (hs : s.Counted s.size) (ht : t.Counted t.size) : t.left = s.left := by
  rw [hs.left_eq (Nat.le_max_left s.size t.size), ht.left_eq (Nat.le_max_right s.size t.size),
    h.cursor]
  exact tokensBefore_congr fun i => (h.tokenAt _).kind

end Changes

theorem eq {nested : Prop} {file : String} {size size' : Nat}
    (h : Matches (.exact nested file size size') s t)
    (hsize : s.size = t.size) : s = t := by
  have hseen : Function.Injective (Token.seen id file) := by
    rintro ⟨kind, lexeme, line, column⟩ ⟨kind', lexeme', line', column'⟩ h
    simpa [Token.seen, Spot.within] using h
  have hbuffer : s.buffer = t.buffer :=
    (Array.map_inj_right fun _ _ h => hseen h).1 h.buffer
  have hscan : s.scan = t.scan := h.scan
  have hcursor := h.cursor
  have hsplits := h.splits
  have hfaults := h.faults
  cases s
  cases t
  simp only at hbuffer hscan hcursor hsplits hfaults hsize
  rw [hbuffer, hscan, hcursor, hsplits, hfaults, hsize]

end Matches

end Stream

/-! ## States -/

namespace Grammar

/-- The states know the same, apart from their streams. -/
structure State.Known (m : Matching) (s t : State) : Prop where
  file : s.file = m.file
  file' : t.file = m.file'
  size : s.stream.size = m.size
  size' : t.stream.size = m.size'
  names : t.names = s.names
  store : s.store.Like m.see t.store
  written : m.worded → m.origin.Written m.words s.store
  context : t.context = s.context
  templateParams : t.templateParams = s.templateParams
  pendingTemplate : t.pendingTemplate = s.pendingTemplate
  inTemplateArgs : t.inTemplateArgs = s.inTemplateArgs

/-- States that differ in places only. -/
structure State.Matches (m : Matching) (s t : State) : Prop extends State.Known m s t where
  stream : Stream.Matches m s.stream t.stream

namespace State

variable {s t : State}

theorem Known.withoutTokens (h : s.Known m t) : s.withoutTokens.Known m t.withoutTokens :=
  { h with }

theorem Known.isTypeName (h : s.Known m t) (segments : List String) :
    t.isTypeName segments = s.isTypeName segments := by
  unfold State.isTypeName
  simp only [h.templateParams, h.names, h.context, h.store.namesType]

theorem Known.isTemplateName (h : s.Known m t) (segments : List String) :
    t.isTemplateName segments = s.isTemplateName segments := by
  unfold State.isTemplateName
  rw [h.names]

namespace Matches

section

variable (h : s.Matches m t)

include h

theorem withStream {stream stream' : Stream}
    (hstream : Stream.Matches m stream stream') (hsize : stream.size = s.stream.size)
    (hsize' : stream'.size = t.stream.size) :
    { s with stream }.Matches m { t with stream := stream' } :=
  { h with
    size := hsize.trans h.size
    size' := hsize'.trans h.size'
    stream := hstream }

theorem restore {s' t' : State} (h' : s'.Matches m t') :
    (s'.restore s.checkpoint).Matches m (t'.restore t.checkpoint) :=
  { file := h'.file
    file' := h'.file'
    size := (Stream.size_restore _ _).trans h'.size
    size' := (Stream.size_restore _ _).trans h'.size'
    names := congrArg₂ (fun names scopes => { names with scopes }) h'.names
      (congrArg Names.scopes h.names)
    store := h'.store
    written := h'.written
    context := h.context
    templateParams := h.templateParams
    pendingTemplate := h.pendingTemplate
    inTemplateArgs := h.inTemplateArgs
    stream := h.stream.restore h'.stream }

theorem left (hs : s.Sound) (ht : t.Sound) : t.left = s.left :=
  h.stream.left_eq hs.counted ht.counted

theorem left_le (hs : s.Sound) (ht : t.Sound) :
    s.left ≤ m.size ∧ s.left ≤ m.size' := by
  have hle := hs.left_le
  have hle' := ht.left_le
  rw [h.left hs ht, h.size'] at hle'
  rw [h.size] at hle
  exact ⟨hle, hle'⟩

end

end Matches

theorem Matches.eq {nested : Prop} {file : String} {size : Nat}
    (h : s.Matches (.exact nested file size size) t) : s = t := by
  have hstream := h.stream.eq (h.size.trans h.size'.symm)
  have hstore := h.store.eq
  have hfile := h.file.trans h.file'.symm
  have hnames := h.names
  have hcontext := h.context
  have hparams := h.templateParams
  have hpending := h.pendingTemplate
  have hinside := h.inTemplateArgs
  cases s
  cases t
  simp only at hstream hstore hfile hnames hcontext hparams hpending hinside
  rw [hstream, hstore, hfile, hnames, hcontext, hparams, hpending, hinside]

end State

end Grammar

end Serpentine

import Serpentine.Proofs.Tree.Wording

/-!
# The parts of a scoped name

A scoped name is cut into the names that it was joined of. Template arguments behind a name are
dropped (**`TypeName.segments_arguments`**), and reducing the spelling leaves names and `::` as they
are.
-/

namespace Serpentine

theorem isNameChar_marks {c : Char} (h : isNameChar c = true) :
    c ≠ ':' ∧ c ≠ '<' ∧ c ≠ '>' ∧ TypeName.isMark c = false := by
  have hne : ∀ d, isNameChar d = false → c ≠ d := by
    rintro d hd rfl
    rw [hd] at h
    cases h
  refine ⟨hne _ rfl, hne _ rfl, hne _ rfl, ?_⟩
  simp [TypeName.isMark, hne '*' rfl, hne '&' rfl, hne '<' rfl, hne '>' rfl, hne ',' rfl]

namespace TypeName

variable {w cs : List Char} {part : String} {scope : List String}

/-- What may stand between two `::`: a name, or nothing. -/
structure IsPart (part : String) : Prop where
  notNoise : part ∉ noise
  chars : ∀ c ∈ part.toList, isNameChar c = true

/-! ## Template arguments -/

/-- Every `<` is closed by a `>` of its own. -/
inductive Balanced : List Char → Prop where
  | nil : Balanced []
  | char {c : Char} {cs : List Char} (hopen : c ≠ '<') (hclose : c ≠ '>') (h : Balanced cs) :
      Balanced (c :: cs)
  | group {inner cs : List Char} (hinner : Balanced inner) (h : Balanced cs) :
      Balanced ('<' :: (inner ++ '>' :: cs))

/-- What may stand behind a name: nothing, or a balanced text between angle brackets. -/
def IsArguments (args : String) : Prop :=
  args = "" ∨ ∃ inner, Balanced inner ∧ args.toList = '<' :: (inner ++ ['>'])

theorem dropArguments_balanced (h : Balanced cs) (depth : Nat) (rest : List Char) :
    dropArguments (depth + 1) (cs ++ rest) = dropArguments (depth + 1) rest := by
  induction h generalizing depth rest with
  | nil => rfl
  | char hopen hclose _ ih => simp [dropArguments, hopen, hclose, ih]
  | group _ _ ihinner ih => simp [dropArguments, ihinner, ih]

theorem dropArguments_arguments {args : String} (h : IsArguments args) (rest : List Char) :
    dropArguments 0 (args.toList ++ rest) = dropArguments 0 rest := by
  rcases h with rfl | ⟨inner, hinner, hargs⟩
  · rfl
  · simp [hargs, dropArguments, dropArguments_balanced hinner]

theorem dropArguments_name (hw : ∀ c ∈ w, isNameChar c = true) (rest : List Char) :
    dropArguments 0 (w ++ rest) = w ++ dropArguments 0 rest := by
  induction w with
  | nil => rfl
  | cons c w ih =>
    obtain ⟨hc, hw⟩ := List.forall_mem_cons.1 hw
    obtain ⟨-, hopen, hclose, -⟩ := isNameChar_marks hc
    simp [dropArguments, hopen, hclose, ih hw]

/-! ## Scoped names -/

theorem isPart_of_isScope (h : IsScope scope) : scope ≠ [] ∧ ∀ part ∈ scope, IsPart part := by
  obtain ⟨names, hne, hnames, hscope⟩ := h
  have hparts : ∀ name ∈ names, IsPart name := by
    refine fun name hname => ⟨fun hmem => ?_, List.all_eq_true.1 (hnames name hname).word.2⟩
    have hnoise : ∀ word ∈ noise, (keywords.lookup word).isSome := by decide
    have hsome := hnoise name hmem
    rw [(hnames name hname).free] at hsome
    cases hsome
  rcases hscope with rfl | rfl
  · exact ⟨hne, hparts⟩
  · exact ⟨List.cons_ne_nil _ _, List.forall_mem_cons.2 ⟨⟨by decide, by simp⟩, hparts⟩⟩

theorem toList_joinScope (first second : String) (rest : List String) :
    (Grammar.joinScope (first :: second :: rest)).toList =
      first.toList ++ ':' :: ':' :: (Grammar.joinScope (second :: rest)).toList := by
  simp [Grammar.joinScope, String.intercalate_cons_cons]

theorem dropArguments_joinScope {pieces : List (String × String)}
    (hparts : ∀ piece ∈ pieces, IsPart piece.1) (hargs : ∀ piece ∈ pieces, IsArguments piece.2) :
    dropArguments 0 (Grammar.joinScope (pieces.map fun piece => piece.1 ++ piece.2)).toList =
      (Grammar.joinScope (pieces.map Prod.fst)).toList := by
  induction pieces with
  | nil => rfl
  | cons first rest ih =>
    obtain ⟨hpart, hparts⟩ := List.forall_mem_cons.1 hparts
    obtain ⟨harg, hargs⟩ := List.forall_mem_cons.1 hargs
    have hrest := ih hparts hargs
    cases rest with
    | nil =>
      have hdrop := dropArguments_arguments harg []
      rw [List.append_nil] at hdrop
      simp [Grammar.joinScope, dropArguments_name hpart.chars, hdrop, dropArguments]
    | cons second rest =>
      have hcolons : ∀ cs, dropArguments 0 (':' :: ':' :: cs) = ':' :: ':' :: dropArguments 0 cs :=
        fun _ => rfl
      simp only [List.map_cons, toList_joinScope, String.toList_append, List.append_assoc,
        dropArguments_name hpart.chars, dropArguments_arguments harg, hcolons] at hrest ⊢
      rw [hrest]

/-! ## Reduced spellings -/

theorem spaced_append (hw : ∀ c ∈ w, isNameChar c = true) (cs : List Char) :
    spaced (w ++ cs) = w ++ spaced cs := by
  induction w with
  | nil => rfl
  | cons c w ih =>
    obtain ⟨hc, hw⟩ := List.forall_mem_cons.1 hw
    obtain ⟨hcolon, -, -, hmark⟩ := isNameChar_marks hc
    rw [List.cons_append, spaced, hmark, ih hw]
    · rfl
    · exact fun _ h _ => hcolon h

theorem wordsFrom_append (hw : ∀ c ∈ w, isNameChar c = true) (word cs : List Char) :
    wordsFrom word (w ++ cs) = wordsFrom (word ++ w) cs := by
  induction w generalizing word with
  | nil => rw [List.nil_append, List.append_nil]
  | cons c w ih =>
    obtain ⟨hc, hw⟩ := List.forall_mem_cons.1 hw
    rw [List.cons_append, wordsFrom, isBlank_of_isNameChar hc]
    simp [ih hw, List.append_assoc]

theorem normalize_part (h : IsPart part) : normalize part = part := by
  have hspaced := spaced_append h.chars []
  have hwords := wordsFrom_append h.chars [] []
  rw [List.append_nil] at hspaced hwords
  rw [normalize, hspaced, spaced, List.append_nil, words, hwords, List.nil_append, wordsFrom]
  split
  · next hempty =>
    obtain rfl : part = "" := by simpa using hempty
    rfl
  · simp [join, h.notNoise]

theorem normalize_scope (h : IsPart part) (text : String) :
    normalize (part ++ ("::" ++ text)) = part ++ ("::" ++ normalize text) := by
  have hjoin : ∀ ts, join ("::" :: ts) = "::" ++ join ts := by
    intro ts
    cases ts <;> rfl
  have hwords : ∀ w cs, wordsFrom w (' ' :: ':' :: ':' :: ' ' :: cs) =
      if w.isEmpty then [':', ':'] :: words cs else w :: [':', ':'] :: words cs :=
    fun _ _ => rfl
  have hspaced : spaced (part ++ ("::" ++ text)).toList =
      part.toList ++ ' ' :: ':' :: ':' :: ' ' :: spaced text.toList := by
    rw [String.toList_append, spaced_append h.chars, String.toList_append]
    rfl
  rw [normalize, hspaced, words, wordsFrom_append h.chars, List.nil_append, hwords]
  split
  · next hempty =>
    obtain rfl : part = "" := by simpa using hempty
    rw [String.empty_append]
    exact hjoin _
  · rw [List.map_cons, List.map_cons, String.ofList_toList]
    show join (part :: "::" :: _) = _
    rw [join, if_neg (by simpa using h.notNoise), hjoin]
    simp [joinsLast, normalize]

theorem normalize_joinScope (h : ∀ part ∈ scope, IsPart part) :
    normalize (Grammar.joinScope scope) = Grammar.joinScope scope := by
  unfold Grammar.joinScope
  induction scope with
  | nil => rfl
  | cons first rest ih =>
    obtain ⟨hfirst, hrest⟩ := List.forall_mem_cons.1 h
    cases rest with
    | nil => rw [String.intercalate_singleton, normalize_part hfirst]
    | cons second rest =>
      rw [String.intercalate_cons_cons, String.append_assoc, normalize_scope hfirst, ih hrest]

/-! ## Parts -/

theorem cutAtScope_append (hw : ∀ c ∈ w, isNameChar c = true) (cs : List Char) :
    cutAtScope (w ++ ':' :: ':' :: cs) = w :: cutAtScope cs := by
  induction w with
  | nil => rfl
  | cons c w ih =>
    obtain ⟨hc, hw⟩ := List.forall_mem_cons.1 hw
    rw [List.cons_append, cutAtScope, ih hw]
    · exact fun _ h _ => (isNameChar_marks hc).1 h

theorem cutAtScope_word (hw : ∀ c ∈ w, isNameChar c = true) : cutAtScope w = [w] := by
  induction w with
  | nil => rfl
  | cons c w ih =>
    obtain ⟨hc, hw⟩ := List.forall_mem_cons.1 hw
    rw [cutAtScope, ih hw]
    exact fun _ h _ => (isNameChar_marks hc).1 h

theorem cutAtScope_joinScope (hne : scope ≠ []) (h : ∀ part ∈ scope, IsPart part) :
    cutAtScope (Grammar.joinScope scope).toList = scope.map String.toList := by
  induction scope with
  | nil => exact absurd rfl hne
  | cons first rest ih =>
    obtain ⟨hfirst, hrest⟩ := List.forall_mem_cons.1 h
    cases rest with
    | nil => exact cutAtScope_word hfirst.chars
    | cons second rest =>
      rw [toList_joinScope, cutAtScope_append hfirst.chars, ih (List.cons_ne_nil _ _) hrest,
        ← List.map_cons]

theorem trim_word (hw : ∀ c ∈ w, isNameChar c = true) : trim w = w := by
  have hdrop : ∀ cs : List Char, (∀ c ∈ cs, isNameChar c = true) → cs.dropWhile isBlank = cs := by
    intro cs hcs
    cases cs with
    | nil => rfl
    | cons c cs =>
      rw [List.dropWhile_cons_of_neg]
      simpa using isBlank_of_isNameChar (hcs c List.mem_cons_self)
  rw [trim, trimEnd, trimStart, hdrop w hw, hdrop _ fun c hc => hw c (List.mem_reverse.1 hc),
    List.reverse_reverse]

theorem cutAtScope_scope (h : IsScope scope) :
    (cutAtScope (Grammar.joinScope scope).toList).map String.ofList = scope := by
  obtain ⟨hne, hparts⟩ := isPart_of_isScope h
  rw [cutAtScope_joinScope hne hparts, List.map_map]
  simp

/-- A text is cut into the parts that it has without its template arguments. -/
theorem segments_of_dropArguments (h : IsScope scope) {raw : String}
    (hraw : dropArguments 0 raw.toList = (Grammar.joinScope scope).toList) : segments raw = scope := by
  obtain ⟨hne, hparts⟩ := isPart_of_isScope h
  rw [segments, hraw, String.ofList_toList, normalize_joinScope hparts,
    cutAtScope_joinScope hne hparts, List.map_map]
  conv_rhs => rw [← List.map_id scope]
  refine List.map_congr_left fun part hpart => ?_
  simp [trim_word (hparts part hpart).chars]

theorem segments_joinScope (h : IsScope scope) : segments (Grammar.joinScope scope) = scope := by
  have hparts : ∀ piece ∈ scope.map (·, ""), IsPart piece.1 :=
    List.forall_mem_map.2 (isPart_of_isScope h).2
  have hdrop := dropArguments_joinScope hparts (List.forall_mem_map.2 fun _ _ => .inl rfl)
  refine segments_of_dropArguments h ?_
  simpa [Function.comp_def] using hdrop

/-- **Scoped names survive as text.** The parts of a scoped name are the names that it was joined of,
behind an empty one for a leading `::`, whatever template arguments stand behind them. -/
theorem segments_arguments {pieces : List (String × String)}
    (hargs : ∀ piece ∈ pieces, IsArguments piece.2) (h : IsScope (pieces.map Prod.fst)) :
    segments (Grammar.joinScope (pieces.map fun piece => piece.1 ++ piece.2)) =
      pieces.map Prod.fst :=
  segments_of_dropArguments h
    (dropArguments_joinScope (List.forall_mem_map.1 (isPart_of_isScope h).2) hargs)

theorem segments_arguments_nested :
    segments "::a::Foo<b, c<x>>::Bar" = ["", "a", "Foo", "Bar"] := by
  have hnames : ∀ name ∈ ["a", "Foo", "Bar"], IsName name := by
    simp only [List.forall_mem_cons]
    exact ⟨⟨⟨rfl, rfl⟩, rfl⟩, ⟨⟨rfl, rfl⟩, rfl⟩, ⟨⟨rfl, rfl⟩, rfl⟩, List.forall_mem_nil _⟩
  have hchar {c : Char} {cs : List Char} (hc : (c != '<' && c != '>') = true) (h : Balanced cs) :
      Balanced (c :: cs) := by
    rw [Bool.and_eq_true, bne_iff_ne, bne_iff_ne] at hc
    exact .char hc.1 hc.2 h
  have hinner : Balanced ['b', ',', ' ', 'c', '<', 'x', '>'] :=
    hchar rfl (hchar rfl (hchar rfl (hchar rfl (.group (hchar rfl .nil) .nil))))
  have hargs : ∀ piece ∈ [("", ""), ("a", ""), ("Foo", "<b, c<x>>"), ("Bar", "")],
      IsArguments piece.2 := by
    simp only [List.forall_mem_cons]
    exact ⟨.inl rfl, .inl rfl, .inr ⟨_, hinner, rfl⟩, .inl rfl, List.forall_mem_nil _⟩
  exact (segments_arguments hargs ⟨_, by decide, hnames, .inr rfl⟩ :)

end TypeName

end Serpentine

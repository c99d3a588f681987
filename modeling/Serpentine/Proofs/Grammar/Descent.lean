import Serpentine.Proofs.Grammar.Agreement.Files
import Serpentine.Proofs.Program.Termination

/-!
# Progress and descent

A text agrees with itself. What that says of one parse: its results stand behind a token that was
taken, and it calls the parses of other rules only where fewer tokens are left, or as many and the
rank of the rule is smaller. There is no endless chain of such calls. The limits that the parses
carry, to how deep rules are nested and to how many rounds a loop has, therefore cut nothing off
(**`parse_descends`**).
-/

namespace Serpentine

namespace Grammar

variable {e : Effect} {α : Type} {s t : State}

/-! ## The same text -/

/-- The state, with another bound on the number of characters of the text. -/
def State.withSize (s : State) (size : Nat) : State :=
  { s with stream := { s.stream with size } }

/-- The outcome, with another bound on the number of characters of the text. -/
def Outcome.withSize (size : Nat) : Outcome α → Outcome α
  | .ok a s => .ok a (s.withSize size)
  | .error fault s => .error fault (s.withSize size)

theorem State.Sound.withSize (h : s.Sound) {size : Nat} (hsize : s.stream.size ≤ size) :
    (s.withSize size).Sound where
  fits := ⟨h.fits.splits, h.fits.shr, h.fits.order, h.fits.behind⟩
  counted :=
    { length := fun n => Nat.le_trans (h.counted.length n) hsize
      pos := h.counted.pos
      inside := h.counted.inside }

theorem State.matches_withSize (nested : Prop) (s : State) (size : Nat) :
    s.Matches (.exact nested s.file s.stream.size size) (s.withSize size) where
  file := rfl
  file' := rfl
  size := rfl
  size' := rfl
  names := rfl
  store := .refl s.store
  context := rfl
  templateParams := rfl
  pendingTemplate := rfl
  inTemplateArgs := rfl
  written := False.elim
  stream := ⟨rfl, rfl, rfl, rfl, rfl⟩

/-- A text agrees with itself. -/
theorem State.Sound.abreast (nested : Prop) (h : s.Sound) {size : Nat}
    (hsize : s.stream.size ≤ size) :
    s.Abreast (.exact nested s.file s.stream.size size) (s.withSize size) :=
  { s.matches_withSize nested size with
    sound := h
    sound' := h.withSize hsize
    genuine := False.elim }

theorem State.Matches.eq_withSize {nested : Prop} {file : String} {size size' : Nat}
    (h : s.Matches (.exact nested file size size') t) : t = s.withSize size' := by
  have hsame : (s.withSize size').Matches (.exact nested file size' size') t :=
    { h with
      size := rfl
      stream := ⟨h.stream.scan, h.stream.buffer, h.stream.cursor, h.stream.splits, h.stream.faults⟩ }
  exact hsame.eq.symm

theorem Outcome.Matches.eq_withSize {nested : Prop} {file : String} {size size' : Nat}
    {R : α → α → Prop} {P : α → State → Prop} {o o' : Outcome α}
    (h : o.Matches (.exact nested file size size') R P o')
    (hR : ∀ a a', R a a' → a = a') : o' = o.withSize size' := by
  cases h with
  | ok ha _ hst => exact hR _ _ ha ▸ congrArg (Outcome.ok _) hst.eq_withSize
  | @error fault fault' _ _ hfault _ hst =>
    have hsame : fault.relocate id = fault'.relocate id := hfault
    rw [Fault.relocate_id, Fault.relocate_id] at hsame
    exact hsame ▸ congrArg (Outcome.error _) hst.eq_withSize

theorem Parse.withSize_run (p : Parse e α) (s : State) :
    (p.run s).withSize s.stream.size = p.run s := by
  have hreaches := p.reaches s
  cases hrun : p.run s with
  | ok a t =>
    rw [hrun] at hreaches
    exact congrArg (Outcome.ok a ∘ t.withSize) (Reaches.file_eq hreaches).2.symm
  | error fault t =>
    rw [hrun] at hreaches
    exact congrArg (Outcome.error fault ∘ t.withSize) (Reaches.file_eq hreaches).2.symm

theorem Rule.relocate_id (rule : Rule e α) : rule.relocate id = id := by
  have hexprs : Option.map (Expr.relocate id) = id := funext Stmt.map_relocate_id
  have hparams : ParameterSpec.relocate id = id := funext ParameterSpec.relocate_id
  cases rule with
  | expr | unary => exact funext Expr.relocate_id
  | exprList => exact funext Expr.map_relocate_id
  | declarator =>
    funext d
    simp only [relocate, Declarator.relocate, hexprs, hparams, List.map_id_fun, Option.map_id_fun,
      id_eq]
  | statement => exact funext Stmt.relocate_id
  | _ => rfl

/-! ## Progress -/

theorem Reaches.left_eq (h : Reaches e s t) (hs : s.Sound)
    (hcursor : t.stream.cursor = s.stream.cursor) : t.left = s.left := by
  induction h with
  | refl s => rfl
  | @step _ u _ before change ih =>
    have hbefore := before.cursor_le
    have hafter := (Reaches.single change).cursor_le
    refine Eq.trans ?_ (ih hs (by omega))
    have hu := before.sound hs
    cases change with
    | peek offset => exact u.stream.left_peekAt offset
    | advance => exact Stream.left_of_alike u.stream.tokenAt_advance (by omega) u.stream.size_advance
    | split => exact hu.counted.left_splitShift hu.fits
    | _ => rfl
  | @rewind _ u v before spec ih _ =>
    have hu := before.sound hs
    have hback := (Stream.restore_eq (spec.later hu.fits) hu.fits).2.1
    rw [State.left_restore hu spec]
    exact ih hs (hback.symm.trans hcursor)

/-- The parse takes a token wherever it succeeds. -/
def Parse.Consumes (p : Parse e α) : Prop :=
  ∀ s a t, s.Sound → p.run s = .ok a t → s.stream.cursor < t.stream.cursor ∧ t.left < s.left

/-- A parse that agrees with itself takes the tokens that its results owe. -/
theorem Parse.Agrees.left_lt {R : Matching → α → α → Prop} {O : α → Prop} {p : Parse e α}
    (h : ∀ m n, p.Agrees m n (fun _ => True) (R m) O p) (hs : s.Sound) {a : α}
    (hrun : p.run s = .ok a t) (hO : O a) : t.left < s.left := by
  have houtcome := h _ _ (hs.abreast False (Nat.le_refl _)) (Nat.lt_succ_self _) trivial False.elim
  generalize p.run (s.withSize s.stream.size) = other at houtcome
  rw [hrun] at houtcome
  cases houtcome with
  | ok _ howes _ => exact howes.1 hO

theorem Parse.Agrees.consumes {R : Matching → α → α → Prop} {p : Parse e α}
    (h : ∀ m n, p.Agrees m n (fun _ => True) (R m) (fun _ => True) p) : p.Consumes := by
  intro s a t hs hrun
  have hleft := Parse.Agrees.left_lt h hs hrun trivial
  refine ⟨Nat.lt_of_le_of_ne (p.cursor_le hrun) fun hcursor => ?_, hleft⟩
  exact absurd ((p.reaches_of_ok hrun).left_eq hs hcursor.symm) (Nat.ne_of_lt hleft)

/-- The results of the rules stand behind the tokens that they owe. -/
def Rules.Progress (rules : Rules) : Prop :=
  ∀ ⦃e : Effect⦄ ⦃α : Type⦄ (rule : Rule e α) (s : State) (a : α) (t : State), s.Sound →
    (rules.parse rule).run s = .ok a t → rule.Owes a → t.left < s.left

/-! ## Calls -/

/-- Rules with the same outcomes where fewer tokens than so many are left agree there. -/
theorem Rule.agrees_of_eq {file : String} {size n : Nat} {rules rules' : Rules}
    (hprogress : rules.Progress) (rule : Rule e α)
    (h : ∀ t : State, t.Sound → t.left < n →
      (rules.parse rule).run t = (rules'.parse rule).run t) :
    rule.Agrees (.exact False file size size) n rules rules' := by
  intro s t hst hleft _ _
  obtain rfl := hst.toMatches.eq
  have hself : ∀ u : State, u.file = s.file ∧ u.stream.size = s.stream.size →
      u.Matches (.exact False file size size) u := by
    rintro u ⟨hfile, hsize⟩
    obtain rfl : u.file = file := hfile.trans hst.file
    obtain rfl : u.stream.size = size := hsize.trans hst.size
    exact u.matches_withSize False u.stream.size
  have hreaches := (rules.parse rule).reaches s
  rw [← h s hst.sound hleft]
  cases hrun : (rules.parse rule).run s with
  | ok a u =>
    rw [hrun] at hreaches
    exact .ok ⟨rfl, False.elim⟩ ⟨hprogress rule s a u hst.sound hrun, False.elim⟩ (hself u (Reaches.file_eq hreaches))
  | error fault u =>
    rw [hrun] at hreaches
    exact .error rfl False.elim (hself u (Reaches.file_eq hreaches))

/-- The parse of a rule depends on the parses of rules only where fewer tokens are left, or as many
and the rank is smaller. -/
theorem Rule.body_congr {rules rules' : Rules} (hprogress : rules.Progress) (rule : Rule e α)
    (hs : s.Sound)
    (h : ∀ ⦃e' : Effect⦄ ⦃β : Type⦄ (called : Rule e' β) (t : State), t.Sound →
      (t.left < s.left ∨ t.left = s.left ∧ called.rank < rule.rank) →
        (rules.parse called).run t = (rules'.parse called).run t) :
    (rule.body rules).run s = (rule.body rules').run s := by
  have hbody := rule.agrees_body (m := .exact False s.file s.stream.size s.stream.size)
    (fun _ _ called => called.agrees_of_eq hprogress fun t ht hleft => h called t ht (.inl hleft))
    fun _ _ called hrank => called.agrees_of_eq hprogress fun t ht hleft =>
      h called t ht ((Nat.lt_or_eq_of_le (Nat.le_of_lt_succ hleft)).imp_right fun heq => ⟨heq, hrank⟩)
  have houtcome := hbody (hs.abreast False (Nat.le_refl _)) (Nat.lt_succ_self _) trivial
    False.elim
  have heq := houtcome.eq_withSize fun a a' ha => by
    have hsame : rule.relocate id a = rule.relocate id a' := ha.1
    rwa [rule.relocate_id] at hsame
  exact ((rule.body rules).withSize_run s).symm.trans heq.symm

/-! ## Limits -/

theorem run_declarations (rules : Rules) (close : Kind) (s : State) :
    (declarations rules close).run s =
      (loopWithin (s.stream.size + 2) (fun _ => declarationBefore rules close) ()).run s :=
  rfl

theorem run_fileDeclarations (s : State) :
    fileDeclarations.run s =
      (loopWithin (s.stream.size + 2)
        (fun _ => declarationBefore (.within (depthFor s.stream.size)) .eof) ()).run s :=
  rfl

/-- However deep rules may be nested and however many rounds a loop may have: more than the text
needs changes nothing. -/
theorem run_declarations_within (file text : String) (names : Names) (store : Store)
    {depth size : Nat} (hdepth : depthFor text.length ≤ depth) (hsize : text.length ≤ size) :
    (declarations (.within depth) .eof).run ((State.start file text names store).withSize size) =
      (fileDeclarations.run (State.start file text names store)).withSize size := by
  have hdepths : 3 * min text.length size + 3 ≤ depthFor text.length := by
    unfold depthFor
    omega
  have hagrees : (declarations (.within (depthFor text.length)) .eof).Agrees
      (.exact False file text.length size) (text.length + 1) (fun _ => True) Eq (fun _ => False)
      (declarations (.within depth) .eof) :=
    agrees_declarations_within hdepths (Nat.le_trans hdepths hdepth) .eof
  have hsound := State.sound_start file text names store
  have hstart : (State.start file text names store).stream.size = text.length := rfl
  rw [run_fileDeclarations, ← run_declarations, hstart]
  exact (hagrees (hsound.abreast False hsize) (Nat.lt_succ_of_le hsound.left_le) trivial
    False.elim).eq_withSize fun _ _ h => h

/-- A parse that is given up leaves everything where it began, but for what it declared. -/
theorem State.Sound.checkpoint_speculate {p : Parse e α} (hs : s.Sound)
    (h : (speculate p).run s = .ok none t) :
    t.checkpoint = s.checkpoint ∧ t.stream.tokenAt = s.stream.tokenAt ∧ t.left = s.left := by
  have halike := alike_speculate hs.fits h
  have hreaches := (speculate p).reaches_of_ok h
  refine ⟨?_, halike.stream.tokenAt, hreaches.left_eq hs halike.stream.cursor⟩
  have hmark : t.stream.mark = s.stream.mark := by
    rw [Stream.mark, Stream.mark, halike.stream.cursor, halike.stream.splits]
  unfold speculate at h
  dsimp only at h
  generalize p.run s = outcome at h
  cases outcome with
  | ok a u => cases h
  | error fault u =>
    cases h
    exact congrArg (fun mark => { s.checkpoint with mark }) hmark

/-- **A parse makes progress and comes to its end.** From every state that a parse can be in:
declarations, statements, expressions, types and template arguments take a token, and fewer are
left, an unsplit `>>` counted as two; a parse that is given up is rewound; and the parse of a rule
asks for the parses of rules only where fewer tokens are left, or as many and the rank is smaller.
Every limit to nesting and to the rounds of loops that is as large as the text gives the outcome
that `fileDeclarations` has. -/
theorem parse_descends (file text : String) (names : Names) (store : Store) :
    (∀ depth, (Rules.within depth).declaration.Consumes ∧ (Rules.within depth).statement.Consumes ∧
      (∀ power, ((Rules.within depth).expr power).Consumes) ∧
      (∀ mode, (typeSpec (.within depth) mode).Consumes) ∧
      (Rules.within depth).templateArgs.Consumes) ∧
    (∀ ⦃e : Effect⦄ ⦃α : Type⦄ (p : Parse e α) (s t : State), s.Sound →
      (speculate p).run s = .ok none t → t.checkpoint = s.checkpoint ∧
        t.stream.tokenAt = s.stream.tokenAt ∧ t.left = s.left) ∧
    (∀ ⦃e : Effect⦄ ⦃α : Type⦄ (rule : Rule e α) (rules rules' : Rules) (s : State), s.Sound →
      rules.Progress → (∀ ⦃e' : Effect⦄ ⦃β : Type⦄ (called : Rule e' β) (t : State), t.Sound →
        (t.left < s.left ∨ t.left = s.left ∧ called.rank < rule.rank) →
          (rules.parse called).run t = (rules'.parse called).run t) →
      (rule.body rules).run s = (rule.body rules').run s) ∧
    ∀ depth size, depthFor text.length ≤ depth → text.length ≤ size →
      (declarations (.within depth) .eof).run ((State.start file text names store).withSize size) =
        (fileDeclarations.run (State.start file text names store)).withSize size := by
  refine ⟨fun depth => ⟨?_, ?_, fun power => ?_, fun mode => ?_, ?_⟩, ?_, ?_, ?_⟩
  · exact Parse.Agrees.consumes fun _ n => (Rules.agree_within depth n).declaration
  · exact Parse.Agrees.consumes fun _ n => Rules.agree_within depth n .statement
  · exact Parse.Agrees.consumes fun _ n => Rules.agree_within depth n (.expr power)
  · exact Parse.Agrees.consumes fun _ n =>
      (agrees_typeSpec (Rules.agree_within depth n) mode).below
  · exact Parse.Agrees.consumes fun _ n => (Rules.agree_within depth n).templateArgs
  · exact fun _ _ p s t hs hrun => hs.checkpoint_speculate hrun
  · exact fun _ _ rule rules rules' s hs hprogress h => rule.body_congr hprogress hs h
  · exact fun _ _ hdepth hsize => run_declarations_within file text names store hdepth hsize

end Grammar

/-- A lookup that waits for a search which waits for itself has no result. -/
theorem Store.findQualified_eq_none {s : Store} {cls : DeclId} {scope : DeclId}
    {segments : List String} (hfirst : (s.qualifiedSearch scope segments).first? = some cls)
    (hloop : Relation.TransGen s.Awaits cls cls) : s.findQualified scope segments = none := by
  by_contra hne
  have hsome : (s.findQualified scope segments).isSome := Option.isSome_iff_ne_none.2 hne
  have hfound := (Search.isSome_run_iff _).1 hsome cls (Search.asks_of_first? hfirst)
  exact (isSome_findBase_iff cls).1 hfound cls .refl hloop

/-- The question whether `A::C` is a class, which the parse of `A::C x;` behind the definition asks,
has no answer. -/
theorem Store.findQualified_undefinedMember :
    Store.selfDerived.findQualified Store.root ["A", "C"] = none := by
  have hmember : (selfDerived.qualifiedSearch root ["A", "C"]).first? = some 1 := by decide +kernel
  have hbase : (selfDerived.baseSearch 1).first? = some 1 := by decide +kernel
  exact findQualified_eq_none hmember (.single (Search.asks_of_first? hbase))

end Serpentine

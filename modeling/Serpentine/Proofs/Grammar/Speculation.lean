import Serpentine.Grammar.Unit
import Serpentine.Proofs.Program.Edits

/-!
# What a speculation leaves behind

A parse that is given up goes back to its tokens and scopes, but nothing takes back what it built. A
parse that may build nothing leaves the program as it was. The one speculation that may build, of a
declaration in a block, leaves it as it was exactly if no class or enumeration is opened
(**`speculation_sameProgram_iff`**).
-/

namespace Serpentine

/-- Programs that differ in the count of uses of names at most. -/
structure Store.SameProgram (s t : Store) : Prop where
  decls : t.decls = s.decls
  notices : t.notices = s.notices
  refs : s.nextRef ≤ t.nextRef

namespace Store.SameProgram

variable {s t u : Store}

theorem refl (s : Store) : s.SameProgram s :=
  ⟨rfl, rfl, Nat.le_refl _⟩

theorem trans (hst : s.SameProgram t) (htu : t.SameProgram u) : s.SameProgram u :=
  ⟨htu.decls.trans hst.decls, htu.notices.trans hst.notices, Nat.le_trans hst.refs htu.refs⟩

theorem entity? (h : s.SameProgram t) (id : DeclId) : t.entity? id = s.entity? id := by
  rw [Store.entity?, Store.entity?, h.decls]

theorem routine? (h : s.SameProgram t) (id : DeclId) : t.routine? id = s.routine? id := by
  rw [Store.routine?, Store.routine?, h.entity?]

end Store.SameProgram

namespace Grammar

variable {e : Effect} {α β : Type} {s t : State}

/-! ## The program under a parse -/

theorem Change.sameProgram (he : e ≤ .name) (h : Change e s t) :
    s.store.SameProgram t.store ∧ t.context = s.context := by
  have hnot : ¬ .declare ≤ e := fun hle => absurd (Nat.le_trans hle he) (by decide)
  cases h with
  | refer => exact ⟨⟨rfl, rfl, Nat.le_succ _⟩, rfl⟩
  | templateParams h | context h | build h => exact absurd h hnot
  | _ => exact ⟨.refl _, rfl⟩

theorem Reaches.sameProgram (he : e ≤ .name) (h : Reaches e s t) :
    s.store.SameProgram t.store ∧ t.context = s.context := by
  induction h with
  | refl s => exact ⟨.refl _, rfl⟩
  | step _ change ih =>
    obtain ⟨hstore, hcontext⟩ := change.sameProgram he
    exact ⟨ih.1.trans hstore, hcontext.trans ih.2⟩
  | rewind _ _ before spec => exact ⟨before.1.trans spec.1, before.2⟩

theorem Change.size_le (h : Change e s t) : s.store.decls.size ≤ t.store.decls.size := by
  cases h with
  | build _ op hb => exact op.size_le hb
  | _ => exact Nat.le_refl _

theorem Reaches.size_le (h : Reaches e s t) : s.store.decls.size ≤ t.store.decls.size := by
  induction h with
  | refl s => exact Nat.le_refl _
  | step _ change ih => exact Nat.le_trans ih change.size_le
  | rewind _ _ before spec => exact Nat.le_trans before spec

namespace Parse

theorem sameProgram (he : e ≤ .name) (p : Parse e α) (s : State) :
    s.store.SameProgram (p.run s).state.store :=
  ((p.reaches s).sameProgram he).1

theorem size_le (p : Parse e α) (s : State) :
    s.store.decls.size ≤ (p.run s).state.store.decls.size :=
  (p.reaches s).size_le

theorem size_le_bind (p : Parse e α) (next : α → Parse e β) (s : State) :
    (p.run s).state.store.decls.size ≤ ((p >>= next).run s).state.store.decls.size := by
  rw [run_bind]
  cases p.run s with
  | ok a t => exact (next a).size_le t
  | error fault t => exact Nat.le_refl _

end Parse

theorem store_speculate (p : Parse e α) (s : State) :
    ((speculate p).run s).state.store = (p.run s).state.store := by
  unfold speculate
  dsimp only
  cases p.run s <;> rfl

/-! ## Declarations in a block -/

/-- The declaration in which the declaration in front opens a class or enumeration. -/
def definitionOwner? (rules : Rules) (s : State) : Option DeclId :=
  match (blockHead rules).run s with
  | .ok head _ => head.owner?
  | .error .. => none

theorem sameProgram_complete (rules : Rules) {head : TypeHead} (h : head.owner? = none)
    (s : State) : s.store.SameProgram ((head.complete rules).run s).state.store := by
  cases head with
  | plain spec => exact .refl _
  | classUse segments => exact (useClass segments).sameProgram (by decide) s
  | specialisation segments => exact (skipSpecialisation segments).sameProgram (by decide) s
  | enumUse name => exact (useEnum name).sameProgram (by decide) s
  | classDefinition | enumDefinition => cases h

theorem size_lt_build_add (parent : DeclId) (name : Option String) (entity : Entity)
    (place : Position) (next : DeclId → Parse .declare β) (s : State) :
    s.store.decls.size <
      ((build (.add parent name entity place) >>= next).run s).state.store.decls.size := by
  refine Nat.lt_of_lt_of_le ?_ (Parse.size_le_bind _ next s)
  show s.store.decls.size < (s.store.add parent name entity place).2.decls.size
  rw [s.store.size_add]
  exact Nat.lt_succ_self _

theorem size_lt_complete (rules : Rules) {head : TypeHead} {owner : DeclId}
    (h : head.owner? = some owner) (s : State) :
    s.store.decls.size < ((head.complete rules).run s).state.store.decls.size := by
  cases head with
  | classDefinition key owner name bases place => exact size_lt_build_add ..
  | enumDefinition owner name isScoped place => exact size_lt_build_add ..
  | plain | classUse | specialisation | enumUse => cases h

/-- A declaration in a block leaves the program as it was exactly if it opens no definition. -/
theorem sameProgram_blockDeclaration_iff (rules : Rules) (s : State) :
    s.store.SameProgram ((blockDeclaration rules).run s).state.store ↔
      definitionOwner? rules s = none := by
  have hhead := (blockHead rules).sameProgram (by decide) s
  have hrun : (blockDeclaration rules).run s =
      ((blockHead rules).run s).bind fun head t =>
        (head.complete rules >>= fun spec => liftM (localDecls rules spec)).run t := rfl
  rw [definitionOwner?, hrun]
  generalize (blockHead rules).run s = outcome at hhead ⊢
  cases outcome with
  | error fault t => exact iff_of_true hhead rfl
  | ok head t =>
    simp only [Outcome.bind, Outcome.state] at hhead ⊢
    cases hdef : head.owner? with
    | none =>
      refine iff_of_true (hhead.trans ?_) rfl
      have hspec := sameProgram_complete rules hdef t
      rw [Parse.run_bind]
      generalize (head.complete rules).run t = outcome at hspec ⊢
      cases outcome with
      | error fault u => exact hspec
      | ok spec u => exact hspec.trans ((localDecls rules spec).sameProgram (by decide) u)
    | some owner =>
      refine iff_of_false (fun hsame => ?_) (Option.some_ne_none owner)
      have hlt := Nat.lt_of_lt_of_le (size_lt_complete rules hdef t)
        (Parse.size_le_bind _ (fun spec => liftM (localDecls rules spec)) t)
      have hsize := congrArg Array.size (hsame.decls.trans hhead.decls.symm)
      exact absurd hsize (Nat.ne_of_gt hlt)

/-! ## Where definitions are opened -/

/-- All results of a parse are as described. -/
def Parse.Yields (p : Parse e α) (s : State) (Q : α → Prop) : Prop :=
  ∀ a t, p.run s = .ok a t → Q a

theorem Parse.yields_bind {program : Store} {p : Parse .look α} {next : α → Parse .look β}
    {Q : β → Prop} (hs : program.SameProgram s.store)
    (h : ∀ a t, program.SameProgram t.store → (next a).Yields t Q) : (p >>= next).Yields s Q := by
  intro b u hrun
  have hp := p.sameProgram (by decide) s
  rw [Parse.run_bind] at hrun
  generalize p.run s = outcome at hp hrun
  cases outcome with
  | error fault t => cases hrun
  | ok a t => exact h a t (hs.trans hp) b u hrun

theorem Parse.yields_pure {a : α} {Q : α → Prop} (h : Q a) :
    (pure a : Parse .look α).Yields s Q := by
  rintro _ _ ⟨⟩
  exact h

theorem yields_unexpected (what : String) (Q : α → Prop) :
    (unexpected what : Parse .look α).Yields s Q := by
  rintro _ _ ⟨⟩

/-- A definition that is opened is in no routine. -/
def TypeHead.OutsideRoutines (program : Store) (head : TypeHead) : Prop :=
  ∀ owner, head.owner? = some owner → program.routine? owner = none

variable {program : Store}

/-- Behind the check that a declaration is no routine a definition may be opened there. -/
theorem yields_unlessRoutine (hs : program.SameProgram s.store) (owner : DeclId)
    (construct : String) (place : Position) (head : TypeHead) (hhead : head.owner? = some owner) :
    (do if ← inRoutine owner then unsupported construct place else return head :
      Parse .look TypeHead).Yields s (·.OutsideRoutines program) := by
  intro head' t hrun
  have hinside : (inRoutine owner).run s = .ok (s.store.routine? owner).isSome s := rfl
  rw [Parse.run_bind, hinside, Outcome.bind, hs.routine?] at hrun
  cases hroutine : program.routine? owner with
  | some r =>
    rw [hroutine] at hrun
    cases hrun
  | none =>
    rw [hroutine] at hrun
    cases hrun
    intro other hother
    rw [← Option.some.inj (hhead.symm.trans hother)]
    exact hroutine

theorem yields_classUse (segments : Option (List String)) :
    (classUse segments).Yields s (·.OutsideRoutines program) := by
  cases segments with
  | none => exact yields_unexpected _ _
  | some segments => exact Parse.yields_pure (by rintro _ ⟨⟩)

theorem yields_classBehindName (rules : Rules) (key : ClassKey) (segments : Option (List String))
    (place : Position) (hs : program.SameProgram s.store) :
    (classBehindName rules key segments place).Yields s (·.OutsideRoutines program) := by
  refine Parse.yields_bind hs fun _ t ht => ?_
  refine Parse.yields_bind ht fun bases t ht => ?_
  cases bases with
  | none => exact yields_classUse segments
  | some bases =>
    refine Parse.yields_bind ht fun opens t ht => ?_
    cases opens with
    | false => exact yields_classUse segments
    | true =>
      refine Parse.yields_bind ht fun (owner, name) t ht => ?_
      exact yields_unlessRoutine ht owner _ place _ rfl

theorem yields_classHead (rules : Rules) (hs : program.SameProgram s.store) :
    (classHead rules).Yields s (·.OutsideRoutines program) := by
  refine Parse.yields_bind hs fun place t ht => ?_
  refine Parse.yields_bind ht fun first t ht => ?_
  refine Parse.yields_bind ht fun named t ht => ?_
  cases named with
  | false => exact yields_classBehindName rules _ none place ht
  | true =>
    refine Parse.yields_bind ht fun segments t ht => ?_
    refine Parse.yields_bind ht fun angles t ht => ?_
    cases angles with
    | false => exact yields_classBehindName rules _ (some segments) place ht
    | true =>
      refine Parse.yields_bind ht fun _ t ht => ?_
      refine Parse.yields_bind ht fun special t ht => ?_
      cases special with
      | true => exact Parse.yields_pure (by rintro _ ⟨⟩)
      | false => exact yields_classBehindName rules _ (some segments) place ht

theorem yields_enumBehindName (name : Option String) (isScoped : Bool) (place : Position)
    (hs : program.SameProgram s.store) :
    (enumBehindName name isScoped place).Yields s (·.OutsideRoutines program) := by
  refine Parse.yields_bind hs fun opens t ht => ?_
  cases opens with
  | true =>
    refine Parse.yields_bind ht fun here t ht => ?_
    exact yields_unlessRoutine ht here.context _ place _ rfl
  | false =>
    cases name with
    | none => exact yields_unexpected _ _
    | some name => exact Parse.yields_pure (by rintro _ ⟨⟩)

theorem yields_enumHead (rules : Rules) (hs : program.SameProgram s.store) :
    (enumHead rules).Yields s (·.OutsideRoutines program) := by
  refine Parse.yields_bind hs fun place t ht => ?_
  refine Parse.yields_bind ht fun _ t ht => ?_
  refine Parse.yields_bind ht fun isScoped t ht => ?_
  refine Parse.yields_bind ht fun name t ht => ?_
  refine Parse.yields_bind ht fun _ t ht => ?_
  exact yields_enumBehindName name isScoped place ht

theorem yields_blockHead (rules : Rules) (s : State) :
    (blockHead rules).Yields s (·.OutsideRoutines s.store) := by
  refine Parse.yields_bind (.refl _) fun _ t ht => ?_
  refine Parse.yields_bind ht fun first t ht => ?_
  split
  · exact yields_classHead rules ht
  · exact yields_classHead rules ht
  · exact yields_classHead rules ht
  · exact yields_enumHead rules ht
  · exact Parse.yields_bind ht fun spec t _ => Parse.yields_pure (by rintro _ ⟨⟩)

theorem routine?_definitionOwner {rules : Rules} {s : State} {owner : DeclId}
    (h : definitionOwner? rules s = some owner) : s.store.routine? owner = none := by
  rw [definitionOwner?] at h
  split at h
  · next head t hrun => exact yields_blockHead rules s head t hrun owner h
  · cases h

/-! ## Speculation -/

/-- **What speculations leave behind**: after a parse that builds nothing the program is as it was,
whether the parse was given up or not. A declaration in a block leaves it as it was exactly if it
opens no class or enumeration; and those that it opens are in declarations that are no routines. -/
theorem speculation_sameProgram_iff (rules : Rules) (s : State) :
    (∀ {α : Type} (p : Parse .look α), s.store.SameProgram ((attempt p).run s).state.store) ∧
      (s.store.SameProgram ((speculate (blockDeclaration rules)).run s).state.store ↔
        definitionOwner? rules s = none) ∧
      ∀ owner, definitionOwner? rules s = some owner → s.store.routine? owner = none := by
  refine ⟨fun p => (attempt p).sameProgram (by decide) s, ?_, fun _ => routine?_definitionOwner⟩
  rw [store_speculate]
  exact sameProgram_blockDeclaration_iff rules s

/-- A routine beside an empty namespace `N`, and in it a declaration that ends in a fault. -/
def beforeStrayClass : State :=
  let place : Position := ⟨"p.cpp", 1, none⟩
  let head : RoutineSpec := ⟨[], "void", false, false, false, true⟩
  let program := ((Store.empty "root").addModule Store.root "N" place).2
  let (routine, program) := program.addRoutine .function Store.root "f" head place
  let start := State.start "p.cpp" "static struct N::Y \x7b int a; \x7d 5; \x7d" .empty program
  { start with context := routine }

/-- The class of a declaration that is given up stays in the namespace, and in the program that is
made of the whole file. -/
theorem speculate_strayClass :
    (∃ t, (speculate (blockDeclaration (.within 64))).run beforeStrayClass = .ok none t ∧
      ¬ beforeStrayClass.store.SameProgram t.store) ∧
    (parseFile .empty (.empty "root") "p.cpp"
      "namespace N \x7b \x7d void f() \x7b static struct N::Y \x7b int a; \x7d 5; \x7d").2.decls.map
        Declaration.name = #[some "root", some "N", some "f", some "Y", some "a"] := by
  refine ⟨?_, by decide +kernel⟩
  have hgiven : (match (blockDeclaration (.within 64)).run beforeStrayClass with
      | .ok .. => true
      | .error .. => false) = false := by decide +kernel
  have howner : definitionOwner? (.within 64) beforeStrayClass = some 1 := by decide +kernel
  have hsame := mt (sameProgram_blockDeclaration_iff (.within 64) beforeStrayClass).1
    (by simp [howner])
  rw [speculate]
  dsimp only
  generalize (blockDeclaration (.within 64)).run beforeStrayClass = outcome at hgiven hsame ⊢
  cases outcome with
  | ok locals t => cases hgiven
  | error fault t => exact ⟨_, rfl, hsame⟩

end Grammar

end Serpentine

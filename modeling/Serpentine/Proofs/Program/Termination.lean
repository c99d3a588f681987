import Mathlib.Data.List.Perm.Subperm
import Mathlib.Logic.Relation
import Serpentine.Grammar.Unit

/-!
# Searches that end

The name of a base class is searched for around its class, and this search may have to wait for
those of other base classes. A search that comes to wait for itself never ends, and this is the only
way in which a search does not end (**`Store.searches_end_iff`**).
-/

namespace Serpentine

open Relation

/-! ## The way outwards -/

namespace Store

theorem ancestorsWithin_eq (s : Store) {n m : Nat} {id : DeclId} (hn : id < n) (hm : id < m) :
    s.ancestorsWithin n id = s.ancestorsWithin m id := by
  induction n generalizing m id with
  | zero => exact absurd hn (Nat.not_lt_zero id)
  | succ n ih =>
    obtain ⟨m, rfl⟩ := Nat.exists_eq_succ_of_ne_zero (Nat.ne_zero_of_lt hm)
    rw [ancestorsWithin, ancestorsWithin]
    cases hp : s.parent? id with
    | none => rfl
    | some parent =>
      have hlt : parent < id := s.nested id parent hp
      exact congrArg (id :: ·) (ih (Nat.lt_of_lt_of_le hlt (Nat.le_of_lt_succ hn))
        (Nat.lt_of_lt_of_le hlt (Nat.le_of_lt_succ hm)))

theorem ancestors_eq (s : Store) (id : DeclId) :
    s.ancestors id = id :: ((s.parent? id).map s.ancestors).getD [] := by
  rw [ancestors, ancestorsWithin]
  cases hp : s.parent? id with
  | none => rfl
  | some parent =>
    have hlt : parent < id := s.nested id parent hp
    exact congrArg (id :: ·) (s.ancestorsWithin_eq hlt (Nat.lt_succ_self parent))

end Store

/-! ## What a search waits for -/

namespace Search

variable {α : Type} {base : DeclId → Option (Option DeclId)}

/-- A search asks for the base of a class. -/
inductive Asks (base : DeclId → Option (Option DeclId)) : Search α → DeclId → Prop where
  | here (cls : DeclId) (next : Option DeclId → Search α) : Asks base (.ask cls next) cls
  | later {cls c : DeclId} {next : Option DeclId → Search α} {b : Option DeclId}
      (hb : base cls = some b) (h : Asks base (next b) c) : Asks base (.ask cls next) c

variable {search : Search α}

theorem Asks.mono {base' : DeclId → Option (Option DeclId)} {c : DeclId}
    (h : search.Asks base c) (hle : ∀ c b, base c = some b → base' c = some b) :
    search.Asks base' c := by
  induction h with
  | here cls next => exact .here cls next
  | later hb _ ih => exact .later (hle _ _ hb) ih

/-- A search has a result exactly if all that it asks for have one. -/
theorem isSome_run_iff (search : Search α) :
    (search.run base).isSome ↔ ∀ c, search.Asks base c → (base c).isSome := by
  induction search with
  | done a => exact iff_of_true rfl fun c h => nomatch h
  | ask cls next ih =>
    cases hb : base cls with
    | none =>
      refine iff_of_false (by simp [run, hb]) fun h => ?_
      have hsome := h cls (.here cls next)
      simp [hb] at hsome
    | some b =>
      have hrun : (Search.ask cls next).run base = (next b).run base := by simp [run, hb]
      rw [hrun, ih b]
      constructor
      · intro h c hc
        cases hc with
        | here => simp [hb]
        | later hb' hc => exact h c (Option.some.inj (hb.symm.trans hb') ▸ hc)
      · exact fun h c hc => h c (.later hb hc)

/-- A search that has a result got results for all that it asks for, also by a better way to find
base classes. -/
theorem isSome_of_asks {base' : DeclId → Option (Option DeclId)} {a : α}
    (hle : ∀ c b, base c = some b → base' c = some b) (hrun : search.run base = some a)
    {c : DeclId} (hc : search.Asks base' c) : (base c).isSome := by
  induction hc with
  | here cls next =>
    obtain ⟨b, hb, -⟩ := Option.bind_eq_some_iff.1 hrun
    rw [hb]
    rfl
  | later hb' _ ih =>
    obtain ⟨b, hb, hnext⟩ := Option.bind_eq_some_iff.1 hrun
    obtain rfl := Option.some.inj (hb'.symm.trans (hle _ b hb))
    exact ih hnext

/-- The base class that a search asks for first. -/
def first? : Search α → Option DeclId
  | .done _ => none
  | .ask cls _ => some cls

variable {cls : DeclId}

theorem asks_of_first? (h : search.first? = some cls) :
    search.Asks base cls := by
  cases search with
  | done a => cases h
  | ask _ next =>
    cases h
    exact .here cls next

end Search

namespace Store

variable {s : Store}

/-- The search for the base of a class waits for that of another one. -/
def Awaits (s : Store) (cls c : DeclId) : Prop :=
  (s.baseSearch cls).Asks s.findBase c

theorem Awaits.lt_size {cls c : DeclId} (h : s.Awaits cls c) : cls < s.decls.size := by
  by_contra hge
  have hentity : s.entity? cls = none := by
    rw [entity?, Array.getElem?_eq_none (Nat.le_of_not_lt hge), Option.map_none]
  have hname : s.superclassName? cls = none := by
    rw [superclassName?, class?, hentity]
    rfl
  rw [Awaits, baseSearch, hname] at h
  nomatch h

theorem baseWithin_succ (s : Store) (n : Nat) (cls : DeclId) :
    s.baseWithin (n + 1) cls = (s.baseSearch cls).run (s.baseWithin n) :=
  rfl

theorem baseWithin_mono {n m : Nat} (hle : n ≤ m) {b : Option DeclId}
    (h : s.baseWithin n cls = some b) : s.baseWithin m cls = some b := by
  induction n generalizing m cls b with
  | zero => cases h
  | succ n ih =>
    obtain ⟨m, rfl⟩ := Nat.exists_eq_succ_of_ne_zero (Nat.ne_zero_of_lt hle)
    exact Search.run_mono (fun c b hc => ih (Nat.le_of_succ_le_succ hle) hc) h

/-- What is waited for by a search that has a result has one. -/
theorem isSome_of_awaits {n : Nat} (hle : n ≤ s.maxWaiting) {cls c : DeclId} {b : Option DeclId}
    (h : s.baseWithin (n + 1) cls = some b) (hc : s.Awaits cls c) : (s.baseWithin n c).isSome :=
  Search.isSome_of_asks (fun _ _ => baseWithin_mono hle) h hc

/-- A search that has a result does not wait for itself. -/
theorem not_awaits_self {n : Nat} (hle : n ≤ s.maxWaiting)
    (h : (s.baseWithin n cls).isSome) : ¬ TransGen s.Awaits cls cls := by
  induction n generalizing cls with
  | zero => cases h
  | succ n ih =>
    -- The searches of a circle have no results as long as those that they wait for have none.
    intro hloop
    obtain ⟨b, hb⟩ := Option.isSome_iff_exists.1 h
    obtain ⟨c, hfirst, hrest⟩ := TransGen.head'_iff.1 hloop
    exact ih (Nat.le_of_succ_le hle) (isSome_of_awaits (Nat.le_of_succ_le hle) hb hfirst)
      (.tail' hrest hfirst)

/-- Searches that wait for each other without a circle are no more than there are declarations, so
the last of them has a result. -/
theorem isSome_baseWithin
    (hloops : ∀ c, ReflTransGen s.Awaits cls c → ¬ TransGen s.Awaits c c) {n : Nat}
    (hle : n ≤ s.maxWaiting) {waiting : List DeclId} (hnodup : waiting.Nodup)
    (hwaiting : ∀ c ∈ waiting, c < s.decls.size ∧ TransGen s.Awaits c cls)
    (hn : s.decls.size < n + waiting.length) : (s.baseWithin n cls).isSome := by
  induction n generalizing cls waiting with
  | zero =>
    have hsub : waiting ⊆ List.range s.decls.size := fun c hc =>
      List.mem_range.2 (hwaiting c hc).1
    have hlength := (hnodup.subperm hsub).length_le
    rw [List.length_range] at hlength
    omega
  | succ n ih =>
    refine (Search.isSome_run_iff _).2 fun c hc => ?_
    have hawaits : s.Awaits cls c :=
      hc.mono fun _ _ => baseWithin_mono (Nat.le_of_succ_le hle)
    refine ih (fun d hd => hloops d (.head hawaits hd)) (Nat.le_of_succ_le hle)
      (List.nodup_cons.2 ⟨fun hmem => hloops cls .refl (hwaiting cls hmem).2, hnodup⟩) ?_ ?_
    · intro d hd
      rcases List.mem_cons.1 hd with rfl | hd
      · exact ⟨hawaits.lt_size, .single hawaits⟩
      · exact ⟨(hwaiting d hd).1, (hwaiting d hd).2.tail hawaits⟩
    · rw [List.length_cons]
      omega

theorem exists_isSome_of_awaits {n : Nat} (hle : n ≤ s.maxWaiting) {cls c : DeclId}
    (h : (s.baseWithin n cls).isSome) (hc : ReflTransGen s.Awaits cls c) :
    ∃ m ≤ n, (s.baseWithin m c).isSome := by
  induction hc with
  | refl => exact ⟨n, Nat.le_refl n, h⟩
  | tail _ hstep ih =>
    obtain ⟨m, hm, hsome⟩ := ih
    obtain ⟨b, hb⟩ := Option.isSome_iff_exists.1 hsome
    cases m with
    | zero => cases hb
    | succ m =>
      have hm' : m ≤ n := Nat.le_of_succ_le hm
      exact ⟨m, hm', isSome_of_awaits (Nat.le_trans hm' hle) hb hstep⟩

/-- **Base classes that are found**: the search for a base class has a result exactly if no search
that it waits for, however indirectly, waits for itself. -/
theorem isSome_findBase_iff (cls : DeclId) :
    (s.findBase cls).isSome ↔
      ∀ c, ReflTransGen s.Awaits cls c → ¬ TransGen s.Awaits c c := by
  constructor
  · intro h c hc
    obtain ⟨m, hm, hsome⟩ := exists_isSome_of_awaits (Nat.le_refl _) h hc
    exact not_awaits_self hm hsome
  · intro hloops
    have hsize : s.decls.size < s.maxWaiting := Nat.lt_add_of_pos_right (by decide)
    exact isSome_baseWithin hloops (Nat.le_refl _) List.nodup_nil (fun _ h => nomatch h) hsize

/-- The count of searches that may wait cuts no search off: each goes on with the results of those
that it waits for. -/
theorem findBase_eq (cls : DeclId) : s.findBase cls = (s.baseSearch cls).run s.findBase := by
  have hfind : s.findBase = s.baseWithin s.maxWaiting := by
    funext c
    rw [findBase]
  cases hfound : s.findBase cls with
  | some b =>
    rw [hfind] at hfound ⊢
    rw [← baseWithin_succ, baseWithin_mono (Nat.le_add_right s.maxWaiting 1) hfound]
  | none =>
    by_contra hne
    have hasked := (Search.isSome_run_iff _).1 (Option.isSome_iff_ne_none.2 (Ne.symm hne))
    have hloops : ∀ c, ReflTransGen s.Awaits cls c → ¬ TransGen s.Awaits c c := by
      intro c hc hloop
      rcases ReflTransGen.cases_head hc with rfl | ⟨d, hfirst, hrest⟩
      · obtain ⟨d, hfirst, hrest⟩ := TransGen.head'_iff.1 hloop
        exact (isSome_findBase_iff d).1 (hasked d hfirst) d .refl (.tail' hrest hfirst)
      · exact (isSome_findBase_iff d).1 (hasked d hfirst) c hrest hloop
    have hsome := (isSome_findBase_iff cls).2 hloops
    rw [hfound] at hsome
    cases hsome

/-! ## All searches -/

/-- **Searches that end**: the way outwards from a declaration always ends, and no count cuts a
search off. All searches in a program, from any declaration and for any name, have results exactly
if no search for a base class waits for itself. -/
theorem searches_end_iff (s : Store) :
    (∀ id, s.ancestors id = id :: ((s.parent? id).map s.ancestors).getD []) ∧
      (∀ cls, s.findBase cls = (s.baseSearch cls).run s.findBase) ∧
      (((∀ id name, (s.findMember id name).isSome) ∧ (∀ cls, (s.findBase cls).isSome) ∧
        (∀ scope segments, (s.findQualified scope segments).isSome) ∧
          ∀ scope name, (s.findLexical scope name).isSome) ↔
        ∀ cls, ¬ TransGen s.Awaits cls cls) := by
  refine ⟨s.ancestors_eq, findBase_eq, fun h cls => ?_, fun hloops => ?_⟩
  · exact (isSome_findBase_iff cls).1 (h.2.1 cls) cls .refl
  · have hbase (cls : DeclId) : (s.findBase cls).isSome :=
      (isSome_findBase_iff cls).2 fun c _ => hloops c
    have hrun {α : Type} (search : Search α) : (search.run s.findBase).isSome :=
      search.isSome_run_iff.2 fun c _ => hbase c
    exact ⟨fun _ _ => hrun _, hbase, fun _ _ => hrun _, fun _ _ => hrun _⟩

/-- The program of a file with a class that is derived from a member of its own. -/
def selfDerived : Store :=
  (Grammar.parseFile .empty (.empty "main") "t.cpp" "struct A : A::B \x7b \x7d;").2

/-- The search for the member waits for the base class, the search for which waits for itself. -/
theorem findQualified_selfDerived : selfDerived.findQualified root ["A", "B"] = none := by
  have hmember : (selfDerived.qualifiedSearch root ["A", "B"]).first? = some 1 := by decide +kernel
  have hbase : (selfDerived.baseSearch 1).first? = some 1 := by decide +kernel
  have hloop : TransGen selfDerived.Awaits 1 1 := .single (Search.asks_of_first? hbase)
  by_contra hne
  have hsome : (selfDerived.findQualified root ["A", "B"]).isSome := Option.isSome_iff_ne_none.2 hne
  have hfound := (Search.isSome_run_iff _).1 hsome 1 (Search.asks_of_first? hmember)
  exact (isSome_findBase_iff 1).1 hfound 1 .refl hloop

end Store

end Serpentine

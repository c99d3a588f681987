import Serpentine.Proofs.Grammar.Matching

/-!
# Parses in agreement

The same parse of two texts of the same words gives results that differ in places only, or fails in
both for the same reason. Here are the steps that parses are made of. Each rule carries a bound on
the tokens that are left: a parse that calls itself only behind a token that it takes may be assumed
to agree where fewer are left, and a loop that takes a token in each round ends in both texts before
its rounds run out. Where wording is followed, results and changes of the program are worded too.
-/

namespace Serpentine

variable {α β : Type}

/-! ## Results -/

namespace Matching

/-- Results that a function takes to the same, and that are worded. -/
abbrev Under (m : Matching) (g : α → β) (P : α → Prop) (a a' : α) : Prop :=
  g a = g a' ∧ (m.worded → P a)

/-- The same result, which is worded. -/
abbrev Equal (m : Matching) (P : α → Prop) (a a' : α) : Prop :=
  a = a' ∧ (m.worded → P a)

abbrev UnderOption (m : Matching) (g : α → β) (P : α → Prop) : Option α → Option α → Prop :=
  m.Under (Option.map g) fun a? => ∀ a ∈ a?, P a

abbrev UnderList (m : Matching) (g : α → β) (P : α → Prop) : List α → List α → Prop :=
  m.Under (List.map g) fun l => ∀ a ∈ l, P a

/-- Expressions that look the same and are worded. -/
abbrev SameExpr (m : Matching) : Expr → Expr → Prop :=
  m.Under (Expr.relocate m.see) (Expr.Worded m.words)

/-- The next tokens of both texts, which are of some kinds. -/
structure Taken (m : Matching) (K : Kind → Prop) (a b : Token) : Prop where
  same : m.Tokens a b
  kind : K a.kind
  genuine : m.worded → a.Genuine

variable {m : Matching} {g : α → β} {P : α → Prop}

theorem underList_nil : m.UnderList g P [] [] :=
  ⟨rfl, fun _ => List.forall_mem_nil _⟩

variable {l l' : List α}

theorem underList_cons {a a' : α} (ha : m.Under g P a a')
    (hl : m.UnderList g P l l') : m.UnderList g P (a :: l) (a' :: l') :=
  ⟨congrArg₂ List.cons ha.1 hl.1, fun w => List.forall_mem_cons.2 ⟨ha.2 w, hl.2 w⟩⟩

theorem underList_of_forall₂ (h : List.Forall₂ (m.Under g P) l l') :
    m.UnderList g P l l' := by
  induction h with
  | nil => exact underList_nil
  | cons ha _ ih => exact underList_cons ha ih

theorem forall₂_of_underList (h : m.UnderList g P l l') :
    List.Forall₂ (m.Under g P) l l' := by
  induction l generalizing l' with
  | nil =>
    rw [List.map_eq_nil_iff.1 h.1.symm]
    exact .nil
  | cons a l ih =>
    obtain ⟨a', l', rfl, ha, hl⟩ := List.map_eq_cons_iff.1 h.1.symm
    have hworded := fun w => List.forall_mem_cons.1 (h.2 w)
    exact .cons ⟨ha.symm, fun w => (hworded w).1⟩ (ih ⟨hl.symm, fun w => (hworded w).2⟩)

theorem underList_reverse (h : m.UnderList g P l l') :
    m.UnderList g P l.reverse l'.reverse :=
  ⟨by rw [List.map_reverse, h.1, List.map_reverse], fun w a ha => h.2 w a (List.mem_reverse.1 ha)⟩

theorem underOption_some {a a' : α} (h : m.Under g P a a') :
    m.UnderOption g P (some a) (some a') :=
  ⟨congrArg some h.1, fun w => by simpa using h.2 w⟩

theorem underOption_none : m.UnderOption g P none none :=
  ⟨rfl, fun _ => nofun⟩

theorem underOption_of_rel {o o' : Option α} (h : Option.Rel (m.Under g P) o o') :
    m.UnderOption g P o o' := by
  cases h with
  | none => exact underOption_none
  | some ha => exact underOption_some ha

theorem rel_of_underOption {o o' : Option α} (h : m.UnderOption g P o o') :
    Option.Rel (m.Under g P) o o' := by
  cases o with
  | none =>
    rw [Option.map_eq_none_iff.1 h.1.symm]
    exact .none
  | some a =>
    obtain ⟨a', rfl, ha⟩ := Option.map_eq_some_iff.1 h.1.symm
    exact .some ⟨ha.symm, fun w => h.2 w a rfl⟩

end Matching

namespace Grammar

variable {m : Matching} {n : Nat} {e e' : Effect} {γ : Type}

/-- Where scopes are followed, those of a state have only gained names in the innermost one. -/
def State.Nests (m : Matching) (s t : State) : Prop :=
  m.nested → s.names.scopes.Grows t.names.scopes

namespace State.Nests

variable {s t u : State}

theorem refl (s : State) : s.Nests m s :=
  fun _ => .refl _

theorem trans (hst : s.Nests m t) (htu : t.Nests m u) : s.Nests m u :=
  fun h => (hst h).trans (htu h)

end State.Nests

/-- Results or faults that differ in places only. -/
inductive Outcome.Matches (m : Matching) (R : α → α → Prop) (P : α → State → Prop) :
    Outcome α → Outcome α → Prop where
  | ok {a a' : α} {s t : State} (ha : R a a') (hp : P a s) (h : s.Matches m t) :
      Matches m R P (.ok a s) (.ok a' t)
  | error {fault fault' : Fault} {s t : State}
      (hfault : fault.relocate m.see = fault'.relocate m.see)
      (hscope : m.nested → ¬ fault.IsForeign) (h : s.Matches m t) :
      Matches m R P (.error fault s) (.error fault' t)

theorem Outcome.Matches.imp {R R' : α → α → Prop} {P P' : α → State → Prop} {o o' : Outcome α}
    (h : o.Matches m R P o') (hR : ∀ a a', R a a' → R' a a') (hP : ∀ a s, P a s → P' a s) :
    o.Matches m R' P' o' := by
  cases h with
  | ok ha hp hst => exact .ok (hR _ _ ha) (hP _ _ hp) hst
  | error hfault hscope hst => exact .error hfault hscope hst

/-- Matching states whose tokens fit their texts. -/
structure State.Abreast (m : Matching) (s t : State) : Prop extends State.Matches m s t where
  sound : s.Sound
  sound' : t.Sound
  genuine : m.worded → s.stream.Genuine

/-- Of any kind. -/
abbrev Any : Kind → Prop :=
  fun _ => True

/-- Behind no token. -/
abbrev Never : α → Prop :=
  fun _ => False

/-- The uses of names in a parse have in common what they should. -/
def Parse.Notes (m : Matching) (p : Parse e α) (s : State) : Prop :=
  m.worded → ∀ ref ∈ p.uses s, m.words ref

/-- The parses agree in two states. -/
def Parse.AgreesAt (m : Matching) (n : Nat) (K : Kind → Prop) (R : α → α → Prop) (Owes : α → Prop)
    (p p' : Parse e α) (s t : State) : Prop :=
  s.Abreast m t → s.left < n → K s.ahead → p.Notes m s →
    (p.run s).Matches m R (fun a u => (Owes a → u.left < s.left) ∧ s.Nests m u) (p'.run t)

/-- Outcomes match, and results that owe it stand behind a token. -/
def Parse.Agrees (m : Matching) (n : Nat) (K : Kind → Prop) (R : α → α → Prop) (Owes : α → Prop)
    (p p' : Parse e α) : Prop :=
  ∀ ⦃s t : State⦄, p.AgreesAt m n K R Owes p' s t

/-- The parses give the same results. -/
abbrev Parse.Alike (m : Matching) (n : Nat) (K : Kind → Prop) (p p' : Parse e α) : Prop :=
  p.Agrees m n K Eq Never p'

/-- The parse gives the same in both texts. -/
class Parse.Steady (p : Parse e α) : Prop where
  agrees (m : Matching) (n : Nat) (K : Kind → Prop) : p.Alike m n K p

variable {k : Kind}

section Rules

variable {K K' : Kind → Prop} {R : α → α → Prop} {S : β → β → Prop} {O Q : α → Prop}
  {O' : β → Prop} {p p' : Parse e α} {next next' : α → Parse e β}
  {test test' : Bool → Parse e β} {rest rest' : Unit → Parse e β} {s t : State}

theorem State.Abreast.of_reaches {s t u v : State} (h : s.Abreast m t) (hu : Reaches e s u)
    (hv : Reaches e' t v) (huv : u.Matches m v) : u.Abreast m v :=
  { huv with
    sound := hu.sound h.sound
    sound' := hv.sound h.sound'
    genuine := fun w => hu.genuine (h.genuine w) }

theorem Parse.Notes.bind {s : State} (h : (p >>= next).Notes m s) :
    p.Notes m s ∧ ∀ a u, p.run s = .ok a u → (next a).Notes m u := by
  refine ⟨fun w => (List.forall_mem_append.1 (h w)).1, fun a u hrun w => ?_⟩
  have hlater := (List.forall_mem_append.1 (h w)).2
  rw [hrun] at hlater
  exact hlater

theorem Parse.AgreesAt.cases (h : p.AgreesAt m n K R O p' s t) (hst : s.Abreast m t)
    (hleft : s.left < n) (hK : K s.ahead) (hnotes : p.Notes m s) :
    (∃ a a' u v, p.run s = .ok a u ∧ p'.run t = .ok a' v ∧ R a a' ∧ u.Abreast m v ∧
        u.left ≤ s.left ∧ (O a → u.left < s.left) ∧ s.Nests m u) ∨
      ∃ fault fault' u v, p.run s = .error fault u ∧ p'.run t = .error fault' v ∧
        fault.relocate m.see = fault'.relocate m.see ∧ (m.nested → ¬ fault.IsForeign) ∧
        u.Matches m v := by
  have houtcome := h hst hleft hK hnotes
  have hs := p.reaches s
  have ht := p'.reaches t
  generalize p.run s = o, p'.run t = o' at houtcome hs ht
  cases houtcome with
  | ok ha howes huv =>
    exact .inl ⟨_, _, _, _, rfl, rfl, ha, hst.of_reaches hs ht huv, hs.left_le hst.sound, howes⟩
  | error hfault hscope huv => exact .inr ⟨_, _, _, _, rfl, rfl, hfault, hscope, huv⟩

/-- What a parse does behind another one, seen from where the first one started. -/
theorem Parse.AgreesAt.later {s u v : State} (h : p.AgreesAt m n K R O p' u v)
    (huv : u.Abreast m v) (hleft : u.left < n) (hK : K u.ahead) (hnotes : p.Notes m u)
    (hsu : s.Nests m u)
    (hQ : ∀ a (w : State), w.left ≤ u.left → (O a → w.left < u.left) → Q a → w.left < s.left) :
    (p.run u).Matches m R (fun a w => (Q a → w.left < s.left) ∧ s.Nests m w) (p'.run v) := by
  rcases h.cases huv hleft hK hnotes with ⟨a, a', w, x, hrun, hrun', ha, hwx, hle, howes, huw⟩ |
    ⟨fault, fault', w, x, hrun, hrun', hfault, hscope, hwx⟩
  · rw [hrun, hrun']
    exact .ok ha ⟨hQ a w hle howes, hsu.trans huw⟩ hwx.toMatches
  · rw [hrun, hrun']
    exact .error hfault hscope hwx

/-- A parse whose results stand behind a token or not, and another one behind it. -/
theorem Parse.AgreesAt.bind_cases (hp : p.AgreesAt m n K R Q p' s t)
    (htaken : ∀ a a' u v, p.run s = .ok a u → R a a' → Q a →
      (next a).AgreesAt m (n - 1) Any S Never (next' a') u v)
    (hrest : ∀ a a' u v, p.run s = .ok a u → R a a' → ¬ Q a →
      (next a).AgreesAt m n Any S O' (next' a') u v) :
    (p >>= next).AgreesAt m n K S O' (p' >>= next') s t := by
  intro hst hleft hK hnotes
  obtain ⟨hfirst, hlater⟩ := hnotes.bind
  rw [run_bind, run_bind]
  rcases hp.cases hst hleft hK hfirst with ⟨a, a', u, v, hrun, hrun', ha, huv, hle, howes, hsu⟩ |
    ⟨fault, fault', u, v, hrun, hrun', hfault, hscope, huv⟩
  · rw [hrun, hrun']
    by_cases hQ : Q a
    · have hlt := howes hQ
      exact (htaken a a' u v hrun ha hQ).later huv (by omega) trivial (hlater a u hrun) hsu
        fun _ _ _ _ _ => by omega
    · exact (hrest a a' u v hrun ha hQ).later huv (by omega) trivial (hlater a u hrun) hsu
        fun _ _ _ howes' hO => Nat.lt_of_lt_of_le (howes' hO) hle
  · rw [hrun, hrun']
    exact .error hfault hscope huv

theorem Parse.AgreesAt.bind (hp : p.AgreesAt m n K R Never p' s t)
    (h : ∀ a a' u v, p.run s = .ok a u → R a a' → (next a).AgreesAt m n Any S O' (next' a') u v) :
    (p >>= next).AgreesAt m n K S O' (p' >>= next') s t :=
  .bind_cases hp (fun _ _ _ _ _ _ hQ => hQ.elim) fun a a' u v hrun ha _ => h a a' u v hrun ha

/-- A look at the state, and a parse that runs in that state. -/
protected theorem Parse.AgreesAt.read {next next' : State → Parse e β}
    (h : s.withoutTokens.Known m t.withoutTokens →
      (next s.withoutTokens).AgreesAt m n K S O' (next' t.withoutTokens) s t) :
    (read >>= next).AgreesAt m n K S O' (read >>= next') s t :=
  fun hst hleft hK hnotes => h hst.toKnown.withoutTokens hst hleft hK (hnotes.bind.2 _ _ rfl)

namespace Parse.Agrees

section

variable (h : p.Agrees m n K R O p')

include h

protected theorem on : p.AgreesAt m n K R O p' s t :=
  @h s t

protected theorem mono {k : Nat} (hk : k ≤ n) (hK : ∀ k, K' k → K k) : p.Agrees m k K' R O p' :=
  fun _ _ hst hleft hahead => h hst (Nat.lt_of_lt_of_le hleft hk) (hK _ hahead)

protected theorem imp {R' : α → α → Prop}
    (hR : ∀ a a', R a a' → R' a a') (hO : ∀ a, Q a → O a) : p.Agrees m n K R' Q p' :=
  fun _ _ hst hleft hK hnotes => (h hst hleft hK hnotes).imp hR fun a _ howes =>
    ⟨fun hQ => howes.1 (hO a hQ), howes.2⟩

protected theorem weaken {R' : α → α → Prop}
    (hR : ∀ a a', R a a' → R' a a') : p.Agrees m n K R' O p' :=
  h.imp hR fun _ h => h

protected theorem forget : p.Agrees m n K R Never p' :=
  h.imp (fun _ _ h => h) fun _ => False.elim

end

protected theorem below (h : p.Agrees m (n + 1) K R O p') : p.Agrees m n K R O p' :=
  h.mono (Nat.le_succ n) fun _ hk => hk

protected theorem lifted {c : Composed e' p.run p.uses} {c' : Composed e' p'.run p'.uses}
    (h : p.Agrees m n K R O p') :
    (⟨p.run, p.uses, c⟩ : Parse e' α).Agrees m n K R O ⟨p'.run, p'.uses, c'⟩ :=
  h

/-- Where the next token is known. -/
protected theorem ahead (h : p.Agrees m n K R O p') (hk : K k) :
    p.Agrees m n (· = k) R O p' := by
  refine h.mono (Nat.le_refl n) ?_
  rintro _ rfl
  exact hk

protected theorem zero : p.Agrees m 0 K R O p' :=
  fun _ _ _ hleft => absurd hleft (Nat.not_lt_zero _)

/-! ## Sequences -/

protected theorem pure {a a' : α} (h : R a a') :
    (pure a : Parse e α).Agrees m n K R Never (pure a') :=
  fun _ _ hst _ _ _ => .ok h ⟨False.elim, .refl _⟩ hst.toMatches

/-- A result that need not stand behind a token. -/
protected theorem done {a a' : α} (h : R a a') (hO : ¬ O a) :
    (pure a : Parse e α).Agrees m n K R O (pure a') :=
  fun _ _ hst _ _ _ => .ok h ⟨(absurd · hO), .refl _⟩ hst.toMatches

protected theorem quit {owes : α → Bool} {a a' : α} (h : R a a') (howes : owes a = false) :
    (pure a : Parse e α).Agrees m n K R (fun a => owes a = true) (pure a') :=
  .done h (ne_true_of_eq_false howes)

protected theorem fail {fault fault' : Fault} (h : fault.relocate m.see = fault'.relocate m.see)
    (hscope : m.nested → ¬ fault.IsForeign) :
    (fail fault : Parse e α).Agrees m n K R O (fail fault') :=
  fun _ _ hst _ _ _ => .error h hscope hst.toMatches

protected theorem bind_cases (hp : p.Agrees m n K R Q p')
    (htaken : ∀ a a', R a a' → Q a → (next a).Agrees m (n - 1) Any S Never (next' a'))
    (hrest : ∀ a a', R a a' → ¬ Q a → (next a).Agrees m n Any S O' (next' a')) :
    (p >>= next).Agrees m n K S O' (p' >>= next') :=
  fun _ _ => hp.on.bind_cases (fun a a' _ _ _ ha hQ => (htaken a a' ha hQ).on)
    fun a a' _ _ _ ha hQ => (hrest a a' ha hQ).on

protected theorem bind (hp : p.Agrees m n K R Never p')
    (h : ∀ a a', R a a' → (next a).Agrees m n Any S O' (next' a')) :
    (p >>= next).Agrees m n K S O' (p' >>= next') :=
  fun _ _ => hp.on.bind fun a a' _ _ _ ha => (h a a' ha).on

protected theorem pure_then {a a' : α} (h : (next a).Agrees m n K S O' (next' a')) :
    (pure a >>= next).Agrees m n K S O' (pure a' >>= next') :=
  h

protected theorem bind_after (hp : p.Agrees m n K R (fun _ => True) p')
    (h : ∀ a a', R a a' → (next a).Agrees m (n - 1) Any S Never (next' a')) :
    (p >>= next).Agrees m n K S O' (p' >>= next') :=
  .bind_cases hp (fun a a' ha _ => h a a' ha) fun _ _ _ hQ => (hQ trivial).elim

protected theorem stop (hp : p.Agrees m n K (fun _ _ => False) Never p') :
    (p >>= next).Agrees m n K S O' (p' >>= next') :=
  .bind hp fun _ _ h => h.elim

protected theorem steady [p.Steady] : p.Alike m n K p :=
  Steady.agrees m n K

protected theorem seq (hp : p.Alike m n K p') (h : ∀ a, (next a).Agrees m n Any S O' (next' a)) :
    (p >>= next).Agrees m n K S O' (p' >>= next') := by
  refine .bind hp ?_
  rintro a _ rfl
  exact h a

protected theorem step [p.Steady] (h : ∀ a, (next a).Agrees m n Any S O' (next' a)) :
    (p >>= next).Agrees m n K S O' (p >>= next') :=
  .seq .steady h

protected theorem after (hp : p.Agrees m n K Eq (fun _ => True) p')
    (h : ∀ a, (next a).Agrees m (n - 1) Any S Never (next' a)) :
    (p >>= next).Agrees m n K S O' (p' >>= next') := by
  refine .bind_after hp ?_
  rintro a _ rfl
  exact h a

/-- A parse with a worded result, and another one behind it. -/
protected theorem known {P : α → Prop} (hp : p.Agrees m n K (m.Equal P) Never p')
    (h : ∀ a, (m.worded → P a) → (next a).Agrees m n Any S O' (next' a)) :
    (p >>= next).Agrees m n K S O' (p' >>= next') := by
  refine .bind hp ?_
  rintro a _ ⟨rfl, ha⟩
  exact h a ha

protected theorem known_after {P : α → Prop}
    (hp : p.Agrees m n K (m.Equal P) (fun _ => True) p')
    (h : ∀ a, (m.worded → P a) → (next a).Agrees m (n - 1) Any S Never (next' a)) :
    (p >>= next).Agrees m n K S O' (p' >>= next') := by
  refine .bind_after hp ?_
  rintro a _ ⟨rfl, ha⟩
  exact h a ha

/-- Two parses of which a condition chooses, and another one behind both. -/
protected theorem join {c : Prop} [Decidable c] {q q' : Parse e α}
    (hp : c → p.Agrees m n K R Never p') (hq : ¬ c → q.Agrees m n K R Never q')
    (h : ∀ a a', R a a' → (next a).Agrees m n Any S O' (next' a')) :
    (if c then p >>= next else q >>= next).Agrees m n K S O'
      (if c then p' >>= next' else q' >>= next') := by
  split
  · next hc => exact .bind (hp hc) h
  · next hc => exact .bind (hq hc) h

protected theorem when {c : Prop} [Decidable c] {p p' : Parse e Unit}
    (hp : c → p.Alike m n Any p') (h : ∀ a, (rest a).Agrees m n Any S O' (rest' a)) :
    (if c then p >>= rest else rest ()).Agrees m n Any S O'
      (if c then p' >>= rest' else rest' ()) := by
  split
  · next hc => exact .seq (hp hc) h
  · exact h ()

protected theorem otherwise {c : Prop} [Decidable c] {p p' : Parse e Unit}
    (hp : ¬ c → p.Alike m n Any p') (h : ∀ a, (rest a).Agrees m n Any S O' (rest' a)) :
    (if c then rest () else p >>= rest).Agrees m n Any S O'
      (if c then rest' () else p' >>= rest') := by
  split
  · exact h ()
  · next hc => exact .seq (hp hc) h

/-- Under a condition, a parse unless what is read passes a test; and another one behind it. -/
protected theorem guard {c : Prop} [Decidable c] {g : α → Bool} {q q' : Parse e α}
    {p p' : Parse e Unit} (hq : q.Alike m n Any q') (hp : p.Alike m n Any p')
    (h : ∀ a, (rest a).Agrees m n Any S O' (rest' a)) :
    (if c then q >>= fun a => if g a = true then rest () else p >>= rest
      else rest ()).Agrees m n Any S O'
      (if c then q' >>= fun a => if g a = true then rest' () else p' >>= rest'
      else rest' ()) := by
  split
  · exact .seq hq fun _ => .otherwise (fun _ => hp) h
  · exact h ()

/-- A parse that tells whether it took a token, and another one behind it. -/
protected theorem branch {p p' : Parse e Bool} (hp : p.Agrees m n K Eq (· = true) p')
    (htrue : (test true).Agrees m (n - 1) Any S Never (test' true))
    (hfalse : (test false).Agrees m n Any S O' (test' false)) :
    (p >>= test).Agrees m n K S O' (p' >>= test') := by
  refine .bind_cases hp ?_ ?_
  · rintro _ _ rfl rfl
    exact htrue
  · rintro taken _ rfl htaken
    rw [Bool.not_eq_true] at htaken
    rw [htaken]
    exact hfalse

/-- A parse whose result, if there is one, stands behind a token; and another one behind it. -/
protected theorem found {p p' : Parse e (Option α)} {next next' : Option α → Parse e β}
    (hp : p.Agrees m n K (Option.Rel R) (fun r => r.isSome = true) p')
    (hsome : ∀ a a', R a a' → (next (some a)).Agrees m (n - 1) Any S Never (next' (some a')))
    (hnone : (next none).Agrees m n Any S O' (next' none)) :
    (p >>= next).Agrees m n K S O' (p' >>= next') := by
  refine .bind_cases hp ?_ ?_
  · rintro _ _ (ha | _) hfound
    · exact hsome _ _ ha
    · exact absurd hfound Bool.false_ne_true
  · rintro _ _ (_ | _) hfound
    · exact absurd rfl hfound
    · exact hnone

protected theorem map {f f' : α → β} (hp : p.Agrees m n K R O p')
    (hf : ∀ a a', R a a' → S (f a) (f' a')) (hO : ∀ a, O' (f a) → O a) :
    (f <$> p).Agrees m n K S O' (f' <$> p') :=
  .bind_cases hp (fun _ _ ha _ => .pure (hf _ _ ha)) fun a _ ha hQ =>
    .done (hf _ _ ha) fun h => hQ (hO a h)

protected theorem map_some (hp : p.Agrees m n K R Never p') {S : Option α → Option α → Prop}
    (h : ∀ a a', R a a' → S (some a) (some a')) :
    (some <$> p).Agrees m n K S Never (some <$> p') :=
  .map hp h fun _ h => h

protected theorem discard {O : Prop} (hp : p.Agrees m n K R (fun _ => O) p') :
    (discard p).Agrees m n K Eq (fun _ => O) (discard p') :=
  .map hp (fun _ _ _ => rfl) fun _ h => h

/-! ## Looks -/

protected theorem peekAt (offset : Nat) :
    (peekAt offset : Parse e Token).Agrees m n K m.Tokens Never (peekAt offset) := by
  intro s t hst _ _ _
  obtain ⟨htoken, hpeek⟩ := hst.stream.peekAt offset
  exact .ok htoken ⟨False.elim, .refl s⟩ (hst.toMatches.withStream hpeek (Stream.size_peekAt _ _)
    (Stream.size_peekAt _ _))

protected theorem look {f : State → α} (hp : p.Looks f) (hagrees : p.Agrees m n K R Never p')
    (h : ∀ s a', K s.ahead → R (f s) a' →
      (next (f s)).Agrees m n (· = s.ahead) S O' (next' a')) :
    (p >>= next).Agrees m n K S O' (p' >>= next') := by
  intro s t hst hleft hK hnotes
  refine hagrees.on.bind (fun a a' u v hrun ha huv hlt _ => ?_) hst hleft hK hnotes
  obtain ⟨u', hlook, hahead, -⟩ := hp s
  cases hrun.symm.trans hlook
  exact h s a' hK ha huv hlt hahead

protected theorem peek {next next' : Token → Parse e β}
    (h : ∀ t t', m.Tokens t t' → K t.kind → (next t).Agrees m n (· = t.kind) S O' (next' t')) :
    (peek >>= next).Agrees m n K S O' (peek >>= next') :=
  .look (looks_peekAt 0) (.peekAt 0) fun _ t' hK ht => h _ t' ht hK

end Parse.Agrees

open Parse (Steady Agrees)

protected theorem Parse.AgreesAt.pure {a a' : α} (h : R a a') :
    (pure a : Parse e α).AgreesAt m n K R Never (pure a') s t :=
  (Agrees.pure h).on

protected theorem Parse.AgreesAt.map {f f' : α → β}
    (hp : p.AgreesAt m n K R O p' s t) (hf : ∀ a a', R a a' → S (f a) (f' a'))
    (hO : ∀ a, O' (f a) → O a) : (f <$> p).AgreesAt m n K S O' (f' <$> p') s t :=
  .bind_cases hp (fun _ _ _ _ _ ha _ => .pure (hf _ _ ha)) fun a _ _ _ _ ha hQ =>
    (Agrees.done (hf _ _ ha) fun h => hQ (hO a h)).on

theorem Parse.AgreesAt.seq (hp : p.AgreesAt m n K Eq Never p' s t)
    (h : ∀ a, (next a).Agrees m n Any S O' (next' a)) :
    (p >>= next).AgreesAt m n K S O' (p' >>= next') s t := by
  refine .bind hp ?_
  rintro a _ u v - rfl
  exact (h a).on

instance steady_pure (a : α) : (pure a : Parse e α).Steady :=
  ⟨fun _ _ _ => .pure rfl⟩

instance steady_kindAt (offset : Nat) : (kindAt offset : Parse e Kind).Steady :=
  ⟨fun _ _ _ => .bind (.peekAt offset) fun _ _ ht => .pure ht.kind.symm⟩

instance steady_checkAt (offset : Nat) (k : Kind) : (checkAt offset k : Parse e Bool).Steady :=
  ⟨fun _ _ _ => .step fun _ => .pure rfl⟩

instance steady_kind : (kind : Parse e Kind).Steady :=
  steady_kindAt 0

instance steady_check (k : Kind) : (check k : Parse e Bool).Steady :=
  steady_checkAt 0 k

instance steady_checkAny (kinds : List Kind) : (checkAny kinds : Parse e Bool).Steady :=
  ⟨fun _ _ _ => .step fun _ => .pure rfl⟩

namespace Parse.Agrees

protected theorem kind {next next' : Kind → Parse e β}
    (h : ∀ k, K k → (next k).Agrees m n (· = k) S O' (next' k)) :
    (kind >>= next).Agrees m n K S O' (kind >>= next') := by
  refine .look looks_kind .steady ?_
  rintro s _ hK rfl
  exact h _ hK

/-- A look at the kind of a token that the parse behind it does not need to know of. -/
protected theorem kindAt_then {offset : Nat} (g : Kind → Bool)
    (h : ∀ b, (test b).Agrees m n K S O' (test' b)) :
    ((do return g (← kindAt offset)) >>= test).Agrees m n K S O'
      ((do return g (← kindAt offset)) >>= test') := by
  refine .look (((looks_peekAt offset).map Token.kind).map g) (.step fun _ => .pure rfl) ?_
  rintro s _ hK rfl
  exact (h _).ahead hK

protected theorem checkAt_then {offset : Nat} (h : ∀ b, (test b).Agrees m n K S O' (test' b)) :
    (checkAt offset k >>= test).Agrees m n K S O' (checkAt offset k >>= test') :=
  .kindAt_then (· == k) h

protected theorem check_cases
    (htrue : (test true).Agrees m n (· = k) S O' (test' true))
    (hfalse : (test false).Agrees m n (fun j => K j ∧ j ≠ k) S O' (test' false)) :
    (check k >>= test).Agrees m n K S O' (check k >>= test') := by
  refine .look (looks_check k) .steady ?_
  rintro s _ hK rfl
  by_cases hk : s.ahead = k
  · rw [beq_iff_eq.2 hk, hk]
    exact htrue
  · rw [beq_eq_false_iff_ne.2 hk]
    exact hfalse.ahead ⟨hK, hk⟩

protected theorem check
    (htrue : (test true).Agrees m n (· = k) S O' (test' true))
    (hfalse : (test false).Agrees m n K S O' (test' false)) :
    (check k >>= test).Agrees m n K S O' (check k >>= test') :=
  .check_cases htrue (hfalse.mono (Nat.le_refl _) fun _ => And.left)

protected theorem check_known (hK : ∀ j, K j → j = k)
    (htrue : (test true).Agrees m n (· = k) S O' (test' true)) :
    (check k >>= test).Agrees m n K S O' (check k >>= test') :=
  .check_cases htrue fun _ _ _ _ hahead => absurd (hK _ hahead.1) hahead.2

protected theorem checkAny {kinds : List Kind}
    (htrue : (test true).Agrees m n (fun k => kinds.contains k = true) S O' (test' true))
    (hfalse : (test false).Agrees m n K S O' (test' false)) :
    (checkAny kinds >>= test).Agrees m n K S O' (checkAny kinds >>= test') := by
  refine .look (looks_kind.map (kinds.contains ·)) .steady ?_
  rintro s _ hK rfl
  cases hk : kinds.contains s.ahead with
  | true => exact htrue.ahead hk
  | false => exact hfalse.ahead hK

protected theorem read {next next' : State → Parse e β}
    (h : ∀ r r', r.Known m r' → (next r).Agrees m n K S O' (next' r')) :
    (read >>= next).Agrees m n K S O' (read >>= next') :=
  fun _ _ => .read fun hr => (h _ _ hr).on

protected theorem here {next next' : Position → Parse e β}
    (h : ∀ place place', m.see place = m.see place' → (next place).Agrees m n K S O' (next' place')) :
    (here >>= next).Agrees m n K S O' (here >>= next') := by
  simp only [Grammar.here, bind_assoc, pure_bind]
  refine .peek fun t t' ht hK => .read fun r r' hr => ?_
  rw [hr.file, hr.file']
  exact (h _ _ ht.place).ahead hK

/-! ## Faults -/

protected theorem failHere {cause : GrammarCause} :
    (failHere cause : Parse e α).Agrees m n K R O (failHere cause) :=
  .here fun _ _ hplace => .fail (congrArg (Fault.grammar cause) hplace) fun _ =>
    Fault.not_isForeign_grammar cause _

protected theorem unexpected {what : String} :
    (unexpected what : Parse e α).Agrees m n K R O (unexpected what) := by
  refine .peek fun t t' ht _ => ?_
  rw [ht.isEnd, ht.lexeme]
  exact .failHere

variable {place place' : Position}

protected theorem unsupported {construct : String} (h : m.see place = m.see place') :
    (unsupported construct place : Parse e α).Agrees m n K R O (unsupported construct place') :=
  .fail (congrArg (Fault.unsupported construct) h) fun _ =>
    Fault.not_isForeign_unsupported construct _

/-! ## Tokens -/

theorem taken_advance (hst : s.Abreast m t) (hK : K s.ahead) :
    m.Taken K s.stream.advance.1 t.stream.advance.1 where
  same := hst.stream.advance.1
  kind := by
    show K (s.stream.peekAt 0).1.kind
    rw [(s.stream.peekAt_eq 0).1]
    exact hK
  genuine w := (hst.genuine w).peeked 0

protected theorem advance_any :
    (advance : Parse e Token).Agrees m n K (m.Taken K) Never advance := by
  intro s t hst _ hK _
  exact .ok (taken_advance hst hK) ⟨False.elim, .refl s⟩ (hst.toMatches.withStream
    hst.stream.advance.2 (Stream.size_advance _) (Stream.size_advance _))

protected theorem advance {O : Token → Prop} (hK : ¬ K .eof) :
    (advance : Parse e Token).Agrees m n K (m.Taken K) O advance := by
  intro s t hst _ hahead _
  refine .ok (taken_advance hst hahead) ⟨fun _ => ?_, .refl s⟩ (hst.toMatches.withStream
    hst.stream.advance.2 (Stream.size_advance _) (Stream.size_advance _))
  refine (Reaches.single (.advance (e := e))).left_lt hst.sound ?_
  refine takes_advance (e := e) (k := s.ahead) ?_ s _ _ rfl rfl
  intro heof
  exact hK (heof ▸ hahead)

protected theorem skip_taking {O : Unit → Prop} (hK : ¬ K .eof) :
    (skip : Parse e Unit).Agrees m n K Eq O skip :=
  .map (.advance (O := fun _ => True) hK) (fun _ _ _ => rfl) fun _ _ => trivial

/-- A token that is taken, and a parse behind it. -/
protected theorem skip (hK : ¬ K .eof)
    (h : ∀ a, (rest a).Agrees m (n - 1) Any S Never (rest' a)) :
    (skip >>= rest).Agrees m n K S O' (skip >>= rest') :=
  .after (.skip_taking hK) h

protected theorem eat_taking (hk : ¬ .eof = k) :
    (eat k : Parse e Bool).Agrees m n K Eq (· = true) (eat k) :=
  .check (.skip hk fun _ => .pure rfl) (.quit rfl rfl)

/-- A token that may be taken, and a parse behind it. -/
protected theorem eat (hk : ¬ .eof = k)
    (htrue : (test true).Agrees m (n - 1) Any S Never (test' true))
    (hfalse : (test false).Agrees m n Any S O' (test' false)) :
    (eat k >>= test).Agrees m n K S O' (eat k >>= test') :=
  .branch (.eat_taking hk) htrue hfalse

protected theorem expect {O : Token → Prop} {what : String} (hk : ¬ .eof = k) :
    (expect k what : Parse e Token).Agrees m n K (m.Taken (· = k)) O (expect k what) :=
  .check (.advance hk) .unexpected

protected theorem require_taking {O : Unit → Prop} {what : String} (hk : ¬ .eof = k) :
    (require k what : Parse e Unit).Agrees m n K Eq O (require k what) :=
  .map (.expect (O := fun _ => True) hk) (fun _ _ _ => rfl) fun _ _ => trivial

/-- A token that must be taken, and a parse behind it. -/
protected theorem require {what : String} (hk : ¬ .eof = k)
    (h : ∀ a, (rest a).Agrees m (n - 1) Any S Never (rest' a)) :
    (require k what >>= rest).Agrees m n K S O' (require k what >>= rest') :=
  .after (.require_taking hk) h

protected theorem identifier {O : String → Prop} :
    (identifier : Parse e String).Agrees m n K (m.Equal IsName) O identifier :=
  .map (.expect (O := fun _ => True) (by decide))
    (fun _ _ ht => ⟨ht.same.lexeme.symm, fun w => (ht.genuine w).name ht.kind⟩) fun _ _ => trivial

end Parse.Agrees

instance steady_skip : (skip : Parse e Unit).Steady :=
  ⟨fun _ _ _ => .map .advance_any (fun _ _ _ => rfl) fun _ h => h⟩

instance steady_eat (k : Kind) : (eat k : Parse e Bool).Steady :=
  ⟨fun _ _ _ => .check (.step fun _ => .pure rfl) (.pure rfl)⟩

instance steady_skipIf (k : Kind) : (skipIf k : Parse e Unit).Steady :=
  ⟨fun _ _ _ => .discard .steady⟩

instance steady_require (k : Kind) (what : String) : (require k what : Parse e Unit).Steady :=
  ⟨fun _ _ _ => .discard (.check .advance_any .unexpected)⟩

instance steady_splitShift : (splitShift : Parse e Unit).Steady where
  agrees m n K := by
    intro s t hst _ _ _
    exact .ok rfl ⟨False.elim, .refl s⟩ (hst.toMatches.withStream hst.stream.splitShift
      (Stream.size_splitShift _) (Stream.size_splitShift _))

theorem agrees_closeAngle {O : Unit → Prop} :
    (closeAngle : Parse e Unit).Agrees m n K Eq O closeAngle := by
  refine .check (.step fun _ => ?_) ?_ <;> exact .require_taking (by decide)

instance steady_closeAngle : (closeAngle : Parse e Unit).Steady :=
  ⟨fun _ _ _ => agrees_closeAngle⟩

/-! ## Speculation and surroundings -/

namespace Parse.Agrees

protected theorem speculate (hp : p.Agrees m n K R O p') {O'' : Option α → Prop}
    (hsome : ∀ a, O'' (some a) → O a) (hnone : ¬ O'' none) :
    (speculate p).Agrees m n K (Option.Rel R) O'' (speculate p') := by
  intro s t hst hleft hK hnotes
  have houtcome := hp hst hleft hK hnotes
  unfold Grammar.speculate
  dsimp only
  generalize p.run s = o, p'.run t = o' at houtcome
  cases houtcome with
  | ok ha howes huv => exact .ok (.some ha) ⟨fun h => howes.1 (hsome _ h), howes.2⟩ huv
  | error _ _ huv => exact .ok .none ⟨(absurd · hnone), .refl s⟩ (hst.toMatches.restore huv)

protected theorem attempt {p p' : Parse .look α} (hp : p.Agrees m n K R Never p') :
    (attempt p).Agrees m n K (Option.Rel R) Never (attempt p') :=
  .speculate hp (fun _ h => h.elim) id

protected theorem attempt_taking {p p' : Parse .look α}
    (hp : p.Agrees m n K R (fun _ => True) p') :
    (attempt p).Agrees m n K (Option.Rel R) (fun r => r.isSome = true) (attempt p') :=
  .speculate hp (fun _ _ => trivial) Bool.false_ne_true

protected theorem within {setting setting' : Setting e}
    (henter : ∀ s t : State, s.Matches m t → (setting.enter s).Matches m (setting'.enter t))
    (hleave : ∀ s t u v : State, s.Matches m t → u.Matches m v →
      (setting.leave s u).Matches m (setting'.leave t v))
    (hentered : ∀ s, (setting.enter s).names = s.names)
    (hleft : ∀ s u, (setting.leave s u).names = u.names) (hp : p.Agrees m n K R O p') :
    (Parse.within setting p).Agrees m n K R O (Parse.within setting' p') := by
  intro s t hst hlt hK hnotes
  have hinside : (setting.enter s).Abreast m (setting'.enter t) :=
    hst.of_reaches (setting.reaches_enter s) (setting'.reaches_enter t)
      (henter s t hst.toMatches)
  have hstream := setting.stream_enter s
  have houtcome := hp hinside (by rwa [State.left, hstream]) (by rwa [State.ahead, hstream]) hnotes
  show (setting.run p.run s).Matches m R _ (setting'.run p'.run t)
  unfold Setting.run
  generalize p.run (setting.enter s) = o, p'.run (setting'.enter t) = o' at houtcome
  cases houtcome with
  | ok ha howes huv =>
    refine .ok ha ⟨fun hO => ?_, fun h => ?_⟩ (hleave s t _ _ hst.toMatches huv)
    · have hlt := howes.1 hO
      rw [State.left, State.left, hstream] at hlt
      rwa [State.left, setting.stream_leave]
    · rw [hleft, ← hentered s]
      exact howes.2 h
  | error hfault hscope huv => exact .error hfault hscope huv

protected theorem withContext {p p' : Parse .declare α} (id : DeclId)
    (hp : p.Agrees m n K R O p') : (withContext id p).Agrees m n K R O (withContext id p') :=
  .within (fun _ _ h => { h with context := rfl })
    (fun _ _ _ _ hst h => { h with context := hst.context }) (fun _ => rfl) (fun _ _ => rfl) hp

protected theorem withTemplateArgs {inside : Bool} (hp : p.Agrees m n K R O p') :
    (withTemplateArgs inside p).Agrees m n K R O (withTemplateArgs inside p') :=
  .within (fun _ _ h => { h with inTemplateArgs := rfl })
    (fun _ _ _ _ hst h => { h with inTemplateArgs := hst.inTemplateArgs }) (fun _ => rfl)
    (fun _ _ => rfl) hp

protected theorem underTemplate {p p' : Parse .declare α} (params : List String)
    (hp : p.Agrees m n K R O p') :
    (underTemplate params p).Agrees m n K R O (underTemplate params p') :=
  .within
    (fun _ _ h => { h with
      templateParams := congrArg (params :: ·) h.templateParams
      pendingTemplate := rfl })
    (fun _ _ _ _ _ h => { h with
      templateParams := congrArg List.tail h.templateParams
      pendingTemplate := rfl }) (fun _ => rfl) (fun _ _ => rfl) hp

end Parse.Agrees

theorem eq_of_optionRel {r r' : Option α} (h : Option.Rel Eq r r') : r = r' := by
  cases h with
  | none => rfl
  | some ha => exact congrArg some ha

section Lifts

instance steady_liftName {p : Parse .name α} [p.Steady] : (liftM p : Parse .declare α).Steady :=
  ⟨fun _ _ _ => Agrees.steady (p := p)⟩

instance steady_liftTwice {p : Parse .look α} [p.Steady] : (liftM p : Parse .declare α).Steady :=
  ⟨fun _ _ _ => Agrees.steady (p := p)⟩

end Lifts

/-! ## Names and the program -/

theorem agrees_always {f : State → State} {change : ∀ s, Change e s (f s)}
    {keeps : ∀ s : State, s.Keeps (f s)}
    {blind : ∀ (s : State) (stream : Stream), f { s with stream } = { f s with stream }}
    (h : ∀ s t : State, s.Matches m t → (f s).Matches m (f t))
    (hscopes : ∀ s : State, s.Nests m (f s)) :
    (Parse.ofAction (.always f change keeps blind)).Alike m n K
      (.ofAction (.always f change keeps blind)) :=
  fun _ _ hst _ _ _ => .ok rfl ⟨False.elim, hscopes _⟩ (h _ _ hst.toMatches)

instance steady_addAlias (name : String) (type : Primitive) : (addAlias name type).Steady :=
  ⟨fun _ _ _ => agrees_always (fun s t h => { h with names := by simp only [State.addAlias, h.names] })
    fun s => .refl s⟩

instance steady_noteTemplate (name : String) : (noteTemplate name).Steady :=
  ⟨fun _ _ _ => agrees_always (fun s t h => { h with
    names := by simp only [State.noteTemplate, h.names, h.pendingTemplate]
    pendingTemplate := rfl }) fun s => .refl s⟩

instance steady_forgetTemplate : forgetTemplate.Steady :=
  ⟨fun _ _ _ => agrees_always (fun _ _ h => { h with pendingTemplate := rfl }) fun s => .refl s⟩

variable {place place' : Position}

theorem agrees_nameRef (raw : String) (h : m.see place = m.see place') :
    (nameRef raw place : Parse e NameRef).Agrees m n K
      (m.Under (NameRef.relocate m.see) fun ref => ref.raw = raw ∧ m.words ref) Never
      (nameRef raw place') := by
  intro s t hst _ _ hnotes
  refine .ok ⟨?_, fun w => ⟨rfl, List.forall_mem_singleton.1 (hnotes w)⟩⟩ ⟨False.elim, .refl _⟩
    { hst.toMatches with
      store := hst.store.freshRef
      written := fun w => (hst.written w).tail .refer }
  show NameRef.mk s.store.nextRef raw s.context (m.see place) =
    ⟨t.store.nextRef, raw, t.context, m.see place'⟩
  rw [hst.store.nextRef, hst.context, h]

theorem agrees_nameExpr {raw : String} (hraw : m.worded → IsScopedName raw)
    (h : m.see place = m.see place') :
    (nameExpr raw place : Parse e Expr).Agrees m n K m.SameExpr Never (nameExpr raw place') := by
  refine .bind (agrees_nameRef raw h) fun ref ref' href => .pure ?_
  have hscoped := fun w => (href.2 w).1 ▸ hraw w
  split
  · exact ⟨congrArg Expr.scoped href.1, fun w => .scoped (hscoped w) (href.2 w).2⟩
  · exact ⟨congrArg Expr.name href.1, fun w => .name (hscoped w) (href.2 w).2⟩

instance steady_isTypeName (segments : List String) : (isTypeName segments : Parse e Bool).Steady :=
  ⟨fun _ _ _ => .read fun _ _ hr => .pure (hr.isTypeName segments).symm⟩

instance steady_isTemplateName (segments : List String) :
    (isTemplateName segments : Parse e Bool).Steady :=
  ⟨fun _ _ _ => .read fun _ _ hr => .pure (hr.isTemplateName segments).symm⟩

instance steady_primitiveAlias? (segments : List String) :
    (primitiveAlias? segments : Parse e (Option Primitive)).Steady where
  agrees _ _ _ := by
    unfold primitiveAlias?
    split
    · refine .read fun r r' hr => ?_
      rw [hr.names]
      exact .pure rfl
    · exact .pure rfl

theorem agrees_rescope {f : Scopes → Except ScopeCause Scopes}
    {h : ∀ (s : State) scopes, f s.names.scopes = .ok scopes → Change e s (s.withScopes scopes)}
    (hgrows : ∀ S T, f S = .ok T → S.Grows T) (hfault : ∀ S, f S ≠ .error .underflow) :
    (rescope f h).Alike m n K (rescope f h) := by
  have haction : (Parse.ofAction (.rescope f h)).Agrees m n K
      (fun r r' => r = r' ∧ r ≠ .error .underflow) Never (.ofAction (.rescope f h)) := by
    intro s t hst _ _ _
    show (Action.run _ s).Matches m _ _ (Action.run _ t)
    unfold Action.run Action.rescope
    dsimp only
    rw [hst.names]
    cases hf : f s.names.scopes with
    | ok scopes =>
      exact .ok ⟨rfl, by simp⟩ ⟨False.elim, fun _ => hgrows _ _ hf⟩ { hst.toMatches with
        names := by simp only [State.withScopes, hst.names] }
    | error cause =>
      exact .ok ⟨rfl, fun hcause => hfault _ (hf.trans (by cases hcause; rfl))⟩
        ⟨False.elim, .refl s⟩ hst.toMatches
  refine .bind haction ?_
  rintro result _ ⟨rfl, hresult⟩
  cases result with
  | ok => exact .pure rfl
  | error cause =>
    refine .here fun _ _ hplace => .fail (congrArg (Fault.scope cause) hplace) ?_
    rintro - (⟨_, ⟨⟩⟩ | ⟨_, _, ⟨⟩⟩)
    exact hresult rfl

instance steady_declareName (c : NameClass) (name : String) : (declareName c name).Steady :=
  ⟨fun _ _ _ => agrees_rescope (fun _ _ => Scopes.grows_declare) fun _ => Scopes.declare_ne_underflow⟩

theorem run_popScope_ok {s : State} {scopes : Scopes} (h : s.names.scopes.pop = .ok scopes) :
    popScope.run s = .ok () (s.withScopes scopes) := by
  show ((Action.rescope Scopes.pop _).run s).bind _ = _
  simp only [Action.run, Action.rescope, h]
  rfl

theorem run_popScope_error {s : State} {cause : ScopeCause}
    (h : s.names.scopes.pop = .error cause) :
    popScope.run s = (do fail (.scope cause (← here)) : Parse .name Unit).run s := by
  show ((Action.rescope Scopes.pop _).run s).bind _ = _
  simp only [Action.run, Action.rescope, h]
  rfl

/-- **A scope that is opened and closed again.** Whatever is declared inside is gone behind it. -/
theorem agrees_scoped {p p' : Parse .declare α} {next next' : α → Parse .declare β}
    (hp : p.Agrees m n Any R Never p')
    (hnext : ∀ a a', R a a' → (next a).Agrees m n Any S O' (next' a')) :
    ((pushScope : Parse .declare Unit) >>= fun _ => p >>= fun a =>
      (popScope : Parse .declare Unit) >>= fun _ => next a).Agrees m n K S O'
      ((pushScope : Parse .declare Unit) >>= fun _ => p' >>= fun a =>
      (popScope : Parse .declare Unit) >>= fun _ => next' a) := by
  intro s t hst hleft _ hnotes
  let inner := s.withScopes s.names.scopes.push
  have hinner : inner.Abreast m (t.withScopes t.names.scopes.push) :=
    hst.of_reaches (.single (.pushScope (Nat.le_refl _))) (.single (.pushScope (Nat.le_refl _)))
      { hst.toMatches with names := by simp only [inner, State.withScopes, hst.names] }
  obtain ⟨hinside, hlater⟩ := (hnotes.bind.2 () inner rfl).bind
  -- What is closed is what was opened, so that the scopes are those from before.
  have hclose : ∀ a a' u v, R a a' → u.Abreast m v → u.left < n → inner.Nests m u →
      ((popScope : Parse .declare Unit) >>= fun _ => next a).Notes m u →
      (((popScope : Parse .declare Unit) >>= fun _ => next a).run u).Matches m S
        (fun b w => (O' b → w.left < u.left) ∧ s.Nests m w)
        (((popScope : Parse .declare Unit) >>= fun _ => next' a').run v) := by
    intro a a' u v ha huv hlt hiu hnotes
    rw [Parse.run_bind, Parse.run_bind]
    show Outcome.Matches m S _ ((popScope.run u).bind _) ((popScope.run v).bind _)
    cases hpop : u.names.scopes.pop with
    | ok scopes =>
      have hpop' : v.names.scopes.pop = .ok scopes := by rw [huv.names, hpop]
      have hclosed : (u.withScopes scopes).Abreast m (v.withScopes scopes) :=
        huv.of_reaches (.single (.popScope (Nat.le_refl _) hpop))
          (.single (.popScope (Nat.le_refl _) hpop'))
          { huv.toMatches with names := by simp only [State.withScopes, huv.names] }
      have hbehind := hnotes.bind.2 () _ (run_popScope_ok hpop)
      rw [run_popScope_ok hpop, run_popScope_ok hpop']
      refine (hnext a a' ha hclosed hlt trivial hbehind).imp (fun _ _ h => h) ?_
      rintro b w ⟨howes, hgrows⟩
      refine ⟨howes, fun h => ?_⟩
      cases (hiu h).pop_push.symm.trans hpop
      exact hgrows h
    | error cause =>
      have hpop' : v.names.scopes.pop = .error cause := by rw [huv.names, hpop]
      rw [run_popScope_error hpop, run_popScope_error hpop']
      have hfail : (do fail (.scope cause (← here)) : Parse .name Unit).Agrees m n
          Any (fun _ _ => False) Never
          (do fail (.scope cause (← here))) := by
        refine .here fun _ _ hplace => .fail (congrArg (Fault.scope cause) hplace) ?_
        intro h
        cases (hiu h).pop_push.symm.trans hpop
      have houtcome := hfail huv hlt trivial fun _ => List.forall_mem_nil _
      generalize Parse.run _ u = o, Parse.run _ v = o' at houtcome
      cases houtcome with
      | ok ha => exact ha.elim
      | error hfault hscope huv => exact .error hfault hscope huv
  rw [Parse.run_bind, Parse.run_bind]
  show Outcome.Matches m S _ (Parse.run _ inner) (Parse.run _ (t.withScopes t.names.scopes.push))
  rw [Parse.run_bind, Parse.run_bind]
  have hlt : inner.left < n := hleft
  rcases hp.on.cases hinner hlt trivial hinside with
    ⟨a, a', u, v, hrun, hrun', ha, huv, hle, -, hiu⟩ |
    ⟨fault, fault', u, v, hrun, hrun', hfault, hscope, huv⟩
  · rw [hrun, hrun']
    refine (hclose a a' u v ha huv (by omega) hiu (hlater a u hrun)).imp (fun _ _ h => h)
      fun b w h => ⟨?_, h.2⟩
    exact fun hO => Nat.lt_of_lt_of_le (h.1 hO) hle
  · rw [hrun, hrun']
    exact .error hfault hscope huv

theorem agrees_scopedUntil {p p' : Parse .declare α} {next next' : α → Parse .declare β}
    (close : Kind) (what : String) (hp : p.Agrees m n Any R Never p')
    (hnext : ∀ a a', R a a' → (next a).Agrees m n Any S O' (next' a')) :
    ((pushScope : Parse .declare Unit) >>= fun _ => p >>= fun a => require close what >>= fun _ =>
      (popScope : Parse .declare Unit) >>= fun _ => next a).Agrees m n K S O'
      ((pushScope : Parse .declare Unit) >>= fun _ => p' >>= fun a => require close what >>= fun _ =>
      (popScope : Parse .declare Unit) >>= fun _ => next' a) := by
  have hinside := agrees_scoped (K := K) (p := p >>= fun a => require close what >>= fun _ => pure a)
    (.bind hp fun a a' ha => .step fun _ => .pure (R := R) ha) hnext
  simpa only [bind_assoc, pure_bind] using hinside

/-- A change that is worded in the state in which it is made, and a parse behind it. -/
theorem agreesAt_build {op op' : Build α} (h : op.Like m.see op')
    (hop : m.worded → op.Worded m.words s.store) :
    (build op).AgreesAt m n K Eq Never (build op') s t := by
  intro hst _ _ _
  have hchanged := h.apply hst.store
  have hrefused : ∀ fault, op.apply s.store = .error fault → ¬ fault.IsForeign :=
    fun _ => Build.not_isForeign
  have hwritten : ∀ a u, op.apply s.store = .ok (a, u) → m.worded → m.origin.Written m.words u :=
    fun a u hb w => (hst.written w).tail (.build op (hop w) hb)
  show (Action.run _ s).Matches m Eq _ (Action.run _ t)
  unfold Action.run
  dsimp only
  generalize op.apply s.store = o, op'.apply t.store = o' at hchanged hrefused hwritten
  cases hchanged with
  | ok a hlike =>
    exact .ok rfl ⟨False.elim, .refl s⟩ { hst.toMatches with
      store := hlike
      written := hwritten a _ rfl }
  | error hfault => exact .error hfault (fun _ => hrefused _ rfl) hst.toMatches

theorem agrees_build {op op' : Build α} (h : op.Like m.see op')
    (hop : m.worded → ∀ s, op.Worded m.words s) : (build op).Alike m n K (build op') :=
  fun s _ => agreesAt_build h fun w => hop w s.store

theorem agrees_warn (h : m.see place = m.see place') (text : String) :
    (warn place text).Alike m n K (warn place' text) :=
  agrees_build (.notice (.inr ⟨place, place', text, h, rfl, rfl⟩)) fun _ _ => trivial

end Rules

open Parse (Steady Agrees)

/-! ## Repetition -/

/-- A round of a loop that goes on, ends or fails alike in both texts. -/
inductive Outcome.Rounds (m : Matching) (R : α → α → Prop) (P : State → Prop)
    (Again : β → β → State → State → Prop) :
    Outcome (β ⊕ α) → Outcome (β ⊕ α) → Prop where
  | again {b b' : β} {s t : State} (h : Again b b' s t) :
      Rounds m R P Again (.ok (.inl b) s) (.ok (.inl b') t)
  | done {a a' : α} {s t : State} (ha : R a a') (hp : P s) (h : s.Matches m t) :
      Rounds m R P Again (.ok (.inr a) s) (.ok (.inr a') t)
  | error {fault fault' : Fault} {s t : State}
      (hfault : fault.relocate m.see = fault'.relocate m.see)
      (hscope : m.nested → ¬ fault.IsForeign) (h : s.Matches m t) :
      Rounds m R P Again (.error fault s) (.error fault' t)

/-- Loops whose rounds go alike, keep an invariant and lower a measure end alike, if there are more
rounds than the measure says. -/
theorem loopWithin_matches {R : α → α → Prop} {P : State → Prop}
    (Inv : β → β → State → State → Prop)
    (measure : β → State → Nat) {step step' : β → Parse e (β ⊕ α)}
    (hstep : ∀ b b' s t, Inv b b' s t → (step b).Notes m s → Outcome.Rounds m R P
      (fun c c' u v => Inv c c' u v ∧ measure c u < measure b s)
      ((step b).run s) ((step' b').run t))
    {k k' : Nat} {b b' : β} {s t : State} (h : Inv b b' s t) (hk : measure b s < k)
    (hk' : measure b s < k') (hnotes : (loopWithin k step b).Notes m s) :
    ((loopWithin k step b).run s).Matches m R (fun _ => P) ((loopWithin k' step' b').run t) := by
  induction k generalizing k' b b' s t with
  | zero => exact absurd hk (Nat.not_lt_zero _)
  | succ k ih =>
    obtain ⟨k', rfl⟩ : ∃ i, k' = i + 1 := ⟨k' - 1, by omega⟩
    obtain ⟨hfirst, hlater⟩ := Parse.Notes.bind hnotes
    have hround := hstep b b' s t h hfirst
    rw [loopWithin, loopWithin, Parse.run_bind, Parse.run_bind]
    generalize (step b).run s = o, (step' b').run t = o' at hround hlater
    cases hround with
    | again hnext => exact ih hnext.1 (by omega) (by omega) (hlater _ _ rfl)
    | done ha hp hst => exact .ok ha hp hst
    | error hfault hscope hst => exact .error hfault hscope hst

section Loops

variable {K : Kind → Prop} {R : α → α → Prop} {I : β → β → Prop} {O : α → Prop}
  {step step' : β → Parse e (β ⊕ α)} {b b' : β}

namespace Parse.Agrees

theorem loopWithin {k k' : Nat} (hk : m.size < k) (hk' : m.size' < k') (hb : I b b')
    (hstep : ∀ b b', I b b' → (step b).Agrees m n Any (Sum.LiftRel I R)
      (fun r => r.isLeft = true) (step' b')) :
    (loopWithin k step b).Agrees m n Any R Never
      (loopWithin k' step' b') := by
  intro s t hst hleft _ hnotes
  have hle := hst.toMatches.left_le hst.sound hst.sound'
  refine (loopWithin_matches (P := s.Nests m)
    (fun b b' u v => I b b' ∧ u.Abreast m v ∧ u.left < n ∧ s.Nests m u)
    (fun _ s => s.left) ?_ ⟨hb, hst, hleft, .refl s⟩ (by omega) (by omega) hnotes).imp
    (fun _ _ h => h) fun _ _ hsu => ⟨False.elim, hsu⟩
  rintro c c' u v ⟨hc, huv, hlt, hsu⟩ hnotes
  rcases (hstep c c' hc).on.cases huv hlt trivial hnotes with
    ⟨r, r', w, x, hrun, hrun', hr, hwx, hle', howes, huw⟩ |
    ⟨fault, fault', w, x, hrun, hrun', hfault, hscope, hwx⟩
  · rw [hrun, hrun']
    cases hr with
    | inl hd => exact .again ⟨⟨hd, hwx, by omega, hsu.trans huw⟩, howes rfl⟩
    | inr ha => exact .done ha (hsu.trans huw) hwx.toMatches
  · rw [hrun, hrun']
    exact .error hfault hscope hwx

/-- A loop each of whose rounds but the last takes a token, and what its first round does. -/
protected theorem loop_first
    (hfirst : (step b).Agrees m n K (Sum.LiftRel I R) (Sum.elim (fun _ => True) O) (step' b'))
    (hstep : ∀ b b', I b b' → (step b).Agrees m n Any (Sum.LiftRel I R)
      (fun r => r.isLeft = true) (step' b')) :
    (loop b step).Agrees m n K R O (loop b' step') := by
  refine .read fun r r' hr => ?_
  rw [hr.size, hr.size']
  refine .bind_cases hfirst (fun x x' hx _ => ?_) fun x x' hx hQ => ?_
  · cases hx with
    | inl hc =>
      exact .loopWithin (Nat.lt_succ_self _) (Nat.lt_succ_self _) hc fun c c' hc =>
        (hstep c c' hc).mono (Nat.sub_le n 1) fun _ h => h
    | inr ha => exact .pure ha
  · cases hx with
    | inl => exact absurd trivial hQ
    | inr ha => exact .done ha hQ

protected theorem loop (hb : I b b')
    (hstep : ∀ b b', I b b' → (step b).Agrees m n Any (Sum.LiftRel I R)
      (fun r => r.isLeft = true) (step' b')) :
    (loop b step).Agrees m n K R Never (loop b' step') := by
  refine .loop_first ?_ hstep
  refine ((hstep b b' hb).mono (Nat.le_refl n) fun _ _ => trivial).imp (fun _ _ h => h) ?_
  rintro (_ | _)
  · exact fun _ => rfl
  · exact False.elim

protected theorem loop_taking (hb : I b b')
    (hstep : ∀ b b', I b b' → (step b).Agrees m n Any (Sum.LiftRel I R)
      (fun _ => True) (step' b')) :
    (loop b step).Agrees m n K R O (loop b' step') := by
  refine .loop_first ?_ fun c c' hc => (hstep c c' hc).imp (fun _ _ h => h) fun _ _ => trivial
  exact ((hstep b b' hb).mono (Nat.le_refl n) fun _ _ => trivial).imp (fun _ _ h => h)
    fun _ _ => trivial

end Parse.Agrees

theorem sumRel_of_eq {r r' : β ⊕ α} (h : r = r') : Sum.LiftRel Eq Eq r r' := by
  subst h
  cases r with
  | inl b => exact .inl rfl
  | inr a => exact .inr rfl

namespace Parse.Agrees

protected theorem loop_eq (hstep : ∀ b, (step b).Agrees m n Any Eq
    (fun r => r.isLeft = true) (step' b)) : (loop b step).Alike m n K (loop b step') := by
  refine .loop (I := Eq) rfl ?_
  rintro c _ rfl
  exact (hstep c).weaken fun _ _ => sumRel_of_eq

protected theorem loop_taking_eq (hstep : ∀ b, (step b).Agrees m n Any Eq
    (fun _ => True) (step' b)) : (loop b step).Agrees m n K Eq O (loop b step') := by
  refine .loop_taking (I := Eq) rfl ?_
  rintro c _ rfl
  exact (hstep c).weaken fun _ _ => sumRel_of_eq

end Parse.Agrees

end Loops

section Many

variable {K : Kind → Prop} {R : α → α → Prop} {O : List α → Prop} {p p' : Parse e (Option α)}

theorem optionRel_of_eq {r r' : Option α} (h : r = r') : Option.Rel Eq r r' := by
  subst h
  cases r with
  | none => exact .none
  | some a => exact .some rfl

theorem eq_of_forall₂ (h : List.Forall₂ Eq l l') : l = l' := by
  rwa [List.forall₂_eq_eq_eq] at h

namespace Parse.Agrees

protected theorem many
    (hp : p.Agrees m n Any (Option.Rel R) (fun r => r.isSome = true) p') :
    (many p).Agrees m n K (List.Forall₂ R) Never (many p') := by
  refine .loop (I := List.Forall₂ R) .nil fun done done' hdone => ?_
  exact .found hp (fun _ _ ha => .pure (.inl (.cons ha hdone)))
    (.quit (.inr (List.rel_reverse hdone)) rfl)

/-- A repetition that gives at least one result. -/
protected theorem many_first
    (hfirst : p.Agrees m n K (fun r r' => ∃ a a', R a a' ∧ r = some a ∧ r' = some a')
      (fun _ => True) p')
    (hp : p.Agrees m n Any (Option.Rel R) (fun r => r.isSome = true) p') :
    (many p).Agrees m n K (fun l l' => List.Forall₂ R l l' ∧ l ≠ []) O (many p') := by
  refine .loop_first (I := fun l l' => List.Forall₂ R l l' ∧ l ≠ [])
    (.bind_after hfirst ?_) fun done done' hdone => ?_
  · rintro _ _ ⟨a, a', ha, rfl, rfl⟩
    exact .pure (.inl ⟨.cons ha .nil, List.cons_ne_nil _ _⟩)
  · refine .found hp (fun _ _ ha => .pure (.inl ⟨.cons ha hdone.1, List.cons_ne_nil _ _⟩))
      (.quit (.inr ⟨List.rel_reverse hdone.1, ?_⟩) rfl)
    exact mt List.reverse_eq_nil_iff.1 hdone.2

protected theorem many_eq (hp : p.Agrees m n Any Eq (fun r => r.isSome = true) p') :
    (many p).Alike m n K (many p') :=
  (Agrees.many (hp.weaken fun _ _ => optionRel_of_eq)).weaken fun _ _ => eq_of_forall₂

end Parse.Agrees

end Many

section Separated

variable {K : Kind → Prop} {R : α → α → Prop} {O : Prop} {p p' : Parse e α}

namespace Parse.Agrees

protected theorem separated (hp : p.Agrees m n Any R (fun _ => O) p') :
    (separated p).Agrees m n K (List.Forall₂ R) (fun _ => O) (separated p') := by
  have hrest : ∀ k ≤ n, (many (do if ← eat .comma then some <$> p else return none)).Agrees m k
      Any (List.Forall₂ R) Never
      (many (do if ← eat .comma then some <$> p' else return none)) := by
    intro k hk
    refine .many (.eat (by decide) ?_ (.quit .none rfl))
    exact .map_some (hp.mono ((Nat.sub_le k 1).trans hk) fun _ h => h).forget fun _ _ => .some
  refine .bind_cases (hp.mono (Nat.le_refl _) fun _ _ => trivial) (fun a a' ha _ => ?_)
    fun a a' ha hO => ?_
  · exact .bind (hrest _ (Nat.sub_le n 1)) fun _ _ hl => .pure (.cons ha hl)
  · exact .bind (hrest n (Nat.le_refl _)) fun _ _ hl => .done (.cons ha hl) hO

protected theorem separated_eq (hp : p.Agrees m n Any Eq (fun _ => O) p') :
    (separated p).Agrees m n K Eq (fun _ => O) (separated p') :=
  (Agrees.separated hp).weaken fun _ _ => eq_of_forall₂

end Parse.Agrees

end Separated

section Skipping

variable {K : Kind → Prop} {O : Unit → Prop}

theorem agrees_skipAll {kinds : List Kind} (hkinds : ¬ kinds.contains .eof = true) :
    (skipAll kinds : Parse e Unit).Alike m n K (skipAll kinds) :=
  .discard (.many_eq (.checkAny (.skip hkinds fun _ => .pure rfl) (.quit rfl rfl)))

theorem agrees_skipBalanced : (skipBalanced : Parse e Unit).Agrees m n K Eq O skipBalanced := by
  refine .loop_taking_eq fun depth => .kind fun k _ => ?_
  split
  case h_7 => exact .unexpected
  case h_8 hend => exact .skip (hend ·.symm) fun _ => .pure rfl
  all_goals exact .skip (by decide) fun _ => .pure rfl

instance steady_skipBalanced : (skipBalanced : Parse e Unit).Steady :=
  ⟨fun _ _ _ => agrees_skipBalanced⟩

theorem agrees_skipDeclaration :
    (skipDeclaration : Parse e Unit).Agrees m n K Eq O skipDeclaration := by
  refine .loop_taking_eq fun _ => .kind fun k _ => ?_
  split
  case h_1 => exact .skip (by decide) fun _ => .pure rfl
  case h_2 => exact .after agrees_skipBalanced fun _ => .step fun _ => .pure rfl
  case h_5 => exact .unexpected
  case h_6 hend => exact .skip (hend ·.symm) fun _ => .pure rfl
  all_goals exact .after agrees_skipBalanced fun _ => .pure rfl

end Skipping

/-! ## Lists and conditions -/

section Lists

variable {K : Kind → Prop} {R : α → α → Prop} {S : β → β → Prop}

namespace Parse.Agrees

protected theorem forM {f f' : α → Parse e PUnit} {l l' : List α} (hl : List.Forall₂ R l l')
    (hf : ∀ a a', R a a' → (f a).Alike m n Any (f' a')) :
    (l.forM f).Alike m n Any (l'.forM f') := by
  induction hl with
  | nil => exact .pure rfl
  | cons ha _ ih => exact .seq (hf _ _ ha) fun _ => ih

protected theorem mapM {f f' : α → Parse e β} {l l' : List α} (hl : List.Forall₂ R l l')
    (hf : ∀ a a', R a a' → (f a).Agrees m n Any S Never (f' a')) :
    (l.mapM f).Agrees m n Any (List.Forall₂ S) Never (l'.mapM f') := by
  induction hl with
  | nil => exact .pure .nil
  | cons ha _ ih =>
    rw [List.mapM_cons, List.mapM_cons]
    exact .bind (hf _ _ ha) fun _ _ hb => .bind ih fun _ _ hl => .pure (.cons hb hl)

/-- A condition on the next token and another one, and a parse behind both. -/
protected theorem check_and {O' : β → Prop} {q q' : Parse e Bool} {next next' : Bool → Parse e β}
    (hq : ∀ {next next' : Bool → Parse e β}, (∀ b, (next b).Agrees m n (· = k) S O' (next' b)) →
      (q >>= next).Agrees m n (· = k) S O' (q' >>= next'))
    (htrue : (next true).Agrees m n (· = k) S O' (next' true))
    (hfalse : (next false).Agrees m n Any S O' (next' false)) :
    ((check k <&&> q) >>= next).Agrees m n K S O' ((check k <&&> q') >>= next') := by
  unfold andM
  rw [bind_assoc, bind_assoc]
  refine .check (hq fun b => ?_) ?_
  · cases b with
    | true => exact htrue
    | false => exact hfalse.mono (Nat.le_refl n) fun _ _ => trivial
  · simp only [toBool, pure_bind]
    exact hfalse.mono (Nat.le_refl n) fun _ _ => trivial

end Parse.Agrees

instance steady_forM {f : α → Parse e PUnit} [∀ a, (f a).Steady] (l : List α) :
    (l.forM f).Steady where
  agrees m n K := by
    induction l generalizing K with
    | nil => exact .pure rfl
    | cons a l ih => exact .step fun _ => ih Any

instance steady_and {p q : Parse e Bool} [p.Steady] [q.Steady] : (p <&&> q).Steady where
  agrees _ _ _ := by
    refine .step fun b => ?_
    cases b with
    | true => exact .steady
    | false => exact .pure rfl

instance steady_or {p q : Parse e Bool} [p.Steady] [q.Steady] : (p <||> q).Steady where
  agrees _ _ _ := by
    refine .step fun b => ?_
    cases b with
    | true => exact .pure rfl
    | false => exact .steady

end Lists

end Grammar

end Serpentine

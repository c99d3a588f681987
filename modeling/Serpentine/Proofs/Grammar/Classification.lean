import Serpentine.Proofs.Sorted
import Serpentine.Session

/-!
# Types and values

A name of one part that a scope declares is a type or a value as the innermost scope has it, unless
it was made another name of a built-in type (**`isTypeName_eq_innermost_iff`**). Such names are kept
apart from the scopes, and are types from there on.
-/

namespace Serpentine.Grammar

variable {e : Effect} {s t u : State} {name : String}

theorem State.isSome_alias_addAlias (s : State) (type : Primitive) :
    ((s.addAlias name type).names.aliases.lookup name).isSome := by
  show (List.lookup name ((name, type) :: _)).isSome
  rw [List.lookup_cons_self]
  rfl

theorem Change.isSome_alias (h : Change e s t) (hs : (s.names.aliases.lookup name).isSome) :
    (t.names.aliases.lookup name).isSome := by
  cases h with
  | addAlias _ other type =>
    by_cases hname : name = other
    · subst hname
      exact s.isSome_alias_addAlias type
    · show (List.lookup name ((other, type) :: _)).isSome
      rw [List.lookup_cons, beq_eq_false_iff_ne.2 hname, lookup_filter_ne hname]
      exact hs
  | _ => exact hs

theorem Reaches.isSome_alias (h : Reaches e s t) (hs : (s.names.aliases.lookup name).isSome) :
    (t.names.aliases.lookup name).isSome := by
  induction h with
  | refl => exact hs
  | step _ change ih => exact change.isSome_alias (ih hs)
  | rewind _ _ before spec => exact spec (before hs)

/-- A typedef of a built-in type, without pointers, sizes and parameters. -/
structure IsPrimitiveTypedef (spec : TypeSpec) (d : Declarator) (name : String) : Prop where
  primitive : spec.primitive.isSome
  name : d.ident? = some name
  plain : (d.indirect || !d.arrays.isEmpty || d.params.isSome) = false

theorem IsPrimitiveTypedef.isSome_alias {spec : TypeSpec} {d : Declarator}
    (h : IsPrimitiveTypedef spec d name) (hrun : (commitTypedef spec d).run s = .ok () t) :
    (t.names.aliases.lookup name).isSome := by
  obtain ⟨primitive, hprimitive⟩ := Option.isSome_iff_exists.1 h.primitive
  unfold commitTypedef at hrun
  rw [h.name] at hrun
  simp only [h.plain, hprimitive] at hrun
  rw [Parse.run_bind] at hrun
  generalize Parse.run _ s = outcome at hrun
  cases outcome with
  | error fault u => cases hrun
  | ok a u =>
    cases hrun
    exact u.isSome_alias_addAlias primitive

theorem State.isTypeName_of_alias (h : (s.names.aliases.lookup name).isSome) :
    s.isTypeName [name] = true := by
  simp [isTypeName, h]

/-- **When the innermost scope decides.** A name that an open scope declares, and that is no
parameter of a template head around, is a type or a value as the innermost such scope has it exactly
if that is a type or the name was made no other name of a built-in type. At all points behind a
typedef that made it one, it is a type. -/
theorem isTypeName_eq_innermost_iff {c : NameClass}
    (hparams : t.templateParams.any (·.contains name) = false)
    (hc : t.names.scopes.classify name = some c) :
    (t.isTypeName [name] = (c == .type) ↔ t.names.aliases.lookup name = none ∨ c = .type) ∧
      ∀ {spec d}, IsPrimitiveTypedef spec d name → (commitTypedef spec d).run s = .ok () u →
        Reaches e u t → t.isTypeName [name] = true := by
  refine ⟨?_, fun htypedef hrun h => ?_⟩
  · cases halias : t.names.aliases.lookup name with
    | none =>
      rw [State.isTypeName, hparams, halias, Option.isSome_none, Bool.or_self, if_neg (by decide),
        hc]
      exact iff_of_true rfl (.inl rfl)
    | some type =>
      rw [State.isTypeName_of_alias (by rw [halias]; rfl)]
      cases c with
      | type => exact iff_of_true rfl (.inr rfl)
      | value => exact iff_of_false (by decide) (by simp)
  · exact State.isTypeName_of_alias (h.isSome_alias (htypedef.isSome_alias hrun))

/-- A value `T` in a scope behind `typedef int T;`. -/
theorem isTypeName_eq_innermost_iff_value :
    let d : Declarator := ⟨some ⟨[], .ident "T"⟩, false, [], none, default⟩
    let s := State.start "t.cpp" "" .empty (.empty "main")
    let u := ((commitTypedef (.ofPrimitive "int" (some .int)) d).run s).state
    let t := ((do pushScope; declareName .value "T" : Parse .name Unit).run u).state
    t.templateParams.any (·.contains "T") = false ∧ t.names.scopes.classify "T" = some .value ∧
      t.names.aliases.lookup "T" = some .int ∧ t.isTypeName ["T"] = true := by
  intro d s u t
  have hparams : t.templateParams.any (·.contains "T") = false := by decide
  have hc : t.names.scopes.classify "T" = some .value := by decide
  have htypedef : IsPrimitiveTypedef (.ofPrimitive "int" (some .int)) d "T" := ⟨rfl, rfl, rfl⟩
  have hrun : (commitTypedef (.ofPrimitive "int" (some .int)) d).run s = .ok () u := rfl
  exact ⟨hparams, hc, by decide,
    (isTypeName_eq_innermost_iff hparams hc).2 htypedef hrun (Parse.reaches _ u)⟩

/-- A cast is read where a parameter is meant, inside the scope of a typedef with its name and
behind it. The name of a class is shadowed by a parameter. -/
theorem scriptOf_shadowedTypedef :
    let script (text : String) := (scriptOf "main" [("t.cpp", text)]).result.toOption
    script "typedef int T; int f(int T) \x7b return (T) - 1; \x7d" =
        some "def f(T):\n    return int(-1)\n" ∧
      script "void f() \x7b typedef int T; \x7d int g(int T) \x7b return (T) - 1; \x7d" =
        some "def f():\n    pass\n\n\ndef g(T):\n    return int(-1)\n" ∧
      script "class T \x7b\x7d; int f(int T) \x7b return (T) - 1; \x7d" =
        some "class T:\n    pass\n\n\ndef f(T):\n    return (T) - 1\n" := by
  decide +kernel

end Serpentine.Grammar

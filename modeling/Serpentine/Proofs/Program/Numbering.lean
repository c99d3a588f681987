import Mathlib.Data.List.Nodup
import Serpentine.Program.Enumeration

/-!
# The numbering of enumerators

An enumerator without an initialiser is one more than the enumerator before it. This holds as well
behind an initialiser that is kept as written, whatever number it stands for
(**`Enumeration.reads_pushAll`**).
-/

namespace Serpentine

/-! ## 64-bit numbers -/

section Bounds

variable {l r m n v : Int}

theorem fitsInt64_iff :
    fitsInt64 n = true ↔ -9223372036854775808 ≤ n ∧ n ≤ 9223372036854775807 := by
  rw [fitsInt64, Bool.and_eq_true, decide_eq_true_eq, decide_eq_true_eq]

theorem fitsInt64_wrapInt64 (n : Int) : fitsInt64 (wrapInt64 n) = true := by
  rw [fitsInt64_iff, wrapInt64, Int.bmod]
  split <;> omega

theorem wrapInt64_eq_self_iff : wrapInt64 n = n ↔ fitsInt64 n = true := by
  rw [fitsInt64_iff, wrapInt64, Int.bmod]
  split <;> omega

theorem fitsInt64_of_checked (h : checkedInt64 m = some n) : fitsInt64 n = true := by
  obtain ⟨hfits, ⟨⟩⟩ := Option.ite_none_right_eq_some.1 h
  exact hfits

theorem fitsInt64_toInt (b : BitVec 64) : fitsInt64 b.toInt = true := by
  have hlower := b.le_toInt
  have hupper := b.toInt_lt
  rw [fitsInt64_iff]
  omega

theorem fitsInt64_tmod (hr : fitsInt64 r = true) (hne : r ≠ 0) : fitsInt64 (l.tmod r) = true := by
  have hlt : (l.tmod r).natAbs < r.natAbs :=
    Int.natAbs_tmod l r ▸ Nat.mod_lt _ (Int.natAbs_pos.2 hne)
  rw [fitsInt64_iff] at hr ⊢
  omega

theorem fitsInt64_fdiv (hl : fitsInt64 l = true) (k : Nat) :
    fitsInt64 (l.fdiv (Int.pow 2 k)) = true := by
  have hpos : (1 : Int) ≤ 2 ^ k := Int.pow_pos (by decide)
  rw [fitsInt64_iff] at hl ⊢
  change _ ≤ l.fdiv (2 ^ k) ∧ l.fdiv (2 ^ k) ≤ _
  generalize (2 : Int) ^ k = p at hpos ⊢
  rw [Int.fdiv_eq_ediv_of_nonneg _ (by omega)]
  refine ⟨(Int.le_ediv_iff_mul_le (by omega)).2 (by omega), Int.le_of_lt_add_one ?_⟩
  exact (Int.ediv_lt_iff_lt_mul (by omega)).2 (by omega)

theorem UnaryOp.fits_constant? (op : UnaryOp) (hv : fitsInt64 v = true)
    (h : op.constant? v = some n) : fitsInt64 n = true := by
  cases op with
  | neg => exact fitsInt64_of_checked h
  | plus => exact Option.some.inj h ▸ hv
  | bitNot =>
    obtain rfl := Option.some.inj h
    rw [fitsInt64_iff] at hv ⊢
    omega
  | not =>
    obtain rfl := Option.some.inj h
    split <;> rfl
  | deref | addressOf => cases h

theorem BinaryOp.fits_constant? (op : BinaryOp) (hl : fitsInt64 l = true)
    (hr : fitsInt64 r = true) (h : op.constant? l r = some n) : fitsInt64 n = true := by
  cases op with
  | add | sub | mul => exact fitsInt64_of_checked h
  | div => exact fitsInt64_of_checked (Option.ite_none_left_eq_some.1 h).2
  | mod =>
    obtain ⟨hne, h⟩ := Option.ite_none_left_eq_some.1 h
    obtain ⟨-, -, rfl⟩ := Option.map_eq_some_iff.1 h
    exact fitsInt64_tmod hr hne
  | shl =>
    obtain ⟨-, ⟨⟩⟩ := Option.ite_none_right_eq_some.1 h
    exact fitsInt64_wrapInt64 _
  | shr =>
    obtain ⟨-, ⟨⟩⟩ := Option.ite_none_right_eq_some.1 h
    exact fitsInt64_fdiv hl _
  | bitAnd | bitOr | bitXor => exact Option.some.inj h ▸ fitsInt64_toInt _
  | _ => cases h

theorem fitsInt64_intValue? {text : String} (h : Literal.intValue? text = some n) :
    fitsInt64 n = true := by
  have hint : ∀ {radix cs}, Literal.int? radix cs = some n → fitsInt64 n = true := by
    intro radix cs h
    unfold Literal.int? at h
    split at h <;>
    · obtain ⟨_, -, h⟩ := Option.bind_eq_some_iff.1 h
      exact fitsInt64_of_checked h
  unfold Literal.intValue? at h
  split at h <;> exact hint h

theorem fitsInt64_escapedValue? {c : Char} (h : escapedValue? c = some n) :
    fitsInt64 n = true := by
  unfold escapedValue? at h
  repeat' split at h
  all_goals cases h <;> rfl

theorem fitsInt64_charValue? {text : String} (h : charValue? text = some n) :
    fitsInt64 n = true := by
  unfold charValue? at h
  split at h
  · next c _ =>
    have hlt : c.toNat < 2 ^ 32 := c.val.toNat_lt
    rw [← Option.some.inj h, fitsInt64_iff]
    omega
  · exact fitsInt64_escapedValue? (Option.ite_none_right_eq_some.1 h).2
  · cases h

end Bounds

/-! ## Constants -/

namespace Enumeration

variable {e : Enumeration}

/-- The numbers of an enumeration are 64-bit numbers. -/
def Bounded (e : Enumeration) : Prop :=
  ∀ x ∈ e.enumerators, ∀ v, x.value = .int v → fitsInt64 v = true

theorem Bounded.value? (h : e.Bounded) {name : String} {v : Int} (hv : e.value? name = some v) :
    fitsInt64 v = true := by
  unfold Enumeration.value? at hv
  split at hv
  · next hfind =>
    cases hv
    exact h _ (List.mem_of_find?_eq_some hfind) v rfl
  · cases hv

theorem Bounded.constant? (h : e.Bounded) {init : Expr} {v : Int}
    (hv : e.constant? init = some v) : fitsInt64 v = true := by
  fun_induction Enumeration.constant? e init generalizing v with
  | case1 text => exact fitsInt64_intValue? hv
  | case2 text => exact fitsInt64_charValue? hv
  | case3 text =>
    obtain rfl := Option.some.inj hv
    split <;> rfl
  | case4 ref | case5 ref => exact h.value? hv
  | case6 inner ih | case7 type inner ih => exact ih hv
  | case8 op operand ih =>
    obtain ⟨w, hw, hv⟩ := Option.bind_eq_some_iff.1 hv
    exact op.fits_constant? (ih hw) hv
  | case9 op left right ihl ihr =>
    obtain ⟨l, hl, hv⟩ := Option.bind_eq_some_iff.1 hv
    obtain ⟨r, hr, hv⟩ := Option.bind_eq_some_iff.1 hv
    exact op.fits_constant? (ihl hl) (ihr hr) hv
  | case10 => cases hv

theorem Bounded.valueFor (h : e.Bounded) {init : Option Expr} {v : Int}
    (hv : e.valueFor init = .int v) : fitsInt64 v = true := by
  cases init with
  | none =>
    rw [Enumeration.valueFor, nextValue] at hv
    split at hv
    · cases hv
      rfl
    · split at hv
      · cases hv
        exact fitsInt64_wrapInt64 _
      · cases hv
      · cases hv
  | some init =>
    rw [Enumeration.valueFor] at hv
    split at hv
    · next hconstant =>
      cases hv
      exact h.constant? hconstant
    · cases hv

/-! ## Enumerators in turn -/

/-- The enumeration with its first enumerators only. -/
def take (e : Enumeration) (j : Nat) : Enumeration :=
  { e with enumerators := e.enumerators.take j }

/-- Each value is the one that its initialiser gives behind those before it. -/
def Numbered (e : Enumeration) : Prop :=
  ∀ j y, e.enumerators[j]? = some y → y.value = (e.take j).valueFor y.init

theorem numbered_empty (isScoped : Bool) : (empty isScoped).Numbered := by
  intro j y hy
  cases hy

theorem Numbered.push (h : e.Numbered) (name : String) (init : Option Expr) (place : Position) :
    (e.push name init place).Numbered := by
  intro j y hy
  rw [Enumeration.push, List.getElem?_append] at hy
  split at hy
  · next hlt =>
    have htake : (e.push name init place).take j = e.take j := by
      rw [take, take, Enumeration.push, List.take_append_of_le_length (Nat.le_of_lt hlt)]
    rw [htake]
    exact h j y hy
  · next hge =>
    rw [List.getElem?_singleton] at hy
    obtain ⟨hzero, ⟨⟩⟩ := Option.ite_none_right_eq_some.1 hy
    have hj : j = e.enumerators.length := by omega
    have htake : (e.push name init place).take j = e := by
      rw [take, Enumeration.push, List.take_left' hj.symm]
    rw [htake]

/-- An enumeration with enumerators that are added one by one: their names, initialisers and
places. -/
def pushAll (e : Enumeration) (items : List (String × Option Expr × Position)) : Enumeration :=
  items.foldl (fun e item => e.push item.1 item.2.1 item.2.2) e

theorem Numbered.pushAll (h : e.Numbered) (items : List (String × Option Expr × Position)) :
    (e.pushAll items).Numbered := by
  induction items generalizing e with
  | nil => exact h
  | cons item rest ih => exact ih (h.push item.1 item.2.1 item.2.2)

theorem map_enumerators_pushAll (e : Enumeration)
    (items : List (String × Option Expr × Position)) :
    (e.pushAll items).enumerators.map (fun x => (x.name, x.init, x.place)) =
      e.enumerators.map (fun x => (x.name, x.init, x.place)) ++ items := by
  induction items generalizing e with
  | nil => exact (List.append_nil _).symm
  | cons item rest ih =>
    refine (ih (e.push item.1 item.2.1 item.2.2)).trans ?_
    rw [Enumeration.push, List.map_append, List.append_assoc]
    rfl

theorem Numbered.bounded (h : e.Numbered) : e.Bounded := by
  have htake : ∀ j, (e.take j).Bounded := by
    intro j
    induction j with
    | zero =>
      intro x hx
      simp [take] at hx
    | succ j ih =>
      intro x hx v hv
      rw [take, List.take_add_one, List.mem_append, Option.mem_toList] at hx
      rcases hx with hx | hx
      · exact ih x hx v hv
      · exact ih.valueFor ((h j x hx).symm.trans hv)
  have hall : e.take e.enumerators.length = e := by rw [take, List.take_length]
  exact hall ▸ htake e.enumerators.length

/-! ## Successors -/

/-- The value that follows an enumerator. -/
def successor (x : Enumerator) : EnumValue :=
  match x.value with
  | .int v => .int (wrapInt64 (v + 1))
  | .expr _ => .offset x.name 1
  | .offset base amount => .offset base (amount + 1)

variable {i j : Nat} {x y : Enumerator}

theorem Numbered.first (h : e.Numbered) (hx : e.enumerators[0]? = some x) (hinit : x.init = none) :
    x.value = .int 0 := by
  rw [h 0 x hx, hinit]
  rfl

theorem Numbered.next (h : e.Numbered) (hx : e.enumerators[i]? = some x)
    (hy : e.enumerators[i + 1]? = some y) (hinit : y.init = none) : y.value = successor x := by
  have hlast : (e.take (i + 1)).enumerators.getLast? = some x := by
    rw [take, List.getLast?_take, if_neg (Nat.succ_ne_zero i), Nat.add_sub_cancel, hx]
    rfl
  rw [h _ y hy, hinit, Enumeration.valueFor, nextValue, hlast]
  rfl

/-- Only an enumerator without an initialiser counts from another. -/
theorem init_eq_none_of_valueFor {init : Option Expr} {base : String} {amount : Int}
    (h : e.valueFor init = .offset base amount) : init = none := by
  cases init with
  | none => rfl
  | some init =>
    rw [Enumeration.valueFor] at h
    split at h <;> cases h

/-- **An offset counts from an earlier enumerator** whose value is kept as written. -/
theorem Numbered.exists_base (h : e.Numbered) {base : String} {amount : Int}
    (hy : e.enumerators[j]? = some y) (hvalue : y.value = .offset base amount) :
    ∃ i x init, i < j ∧ e.enumerators[i]? = some x ∧ x.name = base ∧ x.value = .expr init := by
  have hinit := init_eq_none_of_valueFor ((h j y hy).symm.trans hvalue)
  induction j generalizing y amount with
  | zero =>
    rw [h.first hy hinit] at hvalue
    cases hvalue
  | succ i ih =>
    have hi : i < e.enumerators.length :=
      Nat.lt_of_succ_lt (List.getElem?_eq_some_iff.1 hy).1
    obtain ⟨x, hx⟩ : ∃ x, e.enumerators[i]? = some x := ⟨_, List.getElem?_eq_getElem hi⟩
    rw [h.next hx hy hinit, successor] at hvalue
    -- The enumerator before it is kept as written, or it counts from the same base.
    split at hvalue
    · cases hvalue
    · next init hinit =>
      cases hvalue
      exact ⟨i, x, init, Nat.lt_succ_self i, hx, rfl, hinit⟩
    · next hoffset =>
      cases hvalue
      obtain ⟨i', x', init, hlt, hrest⟩ := ih hx hoffset
        (init_eq_none_of_valueFor ((h i x hx).symm.trans hoffset))
      exact ⟨i', x', init, Nat.lt_succ_of_lt hlt, hrest⟩

/-! ## Readings -/

/-- The number that a value stands for. -/
inductive Reads (ν : Expr → Int) (e : Enumeration) : EnumValue → Int → Prop where
  | int (v : Int) : Reads ν e (.int v) v
  | expr (init : Expr) : Reads ν e (.expr init) (ν init)
  | offset {base : Enumerator} {n : Int} (amount : Int) (hbase : base ∈ e.enumerators)
      (hn : Reads ν e base.value n) : Reads ν e (.offset base.name amount) (n + amount)

variable {ν : Expr → Int} {value : EnumValue} {m n : Int}

/-- A value stands for one number if the names differ. -/
theorem Reads.unique (hnames : (e.enumerators.map (·.name)).Nodup) (hm : Reads ν e value m)
    (hn : Reads ν e value n) : m = n := by
  induction hm generalizing n with
  | int v =>
    cases hn
    rfl
  | expr init =>
    cases hn
    rfl
  | @offset base m amount hbase hm ih =>
    generalize hvalue : EnumValue.offset base.name amount = value at hn
    cases hn with
    | int v | expr init => cases hvalue
    | @offset base' n amount' hbase' hn =>
      injection hvalue with hname hamount
      have hsame : base = base' := List.inj_on_of_nodup_map hnames hbase hbase' hname
      subst hsame
      rw [ih hn, hamount]

/-- Every enumerator stands for a number. -/
theorem Numbered.exists_reads (h : e.Numbered) (ν : Expr → Int) (hx : x ∈ e.enumerators) :
    ∃ n, Reads ν e x.value n := by
  obtain ⟨j, hj⟩ := List.mem_iff_getElem?.1 hx
  cases hvalue : x.value with
  | int v => exact ⟨v, .int v⟩
  | expr init => exact ⟨ν init, .expr init⟩
  | offset base amount =>
    obtain ⟨i, b, init, -, hb, rfl, hinit⟩ := h.exists_base hj hvalue
    have hread : Reads ν e b.value (ν init) := hinit ▸ .expr init
    exact ⟨_, .offset amount (List.mem_of_getElem? hb) hread⟩

/-- **The value that follows an enumerator is one more**, unless it is the largest number. -/
theorem Numbered.reads_successor (h : e.Numbered) (hx : x ∈ e.enumerators)
    (hn : Reads ν e x.value n) (hmax : x.value ≠ .int 9223372036854775807) :
    Reads ν e (successor x) (n + 1) := by
  unfold successor
  split
  · next v hv =>
    have hfits := fitsInt64_iff.1 (h.bounded x hx v hv)
    have hne : v ≠ 9223372036854775807 := fun heq => hmax (heq ▸ hv)
    rw [hv] at hn
    cases hn
    rw [wrapInt64_eq_self_iff.2 (fitsInt64_iff.2 (by omega))]
    exact .int _
  · exact .offset 1 hx hn
  · next base amount hoffset =>
    rw [hoffset] at hn
    cases hn with
    | @offset b n amount hb hn =>
      rw [Int.add_assoc]
      exact .offset _ hb hn

/-- **Enumerators are numbered in turn.** Whatever numbers the initialisers stand for that are kept
as written, each enumerator stands for one number. Without an initialiser that is `0` for the first
one, and one more than the enumerator before for any other. An offset counts from an earlier
enumerator whose value is kept as written. -/
theorem reads_pushAll (isScoped : Bool) (items : List (String × Option Expr × Position))
    (hnames : (items.map (·.1)).Nodup) (ν : Expr → Int) :
    let e := (empty isScoped).pushAll items
    e.enumerators.map (fun x => (x.name, x.init, x.place)) = items ∧
      (∀ x ∈ e.enumerators, ∃ n, Reads ν e x.value n ∧ ∀ m, Reads ν e x.value m → m = n) ∧
      (∀ x : Enumerator, e.enumerators[0]? = some x → x.init = none → Reads ν e x.value 0) ∧
      (∀ (i : Nat) (x y : Enumerator) n, e.enumerators[i]? = some x →
        e.enumerators[i + 1]? = some y → y.init = none → Reads ν e x.value n →
          n < 9223372036854775807 → Reads ν e y.value (n + 1)) ∧
      ∀ (j : Nat) (y : Enumerator) base amount, e.enumerators[j]? = some y →
        y.value = .offset base amount → ∃ (i : Nat) (x : Enumerator) (init : Expr), i < j ∧
          e.enumerators[i]? = some x ∧ x.name = base ∧ x.value = .expr init := by
  intro e
  have hitems : e.enumerators.map (fun x => (x.name, x.init, x.place)) = items :=
    map_enumerators_pushAll (empty isScoped) items
  have hnumbered : e.Numbered := (numbered_empty isScoped).pushAll items
  have hdistinct : (e.enumerators.map (·.name)).Nodup := by
    rw [← hitems, List.map_map] at hnames
    exact hnames
  refine ⟨hitems, fun x hx => ?_, fun x hx hinit => ?_, fun i x y n hx hy hinit hn hlt => ?_,
    fun j y base amount hy hvalue => hnumbered.exists_base hy hvalue⟩
  · obtain ⟨n, hn⟩ := hnumbered.exists_reads ν hx
    exact ⟨n, hn, fun m hm => hm.unique hdistinct hn⟩
  · rw [hnumbered.first hx hinit]
    exact .int 0
  · rw [hnumbered.next hx hy hinit]
    refine hnumbered.reads_successor (List.mem_of_getElem? hx) hn fun hmax => ?_
    rw [hmax] at hn
    cases hn
    exact Int.lt_irrefl _ hlt

/-- Two enumerators behind an initialiser that is kept as written, and one behind a constant. -/
theorem reads_pushAll_limit :
    let place : Position := ⟨"t.cpp", 1, none⟩
    let limit : Expr := .name ⟨0, "limit", 0, place⟩
    let items := [("A", some limit, place), ("B", none, place), ("C", none, place),
      ("D", some (.literal .int "5"), place), ("E", none, place)]
    let e := (empty false).pushAll items
    (items.map (·.1)).Nodup ∧ e.enumerators.map (·.name) = ["A", "B", "C", "D", "E"] ∧
      (∃ c : Enumerator, e.enumerators[2]? = some c ∧ Reads (fun _ => 7) e c.value 9) ∧
      ∃ x : Enumerator, e.enumerators[4]? = some x ∧ Reads (fun _ => 7) e x.value 6 := by
  intro place limit items e
  have hnames : (items.map (·.1)).Nodup := by decide
  obtain ⟨-, -, -, hnext, -⟩ := reads_pushAll false items hnames fun _ => 7
  have hb := hnext 0 _ _ 7 rfl rfl rfl (.expr limit) (by decide)
  have hc := hnext 1 _ _ 8 rfl rfl rfl hb (by decide)
  exact ⟨hnames, rfl, ⟨_, rfl, hc⟩, _, rfl, hnext 3 _ _ 5 rfl rfl rfl (.int 5) (by decide)⟩

end Enumeration

end Serpentine

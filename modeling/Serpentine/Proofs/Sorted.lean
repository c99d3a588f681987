import Serpentine.Sorted

/-!
# Sorted tables

What a table holds once a value or an entry is put in, and that it stays in order.
-/

namespace Serpentine

theorem mem_of_lookup {α β : Type} [BEq α] [LawfulBEq α] {key : α} {value : β} {l : List (α × β)}
    (h : l.lookup key = some value) : (key, value) ∈ l := by
  obtain ⟨before, behind, rfl, -⟩ := List.lookup_eq_some_iff.1 h
  simp

theorem lookup_filter_ne {β : Type} {name key : String} (h : name ≠ key) (l : List (String × β)) :
    (l.filter (·.1 != key)).lookup name = l.lookup name := by
  induction l with
  | nil => rfl
  | cons entry rest ih =>
    obtain ⟨k, v⟩ := entry
    by_cases hk : k = key
    · subst hk
      rw [List.filter_cons_of_neg (by simp), ih, List.lookup_cons, beq_eq_false_iff_ne.2 h]
    · rw [List.filter_cons_of_pos (by simpa using hk), List.lookup_cons, List.lookup_cons, ih]

namespace Sorted

section Entries

variable {α β : Type} [LT α] [DecidableLT α]

theorem forall_insert {Q : α → Prop} {a : α} {l : List α} (ha : Q a) (h : ∀ b ∈ l, Q b) :
    ∀ b ∈ insert a l, Q b := by
  induction l with
  | nil => simpa [insert] using ha
  | cons b rest ih =>
    have hrest := List.forall_mem_cons.1 h
    rw [insert]
    split
    · exact List.forall_mem_cons.2 ⟨ha, h⟩
    · split
      · exact List.forall_mem_cons.2 ⟨hrest.1, ih hrest.2⟩
      · exact h

theorem forall_update {Q : α × β → Prop} {key : α} {f : Option β → β} {l : List (α × β)}
    (h : ∀ entry ∈ l, Q entry) (hnew : Q (key, f none))
    (hold : ∀ k v, Q (k, v) → Q (k, f (some v))) : ∀ entry ∈ update key f l, Q entry := by
  induction l with
  | nil => simpa [update] using hnew
  | cons entry rest ih =>
    obtain ⟨k, v⟩ := entry
    have hrest := List.forall_mem_cons.1 h
    rw [update]
    split
    · exact List.forall_mem_cons.2 ⟨hnew, h⟩
    · split
      · exact List.forall_mem_cons.2 ⟨hrest.1, ih hrest.2⟩
      · exact List.forall_mem_cons.2 ⟨hold k v hrest.1, hrest.2⟩

theorem mem_of_mem_update {key : α} {value : β} {entry : α × β} {l : List (α × β)}
    (h : entry ∈ update key (fun _ => value) l) : entry.2 = value ∨ entry ∈ l :=
  forall_update (Q := fun entry => entry.2 = value ∨ entry ∈ l) (fun _ => .inr) (.inl rfl)
    (fun _ _ _ => .inl rfl) entry h

theorem keys_update (key : α) (f : Option β → β) (l : List (α × β)) :
    (update key f l).map Prod.fst = insert key (l.map Prod.fst) := by
  induction l with
  | nil => rfl
  | cons entry rest ih =>
    obtain ⟨k, v⟩ := entry
    rw [update, List.map_cons, insert]
    split
    · rfl
    · split
      · rw [List.map_cons, ih]
      · rfl

theorem insert_insert (a : α) (l : List α) (h : ¬ a < a) : insert a (insert a l) = insert a l := by
  induction l with
  | nil => simp [insert, h]
  | cons b rest ih =>
    by_cases hlt : a < b
    · simp [insert, hlt, h]
    · by_cases hgt : b < a
      · simp [insert, hlt, hgt, ih]
      · simp [insert, hlt, hgt]

theorem update_update {key : α} {f : Option β → β} (h : ¬ key < key)
    (hf : ∀ old, f (some (f old)) = f old) (table : List (α × β)) :
    update key f (update key f table) = update key f table := by
  induction table with
  | nil => simp [update, h, hf]
  | cons entry rest ih =>
    obtain ⟨k, v⟩ := entry
    by_cases hlt : key < k
    · simp [update, hlt, h, hf]
    · by_cases hgt : k < key
      · simp [update, hlt, hgt, ih]
      · simp [update, hlt, hgt, hf]

theorem mem_insert [Std.Trichotomous (· < · : α → α → Prop)] {a b : α} {l : List α} :
    b ∈ insert a l ↔ b = a ∨ b ∈ l := by
  induction l with
  | nil => simp [insert]
  | cons c rest ih =>
    rw [insert]
    split
    · simp
    · split
      · rw [List.mem_cons, ih, List.mem_cons, or_left_comm]
      · next hac hca => simp [Std.Trichotomous.trichotomous a c hac hca]

theorem pairwise_insert [Trans (· < · : α → α → Prop) (· < · : α → α → Prop) (· < ·)] {a : α}
    {l : List α} (h : l.Pairwise (· < ·)) : (insert a l).Pairwise (· < ·) := by
  induction l with
  | nil => exact List.pairwise_singleton ..
  | cons b rest ih =>
    obtain ⟨hb, hrest⟩ := List.pairwise_cons.1 h
    rw [insert]
    split
    · next hab =>
      refine List.pairwise_cons.2 ⟨List.forall_mem_cons.2 ⟨hab, fun c hc => ?_⟩, h⟩
      exact Std.lt_trans hab (hb c hc)
    · split
      · next hba => exact List.pairwise_cons.2 ⟨forall_insert hba hb, ih hrest⟩
      · exact h

end Entries

theorem mem_foldl_insert {b : String} (names sorted : List String) :
    b ∈ names.foldl (fun sorted name => insert name sorted) sorted ↔ b ∈ sorted ∨ b ∈ names := by
  induction names generalizing sorted with
  | nil => simp
  | cons name rest ih => rw [List.foldl_cons, ih, mem_insert, List.mem_cons, or_assoc, or_left_comm]

end Sorted

end Serpentine

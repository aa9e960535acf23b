import Mathlib.Data.List.Basic
import Mathlib.Tactic.SplitIfs

/-!
# Lists searched by a key

A list of entries that are looked up, changed in place and removed by a key. Every operation acts
on the first entry with the key. An entry appended under a key that is there already is not found;
`AtMostOnce` says of a key that this has not happened, and is what makes a removal final
(`lookup_remove_self`).
-/

namespace KeyedList

variable {α κ : Type*} [DecidableEq κ] (key : α → κ)

/-- The first entry with the key. -/
def lookup (k : κ) (entries : List α) : Option α := entries.find? fun a ↦ key a = k

/-- Changes the first entry with the key. -/
def modify (k : κ) (f : α → α) : List α → List α
  | [] => []
  | a :: entries => if key a = k then f a :: entries else a :: modify k f entries

/-- Takes the first entry with the key out. -/
def remove (k : κ) (entries : List α) : List α := entries.eraseP fun a ↦ key a = k

/-- No two entries have the key. -/
def AtMostOnce (k : κ) (entries : List α) : Prop :=
  (entries.filter fun a ↦ key a = k).length ≤ 1

variable {key}

theorem lookup_cons (k : κ) (a : α) (entries : List α) :
    lookup key k (a :: entries) = if key a = k then some a else lookup key k entries := by
  by_cases h : key a = k <;> simp [lookup, h]

theorem lookup_append (k : κ) (entries more : List α) :
    lookup key k (entries ++ more) = (lookup key k entries).or (lookup key k more) :=
  List.find?_append

theorem key_of_lookup {k : κ} {entries : List α} {a : α} (h : lookup key k entries = some a) :
    key a = k := by
  simpa using List.find?_some h

theorem lookup_eq_none_iff {k : κ} {entries : List α} :
    lookup key k entries = none ↔ ∀ a ∈ entries, key a ≠ k := by
  simp [lookup, List.find?_eq_none]

/-! ### Changing an entry -/

theorem lookup_modify_self {k : κ} {f : α → α} (hf : ∀ a, key (f a) = key a) (entries : List α) :
    lookup key k (modify key k f entries) = (lookup key k entries).map f := by
  induction entries with
  | nil => rfl
  | cons a entries ih =>
    by_cases h : key a = k
    · simp [modify, lookup_cons, h, hf]
    · simp [modify, lookup_cons, h, ih]

theorem lookup_modify_of_ne {j k : κ} (hjk : j ≠ k) {f : α → α} (hf : ∀ a, key (f a) = key a)
    (entries : List α) : lookup key j (modify key k f entries) = lookup key j entries := by
  induction entries with
  | nil => rfl
  | cons a entries ih =>
    by_cases h : key a = k
    · have hj : key a ≠ j := fun hj ↦ hjk (hj.symm.trans h)
      simp [modify, lookup_cons, h, hf, Ne.symm hjk]
    · simp [modify, lookup_cons, h, ih]

theorem map_key_modify {k : κ} {f : α → α} (hf : ∀ a, key (f a) = key a) (entries : List α) :
    (modify key k f entries).map key = entries.map key := by
  induction entries with
  | nil => rfl
  | cons a entries ih =>
    by_cases h : key a = k
    · simp [modify, h, hf]
    · simp [modify, h, ih]

theorem modify_append_of_lookup_none {k : κ} {entries : List α} (h : lookup key k entries = none)
    (f : α → α) (more : List α) :
    modify key k f (entries ++ more) = entries ++ modify key k f more := by
  induction entries with
  | nil => rfl
  | cons a entries ih =>
    rw [lookup_cons] at h
    split_ifs at h with ha
    rw [List.cons_append, modify, if_neg ha, ih h, List.cons_append]

/-- An entry of the changed list is an old one, or the changed one. -/
theorem mem_modify {k : κ} {f : α → α} {entries : List α} {a : α}
    (h : a ∈ modify key k f entries) :
    a ∈ entries ∨ ∃ old, lookup key k entries = some old ∧ a = f old := by
  induction entries with
  | nil => exact .inl h
  | cons b entries ih =>
    rw [modify] at h
    rw [lookup_cons]
    split_ifs at h ⊢ with hb
    · rcases List.mem_cons.1 h with rfl | h
      · exact .inr ⟨b, rfl, rfl⟩
      · exact .inl (List.mem_cons_of_mem _ h)
    · rcases List.mem_cons.1 h with rfl | h
      · exact .inl (List.mem_cons_self ..)
      · exact (ih h).imp_left (List.mem_cons_of_mem _)

theorem mem_of_lookup {k : κ} {entries : List α} {a : α} (h : lookup key k entries = some a) :
    a ∈ entries :=
  List.mem_of_find?_eq_some h

theorem mem_of_mem_remove {k : κ} {entries : List α} {a : α} (h : a ∈ remove key k entries) :
    a ∈ entries :=
  List.mem_of_mem_eraseP h

/-! ### One entry for a key -/

theorem atMostOnce_iff_count {k : κ} {entries : List α} :
    AtMostOnce key k entries ↔ (entries.map key).count k ≤ 1 := by
  rw [AtMostOnce, List.count, List.countP_map, List.countP_eq_length_filter]
  rfl

/-- Where a key is found at most once, an entry with it is the one that is found. -/
theorem AtMostOnce.lookup_of_mem {k : κ} {entries : List α} {a : α} (h : AtMostOnce key k entries)
    (ha : a ∈ entries) (hk : key a = k) : lookup key k entries = some a := by
  induction entries with
  | nil => cases ha
  | cons b entries ih =>
    by_cases hb : key b = k
    · have hrest : entries.filter (fun b ↦ key b = k) = [] := by
        rw [AtMostOnce, List.filter_cons_of_pos (by simpa using hb)] at h
        exact List.length_eq_zero_iff.1 (by simpa using h)
      rcases List.mem_cons.1 ha with rfl | ha
      · rw [lookup_cons, if_pos hk]
      · exact absurd (by simpa using hk) (List.filter_eq_nil_iff.1 hrest a ha)
    · have ha' : a ∈ entries := (List.mem_cons.1 ha).resolve_left fun hab ↦ hb (hab ▸ hk)
      rw [AtMostOnce, List.filter_cons_of_neg (by simpa using hb)] at h
      rw [lookup_cons, if_neg hb]
      exact ih h ha'

theorem AtMostOnce.modify {j k : κ} {f : α → α} (hf : ∀ a, key (f a) = key a) {entries : List α}
    (h : AtMostOnce key j entries) : AtMostOnce key j (modify key k f entries) := by
  rw [atMostOnce_iff_count] at h ⊢
  rwa [map_key_modify hf]

theorem AtMostOnce.remove {j k : κ} {entries : List α} (h : AtMostOnce key j entries) :
    AtMostOnce key j (remove key k entries) :=
  Nat.le_trans (List.eraseP_sublist.filter _).length_le h

theorem AtMostOnce.append {j : κ} {entries : List α} {a : α} (h : AtMostOnce key j entries)
    (hnew : key a = j → lookup key j entries = none) : AtMostOnce key j (entries ++ [a]) := by
  rw [AtMostOnce, List.filter_append, List.length_append]
  by_cases ha : key a = j
  · have hnone : entries.filter (fun b ↦ key b = j) = [] := by
      have := hnew ha
      rw [lookup, List.find?_eq_none] at this
      exact List.filter_eq_nil_iff.2 this
    simp [hnone, ha]
  · simpa [AtMostOnce, ha] using h

/-- The key of the last entry is no other entry's, if it is there at most once. -/
theorem AtMostOnce.lookup_of_append {entries : List α} {a : α}
    (h : AtMostOnce key (key a) (entries ++ [a])) : lookup key (key a) entries = none := by
  rw [AtMostOnce, List.filter_append, List.length_append,
    List.filter_cons_of_pos (by simp), List.length_cons] at h
  have hlength : (entries.filter fun b ↦ key b = key a).length = 0 := by omega
  exact List.find?_eq_none.2 (List.filter_eq_nil_iff.1 (List.length_eq_zero_iff.1 hlength))

/-! ### Taking an entry out -/

theorem remove_cons (k : κ) (a : α) (entries : List α) :
    remove key k (a :: entries) = if key a = k then entries else a :: remove key k entries := by
  by_cases h : key a = k <;> simp [remove, h]

theorem lookup_remove_of_ne {j k : κ} (hjk : j ≠ k) (entries : List α) :
    lookup key j (remove key k entries) = lookup key j entries := by
  induction entries with
  | nil => rfl
  | cons a entries ih =>
    by_cases h : key a = k
    · have hj : key a ≠ j := fun hj ↦ hjk (hj.symm.trans h)
      rw [remove_cons, if_pos h, lookup_cons, if_neg hj]
    · rw [remove_cons, if_neg h, lookup_cons, lookup_cons, ih]

/-- Where a key is found at most once, it is gone after a removal. -/
theorem lookup_remove_self {k : κ} {entries : List α} (h : AtMostOnce key k entries) :
    lookup key k (remove key k entries) = none := by
  induction entries with
  | nil => rfl
  | cons a entries ih =>
    by_cases ha : key a = k
    · have hrest : entries.filter (fun b ↦ key b = k) = [] := by
        rw [AtMostOnce, List.filter_cons_of_pos (by simpa using ha)] at h
        exact List.length_eq_zero_iff.1 (by simpa using h)
      rw [remove_cons, if_pos ha, lookup, List.find?_eq_none]
      exact List.filter_eq_nil_iff.1 hrest
    · rw [AtMostOnce, List.filter_cons_of_neg (by simpa using ha)] at h
      rw [remove_cons, if_neg ha, lookup_cons, if_neg ha, ih h]

theorem remove_of_lookup_none {k : κ} {entries : List α} (h : lookup key k entries = none) :
    remove key k entries = entries :=
  List.eraseP_of_forall_not (List.find?_eq_none.1 h)

theorem remove_append_of_lookup_none {k : κ} {entries : List α}
    (h : lookup key k entries = none) (more : List α) :
    remove key k (entries ++ more) = entries ++ remove key k more :=
  List.eraseP_append_right _ (List.find?_eq_none.1 h)

theorem remove_append_of_lookup {k : κ} {entries : List α} (h : (lookup key k entries).isSome)
    (more : List α) : remove key k (entries ++ more) = remove key k entries ++ more := by
  obtain ⟨a, ha⟩ := Option.isSome_iff_exists.1 h
  exact List.eraseP_append_left (List.find?_some ha) _ (mem_of_lookup ha)

theorem perm_cons_remove {k : κ} {entries : List α} {a : α} (h : lookup key k entries = some a) :
    entries.Perm (a :: remove key k entries) := by
  induction entries with
  | nil => cases h
  | cons b entries ih =>
    rw [lookup_cons] at h
    rw [remove_cons]
    split_ifs at h ⊢ with hb
    · obtain rfl : b = a := Option.some.inj h
      exact List.Perm.refl _
    · exact ((ih h).cons b).trans (List.Perm.swap ..)

end KeyedList

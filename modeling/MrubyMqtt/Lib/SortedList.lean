import Mathlib.Order.Lattice
import MrubyMqtt.Lib.KeyedList

/-!
# Lists sorted by a key

A list sorted by a key and without two entries of one key is a map whose keys can be gone through in
order. Putting an entry in, looking one up and taking one out all act at the place of a key; where
that place is known (`AtPlace`) they are computed at once.
-/

namespace KeyedList

variable {α κ : Type*} [LinearOrder κ] (key : α → κ)

/-- Puts an entry in, in place of the one with its key if there is one. -/
def place (x : α) : List α → List α
  | [] => [x]
  | y :: entries =>
    if key x < key y then x :: y :: entries
    else if key x = key y then x :: entries
    else y :: place x entries

theorem mem_of_mem_place {x a : α} {entries : List α} (h : a ∈ place key x entries) :
    a = x ∨ a ∈ entries := by
  induction entries with
  | nil => exact .inl (List.mem_singleton.1 h)
  | cons y entries ih =>
    rw [place] at h
    split_ifs at h with hlt heq
    · exact List.mem_cons.1 h
    · exact (List.mem_cons.1 h).imp_right (List.mem_cons_of_mem _)
    · rcases List.mem_cons.1 h with rfl | h
      · exact .inr (List.mem_cons_self ..)
      · exact (ih h).imp_right (List.mem_cons_of_mem _)

theorem lookup_place_self (x : α) (entries : List α) :
    lookup key (key x) (place key x entries) = some x := by
  induction entries with
  | nil => rw [place, lookup_cons, if_pos rfl]
  | cons y entries ih =>
    rw [place]
    split_ifs with hlt heq
    · rw [lookup_cons, if_pos rfl]
    · rw [lookup_cons, if_pos rfl]
    · rw [lookup_cons, if_neg (Ne.symm heq), ih]

theorem lookup_place_of_ne {x : α} {k : κ} (hne : key x ≠ k) (entries : List α) :
    lookup key k (place key x entries) = lookup key k entries := by
  induction entries with
  | nil => rw [place, lookup_cons, if_neg hne]
  | cons y entries ih =>
    rw [place]
    split_ifs with hlt heq
    · rw [lookup_cons, if_neg hne]
    · rw [lookup_cons, lookup_cons, if_neg hne, if_neg (heq ▸ hne)]
    · rw [lookup_cons, lookup_cons, ih]

/-- An entry with a new key. -/
theorem perm_place {x : α} {entries : List α} (h : lookup key (key x) entries = none) :
    (place key x entries).Perm (x :: entries) := by
  induction entries with
  | nil => exact List.Perm.refl _
  | cons y entries ih =>
    have hne : key y ≠ key x := fun he ↦ by simp [lookup_cons, he] at h
    rw [lookup_cons, if_neg hne] at h
    rw [place, if_neg hne.symm]
    split_ifs
    · exact List.Perm.refl _
    · exact ((ih h).cons y).trans (List.Perm.swap ..)

theorem atMostOnce_of_pairwise {entries : List α}
    (h : entries.Pairwise fun a b ↦ key a < key b) (k : κ) : AtMostOnce key k entries := by
  have hnodup : (entries.map key).Nodup := List.pairwise_map.2 (h.imp fun hlt ↦ hlt.ne)
  exact atMostOnce_iff_count.2 (List.nodup_iff_count.1 hnodup k)

/-- The list has `old` at the place of the key, with `B` before it and `A` behind it. -/
structure AtPlace (k : κ) (B : List α) (old : Option α) (A : List α) : Prop where
  /-- What comes before has smaller keys. -/
  before : ∀ x ∈ B, key x < k
  /-- What comes after has greater ones. -/
  after : ∀ x ∈ A, k < key x
  /-- What is there has the key. -/
  old : ∀ x ∈ old, key x = k

namespace AtPlace

variable {key} {k : κ} {A B : List α} {old : Option α}

theorem tail {b : α} (h : AtPlace key k (b :: B) old A) : AtPlace key k B old A :=
  ⟨fun x hx ↦ h.before x (List.mem_cons_of_mem _ hx), h.after, h.old⟩

/-- Every entry of a sorted list is at the place of its key. -/
theorem of_pairwise {x : α} (h : (B ++ (some x).toList ++ A).Pairwise fun a b ↦ key a < key b) :
    AtPlace key (key x) B (some x) A := by
  obtain ⟨hleft, -, hacross⟩ := List.pairwise_append.1 h
  have hx : x ∈ B ++ (some x).toList := List.mem_append_right _ (List.mem_singleton_self x)
  exact ⟨fun b hb ↦ (List.pairwise_append.1 hleft).2.2 b hb x (List.mem_singleton_self x),
    fun a ha ↦ hacross x hx a ha, fun y hy ↦ congrArg key (Option.some.inj hy).symm⟩

theorem lookup_eq (h : AtPlace key k B old A) : lookup key k (B ++ old.toList ++ A) = old := by
  induction B with
  | nil =>
    cases old with
    | none =>
      refine List.find?_eq_none.2 fun x hx ↦ ?_
      simpa using (h.after x hx).ne'
    | some x =>
      show lookup key k (x :: A) = some x
      rw [lookup_cons, if_pos (h.old x rfl)]
  | cons b B ih =>
    show lookup key k (b :: (B ++ old.toList ++ A)) = old
    rw [lookup_cons, if_neg (h.before b (List.mem_cons_self ..)).ne]
    exact ih h.tail

theorem remove_eq (h : AtPlace key k B old A) : remove key k (B ++ old.toList ++ A) = B ++ A := by
  induction B with
  | nil =>
    cases old with
    | none =>
      refine List.eraseP_of_forall_not fun x hx ↦ ?_
      simpa using (h.after x hx).ne'
    | some x =>
      show remove key k (x :: A) = A
      rw [remove_cons, if_pos (h.old x rfl)]
  | cons b B ih =>
    show remove key k (b :: (B ++ old.toList ++ A)) = b :: (B ++ A)
    rw [remove_cons, if_neg (h.before b (List.mem_cons_self ..)).ne, ih h.tail]

theorem place_eq {x : α} (h : AtPlace key (key x) B old A) :
    place key x (B ++ old.toList ++ A) = B ++ x :: A := by
  induction B with
  | nil =>
    cases old with
    | none =>
      cases A with
      | nil => rfl
      | cons a A =>
        show place key x (a :: A) = x :: a :: A
        rw [place, if_pos (h.after a (List.mem_cons_self ..))]
    | some y =>
      have hy := h.old y rfl
      show place key x (y :: A) = x :: A
      rw [place, if_neg hy.not_gt, if_pos hy.symm]
  | cons b B ih =>
    have hb := h.before b (List.mem_cons_self ..)
    show place key x (b :: (B ++ old.toList ++ A)) = b :: (B ++ x :: A)
    rw [place, if_neg hb.not_gt, if_neg hb.ne', ih h.tail]

/-- Sorted it is with anything else in the same place. -/
theorem pairwise (h : AtPlace key k B old A)
    (hsorted : (B ++ old.toList ++ A).Pairwise fun a b ↦ key a < key b) {new : Option α}
    (hnew : ∀ x ∈ new, key x = k) :
    (B ++ new.toList ++ A).Pairwise fun a b ↦ key a < key b := by
  obtain ⟨hleft, hA, -⟩ := List.pairwise_append.1 hsorted
  obtain ⟨hB, -, -⟩ := List.pairwise_append.1 hleft
  rw [List.pairwise_append, List.pairwise_append]
  refine ⟨⟨hB, ?_, fun b hb x hx ↦ ?_⟩, hA, fun b hb a ha ↦ ?_⟩
  · cases new with
    | none => exact List.Pairwise.nil
    | some x => exact List.pairwise_singleton _ x
  · rw [hnew x (by simpa using hx)]
    exact h.before b hb
  · rcases List.mem_append.1 hb with hb | hb
    · exact (h.before b hb).trans (h.after a ha)
    · rw [hnew b (by simpa using hb)]
      exact h.after a ha

end AtPlace

end KeyedList

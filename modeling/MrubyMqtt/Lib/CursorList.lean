import Mathlib.Data.List.TakeWhile
import MrubyMqtt.Lib.KeyedList

/-!
# Lists with a cursor

A list that remembers the entry found last. A search looks at this entry before it goes through the
list from the beginning, and a removal moves the cursor only if it takes out the entry there. What a
search finds therefore depends on the past of the list, unless there is at most one entry with the
key: then a list with a cursor is a list searched by a key (`find_eq_lookup`, `entries_unlink`,
`entries_modifyCurrent`).
-/

/-- A list, split in front of the cursor. -/
structure CursorList (α : Type*) where
  /-- The entries in front of the cursor. -/
  before : List α
  /-- The entry at the cursor, if any, and the others. -/
  after : List α

namespace CursorList

variable {α κ : Type*}

/-- A list without entries. -/
def empty : CursorList α := ⟨[], []⟩

/-- All entries. -/
def entries (l : CursorList α) : List α := l.before ++ l.after

/-- The entry at the cursor. -/
def current (l : CursorList α) : Option α := l.after.head?

/-- Appends an entry. A cursor behind the last entry stays behind it. -/
def append (l : CursorList α) (a : α) : CursorList α :=
  if l.after.isEmpty then ⟨l.before ++ [a], []⟩ else ⟨l.before, l.after ++ [a]⟩

/-- Changes the entry at the cursor. -/
def modifyCurrent (f : α → α) (l : CursorList α) : CursorList α := ⟨l.before, l.after.modifyHead f⟩

section Search

variable [DecidableEq κ] (key : α → κ)

/-- The entry at the cursor has the key. -/
def AtKey (k : κ) (l : CursorList α) : Prop := ∃ a ∈ l.current, key a = k

instance decidableAtKey (k : κ) (l : CursorList α) : Decidable (l.AtKey key k) :=
  inferInstanceAs (Decidable (∃ a ∈ l.current, key a = k))

/-- Moves the cursor to the first entry with the key. -/
def rewind (k : κ) (l : CursorList α) : CursorList α :=
  ⟨l.entries.takeWhile fun a ↦ key a ≠ k, l.entries.dropWhile fun a ↦ key a ≠ k⟩

/-- Moves the cursor to an entry with the key: the one it is at, or else the first. -/
def seek (k : κ) (l : CursorList α) : Option (CursorList α) :=
  if l.AtKey key k then some l
  else if (l.rewind key k).AtKey key k then some (l.rewind key k)
  else none

/-- The entry with the key that is found. -/
def find (k : κ) (l : CursorList α) : Option α := (l.seek key k).bind current

/-- Takes out the entry with the key that is found. The cursor moves on if it is at this entry. -/
def unlink (k : κ) (l : CursorList α) : CursorList α :=
  if l.AtKey key k then ⟨l.before, l.after.tail⟩
  else if (KeyedList.lookup key k l.before).isSome then ⟨KeyedList.remove key k l.before, l.after⟩
  else ⟨l.before, KeyedList.remove key k l.after⟩

end Search

@[simp] theorem entries_append (l : CursorList α) (a : α) :
    (l.append a).entries = l.entries ++ [a] := by
  rw [append]
  split_ifs with hafter
  · rw [entries, entries, List.isEmpty_iff.1 hafter, List.append_nil, List.append_nil]
  · rw [entries, entries, List.append_assoc]

variable {key : α → κ} {k : κ} {l l' : CursorList α}

/-- Where the cursor is at an entry with the key the list can be taken apart there. -/
theorem AtKey.exists_cons (h : l.AtKey key k) :
    ∃ before a after, l = ⟨before, a :: after⟩ ∧ key a = k := by
  obtain ⟨a, ha, hkey⟩ := h
  rcases l with ⟨before, - | ⟨b, after⟩⟩
  · cases ha
  · obtain rfl : b = a := Option.some.inj ha
    exact ⟨before, b, after, rfl, hkey⟩

theorem AtKey.mem (h : l.AtKey key k) : ∃ a ∈ l.entries, l.current = some a ∧ key a = k := by
  obtain ⟨before, a, after, rfl, hkey⟩ := h.exists_cons
  exact ⟨a, List.mem_append_right _ (List.mem_cons_self ..), rfl, hkey⟩

variable [DecidableEq κ]

@[simp] theorem entries_rewind : (l.rewind key k).entries = l.entries :=
  List.takeWhile_append_dropWhile

/-- A search moves the cursor, to an entry with the key, and nothing else. -/
theorem seek_spec (h : l.seek key k = some l') : l'.entries = l.entries ∧ l'.AtKey key k := by
  rw [seek] at h
  split_ifs at h with hat hfirst
  · obtain rfl := Option.some.inj h
    exact ⟨rfl, hat⟩
  · obtain rfl := Option.some.inj h
    exact ⟨entries_rewind, hfirst⟩

/-- A search fails only if there is no entry with the key. -/
theorem lookup_of_seek_none (h : l.seek key k = none) :
    KeyedList.lookup key k l.entries = none := by
  rw [seek] at h
  split_ifs at h with hat hfirst
  refine List.find?_eq_none.2 fun a ha hkey ↦ hfirst ?_
  have hne : (l.rewind key k).after ≠ [] := fun hnil ↦ by
    have hall := List.dropWhile_eq_nil_iff.1 hnil a ha
    exact of_decide_eq_true hall (of_decide_eq_true hkey)
  refine ⟨_, List.head?_eq_some_head hne, ?_⟩
  have hstop := List.head_dropWhile_not (fun a ↦ key a ≠ k) hne
  exact not_not.1 (of_decide_eq_false hstop)

/-- **One entry for a key.** Then it is the one that is found, -/
theorem find_eq_lookup (h : KeyedList.AtMostOnce key k l.entries) :
    l.find key k = KeyedList.lookup key k l.entries := by
  rw [find]
  rcases hseek : l.seek key k with - | l'
  · exact (lookup_of_seek_none hseek).symm
  · obtain ⟨hentries, hat⟩ := seek_spec hseek
    obtain ⟨a, ha, hcurrent, hkey⟩ := hat.mem
    rw [Option.bind_some, hcurrent, h.lookup_of_mem (hentries ▸ ha) hkey]

/-- Where the key is found at the cursor, it is not found in front of it. -/
theorem AtKey.lookup_before (hat : l.AtKey key k) (h : KeyedList.AtMostOnce key k l.entries) :
    KeyedList.lookup key k l.before = none := by
  obtain ⟨before, a, after, rfl, hkey⟩ := hat.exists_cons
  have h : ((before ++ a :: after).filter fun a ↦ key a = k).length ≤ 1 := h
  rw [List.filter_append, List.length_append, List.filter_cons_of_pos (by simpa using hkey),
    List.length_cons] at h
  have hlength : (before.filter fun a ↦ key a = k).length = 0 := by omega
  exact List.find?_eq_none.2 (List.filter_eq_nil_iff.1 (List.length_eq_zero_iff.1 hlength))

/-- the one that is taken out, -/
theorem entries_unlink (h : KeyedList.AtMostOnce key k l.entries) :
    (l.unlink key k).entries = KeyedList.remove key k l.entries := by
  rw [unlink]
  split_ifs with hat hbefore
  · have hnone := hat.lookup_before h
    obtain ⟨before, a, after, rfl, hkey⟩ := hat.exists_cons
    rw [entries, entries, KeyedList.remove_append_of_lookup_none hnone, KeyedList.remove_cons,
      if_pos hkey]
    rfl
  · rw [entries, entries, KeyedList.remove_append_of_lookup hbefore]
  · rw [entries, entries,
      KeyedList.remove_append_of_lookup_none (Option.not_isSome_iff_eq_none.1 hbefore)]

/-- and the one that is changed. -/
theorem entries_modifyCurrent (h : KeyedList.AtMostOnce key k l.entries) (hat : l.AtKey key k)
    (f : α → α) : (l.modifyCurrent f).entries = KeyedList.modify key k f l.entries := by
  have hnone := hat.lookup_before h
  obtain ⟨before, a, after, rfl, hkey⟩ := hat.exists_cons
  rw [modifyCurrent, entries, entries, KeyedList.modify_append_of_lookup_none hnone,
    KeyedList.modify, if_pos hkey]
  rfl

end CursorList

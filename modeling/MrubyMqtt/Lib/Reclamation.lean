import Mathlib.Data.List.Nodup
import Mathlib.Data.Set.Basic

/-!
# Records shared through a slot

Parties pass records to one another through one slot. Who wants a record copies it from the slot
and **holds** it for as long as it will still read it; a record is freed by a party that holds it,
which empties the slot some time later. Nothing tells a party that what it holds has been freed.

A `Reclamation` is a view of such a system at one moment, over any parties `ι` and records `α`. An
`Action` is what a step does to the view, `Moves` its effect and `Disciplined` the two things a step
may get wrong. `Sound` says that what anybody holds has not been freed, and that nothing has been
freed twice; the disciplined actions keep it (`Sound.step`).
-/

/-- Who holds which record, and what is in the slot. -/
structure Reclamation (ι α : Type*) where
  /-- What is in the slot. -/
  slot : Option α
  /-- The party has copied the record and will still read it. -/
  held : ι → α → Prop
  /-- The party has freed the record and has not emptied the slot yet. -/
  clearing : ι → α → Prop
  /-- The record has been allocated and has not been in the slot yet. -/
  fresh : ι → α → Prop
  /-- The records freed so far. -/
  freed : List α

namespace Reclamation

variable {ι α : Type*}

/-- What a step does. -/
inductive Action (ι α : Type*) where
  /-- At most, some party is done with a record. -/
  | quiet
  /-- A party copies a record from the slot. -/
  | load (i : ι) (m : α)
  /-- A party allocates a record. -/
  | allocate (i : ι) (m : α)
  /-- A party puts a record it has allocated into the slot. -/
  | publish (i : ι) (m : α)
  /-- A party frees a record. -/
  | free (i : ι) (m : α)
  /-- A party empties the slot. -/
  | clear (i : ι)

/-- The effect of each action. -/
inductive Moves (v v' : Reclamation ι α) : Action ι α → Prop
  /-- Nobody holds more than before. -/
  | quiet (hslot : v'.slot = v.slot) (hfreed : v'.freed = v.freed)
      (hheld : ∀ i m, v'.held i m → v.held i m)
      (hclearing : ∀ i m, v.clearing i m → v'.clearing i m)
      (hfresh : ∀ i m, v'.fresh i m → v.fresh i m) : Moves v v' .quiet
  /-- The party holds what is in the slot. -/
  | load (i : ι) (m : α) (hsource : v.slot = some m) (hslot : v'.slot = v.slot)
      (hfreed : v'.freed = v.freed) (hheld : ∀ j k, v'.held j k → v.held j k ∨ k = m)
      (hclearing : ∀ j k, v.clearing j k → v'.clearing j k)
      (hfresh : ∀ j k, v'.fresh j k → v.fresh j k) : Moves v v' (.load i m)
  /-- The record is new to everybody. -/
  | allocate (i : ι) (m : α) (hnew : m ∉ v.freed ∧ v.slot ≠ some m ∧ ∀ j, ¬ v.held j m)
      (hslot : v'.slot = v.slot) (hfreed : v'.freed = v.freed)
      (hheld : ∀ j k, v'.held j k → v.held j k)
      (hclearing : ∀ j k, v.clearing j k → v'.clearing j k)
      (hfresh : ∀ j k, v'.fresh j k → v.fresh j k ∨ k = m) : Moves v v' (.allocate i m)
  /-- The record was the party's own, and is fresh for nobody any more. -/
  | publish (i : ι) (m : α) (hsource : v.fresh i m) (hslot : v'.slot = some m)
      (hfreed : v'.freed = v.freed) (hheld : ∀ j k, v'.held j k → v.held j k)
      (hclearing : ∀ j k, v.clearing j k → v'.clearing j k)
      (hfresh : ∀ j k, v'.fresh j k → v.fresh j k ∧ k ≠ m) : Moves v v' (.publish i m)
  /-- The party has held the record and is done with it. -/
  | free (i : ι) (m : α) (hsource : v.held i m) (hslot : v'.slot = v.slot)
      (hfreed : v'.freed = v.freed ++ [m])
      (hheld : ∀ j k, v'.held j k → v.held j k ∧ j ≠ i)
      (hclearing : ∀ j k, v.clearing j k → v'.clearing j k) (hself : v'.clearing i m)
      (hfresh : ∀ j k, v'.fresh j k → v.fresh j k) : Moves v v' (.free i m)
  /-- The slot is empty. -/
  | clear (i : ι) (hslot : v'.slot = none) (hfreed : v'.freed = v.freed)
      (hheld : ∀ j k, v'.held j k → v.held j k)
      (hfresh : ∀ j k, v'.fresh j k → v.fresh j k) : Moves v v' (.clear i)

/-- **The discipline.** No record is copied from the slot while a party is between freeing it and
emptying the slot, and none is freed while another party holds it. -/
def Disciplined (v : Reclamation ι α) : Action ι α → Prop
  | .load _ m => ∀ i, ¬ v.clearing i m
  | .free i m => ∀ j, j ≠ i → ¬ v.held j m
  | _ => True

/-- Nothing freed is held, and nothing is freed twice. -/
structure Sound (v : Reclamation ι α) : Prop where
  /-- A record that is held has not been freed. -/
  live : ∀ i m, v.held i m → m ∉ v.freed
  /-- No record has been freed twice. -/
  once : v.freed.Nodup
  /-- A freed record is in the slot only until the party that has freed it empties the slot. -/
  stale : ∀ m, v.slot = some m → m ∈ v.freed → ∃ i, v.clearing i m
  /-- A fresh record is not in the slot, and neither held nor freed. -/
  unknown : ∀ i m, v.fresh i m → m ∉ v.freed ∧ v.slot ≠ some m ∧ ∀ j, ¬ v.held j m

/-- **The disciplined actions keep a view sound.** -/
theorem Sound.step {v v' : Reclamation ι α} {a : Action ι α} (hv : v.Sound) (hmoves : v.Moves v' a)
    (hdisciplined : v.Disciplined a) : v'.Sound := by
  cases hmoves with
  | quiet hslot hfreed hheld hclearing hfresh =>
    refine ⟨fun i m hm ↦ ?_, hfreed ▸ hv.once, fun m hm hmem ↦ ?_, fun i m hm ↦ ?_⟩
    · exact hfreed ▸ hv.live i m (hheld i m hm)
    · obtain ⟨i, hi⟩ := hv.stale m (hslot ▸ hm) (hfreed ▸ hmem)
      exact ⟨i, hclearing i m hi⟩
    · obtain ⟨hnot, hout, hfree⟩ := hv.unknown i m (hfresh i m hm)
      exact ⟨hfreed ▸ hnot, hslot ▸ hout, fun j hj ↦ hfree j (hheld j m hj)⟩
  | load i m hsource hslot hfreed hheld hclearing hfresh =>
    -- A freed record is in the slot only while a party is about to empty it.
    have hlive : m ∉ v.freed := fun hmem ↦
      (hv.stale m hsource hmem).elim hdisciplined
    refine ⟨fun j k hk ↦ ?_, hfreed ▸ hv.once, fun k hk hmem ↦ ?_, fun j k hk ↦ ?_⟩
    · rw [hfreed]
      rcases hheld j k hk with hold | rfl
      · exact hv.live j k hold
      · exact hlive
    · obtain ⟨j, hj⟩ := hv.stale k (hslot ▸ hk) (hfreed ▸ hmem)
      exact ⟨j, hclearing j k hj⟩
    · obtain ⟨hnot, hout, hfree⟩ := hv.unknown j k (hfresh j k hk)
      refine ⟨hfreed ▸ hnot, hslot ▸ hout, fun j' hj' ↦ ?_⟩
      rcases hheld j' k hj' with hold | rfl
      · exact hfree j' hold
      · exact hout hsource
  | allocate i m hnew hslot hfreed hheld hclearing hfresh =>
    refine ⟨fun j k hk ↦ ?_, hfreed ▸ hv.once, fun k hk hmem ↦ ?_, fun j k hk ↦ ?_⟩
    · exact hfreed ▸ hv.live j k (hheld j k hk)
    · obtain ⟨j, hj⟩ := hv.stale k (hslot ▸ hk) (hfreed ▸ hmem)
      exact ⟨j, hclearing j k hj⟩
    · have hknown : k ∉ v.freed ∧ v.slot ≠ some k ∧ ∀ j, ¬ v.held j k := by
        rcases hfresh j k hk with hold | rfl
        · exact hv.unknown j k hold
        · exact hnew
      exact ⟨hfreed ▸ hknown.1, hslot ▸ hknown.2.1, fun j' hj' ↦ hknown.2.2 j' (hheld j' k hj')⟩
  | publish i m hsource hslot hfreed hheld hclearing hfresh =>
    -- The slot holds a record nobody has seen before.
    obtain ⟨hnew, -, -⟩ := hv.unknown i m hsource
    refine ⟨fun j k hk ↦ ?_, hfreed ▸ hv.once, fun k hk hmem ↦ ?_, fun j k hk ↦ ?_⟩
    · exact hfreed ▸ hv.live j k (hheld j k hk)
    · obtain rfl : m = k := Option.some.inj (hslot.symm.trans hk)
      exact absurd (hfreed ▸ hmem) hnew
    · obtain ⟨hold, hne⟩ := hfresh j k hk
      obtain ⟨hnot, -, hfree⟩ := hv.unknown j k hold
      refine ⟨hfreed ▸ hnot, fun hin ↦ hne ?_, fun j' hj' ↦ hfree j' (hheld j' k hj')⟩
      exact (Option.some.inj (hslot.symm.trans hin)).symm
  | free i m hsource hslot hfreed hheld hclearing hself hfresh =>
    -- The party still held the record, so nobody has freed it before.
    have hlive : m ∉ v.freed := hv.live i m hsource
    have hmem : ∀ k, k ∈ v'.freed ↔ k ∈ v.freed ∨ k = m := fun k ↦ by
      rw [hfreed, List.mem_append, List.mem_singleton]
    refine ⟨fun j k hk ↦ ?_, ?_, fun k hk hfreed' ↦ ?_, fun j k hk ↦ ?_⟩
    · obtain ⟨hold, hne⟩ := hheld j k hk
      rw [hmem]
      rintro (hbefore | rfl)
      · exact hv.live j k hold hbefore
      · exact hdisciplined j hne hold
    · rw [hfreed]
      exact List.nodup_append.2 ⟨hv.once, List.nodup_singleton m, fun a ha b hb ↦
        (List.mem_singleton.1 hb) ▸ ne_of_mem_of_not_mem ha hlive⟩
    · rcases (hmem k).1 hfreed' with hbefore | rfl
      · obtain ⟨j, hj⟩ := hv.stale k (hslot ▸ hk) hbefore
        exact ⟨j, hclearing j k hj⟩
      · exact ⟨i, hself⟩
    · obtain ⟨hnot, hout, hfree⟩ := hv.unknown j k (hfresh j k hk)
      refine ⟨?_, hslot ▸ hout, fun j' hj' ↦ hfree j' (hheld j' k hj').1⟩
      rw [hmem]
      rintro (hbefore | rfl)
      · exact hnot hbefore
      · exact hfree i hsource
  | clear i hslot hfreed hheld hfresh =>
    refine ⟨fun j k hk ↦ ?_, hfreed ▸ hv.once, fun k hk ↦ ?_, fun j k hk ↦ ?_⟩
    · exact hfreed ▸ hv.live j k (hheld j k hk)
    · rw [hslot] at hk
      cases hk
    · obtain ⟨hnot, -, hfree⟩ := hv.unknown j k (hfresh j k hk)
      exact ⟨hfreed ▸ hnot, hslot ▸ nofun, fun j' hj' ↦ hfree j' (hheld j' k hj')⟩

end Reclamation

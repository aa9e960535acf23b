import MrubyMqtt.Heap

/-!
# Sizes and eyecatchers

What the heap's operations do to the eyecatcher behind a block. `mymalloc` rounds the requested size
up, so a write just behind what was requested may still fall into the block; where the request is a
multiple of sixteen, it falls into the eyecatcher (`endIntact_write_request`). The eyecatcher in
front of a block is out of reach of every write at an index.

`Benign h h'` collects what is true of everything but such a write: eyecatchers stay as they are,
so nothing is reported when a block is released, and a block keeps its size for as long as it lives.
-/

theorem heapRoundup_eq_self_iff {size : ℕ} : heapRoundup size = size ↔ size % 16 = 0 := by
  rw [heapRoundup]
  split_ifs <;> omega

namespace Block

/-- A write into the storage. -/
theorem endIntact_write_of_lt {blk : Block} {i : ℕ} (hi : i < blk.size) (b : UInt8) :
    (blk.write i b).endIntact = blk.endIntact := by
  rw [endIntact, endIntact, write_size, write_mem, List.drop_set_of_lt hi]

/-- A NUL just behind the storage. -/
theorem endIntact_write_size (blk : Block) : (blk.write blk.size 0).endIntact = false := by
  have hlen : blk.size < blk.mem.length := by
    rw [blk.length_mem]
    omega
  rw [endIntact, write_size, write_mem, List.drop_set, if_neg (Nat.lt_irrefl _), Nat.sub_self,
    List.drop_eq_getElem_cons hlen]
  rfl

theorem endIntact_copy {blk : Block} {bs : Bytes} (hroom : bs.length ≤ blk.size) :
    (blk.copy bs).endIntact = blk.endIntact := by
  have hbehind : ((bs ++ blk.mem.drop bs.length).take (blk.size + 4)).drop blk.size =
      blk.mem.drop blk.size := by
    have hfour : (blk.mem.drop blk.size).length ≤ blk.size + 4 - blk.size := by
      rw [List.length_drop, blk.length_mem]
    rw [List.drop_take, List.drop_append, List.drop_of_length_le hroom, List.nil_append,
      List.drop_drop, Nat.add_sub_of_le hroom, List.take_of_length_le hfour]
  rw [endIntact, endIntact, copy, hbehind]

end Block

namespace Heap

theorem endIntact_freshBlock (garbage : ℕ → UInt8) (size : ℕ) :
    (freshBlock garbage size).endIntact = true := by
  have hstorage : ((List.range (heapRoundup size)).map garbage).length = heapRoundup size := by simp
  rw [Block.endIntact, freshBlock, List.drop_left' hstorage]
  rfl

/-- **A NUL just behind what was requested** spares the eyecatcher exactly if the request was not a
multiple of sixteen. -/
theorem endIntact_write_request {blk : Block} {size : ℕ} (hsize : blk.size = heapRoundup size)
    (hintact : blk.endIntact = true) : (blk.write size 0).endIntact = true ↔ size % 16 ≠ 0 := by
  have hle := le_heapRoundup size
  rw [← hsize] at hle
  rcases eq_or_lt_of_le hle with heq | hlt
  · have hdiv : size % 16 = 0 := heapRoundup_eq_self_iff.1 (hsize.symm.trans heq.symm)
    rw [heq, Block.endIntact_write_size]
    simp [← heq, hdiv]
  · have hdiv : size % 16 ≠ 0 := fun h ↦ by
      rw [hsize, heapRoundup_eq_self_iff.2 h] at hlt
      exact lt_irrefl _ hlt
    rw [Block.endIntact_write_of_lt hlt, hintact]
    simp [hdiv]

/-- Every eyecatcher is what `mymalloc` put there. -/
def Intact (h : Heap) : Prop := ∀ a blk, h.blocks a = some blk → blk.endIntact = true

/-- What every operation does: addresses are handed out in order, and a block keeps its size for as
long as it lives. -/
structure Grows (h h' : Heap) : Prop where
  /-- No address is handed out twice. -/
  next : h.next ≤ h'.next
  /-- What is live and is not new was live, with the same size. -/
  size : ∀ a < h.next, ∀ blk', h'.blocks a = some blk' →
    ∃ blk, h.blocks a = some blk ∧ blk.size = blk'.size

theorem Grows.refl (h : Heap) : Grows h h := ⟨le_rfl, fun _ _ blk hblk ↦ ⟨blk, hblk, rfl⟩⟩

theorem Grows.trans {h h' h'' : Heap} (hg : Grows h h') (hg' : Grows h' h'') : Grows h h'' where
  next := hg.next.trans hg'.next
  size a ha blk'' hblk'' := by
    obtain ⟨blk', hblk', hsize'⟩ := hg'.size a (ha.trans_le hg.next) blk'' hblk''
    obtain ⟨blk, hblk, hsize⟩ := hg.size a ha blk' hblk'
    exact ⟨blk, hblk, hsize.trans hsize'⟩

/-- What an operation does that touches no eyecatcher. -/
structure Benign (h h' : Heap) : Prop extends Grows h h' where
  /-- No eyecatcher is damaged. -/
  intact : h.Intact → h'.Intact
  /-- So none is reported. -/
  damaged : h.Intact → h'.damaged = h.damaged

theorem Benign.refl (h : Heap) : Benign h h := ⟨.refl h, id, fun _ ↦ rfl⟩

theorem Benign.trans {h h' h'' : Heap} (hb : Benign h h') (hb' : Benign h' h'') : Benign h h'' where
  toGrows := hb.toGrows.trans hb'.toGrows
  intact hi := hb'.intact (hb.intact hi)
  damaged hi := (hb'.damaged (hb.intact hi)).trans (hb.damaged hi)

/-! ### The operations -/

theorem benign_mymalloc (h : Heap) (size : ℕ) : Benign h (h.mymalloc size).2 where
  next := Nat.le_succ _
  size a ha blk' hblk' := by
    rw [mymalloc_blocks_of_ne h size ha.ne] at hblk'
    exact ⟨blk', hblk', rfl⟩
  intact hi a blk hblk := by
    rcases eq_or_ne a h.next with rfl | hne
    · rw [mymalloc_blocks_self] at hblk
      rw [← Option.some.inj hblk]
      exact endIntact_freshBlock _ _
    · rw [mymalloc_blocks_of_ne h size hne] at hblk
      exact hi a blk hblk
  damaged _ := rfl

/-- A change in place. -/
theorem grows_modify (h : Heap) (a : ℕ) {f : Block → Block} (hf : ∀ blk, (f blk).size = blk.size) :
    Grows h (h.modify a f) where
  next := le_rfl
  size b _ blk' hblk' := by
    rcases eq_or_ne b a with rfl | hne
    · rw [modify_blocks_self] at hblk'
      obtain ⟨blk, hblk, rfl⟩ := Option.map_eq_some_iff.1 hblk'
      exact ⟨blk, hblk, (hf blk).symm⟩
    · rw [modify_blocks_of_ne h f hne] at hblk'
      exact ⟨blk', hblk', rfl⟩

theorem grows_write (h : Heap) (a i : ℕ) (b : UInt8) : Grows h (h.write a i b) :=
  h.grows_modify a fun _ ↦ rfl

/-- A change in place that stays inside the block. -/
theorem benign_modify {h : Heap} {a : ℕ} {f : Block → Block}
    (hsize : ∀ blk, (f blk).size = blk.size)
    (hf : ∀ blk, h.blocks a = some blk → (f blk).endIntact = blk.endIntact) :
    Benign h (h.modify a f) where
  toGrows := h.grows_modify a hsize
  intact hi b blk' hblk' := by
    rcases eq_or_ne b a with rfl | hne
    · rw [modify_blocks_self] at hblk'
      obtain ⟨blk, hblk, rfl⟩ := Option.map_eq_some_iff.1 hblk'
      rw [hf blk hblk]
      exact hi b blk hblk
    · rw [modify_blocks_of_ne h f hne] at hblk'
      exact hi b blk' hblk'
  damaged _ := rfl

/-- A write into the storage of the block. -/
theorem benign_write {h : Heap} {a i : ℕ} (hroom : ∀ blk, h.blocks a = some blk → i < blk.size)
    (b : UInt8) : Benign h (h.write a i b) :=
  benign_modify (fun _ ↦ rfl) fun blk hblk ↦ Block.endIntact_write_of_lt (hroom blk hblk) b

/-- Allocating and filling a block. -/
theorem benign_mymalloc_memcpy (h : Heap) {size : ℕ} {bs : Bytes} (hsize : bs.length ≤ size) :
    Benign h ((h.mymalloc size).2.memcpy h.next bs) := by
  refine (h.benign_mymalloc size).trans (benign_modify (fun _ ↦ rfl) fun blk hblk ↦ ?_)
  rw [mymalloc_blocks_self] at hblk
  obtain rfl := Option.some.inj hblk
  exact Block.endIntact_copy (hsize.trans (le_heapRoundup size))

/-- Allocating and filling a block, and terminating what is in it. -/
theorem benign_string (h : Heap) (string : Bytes) :
    Benign h (((h.mymalloc (string.length + 1)).2.memcpy h.next string).write h.next
      string.length 0) := by
  refine (h.benign_mymalloc_memcpy (Nat.le_succ _)).trans (benign_write (fun blk hblk ↦ ?_) 0)
  rw [memcpy, modify_blocks_self, mymalloc_blocks_self] at hblk
  obtain rfl := Option.some.inj hblk
  exact le_heapRoundup (string.length + 1)

/-- Releasing a block, seen from outside: its eyecatcher is checked. -/
theorem myfree_damaged {h : Heap} {a : ℕ} {blk : Block} (hblk : h.blocks a = some blk) :
    (h.myfree a).damaged = if blk.endIntact then h.damaged else h.damaged ++ [a] := by
  rw [myfree]
  split
  · rename_i hnone
    rw [hnone] at hblk
    cases hblk
  · rename_i blk' hblk'
    obtain rfl : blk' = blk := Option.some.inj (hblk'.symm.trans hblk)
    rfl

/-- A block that is not live cannot be released, and nothing changes but the report. -/
theorem myfree_of_dead {h : Heap} {a : ℕ} (hdead : h.blocks a = none) :
    (h.myfree a).blocks = h.blocks ∧ (h.myfree a).next = h.next ∧
      (h.myfree a).damaged = h.damaged := by
  rw [myfree]
  split
  · exact ⟨rfl, rfl, rfl⟩
  · rename_i blk hblk
    rw [hblk] at hdead
    cases hdead

/-- What is live after a release was live before, and is another block. -/
theorem blocks_of_myfree {h : Heap} {a b : ℕ} {blk : Block}
    (hblk : (h.myfree a).blocks b = some blk) :
    b ≠ a ∧ h.blocks b = some blk := by
  rcases hlive : h.blocks a with - | freed
  · rw [(myfree_of_dead hlive).1] at hblk
    refine ⟨?_, hblk⟩
    rintro rfl
    rw [hlive] at hblk
    cases hblk
  · rw [(myfree_of_live hlive).2.1] at hblk
    rcases eq_or_ne b a with rfl | hne
    · rw [Function.update_self] at hblk
      cases hblk
    · rw [Function.update_of_ne hne] at hblk
      exact ⟨hne, hblk⟩

theorem myfree_next (h : Heap) (a : ℕ) : (h.myfree a).next = h.next := by
  rcases hlive : h.blocks a with - | blk
  · exact (myfree_of_dead hlive).2.1
  · exact (myfree_of_live hlive).1

theorem benign_myfree (h : Heap) (a : ℕ) : Benign h (h.myfree a) where
  next := (h.myfree_next a).ge
  size b _ blk hblk := ⟨blk, (blocks_of_myfree hblk).2, rfl⟩
  intact hi b blk hblk := hi b blk (blocks_of_myfree hblk).2
  damaged hi := by
    rcases hlive : h.blocks a with - | blk
    · exact (myfree_of_dead hlive).2.2
    · rw [myfree_damaged hlive, hi a blk hlive]
      rfl

theorem benign_freeAll (h : Heap) (addresses : List ℕ) : Benign h (h.freeAll addresses) := by
  induction addresses generalizing h with
  | nil => exact .refl h
  | cons a addresses ih => exact (h.benign_myfree a).trans (ih (h.myfree a))

/-! ### Requests -/

/-- The block at `a` is one that `mymalloc` has built for `size` bytes. -/
def Requested (h : Heap) (a size : ℕ) : Prop :=
  ∃ blk, h.blocks a = some blk ∧ blk.size = heapRoundup size

/-- The address has been handed out, and if its block is live, it was built for this request. -/
def Fits (h : Heap) (request : ℕ × ℕ) : Prop :=
  request.1 < h.next ∧ ∀ blk, h.blocks request.1 = some blk → blk.size = heapRoundup request.2

/-- **A request is for ever.** -/
theorem Fits.grows {h h' : Heap} {request : ℕ × ℕ} (hf : h.Fits request) (hg : Grows h h') :
    h'.Fits request := by
  refine ⟨hf.1.trans_le hg.next, fun blk' hblk' ↦ ?_⟩
  obtain ⟨blk, hblk, hsize⟩ := hg.size request.1 hf.1 blk' hblk'
  rw [← hsize]
  exact hf.2 blk hblk

theorem fits_mymalloc (h : Heap) (size : ℕ) : (h.mymalloc size).2.Fits (h.next, size) := by
  refine ⟨Nat.lt_succ_self _, fun blk hblk ↦ ?_⟩
  rw [mymalloc_blocks_self] at hblk
  rw [← Option.some.inj hblk]
  rfl

theorem fits_mymalloc_memcpy (h : Heap) (size : ℕ) (bs : Bytes) :
    ((h.mymalloc size).2.memcpy h.next bs).Fits (h.next, size) :=
  (h.fits_mymalloc size).grows (grows_modify _ _ fun _ ↦ rfl)

theorem fits_string (h : Heap) (string : Bytes) :
    (((h.mymalloc (string.length + 1)).2.memcpy h.next string).write h.next string.length 0).Fits
      (h.next, string.length + 1) :=
  (h.fits_mymalloc_memcpy _ _).grows (grows_write ..)

theorem Fits.requested {h : Heap} {a size : ℕ} {bs : Bytes} (hf : h.Fits (a, size))
    (hlive : h.Holds a bs) : h.Requested a size := by
  obtain ⟨blk, hblk, -⟩ := hlive
  exact ⟨blk, hblk, hf.2 blk hblk⟩

end Heap

import Mathlib.Data.List.Nodup
import Mathlib.Logic.Function.Basic
import MrubyMqtt.Lib.Bytes

/-!
# Paho's tracked heap

The library is compiled with `malloc` and `free` redirected to `mymalloc` and `myfree`, which
record every live allocation, round its size up to a multiple of sixteen and put an eyecatcher
of four bytes at each end. A `Block` is the part of an allocation that a write at a non-negative
index can touch: the rounded storage followed by the end eyecatcher.

An address is a number, and names one allocation for ever: `mymalloc` never hands out an address
twice, where the C library may reuse memory. What a fresh block contains is not determined, so a
`Heap` carries an arbitrary `garbage` for it. That a heap never holds a block it has not handed out,
and that a freed address stays dead, are fields of `Heap`, so every heap that can be built has them.

`Holds h a bs` is how the proofs speak about a buffer: the block at `a` is live and begins with
`bs`. One frame lemma per operation says which addresses it leaves alone.
-/

/-- `Heap_roundup`: sizes are multiples of sixteen (`4 * sizeof(int)`). -/
def heapRoundup (size : ℕ) : ℕ :=
  if size % 16 ≠ 0 then size + (16 - size % 16) else size

theorem le_heapRoundup (size : ℕ) : size ≤ heapRoundup size := by
  rw [heapRoundup]
  split_ifs <;> omega

/-- The four bytes `0x88888888` that follow every block. -/
def eyecatcher : Bytes := [0x88, 0x88, 0x88, 0x88]

/-- A live allocation: its storage and the end eyecatcher behind it. -/
structure Block where
  /-- The rounded size, without eyecatchers. -/
  size : ℕ
  /-- The storage and the bytes of the end eyecatcher. -/
  mem : Bytes
  /-- The eyecatcher takes four bytes. -/
  length_mem : mem.length = size + 4

namespace Block

/-- Stores a byte. -/
def write (blk : Block) (i : ℕ) (b : UInt8) : Block where
  size := blk.size
  mem := blk.mem.set i b
  length_mem := by rw [List.length_set, blk.length_mem]

/-- `memcpy` to the front of the block. -/
def copy (blk : Block) (bs : Bytes) : Block where
  size := blk.size
  mem := (bs ++ blk.mem.drop bs.length).take (blk.size + 4)
  length_mem := by
    rw [List.length_take, List.length_append, List.length_drop, blk.length_mem]
    omega

/-- The end eyecatcher is what `mymalloc` put there. -/
def endIntact (blk : Block) : Bool := blk.mem.drop blk.size == eyecatcher

@[simp] theorem write_size (blk : Block) (i : ℕ) (b : UInt8) :
    (blk.write i b).size = blk.size := rfl

@[simp] theorem write_mem (blk : Block) (i : ℕ) (b : UInt8) :
    (blk.write i b).mem = blk.mem.set i b := rfl

end Block

/-- The heap: the record of live blocks and what `myfree` has been asked. -/
structure Heap where
  /-- The next address to hand out. -/
  next : ℕ
  /-- The live blocks. -/
  blocks : ℕ → Option Block
  /-- The addresses released so far, in order. -/
  freed : List ℕ
  /-- Calls of `myfree` that found nothing to remove. -/
  failedFrees : List ℕ
  /-- Blocks released with a damaged end eyecatcher. -/
  damaged : List ℕ
  /-- What a fresh block contains. -/
  garbage : ℕ → ℕ → UInt8
  /-- Nothing lives where nothing was handed out. -/
  blocks_next : ∀ a, next ≤ a → blocks a = none
  /-- A released address is dead. -/
  freed_dead : ∀ a ∈ freed, a < next ∧ blocks a = none
  /-- No address is released twice. -/
  freed_nodup : freed.Nodup

namespace Heap

/-- The heap after `Heap_initialize`. -/
def heapInitialize (garbage : ℕ → ℕ → UInt8) : Heap where
  next := 0
  blocks _ := none
  freed := []
  failedFrees := []
  damaged := []
  garbage := garbage
  blocks_next _ _ := rfl
  freed_dead := by simp
  freed_nodup := List.nodup_nil

/-- The block `mymalloc` builds: undetermined storage of the rounded size, then the eyecatcher. -/
def freshBlock (garbage : ℕ → UInt8) (size : ℕ) : Block where
  size := heapRoundup size
  mem := (List.range (heapRoundup size)).map garbage ++ eyecatcher
  length_mem := by simp [eyecatcher]

/-- `mymalloc`: the address handed out and the heap afterwards. -/
def mymalloc (h : Heap) (size : ℕ) : ℕ × Heap :=
  (h.next,
    { h with
      next := h.next + 1
      blocks := Function.update h.blocks h.next (some (freshBlock (h.garbage h.next) size))
      blocks_next := fun a ha ↦ by
        rw [Function.update_of_ne (by omega)]
        exact h.blocks_next a (by omega)
      freed_dead := fun a ha ↦ by
        have hdead := h.freed_dead a ha
        rw [Function.update_of_ne (by omega)]
        exact ⟨by omega, hdead.2⟩ })

/-- Changes a live block in place; an address that is not live is left alone. -/
def modify (h : Heap) (a : ℕ) (f : Block → Block) : Heap :=
  { h with
    blocks := Function.update h.blocks a ((h.blocks a).map f)
    blocks_next := fun b hb ↦ by
      rcases eq_or_ne b a with rfl | hne
      · rw [Function.update_self, h.blocks_next b hb, Option.map_none]
      · rw [Function.update_of_ne hne]
        exact h.blocks_next b hb
    freed_dead := fun b hb ↦ by
      have hdead := h.freed_dead b hb
      rcases eq_or_ne b a with rfl | hne
      · rw [Function.update_self, hdead.2, Option.map_none]
        exact ⟨hdead.1, rfl⟩
      · rw [Function.update_of_ne hne]
        exact hdead }

/-- `a[i] = b`. -/
def write (h : Heap) (a : ℕ) (i : ℕ) (b : UInt8) : Heap := h.modify a fun blk ↦ blk.write i b

/-- `memcpy(a, bs, bs.length)`. -/
def memcpy (h : Heap) (a : ℕ) (bs : Bytes) : Heap := h.modify a fun blk ↦ blk.copy bs

/-- The C string at an address, as `strlen` and `mrb_str_new_cstr` read it. -/
def cstr (h : Heap) (a : ℕ) : Bytes := ((h.blocks a).map fun blk ↦ blk.mem.cString).getD []

/-- `Heap_findItem`: is this the address of a live allocation? -/
def heapFindItem (h : Heap) (a : ℕ) : Bool := (h.blocks a).isSome

/-- `myfree`: an allocation that is recorded is checked and released; anything else is only
reported. -/
def myfree (h : Heap) (a : ℕ) : Heap :=
  match hblk : h.blocks a with
  | none => { h with failedFrees := h.failedFrees ++ [a] }
  | some blk =>
    { h with
      blocks := Function.update h.blocks a none
      freed := h.freed ++ [a]
      damaged := if blk.endIntact then h.damaged else h.damaged ++ [a]
      blocks_next := fun b hb ↦ by
        rcases eq_or_ne b a with rfl | hne
        · exact Function.update_self ..
        · rw [Function.update_of_ne hne]
          exact h.blocks_next b hb
      freed_dead := fun b hb ↦ by
        rcases eq_or_ne b a with rfl | hne
        · refine ⟨?_, Function.update_self ..⟩
          by_contra hge
          rw [h.blocks_next b (by omega)] at hblk
          cases hblk
        · rw [Function.update_of_ne hne]
          rcases List.mem_append.1 hb with hb | hb
          · exact h.freed_dead b hb
          · exact absurd (List.mem_singleton.1 hb) hne
      freed_nodup := by
        refine List.nodup_append.2 ⟨h.freed_nodup, List.nodup_singleton a, ?_⟩
        rintro b hb c hc rfl
        obtain rfl := List.mem_singleton.1 hc
        rw [(h.freed_dead b hb).2] at hblk
        cases hblk }

/-! ### What the operations do to the heap's records -/

theorem mymalloc_blocks_of_ne (h : Heap) (size : ℕ) {a : ℕ} (hne : a ≠ h.next) :
    (h.mymalloc size).2.blocks a = h.blocks a :=
  Function.update_of_ne hne _ _

theorem mymalloc_blocks_self (h : Heap) (size : ℕ) :
    (h.mymalloc size).2.blocks h.next = some (freshBlock (h.garbage h.next) size) :=
  Function.update_self ..

theorem modify_blocks_of_ne (h : Heap) {a b : ℕ} (f : Block → Block) (hne : b ≠ a) :
    (h.modify a f).blocks b = h.blocks b :=
  Function.update_of_ne hne _ _

theorem modify_blocks_self (h : Heap) (a : ℕ) (f : Block → Block) :
    (h.modify a f).blocks a = (h.blocks a).map f :=
  Function.update_self ..

/-- Releasing a live allocation, seen from outside. -/
theorem myfree_of_live {h : Heap} {a : ℕ} {blk : Block} (hlive : h.blocks a = some blk) :
    (h.myfree a).next = h.next ∧ (h.myfree a).blocks = Function.update h.blocks a none ∧
      (h.myfree a).freed = h.freed ++ [a] ∧ (h.myfree a).failedFrees = h.failedFrees := by
  rw [myfree]
  split
  · rename_i hnone
    rw [hnone] at hlive
    cases hlive
  · exact ⟨rfl, rfl, rfl, rfl⟩

theorem lt_next_of_live {h : Heap} {a : ℕ} {blk : Block} (hlive : h.blocks a = some blk) :
    a < h.next := by
  by_contra hge
  rw [h.blocks_next a (by omega)] at hlive
  cases hlive

/-- A write elsewhere does not change a C string. -/
theorem cstr_write_of_ne (h : Heap) {a b : ℕ} (hne : b ≠ a) (i : ℕ) (c : UInt8) :
    (h.write a i c).cstr b = h.cstr b := by
  rw [cstr, write, modify_blocks_of_ne h _ hne, cstr]

/-! ### Buffers with known contents -/

/-- The block at `a` is live and begins with `bs`. -/
def Holds (h : Heap) (a : ℕ) (bs : Bytes) : Prop :=
  ∃ blk, h.blocks a = some blk ∧ bs.length ≤ blk.size ∧ blk.mem.take bs.length = bs

namespace Holds

variable {h h' : Heap} {a : ℕ} {bs : Bytes}

/-- **Frame.** Contents depend on the block alone. -/
theorem congr (hb : h.Holds a bs) (heq : h'.blocks a = h.blocks a) : h'.Holds a bs := by
  obtain ⟨blk, hblk, hrest⟩ := hb
  exact ⟨blk, heq.trans hblk, hrest⟩

theorem lt_next (hb : h.Holds a bs) : a < h.next :=
  lt_next_of_live hb.choose_spec.1

theorem isLive (hb : h.Holds a bs) : h.heapFindItem a = true := by
  rw [heapFindItem, hb.choose_spec.1, Option.isSome_some]

/-- Allocating elsewhere leaves the contents alone: every allocation is elsewhere. -/
theorem mymalloc (hb : h.Holds a bs) (size : ℕ) : (h.mymalloc size).2.Holds a bs :=
  hb.congr (mymalloc_blocks_of_ne _ _ hb.lt_next.ne)

theorem modify (hb : h.Holds a bs) {b : ℕ} (hne : a ≠ b) (f : Block → Block) :
    (h.modify b f).Holds a bs :=
  hb.congr (modify_blocks_of_ne _ _ hne)

/-- A terminated buffer reads as its C string. -/
theorem cstr_eq (hb : h.Holds a (bs ++ [0])) : h.cstr a = bs.cString := by
  obtain ⟨blk, hblk, -, hmem⟩ := hb
  -- Behind the terminator the block may hold anything.
  have hsplit : blk.mem = bs ++ 0 :: blk.mem.drop (bs ++ [0]).length := by
    conv_lhs => rw [← List.take_append_drop (bs ++ [0]).length blk.mem, hmem]
    rw [List.append_assoc, List.singleton_append]
  rw [cstr, hblk, Option.map_some, Option.getD_some, hsplit, Bytes.cString_append_zero]

/-- Terminating a buffer within or just behind its contents cuts its C string there. -/
theorem cstr_write {n : ℕ} (hb : h.Holds a bs) (hn : n ≤ bs.length) :
    (h.write a n 0).cstr a = Bytes.cString (bs.take n) := by
  obtain ⟨blk, hblk, hsize, hmem⟩ := hb
  have hlen : n < blk.mem.length := by rw [blk.length_mem]; omega
  rw [cstr, Heap.write, modify_blocks_self, hblk, Option.map_some, Option.map_some,
    Option.getD_some, Block.write_mem, Bytes.cString_set_zero hlen, ← hmem, List.take_take,
    Nat.min_eq_left hn]

/-- Writing the byte behind the contents extends them. -/
theorem write_append (hb : h.Holds a bs) {b : UInt8} {blk : Block} (hblk : h.blocks a = some blk)
    (hroom : bs.length < blk.size) : (h.write a bs.length b).Holds a (bs ++ [b]) := by
  obtain ⟨blk', hblk', -, hmem⟩ := hb
  obtain rfl : blk' = blk := Option.some.inj (hblk'.symm.trans hblk)
  have hlen : bs.length < blk'.mem.length := by rw [blk'.length_mem]; omega
  refine ⟨blk'.write bs.length b, ?_, ?_, ?_⟩
  · rw [Heap.write, modify_blocks_self, hblk, Option.map_some]
  · rw [List.length_append, List.length_singleton, Block.write_size]
    omega
  · rw [Block.write_mem, List.length_append, List.length_singleton, List.take_add_one,
      List.take_set_of_le (Nat.le_refl _), hmem, List.getElem?_set_self hlen, Option.toList_some]

end Holds

/-- A block filled when it is allocated holds what was copied into it. -/
theorem holds_memcpy_mymalloc (h : Heap) {size : ℕ} {bs : Bytes} (hsize : bs.length ≤ size) :
    ((h.mymalloc size).2.memcpy h.next bs).Holds h.next bs := by
  have hroom : bs.length ≤ heapRoundup size := hsize.trans (le_heapRoundup size)
  refine ⟨(freshBlock (h.garbage h.next) size).copy bs, ?_, hroom, ?_⟩
  · rw [memcpy, modify_blocks_self, mymalloc_blocks_self, Option.map_some]
  · have hblock : bs.length ≤ (freshBlock (h.garbage h.next) size).size + 4 :=
      Nat.le_add_right_of_le hroom
    rw [Block.copy, List.take_take, Nat.min_eq_left hblock, List.take_left]

/-- Releasing a live block leaves every other block alone. -/
theorem Holds.myfree {h : Heap} {a b : ℕ} {bs : Bytes} (hb : h.Holds a bs) (hne : a ≠ b)
    (hlive : h.heapFindItem b = true) : (h.myfree b).Holds a bs := by
  obtain ⟨blk, hblk⟩ := Option.isSome_iff_exists.1 hlive
  refine hb.congr ?_
  rw [(myfree_of_live hblk).2.1, Function.update_of_ne hne]

/-! ### Disjoint buffers -/

/-- The heap has these blocks, all different, with these contents. -/
structure Owns (h : Heap) (cells : List (ℕ × Bytes)) : Prop where
  /-- The addresses differ. -/
  nodup : (cells.map Prod.fst).Nodup
  /-- Each block is live and begins with its contents. -/
  holds : ∀ c ∈ cells, h.Holds c.1 c.2

namespace Owns

variable {h : Heap} {a : ℕ} {bs : Bytes} {cells cells' : List (ℕ × Bytes)}

theorem nil (h : Heap) : h.Owns [] := ⟨List.nodup_nil, by simp⟩

/-- The order of the cells does not matter. -/
theorem perm (ho : h.Owns cells) (hperm : cells.Perm cells') : h.Owns cells' where
  nodup := (hperm.map Prod.fst).nodup_iff.1 ho.nodup
  holds c hc := ho.holds c (hperm.mem_iff.2 hc)

theorem head (ho : h.Owns ((a, bs) :: cells)) : h.Holds a bs := ho.holds _ List.mem_cons_self

theorem tail (ho : h.Owns ((a, bs) :: cells)) : h.Owns cells where
  nodup := (List.nodup_cons.1 ho.nodup).2
  holds c hc := ho.holds c (List.mem_cons_of_mem _ hc)

/-- Part of what is owned is owned. -/
theorem left (ho : h.Owns (cells ++ cells')) : h.Owns cells where
  nodup := by
    have hnodup := ho.nodup
    rw [List.map_append] at hnodup
    exact (List.nodup_append.1 hnodup).1
  holds c hc := ho.holds c (List.mem_append_left _ hc)

theorem ne_head (ho : h.Owns ((a, bs) :: cells)) {c : ℕ × Bytes} (hc : c ∈ cells) : c.1 ≠ a := by
  rintro rfl
  have hmem : c.1 ∈ cells.map Prod.fst := List.mem_map_of_mem hc
  exact (List.nodup_cons.1 ho.nodup).1 hmem

theorem fst_lt_next (ho : h.Owns cells) {b : ℕ} (hb : b ∈ cells.map Prod.fst) : b < h.next := by
  obtain ⟨c, hc, rfl⟩ := List.mem_map.1 hb
  exact (ho.holds c hc).lt_next

/-- The blocks that are left alone stay as they are; the head may change. -/
theorem modify_head {bs' : Bytes} (ho : h.Owns ((a, bs) :: cells)) {h' : Heap}
    (hother : ∀ b, b ≠ a → h'.blocks b = h.blocks b) (hhead : h'.Holds a bs') :
    h'.Owns ((a, bs') :: cells) where
  nodup := by simpa using ho.nodup
  holds c hc := by
    rcases List.mem_cons.1 hc with rfl | hc
    · exact hhead
    · exact (ho.tail.holds c hc).congr (hother _ (ho.ne_head hc))

/-- Allocating and filling a block. -/
theorem mymalloc_memcpy (ho : h.Owns cells) {size : ℕ} (hsize : bs.length ≤ size) :
    ((h.mymalloc size).2.memcpy h.next bs).Owns ((h.next, bs) :: cells) where
  nodup := by
    refine List.nodup_cons.2 ⟨fun hmem ↦ ?_, ho.nodup⟩
    exact (ho.fst_lt_next hmem).ne rfl
  holds c hc := by
    rcases List.mem_cons.1 hc with rfl | hc
    · exact h.holds_memcpy_mymalloc hsize
    · have hlt : c.1 < h.next := (ho.holds c hc).lt_next
      exact ((ho.holds c hc).mymalloc size).modify hlt.ne _

/-- Allocating and filling a block, and terminating what is in it. -/
theorem mymalloc_string (ho : h.Owns cells) (string : Bytes) :
    (((h.mymalloc (string.length + 1)).2.memcpy h.next string).write h.next string.length 0).Owns
      ((h.next, string ++ [0]) :: cells) := by
  have hfill : ((h.mymalloc (string.length + 1)).2.memcpy h.next string).Owns
      ((h.next, string) :: cells) := ho.mymalloc_memcpy (by omega)
  have hblk : ((h.mymalloc (string.length + 1)).2.memcpy h.next string).blocks h.next =
      some ((freshBlock (h.garbage h.next) (string.length + 1)).copy string) := by
    rw [memcpy, modify_blocks_self, mymalloc_blocks_self, Option.map_some]
  have hroom : string.length < heapRoundup (string.length + 1) := le_heapRoundup _
  exact hfill.modify_head (fun c hne ↦ modify_blocks_of_ne _ _ hne)
    (hfill.head.write_append hblk hroom)

/-- Allocating a block whose contents do not matter. -/
theorem mymalloc (ho : h.Owns cells) (size : ℕ) :
    (h.mymalloc size).2.Owns ((h.next, []) :: cells) where
  nodup := by
    refine List.nodup_cons.2 ⟨fun hmem ↦ ?_, ho.nodup⟩
    exact (ho.fst_lt_next hmem).ne rfl
  holds c hc := by
    rcases List.mem_cons.1 hc with rfl | hc
    · exact ⟨_, h.mymalloc_blocks_self size, Nat.zero_le _, rfl⟩
    · exact (ho.holds c hc).mymalloc size

/-- Writing into the head leaves the rest alone and the head live. -/
theorem write (ho : h.Owns ((a, bs) :: cells)) (i : ℕ) (b : UInt8) :
    (h.write a i b).Owns ((a, []) :: cells) := by
  refine ho.modify_head (fun c hne ↦ modify_blocks_of_ne h _ hne) ?_
  obtain ⟨blk, hblk, -⟩ := ho.head
  refine ⟨blk.write i b, ?_, Nat.zero_le _, rfl⟩
  rw [Heap.write, modify_blocks_self, hblk, Option.map_some]

/-- **Releasing the head** is recorded, fails nowhere, and leaves the rest owned. -/
theorem myfree (ho : h.Owns ((a, bs) :: cells)) :
    (h.myfree a).Owns cells ∧ (h.myfree a).freed = h.freed ++ [a] ∧
      (h.myfree a).failedFrees = h.failedFrees ∧ (h.myfree a).next = h.next := by
  obtain ⟨blk, hblk, -⟩ := ho.head
  obtain ⟨hnext, hblocks, hfreed, hfailed⟩ := myfree_of_live hblk
  refine ⟨⟨ho.tail.nodup, fun c hc ↦ ?_⟩, hfreed, hfailed, hnext⟩
  refine (ho.tail.holds c hc).congr ?_
  rw [hblocks, Function.update_of_ne (ho.ne_head hc)]

end Owns

/-- Releases several allocations, one after the other. -/
def freeAll (h : Heap) (addresses : List ℕ) : Heap := addresses.foldl Heap.myfree h

/-- **Releasing what is owned**: every release is recorded and none fails. -/
theorem Owns.freeAll {h : Heap} {released cells : List (ℕ × Bytes)}
    (ho : h.Owns (released ++ cells)) :
    (h.freeAll (released.map Prod.fst)).Owns cells ∧
      (h.freeAll (released.map Prod.fst)).freed = h.freed ++ released.map Prod.fst ∧
      (h.freeAll (released.map Prod.fst)).failedFrees = h.failedFrees ∧
      (h.freeAll (released.map Prod.fst)).next = h.next := by
  induction released generalizing h with
  | nil => exact ⟨ho, by simp [Heap.freeAll], rfl, rfl⟩
  | cons c released ih =>
    obtain ⟨a, bs⟩ := c
    obtain ⟨ho', hfreed, hfailed, hnext⟩ := ho.myfree
    obtain ⟨hrest, hfreed', hfailed', hnext'⟩ := ih ho'
    refine ⟨hrest, ?_, hfailed'.trans hfailed, hnext'.trans hnext⟩
    rw [List.map_cons, Heap.freeAll, List.foldl_cons, ← Heap.freeAll, hfreed', hfreed,
      List.append_assoc, List.singleton_append]

end Heap

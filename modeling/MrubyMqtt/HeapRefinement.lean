import MrubyMqtt.Eyecatchers
import MrubyMqtt.HeapFailure

/-!
# The tracked heap and the tracker

`Heap` names an allocation for ever and finds it by its name. `Heap.c` has addresses that the C
library hands out again when a block has been freed, and finds a block in its tree. What a program
does to the one is here done to the other: both answer the same and have the same blocks of the same
sizes (`heap_refines`), as long as there is memory, sizes fit in an `int`, the C library hands out
no block that is in use and the program does not use a pointer to a block that has been freed when
there is another one at its address.
-/

open Bytes HeapTracker

/-- A heap, and the address of each allocation. -/
structure NamedHeap where
  /-- The heap that knows allocations by their names. -/
  heap : Heap
  /-- The address that the program gets for an allocation. -/
  addr : ℕ → ℤ

/-- What a program does to the heap. -/
inductive HeapUse
  /-- A block is allocated, and the C library has it at `ptr`. -/
  | malloc (file : Bytes) (line : ℤ) (size : ℕ) (ptr : ℤ)
  /-- A byte of a block is set. -/
  | write (a i : ℕ) (b : UInt8)
  /-- Bytes are copied to a block. -/
  | memcpy (a : ℕ) (bs : Bytes)
  /-- A block is freed. -/
  | free (a : ℕ)
  /-- A block is looked up. -/
  | find (a : ℕ)

namespace HeapUse

/-- The calls into `Heap.c`. Every allocation finds memory. -/
def calls (addr : ℕ → ℤ) : HeapUse → List HeapCall
  | .malloc file line size ptr => [.malloc file line size true true (some ptr) true]
  | .write .. => []
  | .memcpy .. => []
  | .free a => [.free (addr a)]
  | .find a => [.findItem (addr a)]

end HeapUse

namespace NamedHeap

variable {n : NamedHeap} {t : HeapTracker} {l : TrackedHeap}

/-- A use of the heap, and whether it found what it needed. -/
def step (n : NamedHeap) : HeapUse → NamedHeap × List Bool
  | .malloc _ _ size ptr =>
    (⟨(n.heap.mymalloc size).2, Function.update n.addr n.heap.next (ptr + 4)⟩, [true])
  | .write a i b => (⟨n.heap.write a i b, n.addr⟩, [])
  | .memcpy a bs => (⟨n.heap.memcpy a bs, n.addr⟩, [])
  | .free a => (⟨n.heap.myfree a, n.addr⟩, [(n.heap.blocks a).isSome])
  | .find a => (n, [n.heap.heapFindItem a])

/-- No block is at an address. -/
def Vacant (n : NamedHeap) (p : ℤ) : Prop := ∀ a, (n.heap.blocks a).isSome → n.addr a ≠ p

/-- What the C library and the program keep to; the size of a block and its rounding fit in an
`int`. -/
def Allowed (n : NamedHeap) : HeapUse → Prop
  | .malloc _ _ size ptr => size + 16 ≤ 2 ^ 31 ∧ n.Vacant (ptr + 4)
  | .free a => (n.heap.blocks a).isSome ∨ n.Vacant (n.addr a)
  | .find a => (n.heap.blocks a).isSome ∨ n.Vacant (n.addr a)
  | _ => True

/-- After some uses: the heap, what they found, and the calls made. -/
def after (n : NamedHeap) : List HeapUse → NamedHeap × List Bool × List HeapCall
  | [] => (n, [], [])
  | use :: uses =>
    let rest := (n.step use).1.after uses
    (rest.1, (n.step use).2 ++ rest.2.1, use.calls n.addr ++ rest.2.2)

/-- All of them are allowed. -/
def AllAllowed (n : NamedHeap) : List HeapUse → Prop
  | [] => True
  | use :: uses => n.Allowed use ∧ (n.step use).1.AllAllowed uses

end NamedHeap

/-- Whether a call found what it needed. -/
def HeapAnswer.found : HeapAnswer → Bool
  | .pointer p => p.isSome
  | .released block => block.isSome
  | .item s => s.isSome
  | .scanned _ => true

/-- The records are those of the live blocks. -/
structure NamedHeap.Recorded (n : NamedHeap) (l : TrackedHeap) : Prop where
  /-- A live block is on record with its size. -/
  live : ∀ a blk, n.heap.blocks a = some blk →
    ∃ x, l.find (n.addr a - 4) = some x ∧ x.1.size = blk.size
  /-- No two live blocks are at one address. -/
  apart : ∀ a b, (n.heap.blocks a).isSome → (n.heap.blocks b).isSome → n.addr a = n.addr b → a = b
  /-- What is on record is live. -/
  all : ∀ x ∈ l.elements, ∃ a, (n.heap.blocks a).isSome ∧ n.addr a - 4 = x.1.ptr

namespace NamedHeap.Recorded

variable {n : NamedHeap} {l : TrackedHeap}

theorem find_of_vacant (h : n.Recorded l) {p : ℤ} (hvacant : n.Vacant p) :
    l.find (p - 4) = none := by
  rcases hfind : l.find (p - 4) with - | x
  · rfl
  · obtain ⟨a, ha, haddr⟩ := h.all x (KeyedList.mem_of_lookup hfind)
    have hptr := TrackedHeap.ptr_of_find hfind
    exact absurd (sub_left_injective (haddr.trans hptr)) (hvacant a ha)

/-- A pointer is on record exactly if its block is live. -/
theorem isSome_find (h : n.Recorded l) {a : ℕ}
    (ha : (n.heap.blocks a).isSome ∨ n.Vacant (n.addr a)) :
    (l.find (n.addr a - 4)).isSome = (n.heap.blocks a).isSome := by
  rcases hblk : n.heap.blocks a with - | blk
  · rw [h.find_of_vacant (ha.resolve_left (by rw [hblk]; exact Bool.false_ne_true))]
    rfl
  · obtain ⟨x, hx, -⟩ := h.live a blk hblk
    rw [hx]
    rfl

/-- Only the blocks matter. -/
theorem congr (h : n.Recorded l) {heap : Heap} (hblocks : heap.blocks = n.heap.blocks) :
    (⟨heap, n.addr⟩ : NamedHeap).Recorded l :=
  ⟨fun a blk hblk ↦ h.live a blk (hblocks ▸ hblk),
    fun a b ha hb ↦ h.apart a b (hblocks ▸ ha) (hblocks ▸ hb),
    fun x hx ↦ (h.all x hx).imp fun _ ha ↦ ⟨hblocks ▸ ha.1, ha.2⟩⟩

/-- Blocks may be written as long as they keep their sizes. -/
theorem write (h : n.Recorded l) (a : ℕ) (f : Block → Block)
    (hsize : ∀ blk, (f blk).size = blk.size) :
    (⟨n.heap.modify a f, n.addr⟩ : NamedHeap).Recorded l := by
  have hblocks : ∀ b, ((n.heap.modify a f).blocks b).map Block.size =
      (n.heap.blocks b).map Block.size := fun b ↦ by
    rcases eq_or_ne b a with rfl | hne
    · rw [Heap.modify_blocks_self, Option.map_map]
      exact congrFun (congrArg Option.map (funext hsize)) _
    · rw [Heap.modify_blocks_of_ne _ _ hne]
  have hlive : ∀ b, ((n.heap.modify a f).blocks b).isSome = (n.heap.blocks b).isSome := fun b ↦ by
    rw [← Option.isSome_map (f := Block.size), hblocks, Option.isSome_map]
  refine ⟨fun b blk hblk ↦ ?_, fun b c hb hc ↦ ?_, fun x hx ↦ ?_⟩
  · have hb := hblocks b
    rw [hblk] at hb
    obtain ⟨blk', hblk', hsize'⟩ := Option.map_eq_some_iff.1 hb.symm
    obtain ⟨x, hx, hxsize⟩ := h.live b blk' hblk'
    exact ⟨x, hx, hxsize.trans (congrArg Nat.cast hsize')⟩
  · exact h.apart b c (hlive b ▸ hb) (hlive c ▸ hc)
  · obtain ⟨b, hb, haddr⟩ := h.all x hx
    exact ⟨b, (hlive b).trans hb, haddr⟩

theorem malloc (h : n.Recorded l) (file : Bytes) (line : ℤ) (size : ℕ) {ptr : ℤ}
    (hvacant : n.Vacant (ptr + 4)) (space : ℤ) :
    (n.step (.malloc file line size ptr)).1.Recorded
      (l.put ⟨file, line, ptr, heapRoundup size⟩ space) := by
  have hself : Function.update n.addr n.heap.next (ptr + 4) n.heap.next = ptr + 4 :=
    Function.update_self ..
  have hother : ∀ {a}, a ≠ n.heap.next →
      Function.update n.addr n.heap.next (ptr + 4) a = n.addr a := fun ha ↦
    Function.update_of_ne ha ..
  have hblock : ∀ {a}, a ≠ n.heap.next →
      (n.heap.mymalloc size).2.blocks a = n.heap.blocks a := fun ha ↦
    Heap.mymalloc_blocks_of_ne _ _ ha
  let s : StorageElement := ⟨file, line, ptr, heapRoundup size⟩
  refine ⟨fun a blk hblk ↦ ?_, fun a b ha hb hab ↦ ?_, fun x hx ↦ ?_⟩
  · rcases eq_or_ne a n.heap.next with rfl | hne
    · obtain rfl := Option.some.inj ((Heap.mymalloc_blocks_self ..).symm.trans hblk)
      refine ⟨(s, toInt32 space), ?_, rfl⟩
      show (l.put s space).find (Function.update n.addr _ _ _ - 4) = _
      rw [hself, add_sub_cancel_right]
      exact KeyedList.lookup_place_self _ (s, toInt32 space) l.elements
    · obtain ⟨x, hx, hsize⟩ := h.live a blk ((hblock hne).symm.trans hblk)
      refine ⟨x, ?_, hsize⟩
      show (l.put s space).find (Function.update n.addr _ _ _ - 4) = _
      rw [hother hne]
      refine (KeyedList.lookup_place_of_ne _ (fun he ↦ ?_) l.elements).trans hx
      have hptr : ptr = n.addr a - 4 := he
      exact hvacant a (Option.isSome_iff_exists.2 ⟨blk, (hblock hne).symm.trans hblk⟩) (by omega)
  · have hab : Function.update n.addr n.heap.next (ptr + 4) a =
        Function.update n.addr n.heap.next (ptr + 4) b := hab
    rcases eq_or_ne a n.heap.next with rfl | hna
    · rcases eq_or_ne b n.heap.next with rfl | hnb
      · rfl
      · rw [hself, hother hnb] at hab
        exact absurd hab.symm (hvacant b (hblock hnb ▸ hb))
    · rcases eq_or_ne b n.heap.next with rfl | hnb
      · rw [hself, hother hna] at hab
        exact absurd hab (hvacant a (hblock hna ▸ ha))
      · rw [hother hna, hother hnb] at hab
        exact h.apart a b (hblock hna ▸ ha) (hblock hnb ▸ hb) hab
  · rcases KeyedList.mem_of_mem_place _ hx with rfl | hx
    · refine ⟨n.heap.next, ?_, ?_⟩
      · exact Option.isSome_iff_exists.2 ⟨_, Heap.mymalloc_blocks_self ..⟩
      · show Function.update n.addr _ _ _ - 4 = ptr
        rw [hself, add_sub_cancel_right]
    · obtain ⟨a, ha, haddr⟩ := h.all x hx
      have hne : a ≠ n.heap.next := fun he ↦ by
        rw [n.heap.blocks_next a he.ge] at ha
        cases ha
      refine ⟨a, (hblock hne).symm ▸ ha, ?_⟩
      show Function.update n.addr _ _ _ - 4 = _
      rw [hother hne]
      exact haddr

theorem free (h : n.Recorded l) {a : ℕ} {blk : Block} (ha : n.heap.blocks a = some blk)
    (honce : (l.drop (n.addr a - 4)).find (n.addr a - 4) = none) :
    (n.step (.free a)).1.Recorded (l.drop (n.addr a - 4)) := by
  have hother : ∀ {b}, b ≠ a → (n.heap.myfree a).blocks b = n.heap.blocks b := fun hne ↦ by
    rw [(Heap.myfree_of_live ha).2.1]
    exact Function.update_of_ne hne ..
  have hne : ∀ {b}, ((n.heap.myfree a).blocks b).isSome → b ≠ a := fun hb ↦
    (Heap.blocks_of_myfree (Option.isSome_iff_exists.1 hb).choose_spec).1
  refine ⟨fun b blk' hblk ↦ ?_, fun b c hb hc ↦ ?_, fun x hx ↦ ?_⟩
  · obtain ⟨hba, hb⟩ := Heap.blocks_of_myfree hblk
    obtain ⟨x, hx, hsize⟩ := h.live b blk' hb
    refine ⟨x, ?_, hsize⟩
    refine (KeyedList.lookup_remove_of_ne (fun he ↦ hba ?_) l.elements).trans hx
    exact h.apart b a (Option.isSome_iff_exists.2 ⟨blk', hb⟩)
      (Option.isSome_iff_exists.2 ⟨blk, ha⟩) (sub_left_injective he)
  · exact h.apart b c (hother (hne hb) ▸ hb) (hother (hne hc) ▸ hc)
  · obtain ⟨b, hb, haddr⟩ := h.all x (KeyedList.mem_of_mem_remove hx)
    have hba : b ≠ a := fun he ↦ by
      have hmiss := List.find?_eq_none.1 honce x hx
      simp [← haddr, he] at hmiss
    exact ⟨b, (hother hba).symm ▸ hb, haddr⟩

end NamedHeap.Recorded

theorem HeapTracker.run_no_calls (t : HeapTracker) (answers : List HeapAnswer) :
    heapMachine.run (t, answers) [] = some (t, answers ++ []) := by
  rw [List.append_nil]
  rfl

/-- **One use** of the heap, made of the tracker. -/
theorem NamedHeap.step_refines {n : NamedHeap} {t : HeapTracker} {l : TrackedHeap}
    (htracks : Tracks t l) (hrecorded : n.Recorded l) {use : HeapUse} (hallowed : n.Allowed use)
    (answers : List HeapAnswer) :
    ∃ t' l' more, heapMachine.run (t, answers) (use.calls n.addr) = some (t', answers ++ more) ∧
      more.map HeapAnswer.found = (n.step use).2 ∧ Tracks t' l' ∧
      (n.step use).1.Recorded l' := by
  have hone : ∀ {call : HeapCall} {t' : HeapTracker} {answer : HeapAnswer},
      t.step call = some (t', answer) →
      heapMachine.run (t, answers) [call] = some (t', answers ++ [answer]) := fun hstep ↦ by
    rw [heapMachine.run_singleton]
    exact Option.map_eq_some_iff.2 ⟨_, hstep, rfl⟩
  cases use with
  | malloc file line size ptr =>
    have hnone : l.find ptr = none := by
      have hvacant := hrecorded.find_of_vacant hallowed.2
      rwa [add_sub_cancel_right] at hvacant
    obtain ⟨t', hmalloc, htracks'⟩ := mymalloc_simulates htracks file line size hnone
    refine ⟨t', _, [.pointer (some (ptr + 4))], hone (Option.map_eq_some_iff.2 ⟨_, hmalloc, rfl⟩),
      rfl, htracks', ?_⟩
    rw [TrackedHeap.allocated, heapRoundupInt_natCast hallowed.1]
    exact hrecorded.malloc file line size hallowed.2 _
  | write a i b =>
    exact ⟨t, l, [], run_no_calls t answers, rfl, htracks, hrecorded.write a _ fun _ ↦ rfl⟩
  | memcpy a bs =>
    exact ⟨t, l, [], run_no_calls t answers, rfl, htracks, hrecorded.write a _ fun _ ↦ rfl⟩
  | free a =>
    obtain ⟨t', hfree, htracks'⟩ := myfree_simulates htracks (n.addr a)
    refine ⟨t', _, [.released _], hone (Option.map_eq_some_iff.2 ⟨_, hfree, rfl⟩), ?_, htracks', ?_⟩
    · show [Option.isSome _] = [(n.heap.blocks a).isSome]
      rw [Option.isSome_map, hrecorded.isSome_find hallowed]
    · rcases hblk : n.heap.blocks a with - | blk
      · have hvacant := hallowed.resolve_left (by rw [hblk]; exact Bool.false_ne_true)
        rw [TrackedHeap.drop_of_find_none (hrecorded.find_of_vacant hvacant)]
        exact hrecorded.congr (Heap.myfree_of_dead hblk).1
      · exact hrecorded.free hblk (htracks.find_drop_self _)
  | find a =>
    refine ⟨t, l, [.item _], hone (Option.map_eq_some_iff.2 ⟨_,
      heapFindItem_simulates htracks (n.addr a), rfl⟩), ?_, htracks, hrecorded⟩
    show [Option.isSome _] = [(n.heap.blocks a).isSome]
    rw [Option.isSome_map, hrecorded.isSome_find hallowed]

namespace NamedHeap

theorem after_refines {n : NamedHeap} {t : HeapTracker} {l : TrackedHeap}
    (htracks : Tracks t l) (hrecorded : n.Recorded l) {uses : List HeapUse}
    (hallowed : n.AllAllowed uses) (answers : List HeapAnswer) :
    ∃ t' l' more, heapMachine.run (t, answers) (n.after uses).2.2 = some (t', answers ++ more) ∧
      more.map HeapAnswer.found = (n.after uses).2.1 ∧ Tracks t' l' ∧
      (n.after uses).1.Recorded l' := by
  induction uses generalizing n t l answers with
  | nil =>
    exact ⟨t, l, [], run_no_calls t answers, rfl, htracks, hrecorded⟩
  | cons use uses ih =>
    obtain ⟨t₁, l₁, more₁, hrun₁, hfound₁, htracks₁, hrecorded₁⟩ :=
      step_refines htracks hrecorded hallowed.1 answers
    obtain ⟨t₂, l₂, more₂, hrun₂, hfound₂, htracks₂, hrecorded₂⟩ :=
      ih htracks₁ hrecorded₁ hallowed.2 (answers ++ more₁)
    refine ⟨t₂, l₂, more₁ ++ more₂, ?_, ?_, htracks₂, hrecorded₂⟩
    · rw [after, heapMachine.run_append, hrun₁, Option.bind_some, hrun₂, List.append_assoc]
    · rw [List.map_append, hfound₁, hfound₂]
      rfl

/-- **The heap is what the tracker has on record.** Whatever a program does to the heap, the calls
into `Heap.c` come back with the same results, and the records are those of the live blocks, as long
as there is memory for it. -/
theorem heap_refines (garbage : ℕ → ℕ → UInt8) (addr : ℕ → ℤ) {uses : List HeapUse}
    (hallowed : AllAllowed ⟨Heap.heapInitialize garbage, addr⟩ uses) :
    ∃ t l answers, heapMachine.run (heapInitialize, [])
        (after ⟨Heap.heapInitialize garbage, addr⟩ uses).2.2 = some (t, answers) ∧
      answers.map HeapAnswer.found = (after ⟨Heap.heapInitialize garbage, addr⟩ uses).2.1 ∧
      Tracks t l ∧ (after ⟨Heap.heapInitialize garbage, addr⟩ uses).1.Recorded l := by
  have hempty : (⟨Heap.heapInitialize garbage, addr⟩ : NamedHeap).Recorded ⟨[], 0⟩ :=
    ⟨nofun, fun a b ha ↦ (Bool.false_ne_true ha).elim, nofun⟩
  exact after_refines tracks_heapInitialize hempty hallowed []

theorem heap_refines_free : ∃ t l answers, heapMachine.run (heapInitialize, [])
    (after ⟨Heap.heapInitialize fun _ _ ↦ 0, fun _ ↦ 0⟩
      [.malloc [] 1 20 1000, .write 0 4 0, .find 0, .free 0]).2.2 = some (t, answers) ∧
    answers.map HeapAnswer.found = (after ⟨Heap.heapInitialize fun _ _ ↦ 0, fun _ ↦ 0⟩
      [.malloc [] 1 20 1000, .write 0 4 0, .find 0, .free 0]).2.1 ∧
    Tracks t l ∧ (after ⟨Heap.heapInitialize fun _ _ ↦ 0, fun _ ↦ 0⟩
      [.malloc [] 1 20 1000, .write 0 4 0, .find 0, .free 0]).1.Recorded l :=
  heap_refines (fun _ _ ↦ 0) (fun _ ↦ 0)
    ⟨⟨by decide, fun _ ha ↦ (Bool.false_ne_true ha).elim⟩, trivial, .inl rfl, .inl rfl, trivial⟩

end NamedHeap

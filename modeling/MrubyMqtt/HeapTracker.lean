import Mathlib.Algebra.BigOperators.Group.List.Basic
import MrubyMqtt.Heap
import MrubyMqtt.TreeRuns

/-!
# The heap tracker

`Heap.c` over the tree of `Tree.c`: every allocation of the library is recorded, by its address, and
what is freed must be on record. Addresses are numbers, and `ptr` is that of the start eyecatcher,
four bytes in front of what the library gets to see.

A call gets as arguments what the C library answers it: whether there was memory for the record, for
the file name and for a node of the tree, and the address of the block, if any. A call on a locked
mutex never returns: `heap_mutex` is a plain mutex of pthreads, for which its owner is no exception.
Sizes are of type `size_t` where a caller gives them and of type `int` where they are kept: they
wrap around, and so do the sums.
-/

open Bytes

/-- An allocation record. -/
structure StorageElement where
  /-- The source file of the allocation. -/
  file : Bytes
  /-- The line in it. -/
  line : ℤ
  /-- The address of the block. -/
  ptr : ℤ
  /-- Its size, without the eyecatchers. -/
  size : ℤ

/-- The record, `heap_info`, and `heap_mutex`. -/
structure HeapTracker where
  /-- The tree of the records. -/
  heap : PahoTree StorageElement
  /-- `current_size`. -/
  currentSize : ℤ
  /-- `max_size`. -/
  maxSize : ℤ
  /-- Whether the mutex is locked. -/
  locked : Bool

/-- A call into `Heap.c`. -/
inductive HeapCall
  /-- `mymalloc`, and whether there is memory for the record, the file name and a node. -/
  | malloc (file : Bytes) (line : ℤ) (size : ℕ) (element fileMem : Bool) (block : Option ℤ)
    (nodeMem : Bool)
  /-- `myfree`. -/
  | free (p : ℤ)
  /-- `Heap_unlink`. -/
  | unlink (p : ℤ)
  /-- `myrealloc`, and whether there is memory for the file name and a node. -/
  | realloc (file : Bytes) (line : ℤ) (p : ℤ) (size : ℕ) (block : Option ℤ) (fileMem nodeMem : Bool)
  /-- `Heap_findItem`. -/
  | findItem (p : ℤ)
  /-- `HeapScan`. -/
  | scan

/-- What a call returns, or does apart from changing the record. -/
inductive HeapAnswer
  /-- The pointer to a block, or NULL. -/
  | pointer (p : Option ℤ)
  /-- The block that is given back to the C library. -/
  | released (block : Option ℤ)
  /-- The record of a pointer, or NULL. -/
  | item (s : Option StorageElement)
  /-- The records that are reported. -/
  | scanned (elements : List StorageElement)

/-- `Heap_roundup`, which takes and returns an `int`. -/
def heapRoundupInt (size : ℤ) : ℤ :=
  if size.tmod 16 ≠ 0 then toInt32 (size + (16 - size.tmod 16)) else size

/-- For the sizes it is made for it is the function on natural numbers. -/
theorem heapRoundupInt_natCast {size : ℕ} (h : size + 16 ≤ 2 ^ 31) :
    heapRoundupInt (toInt32 size) = heapRoundup size := by
  rw [toInt32_eq_self (by omega) (by omega), heapRoundupInt, heapRoundup,
    Int.tmod_eq_emod_of_nonneg (by omega)]
  split_ifs with hint hnat hnat
  · rw [toInt32_eq_self (by omega) (by omega)]
    omega
  · omega
  · omega
  · rfl

theorem dvd_toInt32 {x : ℤ} (h : 16 ∣ x) : 16 ∣ toInt32 x := by
  rw [toInt32, Int.bmod_def]
  omega

/-- Whatever the size, the result is a multiple of sixteen. -/
theorem dvd_heapRoundupInt (size : ℤ) : 16 ∣ heapRoundupInt size := by
  rw [heapRoundupInt]
  split_ifs with hrest
  · refine dvd_toInt32 ?_
    have hsub : 16 ∣ size - size.tmod 16 := Int.dvd_self_sub_tmod
    omega
  · exact Int.dvd_of_tmod_eq_zero (not_not.1 hrest)

namespace HeapTracker

open PahoTree

/-- `sizeof(storageElement)`, with pointers of eight bytes. -/
def sizeofStorageElement : ℤ := 32

/-- `Heap_initialize`: nothing is on record. -/
def heapInitialize : HeapTracker := ⟨treeInitialize, 0, 0, false⟩

/-- `heap_mutex` is locked, if that is possible. -/
def lock (t : HeapTracker) : Option HeapTracker :=
  if t.locked then none else some { t with locked := true }

/-- It is unlocked. -/
def unlock (t : HeapTracker) : HeapTracker := { t with locked := false }

/-- `state.current_size` is changed, and `state.max_size` with it. -/
def charge (t : HeapTracker) (size : ℤ) : HeapTracker :=
  let currentSize := toInt32 (t.currentSize + size)
  { t with currentSize, maxSize := if currentSize > t.maxSize then currentSize else t.maxSize }

/-- `mymalloc`. If there is no memory the mutex stays locked; whether there is some for the node of
the tree is not checked. -/
def mymalloc (t : HeapTracker) (file : Bytes) (line : ℤ) (size : ℕ) (element fileMem : Bool)
    (block : Option ℤ) (nodeMem : Bool) : Option (HeapTracker × Option ℤ) := do
  let t ← t.lock
  let size := heapRoundupInt (toInt32 size)
  match element, fileMem, block with
  | true, true, some ptr => do
    let space := sizeofStorageElement + (file.length + 1) + (size + 8)
    let (heap, _) ← t.heap.treeAdd StorageElement.ptr ⟨file, line, ptr, size⟩ space nodeMem
    some (({ t with heap }.charge size).unlock, some (ptr + 4))
  | _, _, _ => some (t, none)

/-- `Internal_heap_unlink`: the record of a pointer is dropped, if there is one. -/
def internalHeapUnlink (t : HeapTracker) (p : ℤ) : Option (HeapTracker × Bool) := do
  match ← t.heap.treeFind StorageElement.ptr (p - 4) with
  | none => some (t, false)
  | some e => do
    let s ← (← t.heap.nodes e).content
    let t := { t with currentSize := toInt32 (t.currentSize - s.size) }
    let (heap, _) ← t.heap.treeRemoveNode e
    some ({ t with heap }, true)

/-- `myfree`. What is returned is the block that goes back to the C library. -/
def myfree (t : HeapTracker) (p : ℤ) : Option (HeapTracker × Option ℤ) := do
  let t ← t.lock
  let (t, found) ← t.internalHeapUnlink p
  some (t.unlock, if found then some (p - 4) else none)

/-- `Heap_unlink`. -/
def heapUnlink (t : HeapTracker) (p : ℤ) : Option HeapTracker := do
  let t ← t.lock
  let (t, _) ← t.internalHeapUnlink p
  some t.unlock

/-- `myrealloc`. If there is no memory for the block the mutex stays locked, and without memory for
the file name `strcpy` writes through a null pointer. -/
def myrealloc (t : HeapTracker) (file : Bytes) (line : ℤ) (p : ℤ) (size : ℕ) (block : Option ℤ)
    (fileMem nodeMem : Bool) : Option (HeapTracker × Option ℤ) := do
  let t ← t.lock
  let (heap, removed) ← t.heap.treeRemoveKey StorageElement.ptr (p - 4)
  let t := { t with heap }
  match removed with
  | none => some (t.unlock, none)
  | some s => do
    let size := heapRoundupInt (toInt32 size)
    let t := t.charge (size - s.size)
    match block, fileMem with
    | none, _ => some (t, none)
    | some _, false => none
    | some ptr, true => do
      let space := sizeofStorageElement + (size + 8 - s.size) - s.file.length + (file.length + 1)
      let (heap, _) ← t.heap.treeAdd StorageElement.ptr ⟨file, line, ptr, size⟩ space nodeMem
      some ({ t with heap }.unlock, some (ptr + 4))

/-- `Heap_findItem`. -/
def heapFindItem (t : HeapTracker) (p : ℤ) : Option (HeapTracker × Option StorageElement) := do
  let t ← t.lock
  let found ← t.heap.treeFindContent StorageElement.ptr (p - 4)
  some (t.unlock, found)

/-- `HeapScan`, with the records it logs. -/
def heapScan (t : HeapTracker) : Option (HeapTracker × List StorageElement) := do
  let t ← t.lock
  let elements ← t.heap.scan
  some (t.unlock, elements)

/-- `Heap_terminate`, with the elements reported as a possible leak. -/
def heapTerminate (t : HeapTracker) : Option (HeapTracker × List StorageElement) :=
  if t.currentSize > 20 then t.heapScan else some (t, [])

/-- A call; `none` where it does not come back. -/
def step (t : HeapTracker) : HeapCall → Option (HeapTracker × HeapAnswer)
  | .malloc file line size element fileMem block nodeMem =>
    (t.mymalloc file line size element fileMem block nodeMem).map fun x ↦ (x.1, .pointer x.2)
  | .free p => (t.myfree p).map fun x ↦ (x.1, .released x.2)
  | .unlink p => (t.heapUnlink p).map fun t ↦ (t, .released none)
  | .realloc file line p size block fileMem nodeMem =>
    (t.myrealloc file line p size block fileMem nodeMem).map fun x ↦ (x.1, .pointer x.2)
  | .findItem p => (t.heapFindItem p).map fun x ↦ (x.1, .item x.2)
  | .scan => t.heapScan.map fun x ↦ (x.1, .scanned x.2)

/-- The machine of the tracker. -/
def heapMachine : Machine (HeapTracker × List HeapAnswer) HeapCall := Machine.answering step

end HeapTracker

/-! ### What the tracker is for -/

/-- The allocations, and the most that was ever allocated. -/
structure TrackedHeap where
  /-- The records in the order of their addresses, each with the memory that the block takes up
  together with its record. -/
  elements : List (StorageElement × ℤ)
  /-- The largest sum of the sizes so far, as an `int`. -/
  maxSize : ℤ

namespace TrackedHeap

/-- The record of a block. -/
def find (l : TrackedHeap) (block : ℤ) : Option (StorageElement × ℤ) :=
  KeyedList.lookup (fun x ↦ x.1.ptr) block l.elements

/-- What is allocated. -/
def inUse (l : TrackedHeap) : ℤ := (l.elements.map fun x ↦ x.1.size).sum

/-- A block is no longer on record. -/
def drop (l : TrackedHeap) (block : ℤ) : TrackedHeap :=
  { l with elements := KeyedList.remove (fun x ↦ x.1.ptr) block l.elements }

/-- A block goes on record. -/
def put (l : TrackedHeap) (s : StorageElement) (space : ℤ) : TrackedHeap :=
  let elements := KeyedList.place (fun x ↦ x.1.ptr) (s, toInt32 space) l.elements
  ⟨elements, max l.maxSize (toInt32 (elements.map fun x ↦ x.1.size).sum)⟩

/-- A block that has just been allocated. -/
def allocated (l : TrackedHeap) (file : Bytes) (line : ℤ) (size : ℕ) (ptr : ℤ) : TrackedHeap :=
  let size := heapRoundupInt (toInt32 size)
  l.put ⟨file, line, ptr, size⟩
    (HeapTracker.sizeofStorageElement + (file.length + 1) + (size + 8))

/-- A block that has been dropped, with another address and size. -/
def moved (l : TrackedHeap) (s : StorageElement) (file : Bytes) (line : ℤ) (size : ℕ) (ptr : ℤ) :
    TrackedHeap :=
  let size := heapRoundupInt (toInt32 size)
  l.put ⟨file, line, ptr, size⟩
    (HeapTracker.sizeofStorageElement + (size + 8 - s.size) - s.file.length + (file.length + 1))

/-- Calls that find memory, at an address that is not in use. -/
def step (l : TrackedHeap) : HeapCall → Option (TrackedHeap × HeapAnswer)
  | .malloc file line size true true (some ptr) true =>
    if (l.find ptr).isSome then none
    else some (l.allocated file line size ptr, .pointer (some (ptr + 4)))
  | .malloc .. => none
  | .free p => some (l.drop (p - 4), .released ((l.find (p - 4)).map fun _ ↦ p - 4))
  | .unlink p => some (l.drop (p - 4), .released none)
  | .realloc file line p size block fileMem nodeMem =>
    match l.find (p - 4), block with
    | none, _ => some (l, .pointer none)
    | some _, none => none
    | some x, some ptr =>
      if fileMem && nodeMem && ((l.drop (p - 4)).find ptr).isNone then
        some ((l.drop (p - 4)).moved x.1 file line size ptr, .pointer (some (ptr + 4)))
      else none
  | .findItem p => some (l, .item ((l.find (p - 4)).map Prod.fst))
  | .scan => some (l, .scanned (l.elements.map Prod.fst))

theorem ptr_of_find {l : TrackedHeap} {block : ℤ} {x : StorageElement × ℤ}
    (h : l.find block = some x) : x.1.ptr = block := by
  simpa using List.find?_some h

theorem drop_of_find_none {l : TrackedHeap} {block : ℤ} (h : l.find block = none) :
    l.drop block = l :=
  congrArg (TrackedHeap.mk · _) (KeyedList.remove_of_lookup_none h)

/-- What a call can do. -/
inductive Does (l : TrackedHeap) : HeapCall → TrackedHeap → HeapAnswer → Prop
  /-- A block is allocated. -/
  | malloc (file : Bytes) (line : ℤ) (size : ℕ) {ptr : ℤ} (hnone : l.find ptr = none) :
    Does l (.malloc file line size true true (some ptr) true) (l.allocated file line size ptr)
      (.pointer (some (ptr + 4)))
  /-- A block is freed. -/
  | free (p : ℤ) :
    Does l (.free p) (l.drop (p - 4)) (.released ((l.find (p - 4)).map fun _ ↦ p - 4))
  /-- A block is no longer tracked. -/
  | unlink (p : ℤ) : Does l (.unlink p) (l.drop (p - 4)) (.released none)
  /-- There is no block to allocate anew. -/
  | unknown (file : Bytes) (line : ℤ) {p : ℤ} (size : ℕ) (block : Option ℤ) (fileMem nodeMem : Bool)
    (hnone : l.find (p - 4) = none) :
    Does l (.realloc file line p size block fileMem nodeMem) l (.pointer none)
  /-- A block is allocated anew. -/
  | realloc (file : Bytes) (line : ℤ) {p : ℤ} (size : ℕ) {ptr : ℤ} {x : StorageElement × ℤ}
    (hfind : l.find (p - 4) = some x) (hnone : (l.drop (p - 4)).find ptr = none) :
    Does l (.realloc file line p size (some ptr) true true)
      ((l.drop (p - 4)).moved x.1 file line size ptr) (.pointer (some (ptr + 4)))
  /-- A record is looked up. -/
  | findItem (p : ℤ) : Does l (.findItem p) l (.item ((l.find (p - 4)).map Prod.fst))
  /-- All records are listed. -/
  | scan : Does l .scan l (.scanned (l.elements.map Prod.fst))

theorem does_of_step {l l' : TrackedHeap} {call : HeapCall} {answer : HeapAnswer}
    (h : l.step call = some (l', answer)) : l.Does call l' answer := by
  cases call with
  | malloc file line size element fileMem block nodeMem =>
    rcases element with - | -
    · cases h
    rcases fileMem with - | -
    · cases h
    rcases block with - | ptr
    · cases h
    rcases nodeMem with - | -
    · cases h
    rw [step] at h
    split_ifs at h with hheld
    obtain ⟨rfl, rfl⟩ := Prod.mk.inj (Option.some.inj h)
    exact .malloc file line size (Option.not_isSome_iff_eq_none.1 hheld)
  | free p =>
    obtain ⟨rfl, rfl⟩ := Prod.mk.inj (Option.some.inj h)
    exact .free p
  | unlink p =>
    obtain ⟨rfl, rfl⟩ := Prod.mk.inj (Option.some.inj h)
    exact .unlink p
  | realloc file line p size block fileMem nodeMem =>
    rcases hfind : l.find (p - 4) with - | x
    · simp only [step, hfind] at h
      obtain ⟨rfl, rfl⟩ := Prod.mk.inj (Option.some.inj h)
      exact .unknown file line size block fileMem nodeMem hfind
    · rcases block with - | ptr
      · simp only [step, hfind, reduceCtorEq] at h
      simp only [step, hfind] at h
      split_ifs at h with hmemory
      simp only [Bool.and_eq_true, Option.isNone_iff_eq_none] at hmemory
      obtain ⟨⟨rfl, rfl⟩, hnone⟩ := hmemory
      obtain ⟨rfl, rfl⟩ := Prod.mk.inj (Option.some.inj h)
      exact .realloc file line size hfind hnone
  | findItem p =>
    obtain ⟨rfl, rfl⟩ := Prod.mk.inj (Option.some.inj h)
    exact .findItem p
  | scan =>
    obtain ⟨rfl, rfl⟩ := Prod.mk.inj (Option.some.inj h)
    exact .scan

end TrackedHeap

/-! ### That it does it -/

namespace HeapTracker

open PahoTree ColoredTree

variable {t : HeapTracker} {l : TrackedHeap}

/-- The tracker has the allocations on record, in a red-black tree, and its mutex is free. -/
structure Tracks (t : HeapTracker) (l : TrackedHeap) : Prop where
  /-- The tree is in order. -/
  sound : Sound StorageElement.ptr t.heap (addrs t.heap.shape) t.heap.shape
  /-- It holds the allocations. -/
  elements : items t.heap.shape = l.elements
  /-- It is balanced. -/
  redBlack : RedBlack t.heap.shape
  /-- What is allocated, as an `int`. -/
  currentSize : t.currentSize = toInt32 l.inUse
  /-- The most that was ever allocated. -/
  maxSize : t.maxSize = l.maxSize
  /-- The mutex is free. -/
  unlocked : t.locked = false

theorem charge_currentSize (t : HeapTracker) (size : ℤ) :
    (t.charge size).currentSize = toInt32 (t.currentSize + size) := rfl

theorem charge_maxSize (t : HeapTracker) (size : ℤ) :
    (t.charge size).maxSize = max t.maxSize (toInt32 (t.currentSize + size)) := by
  show (if toInt32 (t.currentSize + size) > t.maxSize then _ else _) = _
  split_ifs with h
  · exact (max_eq_right h.le).symm
  · exact (max_eq_left (not_lt.1 h)).symm

theorem lock_of_unlocked (h : t.locked = false) : t.lock = some { t with locked := true } :=
  if_neg (by rw [h]; exact Bool.false_ne_true)

theorem Tracks.find_eq (h : Tracks t l) (block : ℤ) :
    t.heap.treeFindContent StorageElement.ptr block = some ((l.find block).map Prod.fst) := by
  rw [TrackedHeap.find, ← h.elements]
  exact treeFindContent_eq h.sound block

/-- What a new block adds to the memory in use. -/
theorem inUse_put {s : StorageElement} (hnone : l.find s.ptr = none) (space : ℤ) :
    (l.put s space).inUse = l.inUse + s.size := by
  have hperm : (l.put s space).elements.Perm ((s, toInt32 space) :: l.elements) :=
    KeyedList.perm_place _ hnone
  have hsum := (hperm.map fun x ↦ x.1.size).sum_eq
  rw [List.map_cons, List.sum_cons] at hsum
  exact hsum.trans (add_comm _ _)

theorem inUse_drop {block : ℤ} {x : StorageElement × ℤ} (hfind : l.find block = some x) :
    (l.drop block).inUse = l.inUse - x.1.size := by
  have hsum := ((KeyedList.perm_cons_remove hfind).map fun x ↦ x.1.size).sum_eq
  rw [List.map_cons, List.sum_cons] at hsum
  exact eq_sub_of_add_eq' hsum.symm

/-- A record is added to the tree. -/
theorem treeAdd_put {heap : PahoTree StorageElement} {s : StorageElement}
    (hsound : Sound StorageElement.ptr heap (addrs heap.shape) heap.shape)
    (hred : RedBlack heap.shape) (helements : items heap.shape = l.elements)
    (hnone : l.find s.ptr = none) (space : ℤ) :
    ∃ heap', heap.treeAdd StorageElement.ptr s space true = some (heap', none) ∧
      Sound StorageElement.ptr heap' (addrs heap'.shape) heap'.shape ∧ RedBlack heap'.shape ∧
      items heap'.shape = (l.put s space).elements := by
  rw [TrackedHeap.find, ← helements] at hnone
  obtain ⟨heap', hadd, hsound', hred', hitems⟩ := hsound.treeAdd_fresh hred hnone space
  rw [helements] at hitems
  exact ⟨heap', hadd, hsound', hred', hitems⟩

theorem mymalloc_simulates (h : Tracks t l) (file : Bytes) (line : ℤ) (size : ℕ) {ptr : ℤ}
    (hnone : l.find ptr = none) :
    ∃ t', t.mymalloc file line size true true (some ptr) true = some (t', some (ptr + 4)) ∧
      Tracks t' (l.allocated file line size ptr) := by
  let rounded := heapRoundupInt (toInt32 size)
  let s : StorageElement := ⟨file, line, ptr, rounded⟩
  let space := sizeofStorageElement + (file.length + 1) + (rounded + 8)
  have hfresh : l.find s.ptr = none := hnone
  obtain ⟨heap', hadd, hsound, hred, helements⟩ :=
    treeAdd_put h.sound h.redBlack h.elements hfresh space
  have hinUse : toInt32 (t.currentSize + rounded) = toInt32 (l.put s space).inUse := by
    rw [inUse_put hfresh, h.currentSize, toInt32_toInt32_add]
  refine ⟨({ t with heap := heap', locked := true }.charge rounded).unlock, ?_,
    ⟨hsound, helements, hred, ?_, ?_, rfl⟩⟩
  · rw [mymalloc, lock_of_unlocked h.unlocked]
    exact Option.bind_eq_some_iff.2 ⟨_, rfl, Option.bind_eq_some_iff.2 ⟨_, hadd, rfl⟩⟩
  · exact (charge_currentSize ..).trans hinUse
  · refine (charge_maxSize ..).trans ?_
    rw [h.maxSize, hinUse]
    rfl

/-- A record is removed from the tree. -/
theorem treeRemoveKey_drop (h : Tracks t l) (block : ℤ) :
    ∃ heap', t.heap.treeRemoveKey StorageElement.ptr block =
        some (heap', (l.find block).map Prod.fst) ∧
      Sound StorageElement.ptr heap' (addrs heap'.shape) heap'.shape ∧ RedBlack heap'.shape ∧
      items heap'.shape = (l.drop block).elements := by
  obtain ⟨heap', hremove, hsound, hred, hitems⟩ := h.sound.treeRemoveKey_eq h.redBlack block
  rw [h.elements] at hremove hitems
  exact ⟨heap', hremove, hsound, hred, hitems⟩

theorem internalHeapUnlink_simulates (h : Tracks t l) (p : ℤ) :
    ∃ t', { t with locked := true }.internalHeapUnlink p =
        some (t', (l.find (p - 4)).isSome) ∧ Tracks t'.unlock (l.drop (p - 4)) := by
  obtain ⟨heap', hremove, hsound, hred, helements⟩ := treeRemoveKey_drop h (p - 4)
  have hlookup : KeyedList.lookup (fun x ↦ x.1.ptr) (p - 4) (items t.heap.shape) =
      l.find (p - 4) := by
    rw [h.elements]
    rfl
  rcases h.sound.treeFind_spec (p - 4) with ⟨hfind, hnone⟩ | ⟨e, n, x, hfind, hn, hcontent, hsome⟩
  · have hmiss : l.find (p - 4) = none := hlookup.symm.trans hnone
    refine ⟨{ t with locked := true }, ?_, ?_⟩
    · rw [internalHeapUnlink, hmiss]
      exact Option.bind_eq_some_iff.2 ⟨_, hfind, rfl⟩
    · rw [TrackedHeap.drop_of_find_none hmiss]
      exact ⟨h.sound, h.elements, h.redBlack, h.currentSize, h.maxSize, rfl⟩
  · have hhit : l.find (p - 4) = some x := hlookup.symm.trans hsome
    rw [treeRemoveKey, hfind, hhit] at hremove
    have hremoved : t.heap.treeRemoveNode e = some (heap', some x.1) := hremove
    refine ⟨{ t with
      heap := heap'
      currentSize := toInt32 (t.currentSize - x.1.size)
      locked := true }, ?_, ⟨hsound, helements, hred, ?_, h.maxSize, rfl⟩⟩
    · rw [internalHeapUnlink, hhit]
      refine Option.bind_eq_some_iff.2 ⟨_, hfind, Option.bind_eq_some_iff.2 ⟨n, hn,
        Option.bind_eq_some_iff.2 ⟨x.1, hcontent, ?_⟩⟩⟩
      exact Option.bind_eq_some_iff.2 ⟨_, hremoved, rfl⟩
    · show toInt32 (t.currentSize - x.1.size) = _
      rw [inUse_drop hhit, h.currentSize, toInt32_toInt32_sub]

theorem myfree_simulates (h : Tracks t l) (p : ℤ) :
    ∃ t', t.myfree p = some (t', (l.find (p - 4)).map fun _ ↦ p - 4) ∧
      Tracks t' (l.drop (p - 4)) := by
  obtain ⟨t', hunlink, htracks⟩ := internalHeapUnlink_simulates h p
  refine ⟨t'.unlock, ?_, htracks⟩
  rw [myfree, lock_of_unlocked h.unlocked]
  refine Option.bind_eq_some_iff.2 ⟨_, rfl, Option.bind_eq_some_iff.2 ⟨_, hunlink, ?_⟩⟩
  cases l.find (p - 4) <;> rfl

theorem heapUnlink_simulates (h : Tracks t l) (p : ℤ) :
    ∃ t', t.heapUnlink p = some t' ∧ Tracks t' (l.drop (p - 4)) := by
  obtain ⟨t', hunlink, htracks⟩ := internalHeapUnlink_simulates h p
  refine ⟨t'.unlock, ?_, htracks⟩
  rw [heapUnlink, lock_of_unlocked h.unlocked]
  exact Option.bind_eq_some_iff.2 ⟨_, rfl, Option.bind_eq_some_iff.2 ⟨_, hunlink, rfl⟩⟩

theorem myrealloc_of_unknown (h : Tracks t l) (file : Bytes) (line : ℤ) {p : ℤ} (size : ℕ)
    (block : Option ℤ) (fileMem nodeMem : Bool) (hnone : l.find (p - 4) = none) :
    ∃ t', t.myrealloc file line p size block fileMem nodeMem = some (t', none) ∧ Tracks t' l := by
  obtain ⟨heap', hremove, hsound, hred, helements⟩ := treeRemoveKey_drop h (p - 4)
  rw [hnone] at hremove
  rw [TrackedHeap.drop_of_find_none hnone] at helements
  refine ⟨{ t with heap := heap', locked := false }, ?_,
    ⟨hsound, helements, hred, h.currentSize, h.maxSize, rfl⟩⟩
  rw [myrealloc, lock_of_unlocked h.unlocked]
  exact Option.bind_eq_some_iff.2 ⟨_, rfl, Option.bind_eq_some_iff.2 ⟨_, hremove, rfl⟩⟩

theorem myrealloc_simulates (h : Tracks t l) (file : Bytes) (line : ℤ) {p : ℤ} (size : ℕ) {ptr : ℤ}
    {x : StorageElement × ℤ} (hfind : l.find (p - 4) = some x)
    (hnone : (l.drop (p - 4)).find ptr = none) :
    ∃ t', t.myrealloc file line p size (some ptr) true true = some (t', some (ptr + 4)) ∧
      Tracks t' ((l.drop (p - 4)).moved x.1 file line size ptr) := by
  let rounded := heapRoundupInt (toInt32 size)
  let s : StorageElement := ⟨file, line, ptr, rounded⟩
  let space := sizeofStorageElement + (rounded + 8 - x.1.size) - x.1.file.length + (file.length + 1)
  have hfresh : (l.drop (p - 4)).find s.ptr = none := hnone
  obtain ⟨heap₁, hremove, hsound₁, hred₁, helements₁⟩ := treeRemoveKey_drop h (p - 4)
  obtain ⟨heap₂, hadd, hsound, hred, helements⟩ :=
    treeAdd_put hsound₁ hred₁ helements₁ hfresh space
  have hinUse : toInt32 (t.currentSize + (rounded - x.1.size)) =
      toInt32 ((l.drop (p - 4)).put s space).inUse := by
    rw [inUse_put hfresh, inUse_drop hfind, h.currentSize, toInt32_toInt32_add]
    exact congrArg toInt32 (by ring)
  refine ⟨{ { t with heap := heap₁, locked := true }.charge (rounded - x.1.size) with
    heap := heap₂ }.unlock, ?_, ⟨hsound, helements, hred, ?_, ?_, rfl⟩⟩
  · rw [hfind] at hremove
    rw [myrealloc, lock_of_unlocked h.unlocked]
    exact Option.bind_eq_some_iff.2 ⟨_, rfl, Option.bind_eq_some_iff.2 ⟨_, hremove,
      Option.bind_eq_some_iff.2 ⟨_, hadd, rfl⟩⟩⟩
  · exact (charge_currentSize ..).trans hinUse
  · refine (charge_maxSize ..).trans ?_
    rw [h.maxSize, hinUse]
    rfl

theorem heapFindItem_simulates (h : Tracks t l) (p : ℤ) :
    t.heapFindItem p = some (t, (l.find (p - 4)).map Prod.fst) := by
  rw [heapFindItem, lock_of_unlocked h.unlocked]
  refine Option.bind_eq_some_iff.2 ⟨_, rfl, Option.bind_eq_some_iff.2 ⟨_, h.find_eq (p - 4), ?_⟩⟩
  show some ({ t with locked := false }, _) = _
  rw [← h.unlocked]

theorem heapScan_simulates (h : Tracks t l) :
    t.heapScan = some (t, l.elements.map Prod.fst) := by
  have hscan := scan_eq h.sound.rep
  rw [h.elements] at hscan
  rw [heapScan, lock_of_unlocked h.unlocked]
  refine Option.bind_eq_some_iff.2 ⟨_, rfl, Option.bind_eq_some_iff.2 ⟨_, hscan, ?_⟩⟩
  show some ({ t with locked := false }, _) = _
  rw [← h.unlocked]

/-- **One call** does what it is for, if it finds memory. -/
theorem step_simulates (h : Tracks t l) {call : HeapCall} {l' : TrackedHeap} {answer : HeapAnswer}
    (hstep : l.step call = some (l', answer)) :
    ∃ t', t.step call = some (t', answer) ∧ Tracks t' l' := by
  have hmap : ∀ {β : Type} {x : Option (HeapTracker × β)} {t' : HeapTracker} {b : β}
      (f : β → HeapAnswer), x = some (t', b) → f b = answer →
      (x.map fun y ↦ (y.1, f y.2)) = some (t', answer) := by
    rintro β x t' b f rfl rfl
    rfl
  cases TrackedHeap.does_of_step hstep with
  | malloc file line size hnone =>
    obtain ⟨t', hmalloc, htracks⟩ := mymalloc_simulates h file line size hnone
    exact ⟨t', hmap _ hmalloc rfl, htracks⟩
  | free p =>
    obtain ⟨t', hfree, htracks⟩ := myfree_simulates h p
    exact ⟨t', hmap _ hfree rfl, htracks⟩
  | unlink p =>
    obtain ⟨t', hunlink, htracks⟩ := heapUnlink_simulates h p
    exact ⟨t', Option.map_eq_some_iff.2 ⟨t', hunlink, rfl⟩, htracks⟩
  | unknown file line size block fileMem nodeMem hnone =>
    obtain ⟨t', hrealloc, htracks⟩ :=
      myrealloc_of_unknown h file line size block fileMem nodeMem hnone
    exact ⟨t', hmap _ hrealloc rfl, htracks⟩
  | realloc file line size hfind hnone =>
    obtain ⟨t', hrealloc, htracks⟩ := myrealloc_simulates h file line size hfind hnone
    exact ⟨t', hmap _ hrealloc rfl, htracks⟩
  | findItem p => exact ⟨t, hmap _ (heapFindItem_simulates h p) rfl, h⟩
  | scan => exact ⟨t, hmap _ (heapScan_simulates h) rfl, h⟩

theorem tracks_heapInitialize : Tracks heapInitialize ⟨[], 0⟩ :=
  ⟨sound_treeInitialize.at_shape, rfl, ⟨rfl, 0, rfl⟩, toInt32_zero.symm, rfl, rfl⟩

/-- A search comes to few nodes. -/
theorem Tracks.depth_le (h : Tracks t l) :
    t.heap.shape.depth ≤ 2 * Nat.log 2 (l.elements.length + 1) := by
  have hdepth := h.redBlack.depth_le
  rwa [← h.elements, items, List.length_map]

/-- **The heap tracker** keeps a sorted list of the allocations: along any run in which the C
library finds memory and hands out no address that is in use, every call returns what it should, the
sizes are those of what is allocated, as far as an `int` can tell, and the tree is a red-black
tree. -/
theorem heapTracker_refines {calls : List HeapCall} {l : TrackedHeap} {answers : List HeapAnswer}
    (hrun : (Machine.answering TrackedHeap.step).run (⟨[], 0⟩, []) calls = some (l, answers)) :
    ∃ t, heapMachine.run (heapInitialize, []) calls = some (t, answers) ∧ Tracks t l ∧
      t.heap.shape.depth ≤ 2 * Nat.log 2 (l.elements.length + 1) := by
  have hstep : ∀ (t : HeapTracker) (l : TrackedHeap) (call : HeapCall) (l' : TrackedHeap)
      (answer : HeapAnswer), Tracks t l → l.step call = some (l', answer) →
        ∃ t', t.step call = some (t', answer) ∧ Tracks t' l' :=
    fun t l call l' answer h ↦ step_simulates h
  obtain ⟨t, ht, htracks⟩ := Machine.run_answering_of_simulates hstep tracks_heapInitialize hrun
  exact ⟨t, ht, htracks, htracks.depth_le⟩

theorem heapTracker_refines_run : ∃ (l : TrackedHeap) (answers : List HeapAnswer),
    (∃ t, heapMachine.run (heapInitialize, []) [.malloc [] 1 20 true true (some 1000) true,
      .malloc [] 2 5 true true (some 500) true, .realloc [] 3 1004 100 (some 3000) true true,
      .free 504, .free 1004, .findItem 3004, .scan] = some (t, answers) ∧ Tracks t l ∧
      t.heap.shape.depth ≤ 2 * Nat.log 2 (l.elements.length + 1)) ∧ l.inUse = 112 :=
  ⟨_, _, heapTracker_refines rfl, rfl⟩

end HeapTracker

import Mathlib.Algebra.BigOperators.Ring.List
import MrubyMqtt.HeapTracker

/-!
# The heap tracker when memory runs out, and at the end

`mymalloc` and `myrealloc` return at once when they find no memory, and keep the mutex: no later
call of any thread comes back. Where they do not look whether there was memory they crash
(`returns_iff`). What is still allocated at the end is reported unless it is very little
(`heapTerminate_spec`).
-/

namespace HeapTracker

open Bytes PahoTree ColoredTree

variable {t : HeapTracker} {l : TrackedHeap}

/-- There is a record of a pointer. -/
def Known (t : HeapTracker) (p : ℤ) : Prop :=
  ∃ s, t.heap.treeFindContent StorageElement.ptr (p - 4) = some (some s)

/-- There is no record of a block. -/
def Unused (t : HeapTracker) (block : ℤ) : Prop :=
  t.heap.treeFindContent StorageElement.ptr block = some none

/-- A call that finds no memory, and says so. -/
def OutOfMemory (t : HeapTracker) : HeapCall → Prop
  | .malloc _ _ _ element fileMem block _ =>
    ¬ (element = true ∧ fileMem = true ∧ block.isSome)
  | .realloc _ _ p _ block _ _ => t.Known p ∧ block = none
  | _ => False

/-- A call that finds no memory where it does not look: `TreeAddByIndex` for the node, and
`myrealloc` for the file name. -/
def Crashes (t : HeapTracker) : HeapCall → Prop
  | .malloc _ _ _ element fileMem block nodeMem =>
    element = true ∧ fileMem = true ∧ block.isSome ∧ nodeMem = false
  | .realloc _ _ p _ block fileMem nodeMem =>
    t.Known p ∧ block.isSome ∧ (fileMem = false ∨ nodeMem = false)
  | _ => False

/-- What the C library is to do: a block is not in use when it is handed out. -/
def Sensible (t : HeapTracker) : HeapCall → Prop
  | .malloc _ _ _ _ _ block _ => ∀ ptr ∈ block, t.Unused ptr
  | .realloc _ _ p _ block _ _ => ∀ ptr ∈ block, ptr = p - 4 ∨ t.Unused ptr
  | _ => True

theorem Tracks.known_iff (h : Tracks t l) (p : ℤ) : t.Known p ↔ (l.find (p - 4)).isSome := by
  rw [Known, h.find_eq]
  cases l.find (p - 4) <;> simp

theorem Tracks.unused_iff (h : Tracks t l) (block : ℤ) : t.Unused block ↔ l.find block = none := by
  rw [Unused, h.find_eq]
  cases l.find block <;> simp

/-- No block is on record twice. -/
theorem Tracks.find_drop_self (h : Tracks t l) (block : ℤ) : (l.drop block).find block = none := by
  have hsorted := sorted_iff.1 h.sound.sorted
  rw [h.elements] at hsorted
  exact KeyedList.lookup_remove_self (KeyedList.atMostOnce_of_pairwise _ hsorted block)

theorem step_of_locked (h : t.locked = true) (call : HeapCall) : t.step call = none := by
  have hlock : t.lock = none := if_pos h
  cases call with
  | malloc file line size element fileMem block nodeMem => rw [step, mymalloc, hlock]; rfl
  | free p => rw [step, myfree, hlock]; rfl
  | unlink p => rw [step, heapUnlink, hlock]; rfl
  | realloc file line p size block fileMem nodeMem => rw [step, myrealloc, hlock]; rfl
  | findItem p => rw [step, heapFindItem, hlock]; rfl
  | scan => rw [step, heapScan, hlock]; rfl

/-- A call that finds no memory returns, but does not unlock. -/
theorem step_of_outOfMemory (h : Tracks t l) {call : HeapCall} (hout : t.OutOfMemory call) :
    ∃ t' answer, t.step call = some (t', answer) ∧ t'.locked = true := by
  have hlock := lock_of_unlocked h.unlocked
  cases call with
  | malloc file line size element fileMem block nodeMem =>
    refine ⟨{ t with locked := true }, .pointer none, ?_, rfl⟩
    rw [step, mymalloc, hlock]
    rcases element with - | -
    · rfl
    rcases fileMem with - | -
    · rfl
    rcases block with - | ptr
    · rfl
    · exact absurd ⟨rfl, rfl, rfl⟩ hout
  | realloc file line p size block fileMem nodeMem =>
    obtain ⟨hknown, rfl⟩ := hout
    obtain ⟨x, hx⟩ := Option.isSome_iff_exists.1 ((h.known_iff p).1 hknown)
    obtain ⟨heap', hremove, -⟩ := treeRemoveKey_drop h (p - 4)
    rw [hx] at hremove
    let rounded := heapRoundupInt (toInt32 size)
    refine ⟨{ t with heap := heap', locked := true }.charge (rounded - x.1.size), .pointer none,
      Option.map_eq_some_iff.2 ⟨(_, none), ?_, rfl⟩, rfl⟩
    rw [myrealloc, hlock]
    exact Option.bind_eq_some_iff.2 ⟨_, rfl, Option.bind_eq_some_iff.2 ⟨_, hremove, rfl⟩⟩
  | free p => exact hout.elim
  | unlink p => exact hout.elim
  | findItem p => exact hout.elim
  | scan => exact hout.elim

/-- Without memory for a node `memset` writes through a null pointer. -/
theorem treeAdd_of_no_node {heap : PahoTree StorageElement} {s : StorageElement}
    (hsound : Sound StorageElement.ptr heap (addrs heap.shape) heap.shape)
    (helements : items heap.shape = l.elements) (hnone : l.find s.ptr = none) (space : ℤ) :
    heap.treeAdd StorageElement.ptr s space false = none := by
  refine treeAdd_of_not_addsTo hsound space ?_
  rw [TrackedHeap.find, ← helements] at hnone
  rintro (hmem | hold)
  · cases hmem
  · rw [hnone] at hold
    cases hold

/-- The block that `myrealloc` gets is not that of another record. -/
theorem Tracks.find_drop (h : Tracks t l) {p ptr : ℤ} (hfresh : ptr = p - 4 ∨ t.Unused ptr) :
    (l.drop (p - 4)).find ptr = none := by
  rcases eq_or_ne ptr (p - 4) with rfl | hne
  · exact h.find_drop_self (p - 4)
  · have hptr := (h.unused_iff ptr).1 (hfresh.resolve_left hne)
    exact (KeyedList.lookup_remove_of_ne hne _).trans hptr

/-- A call that crashes does not come back. -/
theorem step_of_crashes (h : Tracks t l) {call : HeapCall} (hsensible : t.Sensible call)
    (hcrash : t.Crashes call) : t.step call = none := by
  have hlock := lock_of_unlocked h.unlocked
  have hbind : ∀ {β γ : Type} {x : Option β} {f : β → Option γ}, x = none → x.bind f = none := by
    rintro β γ x f rfl
    rfl
  cases call with
  | malloc file line size element fileMem block nodeMem =>
    obtain ⟨rfl, rfl, hblock, rfl⟩ := hcrash
    obtain ⟨ptr, rfl⟩ := Option.isSome_iff_exists.1 hblock
    have hnone := (h.unused_iff ptr).1 (hsensible ptr rfl)
    have hadd := treeAdd_of_no_node (s := ⟨file, line, ptr, heapRoundupInt (toInt32 size)⟩)
      h.sound h.elements hnone
    rw [step, mymalloc, hlock]
    refine Option.map_eq_none_iff.2 ?_
    rw [Option.bind_eq_bind, Option.bind_some]
    exact hbind (hadd _)
  | realloc file line p size block fileMem nodeMem =>
    obtain ⟨hknown, hblock, hmem⟩ := hcrash
    obtain ⟨ptr, rfl⟩ := Option.isSome_iff_exists.1 hblock
    obtain ⟨x, hx⟩ := Option.isSome_iff_exists.1 ((h.known_iff p).1 hknown)
    obtain ⟨heap', hremove, hsound, -, helements⟩ := treeRemoveKey_drop h (p - 4)
    rw [hx] at hremove
    have hnone := h.find_drop (hsensible ptr rfl)
    have hadd := treeAdd_of_no_node (s := ⟨file, line, ptr, heapRoundupInt (toInt32 size)⟩)
      hsound helements hnone
    rw [step, myrealloc, hlock]
    refine Option.map_eq_none_iff.2 ?_
    simp only [Option.bind_eq_bind, Option.bind_some, hremove]
    rcases fileMem with - | -
    · rfl
    obtain rfl := hmem.resolve_left Bool.false_ne_true.symm
    exact hbind (hadd _)
  | free p => exact hcrash.elim
  | unlink p => exact hcrash.elim
  | findItem p => exact hcrash.elim
  | scan => exact hcrash.elim

/-- A call that finds memory is one of those the tracker is made for. -/
theorem step_of_memory (h : Tracks t l) {call : HeapCall} (hsensible : t.Sensible call)
    (hcrash : ¬ t.Crashes call) (hmemory : ¬ t.OutOfMemory call) :
    ∃ l' answer, l.step call = some (l', answer) := by
  cases call with
  | malloc file line size element fileMem block nodeMem =>
    obtain ⟨rfl, rfl, hblock⟩ := not_not.1 hmemory
    obtain rfl : nodeMem = true := by
      rcases nodeMem with - | -
      · exact absurd ⟨rfl, rfl, hblock, rfl⟩ hcrash
      · rfl
    obtain ⟨ptr, rfl⟩ := Option.isSome_iff_exists.1 hblock
    have hnone := (h.unused_iff ptr).1 (hsensible ptr rfl)
    refine ⟨_, _, if_neg ?_⟩
    rw [hnone]
    exact Bool.false_ne_true
  | realloc file line p size block fileMem nodeMem =>
    rcases hfind : l.find (p - 4) with - | x
    · exact ⟨l, .pointer none, by simp only [TrackedHeap.step, hfind]⟩
    have hknown : t.Known p := (h.known_iff p).2 (hfind ▸ rfl)
    rcases block with - | ptr
    · exact absurd ⟨hknown, rfl⟩ hmemory
    have hmem : (fileMem && nodeMem) = true := by
      rcases fileMem with - | -
      · exact absurd ⟨hknown, rfl, .inl rfl⟩ hcrash
      rcases nodeMem with - | -
      · exact absurd ⟨hknown, rfl, .inr rfl⟩ hcrash
      rfl
    have hnone := h.find_drop (hsensible ptr rfl)
    exact ⟨_, _, by simp only [TrackedHeap.step, hfind, hmem, hnone]; rfl⟩
  | free p => exact ⟨_, _, rfl⟩
  | unlink p => exact ⟨_, _, rfl⟩
  | findItem p => exact ⟨_, _, rfl⟩
  | scan => exact ⟨_, _, rfl⟩

/-- **Out of memory.** As long as the C library hands out no block that is in use, the last call of
a run returns exactly if no call crashes and every call before the last has found memory. -/
theorem returns_iff {calls : List HeapCall} {call : HeapCall}
    (h : heapMachine.EachTried (fun r call ↦ r.1.Sensible call) (heapInitialize, [])
      (calls ++ [call])) :
    (heapMachine.run (heapInitialize, []) (calls ++ [call])).isSome ↔
      heapMachine.EachTried (fun r call ↦ ¬ r.1.Crashes call) (heapInitialize, [])
        (calls ++ [call]) ∧
      heapMachine.EachStep (fun r call _ ↦ ¬ r.1.OutOfMemory call) (heapInitialize, []) calls := by
  have hrefuse : ∀ (r : HeapTracker × List HeapAnswer) (call : HeapCall), (∃ l, Tracks r.1 l) →
      r.1.Sensible call → ¬ ¬ r.1.Crashes call → heapMachine.step r call = none := by
    rintro ⟨t, answers⟩ call ⟨l, htracks⟩ hsensible hcrash
    show (t.step call).map _ = none
    rw [step_of_crashes htracks hsensible (not_not.1 hcrash)]
    rfl
  have hstep : ∀ (r : HeapTracker × List HeapAnswer) (call : HeapCall), (∃ l, Tracks r.1 l) →
      r.1.Sensible call → ¬ r.1.Crashes call → ∃ r', heapMachine.step r call = some r' ∧
        (¬ r.1.OutOfMemory call → ∃ l, Tracks r'.1 l) ∧
        (¬ ¬ r.1.OutOfMemory call → r'.1.locked = true) := by
    rintro ⟨t, answers⟩ call ⟨l, htracks⟩ hsensible hcrash
    by_cases hout : t.OutOfMemory call
    · obtain ⟨t', answer, hs, hlocked⟩ := step_of_outOfMemory htracks hout
      exact ⟨_, Option.map_eq_some_iff.2 ⟨_, hs, rfl⟩, fun hmemory ↦ absurd hout hmemory,
        fun _ ↦ hlocked⟩
    · obtain ⟨l', answer, hl⟩ := step_of_memory htracks hsensible hcrash hout
      obtain ⟨t', hs, htracks'⟩ := step_simulates htracks hl
      exact ⟨_, Option.map_eq_some_iff.2 ⟨_, hs, rfl⟩, fun _ ↦ ⟨l', htracks'⟩,
        fun hmemory ↦ absurd hout hmemory⟩
  have hdead : ∀ (r : HeapTracker × List HeapAnswer) (call : HeapCall), r.1.locked = true →
      heapMachine.step r call = none := fun r call hlocked ↦ by
    show (r.1.step call).map _ = none
    rw [step_of_locked hlocked]
    rfl
  exact heapMachine.isSome_run_iff hrefuse hstep hdead ⟨_, tracks_heapInitialize⟩ h

theorem returns_iff_malloc : (heapMachine.run (heapInitialize, [])
    ([.malloc [] 1 20 true true none true] ++ [.scan])).isSome ↔
      heapMachine.EachTried (fun r call ↦ ¬ r.1.Crashes call) (heapInitialize, [])
        ([.malloc [] 1 20 true true none true] ++ [.scan]) ∧
      heapMachine.EachStep (fun r call _ ↦ ¬ r.1.OutOfMemory call) (heapInitialize, [])
        [.malloc [] 1 20 true true none true] :=
  returns_iff ⟨nofun, fun _ _ ↦ ⟨trivial, fun _ _ ↦ trivial⟩⟩

/-! ### At the end -/

/-- Sizes are multiples of sixteen. -/
def Rounded (l : TrackedHeap) : Prop := ∀ x ∈ l.elements, 16 ∣ x.1.size

theorem rounded_drop (h : Rounded l) (block : ℤ) : Rounded (l.drop block) :=
  fun x hx ↦ h x (KeyedList.mem_of_mem_remove hx)

theorem rounded_put (h : Rounded l) (file : Bytes) (line ptr : ℤ) {size : ℤ} (hsize : 16 ∣ size)
    (space : ℤ) : Rounded (l.put ⟨file, line, ptr, size⟩ space) := by
  intro x hx
  rcases KeyedList.mem_of_mem_place _ hx with rfl | hx
  · exact hsize
  · exact h x hx

theorem rounded_step {l' : TrackedHeap} {call : HeapCall} {answer : HeapAnswer} (h : Rounded l)
    (hstep : l.step call = some (l', answer)) : Rounded l' := by
  cases TrackedHeap.does_of_step hstep with
  | malloc file line => exact rounded_put h file line _ (dvd_heapRoundupInt _) _
  | free p => exact rounded_drop h (p - 4)
  | unlink p => exact rounded_drop h (p - 4)
  | unknown => exact h
  | realloc file line =>
    exact rounded_put (rounded_drop h _) file line _ (dvd_heapRoundupInt _) _
  | findItem => exact h
  | scan => exact h

theorem Rounded.inUse (h : Rounded l) : 16 ∣ l.inUse := by
  refine List.dvd_sum fun size hsize ↦ ?_
  obtain ⟨x, hx, rfl⟩ := List.mem_map.1 hsize
  exact h x hx

/-- **At the end** everything that is still on record is reported, unless its size is at most
sixteen bytes as an `int`. -/
theorem heapTerminate_spec {calls : List HeapCall} {answers : List HeapAnswer}
    (hrun : (Machine.answering TrackedHeap.step).run (⟨[], 0⟩, []) calls = some (l, answers)) :
    ∃ t, heapMachine.run (heapInitialize, []) calls = some (t, answers) ∧
      t.heapTerminate =
        some (t, if toInt32 l.inUse ≤ 16 then [] else l.elements.map Prod.fst) := by
  have hstep : ∀ (t : HeapTracker) (l : TrackedHeap) (call : HeapCall) (l' : TrackedHeap)
      (answer : HeapAnswer), Tracks t l ∧ Rounded l → l.step call = some (l', answer) →
        ∃ t', t.step call = some (t', answer) ∧ Tracks t' l' ∧ Rounded l' := by
    rintro t l call l' answer ⟨htracks, hrounded⟩ hl
    obtain ⟨t', ht, htracks'⟩ := step_simulates htracks hl
    exact ⟨t', ht, htracks', rounded_step hrounded hl⟩
  have hstart : Tracks heapInitialize ⟨[], 0⟩ ∧ Rounded ⟨[], 0⟩ := ⟨tracks_heapInitialize, nofun⟩
  obtain ⟨t, ht, htracks, hrounded⟩ := Machine.run_answering_of_simulates hstep hstart hrun
  refine ⟨t, ht, ?_⟩
  obtain ⟨k, hk⟩ := dvd_toInt32 hrounded.inUse
  rw [heapTerminate, htracks.currentSize, hk]
  by_cases hsmall : k ≤ 1
  · rw [if_neg (by omega), if_pos (by omega)]
  · rw [if_pos (by omega), if_neg (by omega)]
    exact heapScan_simulates htracks

theorem heapTerminate_spec_leak : ∃ (l : TrackedHeap) (answers : List HeapAnswer),
    (∃ t, heapMachine.run (heapInitialize, []) [.malloc [] 1 20 true true (some 1000) true,
      .malloc [] 2 5 true true (some 500) true, .free 1004] = some (t, answers) ∧
      t.heapTerminate =
        some (t, if toInt32 l.inUse ≤ 16 then [] else l.elements.map Prod.fst)) ∧
    l.inUse = 16 :=
  ⟨_, _, heapTerminate_spec rfl, rfl⟩

end HeapTracker

import Mathlib.Algebra.Ring.Int.Defs
import MrubyMqtt.Lib.ColoredTreeBalance
import MrubyMqtt.Lib.SortedList
import MrubyMqtt.TreeBalancing

/-!
# Adding, finding and removing

What the operations of `Tree.c` do to a tree that is sorted by the keys of its contents: those of a
sorted list. No operation on a sound tree fails or runs on without end, and no node is left behind.
-/

open Bytes ColoredTree

namespace PahoTree

variable {α κ : Type} [LinearOrder κ] {key : α → κ} {k : κ} {s : PahoTree α} {L : List ℕ}
  {T t left right : ColoredTree (TreeCell α)} {path up : List (Frame (TreeCell α))} {red : Bool}
  {c : TreeCell α}

/-- The contents with their sizes, in order. -/
def items (t : ColoredTree (TreeCell α)) : List (α × ℤ) :=
  t.toList.map fun c ↦ (c.content, c.size)

/-- The keys increase from left to right. -/
def Sorted (key : α → κ) (t : ColoredTree (TreeCell α)) : Prop :=
  t.toList.Pairwise fun a b ↦ key a.content < key b.content

/-- A tree with nothing else beside it, and with its counters, which wrap around as an `int`
does. -/
structure Sound (key : α → κ) (s : PahoTree α) (L : List ℕ) (T : ColoredTree (TreeCell α)) :
    Prop where
  /-- The nodes form the tree. -/
  rep : Rep s L T
  /-- The tree is sorted. -/
  sorted : Sorted key T
  /-- There are no other nodes. -/
  others : ∀ a, a ∉ L → s.nodes a = none
  /-- The number of items. -/
  count : s.count = toInt32 (items T).length
  /-- Their sizes, summed up. -/
  size : s.size = toInt32 ((items T).map Prod.snd).sum

/-- Where a search goes on. -/
def toward (key : α → κ) (k : κ) (c : TreeCell α) : Option Bool :=
  if key c.content < k then some true else if key c.content = k then none else some false

theorem ptrCompare_eq_zero_iff {a b : κ} : ptrCompare a b = 0 ↔ a = b := by
  rw [ptrCompare]
  split_ifs with hgt heq
  · exact iff_of_false (by decide) hgt.ne'
  · exact iff_of_true rfl heq
  · exact iff_of_false (by decide) heq

theorem ptrCompare_pos_iff {a b : κ} : ptrCompare a b > 0 ↔ a < b := by
  rw [ptrCompare]
  split_ifs with hgt heq
  · exact iff_of_false (by decide) hgt.not_gt
  · exact iff_of_false (by decide) heq.not_lt
  · exact iff_of_true (by decide) (lt_of_le_of_ne (not_lt.1 hgt) heq)

theorem toward_eq_some_true_iff : toward key k c = some true ↔ key c.content < k := by
  rw [toward]
  split_ifs <;> simp [*]

theorem toward_eq_none_iff : toward key k c = none ↔ key c.content = k := by
  rw [toward]
  split_ifs with hlt heq
  · exact iff_of_false (by simp) hlt.ne
  · exact iff_of_true rfl heq
  · exact iff_of_false (by simp) heq

theorem toward_eq_some_false_iff : toward key k c = some false ↔ k < key c.content := by
  rw [toward]
  split_ifs with hlt heq
  · exact iff_of_false (by simp) hlt.not_gt
  · exact iff_of_false (by simp) heq.not_gt
  · exact iff_of_true rfl (lt_of_le_of_ne (not_lt.1 hlt) (Ne.symm heq))

/-- What a search leaves on both sides. -/
theorem Sorted.beside (h : Sorted key T) (hseek : seek (toward key k) [] T = (path, t)) :
    (∀ c ∈ before path, key c.content < k) ∧ ∀ c ∈ after path, k < key c.content := by
  have hmono : (plug [] T).toList.Pairwise fun a b ↦
      (toward key k b = some true → toward key k a = some true) ∧
        (toward key k a = some false → toward key k b = some false) := by
    refine List.Pairwise.imp (fun hab ↦ ?_) h
    rw [toward_eq_some_true_iff, toward_eq_some_true_iff, toward_eq_some_false_iff,
      toward_eq_some_false_iff]
    exact ⟨hab.trans, fun hk ↦ hk.trans hab⟩
  have hbeside := beside_of_seek hseek hmono (by simp [before]) (by simp [after])
  exact ⟨fun c hc ↦ toward_eq_some_true_iff.1 (hbeside.1 c hc),
    fun c hc ↦ toward_eq_some_false_iff.1 (hbeside.2 c hc)⟩

/-! ### Searching -/

theorem depth_le_length (t : ColoredTree (TreeCell α)) : t.depth ≤ t.toList.length := by
  induction t with
  | nil => exact Nat.zero_le _
  | node red left c right ihl ihr =>
    simp only [depth, toList, List.length_append, List.length_cons]
    omega

theorem Rep.depth_le_next (h : Rep s L (plug path t)) : t.depth ≤ s.next := by
  have hL := h.length_le_next
  rw [← h.addrs_eq, (perm_addrs_plug path t).length_eq, List.length_append, addrs,
    List.length_map] at hL
  have ht := depth_le_length t
  omega

theorem Rep.depth_le (h : Rep s L T) : T.depth ≤ s.next := by
  have hwhole : Rep s L (plug [] T) := h
  exact hwhole.depth_le_next

theorem treeFindLoop_spec {fuel : ℕ} (h : Rep s L (plug path t)) (hfuel : t.depth < fuel) :
    s.treeFindLoop key k fuel (ptr t) = some (ptr (seek (toward key k) path t).2) := by
  induction t generalizing path fuel with
  | nil =>
    obtain ⟨fuel, rfl⟩ : ∃ j, fuel = j + 1 := ⟨fuel - 1, by omega⟩
    rfl
  | node red left c right ihl ihr =>
    obtain ⟨fuel, rfl⟩ : ∃ j, fuel = j + 1 := ⟨fuel - 1, by omega⟩
    have hc := h.focus.2.1
    simp only [depth] at hfuel
    simp only [ptr, treeFindLoop, Option.bind_eq_bind, hc, TreeCell.node, Option.bind_some,
      ptrCompare_eq_zero_iff, ptrCompare_pos_iff]
    cases hdir : toward key k c with
    | none =>
      rw [seek, hdir, if_pos (toward_eq_none_iff.1 hdir)]
    | some d =>
      cases d with
      | true =>
        have hlt := toward_eq_some_true_iff.1 hdir
        have hright : Rep s L (plug (⟨true, red, c, left⟩ :: path) right) := h
        rw [seek, hdir, if_neg hlt.ne, decide_eq_true hlt]
        exact ihr hright (by omega)
      | false =>
        have hgt := toward_eq_some_false_iff.1 hdir
        have hleft : Rep s L (plug (⟨false, red, c, right⟩ :: path) left) := h
        rw [seek, hdir, if_neg hgt.ne', decide_eq_false hgt.not_gt]
        exact ihl hleft (by omega)

theorem treeAddLoop_spec {fuel : ℕ} {side : Bool} {result : ℤ} (h : Rep s L (plug path t))
    (hfuel : t.depth < fuel) (hresult : result ≠ 0) (hside : ∀ f ∈ path.head?, f.side = side)
    (hseek : seek (toward key k) path t = (up, T)) :
    ∃ side' result', s.treeAddLoop key k fuel (parentOf path) (ptr t) side result =
        some (parentOf up, ptr T, side', result') ∧
      (result' = 0 ↔ T ≠ .nil) ∧ ∀ f ∈ up.head?, T = .nil → f.side = side' := by
  induction t generalizing path fuel side result with
  | nil =>
    obtain ⟨fuel, rfl⟩ : ∃ j, fuel = j + 1 := ⟨fuel - 1, by omega⟩
    obtain ⟨rfl, rfl⟩ := Prod.mk.inj hseek
    exact ⟨side, result, rfl, iff_of_false hresult (fun hne ↦ hne rfl), fun f hf _ ↦ hside f hf⟩
  | node red left c right ihl ihr =>
    obtain ⟨fuel, rfl⟩ : ∃ j, fuel = j + 1 := ⟨fuel - 1, by omega⟩
    have hc := h.focus.2.1
    simp only [depth] at hfuel
    simp only [ptr, treeAddLoop, Option.bind_eq_bind, hc, TreeCell.node, Option.bind_some,
      ptrCompare_eq_zero_iff, ptrCompare_pos_iff]
    cases hdir : toward key k c with
    | none =>
      have heq := toward_eq_none_iff.1 hdir
      rw [seek, hdir] at hseek
      obtain ⟨rfl, rfl⟩ := Prod.mk.inj hseek
      rw [if_pos heq]
      exact ⟨_, _, rfl, iff_of_true (ptrCompare_eq_zero_iff.2 heq) (by simp),
        fun f hf hnil ↦ by cases hnil⟩
    | some d =>
      rw [seek, hdir] at hseek
      cases d with
      | true =>
        have hlt := toward_eq_some_true_iff.1 hdir
        have hright : Rep s L (plug (⟨true, red, c, left⟩ :: path) right) := h
        rw [if_neg hlt.ne, decide_eq_true hlt]
        exact ihr hright (by omega)
          (fun h0 ↦ hlt.ne (ptrCompare_eq_zero_iff.1 h0)) (by simp) hseek
      | false =>
        have hgt := toward_eq_some_false_iff.1 hdir
        have hleft : Rep s L (plug (⟨false, red, c, right⟩ :: path) left) := h
        rw [if_neg hgt.ne', decide_eq_false hgt.not_gt]
        exact ihl hleft (by omega)
          (fun h0 ↦ hgt.ne' (ptrCompare_eq_zero_iff.1 h0)) (by simp) hseek

theorem treeFind_eq (h : Rep s L T) :
    s.treeFind key k = some (ptr (seek (toward key k) [] T).2) := by
  have hwhole : Rep s L (plug [] T) := h
  rw [treeFind, h.root]
  exact treeFindLoop_spec hwhole (Nat.lt_succ_of_le h.depth_le)

/-! ### Going from one node to the next -/

theorem treeMinimumLoop_spec {fuel a : ℕ} (h : Rep s L (plug path t)) (ha : ptr t = some a)
    (hfuel : t.depth ≤ fuel) :
    ∃ m, s.treeMinimumLoop fuel a = some m ∧ (addrs t).head? = some m := by
  induction t generalizing path fuel a with
  | nil => cases ha
  | node red left c right ihl _ =>
    obtain rfl : c.addr = a := Option.some.inj ha
    simp only [depth] at hfuel
    obtain ⟨fuel, rfl⟩ : ∃ j, fuel = j + 1 := ⟨fuel - 1, by omega⟩
    have hc := h.focus.2.1
    have hleft : childAt false (ptr left) (ptr right) false = ptr left := rfl
    simp only [treeMinimumLoop, Option.bind_eq_bind, hc, TreeCell.node, Option.bind_some, hleft]
    cases left with
    | nil => exact ⟨c.addr, rfl, rfl⟩
    | node red' left' c' right' =>
      have hfocus : Rep s L (plug (⟨false, red, c, right⟩ :: path)
        (.node red' left' c' right')) := h
      have hdepth : (ColoredTree.node red' left' c' right').depth ≤ fuel := by omega
      obtain ⟨m, hm, hhead⟩ := ihl hfocus rfl hdepth
      refine ⟨m, hm, ?_⟩
      rw [addrs, toList, List.map_append, List.head?_append]
      rw [addrs] at hhead
      rw [hhead]
      rfl

theorem treeSuccessorLoop_spec {fuel a : ℕ} (h : Rep s L (plug path t)) (ha : ptr t = some a)
    (hfuel : path.length < fuel) :
    s.treeSuccessorLoop fuel a (parentOf path) = some ((after path).map TreeCell.addr).head? := by
  induction path generalizing t fuel a with
  | nil =>
    obtain ⟨fuel, rfl⟩ : ∃ j, fuel = j + 1 := ⟨fuel - 1, by omega⟩
    rfl
  | cons f up ih =>
    obtain ⟨fuel, rfl⟩ : ∃ j, fuel = j + 1 := ⟨fuel - 1, by omega⟩
    have hf : Rep s L (plug up (join f.side f.red f.label t f.other)) := h
    have hparent : parentOf (f :: up) = some f.label.addr := rfl
    rw [hparent]
    simp only [treeSuccessorLoop, Option.bind_eq_bind, hf.node, TreeCell.node, Option.bind_some, ha]
    rw [after]
    cases hside : f.side with
    | true =>
      have hchild : childAt true (some a) (ptr f.other) true = some a := rfl
      rw [if_pos hchild]
      exact ih h (ptr_join ..) (by simp at hfuel; omega)
    | false =>
      have hchild : childAt false (some a) (ptr f.other) true = ptr f.other := rfl
      rw [hchild, if_neg (hf.ptr_far_ne ha)]
      rfl

theorem treeSuccessor_spec (h : Rep s L (plug path (.node red left c right))) :
    s.treeSuccessor c.addr = some (addrs right ++ (after path).map TreeCell.addr).head? := by
  have hc := h.focus.2.1
  have hright : childAt false (ptr left) (ptr right) true = ptr right := rfl
  simp only [treeSuccessor, Option.bind_eq_bind, hc, TreeCell.node, Option.bind_some, hright]
  cases right with
  | nil => exact treeSuccessorLoop_spec h rfl (Nat.lt_succ_of_le h.length_le)
  | node red' left' c' right' =>
    have hfocus : Rep s L (plug (⟨true, red, c, left⟩ :: path) (.node red' left' c' right')) := h
    have hdepth : (ColoredTree.node red' left' c' right').depth ≤ s.next + 1 :=
      Nat.le_succ_of_le hfocus.depth_le_next
    obtain ⟨m, hm, hhead⟩ := treeMinimumLoop_spec hfocus rfl hdepth
    rw [List.head?_append, hhead]
    show (s.treeMinimumLoop (s.next + 1) c'.addr).map some = _
    rw [hm]
    rfl

/-- **The first node** of a tree. -/
theorem treeNextElement_none (h : Rep s L T) : s.treeNextElement none = some L.head? := by
  show s.treeMinimum s.root = _
  rw [h.root, ← h.addrs_eq]
  cases T with
  | nil => rfl
  | node red left c right =>
    have hwhole : Rep s L (plug [] (.node red left c right)) := h
    obtain ⟨m, hm, hhead⟩ := treeMinimumLoop_spec hwhole rfl (Nat.le_succ_of_le h.depth_le)
    rw [hhead]
    show (s.treeMinimumLoop (s.next + 1) c.addr).map some = _
    rw [hm]
    rfl

/-- **The next node**, in the order of the addresses. -/
theorem treeNextElement_some {l l' : List ℕ} {a : ℕ} (h : Rep s (l ++ a :: l') T) :
    s.treeNextElement (some a) = some l'.head? := by
  have haddrs := h.addrs_eq
  obtain ⟨cs, rest, hsplit, rfl, hrest⟩ := List.map_eq_append_iff.1 haddrs
  obtain ⟨c, cs', rfl, rfl, rfl⟩ := List.map_eq_cons_iff.1 hrest
  obtain ⟨path, red, left, right, rfl, -, rfl⟩ := exists_plug_node hsplit
  rw [List.map_append]
  exact treeSuccessor_spec h

/-! ### Adding -/

/-- The pointer to a new node is stored at the end of a path. -/
theorem link_spec {side : Bool} (h : HoldsPath s.nodes s.root path none)
    (hnodup : (pathAddrs path).Nodup) (hside : ∀ f ∈ path.head?, f.side = side) (newel : ℕ) :
    ∃ s', s.link (parentOf path) side newel = some s' ∧
      HoldsPath s'.nodes s'.root path (some newel) ∧ Touches (pathAddrs path) s s' := by
  cases path with
  | nil => exact ⟨_, rfl, rfl, fun _ _ ↦ rfl, rfl, rfl, rfl⟩
  | cons f up =>
    obtain rfl : f.side = side := hside f rfl
    exact setHole_spec h hnodup (some newel)

/-- A new leaf is hung at the end of a path. -/
theorem attach_spec (h : Rep s L (plug path .nil)) {side : Bool}
    (hside : ∀ f ∈ path.head?, f.side = side) (content : α) (size : ℤ) :
    ∃ s' L', s.attach (parentOf path) side content size true = some s' ∧
      Rep s' L' (ColoredTree.balanceAfterAdd path (.node true .nil ⟨s.next, content, size⟩ .nil)) ∧
      s'.next = s.next + 1 ∧ s'.count = toInt32 (s.count + 1) ∧
      s'.size = toInt32 (s.size + size) ∧
      ∀ a, a ∉ L' → a ∉ L ∧ s'.nodes a = s.nodes a := by
  have hperm : ∀ a, a ∈ L ↔ a ∈ pathAddrs path := by
    intro a
    rw [← h.addrs_eq, (perm_addrs_plug path .nil).mem_iff]
    rfl
  have hnodup : (pathAddrs path).Nodup := h.apart
  have hfresh : s.next ∉ pathAddrs path := fun hmem ↦ h.next_not_mem ((hperm _).2 hmem)
  let leaf : ColoredTree (TreeCell α) := .node true .nil ⟨s.next, content, size⟩ .nil
  let s₀ : PahoTree α :=
    { s with nodes := Function.update s.nodes s.next (some zeroed), next := s.next + 1 }
  have hpath₀ : HoldsPath s₀.nodes s₀.root path none :=
    h.focus.1.congr fun a ha ↦ Function.update_of_ne (ne_of_mem_of_not_mem ha hfresh) ..
  obtain ⟨s₁, h₁, hpath₁, ht₁⟩ := link_spec hpath₀ hnodup hside s.next
  have hnew₁ : s₁.nodes s.next = some zeroed :=
    (ht₁.nodes _ hfresh).trans (Function.update_self ..)
  -- The fields of the new node are filled in one by one.
  let s₂ := s₁.write s.next { zeroed with parent := parentOf path }
  have h₂ : s₁.setParent s.next (parentOf path) = some s₂ := modify_of_nodes hnew₁ _
  let s₃ := s₂.write s.next { zeroed with parent := parentOf path, red := true }
  have h₃ : s₂.setRed s.next true = some s₃ := modify_of_nodes (write_nodes_self ..) _
  let s₄ : PahoTree α :=
    { s₃ with count := toInt32 (s₃.count + 1), size := toInt32 (s₃.size + size) }
  let s₅ := s₄.write s.next ⟨parentOf path, fun _ ↦ none, some content, size, true⟩
  have hnew₄ : s₄.nodes s.next = some { zeroed with parent := parentOf path, red := true } :=
    write_nodes_self ..
  have h₅ : s₄.setContent s.next (some content) size = some s₅ := modify_of_nodes hnew₄ _
  have hrest : ∀ a, a ≠ s.next → s₅.nodes a = s₁.nodes a := fun a ha ↦
    (write_nodes_of_ne s₄ ha _).trans
      ((write_nodes_of_ne s₂ ha _).trans (write_nodes_of_ne s₁ ha _))
  have hnext : s₅.next = s.next + 1 := ht₁.next
  have hleaf : (addrs (plug path leaf)).Perm (s.next :: pathAddrs path) :=
    perm_addrs_plug path leaf
  have hrep : Rep s₅ (addrs (plug path leaf)) (plug path leaf) := by
    have hholds : Holds s₅.nodes (parentOf path) leaf := by
      refine ⟨?_, trivial, trivial⟩
      have hchild : childAt false none none = fun _ ↦ none := funext fun e ↦ ite_self none
      show s₅.nodes s.next = some (TreeCell.node _ _ (childAt false none none) _)
      rw [hchild]
      exact write_nodes_self ..
    have hpath₅ : HoldsPath s₅.nodes s₅.root path (ptr leaf) :=
      hpath₁.congr fun a ha ↦ hrest a (ne_of_mem_of_not_mem ha hfresh)
    obtain ⟨hroot, hall⟩ := (holds_plug path leaf).2 ⟨hpath₅, hholds⟩
    refine ⟨hroot, hall, rfl, hleaf.nodup_iff.2 (List.nodup_cons.2 ⟨hfresh, hnodup⟩), fun a ha ↦ ?_⟩
    rw [hnext]
    rcases List.mem_cons.1 (hleaf.mem_iff.1 ha) with rfl | ha
    · exact Nat.lt_succ_self _
    · exact Nat.lt_succ_of_lt (h.bound a ((hperm a).2 ha))
  obtain ⟨s₆, h₆, hrep₆, ht₆⟩ := treeBalanceAfterAdd_spec hrep rfl
  refine ⟨s₆, _, ?_, hrep₆, ht₆.next.trans hnext, ?_, ?_, fun a ha ↦ ⟨?_, ?_⟩⟩
  · rw [attach]
    exact Option.bind_eq_some_iff.2 ⟨(s₀, s.next), rfl, Option.bind_eq_some_iff.2 ⟨s₁, h₁,
      Option.bind_eq_some_iff.2 ⟨s₂, h₂, Option.bind_eq_some_iff.2 ⟨s₃, h₃,
        Option.bind_eq_some_iff.2 ⟨s₅, h₅, h₆⟩⟩⟩⟩⟩
  · have hcount : s₅.count = toInt32 (s₁.count + 1) := rfl
    rw [ht₆.count, hcount, ht₁.count]
  · have hsize : s₅.size = toInt32 (s₁.size + size) := rfl
    rw [ht₆.size, hsize, ht₁.size]
  · rw [hleaf.mem_iff, List.mem_cons, not_or] at ha
    rw [hperm]
    exact ha.2
  · have hnot := ha
    rw [hleaf.mem_iff, List.mem_cons, not_or] at ha
    exact (ht₆.nodes a hnot).trans ((hrest a ha.1).trans ((ht₁.nodes a ha.2).trans
      (Function.update_of_ne ha.1 ..)))

theorem replace_spec (h : Rep s L (plug path (.node red left c right))) (content : α) (size : ℤ) :
    ∃ s', s.replace c.addr content size = some (s', some c.content) ∧
      Rep s' L (ColoredTree.balanceAfterAdd path
        (.node red left ⟨c.addr, content, size⟩ right)) ∧
      s'.count = s.count ∧ s'.size = toInt32 (s.size + (size - c.size)) ∧
      ∀ a, a ∉ L → s'.nodes a = s.nodes a := by
  let s₀ : PahoTree α := { s with size := toInt32 (s.size + (size - c.size)) }
  have hrep₀ : Rep s₀ L (plug path (join false red c left right)) :=
    ⟨h.root, h.holds, h.addrs_eq, h.nodup, h.bound⟩
  obtain ⟨s₁, h₁, hrep₁, ht₁⟩ := setContent_spec hrep₀ content size
  obtain ⟨s₂, h₂, hrep₂, ht₂⟩ := treeBalanceAfterAdd_spec hrep₁ (ptr_join ..)
  have htouches := ht₁.trans ht₂
  refine ⟨s₂, ?_, hrep₂, htouches.count, htouches.size, htouches.nodes⟩
  have hc := h.focus.2.1
  simp only [replace, Option.bind_eq_bind, hc, Option.bind_some, TreeCell.node]
  exact Option.bind_eq_some_iff.2 ⟨s₁, h₁, Option.bind_eq_some_iff.2 ⟨s₂, h₂, rfl⟩⟩

/-- The contents before a subtree. -/
def itemsBefore (path : List (Frame (TreeCell α))) : List (α × ℤ) :=
  (before path).map fun c ↦ (c.content, c.size)

/-- The contents behind a subtree. -/
def itemsAfter (path : List (Frame (TreeCell α))) : List (α × ℤ) :=
  (after path).map fun c ↦ (c.content, c.size)

theorem items_plug (path : List (Frame (TreeCell α))) (t : ColoredTree (TreeCell α)) :
    items (plug path t) = itemsBefore path ++ items t ++ itemsAfter path := by
  rw [items, toList_plug, List.map_append, List.map_append]
  rfl

theorem items_plug_node (path : List (Frame (TreeCell α))) (red : Bool)
    (left right : ColoredTree (TreeCell α)) (c : TreeCell α) :
    items (plug path (.node red left c right)) = (itemsBefore path ++ items left) ++
      (some (c.content, c.size)).toList ++ (items right ++ itemsAfter path) := by
  rw [items_plug]
  simp [items, toList]

theorem sorted_iff : Sorted key T ↔ (items T).Pairwise fun a b ↦ key a.1 < key b.1 := by
  rw [items, List.pairwise_map]
  exact Iff.rfl

/-- Something else is at the place of a key. -/
theorem Sound.splice {s' : PahoTree α} {L' : List ℕ} {T' : ColoredTree (TreeCell α)}
    {A B : List (α × ℤ)} {old new : Option (α × ℤ)} (h : Sound key s L T)
    (hplace : KeyedList.AtPlace (fun x ↦ key x.1) k B old A) (hnew : ∀ x ∈ new, key x.1 = k)
    (hT : items T = B ++ old.toList ++ A) (hT' : items T' = B ++ new.toList ++ A)
    (hrep : Rep s' L' T') (hothers : ∀ a, a ∉ L' → s'.nodes a = none)
    (hcount : s'.count = toInt32 (s.count + (new.toList.length - old.toList.length)))
    (hsize : s'.size =
      toInt32 (s.size + ((new.toList.map Prod.snd).sum - (old.toList.map Prod.snd).sum))) :
    Sound key s' L' T' := by
  refine ⟨hrep, ?_, hothers, ?_, ?_⟩
  · rw [sorted_iff, hT']
    have hsorted := sorted_iff.1 h.sorted
    rw [hT] at hsorted
    exact hplace.pairwise hsorted hnew
  · rw [hcount, h.count, toInt32_toInt32_add, hT, hT']
    simp only [List.length_append]
    exact congrArg toInt32 (by omega)
  · rw [hsize, h.size, toInt32_toInt32_add, hT, hT']
    simp only [List.map_append, List.sum_append]
    exact congrArg toInt32 (by omega)

/-- `TreeAdd` hangs up a new node where the search has ended, -/
theorem treeAdd_of_new (h : Rep s L T) {content : α} (size : ℤ) (nodeMem : Bool)
    (hseek : seek (toward key (key content)) [] T = (path, .nil)) :
    ∃ side, (∀ f ∈ path.head?, f.side = side) ∧ s.treeAdd key content size nodeMem =
      (s.attach (parentOf path) side content (toInt32 size) nodeMem).bind
        fun s' ↦ some (s', none) := by
  have hwhole : Rep s L (plug [] T) := h
  have hnone : ∀ f ∈ ([] : List (Frame (TreeCell α))).head?, f.side = false := nofun
  obtain ⟨side, result, hloop, hresult, hside⟩ :=
    treeAddLoop_spec hwhole (Nat.lt_succ_of_le h.depth_le) Int.one_ne_zero hnone hseek
  refine ⟨side, fun f hf ↦ hside f hf rfl, ?_⟩
  rw [treeAdd, h.root]
  refine (congrArg (Option.bind · _) hloop).trans ?_
  exact if_neg fun h0 ↦ hresult.1 h0 rfl

/-- or replaces the content of the node that was found. -/
theorem treeAdd_of_old (h : Rep s L T) {content : α} (size : ℤ) (nodeMem : Bool)
    (hseek : seek (toward key (key content)) [] T = (path, .node red left c right)) :
    s.treeAdd key content size nodeMem = s.replace c.addr content (toInt32 size) := by
  have hwhole : Rep s L (plug [] T) := h
  have hnone : ∀ f ∈ ([] : List (Frame (TreeCell α))).head?, f.side = false := nofun
  obtain ⟨side, result, hloop, hresult, -⟩ :=
    treeAddLoop_spec hwhole (Nat.lt_succ_of_le h.depth_le) Int.one_ne_zero hnone hseek
  rw [treeAdd, h.root]
  refine (congrArg (Option.bind · _) hloop).trans ?_
  exact if_pos (hresult.2 (by simp))

/-- The place of a key that is not there. -/
theorem Sorted.atPlace (h : Sorted key T) (hseek : seek (toward key k) [] T = (path, t)) :
    KeyedList.AtPlace (fun x ↦ key x.1) k (itemsBefore path) none (itemsAfter path) := by
  obtain ⟨hbefore, hafter⟩ := h.beside hseek
  refine ⟨fun x hx ↦ ?_, fun x hx ↦ ?_, nofun⟩
  · obtain ⟨c, hc, rfl⟩ := List.mem_map.1 hx
    exact hbefore c hc
  · obtain ⟨c, hc, rfl⟩ := List.mem_map.1 hx
    exact hafter c hc

/-- The place of a content that is there. -/
theorem Sorted.atPlace_node (h : Sorted key (plug path (.node red left c right))) :
    KeyedList.AtPlace (fun x ↦ key x.1) (key c.content) (itemsBefore path ++ items left)
      (some (c.content, c.size)) (items right ++ itemsAfter path) := by
  rw [sorted_iff, items_plug_node] at h
  exact KeyedList.AtPlace.of_pairwise h

/-- How a search in a sorted tree ends: in a gap, or at the node with the key. -/
inductive Sought (key : α → κ) (k : κ) (T : ColoredTree (TreeCell α))
    (path : List (Frame (TreeCell α))) : ColoredTree (TreeCell α) → Prop
  /-- There is nothing under the key. -/
  | missing (hplug : plug path .nil = T)
      (hitems : items T = itemsBefore path ++ none.toList ++ itemsAfter path)
      (hplace : KeyedList.AtPlace (fun x ↦ key x.1) k (itemsBefore path) none (itemsAfter path)) :
      Sought key k T path .nil
  /-- There is a content under the key. -/
  | found {red : Bool} {left right : ColoredTree (TreeCell α)} {c : TreeCell α}
      (hplug : plug path (.node red left c right) = T)
      (hitems : items T = (itemsBefore path ++ items left) ++ (some (c.content, c.size)).toList ++
        (items right ++ itemsAfter path))
      (hplace : KeyedList.AtPlace (fun x ↦ key x.1) k (itemsBefore path ++ items left)
        (some (c.content, c.size)) (items right ++ itemsAfter path)) :
      Sought key k T path (.node red left c right)

theorem Sorted.sought (h : Sorted key T) (hseek : seek (toward key k) [] T = (path, t)) :
    Sought key k T path t := by
  have hplug := plug_seek (toward key k) [] T
  rw [hseek] at hplug
  obtain rfl : plug path t = T := hplug
  cases t with
  | nil => exact .missing rfl (items_plug path .nil) (h.atPlace hseek)
  | node red left c right =>
    have hkey : key c.content = k := toward_eq_none_iff.1 (direction_of_seek hseek)
    exact .found rfl (items_plug_node path red left right c) (hkey ▸ h.atPlace_node)

/-- The key is at a node from which rebalancing should not start. -/
def Misplaces (key : α → κ) (k : κ) (T : ColoredTree (TreeCell α)) : Prop :=
  (ptr (seek (toward key k) [] T).2).isSome ∧
    Misplaced (seek (toward key k) [] T).1 (seek (toward key k) [] T).2

instance decidableMisplaces (k : κ) (T : ColoredTree (TreeCell α)) :
    Decidable (Misplaces key k T) :=
  inferInstanceAs (Decidable (_ ∧ Misplaced _ _))

/-- Something can be added: there is memory for a node, or none is needed. -/
def AddsTo (key : α → κ) (content : α) (nodeMem : Bool) (l : List (α × ℤ)) : Prop :=
  nodeMem = true ∨ (KeyedList.lookup (fun x ↦ key x.1) (key content) l).isSome

instance decidableAddsTo (content : α) (nodeMem : Bool) (l : List (α × ℤ)) :
    Decidable (AddsTo key content nodeMem l) :=
  inferInstanceAs (Decidable (_ ∨ _))

/-- Without memory for a node that is needed, the addition writes through a null pointer. -/
theorem treeAdd_of_not_addsTo (h : Sound key s L T) {content : α} {nodeMem : Bool} (size : ℤ)
    (hnone : ¬ AddsTo key content nodeMem (items T)) :
    s.treeAdd key content size nodeMem = none := by
  obtain ⟨hmem, hlookup⟩ := not_or.1 hnone
  obtain rfl : nodeMem = false := Bool.eq_false_iff.2 hmem
  rcases hseek : seek (toward key (key content)) [] T with ⟨path, t⟩
  cases h.sorted.sought hseek with
  | missing hplug hitems hplace =>
    obtain ⟨side, -, hadd⟩ := treeAdd_of_new h.rep size false hseek
    rw [hadd]
    rfl
  | @found red left right c hplug hitems hplace =>
    rw [hitems, hplace.lookup_eq] at hlookup
    exact absurd rfl hlookup

/-- **Adding** puts a content at the place of its key, and returns what was there. The balance is
lost where a content is replaced in the wrong place. -/
theorem treeAdd_spec (h : Sound key s L T) {content : α} {nodeMem : Bool} (size : ℤ)
    (hadds : AddsTo key content nodeMem (items T)) :
    ∃ s' L' T', s.treeAdd key content size nodeMem =
        some (s', (KeyedList.lookup (fun x ↦ key x.1) (key content) (items T)).map Prod.fst) ∧
      Sound key s' L' T' ∧
      items T' = KeyedList.place (fun x ↦ key x.1) (content, toInt32 size) (items T) ∧
      (RedBlack T → (RedBlack T' ↔ ¬ Misplaces key (key content) T)) := by
  rcases hseek : seek (toward key (key content)) [] T with ⟨path, t⟩
  set item : α × ℤ := (content, toInt32 size) with hitem
  have hnew : ∀ x ∈ some item, key x.1 = key content :=
    fun x hx ↦ by rw [← Option.some.inj hx]
  cases h.sorted.sought hseek with
  | missing hplug hitems hplace =>
    obtain ⟨side, hside, hadd⟩ := treeAdd_of_new h.rep size nodeMem hseek
    have hmem : nodeMem = true := by
      refine hadds.resolve_right ?_
      rw [hitems, hplace.lookup_eq]
      exact Bool.false_ne_true
    subst hplug hmem
    obtain ⟨s', L', hattach, hrep, hnext, hcount, hsize, hothers⟩ :=
      attach_spec h.rep hside content (toInt32 size)
    have hitems' : items (ColoredTree.balanceAfterAdd path
        (.node true .nil ⟨s.next, content, toInt32 size⟩ .nil)) =
          itemsBefore path ++ (some item).toList ++ itemsAfter path := by
      rw [items, toList_balanceAfterAdd]
      exact items_plug path _
    refine ⟨s', L', _, ?_, h.splice hplace hnew hitems hitems' hrep ?_ ?_ ?_, ?_, ?_⟩
    · rw [hadd, hattach, hitems, hplace.lookup_eq]
      rfl
    · exact fun a ha ↦ (hothers a ha).2.trans (h.others a (hothers a ha).1)
    · simp [hcount]
    · simp [hsize, hitem]
    · rw [hitems, hitems', hplace.place_eq (x := item)]
      simp
    · refine fun hbalanced ↦ iff_of_true (redBlack_add_leaf hbalanced _) ?_
      rw [Misplaces, hseek]
      exact fun hmisplaced ↦ Bool.false_ne_true hmisplaced.1
  | @found red left right c hplug hitems hplace =>
    have hadd := treeAdd_of_old h.rep size nodeMem hseek
    subst hplug
    obtain ⟨s', hreplace, hrep, hcount, hsize, hothers⟩ :=
      replace_spec h.rep content (toInt32 size)
    have hitems' : items (ColoredTree.balanceAfterAdd path
        (.node red left ⟨c.addr, content, toInt32 size⟩ right)) =
          (itemsBefore path ++ items left) ++ (some item).toList ++
            (items right ++ itemsAfter path) := by
      rw [items, toList_balanceAfterAdd]
      exact items_plug_node path red left right _
    refine ⟨s', L, _, ?_, h.splice hplace hnew hitems hitems' hrep ?_ ?_ ?_, ?_, ?_⟩
    · rw [hadd, hreplace, hitems, hplace.lookup_eq]
      rfl
    · exact fun a ha ↦ (hothers a ha).trans (h.others a ha)
    · simp [hcount, h.count]
    · simp [hsize, hitem]
    · rw [hitems, hitems', hplace.place_eq (x := item)]
      simp
    · intro hbalanced
      rw [Misplaces, hseek, redBlack_replace_iff hbalanced]
      exact not_congr (and_iff_right rfl).symm

end PahoTree

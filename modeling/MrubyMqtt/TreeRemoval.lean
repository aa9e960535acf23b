import MrubyMqtt.TreeOperations

/-!
# Removing a node

`TreeRemoveNodeIndex` takes a node with at most one child out of the tree: the one that is to be
removed or, where that has two children, the next one in the order, whose content it takes over.
-/

open Bytes ColoredTree

namespace PahoTree

variable {α κ : Type} [LinearOrder κ] {key : α → κ} {k : κ} {s : PahoTree α} {L : List ℕ}
  {T t left right : ColoredTree (TreeCell α)} {path up : List (Frame (TreeCell α))} {red : Bool}
  {c : TreeCell α}

/-- The side of the child that takes the place of a node. -/
def onlySide (left : ColoredTree (TreeCell α)) : Bool := decide (ptr left = none)

/-- The addresses that remain. -/
theorem perm_addrs_onlyChild (hone : left = .nil ∨ right = .nil) (path : List (Frame (TreeCell α)))
    (red : Bool) (c : TreeCell α) :
    (addrs (plug path (.node red left c right))).Perm (c.addr ::
      addrs (plug path ((ColoredTree.node red left c right).sub (onlySide left)))) := by
  have hnode : (addrs (.node red left c right)).Perm
      (c.addr :: addrs ((ColoredTree.node red left c right).sub (onlySide left))) := by
    refine (perm_addrs_join false red c left right).trans ?_
    cases left with
    | nil => exact List.Perm.refl _
    | node red' left' c' right' =>
      obtain rfl : right = .nil := hone.resolve_left (by simp)
      exact List.Perm.of_eq (List.append_nil _)
  refine (perm_addrs_plug _ _).trans ((hnode.append_right _).trans ?_)
  exact ((perm_addrs_plug path _).symm).cons _

/-- A node is freed. -/
def free (s : PahoTree α) (a : ℕ) : PahoTree α :=
  { s with nodes := Function.update s.nodes a none }

@[simp] theorem free_nodes_self (s : PahoTree α) (a : ℕ) : (s.free a).nodes a = none :=
  Function.update_self ..

theorem free_nodes_of_ne (s : PahoTree α) {a b : ℕ} (h : b ≠ a) :
    (s.free a).nodes b = s.nodes b :=
  Function.update_of_ne h ..

theorem unlink_spec (h : Rep s L (plug path (.node red left c right)))
    (hone : left = .nil ∨ right = .nil) :
    ∃ s' L', s.unlink c.addr =
        some (s', ptr ((ColoredTree.node red left c right).sub (onlySide left))) ∧
      Rep s' L' (plug path ((ColoredTree.node red left c right).sub (onlySide left))) ∧
      Touches L s s' ∧ s'.nodes c.addr = s.nodes c.addr ∧ (c.addr :: L').Perm L := by
  obtain ⟨hpath, hc, hleft, hright⟩ := h.focus
  have hchild : Holds s.nodes (some c.addr)
      ((ColoredTree.node red left c right).sub (onlySide left)) := by
    cases onlySide left with
    | false => exact hleft
    | true => exact hright
  have hperm := perm_addrs_onlyChild hone path red c
  rw [h.addrs_eq] at hperm
  have hnodup := hperm.nodup_iff.1 h.nodup
  have hchildPerm := perm_addrs_plug path ((ColoredTree.node red left c right).sub (onlySide left))
  rw [List.nodup_cons, hchildPerm.mem_iff, hchildPerm.nodup_iff, List.mem_append, not_or,
    List.nodup_append] at hnodup
  obtain ⟨⟨hcChild, hcPath⟩, hchildNodup, hpathNodup, hapart⟩ := hnodup
  obtain ⟨s₁, h₁, hchild₁, hroot₁, ht₁⟩ := setParentOf_spec hchild hchildNodup (parentOf path)
  have hpath₁ : HoldsPath s₁.nodes s₁.root path (some c.addr) := by
    rw [hroot₁]
    exact hpath.congr fun a ha ↦ ht₁.nodes a fun hmem ↦ hapart a hmem a ha rfl
  obtain ⟨s₂, h₂, hpath₂, ht₂⟩ := relink_spec hpath₁ hpathNodup hcPath
    (ptr ((ColoredTree.node red left c right).sub (onlySide left))) false
  have hchild₂ : Holds s₂.nodes (parentOf path)
      ((ColoredTree.node red left c right).sub (onlySide left)) :=
    hchild₁.congr fun a ha ↦ ht₂.nodes a fun hmem ↦ hapart a ha a hmem rfl
  have hsub : ∀ a, a ∈ addrs ((ColoredTree.node red left c right).sub (onlySide left)) ∨
      a ∈ pathAddrs path → a ∈ L := fun a ha ↦
    hperm.mem_iff.2 (List.mem_cons_of_mem _ (hchildPerm.mem_iff.2 (List.mem_append.2 ha)))
  have htouches : Touches L s s₂ :=
    (ht₁.mono fun a ha ↦ hsub a (.inl ha)).trans (ht₂.mono fun a ha ↦ hsub a (.inr ha))
  obtain ⟨hroot, hholds⟩ := (holds_plug path _).2 ⟨hpath₂, hchild₂⟩
  refine ⟨s₂, _, ?_, ⟨hroot, hholds, rfl, (List.nodup_cons.1 (hperm.nodup_iff.1 h.nodup)).2,
    fun a ha ↦ ?_⟩, htouches, (ht₂.nodes _ hcPath).trans (ht₁.nodes _ hcChild), hperm.symm⟩
  · have hcurchild : childAt false (ptr left) (ptr right)
        (decide (childAt false (ptr left) (ptr right) false = none)) =
          ptr ((ColoredTree.node red left c right).sub (onlySide left)) := by
      show childAt false (ptr left) (ptr right) (onlySide left) = _
      cases onlySide left <;> rfl
    simp only [unlink, Option.bind_eq_bind, hc, TreeCell.node, Option.bind_some, hcurchild, h₁, h₂]
  · rw [htouches.next]
    exact h.bound a (hperm.mem_iff.2 (List.mem_cons_of_mem _ ha))

/-- Where nothing takes the place of the node, the loop starts at one on the stack. -/
theorem rebalance_spec (h : Rep s L (plug path t)) (hnext : s.nodes s.next = none) :
    ∃ s', s.rebalance (parentOf path) (ptr t) = some s' ∧
      Rep s' L (balanceAfterRemove path t) ∧ Touches L s s' := by
  cases t with
  | node red left c right =>
    obtain ⟨s₁, h₁, hrep₁, ht₁⟩ := treeBalanceAfterRemove_spec h (h.cursor rfl)
    exact ⟨s₁, h₁, hrep₁, ht₁⟩
  | nil =>
    cases path with
    | nil => exact ⟨s, rfl, h, .refl L s⟩
    | cons f up =>
      have hfresh := h.next_not_mem
      let temp : TreeNode α := { zeroed with parent := some f.label.addr }
      have hrep₀ : Rep (s.write s.next temp) L (plug (f :: up) .nil) :=
        h.congr (fun a ha ↦ write_nodes_of_mem s hfresh ha temp) rfl rfl
      have hcursor : Cursor (s.write s.next temp) L (f :: up) .nil s.next :=
        ⟨⟨temp, write_nodes_self .., rfl, rfl, rfl⟩, fun _ ↦ hfresh, fun hnil ↦ by cases hnil⟩
      obtain ⟨s₁, h₁, hrep₁, ht₁⟩ := treeBalanceAfterRemove_spec hrep₀ hcursor
      refine ⟨s₁.free s.next, ?_, ?_, ?_⟩
      · exact Option.bind_eq_some_iff.2 ⟨s₁, h₁, rfl⟩
      · exact hrep₁.congr (fun a ha ↦ free_nodes_of_ne s₁ (ne_of_mem_of_not_mem ha hfresh)) rfl rfl
      · refine ⟨fun a ha ↦ ?_, ht₁.next, ht₁.count, ht₁.size⟩
        by_cases hne : a = s.next
        · subst hne
          rw [hnext]
          exact free_nodes_self ..
        · refine (free_nodes_of_ne s₁ hne).trans ((ht₁.nodes a ha).trans ?_)
          exact write_nodes_of_ne s hne temp

/-- A node that has been taken out: the tree is rebalanced, and the node freed. -/
theorem free_spec (h : Rep s L (plug path t)) {a : ℕ} {n : TreeNode α}
    (hparent : n.parent = parentOf path) (hnext : s.nodes s.next = none) (haL : a ∉ L) :
    ∃ s', (if n.red = false then s.rebalance n.parent (ptr t) else some s) = some s' ∧
      Rep (s'.free a) L (dropNode path n.red t) ∧ s'.count = s.count ∧ s'.size = s.size ∧
      ∀ b, b ∉ L → b ≠ a → (s'.free a).nodes b = s.nodes b := by
  obtain ⟨s', h', hrep, htouches⟩ : ∃ s',
      (if n.red = false then s.rebalance n.parent (ptr t) else some s) = some s' ∧
        Rep s' L (dropNode path n.red t) ∧ Touches L s s' := by
    rw [hparent]
    cases n.red with
    | true => exact ⟨s, rfl, h, .refl L s⟩
    | false => exact rebalance_spec h hnext
  refine ⟨s', h', ?_, htouches.count, htouches.size, fun b hb hne ↦ ?_⟩
  · exact hrep.congr (fun b hb ↦ free_nodes_of_ne s' (ne_of_mem_of_not_mem hb haL)) rfl rfl
  · exact (free_nodes_of_ne s' hne).trans (htouches.nodes b hb)

theorem ite_bind {β γ : Type} (p : Prop) [Decidable p] (x y : Option β) (f : β → Option γ) :
    (if p then x.bind f else y.bind f) = (if p then x else y).bind f :=
  (apply_ite (Option.bind · f) p x y).symm

/-- The steps of a removal, once it is known which node goes. -/
theorem treeRemoveNode_of {a r : ℕ} {n m : TreeNode α} {p : Option ℕ} {s₁ s₂ s₃ : PahoTree α}
    (hn : s.nodes a = some n)
    (hr : (if (n.child false).isSome ∧ (n.child true).isSome then s.treeSuccessor a
      else some (some a)) = some (some r))
    (h₁ : s.unlink r = some (s₁, p)) (hm : s₁.nodes r = some m)
    (h₂ : (if r ≠ a then s₁.setContent a m.content m.size else some s₁) = some s₂)
    (h₃ : (if m.red = false then s₂.rebalance m.parent p else some s₂) = some s₃) :
    s.treeRemoveNode a = some ({ s₃.free r with
      size := toInt32 (s₃.size - n.size)
      count := toInt32 (s₃.count - 1) }, n.content) := by
  simp only [treeRemoveNode, Option.bind_eq_bind, ite_bind]
  split_ifs at hr with hboth
  · simp only [hn, Option.bind_some, if_pos hboth, hr, h₁, hm, h₂, h₃]
    rfl
  · obtain rfl : a = r := Option.some.inj (Option.some.inj hr)
    simp only [hn, Option.bind_some, if_neg hboth, h₁, hm, h₂, h₃]
    rfl

/-- What a removal leaves of a tree. -/
theorem Sound.removed {s' : PahoTree α} {L' : List ℕ} {T' : ColoredTree (TreeCell α)}
    (h : Sound key s L (plug path (.node red left c right))) (hrep : Rep s' L' T')
    (hothers : ∀ b, b ∉ L' → s'.nodes b = none)
    (hcount : s'.count = toInt32 (s.count - 1)) (hsize : s'.size = toInt32 (s.size - c.size))
    (hT' : items T' = itemsBefore path ++ items left ++ (items right ++ itemsAfter path)) :
    Sound key s' L' T' := by
  have hnew : ∀ x ∈ (none : Option (α × ℤ)), key x.1 = key c.content := nofun
  refine h.splice h.sorted.atPlace_node hnew (items_plug_node ..) ?_ hrep hothers ?_ ?_
  · rw [hT']
    simp
  · rw [hcount]
    simp [sub_eq_add_neg]
  · rw [hsize]
    simp [sub_eq_add_neg]

/-- The end of a removal, when the pointers go around the node at `a`. -/
theorem Sound.finish {s₂ : PahoTree α} {a : ℕ} {n : TreeNode α} {L' : List ℕ}
    (h : Sound key s L (plug path (.node red left c right))) (htouches : Touches L s s₂)
    (hperm : (a :: L').Perm L) (hrep : Rep s₂ L' (plug up t)) (hparent : n.parent = parentOf up)
    (hitems : items (plug up t) =
      itemsBefore path ++ items left ++ (items right ++ itemsAfter path)) :
    ∃ s₃, (if n.red = false then s₂.rebalance n.parent (ptr t) else some s₂) = some s₃ ∧
      Sound key { s₃.free a with
        size := toInt32 (s₃.size - c.size)
        count := toInt32 (s₃.count - 1) } L' (dropNode up n.red t) ∧
      items (dropNode up n.red t) =
        itemsBefore path ++ items left ++ (items right ++ itemsAfter path) := by
  have hnodup := List.nodup_cons.1 (hperm.nodup_iff.2 h.rep.nodup)
  have hfresh := h.rep.next_not_mem
  have hnext : s₂.nodes s₂.next = none := by
    rw [htouches.next, htouches.nodes _ hfresh]
    exact h.others _ hfresh
  obtain ⟨s₃, h₃, hrep₃, hcount, hsize, hothers⟩ := free_spec hrep hparent hnext hnodup.1
  have hdropped : items (dropNode up n.red t) =
      itemsBefore path ++ items left ++ (items right ++ itemsAfter path) := by
    rw [items, toList_dropNode]
    exact hitems
  have hrep' : Rep { s₃.free a with
      size := toInt32 (s₃.size - c.size)
      count := toInt32 (s₃.count - 1) } L' (dropNode up n.red t) :=
    hrep₃.congr (fun _ _ ↦ rfl) rfl rfl
  refine ⟨s₃, h₃, h.removed hrep' (fun b hb ↦ ?_) ?_ ?_ hdropped, hdropped⟩
  · by_cases hba : b = a
    · exact hba ▸ free_nodes_self ..
    · have hbL : b ∉ L := fun hmem ↦ (List.mem_cons.1 (hperm.mem_iff.2 hmem)).elim hba hb
      exact (hothers b hb hba).trans ((htouches.nodes b hbL).trans (h.others b hbL))
  · show toInt32 (s₃.count - 1) = toInt32 (s.count - 1)
    rw [hcount, htouches.count]
  · show toInt32 (s₃.size - c.size) = toInt32 (s.size - c.size)
    rw [hsize, htouches.size]

/-- A node with at most one child is the one that goes. -/
theorem treeRemoveNode_one (h : Sound key s L (plug path (.node red left c right)))
    (hone : left = .nil ∨ right = .nil) :
    ∃ s' L' T', s.treeRemoveNode c.addr = some (s', some c.content) ∧ Sound key s' L' T' ∧
      items T' = itemsBefore path ++ items left ++ (items right ++ itemsAfter path) ∧
      (RedBlack (plug path (.node red left c right)) → RedBlack T') := by
  have hc := h.rep.focus.2.1
  obtain ⟨s₁, L₁, h₁, hrep₁, ht₁, hc₁, hperm⟩ := unlink_spec h.rep hone
  rw [hc] at hc₁
  have hparent : (c.node (parentOf path) (childAt false (ptr left) (ptr right)) red).parent =
      parentOf path := rfl
  have hitems : items (plug path ((ColoredTree.node red left c right).sub (onlySide left))) =
      itemsBefore path ++ items left ++ (items right ++ itemsAfter path) := by
    rw [items_plug]
    cases left with
    | nil => simp [onlySide, ptr, sub, items, toList]
    | node red' left' c' right' =>
      obtain rfl : right = .nil := hone.resolve_left (by simp)
      simp [onlySide, ptr, sub, items, toList]
  obtain ⟨s₂, h₂, hsound, hdropped⟩ := h.finish ht₁ hperm hrep₁ hparent hitems
  refine ⟨_, L₁, _, treeRemoveNode_of hc (if_neg fun hboth ↦ ?_) h₁ hc₁ (if_neg fun hne ↦ hne rfl)
    h₂, hsound, hdropped, fun hbalanced ↦ redBlack_dropNode hbalanced (onlySide left)⟩
  rcases hone with rfl | rfl
  · exact Bool.false_ne_true hboth.1
  · exact Bool.false_ne_true hboth.2

/-- The first node of a tree, with the path down to it. -/
theorem exists_plug_first (ht : t ≠ .nil) :
    ∃ mpath mred m mright, t = plug mpath (.node mred .nil m mright) ∧ before mpath = [] := by
  obtain ⟨m, cells, hlist⟩ : ∃ m cells, t.toList = [] ++ m :: cells := by
    cases hcells : t.toList with
    | nil =>
      cases t with
      | nil => exact absurd rfl ht
      | node => simp [toList] at hcells
    | cons m cells => exact ⟨m, cells, rfl⟩
  obtain ⟨mpath, mred, mleft, mright, hplug, hbefore, -⟩ := exists_plug_node hlist
  obtain ⟨hpath, hleft⟩ := List.append_eq_nil_iff.1 hbefore.symm
  cases mleft with
  | nil => exact ⟨mpath, mred, m, mright, hplug, hpath⟩
  | node => simp [toList] at hleft

theorem isSome_ptr (ht : t ≠ .nil) : (ptr t).isSome = true := by
  cases t with
  | nil => exact absurd rfl ht
  | node => rfl

/-- A node with two children stays, with the content of the next one, and that one goes. -/
theorem treeRemoveNode_two (h : Sound key s L (plug path (.node red left c right)))
    (hleft : left ≠ .nil) (hright : right ≠ .nil) :
    ∃ s' L' T', s.treeRemoveNode c.addr = some (s', some c.content) ∧ Sound key s' L' T' ∧
      items T' = itemsBefore path ++ items left ++ (items right ++ itemsAfter path) ∧
      (RedBlack (plug path (.node red left c right)) → RedBlack T') := by
  have hc := h.rep.focus.2.1
  have hboth : (ptr left).isSome = true ∧ (ptr right).isSome = true :=
    ⟨isSome_ptr hleft, isSome_ptr hright⟩
  have hsucc := treeSuccessor_spec h.rep
  -- The next node is the first one on the right.
  obtain ⟨mpath, mred, m, mright, rfl, hfirst⟩ := exists_plug_first hright
  let c' : TreeCell α := ⟨c.addr, m.content, m.size⟩
  have hsplit : ∀ (cell : TreeCell α) (t : ColoredTree (TreeCell α)),
      plug (mpath ++ ⟨true, red, cell, left⟩ :: path) t =
        plug path (.node red left cell (plug mpath t)) := fun cell t ↦ by
    rw [plug_append]
    rfl
  have hrep : Rep s L (plug (mpath ++ ⟨true, red, c, left⟩ :: path) (.node mred .nil m mright)) :=
    hsplit c _ ▸ h.rep
  have hm := hrep.focus.2.1
  rw [addrs, toList_plug, hfirst] at hsucc
  -- It is taken out, its content moves, and the rest of the tree is rebalanced.
  obtain ⟨s₁, L₁, h₁, hrep₁, ht₁, hm₁, hperm⟩ := unlink_spec hrep (.inl rfl)
  rw [hm] at hm₁
  have hjoin : Rep s₁ L₁ (plug path (join true red c (plug mpath mright) left)) :=
    hsplit c mright ▸ hrep₁
  have hne : m.addr ≠ c.addr := fun he ↦
    (List.nodup_cons.1 (hperm.nodup_iff.2 h.rep.nodup)).1 (he ▸ hjoin.mem_of_ptr (ptr_join ..))
  obtain ⟨s₂, h₂, hrep₂, ht₂⟩ := setContent_spec hjoin m.content m.size
  have hsplit₂ : Rep s₂ L₁ (plug (mpath ++ ⟨true, red, c', left⟩ :: path) mright) :=
    hsplit c' mright ▸ hrep₂
  have htouches : Touches L s s₂ := ht₁.trans (ht₂.mono fun a ha ↦
    hperm.mem_iff.1 (List.mem_cons_of_mem _ ha))
  have hparent : (m.node (parentOf (mpath ++ ⟨true, red, c, left⟩ :: path))
      (childAt false none (ptr mright)) mred).parent =
        parentOf (mpath ++ ⟨true, red, c', left⟩ :: path) := by
    cases mpath <;> rfl
  have hitems : items (plug (mpath ++ ⟨true, red, c', left⟩ :: path) mright) =
      itemsBefore path ++ items left ++
        (items (plug mpath (.node mred .nil m mright)) ++ itemsAfter path) := by
    have hnone : itemsBefore mpath = [] := congrArg (List.map _) hfirst
    rw [hsplit, items_plug_node, items_plug mpath, items_plug mpath, hnone]
    simp [items, toList, c']
  obtain ⟨s₃, h₃, hsound, hdropped⟩ := h.finish htouches hperm hsplit₂ hparent hitems
  refine ⟨_, L₁, _, treeRemoveNode_of hc ((if_pos hboth).trans hsucc) h₁ hm₁ ((if_pos hne).trans h₂)
    h₃, hsound, hdropped, fun hbalanced ↦ ?_⟩
  have hrelabel : RedBlack
      (plug (mpath ++ ⟨true, red, c', left⟩ :: path) (.node mred .nil m mright)) := by
    rw [hsplit]
    exact redBlack_relabel hbalanced
  exact redBlack_dropNode hrelabel true

theorem treeRemoveNode_spec (h : Sound key s L (plug path (.node red left c right))) :
    ∃ s' L' T', s.treeRemoveNode c.addr = some (s', some c.content) ∧ Sound key s' L' T' ∧
      items T' = itemsBefore path ++ items left ++ (items right ++ itemsAfter path) ∧
      (RedBlack (plug path (.node red left c right)) → RedBlack T') := by
  rcases eq_or_ne left .nil with hleft | hleft
  · exact treeRemoveNode_one h (.inl hleft)
  rcases eq_or_ne right .nil with hright | hright
  · exact treeRemoveNode_one h (.inr hright)
  · exact treeRemoveNode_two h hleft hright

/-- **Removing** takes out the content with a key, if there is one, and returns it. -/
theorem treeRemoveKey_spec (h : Sound key s L T) (k : κ) :
    ∃ s' L' T', s.treeRemoveKey key k =
        some (s', (KeyedList.lookup (fun x ↦ key x.1) k (items T)).map Prod.fst) ∧
      Sound key s' L' T' ∧ items T' = KeyedList.remove (fun x ↦ key x.1) k (items T) ∧
      (RedBlack T → RedBlack T') := by
  have hfind : s.treeFind key k = _ := treeFind_eq h.rep
  rcases hseek : seek (toward key k) [] T with ⟨path, t⟩
  rw [hseek] at hfind
  cases h.sorted.sought hseek with
  | missing hplug hitems hplace =>
    refine ⟨s, L, _, ?_, h, ?_, id⟩
    · rw [treeRemoveKey, hfind, hitems, hplace.lookup_eq]
      rfl
    · rw [hitems, hplace.remove_eq]
      simp
  | @found red left right c hplug hitems hplace =>
    subst hplug
    obtain ⟨s', L', T', hremove, hsound, hitems', hbalanced⟩ := treeRemoveNode_spec h
    refine ⟨s', L', T', ?_, hsound, ?_, hbalanced⟩
    · rw [treeRemoveKey, hfind, hitems, hplace.lookup_eq]
      exact hremove
    · rw [hitems', hitems, hplace.remove_eq]

end PahoTree

import Mathlib.Data.List.Nodup
import MrubyMqtt.Lib.ColoredTree
import MrubyMqtt.Tree

/-!
# What the pointers of a tree say

`PahoTree.Rep s L T` says that the nodes of `s` form the coloured tree `T`: every pointer to a child
and to a parent is where `T` says, and the addresses in order are `L`. A tree is taken apart at a
path and a subtree (`Rep.focus`), and then every operation on nodes is one on coloured trees: a
colour is changed (`setRed_spec`), or a rotation made (`treeRotate_spec`).

A representation does not say that there are no other nodes. What an operation does to them is
`Touches`.
-/

open ColoredTree

/-- A node of a coloured tree, with its address. -/
structure TreeCell (α : Type) where
  /-- The address. -/
  addr : ℕ
  /-- The content. -/
  content : α
  /-- Its size. -/
  size : ℤ

/-- What is stored for a node. -/
def TreeCell.node {α : Type} (c : TreeCell α) (parent : Option ℕ) (child : Bool → Option ℕ)
    (red : Bool) : TreeNode α :=
  ⟨parent, child, some c.content, c.size, red⟩

namespace PahoTree

variable {α : Type}

/-- The pointer to a tree. -/
def ptr : ColoredTree (TreeCell α) → Option ℕ
  | .nil => none
  | .node _ _ c _ => some c.addr

/-- The addresses of the nodes, in order. -/
def addrs (t : ColoredTree (TreeCell α)) : List ℕ := t.toList.map TreeCell.addr

/-- The children of a node, one on side `d` and the other one on the other side. -/
def childAt (d : Bool) (near far : Option ℕ) : Bool → Option ℕ :=
  fun e ↦ if e = d then near else far

/-- A tree is stored at its addresses, below a parent. -/
def Holds (nodes : ℕ → Option (TreeNode α)) : Option ℕ → ColoredTree (TreeCell α) → Prop
  | _, .nil => True
  | parent, .node red left c right =>
    nodes c.addr = some (c.node parent (childAt false (ptr left) (ptr right)) red) ∧
      Holds nodes (some c.addr) left ∧ Holds nodes (some c.addr) right

/-- The node above a subtree. -/
def parentOf (path : List (Frame (TreeCell α))) : Option ℕ := path.head?.map fun f ↦ f.label.addr

/-- A path is stored, with `p` as the pointer down to the subtree. -/
def HoldsPath (nodes : ℕ → Option (TreeNode α)) (root : Option ℕ) :
    List (Frame (TreeCell α)) → Option ℕ → Prop
  | [], p => root = p
  | f :: up, p =>
    nodes f.label.addr = some (f.label.node (parentOf up) (childAt f.side p (ptr f.other)) f.red) ∧
      Holds nodes (some f.label.addr) f.other ∧ HoldsPath nodes root up (some f.label.addr)

/-- The addresses on a path. -/
def pathAddrs : List (Frame (TreeCell α)) → List ℕ
  | [] => []
  | f :: up => f.label.addr :: addrs f.other ++ pathAddrs up

/-- The nodes of `s` form the tree `T`. -/
structure Rep (s : PahoTree α) (L : List ℕ) (T : ColoredTree (TreeCell α)) : Prop where
  /-- The root is that of `T`. -/
  root : s.root = ptr T
  /-- The nodes are stored as `T` says. -/
  holds : Holds s.nodes none T
  /-- Their addresses. -/
  addrs_eq : addrs T = L
  /-- No two nodes share an address. -/
  nodup : L.Nodup
  /-- The next address is new. -/
  bound : ∀ a ∈ L, a < s.next

/-- Only the nodes at `L` have changed, and the pointer to the root. -/
structure Touches (L : List ℕ) (s s' : PahoTree α) : Prop where
  /-- The other nodes are as before. -/
  nodes : ∀ a, a ∉ L → s'.nodes a = s.nodes a
  /-- Nothing has been allocated. -/
  next : s'.next = s.next
  /-- The number of items is as before. -/
  count : s'.count = s.count
  /-- So are their sizes. -/
  size : s'.size = s.size

theorem Touches.refl (L : List ℕ) (s : PahoTree α) : Touches L s s :=
  ⟨fun _ _ ↦ rfl, rfl, rfl, rfl⟩

theorem Touches.trans {L : List ℕ} {s s' s'' : PahoTree α} (h : Touches L s s')
    (h' : Touches L s' s'') : Touches L s s'' :=
  ⟨fun a ha ↦ (h'.nodes a ha).trans (h.nodes a ha), h'.next.trans h.next, h'.count.trans h.count,
    h'.size.trans h.size⟩

/-! ### Children -/

@[simp] theorem childAt_self (d : Bool) (near far : Option ℕ) : childAt d near far d = near :=
  if_pos rfl

@[simp] theorem childAt_not (d : Bool) (near far : Option ℕ) : childAt d near far (!d) = far := by
  cases d <;> rfl

theorem not_childAt (d : Bool) (near far : Option ℕ) :
    childAt (!d) near far = childAt d far near := by
  funext e
  cases d <;> cases e <;> rfl

theorem update_childAt_self (d : Bool) (near near' far : Option ℕ) :
    Function.update (childAt d near far) d near' = childAt d near' far := by
  funext e
  cases d <;> cases e <;> rfl

theorem update_childAt_not (d : Bool) (near far far' : Option ℕ) :
    Function.update (childAt d near far) (!d) far' = childAt d near far' := by
  funext e
  cases d <;> cases e <;> rfl

@[simp] theorem ptr_join (d red : Bool) (c : TreeCell α) (near far : ColoredTree (TreeCell α)) :
    ptr (join d red c near far) = some c.addr := by
  cases d <;> rfl

/-! ### Addresses -/

theorem addrs_congr {t u : ColoredTree (TreeCell α)} (h : t.toList = u.toList) :
    addrs t = addrs u :=
  congrArg (List.map TreeCell.addr) h

theorem mem_addrs_of_ptr {t : ColoredTree (TreeCell α)} {a : ℕ} (h : ptr t = some a) :
    a ∈ addrs t := by
  cases t with
  | nil => cases h
  | node red left c right =>
    obtain rfl : c.addr = a := Option.some.inj h
    simp [addrs, toList]

theorem perm_addrs_join (d red : Bool) (c : TreeCell α) (near far : ColoredTree (TreeCell α)) :
    (addrs (join d red c near far)).Perm (c.addr :: addrs near ++ addrs far) := by
  rw [addrs, toList_join]
  cases d with
  | false =>
    simp only [Bool.false_eq_true, if_false, List.map_append, List.map_cons]
    exact List.perm_middle
  | true =>
    simp only [if_true, List.map_append, List.map_cons]
    exact List.perm_middle.trans (List.Perm.cons _ List.perm_append_comm)

theorem perm_addrs_plug (path : List (Frame (TreeCell α))) (t : ColoredTree (TreeCell α)) :
    (addrs (plug path t)).Perm (addrs t ++ pathAddrs path) := by
  induction path generalizing t with
  | nil => simp [plug, pathAddrs]
  | cons f up ih =>
    have hfill : (addrs (f.fill t) ++ pathAddrs up).Perm
        (f.label.addr :: (addrs t ++ (addrs f.other ++ pathAddrs up))) := by
      rw [← List.append_assoc, ← List.cons_append, ← List.cons_append]
      exact (perm_addrs_join _ _ _ _ _).append_right _
    exact (ih (f.fill t)).trans (hfill.trans List.perm_middle.symm)

theorem holds_join {nodes : ℕ → Option (TreeNode α)} {d red : Bool} {c : TreeCell α}
    {near far : ColoredTree (TreeCell α)} {parent : Option ℕ} :
    Holds nodes parent (join d red c near far) ↔
      nodes c.addr = some (c.node parent (childAt d (ptr near) (ptr far)) red) ∧
        Holds nodes (some c.addr) near ∧ Holds nodes (some c.addr) far := by
  cases d with
  | false => exact Iff.rfl
  | true =>
    have hchild : childAt true (ptr near) (ptr far) = childAt false (ptr far) (ptr near) :=
      not_childAt false _ _
    rw [hchild]
    exact and_congr_right fun _ ↦ and_comm

/-- A stored tree is a stored path with a stored subtree. -/
theorem holds_plug {nodes : ℕ → Option (TreeNode α)} {root : Option ℕ}
    (path : List (Frame (TreeCell α))) (t : ColoredTree (TreeCell α)) :
    root = ptr (plug path t) ∧ Holds nodes none (plug path t) ↔
      HoldsPath nodes root path (ptr t) ∧ Holds nodes (parentOf path) t := by
  induction path generalizing t with
  | nil => exact Iff.rfl
  | cons f up ih =>
    rw [plug, ih, Frame.fill, ptr_join, holds_join, HoldsPath]
    show _ ↔ _ ∧ Holds nodes (some f.label.addr) t
    tauto

/-! ### What a write leaves alone -/

theorem Holds.congr {nodes nodes' : ℕ → Option (TreeNode α)} {parent : Option ℕ}
    {t : ColoredTree (TreeCell α)} (h : Holds nodes parent t)
    (heq : ∀ a ∈ addrs t, nodes' a = nodes a) : Holds nodes' parent t := by
  induction t generalizing parent with
  | nil => exact trivial
  | node red left c right ihl ihr =>
    simp only [addrs, toList, List.map_append, List.map_cons, List.mem_append, List.mem_cons] at heq
    obtain ⟨hc, hleft, hright⟩ := h
    exact ⟨(heq _ (.inr (.inl rfl))).trans hc, ihl hleft fun a ha ↦ heq a (.inl ha),
      ihr hright fun a ha ↦ heq a (.inr (.inr ha))⟩

theorem HoldsPath.congr {nodes nodes' : ℕ → Option (TreeNode α)} {root p : Option ℕ}
    {path : List (Frame (TreeCell α))} (h : HoldsPath nodes root path p)
    (heq : ∀ a ∈ pathAddrs path, nodes' a = nodes a) : HoldsPath nodes' root path p := by
  induction path generalizing p with
  | nil => exact h
  | cons f up ih =>
    simp only [pathAddrs, List.cons_append, List.mem_cons, List.mem_append] at heq
    obtain ⟨hf, hother, hup⟩ := h
    exact ⟨(heq _ (.inl rfl)).trans hf, hother.congr fun a ha ↦ heq a (.inr (.inl ha)),
      ih hup fun a ha ↦ heq a (.inr (.inr ha))⟩

/-- A node is written. -/
def write (s : PahoTree α) (a : ℕ) (n : TreeNode α) : PahoTree α :=
  { s with nodes := Function.update s.nodes a (some n) }

@[simp] theorem write_nodes_self (s : PahoTree α) (a : ℕ) (n : TreeNode α) :
    (s.write a n).nodes a = some n :=
  Function.update_self ..

theorem write_nodes_of_ne (s : PahoTree α) {a b : ℕ} (h : b ≠ a) (n : TreeNode α) :
    (s.write a n).nodes b = s.nodes b :=
  Function.update_of_ne h ..

theorem write_nodes_of_mem (s : PahoTree α) {a b : ℕ} {l : List ℕ} (ha : a ∉ l) (hb : b ∈ l)
    (n : TreeNode α) : (s.write a n).nodes b = s.nodes b :=
  write_nodes_of_ne s (ne_of_mem_of_not_mem hb ha) n

theorem modify_of_nodes {s : PahoTree α} {a : ℕ} {n : TreeNode α} (h : s.nodes a = some n)
    (f : TreeNode α → TreeNode α) : s.modify a f = some (s.write a (f n)) := by
  rw [modify, h]
  rfl

theorem setChild_near {s : PahoTree α} {c : TreeCell α} {p near far : Option ℕ} {d red : Bool}
    (h : s.nodes c.addr = some (c.node p (childAt d near far) red)) (q : Option ℕ) :
    s.setChild c.addr d q = some (s.write c.addr (c.node p (childAt d q far) red)) := by
  rw [setChild, modify_of_nodes h]
  show some (s.write c.addr (c.node p (Function.update (childAt d near far) d q) red)) = _
  rw [update_childAt_self]

theorem setChild_far {s : PahoTree α} {c : TreeCell α} {p near far : Option ℕ} {d red : Bool}
    (h : s.nodes c.addr = some (c.node p (childAt d near far) red)) (q : Option ℕ) :
    s.setChild c.addr (!d) q = some (s.write c.addr (c.node p (childAt d near q) red)) := by
  rw [setChild, modify_of_nodes h]
  show some (s.write c.addr (c.node p (Function.update (childAt d near far) (!d) q) red)) = _
  rw [update_childAt_not]

theorem touches_write {L : List ℕ} {a : ℕ} (ha : a ∈ L) (s : PahoTree α) (n : TreeNode α) :
    Touches L s (s.write a n) :=
  ⟨fun _ hb ↦ write_nodes_of_ne s (ne_of_mem_of_not_mem ha hb).symm n, rfl, rfl, rfl⟩

/-! ### Taking a tree apart -/

namespace Rep

variable {s s' : PahoTree α} {L : List ℕ} {path : List (Frame (TreeCell α))}
  {t near far : ColoredTree (TreeCell α)} {d red : Bool} {c : TreeCell α}

theorem focus (h : Rep s L (plug path t)) :
    HoldsPath s.nodes s.root path (ptr t) ∧ Holds s.nodes (parentOf path) t :=
  (holds_plug path t).1 ⟨h.root, h.holds⟩

/-- And putting it together again. -/
theorem of_parts {u : ColoredTree (TreeCell α)} (h : Rep s L (plug path u))
    (htouches : Touches L s s') (hpath : HoldsPath s'.nodes s'.root path (ptr t))
    (ht : Holds s'.nodes (parentOf path) t) (haddrs : addrs t = addrs u) :
    Rep s' L (plug path t) := by
  obtain ⟨hroot, hholds⟩ := (holds_plug path t).2 ⟨hpath, ht⟩
  refine ⟨hroot, hholds, ?_, h.nodup, fun a ha ↦ htouches.next ▸ h.bound a ha⟩
  rw [← h.addrs_eq, addrs, addrs, toList_plug, toList_plug, List.map_append, List.map_append,
    List.map_append, List.map_append]
  exact congrArg (_ ++ · ++ _) haddrs

/-- The address of the next node is free. -/
theorem next_not_mem {T : ColoredTree (TreeCell α)} (h : Rep s L T) : s.next ∉ L := fun hmem ↦
  Nat.lt_irrefl _ (h.bound _ hmem)

/-- Only the nodes of the tree matter. -/
theorem congr {T : ColoredTree (TreeCell α)} (h : Rep s L T)
    (hnodes : ∀ a ∈ L, s'.nodes a = s.nodes a) (hroot : s'.root = s.root)
    (hnext : s'.next = s.next) : Rep s' L T :=
  ⟨hroot.trans h.root, h.holds.congr fun a ha ↦ hnodes a (h.addrs_eq ▸ ha), h.addrs_eq, h.nodup,
    fun a ha ↦ hnext ▸ h.bound a ha⟩

/-- No address occurs twice. -/
theorem apart (h : Rep s L (plug path t)) : (addrs t ++ pathAddrs path).Nodup :=
  (perm_addrs_plug path t).nodup_iff.1 (h.addrs_eq ▸ h.nodup)

theorem mem_of_ptr (h : Rep s L (plug path t)) {a : ℕ} (ha : ptr t = some a) : a ∈ L := by
  rw [← h.addrs_eq, (perm_addrs_plug path t).mem_iff]
  exact List.mem_append_left _ (mem_addrs_of_ptr ha)

/-- The node at the root of the subtree. -/
theorem node (h : Rep s L (plug path (join d red c near far))) :
    s.nodes c.addr = some (c.node (parentOf path) (childAt d (ptr near) (ptr far)) red) :=
  (holds_join.1 h.focus.2).1

/-- What is read from the node at the root of a subtree. -/
theorem nodeAt (h : Rep s L (plug path t)) {a : ℕ} (ha : ptr t = some a) :
    ∃ n, s.nodes a = some n ∧ n.parent = parentOf path ∧ n.red = t.isRed ∧
      n.content.isSome ∧ ∀ e, n.child e = ptr (t.sub e) := by
  cases t with
  | nil => cases ha
  | node red left c right =>
    obtain rfl : c.addr = a := Option.some.inj ha
    refine ⟨_, h.focus.2.1, rfl, rfl, rfl, fun e ↦ ?_⟩
    cases e <;> rfl

/-- Two pointers from one node are different, unless they are null. -/
theorem ptr_far_ne (h : Rep s L (plug path (join d red c near far))) {a : ℕ}
    (ha : ptr near = some a) : ptr far ≠ some a := by
  intro hfar
  have hnodup := ((perm_addrs_join d red c near far).append_right _).nodup_iff.1 h.apart
  simp only [List.cons_append, List.append_assoc, List.nodup_cons, List.nodup_append,
    List.mem_append] at hnodup
  exact hnodup.2.2.2 a (mem_addrs_of_ptr ha) a (.inl (mem_addrs_of_ptr hfar)) rfl

theorem isRed (h : Rep s L (plug path t)) : s.isRed (ptr t) = some t.isRed := by
  cases t with
  | nil => rfl
  | node red left c right =>
    show (s.nodes c.addr).map TreeNode.red = some red
    rw [h.focus.2.1]
    rfl

/-- A node is written with another content or colour. -/
theorem write (h : Rep s L (plug path (join d red c near far))) {c' : TreeCell α}
    (haddr : c'.addr = c.addr) (red' : Bool) :
    Rep (s.write c.addr (c'.node (parentOf path) (childAt d (ptr near) (ptr far)) red')) L
      (plug path (join d red' c' near far)) := by
  have hmem : c.addr ∈ L := h.mem_of_ptr (ptr_join ..)
  have hnodup := ((perm_addrs_join d red c near far).append_right _).nodup_iff.1 h.apart
  simp only [List.cons_append, List.append_assoc, List.nodup_cons, List.mem_append, not_or]
    at hnodup
  obtain ⟨⟨hnear, hfar, hpath⟩, -⟩ := hnodup
  obtain ⟨hholdsPath, hholds⟩ := h.focus
  obtain ⟨-, hholdsNear, hholdsFar⟩ := holds_join.1 hholds
  refine h.of_parts (touches_write hmem s _) ?_ (holds_join.2 ⟨?_, ?_, ?_⟩) ?_
  · rw [ptr_join] at hholdsPath ⊢
    rw [haddr]
    exact hholdsPath.congr fun a ha ↦ write_nodes_of_mem s hpath ha _
  · rw [haddr]
    exact write_nodes_self ..
  · rw [haddr]
    exact hholdsNear.congr fun a ha ↦ write_nodes_of_mem s hnear ha _
  · rw [haddr]
    exact hholdsFar.congr fun a ha ↦ write_nodes_of_mem s hfar ha _
  · rw [addrs, addrs, toList_join, toList_join]
    cases d <;> simp [haddr]

end Rep

variable {s : PahoTree α} {L : List ℕ} {path : List (Frame (TreeCell α))}
  {near far : ColoredTree (TreeCell α)} {d red : Bool} {c : TreeCell α}

theorem setRed_spec (h : Rep s L (plug path (join d red c near far))) (red' : Bool) :
    ∃ s', s.setRed c.addr red' = some s' ∧ Rep s' L (plug path (join d red' c near far)) ∧
      Touches L s s' := by
  rw [setRed, modify_of_nodes h.node]
  exact ⟨_, rfl, h.write rfl red', touches_write (h.mem_of_ptr (ptr_join ..)) s _⟩

/-- A subtree whose root is painted. -/
theorem paint_spec {t : ColoredTree (TreeCell α)} (h : Rep s L (plug path t)) {a : ℕ}
    (ha : ptr t = some a) (red' : Bool) :
    ∃ s', s.setRed a red' = some s' ∧ Rep s' L (plug path (t.paint red')) ∧ Touches L s s' := by
  cases t with
  | nil => cases ha
  | node red left c right =>
    obtain rfl : c.addr = a := Option.some.inj ha
    exact setRed_spec (d := false) h red'

theorem setContent_spec (h : Rep s L (plug path (join d red c near far))) (content : α) (size : ℤ) :
    ∃ s', s.setContent c.addr (some content) size = some s' ∧
      Rep s' L (plug path (join d red ⟨c.addr, content, size⟩ near far)) ∧ Touches L s s' := by
  have haddr : (⟨c.addr, content, size⟩ : TreeCell α).addr = c.addr := rfl
  have hrep := h.write haddr red
  rw [setContent, modify_of_nodes h.node]
  exact ⟨_, rfl, hrep, touches_write (h.mem_of_ptr (ptr_join ..)) s _⟩

/-! ### Rotation -/

theorem setParentOf_spec {s : PahoTree α} {p : Option ℕ} {t : ColoredTree (TreeCell α)}
    (h : Holds s.nodes p t) (hnodup : (addrs t).Nodup) (q : Option ℕ) :
    ∃ s', s.setParentOf (ptr t) q = some s' ∧ Holds s'.nodes q t ∧ s'.root = s.root ∧
      Touches (addrs t) s s' := by
  cases t with
  | nil => exact ⟨s, rfl, trivial, rfl, .refl _ s⟩
  | node red left c right =>
    obtain ⟨hc, hleft, hright⟩ := h
    have hperm := (perm_addrs_join false red c left right).nodup_iff.1 hnodup
    simp only [List.cons_append, List.nodup_cons, List.mem_append, not_or] at hperm
    obtain ⟨⟨hnotLeft, hnotRight⟩, -⟩ := hperm
    refine ⟨s.write c.addr (c.node q (childAt false (ptr left) (ptr right)) red), ?_, ⟨?_, ?_, ?_⟩,
      rfl, touches_write (mem_addrs_of_ptr rfl) s _⟩
    · exact modify_of_nodes hc _
    · exact write_nodes_self ..
    · exact hleft.congr fun a ha ↦ write_nodes_of_mem s hnotLeft ha _
    · exact hright.congr fun a ha ↦ write_nodes_of_mem s hnotRight ha _

/-- The pointer down from the end of a path is written. -/
theorem setHole_spec {s : PahoTree α} {f : Frame (TreeCell α)} {up : List (Frame (TreeCell α))}
    {p : Option ℕ} (h : HoldsPath s.nodes s.root (f :: up) p) (hnodup : (pathAddrs (f :: up)).Nodup)
    (q : Option ℕ) :
    ∃ s', s.setChild f.label.addr f.side q = some s' ∧ HoldsPath s'.nodes s'.root (f :: up) q ∧
      Touches (pathAddrs (f :: up)) s s' := by
  obtain ⟨hf, hother, hup⟩ := h
  simp only [pathAddrs, List.cons_append, List.nodup_cons, List.mem_append, not_or] at hnodup
  obtain ⟨⟨hnotOther, hnotUp⟩, -⟩ := hnodup
  refine ⟨_, setChild_near hf q, ⟨write_nodes_self .., ?_, ?_⟩,
    touches_write (List.mem_cons_self ..) s _⟩
  · exact hother.congr fun a ha ↦ write_nodes_of_mem s hnotOther ha _
  · exact hup.congr fun a ha ↦ write_nodes_of_mem s hnotUp ha _

theorem relink_spec {s : PahoTree α} {path : List (Frame (TreeCell α))} {a : ℕ}
    (h : HoldsPath s.nodes s.root path (some a)) (hnodup : (pathAddrs path).Nodup)
    (ha : a ∉ pathAddrs path) (q : Option ℕ) (d : Bool) :
    ∃ s', s.relink (parentOf path) a q d = some s' ∧ HoldsPath s'.nodes s'.root path q ∧
      Touches (pathAddrs path) s s' := by
  cases path with
  | nil => exact ⟨{ s with root := q }, rfl, rfl, fun _ _ ↦ rfl, rfl, rfl, rfl⟩
  | cons f up =>
    obtain ⟨s', hwrite, hholds, htouches⟩ := setHole_spec h hnodup q
    refine ⟨s', ?_, hholds, htouches⟩
    show (s.nodes f.label.addr).bind _ = some s'
    rw [h.1, Option.bind_some]
    have hother : ptr f.other ≠ some a := fun he ↦ ha <| by
      simp [pathAddrs, mem_addrs_of_ptr he]
    show (if childAt f.side (some a) (ptr f.other) d = some a then _ else _) = _
    have hside : d = f.side ∨ d = !f.side := by cases d <;> cases f.side <;> simp
    rcases hside with rfl | rfl
    · rw [childAt_self, if_pos rfl, hwrite]
    · rw [childAt_not, if_neg hother, Bool.not_not, hwrite]

theorem Touches.mono {L L' : List ℕ} {s s' : PahoTree α} (h : Touches L s s')
    (hsub : ∀ a ∈ L, a ∈ L') : Touches L' s s' :=
  ⟨fun a ha ↦ h.nodes a fun hmem ↦ ha (hsub a hmem), h.next, h.count, h.size⟩

/-- **A rotation** of the pointers is one of the tree, and the colours stay with their nodes. -/
theorem treeRotate_spec {s : PahoTree α} {L : List ℕ} {path : List (Frame (TreeCell α))}
    {x y z : ColoredTree (TreeCell α)} {d red red' : Bool} {c other : TreeCell α}
    (h : Rep s L (plug path (join d red c x (join d red' other y z)))) :
    ∃ s', s.treeRotate c.addr d = some s' ∧
      Rep s' L (plug path (join d red' other (join d red c x y) z)) ∧ Touches L s s' := by
  -- The nodes, and that they are different ones.
  obtain ⟨hpath, hholds⟩ := h.focus
  obtain ⟨hc, hx, hbelow⟩ := holds_join.1 hholds
  obtain ⟨hother, hy, hz⟩ := holds_join.1 hbelow
  rw [ptr_join] at hpath hc
  have hnodup : (c.addr :: (addrs x ++
      (other.addr :: (addrs y ++ (addrs z ++ pathAddrs path))))).Nodup := by
    refine List.Perm.nodup_iff ?_ |>.1 h.apart
    have hinner := perm_addrs_join d red' other y z
    have houter := perm_addrs_join d red c x (join d red' other y z)
    refine (houter.append_right _).trans ?_
    simp only [List.cons_append, List.append_assoc] at hinner ⊢
    refine List.Perm.cons _ (List.Perm.append_left _ ?_)
    exact (hinner.append_right _).trans (by simp)
  have hsub : ∀ a ∈ c.addr :: (addrs x ++ (other.addr :: (addrs y ++ (addrs z ++ pathAddrs path)))),
      a ∈ L := by
    intro a ha
    rw [← h.addrs_eq, (perm_addrs_plug path _).mem_iff]
    simpa [perm_addrs_join d red c x _ |>.mem_iff, perm_addrs_join d red' other y z |>.mem_iff,
      or_assoc] using ha
  simp only [List.nodup_cons, List.nodup_append, List.mem_append, List.mem_cons, not_or] at hnodup
  have hxs : ∀ a ∈ addrs x, a ≠ c.addr ∧ a ≠ other.addr ∧ a ∉ addrs y ∧ a ∉ pathAddrs path := by
    grind
  have hys : ∀ a ∈ addrs y, a ≠ c.addr ∧ a ≠ other.addr ∧ a ∉ pathAddrs path := by grind
  have hzs : ∀ a ∈ addrs z, a ≠ c.addr ∧ a ≠ other.addr ∧ a ∉ addrs y ∧ a ∉ pathAddrs path := by
    grind
  have hups : ∀ a ∈ pathAddrs path, a ≠ c.addr ∧ a ≠ other.addr ∧ a ∉ addrs y := by grind
  have hne : other.addr ≠ c.addr ∧ c.addr ∉ addrs y ∧ other.addr ∉ addrs y ∧
      c.addr ∉ pathAddrs path ∧ other.addr ∉ pathAddrs path := by grind
  have hyNodup : (addrs y).Nodup := by grind
  have hpathNodup : (pathAddrs path).Nodup := by grind
  -- The assignments, one after the other.
  let s₁ := s.write c.addr (c.node (parentOf path) (childAt d (ptr x) (ptr y)) red)
  have h₁ : s.setChild c.addr (!d) (ptr y) = some s₁ := setChild_far hc _
  have hy₁ : Holds s₁.nodes (some other.addr) y :=
    hy.congr fun a ha ↦ write_nodes_of_ne s (hys a ha).1 _
  obtain ⟨s₂, h₂, hy₂, hroot₂, ht₂⟩ := setParentOf_spec hy₁ hyNodup (some c.addr)
  have hc₂ : s₂.nodes c.addr = some (c.node (parentOf path) (childAt d (ptr x) (ptr y)) red) :=
    (ht₂.nodes _ hne.2.1).trans (write_nodes_self ..)
  have hother₂ : s₂.nodes other.addr = some (other.node (some c.addr) (childAt d (ptr y) (ptr z))
      red') :=
    (ht₂.nodes _ hne.2.2.1).trans ((write_nodes_of_ne s hne.1 _).trans hother)
  let s₃ := s₂.write other.addr (other.node (parentOf path) (childAt d (ptr y) (ptr z)) red')
  have h₃ : s₂.setParent other.addr (parentOf path) = some s₃ := modify_of_nodes hother₂ _
  have hpath₃ : HoldsPath s₃.nodes s₃.root path (some c.addr) := by
    have hroot₃ : s₃.root = s.root := hroot₂
    rw [hroot₃]
    refine hpath.congr fun a ha ↦ ?_
    obtain ⟨hac, hao, hay⟩ := hups a ha
    exact (write_nodes_of_ne s₂ hao _).trans ((ht₂.nodes a hay).trans (write_nodes_of_ne s hac _))
  obtain ⟨s₄, h₄, hpath₄, ht₄⟩ :=
    relink_spec hpath₃ hpathNodup hne.2.2.2.1 (some other.addr) d
  have hother₄ : s₄.nodes other.addr = some (other.node (parentOf path)
      (childAt d (ptr y) (ptr z)) red') :=
    (ht₄.nodes _ hne.2.2.2.2).trans (write_nodes_self ..)
  let s₅ := s₄.write other.addr (other.node (parentOf path) (childAt d (some c.addr) (ptr z)) red')
  have h₅ : s₄.setChild other.addr d (some c.addr) = some s₅ := setChild_near hother₄ _
  have hc₅ : s₅.nodes c.addr = some (c.node (parentOf path) (childAt d (ptr x) (ptr y)) red) :=
    (write_nodes_of_ne s₄ hne.1.symm _).trans ((ht₄.nodes _ hne.2.2.2.1).trans
      ((write_nodes_of_ne s₂ hne.1.symm _).trans hc₂))
  let s₆ := s₅.write c.addr (c.node (some other.addr) (childAt d (ptr x) (ptr y)) red)
  have h₆ : s₅.setParent c.addr (some other.addr) = some s₆ := modify_of_nodes hc₅ _
  have hlast : ∀ a, a ≠ c.addr → a ≠ other.addr → a ∉ pathAddrs path → s₆.nodes a = s₂.nodes a :=
    fun a hac hao hap ↦ (write_nodes_of_ne s₅ hac _).trans ((write_nodes_of_ne s₄ hao _).trans
      ((ht₄.nodes a hap).trans (write_nodes_of_ne s₂ hao _)))
  have hrest : ∀ a, a ≠ c.addr → a ≠ other.addr → a ∉ addrs y → a ∉ pathAddrs path →
      s₆.nodes a = s.nodes a :=
    fun a hac hao hay hap ↦ (hlast a hac hao hap).trans
      ((ht₂.nodes a hay).trans (write_nodes_of_ne s hac _))
  have htouches : Touches L s s₆ := by
    have hmemC : c.addr ∈ L := hsub _ (by simp)
    have hmemOther : other.addr ∈ L := hsub _ (by simp)
    have hstart := (touches_write hmemC s _).trans (ht₂.mono fun a ha ↦ hsub a (by simp [ha]))
    have hmiddle := (touches_write hmemOther s₂ _).trans (ht₄.mono fun a ha ↦ hsub a (by simp [ha]))
    exact (hstart.trans hmiddle).trans
      ((touches_write hmemOther s₄ _).trans (touches_write hmemC s₅ _))
  refine ⟨s₆, ?_, h.of_parts htouches ?_ ?_ (addrs_congr (toList_rotate ..).symm), htouches⟩
  · simp only [treeRotate, Option.bind_eq_bind, hc, TreeCell.node, Option.bind_some, childAt_not,
      hother, childAt_self, h₁, h₂, hc₂, h₃, h₄, h₅, h₆]
  · rw [ptr_join]
    refine hpath₄.congr fun a ha ↦ ?_
    obtain ⟨hac, hao, -⟩ := hups a ha
    exact (write_nodes_of_ne s₅ hac _).trans (write_nodes_of_ne s₄ hao _)
  · rw [holds_join, holds_join, ptr_join]
    refine ⟨?_, ⟨write_nodes_self .., ?_, ?_⟩, ?_⟩
    · exact (write_nodes_of_ne s₅ hne.1 _).trans (write_nodes_self ..)
    · refine hx.congr fun a ha ↦ ?_
      obtain ⟨hac, hao, hay, hap⟩ := hxs a ha
      exact hrest a hac hao hay hap
    · refine hy₂.congr fun a ha ↦ ?_
      obtain ⟨hac, hao, hap⟩ := hys a ha
      exact hlast a hac hao hap
    · refine hz.congr fun a ha ↦ ?_
      obtain ⟨hac, hao, hay, hap⟩ := hzs a ha
      exact hrest a hac hao hay hap

end PahoTree

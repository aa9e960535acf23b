import Mathlib.Data.List.Perm.Subperm
import MrubyMqtt.TreeShape

/-!
# Rebalancing with pointers

The two loops of `Tree.c` do to the tree that the nodes form what the loops of the library do, from
every tree whatever its colours are, and come to their end.
-/

open ColoredTree

namespace PahoTree

variable {α : Type} {s : PahoTree α} {L : List ℕ} {p g : Frame (TreeCell α)}
  {up path : List (Frame (TreeCell α))} {t : ColoredTree (TreeCell α)} {curnode : ℕ}

/-- A node's other subtree at the cursor. -/
theorem plug_other (d red : Bool) (c : TreeCell α) (near far : ColoredTree (TreeCell α))
    (up : List (Frame (TreeCell α))) :
    plug (⟨!d, red, c, near⟩ :: up) far = plug up (join d red c near far) :=
  congrArg (plug up) (join_not d red c far near)

theorem exists_ptr_of_isRed {t : ColoredTree (TreeCell α)} (h : t.isRed = true) :
    ∃ a, ptr t = some a := by
  cases t with
  | nil => cases h
  | node red left c right => exact ⟨c.addr, rfl⟩

/-! ### After an addition -/

/-- The three nodes that `TreeBAASub` reads. -/
theorem treeBAASub_eq (h : Rep s L (plug (p :: g :: up) t)) (hcur : ptr t = some curnode)
    (which : Bool) (hwhich : which = !g.side) :
    s.treeBAASub curnode which =
      if g.other.isRed then
        (ptr g.other).bind fun uncle ↦
          (s.recolour p.label.addr uncle g.label.addr).bind fun s' ↦ some (s', g.label.addr)
      else s.rotateTwice curnode p.label.addr which := by
  subst hwhich
  obtain ⟨n, hn, hparent, -⟩ := h.nodeAt hcur
  have hp : Rep s L (plug (g :: up) (join p.side p.red p.label t p.other)) := h
  have hg : Rep s L (plug up (join g.side g.red g.label (p.fill t) g.other)) := h
  have huncle : Rep s L (plug (⟨!g.side, g.red, g.label, p.fill t⟩ :: up) g.other) := by
    rwa [plug_other]
  have hparent : n.parent = some p.label.addr := hparent
  simp only [treeBAASub, Option.bind_eq_bind, hn, hparent, Option.bind_some, hp.node, hg.node,
    TreeCell.node, parentOf, List.head?_cons, Option.map_some, childAt_not, huncle.isRed]

theorem recolour_spec (h : Rep s L (plug (p :: g :: up) t)) {uncle : ℕ}
    (huncle : ptr g.other = some uncle) :
    ∃ s', s.recolour p.label.addr uncle g.label.addr = some s' ∧
      Rep s' L (plug up (join g.side true g.label (join p.side false p.label t p.other)
        (g.other.paint false))) ∧ Touches L s s' := by
  have hother : Rep s L (plug (⟨!g.side, g.red, g.label, p.fill t⟩ :: up) g.other) := by
    rw [plug_other]
    exact h
  obtain ⟨s₁, h₁, hrep₁, ht₁⟩ := paint_spec hother huncle false
  rw [plug_other] at hrep₁
  have hparent : Rep s₁ L (plug (⟨g.side, g.red, g.label, g.other.paint false⟩ :: up)
      (join p.side p.red p.label t p.other)) := hrep₁
  obtain ⟨s₂, h₂, hrep₂, ht₂⟩ := setRed_spec hparent false
  have hgrandparent : Rep s₂ L (plug up (join g.side g.red g.label
      (join p.side false p.label t p.other) (g.other.paint false))) := hrep₂
  obtain ⟨s₃, h₃, hrep₃, ht₃⟩ := setRed_spec hgrandparent true
  refine ⟨s₃, ?_, hrep₃, (ht₁.trans ht₂).trans ht₃⟩
  simp only [recolour, Option.bind_eq_bind, h₁, h₂, h₃, Option.bind_some]

/-- A node whose parent is black, at which the loop ends. -/
def Settled (s : PahoTree α) (curnode : ℕ) : Prop :=
  ∃ n parent, s.nodes curnode = some n ∧ n.parent = some parent ∧ s.isRed (some parent) = some false

theorem Rep.settled {q : Frame (TreeCell α)} (h : Rep s L (plug (q :: up) t))
    (hcur : ptr t = some curnode) (hq : q.red = false) : s.Settled curnode := by
  obtain ⟨n, hn, hparent, -⟩ := h.nodeAt hcur
  refine ⟨n, q.label.addr, hn, hparent, ?_⟩
  have hparentRep : Rep s L (plug up (join q.side q.red q.label t q.other)) := h
  have hred := hparentRep.isRed
  rwa [ptr_join, isRed_join, hq] at hred

theorem rotateOut_spec {d red : Bool} {c : TreeCell α} {other : ColoredTree (TreeCell α)}
    (h : Rep s L (plug (⟨d, red, c, other⟩ :: g :: up) t)) (hcur : ptr t = some curnode)
    (hside : g.side = d) :
    ∃ s', s.rotateOut curnode (!d) = some (s', curnode) ∧
      Rep s' L (plug up (join d false c t (join d true g.label other g.other))) ∧
      Touches L s s' ∧ s'.Settled curnode := by
  subst hside
  obtain ⟨n, hn, hparent, -⟩ := h.nodeAt hcur
  have hparent : n.parent = some c.addr := hparent
  have hp : Rep s L (plug (g :: up) (join g.side red c t other)) := h
  obtain ⟨s₁, h₁, hrep₁, ht₁⟩ := setRed_spec hp false
  have hg : Rep s₁ L (plug up (join g.side g.red g.label (join g.side false c t other) g.other)) :=
    hrep₁
  obtain ⟨s₂, h₂, hrep₂, ht₂⟩ := setRed_spec hg true
  have hrotate : Rep s₂ L (plug up (join (!g.side) true g.label g.other
      (join (!g.side) false c other t))) := by
    rwa [join_not, join_not]
  obtain ⟨s₃, h₃, hrep₃, ht₃⟩ := treeRotate_spec hrotate
  rw [join_not, join_not] at hrep₃
  refine ⟨s₃, ?_, hrep₃, (ht₁.trans ht₂).trans ht₃, ?_⟩
  · simp only [rotateOut, Option.bind_eq_bind, hn, hparent, Option.bind_some, h₁, hrep₁.node,
      TreeCell.node, parentOf, List.head?_cons, Option.map_some, h₂, h₃]
  · exact Rep.settled (q := ⟨g.side, false, c, _⟩) hrep₃ hcur rfl

/-- An outer grandchild takes one rotation. -/
theorem rotateTwice_outer (h : Rep s L (plug (p :: g :: up) t)) (hcur : ptr t = some curnode)
    (hside : p.side = g.side) :
    ∃ s', s.rotateTwice curnode p.label.addr (!g.side) = some (s', curnode) ∧
      Rep s' L (plug up (join g.side false p.label t
        (join g.side true g.label p.other g.other))) ∧ Touches L s s' ∧ s'.Settled curnode := by
  have hp : Rep s L (plug (g :: up) (join p.side p.red p.label t p.other)) := h
  obtain ⟨s', hout, hrep, htouches, hsettled⟩ := rotateOut_spec h hcur hside.symm
  rw [hside] at hout hrep
  refine ⟨s', ?_, hrep, htouches, hsettled⟩
  simp only [rotateTwice, Option.bind_eq_bind, hp.node, TreeCell.node, Option.bind_some, ← hside,
    childAt_not, hp.ptr_far_ne hcur, if_false]
  rw [hside]
  exact hout

/-- An inner grandchild takes two. -/
theorem rotateTwice_inner {red : Bool} {left right : ColoredTree (TreeCell α)} {c : TreeCell α}
    (h : Rep s L (plug (p :: g :: up) (.node red left c right))) (hside : p.side ≠ g.side) :
    ∃ s', s.rotateTwice c.addr p.label.addr (!g.side) = some (s', p.label.addr) ∧
      Rep s' L (plug up (join g.side false c
        (join g.side p.red p.label p.other ((ColoredTree.node red left c right).sub g.side))
        (join g.side true g.label ((ColoredTree.node red left c right).sub !g.side) g.other))) ∧
      Touches L s s' ∧ s'.Settled p.label.addr := by
  have hside : p.side = !g.side := Bool.eq_not.2 hside
  have hp : Rep s L (plug (g :: up) (join p.side p.red p.label (.node red left c right) p.other)) :=
    h
  have hrotate : Rep s L (plug (g :: up) (join g.side p.red p.label p.other
      (join g.side red c ((ColoredTree.node red left c right).sub g.side)
        ((ColoredTree.node red left c right).sub !g.side)))) := by
    rw [← node_eq_join, ← join_not, ← hside]
    exact hp
  obtain ⟨s₁, h₁, hrep₁, ht₁⟩ := treeRotate_spec hrotate
  have hinner : Rep s₁ L (plug (⟨g.side, red, c, (ColoredTree.node red left c right).sub !g.side⟩ ::
      g :: up) (join g.side p.red p.label p.other
        ((ColoredTree.node red left c right).sub g.side))) := hrep₁
  obtain ⟨s₂, hout, hrep, ht₂, hsettled⟩ := rotateOut_spec hinner (ptr_join ..) rfl
  refine ⟨s₂, ?_, hrep, ht₁.trans ht₂, hsettled⟩
  simp only [rotateTwice, Option.bind_eq_bind, hp.node, TreeCell.node, Option.bind_some, ← hside,
    childAt_self, ptr, if_true]
  rw [hside, Bool.not_not, h₁, Option.bind_some]
  exact hout

/-- The position of a node below its parent, as the loops find it. -/
theorem Rep.child_false_eq_iff (h : Rep s L (plug (g :: up) t)) (hcur : ptr t = some curnode) :
    childAt g.side (some curnode) (ptr g.other) false = some curnode ↔ g.side = false := by
  have hg : Rep s L (plug up (join g.side g.red g.label t g.other)) := h
  cases hside : g.side with
  | false => simp [childAt]
  | true => simpa [childAt] using hg.ptr_far_ne hcur

theorem treeBalanceAfterAddLoop_of_red (h : Rep s L (plug (p :: g :: up) t))
    (hcur : ptr t = some curnode) (hp : p.red = true) (fuel : ℕ) :
    treeBalanceAfterAddLoop (fuel + 1) s curnode =
      (s.treeBAASub curnode (!g.side)).bind fun r ↦ treeBalanceAfterAddLoop fuel r.1 r.2 := by
  obtain ⟨n, hn, hparent, -⟩ := h.nodeAt hcur
  have hparent : n.parent = some p.label.addr := hparent
  have hparentRep : Rep s L (plug (g :: up) (join p.side p.red p.label t p.other)) := h
  have hg : Rep s L (plug up (join g.side g.red g.label (p.fill t) g.other)) := h
  have hptr : ptr (p.fill t) = some p.label.addr := ptr_join ..
  have hiff := Rep.child_false_eq_iff (g := g) hg hptr
  have hleft : decide (g.side = false) = !g.side := by cases g.side <;> rfl
  simp only [treeBalanceAfterAddLoop, Option.bind_eq_bind, hn, hparent, Option.bind_some,
    hparentRep.node, hg.node, TreeCell.node, parentOf, List.head?_cons, Option.map_some, hp, hptr,
    hiff, hleft]

theorem treeBalanceAfterAddLoop_of_settled (h : s.Settled curnode) (fuel : ℕ) :
    treeBalanceAfterAddLoop (fuel + 1) s curnode = some s := by
  obtain ⟨n, parent, hn, hparent, hblack⟩ := h
  obtain ⟨m, hm, hred⟩ := Option.map_eq_some_iff.1 hblack
  simp only [treeBalanceAfterAddLoop, Option.bind_eq_bind, hn, hparent, Option.bind_some, hm, hred]

/-- **Rebalancing after an addition** ends, and does what the library's loop does up to the colour
of the root. -/
theorem treeBalanceAfterAddLoop_spec {fuel : ℕ} (h : Rep s L (plug path t))
    (hcur : ptr t = some curnode) (hfuel : path.length < fuel) :
    ∃ s' T, treeBalanceAfterAddLoop fuel s curnode = some s' ∧
      ColoredTree.balanceAfterAdd path t = T.paint false ∧ Rep s' L T ∧ Touches L s s' := by
  obtain ⟨fuel, rfl⟩ : ∃ k, fuel = k + 1 := ⟨fuel - 1, by omega⟩
  fun_induction ColoredTree.balanceAfterAdd path t generalizing s curnode fuel with
  | case1 p g up t hp huncle ih =>
    obtain ⟨uncle, huncleAddr⟩ := exists_ptr_of_isRed huncle
    obtain ⟨s₁, h₁, hrep₁, ht₁⟩ := recolour_spec h huncleAddr
    obtain ⟨fuel, rfl⟩ : ∃ k, fuel = k + 1 := ⟨fuel - 1, by simp at hfuel; omega⟩
    obtain ⟨s₂, T, h₂, hT, hrep₂, ht₂⟩ := ih hrep₁ (ptr_join ..) fuel (by simp at hfuel; omega)
    refine ⟨s₂, T, ?_, hT, hrep₂, ht₁.trans ht₂⟩
    rw [treeBalanceAfterAddLoop_of_red h hcur hp, treeBAASub_eq h hcur _ rfl, if_pos huncle,
      huncleAddr, Option.bind_some, h₁]
    exact h₂
  | case2 p g up t hp huncle hside =>
    obtain ⟨s₁, h₁, hrep₁, ht₁, hsettled⟩ := rotateTwice_outer h hcur hside
    obtain ⟨fuel, rfl⟩ : ∃ k, fuel = k + 1 := ⟨fuel - 1, by simp at hfuel; omega⟩
    refine ⟨s₁, _, ?_, rfl, hrep₁, ht₁⟩
    rw [treeBalanceAfterAddLoop_of_red h hcur hp, treeBAASub_eq h hcur _ rfl, if_neg huncle, h₁]
    exact treeBalanceAfterAddLoop_of_settled hsettled fuel
  | case3 p g up hp huncle hside => cases hcur
  | case4 p g up hp huncle hside red left c right =>
    obtain rfl : c.addr = curnode := Option.some.inj hcur
    obtain ⟨s₁, h₁, hrep₁, ht₁, hsettled⟩ := rotateTwice_inner h hside
    obtain ⟨fuel, rfl⟩ : ∃ k, fuel = k + 1 := ⟨fuel - 1, by simp at hfuel; omega⟩
    refine ⟨s₁, _, ?_, rfl, hrep₁, ht₁⟩
    rw [treeBalanceAfterAddLoop_of_red h hcur hp, treeBAASub_eq h hcur _ rfl, if_neg huncle, h₁]
    exact treeBalanceAfterAddLoop_of_settled hsettled fuel
  | case5 p g up t hp =>
    have hsettled : s.Settled curnode := Rep.settled h hcur (Bool.eq_false_iff.2 hp)
    exact ⟨s, _, treeBalanceAfterAddLoop_of_settled hsettled fuel, rfl, h, .refl L s⟩
  | case6 path t hshort =>
    refine ⟨s, _, ?_, rfl, h, .refl L s⟩
    obtain ⟨n, hn, hparent, -⟩ := h.nodeAt hcur
    rcases path with - | ⟨p, - | ⟨g, up⟩⟩
    · have hparent : n.parent = none := hparent
      simp only [treeBalanceAfterAddLoop, Option.bind_eq_bind, hn, hparent, Option.bind_some]
    · have hparent : n.parent = some p.label.addr := hparent
      have hp : Rep s L (plug [] (join p.side p.red p.label t p.other)) := h
      simp only [treeBalanceAfterAddLoop, Option.bind_eq_bind, hn, hparent, Option.bind_some,
        hp.node, TreeCell.node, parentOf, List.head?_nil, Option.map_none]
      cases p.red <;> rfl
    · exact absurd rfl (hshort p g up)

/-- All nodes have been allocated. -/
theorem Rep.length_le_next {T : ColoredTree (TreeCell α)} (h : Rep s L T) : L.length ≤ s.next := by
  have hsub : L.Subperm (List.range s.next) :=
    List.subperm_of_subset h.nodup fun a ha ↦ List.mem_range.2 (h.bound a ha)
  simpa using hsub.length_le

/-- There are at least as many addresses as steps to the root. -/
theorem Rep.length_le (h : Rep s L (plug path t)) : path.length ≤ s.next := by
  have hL := h.length_le_next
  rw [← h.addrs_eq, (perm_addrs_plug path t).length_eq, List.length_append] at hL
  have hpath : path.length ≤ (pathAddrs path).length := by
    clear h hL
    induction path with
    | nil => exact Nat.zero_le _
    | cons f up ih =>
      simp only [pathAddrs, List.length_cons, List.length_append]
      omega
  omega

theorem Rep.exists_root {T : ColoredTree (TreeCell α)} (h : Rep s L T) {a : ℕ} (ha : a ∈ L) :
    ∃ root, ptr T = some root := by
  rw [← h.addrs_eq] at ha
  cases T with
  | nil => cases ha
  | node red left c right => exact ⟨c.addr, rfl⟩

theorem treeBalanceAfterAdd_spec (h : Rep s L (plug path t)) (hcur : ptr t = some curnode) :
    ∃ s', s.treeBalanceAfterAdd curnode = some s' ∧
      Rep s' L (ColoredTree.balanceAfterAdd path t) ∧ Touches L s s' := by
  obtain ⟨s₁, T, h₁, hT, hrep₁, ht₁⟩ :=
    treeBalanceAfterAddLoop_spec h hcur (Nat.lt_succ_of_le h.length_le)
  obtain ⟨root, hroot⟩ := hrep₁.exists_root (h.mem_of_ptr hcur)
  have hwhole : Rep s₁ L (plug [] T) := hrep₁
  obtain ⟨s₂, h₂, hrep₂, ht₂⟩ := paint_spec hwhole hroot false
  refine ⟨s₂, ?_, hT ▸ hrep₂, ht₁.trans ht₂⟩
  simp only [treeBalanceAfterAdd, Option.bind_eq_bind, h₁, Option.bind_some, hrep₁.root, hroot, h₂]

/-! ### After a removal -/

/-- The cursor of the second loop: a node, or one that stands in for a null pointer below the path.
It is not the root, or the tree is not empty. -/
structure Cursor (s : PahoTree α) (L : List ℕ) (path : List (Frame (TreeCell α)))
    (t : ColoredTree (TreeCell α)) (curnode : ℕ) : Prop where
  /-- The node has the parent, the colour and the content of the subtree's root. -/
  node : ∃ n, s.nodes curnode = some n ∧ n.parent = parentOf path ∧ n.red = t.isRed ∧
    (if n.content.isSome then some curnode else none) = ptr t
  /-- One that stands in is none of the tree's nodes. -/
  fresh : t = .nil → curnode ∉ L
  /-- It stands in only below another node. -/
  root : path = [] → t ≠ .nil

theorem Rep.cursor (h : Rep s L (plug path t)) (hcur : ptr t = some curnode) :
    Cursor s L path t curnode := by
  obtain ⟨n, hn, hparent, hred, hcontent, -⟩ := h.nodeAt hcur
  have hne : t ≠ .nil := by
    rintro rfl
    cases hcur
  exact ⟨⟨n, hn, hparent, hred, by rw [if_pos hcontent, hcur]⟩, fun hnil ↦ absurd hnil hne,
    fun _ ↦ hne⟩

theorem Cursor.ptr_eq (hc : Cursor s L path t curnode) (hne : t ≠ .nil) : ptr t = some curnode := by
  obtain ⟨n, -, -, -, hptr⟩ := hc.node
  by_cases hcontent : n.content.isSome
  · rw [← hptr, if_pos hcontent]
  · rw [if_neg hcontent] at hptr
    cases t with
    | nil => exact absurd rfl hne
    | node red left c right => cases hptr

/-- The cursor stays where it is while the tree around it changes. -/
theorem Cursor.of_touches {s s' : PahoTree α} {path' : List (Frame (TreeCell α))}
    (hc : Cursor s L path t curnode) (h : Rep s L (plug path t)) (h' : Rep s' L (plug path' t))
    (htouches : Touches L s s') (hparent : parentOf path' = parentOf path) (hne : path' ≠ []) :
    Cursor s' L path' t curnode := by
  cases t with
  | nil =>
    refine ⟨?_, hc.fresh, fun hnil ↦ absurd hnil hne⟩
    rw [htouches.nodes _ (hc.fresh rfl), hparent]
    exact hc.node
  | node red left c right =>
    have hne : ColoredTree.node red left c right ≠ .nil := by simp
    exact h'.cursor (hc.ptr_eq hne)

/-- The missing black node is taken from an outer red child of the sibling. -/
theorem borrowFar_spec {d red red' : Bool} {c b : TreeCell α} {x y : ColoredTree (TreeCell α)}
    (h : Rep s L (plug up (join d red c t (join d red' b x y)))) {far : ℕ} (hy : ptr y = some far) :
    ∃ s' root, s.borrowFar c.addr b.addr (!d) = some (s', root) ∧
      Rep s' L (plug up (join d red b (join d false c t x) (y.paint false))) ∧ Touches L s s' ∧
      s'.root = some root := by
  have hsibling : Rep s L (plug (⟨!d, red, c, t⟩ :: up) (join d red' b x y)) := by
    rwa [plug_other]
  obtain ⟨s₁, h₁, hrep₁, ht₁⟩ := setRed_spec hsibling red
  rw [plug_other] at hrep₁
  obtain ⟨s₂, h₂, hrep₂, ht₂⟩ := setRed_spec hrep₁ false
  have hsibling₂ : Rep s₂ L (plug (⟨!d, false, c, t⟩ :: up) (join d red b x y)) := by
    rwa [plug_other]
  have hfar : Rep s₂ L (plug (⟨!d, red, b, x⟩ :: ⟨!d, false, c, t⟩ :: up) y) := by
    rwa [plug_other]
  obtain ⟨s₃, h₃, hrep₃, ht₃⟩ := paint_spec hfar hy false
  rw [plug_other, plug_other] at hrep₃
  obtain ⟨s₄, h₄, hrep₄, ht₄⟩ := treeRotate_spec hrep₃
  have hroot := hrep₄.root
  obtain ⟨root, hptr⟩ := hrep₄.exists_root (h.mem_of_ptr (ptr_join ..))
  refine ⟨s₄, root, ?_, hrep₄, ((ht₁.trans ht₂).trans ht₃).trans ht₄, hroot.trans hptr⟩
  simp only [borrowFar, Option.bind_eq_bind, h.node, Option.bind_some, TreeCell.node, h₁, h₂,
    hsibling₂.node, childAt_not, hy, h₃, Bool.not_not, h₄, hroot, hptr]

/-- The children of the sibling, and their colours. -/
theorem Rep.sibling {d red red' : Bool} {c b : TreeCell α} {x y : ColoredTree (TreeCell α)}
    (h : Rep s L (plug up (join d red c t (join d red' b x y)))) :
    s.nodes b.addr = some (b.node (some c.addr) (childAt d (ptr x) (ptr y)) red') ∧
      s.isRed (ptr x) = some x.isRed ∧ s.isRed (ptr y) = some y.isRed := by
  have hsibling : Rep s L (plug (⟨!d, red, c, t⟩ :: up) (join d red' b x y)) := by
    rwa [plug_other]
  have hnear : Rep s L (plug (⟨d, red', b, y⟩ :: ⟨!d, red, c, t⟩ :: up) x) := hsibling
  have hfar : Rep s L (plug (⟨!d, red', b, x⟩ :: ⟨!d, red, c, t⟩ :: up) y) := by
    rwa [plug_other]
  exact ⟨hsibling.node, hnear.isRed, hfar.isRed⟩

/-- The inner child of the sibling is rotated outwards first. -/
theorem borrow_inner {d red red' red'' : Bool} {c b a : TreeCell α}
    {x y far : ColoredTree (TreeCell α)}
    (h : Rep s L (plug up (join d red c t (join d red' b (join d red'' a x y) far))))
    (hfar : far.isRed = false) :
    ∃ s' root, s.borrow c.addr b.addr (!d) = some (s', root) ∧
      Rep s' L (plug up (join d red a (join d false c t x) (join d false b y far))) ∧
      Touches L s s' ∧ s'.root = some root := by
  obtain ⟨hb, -, hfarRed⟩ := h.sibling
  have hnear : Rep s L (plug (⟨d, red', b, far⟩ :: ⟨!d, red, c, t⟩ :: up)
      (join d red'' a x y)) := by
    show Rep s L (plug (⟨!d, red, c, t⟩ :: up) (join d red' b (join d red'' a x y) far))
    rwa [plug_other]
  obtain ⟨s₁, h₁, hrep₁, ht₁⟩ := setRed_spec hnear false
  have hsibling : Rep s₁ L (plug (⟨!d, red, c, t⟩ :: up)
      (join d red' b (join d false a x y) far)) := hrep₁
  obtain ⟨s₂, h₂, hrep₂, ht₂⟩ := setRed_spec hsibling true
  have hrotate : Rep s₂ L (plug (⟨!d, red, c, t⟩ :: up)
      (join (!d) true b far (join (!d) false a y x))) := by
    rwa [join_not, join_not]
  obtain ⟨s₃, h₃, hrep₃, ht₃⟩ := treeRotate_spec hrotate
  rw [join_not, join_not, plug_other] at hrep₃
  obtain ⟨s₄, root, h₄, hrep₄, ht₄, hroot⟩ := borrowFar_spec hrep₃ (ptr_join ..)
  rw [paint_join] at hrep₄
  refine ⟨s₄, root, ?_, hrep₄, ((ht₁.trans ht₂).trans ht₃).trans ht₄, hroot⟩
  simp only [borrow, Option.bind_eq_bind, hb, Option.bind_some, TreeCell.node, childAt_not, hfarRed,
    hfar, if_true, Bool.not_not, childAt_self, ptr_join, h₁, h₂, h₃, hrep₃.node, h₄]

/-- What becomes of a node with a black sibling. -/
theorem borrowOrLift_spec (h : Rep s L (plug (p :: up) t)) :
    ∃ s' curnode', s.borrowOrLift p.label.addr (ptr p.other) (!p.side) = some (s', curnode') ∧
      Rep s' L (plug up (ColoredTree.borrow p t).2) ∧ Touches L s s' ∧
      (if (ColoredTree.borrow p t).1 then s'.root = some curnode'
        else curnode' = p.label.addr ∧ ptr (ColoredTree.borrow p t).2 = some p.label.addr) := by
  have hp : Rep s L (plug up (join p.side p.red p.label t p.other)) := h
  fun_cases ColoredTree.borrow p t with
  | case1 hnil =>
    rw [hnil]
    exact ⟨s, p.label.addr, rfl, h, .refl L s, rfl, ptr_join ..⟩
  | case2 red left b right hnode sibling near far hboth =>
    have hjoin : p.other = join p.side red b near far := hnode.trans (node_eq_join ..)
    rw [hjoin] at hp
    obtain ⟨hb, hnear, hfar⟩ := hp.sibling
    have hsibling : Rep s L (plug (⟨!p.side, p.red, p.label, t⟩ :: up)
        (join p.side red b near far)) := by
      rwa [plug_other]
    obtain ⟨s₁, h₁, hrep₁, ht₁⟩ := setRed_spec hsibling true
    rw [plug_other] at hrep₁
    have hpaint : sibling.paint true = join p.side true b near far := by
      rw [show sibling = _ from node_eq_join p.side red left b right, paint_join]
    refine ⟨s₁, p.label.addr, ?_, hpaint ▸ hrep₁, ht₁, rfl, ptr_join ..⟩
    simp only [hjoin, ptr_join, borrowOrLift, Option.bind_eq_bind, hb, Option.bind_some,
      TreeCell.node, Bool.not_not, childAt_self, childAt_not, hnear, hfar, hboth, and_self, if_true,
      h₁]
  | case3 red left b right hnode sibling near far hboth hred =>
    have hjoin : p.other = join p.side red b near far := hnode.trans (node_eq_join ..)
    rw [hjoin] at hp
    obtain ⟨hb, hnear, hfar⟩ := hp.sibling
    obtain ⟨outer, houter⟩ := exists_ptr_of_isRed hred
    obtain ⟨s₁, root, h₁, hrep₁, ht₁, hroot⟩ := borrowFar_spec hp houter
    refine ⟨s₁, root, ?_, hrep₁, ht₁, hroot⟩
    simp only [hjoin, ptr_join, borrowOrLift, borrow, Option.bind_eq_bind, hb, Option.bind_some,
      TreeCell.node, Bool.not_not, childAt_self, childAt_not, hnear, hfar, hred,
      Bool.true_eq_false, and_false, if_false, h₁]
  | case4 red left b right hnode sibling near far hboth hred hnear =>
    refine absurd ⟨?_, Bool.eq_false_iff.2 hred⟩ hboth
    rw [hnear]
    rfl
  | case5 red left b right hnode sibling near far hboth hred red' left' b' right' hnode' =>
    have hjoin : p.other = join p.side red b near far := hnode.trans (node_eq_join ..)
    rw [hjoin] at hp
    obtain ⟨hb, hnear, hfar⟩ := hp.sibling
    rw [show near = _ from hnode'.trans (node_eq_join p.side red' left' b' right')] at hp
    obtain ⟨s₁, root, h₁, hrep₁, ht₁, hroot⟩ := borrow_inner hp (Bool.eq_false_iff.2 hred)
    refine ⟨s₁, root, ?_, hrep₁, ht₁, hroot⟩
    simp only [hjoin, ptr_join, borrowOrLift, Option.bind_eq_bind, hb, Option.bind_some,
      TreeCell.node, Bool.not_not, childAt_self, childAt_not, hnear, hfar, hboth, if_false, h₁]

theorem ptr_plug_cons (p : Frame (TreeCell α)) (up : List (Frame (TreeCell α)))
    (t : ColoredTree (TreeCell α)) :
    ∃ root ∈ pathAddrs (p :: up), ptr (plug (p :: up) t) = some root := by
  induction up generalizing p t with
  | nil => exact ⟨p.label.addr, List.mem_cons_self .., ptr_join ..⟩
  | cons q up ih =>
    obtain ⟨root, hmem, hroot⟩ := ih q (p.fill t)
    exact ⟨root, List.mem_cons_of_mem _ (List.mem_append_right _ hmem), hroot⟩

/-- Below another node the cursor is not at the root. -/
theorem Cursor.root_ne (hc : Cursor s L (p :: up) t curnode) (h : Rep s L (plug (p :: up) t)) :
    s.root ≠ some curnode := by
  obtain ⟨root, hmem, hroot⟩ := ptr_plug_cons p up t
  rw [h.root, hroot]
  intro heq
  obtain rfl : root = curnode := Option.some.inj heq
  have hL : root ∈ L := by
    rw [← h.addrs_eq, (perm_addrs_plug _ t).mem_iff]
    exact List.mem_append_right _ hmem
  have hne : t ≠ .nil := fun hnil ↦ hc.fresh hnil hL
  exact (List.nodup_append.1 h.apart).2.2 root (mem_addrs_of_ptr (hc.ptr_eq hne)) root hmem rfl

/-- Where both children of the parent are null, the side does not matter. -/
theorem Cursor.treeBARSub_eq (hc : Cursor s L (p :: up) t curnode)
    (h : Rep s L (plug (p :: up) t)) :
    s.treeBARSub curnode (decide (ptr t = childAt p.side (ptr t) (ptr p.other) false)) =
      s.treeBARSub curnode (!p.side) := by
  have hp : Rep s L (plug up (join p.side p.red p.label t p.other)) := h
  cases hside : p.side with
  | false => simp [childAt]
  | true =>
    have hfar : childAt true (ptr t) (ptr p.other) false = ptr p.other := if_neg Bool.false_ne_true
    rw [hfar]
    by_cases heq : ptr t = ptr p.other
    · have hnull : ptr t = none := by
        rcases hptr : ptr t with - | a
        · rfl
        · exact absurd (heq.symm.trans hptr) (hp.ptr_far_ne hptr)
      have hchild : ∀ e, childAt p.side (ptr t) (ptr p.other) e = none := by
        intro e
        rw [childAt, ← heq, hnull, ite_self]
      obtain ⟨n, hn, hparent, -⟩ := hc.node
      have hparent : n.parent = some p.label.addr := hparent
      simp only [treeBARSub, siblingUp, Option.bind_eq_bind, hn, hparent, Option.bind_some, hp.node,
        TreeCell.node, hchild, isRed, Bool.false_eq_true, if_false, borrowOrLift]
    · rw [decide_eq_false heq]
      rfl

/-- A red sibling is rotated up, and the cursor is one step further down. -/
theorem siblingUp_spec (h : Rep s L (plug (p :: up) t)) (hc : Cursor s L (p :: up) t curnode)
    {left right : ColoredTree (TreeCell α)} {b : TreeCell α}
    (hother : p.other = .node true left b right) :
    ∃ s', s.siblingUp curnode p.label.addr (ptr p.other) (!p.side) =
        some (s', ptr ((ColoredTree.node true left b right).sub p.side)) ∧
      Rep s' L (plug (⟨p.side, true, p.label, (ColoredTree.node true left b right).sub p.side⟩ ::
        ⟨p.side, false, b, (ColoredTree.node true left b right).sub !p.side⟩ :: up) t) ∧
      Touches L s s' := by
  have hp : Rep s L (plug up (join p.side p.red p.label t (join p.side true b
      ((ColoredTree.node true left b right).sub p.side)
      ((ColoredTree.node true left b right).sub !p.side)))) := by
    rw [← node_eq_join, ← hother]
    exact h
  have hptr : ptr p.other = some b.addr := by
    rw [hother]
    rfl
  have hsibling := hp
  rw [← plug_other] at hsibling
  obtain ⟨s₁, h₁, hrep₁, ht₁⟩ := setRed_spec hsibling false
  have hred := hsibling.isRed
  rw [ptr_join, isRed_join] at hred
  rw [plug_other] at hrep₁
  obtain ⟨s₂, h₂, hrep₂, ht₂⟩ := setRed_spec hrep₁ true
  obtain ⟨s₃, h₃, hrep₃, ht₃⟩ := treeRotate_spec hrep₂
  have htouches := (ht₁.trans ht₂).trans ht₃
  have hdown : Rep s₃ L (plug (⟨p.side, true, p.label,
      (ColoredTree.node true left b right).sub p.side⟩ ::
        ⟨p.side, false, b, (ColoredTree.node true left b right).sub !p.side⟩ :: up) t) := hrep₃
  obtain ⟨n, hn, hparent, -⟩ := (hc.of_touches h hdown htouches rfl (List.cons_ne_nil _ _)).node
  have hparent : n.parent = some p.label.addr := hparent
  have hnode : Rep s₃ L (plug (⟨p.side, false, b,
      (ColoredTree.node true left b right).sub !p.side⟩ :: up) (join p.side true p.label t
        ((ColoredTree.node true left b right).sub p.side))) := hrep₃
  refine ⟨s₃, ?_, hdown, htouches⟩
  simp only [siblingUp, Option.bind_eq_bind, hptr, hred, Option.bind_some, if_true, h₁, h₂,
    Bool.not_not, h₃, hn, hparent, hnode.node, TreeCell.node, childAt_not]

theorem treeBARSub_of_black (h : Rep s L (plug (p :: up) t)) (hc : Cursor s L (p :: up) t curnode)
    (hother : p.other.isRed = false) :
    s.treeBARSub curnode (!p.side) = s.borrowOrLift p.label.addr (ptr p.other) (!p.side) := by
  obtain ⟨n, hn, hparent, -⟩ := hc.node
  have hparent : n.parent = some p.label.addr := hparent
  have hp : Rep s L (plug up (join p.side p.red p.label t p.other)) := h
  have hsibling : Rep s L (plug (⟨!p.side, p.red, p.label, t⟩ :: up) p.other) := by
    rwa [plug_other]
  simp only [treeBARSub, siblingUp, Option.bind_eq_bind, hn, hparent, Option.bind_some, hp.node,
    TreeCell.node, childAt_not, hsibling.isRed, hother, Bool.false_eq_true, if_false]

theorem treeBARSub_of_red (h : Rep s L (plug (p :: up) t)) (hc : Cursor s L (p :: up) t curnode)
    {left right : ColoredTree (TreeCell α)} {b : TreeCell α}
    (hother : p.other = .node true left b right) :
    ∃ s', s.treeBARSub curnode (!p.side) = s'.borrowOrLift p.label.addr
        (ptr ((ColoredTree.node true left b right).sub p.side)) (!p.side) ∧
      Rep s' L (plug (⟨p.side, true, p.label, (ColoredTree.node true left b right).sub p.side⟩ ::
        ⟨p.side, false, b, (ColoredTree.node true left b right).sub !p.side⟩ :: up) t) ∧
      Touches L s s' := by
  obtain ⟨n, hn, hparent, -⟩ := hc.node
  have hparent : n.parent = some p.label.addr := hparent
  have hp : Rep s L (plug up (join p.side p.red p.label t p.other)) := h
  obtain ⟨s₁, h₁, hrep₁, ht₁⟩ := siblingUp_spec h hc hother
  obtain ⟨n₁, hn₁, hparent₁, -⟩ := (hc.of_touches h hrep₁ ht₁ rfl (List.cons_ne_nil _ _)).node
  have hparent₁ : n₁.parent = some p.label.addr := hparent₁
  refine ⟨s₁, ?_, hrep₁, ht₁⟩
  simp only [treeBARSub, Option.bind_eq_bind, hn, hparent, Option.bind_some, hp.node,
    TreeCell.node, childAt_not, h₁, hn₁, hparent₁]

/-- An iteration of the loop at a black node below another one. -/
theorem treeBalanceAfterRemoveLoop_of_black (h : Rep s L (plug (p :: up) t))
    (hc : Cursor s L (p :: up) t curnode) (hblack : t.isRed = false) (fuel : ℕ) :
    treeBalanceAfterRemoveLoop (fuel + 1) s curnode =
      (s.treeBARSub curnode (!p.side)).bind fun r ↦ treeBalanceAfterRemoveLoop fuel r.1 r.2 := by
  obtain ⟨n, hn, hparent, hred, hptr⟩ := hc.node
  have hparent : n.parent = some p.label.addr := hparent
  have hp : Rep s L (plug up (join p.side p.red p.label t p.other)) := h
  rw [← hc.treeBARSub_eq h, ← hptr]
  simp only [treeBalanceAfterRemoveLoop, Option.bind_eq_bind, hn, hparent, Option.bind_some,
    hp.node, TreeCell.node, hred, hblack, hptr, ne_eq, hc.root_ne h, not_false_eq_true, and_self,
    if_true]

/-- The loop ends at the root and at a red node, which is painted black. -/
theorem treeBalanceAfterRemoveLoop_of_end (h : Rep s L (plug path t)) (hcur : ptr t = some curnode)
    (hend : s.root = some curnode ∨ t.isRed = true) (fuel : ℕ) :
    ∃ s', treeBalanceAfterRemoveLoop (fuel + 1) s curnode = some s' ∧
      Rep s' L (plug path (t.paint false)) ∧ Touches L s s' := by
  obtain ⟨n, hn, -, hred, -⟩ := h.nodeAt hcur
  obtain ⟨s', hs', hrep, htouches⟩ := paint_spec h hcur false
  refine ⟨s', ?_, hrep, htouches⟩
  have hnot : ¬ (s.root ≠ some curnode ∧ n.red = false) := by
    rintro ⟨hroot, hblack⟩
    rcases hend with hend | hend
    · exact hroot hend
    · exact Bool.false_ne_true (hblack.symm.trans (hred.trans hend))
  simp only [treeBalanceAfterRemoveLoop, Option.bind_eq_bind, hn, Option.bind_some, if_neg hnot,
    hs']

theorem treeBalanceAfterRemoveLoop_of_root {T : ColoredTree (TreeCell α)} (h : Rep s L T)
    {root : ℕ} (hroot : s.root = some root) (fuel : ℕ) :
    ∃ s', treeBalanceAfterRemoveLoop (fuel + 1) s root = some s' ∧ Rep s' L (T.paint false) ∧
      Touches L s s' := by
  have hwhole : Rep s L (plug [] T) := h
  exact treeBalanceAfterRemoveLoop_of_end hwhole (h.root.symm.trans hroot) (.inl hroot) fuel

/-- **Rebalancing after a removal** ends, and does what the library's loop does. -/
theorem treeBalanceAfterRemoveLoop_spec {fuel : ℕ} (h : Rep s L (plug path t))
    (hc : Cursor s L path t curnode) (hfuel : path.length < fuel) :
    ∃ s', treeBalanceAfterRemoveLoop fuel s curnode = some s' ∧
      Rep s' L (ColoredTree.balanceAfterRemove path t) ∧ Touches L s s' := by
  obtain ⟨fuel, rfl⟩ : ∃ k, fuel = k + 1 := ⟨fuel - 1, by omega⟩
  fun_induction ColoredTree.balanceAfterRemove path t generalizing s curnode fuel with
  | case1 t =>
    have hptr := hc.ptr_eq (hc.root rfl)
    exact treeBalanceAfterRemoveLoop_of_end h hptr (.inl (h.root.trans hptr)) fuel
  | case2 p up t hred =>
    have hne : t ≠ .nil := by
      rintro rfl
      cases hred
    exact treeBalanceAfterRemoveLoop_of_end h (hc.ptr_eq hne) (.inr hred) fuel
  | case3 p up t hred left b right hother near far =>
    rename_i u hborrow
    obtain ⟨fuel, rfl⟩ : ∃ k, fuel = k + 1 := ⟨fuel - 1, by simp at hfuel; omega⟩
    obtain ⟨s₁, h₁, hrep₁, ht₁⟩ := treeBARSub_of_red h hc hother
    obtain ⟨s₂, root, h₂, hrep₂, ht₂, hroot⟩ := borrowOrLift_spec hrep₁
    rw [hborrow] at hrep₂ hroot
    obtain ⟨s₃, h₃, hrep₃, ht₃⟩ := treeBalanceAfterRemoveLoop_of_root hrep₂ hroot fuel
    refine ⟨s₃, ?_, hrep₃, (ht₁.trans ht₂).trans ht₃⟩
    rw [treeBalanceAfterRemoveLoop_of_black h hc (Bool.eq_false_iff.2 hred), h₁, h₂]
    exact h₃
  | case4 p up t hred left b right hother near far =>
    rename_i u hborrow
    obtain ⟨fuel, rfl⟩ : ∃ k, fuel = k + 1 := ⟨fuel - 1, by simp at hfuel; omega⟩
    obtain ⟨s₁, h₁, hrep₁, ht₁⟩ := treeBARSub_of_red h hc hother
    obtain ⟨s₂, curnode₂, h₂, hrep₂, ht₂, hlift⟩ := borrowOrLift_spec hrep₁
    have hredAbove := isRed_borrow ⟨p.side, true, p.label, near⟩ t
    rw [hborrow] at hrep₂ hlift hredAbove
    obtain ⟨rfl, hptr⟩ : curnode₂ = p.label.addr ∧ ptr u = some p.label.addr := hlift
    obtain ⟨s₃, h₃, hrep₃, ht₃⟩ :=
      treeBalanceAfterRemoveLoop_of_end hrep₂ hptr (.inr hredAbove) fuel
    refine ⟨s₃, ?_, hrep₃, (ht₁.trans ht₂).trans ht₃⟩
    rw [treeBalanceAfterRemoveLoop_of_black h hc (Bool.eq_false_iff.2 hred), h₁, h₂]
    exact h₃
  | case5 p up t hred u =>
    rename_i hborrow hother
    obtain ⟨fuel, rfl⟩ : ∃ k, fuel = k + 1 := ⟨fuel - 1, by simp at hfuel; omega⟩
    obtain ⟨s₁, root, h₁, hrep₁, ht₁, hroot⟩ := borrowOrLift_spec h
    rw [hborrow] at hrep₁ hroot
    obtain ⟨s₂, h₂, hrep₂, ht₂⟩ := treeBalanceAfterRemoveLoop_of_root hrep₁ hroot fuel
    refine ⟨s₂, ?_, hrep₂, ht₁.trans ht₂⟩
    rw [treeBalanceAfterRemoveLoop_of_black h hc (Bool.eq_false_iff.2 hred),
      treeBARSub_of_black h hc (isRed_eq_false hother), h₁]
    exact h₂
  | case6 p up t hred u hborrow hother ih =>
    obtain ⟨fuel, rfl⟩ : ∃ k, fuel = k + 1 := ⟨fuel - 1, by simp at hfuel; omega⟩
    obtain ⟨s₁, curnode₁, h₁, hrep₁, ht₁, hlift⟩ := borrowOrLift_spec h
    rw [hborrow] at hrep₁ hlift
    obtain ⟨rfl, hptr⟩ : curnode₁ = p.label.addr ∧ ptr u = some p.label.addr := hlift
    obtain ⟨s₂, h₂, hrep₂, ht₂⟩ := ih hrep₁ (hrep₁.cursor hptr) fuel (by simp at hfuel; omega)
    refine ⟨s₂, ?_, hrep₂, ht₁.trans ht₂⟩
    rw [treeBalanceAfterRemoveLoop_of_black h hc (Bool.eq_false_iff.2 hred),
      treeBARSub_of_black h hc (isRed_eq_false hother), h₁]
    exact h₂

theorem treeBalanceAfterRemove_spec (h : Rep s L (plug path t)) (hc : Cursor s L path t curnode) :
    ∃ s', s.treeBalanceAfterRemove curnode = some s' ∧
      Rep s' L (ColoredTree.balanceAfterRemove path t) ∧ Touches L s s' :=
  treeBalanceAfterRemoveLoop_spec h hc (Nat.lt_succ_of_le h.length_le)

end PahoTree

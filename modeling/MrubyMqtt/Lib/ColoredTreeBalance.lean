import Mathlib.Algebra.GroupWithZero.Nat
import Mathlib.Data.Nat.Log
import MrubyMqtt.Lib.ColoredTree

/-!
# Red-black balance

What the rebalancing loops are for: they make a red-black tree of one that is broken at the cursor
only (`redBlack_balanceAfterAdd`, `redBlack_balanceAfterRemove`), and the depth of a red-black tree
is logarithmic (`RedBlack.depth_le`).

Rebalancing after an addition is meant for a red node at the cursor. Started at a black one it is
harmless except in one position (`Misplaced`), where it breaks the balance
(`not_redBlack_balanceAfterAdd`).
-/

namespace ColoredTree

variable {α : Type*}

/-! ### Balance -/

/-- No red node has a red child, and every way down passes `n` black nodes. -/
def Balanced : ColoredTree α → ℕ → Prop
  | nil, n => n = 0
  | node true left _ right, n =>
    (left.isRed = false ∧ right.isRed = false) ∧ left.Balanced n ∧ right.Balanced n
  | node false left _ right, n => ∃ m, n = m + 1 ∧ left.Balanced m ∧ right.Balanced m

/-- A red-black tree. -/
def RedBlack (t : ColoredTree α) : Prop := t.isRed = false ∧ ∃ n, t.Balanced n

@[simp] theorem balanced_nil {n : ℕ} : (nil : ColoredTree α).Balanced n ↔ n = 0 := Iff.rfl

theorem balanced_join_true {d : Bool} {a : α} {near far : ColoredTree α} {n : ℕ} :
    (join d true a near far).Balanced n ↔
      (near.isRed = false ∧ far.isRed = false) ∧ near.Balanced n ∧ far.Balanced n := by
  cases d with
  | false => exact Iff.rfl
  | true => exact and_congr and_comm and_comm

theorem balanced_join_false {d : Bool} {a : α} {near far : ColoredTree α} {n : ℕ} :
    (join d false a near far).Balanced n ↔ ∃ m, n = m + 1 ∧ near.Balanced m ∧ far.Balanced m := by
  cases d with
  | false => exact Iff.rfl
  | true => exact exists_congr fun m ↦ and_congr_right fun _ ↦ and_comm

theorem balanced_join_false_succ {d : Bool} {a : α} {near far : ColoredTree α} {n : ℕ} :
    (join d false a near far).Balanced (n + 1) ↔ near.Balanced n ∧ far.Balanced n := by
  rw [balanced_join_false]
  constructor
  · rintro ⟨m, hm, hboth⟩
    obtain rfl : n = m := Nat.succ.inj hm
    exact hboth
  · exact fun hboth ↦ ⟨n, rfl, hboth⟩

/-- Either colour will do for a node whose subtrees are black, at the cost of the height. -/
theorem Balanced.join_black {d red : Bool} {a : α} {near far : ColoredTree α} {n : ℕ}
    (hnear : near.Balanced n) (hfar : far.Balanced n) (hnearBlack : near.isRed = false)
    (hfarBlack : far.isRed = false) :
    (join d red a near far).Balanced (if red then n else n + 1) := by
  cases red with
  | false => exact balanced_join_false_succ.2 ⟨hnear, hfar⟩
  | true => exact balanced_join_true.2 ⟨⟨hnearBlack, hfarBlack⟩, hnear, hfar⟩

/-- A tree has only one black height. -/
theorem Balanced.unique {t : ColoredTree α} {m n : ℕ} (hm : t.Balanced m) (hn : t.Balanced n) :
    m = n := by
  induction t generalizing m n with
  | nil => exact hm.trans (Eq.symm hn)
  | node red left a right ihl _ =>
    cases red with
    | true => exact ihl hm.2.1 hn.2.1
    | false =>
      obtain ⟨m, rfl, hm, -⟩ := hm
      obtain ⟨n, rfl, hn, -⟩ := hn
      rw [ihl hm hn]

/-- The subtrees of a red node. -/
theorem Balanced.sub_of_red {t : ColoredTree α} {n : ℕ} (h : t.Balanced n) (hred : t.isRed = true)
    (d : Bool) : (t.sub d).isRed = false ∧ (t.sub d).Balanced n := by
  cases t with
  | nil => cases hred
  | node red left a right =>
    obtain rfl : red = true := hred
    cases d with
    | false => exact ⟨h.1.1, h.2.1⟩
    | true => exact ⟨h.1.2, h.2.2⟩

/-- The subtrees of a black node. -/
theorem Balanced.sub_of_black {red : Bool} {left right : ColoredTree α} {a : α} {n : ℕ}
    (h : (node red left a right).Balanced n) (hblack : red = false) :
    ∃ m, n = m + 1 ∧ ∀ d, ((node red left a right).sub d).Balanced m := by
  subst hblack
  obtain ⟨m, rfl, hleft, hright⟩ := h
  refine ⟨m, rfl, fun d ↦ ?_⟩
  cases d with
  | false => exact hleft
  | true => exact hright

theorem Balanced.paint_of_red {t : ColoredTree α} {n : ℕ} (h : t.Balanced n)
    (hred : t.isRed = true) : (t.paint false).Balanced (n + 1) := by
  cases t with
  | nil => cases hred
  | node red left a right =>
    obtain rfl : red = true := hred
    exact ⟨n, rfl, h.2⟩

/-- Painting the root black does no harm. -/
theorem Balanced.redBlack_paint {t : ColoredTree α} {n : ℕ} (h : t.Balanced n) :
    RedBlack (t.paint false) := by
  refine ⟨isRed_paint_false t, ?_⟩
  cases hred : t.isRed with
  | true => exact ⟨n + 1, h.paint_of_red hred⟩
  | false => exact ⟨n, by rwa [paint_eq_self hred]⟩

/-- Whether the node above the subtree is red. -/
def redAbove : List (Frame α) → Bool
  | [] => false
  | f :: _ => f.red

/-- A path that makes a balanced tree of one of black height `n`, which has to be black if the node
above it is red. -/
def PathBalanced : List (Frame α) → ℕ → Prop
  | [], _ => True
  | f :: up, n =>
    f.other.Balanced n ∧ (f.red = true → f.other.isRed = false ∧ redAbove up = false) ∧
      PathBalanced up (if f.red then n else n + 1)

/-- A tree is balanced as its path and the subtree are. -/
theorem balanced_plug {path : List (Frame α)} {t : ColoredTree α} :
    (∃ m, (plug path t).Balanced m) ↔
      ∃ n, PathBalanced path n ∧ t.Balanced n ∧ (redAbove path = true → t.isRed = false) := by
  induction path generalizing t with
  | nil => simp [plug, PathBalanced, redAbove]
  | cons f up ih =>
    rw [plug, ih, Frame.fill]
    cases hred : f.red with
    | true =>
      simp only [balanced_join_true, PathBalanced, redAbove, isRed_join, hred]
      constructor
      · rintro ⟨n, hup, ⟨⟨hblack, hother⟩, ht, hf⟩, habove⟩
        refine ⟨n, ⟨hf, fun _ ↦ ⟨hother, ?_⟩, hup⟩, ht, fun _ ↦ hblack⟩
        exact Bool.eq_false_iff.2 fun h ↦ Bool.noConfusion (habove h)
      · rintro ⟨n, ⟨hf, hother, hup⟩, ht, hblack⟩
        obtain ⟨hotherBlack, habove⟩ := hother trivial
        refine ⟨n, hup, ⟨⟨hblack trivial, hotherBlack⟩, ht, hf⟩, fun h ↦ ?_⟩
        rw [habove] at h
        cases h
    | false =>
      simp only [PathBalanced, redAbove, isRed_join, hred]
      constructor
      · rintro ⟨m, hup, hjoin, -⟩
        obtain ⟨n, rfl, ht, hf⟩ := balanced_join_false.1 hjoin
        exact ⟨n, ⟨hf, fun h ↦ Bool.noConfusion h, hup⟩, ht, fun h ↦ Bool.noConfusion h⟩
      · rintro ⟨n, ⟨hf, -, hup⟩, ht, -⟩
        exact ⟨n + 1, hup, balanced_join_false_succ.2 ⟨ht, hf⟩, fun _ ↦ trivial⟩

/-- A black subtree fits everywhere. -/
theorem PathBalanced.redBlack_paint {path : List (Frame α)} {t : ColoredTree α} {n : ℕ}
    (hpath : PathBalanced path n) (ht : t.Balanced n)
    (habove : redAbove path = true → t.isRed = false) : RedBlack ((plug path t).paint false) := by
  obtain ⟨m, hm⟩ := balanced_plug.2 ⟨n, hpath, ht, habove⟩
  exact hm.redBlack_paint

/-- A black subtree at the cursor, on the inner side of a red node whose sibling is black. This is
not what an addition leaves behind, which is red. -/
def Misplaced : List (Frame α) → ColoredTree α → Prop
  | p :: g :: _, t => t.isRed = false ∧ p.red = true ∧ g.other.isRed = false ∧ p.side ≠ g.side
  | _, _ => False

instance decidableMisplaced :
    ∀ (path : List (Frame α)) (t : ColoredTree α), Decidable (Misplaced path t)
  | [], _ => instDecidableFalse
  | [_], _ => instDecidableFalse
  | p :: g :: _, t => inferInstanceAs (Decidable
      (t.isRed = false ∧ p.red = true ∧ g.other.isRed = false ∧ p.side ≠ g.side))

/-- Of the subtree only the colour matters. -/
theorem misplaced_congr {path : List (Frame α)} {t u : ColoredTree α} (h : t.isRed = u.isRed) :
    Misplaced path t ↔ Misplaced path u := by
  rcases path with - | ⟨p, - | ⟨g, up⟩⟩
  · exact Iff.rfl
  · exact Iff.rfl
  · simp only [Misplaced, h]

theorem not_misplaced_of_isRed {path : List (Frame α)} {t : ColoredTree α} (h : t.isRed = true) :
    ¬ Misplaced path t := by
  rcases path with - | ⟨p, - | ⟨g, up⟩⟩
  · exact id
  · exact id
  · exact fun hmisplaced ↦ Bool.false_ne_true (hmisplaced.1.symm.trans h)

/-- **Rebalancing after an addition** makes a red-black tree again. -/
theorem redBlack_balanceAfterAdd {path : List (Frame α)} {t : ColoredTree α} {n : ℕ}
    (hpath : PathBalanced path n) (ht : t.Balanced n) (h : ¬ Misplaced path t) :
    RedBlack (balanceAfterAdd path t) := by
  fun_induction balanceAfterAdd path t generalizing n with
  | case1 p g up t hp huncle ih =>
    simp only [PathBalanced, hp, redAbove, if_true, forall_const] at hpath
    obtain ⟨hother, ⟨-, hg⟩, huncleBalanced, -, hup⟩ := hpath
    rw [hg, if_neg Bool.false_ne_true] at hup
    refine ih hup (balanced_join_true.2 ⟨⟨isRed_join .., isRed_paint_false _⟩,
      balanced_join_false_succ.2 ⟨ht, hother⟩, huncleBalanced.paint_of_red huncle⟩)
      (not_misplaced_of_isRed (isRed_join ..))
  | case2 p g up t hp huncle hside =>
    simp only [PathBalanced, hp, redAbove, if_true, forall_const] at hpath
    obtain ⟨hother, ⟨hotherBlack, hg⟩, huncleBalanced, -, hup⟩ := hpath
    rw [hg, if_neg Bool.false_ne_true] at hup
    refine hup.redBlack_paint (balanced_join_false_succ.2 ⟨ht, balanced_join_true.2
      ⟨⟨hotherBlack, Bool.eq_false_iff.2 huncle⟩, hother, huncleBalanced⟩⟩) fun _ ↦ isRed_join ..
  | case3 p g up hp huncle hside => exact hpath.redBlack_paint ht fun _ ↦ rfl
  | case4 p g up hp huncle hside red left a right =>
    have hred : (node red left a right).isRed = true := by
      by_contra hblack
      exact h ⟨Bool.eq_false_iff.2 hblack, hp, Bool.eq_false_iff.2 huncle, hside⟩
    simp only [PathBalanced, hp, redAbove, if_true, forall_const] at hpath
    obtain ⟨hother, ⟨hotherBlack, hg⟩, huncleBalanced, -, hup⟩ := hpath
    rw [hg, if_neg Bool.false_ne_true] at hup
    have hnear := ht.sub_of_red hred g.side
    have hfar := ht.sub_of_red hred !g.side
    rw [hp]
    refine hup.redBlack_paint (balanced_join_false_succ.2 ⟨?_, ?_⟩) fun _ ↦ isRed_join ..
    · exact balanced_join_true.2 ⟨⟨hotherBlack, hnear.1⟩, hother, hnear.2⟩
    · exact balanced_join_true.2 ⟨⟨hfar.1, Bool.eq_false_iff.2 huncle⟩, hfar.2, huncleBalanced⟩
  | case5 p g up t hp =>
    exact hpath.redBlack_paint ht fun habove ↦ absurd habove hp
  | case6 path t hshort =>
    rcases path with - | ⟨p, - | ⟨g, up⟩⟩
    · exact ht.redBlack_paint
    · refine ⟨isRed_paint_false _, n + 1, ?_⟩
      rw [plug, plug, Frame.fill, paint_join]
      exact balanced_join_false_succ.2 ⟨ht, hpath.1⟩
    · exact absurd rfl (hshort p g up)

/-- A tree whose root may have been painted is balanced only if the part at the cursor is. -/
theorem Balanced.of_paint_plug {path : List (Frame α)} {t : ColoredTree α} {m : ℕ}
    (h : ((plug path t).paint false).Balanced m) : ∃ n, (t.paint false).Balanced n := by
  induction path generalizing t with
  | nil => exact ⟨m, h⟩
  | cons f up ih =>
    obtain ⟨n, hn⟩ := ih h
    rw [Frame.fill, paint_join] at hn
    obtain ⟨n, rfl, ht, -⟩ := balanced_join_false.1 hn
    exact ht.redBlack_paint.2

/-- From a misplaced subtree it does not. -/
theorem not_redBlack_balanceAfterAdd {path : List (Frame α)} {t : ColoredTree α} {n : ℕ}
    (hpath : PathBalanced path n) (ht : t.Balanced n) (hne : t ≠ nil) (h : Misplaced path t) :
    ¬ RedBlack (balanceAfterAdd path t) := by
  rcases path with - | ⟨p, - | ⟨g, up⟩⟩
  · exact h.elim
  · exact h.elim
  · obtain ⟨hblack, hp, huncle, hside⟩ := h
    rcases t with - | ⟨red, left, a, right⟩
    · exact absurd rfl hne
    rw [balanceAfterAdd, if_pos hp, if_neg (by rw [huncle]; exact Bool.false_ne_true),
      if_neg hside]
    rintro ⟨-, m, hm⟩
    obtain ⟨k, hk⟩ := Balanced.of_paint_plug hm
    rw [paint_join, hp] at hk
    obtain ⟨k, rfl, hnear, -⟩ := balanced_join_false.1 hk
    have hnear := (balanced_join_true.1 hnear).2
    -- The cursor's subtrees are one black node lower than its sibling, and end up beside it.
    obtain ⟨j, rfl, hsub⟩ := ht.sub_of_black hblack
    have hj : k = j := hnear.2.unique (hsub g.side)
    have hk : k = j + 1 := hnear.1.unique hpath.1
    omega

/-- A new leaf, wherever it is put. -/
theorem redBlack_add_leaf {path : List (Frame α)} (h : RedBlack (plug path nil)) (a : α) :
    RedBlack (balanceAfterAdd path (node true nil a nil)) := by
  obtain ⟨n, hpath, hnil, -⟩ := balanced_plug.1 h.2
  have hleaf : (node true nil a nil).Balanced n := ⟨⟨rfl, rfl⟩, hnil, hnil⟩
  exact redBlack_balanceAfterAdd hpath hleaf (not_misplaced_of_isRed rfl)

/-- A node that was there before, with another label. -/
theorem redBlack_replace_iff {path : List (Frame α)} {red : Bool} {a b : α}
    {left right : ColoredTree α} (h : RedBlack (plug path (node red left a right))) :
    RedBlack (balanceAfterAdd path (node red left b right)) ↔
      ¬ Misplaced path (node red left a right) := by
  obtain ⟨n, hpath, ht, -⟩ := balanced_plug.1 h.2
  have hb : (node red left b right).Balanced n := by cases red <;> exact ht
  have hcolor : (node red left a right).isRed = (node red left b right).isRed := rfl
  rw [misplaced_congr hcolor]
  constructor
  · exact fun hbalanced hmisplaced ↦
      not_redBlack_balanceAfterAdd hpath hb nofun hmisplaced hbalanced
  · exact fun hplaced ↦ redBlack_balanceAfterAdd hpath hb hplaced

/-! ### Removal -/


/-- A subtree that lacks a black node, one that it can supply itself if its root is red. -/
def Short (t : ColoredTree α) (n : ℕ) : Prop :=
  (t.paint false).Balanced (if t.isRed then n + 1 else n)

theorem Short.balanced {t : ColoredTree α} {n : ℕ} (h : t.Short n) (hblack : t.isRed = false) :
    t.Balanced n := by
  rwa [Short, hblack, paint_eq_self hblack] at h

/-- What borrowing makes of a node with a black sibling: it is as before, or short. -/
theorem borrow_spec {p : Frame α} {t : ColoredTree α} {n : ℕ} (ht : t.Balanced n)
    (hother : p.other.Balanced (n + 1)) (hotherBlack : p.other.isRed = false) :
    (borrow p t).2.isRed = p.red ∧
      if (borrow p t).1 then (borrow p t).2.Balanced (if p.red then n + 1 else n + 2)
      else ((borrow p t).2.paint false).Balanced (n + 1) := by
  have hsubs : ∀ {red : Bool} {left right : ColoredTree α} {a : α},
      p.other = node red left a right →
        ((node red left a right).sub p.side).Balanced n ∧
          ((node red left a right).sub !p.side).Balanced n := by
    intro red left right a hnode
    rw [hnode] at hother hotherBlack
    obtain ⟨m, hm, hsub⟩ := hother.sub_of_black hotherBlack
    obtain rfl : n = m := Nat.succ.inj hm
    exact ⟨hsub _, hsub _⟩
  fun_cases borrow p t with
  | case1 hnil =>
    rw [hnil] at hother
    exact absurd hother (Nat.succ_ne_zero n)
  | case2 red left a right hnode sibling near far hboth =>
    obtain ⟨hnear, hfar⟩ := hsubs hnode
    refine ⟨isRed_join .., ?_⟩
    rw [if_neg Bool.false_ne_true, paint_join]
    refine balanced_join_false_succ.2 ⟨ht, ?_⟩
    show ((node red left a right).paint true).Balanced n
    rw [node_eq_join p.side red left a right, paint_join]
    exact balanced_join_true.2 ⟨hboth, hnear, hfar⟩
  | case3 red left a right hnode sibling near far hboth hred =>
    obtain ⟨hnear, hfar⟩ := hsubs hnode
    refine ⟨isRed_join .., ?_⟩
    exact (balanced_join_false_succ.2 ⟨ht, hnear⟩).join_black (hfar.paint_of_red hred)
      (isRed_join ..) (isRed_paint_false far)
  | case4 red left a right hnode sibling near far hboth hred hnear =>
    refine absurd ⟨?_, Bool.eq_false_iff.2 hred⟩ hboth
    rw [hnear]
    rfl
  | case5 red left a right hnode sibling near far hboth hred red' left' b right' hnode' =>
    obtain ⟨hnear, hfar⟩ := hsubs hnode
    have hnearRed : near.isRed = true := by
      by_contra h
      exact hboth ⟨Bool.eq_false_iff.2 h, Bool.eq_false_iff.2 hred⟩
    have hsub := fun d ↦ (Balanced.sub_of_red hnear hnearRed d).2
    rw [show sub p.side (node red left a right) = _ from hnode'] at hsub
    refine ⟨isRed_join .., ?_⟩
    exact (balanced_join_false_succ.2 ⟨ht, hsub _⟩).join_black
      (balanced_join_false_succ.2 ⟨hsub _, hfar⟩) (isRed_join ..) (isRed_join ..)

/-- The surroundings of a red sibling. -/
theorem PathBalanced.of_red_sibling {p : Frame α} {up : List (Frame α)}
    {left right : ColoredTree α} {a : α} {n : ℕ} (h : PathBalanced (p :: up) (n + 1))
    (hother : p.other = node true left a right) :
    p.red = false ∧ PathBalanced up (n + 2) ∧ ∀ d,
      ((node true left a right).sub d).isRed = false ∧
        ((node true left a right).sub d).Balanced (n + 1) := by
  obtain ⟨hbalanced, hcolour, hup⟩ := h
  rw [hother] at hbalanced hcolour
  have hp : p.red = false := Bool.eq_false_iff.2 fun hp ↦ Bool.noConfusion (hcolour hp).1
  rw [if_neg (by rw [hp]; exact Bool.false_ne_true)] at hup
  exact ⟨hp, hup, hbalanced.sub_of_red rfl⟩

/-- **Rebalancing after a removal** makes a red-black tree again. -/
theorem redBlack_balanceAfterRemove {path : List (Frame α)} {t : ColoredTree α} {n : ℕ}
    (hpath : PathBalanced path (n + 1)) (ht : t.Short n) (hroot : rootRed false path = false) :
    RedBlack (balanceAfterRemove path t) := by
  fun_induction balanceAfterRemove path t generalizing n with
  | case1 t => exact ⟨isRed_paint_false t, _, ht⟩
  | case2 p up t hred =>
    rw [Short, if_pos hred] at ht
    refine ⟨?_, balanced_plug.2 ⟨n + 1, hpath, ht, fun _ ↦ isRed_paint_false t⟩⟩
    rwa [isRed_plug, isRed_paint_false]
  | case3 p up t hred left a right hother near far u =>
    rename_i hborrow
    obtain ⟨hp, hup, hsub⟩ := hpath.of_red_sibling hother
    have hspec := borrow_spec (p := ⟨p.side, true, p.label, near⟩)
      (ht.balanced (Bool.eq_false_iff.2 hred)) (hsub p.side).2 (hsub p.side).1
    rw [hborrow] at hspec
    exact hup.redBlack_paint (balanced_join_false_succ.2 ⟨hspec.2, (hsub !p.side).2⟩)
      fun _ ↦ isRed_join ..
  | case4 p up t hred left a right hother near far u =>
    rename_i hborrow
    obtain ⟨hp, hup, hsub⟩ := hpath.of_red_sibling hother
    have hspec := borrow_spec (p := ⟨p.side, true, p.label, near⟩)
      (ht.balanced (Bool.eq_false_iff.2 hred)) (hsub p.side).2 (hsub p.side).1
    rw [hborrow] at hspec
    refine ⟨?_, balanced_plug.2 ⟨n + 2, hup, balanced_join_false_succ.2 ⟨hspec.2, (hsub !p.side).2⟩,
      fun _ ↦ isRed_join ..⟩⟩
    rw [isRed_plug, isRed_join]
    exact rootRed_false hroot
  | case5 p up t hred u =>
    rename_i hborrow hother
    have hspec := borrow_spec (ht.balanced (Bool.eq_false_iff.2 hred)) hpath.1
      (isRed_eq_false hother)
    rw [hborrow] at hspec
    have hup : PathBalanced up (if p.red then n + 1 else n + 2) := hpath.2.2
    refine hup.redBlack_paint hspec.2 fun habove ↦ ?_
    rw [hspec.1]
    exact Bool.eq_false_iff.2 fun hp ↦ by
      have := (hpath.2.1 hp).2
      rw [habove] at this
      exact Bool.noConfusion this
  | case6 p up t hred u hborrow hother ih =>
    have hspec := borrow_spec (ht.balanced (Bool.eq_false_iff.2 hred)) hpath.1
      (isRed_eq_false hother)
    rw [hborrow] at hspec
    have hup : PathBalanced up (if p.red then n + 1 else n + 2) := hpath.2.2
    cases hp : p.red with
    | true =>
      rw [if_pos hp] at hup
      refine ih hup ?_ (rootRed_false hroot)
      rw [Short, if_pos (hspec.1.trans hp)]
      exact hspec.2
    | false =>
      rw [if_neg (by rw [hp]; exact Bool.false_ne_true)] at hup
      refine ih hup ?_ (rootRed_false hroot)
      rw [Short, if_neg (by rw [hspec.1, hp]; exact Bool.false_ne_true)]
      exact hspec.2

/-- Taking out a node and keeping one of its subtrees. -/
theorem redBlack_dropNode {path : List (Frame α)} {red : Bool} {a : α} {left right : ColoredTree α}
    (h : RedBlack (plug path (node red left a right))) (d : Bool) :
    RedBlack (dropNode path red ((node red left a right).sub d)) := by
  obtain ⟨hroot, hbalanced⟩ := h
  obtain ⟨n, hpath, ht, -⟩ := balanced_plug.1 hbalanced
  rw [isRed_plug] at hroot
  cases red with
  | true =>
    have hchild := ht.sub_of_red rfl d
    refine ⟨?_, balanced_plug.2 ⟨n, hpath, hchild.2, fun _ ↦ hchild.1⟩⟩
    show (plug path _).isRed = false
    rw [isRed_plug, hchild.1]
    exact rootRed_false hroot
  | false =>
    obtain ⟨m, rfl, hsub⟩ := ht.sub_of_black rfl
    refine redBlack_balanceAfterRemove hpath ?_ hroot
    cases hred : ((node false left a right).sub d).isRed with
    | true =>
      rw [Short, if_pos hred]
      exact (hsub d).paint_of_red hred
    | false =>
      rw [Short, if_neg (by rw [hred]; exact Bool.false_ne_true), paint_eq_self hred]
      exact hsub d

/-- The labels have nothing to do with the balance. -/
theorem redBlack_relabel {path : List (Frame α)} {red : Bool} {a b : α}
    {left right : ColoredTree α} (h : RedBlack (plug path (node red left a right))) :
    RedBlack (plug path (node red left b right)) := by
  obtain ⟨hroot, hbalanced⟩ := h
  obtain ⟨n, hpath, ht, hblack⟩ := balanced_plug.1 hbalanced
  refine ⟨?_, balanced_plug.2 ⟨n, hpath, ?_, hblack⟩⟩
  · rw [isRed_plug] at hroot ⊢
    exact hroot
  · cases red <;> exact ht

/-! ### Depth -/

/-- Half of the nodes on a way down are black, and there are as many black nodes as in a full
tree. -/
theorem Balanced.bounds {t : ColoredTree α} {n : ℕ} (h : t.Balanced n) :
    t.depth ≤ 2 * n + t.isRed.toNat ∧ 2 ^ n ≤ t.toList.length + 1 := by
  induction t generalizing n with
  | nil =>
    obtain rfl : n = 0 := h
    exact ⟨le_rfl, le_rfl⟩
  | node red left a right ihl ihr =>
    cases red with
    | true =>
      obtain ⟨⟨hleftBlack, hrightBlack⟩, hleft, hright⟩ := h
      have hl := ihl hleft
      have hr := ihr hright
      rw [hleftBlack] at hl
      rw [hrightBlack] at hr
      simp only [depth, toList, isRed_node, List.length_append, List.length_cons, Bool.toNat_true,
        Bool.toNat_false] at hl hr ⊢
      omega
    | false =>
      obtain ⟨m, rfl, hleft, hright⟩ := h
      have hl := ihl hleft
      have hr := ihr hright
      have hleftRed := Bool.toNat_le left.isRed
      have hrightRed := Bool.toNat_le right.isRed
      simp only [depth, toList, isRed_node, List.length_append, List.length_cons, Bool.toNat_false,
        Nat.pow_succ] at hl hr ⊢
      omega

/-- **The depth is logarithmic** in the number of labels. -/
theorem RedBlack.depth_le {t : ColoredTree α} (h : t.RedBlack) :
    t.depth ≤ 2 * Nat.log 2 (t.toList.length + 1) := by
  obtain ⟨hblack, n, hn⟩ := h
  obtain ⟨hdepth, hsize⟩ := hn.bounds
  rw [hblack] at hdepth
  have hlog : n ≤ Nat.log 2 (t.toList.length + 1) :=
    (Nat.le_log_iff_pow_le Nat.one_lt_two (Nat.succ_ne_zero _)).2 hsize
  simp only [Bool.toNat_false] at hdepth
  omega

end ColoredTree

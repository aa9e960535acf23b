import Mathlib.Data.List.Basic
import Mathlib.Tactic.SplitIfs

/-!
# Coloured trees with a cursor

Binary trees whose nodes are red or black, and the subtree that an algorithm works on together with
the path from it up to the root. A path is a list of frames; each says on which side the subtree
hangs. Every step of a rebalancing and its mirror image are then one step with the side as a
parameter (`join`).

`balanceAfterAdd` and `balanceAfterRemove` are the two rebalancing loops of red-black trees. They
keep the labels in order whatever the colours are (`toList_balanceAfterAdd`,
`toList_balanceAfterRemove`).
-/

/-- A binary tree with coloured nodes. -/
inductive ColoredTree (α : Type*) where
  /-- The empty tree. -/
  | nil
  /-- A node, which is red or black. -/
  | node (red : Bool) (left : ColoredTree α) (label : α) (right : ColoredTree α)

namespace ColoredTree

variable {α : Type*}

/-- Whether there is a red node at the root. -/
def isRed : ColoredTree α → Bool
  | nil => false
  | node red _ _ _ => red

/-- Gives the root a colour. -/
def paint (red : Bool) : ColoredTree α → ColoredTree α
  | nil => nil
  | node _ left a right => node red left a right

/-- The labels in order. -/
def toList : ColoredTree α → List α
  | nil => []
  | node _ left a right => left.toList ++ a :: right.toList

/-- The number of nodes on the longest way down. -/
def depth : ColoredTree α → ℕ
  | nil => 0
  | node _ left _ right => max left.depth right.depth + 1

/-- The subtree on a side; `false` is the left. -/
def sub (d : Bool) : ColoredTree α → ColoredTree α
  | nil => nil
  | node _ left _ right => if d then right else left

/-- A node with one subtree on side `d` and the other one on the other side. -/
def join (d red : Bool) (a : α) (near far : ColoredTree α) : ColoredTree α :=
  if d then node red far a near else node red near a far

@[simp] theorem isRed_node (red : Bool) (left : ColoredTree α) (a : α) (right : ColoredTree α) :
    (node red left a right).isRed = red := rfl

@[simp] theorem isRed_join (d red : Bool) (a : α) (near far : ColoredTree α) :
    (join d red a near far).isRed = red := by
  cases d <;> rfl

@[simp] theorem paint_join (d red red' : Bool) (a : α) (near far : ColoredTree α) :
    (join d red a near far).paint red' = join d red' a near far := by
  cases d <;> rfl

@[simp] theorem sub_join_self (d red : Bool) (a : α) (near far : ColoredTree α) :
    (join d red a near far).sub d = near := by
  cases d <;> rfl

@[simp] theorem sub_join_not (d red : Bool) (a : α) (near far : ColoredTree α) :
    (join d red a near far).sub (!d) = far := by
  cases d <;> rfl

theorem join_not (d red : Bool) (a : α) (near far : ColoredTree α) :
    join (!d) red a near far = join d red a far near := by
  cases d <;> rfl

theorem node_eq_join (d red : Bool) (left : ColoredTree α) (a : α) (right : ColoredTree α) :
    node red left a right =
      join d red a ((node red left a right).sub d) ((node red left a right).sub !d) := by
  cases d <;> rfl

@[simp] theorem isRed_paint_false (t : ColoredTree α) : (t.paint false).isRed = false := by
  cases t <;> rfl

theorem isRed_eq_false {t : ColoredTree α}
    (h : ∀ left a right, t = node true left a right → False) : t.isRed = false := by
  cases t with
  | nil => rfl
  | node red left a right =>
    refine Bool.eq_false_iff.2 fun hred ↦ ?_
    obtain rfl : red = true := hred
    exact h left a right rfl

theorem toList_paint (red : Bool) (t : ColoredTree α) : (t.paint red).toList = t.toList := by
  cases t <;> rfl

theorem paint_eq_self {t : ColoredTree α} (h : t.isRed = false) : t.paint false = t := by
  cases t with
  | nil => rfl
  | node red left a right =>
    obtain rfl : red = false := h
    rfl

theorem toList_join (d red : Bool) (a : α) (near far : ColoredTree α) :
    (join d red a near far).toList =
      if d then far.toList ++ a :: near.toList else near.toList ++ a :: far.toList := by
  cases d <;> rfl

/-- The labels of a node and of its subtrees do not depend on its colour. -/
theorem toList_join_congr {d red red' : Bool} {a : α} {near near' far far' : ColoredTree α}
    (hnear : near.toList = near'.toList) (hfar : far.toList = far'.toList) :
    (join d red a near far).toList = (join d red' a near' far').toList := by
  rw [toList_join, toList_join, hnear, hfar]

/-- A rotation keeps the order. -/
theorem toList_rotate (d red red' red₁ red₁' : Bool) (a b : α) (x y z : ColoredTree α) :
    (join d red a x (join d red' b y z)).toList =
      (join d red₁ b (join d red₁' a x y) z).toList := by
  cases d <;> simp [toList_join]

/-! ### The path to the root -/

/-- A step from a subtree up: the side it hangs on, the node, and the node's other subtree. -/
structure Frame (α : Type*) where
  /-- The side the subtree hangs on; `false` is the left. -/
  side : Bool
  /-- Whether the node is red. -/
  red : Bool
  /-- Its label. -/
  label : α
  /-- Its other subtree. -/
  other : ColoredTree α

/-- The tree one step up. -/
def Frame.fill (f : Frame α) (t : ColoredTree α) : ColoredTree α :=
  join f.side f.red f.label t f.other

/-- The whole tree, from a subtree and the path from it to the root. -/
def plug : List (Frame α) → ColoredTree α → ColoredTree α
  | [], t => t
  | f :: up, t => plug up (f.fill t)

/-- The labels before the subtree. -/
def before : List (Frame α) → List α
  | [] => []
  | f :: up => before up ++ if f.side then f.other.toList ++ [f.label] else []

/-- The labels behind the subtree. -/
def after : List (Frame α) → List α
  | [] => []
  | f :: up => (if f.side then [] else f.label :: f.other.toList) ++ after up

theorem toList_plug (path : List (Frame α)) (t : ColoredTree α) :
    (plug path t).toList = before path ++ t.toList ++ after path := by
  induction path generalizing t with
  | nil => simp [plug, before, after]
  | cons f up ih =>
    rw [plug, ih, Frame.fill, toList_join, before, after]
    cases f.side <;> simp

theorem toList_plug_congr (path : List (Frame α)) {t u : ColoredTree α}
    (h : t.toList = u.toList) : (plug path t).toList = (plug path u).toList := by
  rw [toList_plug, toList_plug, h]

theorem plug_append (path up : List (Frame α)) (t : ColoredTree α) :
    plug (path ++ up) t = plug up (plug path t) := by
  induction path generalizing t with
  | nil => rfl
  | cons f path ih => exact ih (f.fill t)

theorem before_append (path up : List (Frame α)) :
    before (path ++ up) = before up ++ before path := by
  induction path with
  | nil => exact (List.append_nil _).symm
  | cons f path ih => rw [List.cons_append, before, before, ih, List.append_assoc]

theorem after_append (path up : List (Frame α)) : after (path ++ up) = after path ++ after up := by
  induction path with
  | nil => rfl
  | cons f path ih => rw [List.cons_append, after, after, ih, List.append_assoc]

/-- Every label is at a node, and what is before and behind it in the order are the two subtrees and
what the path leaves on both sides. -/
theorem exists_plug_node {T : ColoredTree α} {l l' : List α} {a : α}
    (h : T.toList = l ++ a :: l') :
    ∃ path red left right, T = plug path (node red left a right) ∧
      l = before path ++ left.toList ∧ l' = right.toList ++ after path := by
  induction T generalizing l l' with
  | nil => simp [toList] at h
  | node red left b right ihl ihr =>
    rw [toList] at h
    rcases List.append_eq_append_iff.1 h with ⟨m, rfl, hm⟩ | ⟨m, hm, hm'⟩
    · rcases m with - | ⟨b', m⟩
      · obtain ⟨rfl, rfl⟩ := List.cons.inj hm
        exact ⟨[], red, left, right, rfl, by simp [before], by simp [after]⟩
      · obtain ⟨rfl, hright⟩ := List.cons.inj hm
        obtain ⟨path, red', left', right', rfl, rfl, rfl⟩ := ihr hright
        refine ⟨path ++ [⟨true, red, b, left⟩], red', left', right', ?_, ?_, ?_⟩
        · rw [plug_append]
          rfl
        · rw [before_append]
          simp [before]
        · rw [after_append]
          simp [after]
    · rcases m with - | ⟨b', m⟩
      · obtain ⟨rfl, rfl⟩ := List.cons.inj hm'
        exact ⟨[], red, left, right, rfl, by simpa [before] using hm.symm, by simp [after]⟩
      · obtain ⟨rfl, rfl⟩ := List.cons.inj hm'
        obtain ⟨path, red', left', right', rfl, rfl, rfl⟩ := ihl hm
        refine ⟨path ++ [⟨false, red, b, right⟩], red', left', right', ?_, ?_, ?_⟩
        · rw [plug_append]
          rfl
        · rw [before_append]
          simp [before]
        · rw [after_append]
          simp [after]

/-- The colour of the root, if that of the subtree is `red`. -/
def rootRed (red : Bool) : List (Frame α) → Bool
  | [] => red
  | f :: up => rootRed f.red up

theorem isRed_plug (path : List (Frame α)) (t : ColoredTree α) :
    (plug path t).isRed = rootRed t.isRed path := by
  induction path generalizing t with
  | nil => rfl
  | cons f up ih =>
    rw [plug, ih, Frame.fill, isRed_join]
    rfl

theorem rootRed_false {red : Bool} {path : List (Frame α)} (h : rootRed red path = false) :
    rootRed false path = false := by
  cases path with
  | nil => rfl
  | cons f up => exact h

/-! ### Searching -/

/-- Goes down from a subtree: `direction` says on which side of a label to go on, `none` that it is
the one looked for. -/
def seek (direction : α → Option Bool) :
    List (Frame α) → ColoredTree α → List (Frame α) × ColoredTree α
  | path, nil => (path, nil)
  | path, node red left a right =>
    match direction a with
    | none => (path, node red left a right)
    | some true => seek direction (⟨true, red, a, left⟩ :: path) right
    | some false => seek direction (⟨false, red, a, right⟩ :: path) left

theorem plug_seek (direction : α → Option Bool) (path : List (Frame α)) (t : ColoredTree α) :
    plug (seek direction path t).1 (seek direction path t).2 = plug path t := by
  induction t generalizing path with
  | nil => rfl
  | node red left a right ihl ihr =>
    rw [seek]
    split
    · rfl
    · rw [ihr]
      rfl
    · rw [ihl]
      rfl

/-- A search stops at a node only where it finds what it looks for. -/
theorem direction_of_seek {direction : α → Option Bool} {path up : List (Frame α)}
    {t left right : ColoredTree α} {red : Bool} {a : α}
    (h : seek direction path t = (up, node red left a right)) : direction a = none := by
  induction t generalizing path with
  | nil => cases (Prod.mk.inj h).2
  | node red' left' b right' ihl ihr =>
    rw [seek] at h
    split at h
    · rename_i hb
      obtain ⟨-, -, rfl, -⟩ := node.inj (Prod.mk.inj h).2
      exact hb
    · exact ihr h
    · exact ihl h

/-- What a search leaves on the left was to the left of what it looks for, and so on the right. -/
theorem beside_of_seek {direction : α → Option Bool} {path up : List (Frame α)}
    {t u : ColoredTree α} (h : seek direction path t = (up, u))
    (hmono : (plug path t).toList.Pairwise fun a b ↦
      (direction b = some true → direction a = some true) ∧
        (direction a = some false → direction b = some false))
    (hbefore : ∀ a ∈ before path, direction a = some true)
    (hafter : ∀ a ∈ after path, direction a = some false) :
    (∀ a ∈ before up, direction a = some true) ∧ ∀ a ∈ after up, direction a = some false := by
  induction t generalizing path with
  | nil =>
    obtain ⟨rfl, -⟩ := Prod.mk.inj h
    exact ⟨hbefore, hafter⟩
  | node red left a right ihl ihr =>
    have horder := hmono
    rw [toList_plug, toList] at horder
    rw [seek] at h
    split at h
    · obtain ⟨rfl, -⟩ := Prod.mk.inj h
      exact ⟨hbefore, hafter⟩
    · rename_i ha
      refine ihr h hmono (fun b hb ↦ ?_) fun b hb ↦ hafter b (by simpa [after] using hb)
      rw [before, if_pos rfl] at hb
      rcases List.mem_append.1 hb with hb | hb
      · exact hbefore b hb
      · rcases List.mem_append.1 hb with hb | hb
        · have hle : (before path ++ (left.toList ++ a :: right.toList)).Pairwise _ :=
            (List.pairwise_append.1 horder).1
          have hle := (List.pairwise_append.1 hle).2.1
          exact ((List.pairwise_append.1 hle).2.2 b hb a (List.mem_cons_self ..)).1 ha
        · obtain rfl := List.mem_singleton.1 hb
          exact ha
    · rename_i ha
      refine ihl h hmono (fun b hb ↦ hbefore b (by simpa [before] using hb)) fun b hb ↦ ?_
      rw [after, if_neg Bool.false_ne_true] at hb
      rcases List.mem_append.1 hb with hb | hb
      · rcases List.mem_cons.1 hb with rfl | hb
        · exact ha
        · have hle : (before path ++ (left.toList ++ a :: right.toList)).Pairwise _ :=
            (List.pairwise_append.1 horder).1
          have hle := (List.pairwise_append.1 (List.pairwise_append.1 hle).2.1).2.1
          exact (List.rel_of_pairwise_cons hle hb).2 ha
      · exact hafter b hb

/-! ### The rebalancing loops -/

/-- Clears up a red node with a red parent: a red uncle moves the conflict two levels up, a black
one ends it by one or two rotations. -/
def balanceAfterAdd : List (Frame α) → ColoredTree α → ColoredTree α
  | p :: g :: up, t =>
    if p.red then
      if g.other.isRed then
        balanceAfterAdd up
          (join g.side true g.label (join p.side false p.label t p.other) (g.other.paint false))
      else if p.side = g.side then
        (plug up (join g.side false p.label t
          (join g.side true g.label p.other g.other))).paint false
      else
        match t with
        | nil => (plug (p :: g :: up) nil).paint false
        | node red left a right =>
          (plug up (join g.side false a
            (join g.side p.red p.label p.other ((node red left a right).sub g.side))
            (join g.side true g.label
              ((node red left a right).sub !g.side) g.other))).paint false
    else (plug (p :: g :: up) t).paint false
  | path, t => (plug path t).paint false

/-- Makes up for a black node that is missing below a node with black sibling, if that is possible;
otherwise it is missing below the parent now. -/
def borrow (p : Frame α) (t : ColoredTree α) : Bool × ColoredTree α :=
  match p.other with
  | nil => (false, p.fill t)
  | node red left a right =>
    let sibling := node red left a right
    let near := sibling.sub p.side
    let far := sibling.sub !p.side
    if near.isRed = false ∧ far.isRed = false then
      (false, join p.side p.red p.label t (sibling.paint true))
    else if far.isRed then
      (true, join p.side p.red a (join p.side false p.label t near) (far.paint false))
    else
      match near with
      | nil => (true, p.fill t)
      | node red' left' b right' =>
        (true, join p.side p.red b
          (join p.side false p.label t ((node red' left' b right').sub p.side))
          (join p.side false a ((node red' left' b right').sub !p.side) far))

/-- Makes up for a black node that is missing in the subtree at the cursor. A red sibling is rotated
up first. -/
def balanceAfterRemove : List (Frame α) → ColoredTree α → ColoredTree α
  | [], t => t.paint false
  | p :: up, t =>
    if t.isRed then plug (p :: up) (t.paint false)
    else
      match p.other with
      | node true left a right =>
        let near := (node true left a right).sub p.side
        let far := (node true left a right).sub !p.side
        match borrow ⟨p.side, true, p.label, near⟩ t with
        | (true, u) => (plug up (join p.side false a u far)).paint false
        | (false, u) => plug up (join p.side false a (u.paint false) far)
      | _ =>
        match borrow p t with
        | (true, u) => (plug up u).paint false
        | (false, u) => balanceAfterRemove up u

/-- What becomes of a tree when a node of the given colour has been taken out, and `t` has taken its
place. -/
def dropNode (path : List (Frame α)) (red : Bool) (t : ColoredTree α) : ColoredTree α :=
  if red then plug path t else balanceAfterRemove path t

/-- **Rebalancing keeps the order** after an addition. -/
theorem toList_balanceAfterAdd (path : List (Frame α)) (t : ColoredTree α) :
    (balanceAfterAdd path t).toList = (plug path t).toList := by
  fun_induction balanceAfterAdd path t with
  | case1 p g up t hp huncle ih =>
    rw [ih]
    exact toList_plug_congr up (toList_join_congr (toList_join_congr rfl rfl) (toList_paint _ _))
  | case2 p g up t hp huncle hside =>
    rw [toList_paint]
    refine toList_plug_congr up ?_
    rw [Frame.fill, Frame.fill, hside]
    cases g.side <;> simp [toList_join]
  | case3 p g up hp huncle hside => rw [toList_paint]
  | case4 p g up hp huncle hside red left a right =>
    rw [toList_paint]
    refine toList_plug_congr up ?_
    rw [Frame.fill, Frame.fill, Bool.eq_not.2 hside]
    cases g.side <;> simp [toList_join, sub, toList]
  | case5 => rw [toList_paint]
  | case6 => rw [toList_paint]

/-- The node at the top keeps the colour of the one it replaces. -/
theorem isRed_borrow (p : Frame α) (t : ColoredTree α) : (borrow p t).2.isRed = p.red := by
  fun_cases borrow p t with
  | case1 => exact isRed_join ..
  | case2 => exact isRed_join ..
  | case3 => exact isRed_join ..
  | case4 => exact isRed_join ..
  | case5 => exact isRed_join ..

theorem toList_borrow (p : Frame α) (t : ColoredTree α) :
    (borrow p t).2.toList = (p.fill t).toList := by
  fun_cases borrow p t with
  | case1 => rfl
  | case2 red left a right hother sibling near far hblack =>
    rw [Frame.fill, hother]
    exact toList_join_congr rfl (toList_paint _ _)
  | case3 red left a right hother sibling near far hblack hfar =>
    rw [Frame.fill, hother]
    show (join p.side p.red a (join p.side false p.label t near) (far.paint false)).toList = _
    cases hd : p.side <;> simp [toList_join, toList_paint, toList, near, far, sibling, hd, sub]
  | case4 => rfl
  | case5 red left a right hother sibling near far hblack hfar red' left' b right' hnear =>
    rw [Frame.fill, hother, node_eq_join p.side red left a right]
    show _ = (join p.side p.red p.label t (join p.side red a near far)).toList
    rw [hnear]
    cases p.side <;> simp [toList_join, sub, toList]

/-- A red sibling is rotated up and what is left is made up for below. -/
theorem toList_of_borrow {p : Frame α} {done red : Bool} {a : α} {t left right u v : ColoredTree α}
    (hborrow : borrow ⟨p.side, true, p.label, (node red left a right).sub p.side⟩ t = (done, u))
    (hv : v.toList = u.toList) :
    (join p.side false a v ((node red left a right).sub !p.side)).toList =
      (join p.side p.red p.label t (node red left a right)).toList := by
  have hu := toList_borrow ⟨p.side, true, p.label, (node red left a right).sub p.side⟩ t
  rw [hborrow] at hu
  rw [toList_join, hv.trans hu, Frame.fill]
  cases p.side <;> simp [toList_join, sub, toList]

/-- **Rebalancing keeps the order** after a removal. -/
theorem toList_balanceAfterRemove (path : List (Frame α)) (t : ColoredTree α) :
    (balanceAfterRemove path t).toList = (plug path t).toList := by
  fun_induction balanceAfterRemove path t with
  | case1 t => exact toList_paint false t
  | case2 p up t hred => exact toList_plug_congr (p :: up) (toList_paint false t)
  | case3 p up t hred left a right hother near far u hborrow =>
    rw [toList_paint]
    refine toList_plug_congr up ?_
    rw [Frame.fill, hother]
    exact toList_of_borrow hborrow rfl
  | case4 p up t hred left a right hother near far u hborrow =>
    refine toList_plug_congr up ?_
    rw [Frame.fill, hother]
    exact toList_of_borrow hborrow (toList_paint false u)
  | case5 p up t hred u hborrow =>
    rw [toList_paint]
    refine toList_plug_congr up ?_
    rw [← toList_borrow, hborrow]
  | case6 p up t hred u hborrow hother ih =>
    rw [ih]
    refine toList_plug_congr up ?_
    rw [← toList_borrow, hborrow]

theorem toList_dropNode (path : List (Frame α)) (red : Bool) (t : ColoredTree α) :
    (dropNode path red t).toList = (plug path t).toList := by
  cases red with
  | true => rfl
  | false => exact toList_balanceAfterRemove path t

end ColoredTree

import Mathlib.Data.Int.Order.Basic
import Mathlib.Logic.Function.Basic
import Mathlib.Order.Lattice
import MrubyMqtt.Lib.Bytes

/-!
# The tree under the heap tracker

`Tree.c` with its pointers. Nodes are kept at addresses, and a null pointer is `none`. Reading or
writing through a null pointer or at an address where no node is (it has been freed, or never was
one) makes an operation `none`, and so does a loop that has not come to its end after more steps
than there have ever been nodes. The counters and sizes are of type `int` and wrap around; whether
there is memory for a new node is an argument of the addition, which does not check it.

Only the first index is modelled: nothing in the repository adds another one. `false` is `LEFT` and
`true` is `RIGHT`. The contents are compared by a key, as `ptrCompare` does.
-/

open Bytes

/-- A node of the tree. -/
structure TreeNode (α : Type) where
  /-- The pointer to the parent. -/
  parent : Option ℕ
  /-- The pointers to the two children. -/
  child : Bool → Option ℕ
  /-- The pointer to the content. -/
  content : Option α
  /-- The size that was given for the content. -/
  size : ℤ
  /-- The colour. -/
  red : Bool

/-- A tree, with the nodes that are allocated and the address of the next one. -/
structure PahoTree (α : Type) where
  /-- The nodes, by address. -/
  nodes : ℕ → Option (TreeNode α)
  /-- The pointer to the root of the first index. -/
  root : Option ℕ
  /-- The address the next node gets. -/
  next : ℕ
  /-- The number of items. -/
  count : ℤ
  /-- The sizes of the items, summed up. -/
  size : ℤ

/-- Compares the keys of two contents. -/
def ptrCompare {κ : Type*} [LinearOrder κ] (a b : κ) : ℤ :=
  if a > b then -1 else if a = b then 0 else 1

namespace PahoTree

variable {α κ : Type}

/-- `TreeInitializeNoMalloc`: no nodes. -/
def treeInitialize : PahoTree α := ⟨fun _ ↦ none, none, 0, 0, 0⟩

/-- A freshly allocated node, after `memset`. -/
def zeroed : TreeNode α := ⟨none, fun _ ↦ none, none, 0, false⟩

/-! ### Reading and writing nodes -/

/-- Writes to a node. -/
def modify (s : PahoTree α) (a : ℕ) (f : TreeNode α → TreeNode α) : Option (PahoTree α) :=
  (s.nodes a).map fun n ↦ { s with nodes := Function.update s.nodes a (some (f n)) }

/-- `red` is assigned. -/
def setRed (s : PahoTree α) (a : ℕ) (red : Bool) : Option (PahoTree α) :=
  s.modify a fun n ↦ { n with red }

/-- `parent` is assigned. -/
def setParent (s : PahoTree α) (a : ℕ) (parent : Option ℕ) : Option (PahoTree α) :=
  s.modify a fun n ↦ { n with parent }

/-- A pointer to a child is assigned. -/
def setChild (s : PahoTree α) (a : ℕ) (d : Bool) (p : Option ℕ) : Option (PahoTree α) :=
  s.modify a fun n ↦ { n with child := Function.update n.child d p }

/-- `content` and `size` are assigned. -/
def setContent (s : PahoTree α) (a : ℕ) (content : Option α) (size : ℤ) : Option (PahoTree α) :=
  s.modify a fun n ↦ { n with content, size }

/-- Writes a pointer to the parent of a node, where it may be null. -/
def setParentOf (s : PahoTree α) (p parent : Option ℕ) : Option (PahoTree α) :=
  match p with
  | some a => s.setParent a parent
  | none => some s

/-- `isRed`; a null pointer is black. -/
def isRed (s : PahoTree α) : Option ℕ → Option Bool
  | none => some false
  | some a => (s.nodes a).map TreeNode.red

/-! ### Rotation -/

/-- The pointer down to `curnode` is made to point to `other`: that in `parent`, or the root. -/
def relink (s : PahoTree α) (parent : Option ℕ) (curnode : ℕ) (other : Option ℕ)
    (direction : Bool) : Option (PahoTree α) :=
  match parent with
  | none => some { s with root := other }
  | some p => do
    if (← s.nodes p).child direction = some curnode then
      s.setChild p direction other
    else
      s.setChild p (!direction) other

/-- `TreeRotate`: the child on the other side takes the place of a node. -/
def treeRotate (s : PahoTree α) (curnode : ℕ) (direction : Bool) : Option (PahoTree α) := do
  let other ← (← s.nodes curnode).child !direction
  let inner := (← s.nodes other).child direction
  let s ← s.setChild curnode (!direction) inner
  let s ← s.setParentOf inner (some curnode)
  let parent := (← s.nodes curnode).parent
  let s ← s.setParent other parent
  let s ← s.relink parent curnode (some other) direction
  let s ← s.setChild other direction (some curnode)
  s.setParent curnode (some other)

/-! ### Rebalancing after an addition -/

/-- The uncle is red: the conflict moves two levels up. -/
def recolour (s : PahoTree α) (parent uncle grandparent : ℕ) : Option (PahoTree α) := do
  let s ← s.setRed uncle false
  let s ← s.setRed parent false
  s.setRed grandparent true

/-- The uncle is black and `curnode` an outer grandchild. -/
def rotateOut (s : PahoTree α) (curnode : ℕ) (which : Bool) : Option (PahoTree α × ℕ) := do
  let parent ← (← s.nodes curnode).parent
  let s ← s.setRed parent false
  let grandparent ← (← s.nodes parent).parent
  let s ← s.setRed grandparent true
  some (← s.treeRotate grandparent which, curnode)

/-- The uncle is black: an inner grandchild is rotated outwards first, and its parent takes its
place. -/
def rotateTwice (s : PahoTree α) (curnode parent : ℕ) (which : Bool) :
    Option (PahoTree α × ℕ) := do
  if (← s.nodes parent).child which = some curnode then do
    (← s.treeRotate parent !which).rotateOut parent which
  else s.rotateOut curnode which

/-- `TreeBAASub`: one turn of the loop of `TreeBalanceAfterAdd`. -/
def treeBAASub (s : PahoTree α) (curnode : ℕ) (which : Bool) : Option (PahoTree α × ℕ) := do
  let parent ← (← s.nodes curnode).parent
  let grandparent ← (← s.nodes parent).parent
  let uncle := (← s.nodes grandparent).child which
  if ← s.isRed uncle then do
    some (← s.recolour parent (← uncle) grandparent, grandparent)
  else s.rotateTwice curnode parent which

/-- The loop: while there is a red parent with a parent of its own. -/
def treeBalanceAfterAddLoop : ℕ → PahoTree α → ℕ → Option (PahoTree α)
  | 0, _, _ => none
  | fuel + 1, s, curnode => do
    match (← s.nodes curnode).parent with
    | none => some s
    | some parent =>
      let p ← s.nodes parent
      match p.red, p.parent with
      | true, some grandparent =>
        let isLeft := (← s.nodes grandparent).child false = some parent
        let (s, curnode) ← s.treeBAASub curnode (decide isLeft)
        treeBalanceAfterAddLoop fuel s curnode
      | _, _ => some s

/-- `TreeBalanceAfterAdd`. At the end the root is coloured black. -/
def treeBalanceAfterAdd (s : PahoTree α) (curnode : ℕ) : Option (PahoTree α) := do
  let s ← treeBalanceAfterAddLoop (s.next + 1) s curnode
  s.setRed (← s.root) false

/-! ### Adding -/

section Compare

variable [LinearOrder κ] (key : α → κ)

/-- Looks for a key: the last node compared, the one found, where to go on from the last one, and
the last result. -/
def treeAddLoop (s : PahoTree α) (k : κ) :
    ℕ → Option ℕ → Option ℕ → Bool → ℤ → Option (Option ℕ × Option ℕ × Bool × ℤ)
  | 0, _, _, _, _ => none
  | _ + 1, curparent, none, left, result => some (curparent, none, left, result)
  | fuel + 1, curparent, some curnode, _, _ => do
    let n ← s.nodes curnode
    let result := ptrCompare (key (← n.content)) k
    let left := decide (result > 0)
    if result = 0 then some (curparent, some curnode, left, result)
    else s.treeAddLoop k fuel (some curnode) (n.child left) left result

/-- The content of a node is replaced. -/
def replace (s : PahoTree α) (newel : ℕ) (content : α) (size : ℤ) :
    Option (PahoTree α × Option α) := do
  let n ← s.nodes newel
  let s := { s with size := toInt32 (s.size + (size - n.size)) }
  let s ← s.setContent newel (some content) size
  some (← s.treeBalanceAfterAdd newel, n.content)

/-- The pointer to a new node. -/
def link (s : PahoTree α) (curparent : Option ℕ) (left : Bool) (newel : ℕ) :
    Option (PahoTree α) :=
  match curparent with
  | some p => s.setChild p left (some newel)
  | none => some { s with root := some newel }

/-- The new node, with the address it gets. `memset` writes to it without a check, through a null
pointer if there was no memory. -/
def allocate (s : PahoTree α) (nodeMem : Bool) : Option (PahoTree α × ℕ) :=
  if nodeMem then
    some ({ s with nodes := Function.update s.nodes s.next (some zeroed), next := s.next + 1 },
      s.next)
  else none

/-- A red leaf is hung below a node, or made the root. -/
def attach (s : PahoTree α) (curparent : Option ℕ) (left : Bool) (content : α) (size : ℤ)
    (nodeMem : Bool) : Option (PahoTree α) := do
  let (s, newel) ← s.allocate nodeMem
  let s ← s.link curparent left newel
  let s ← s.setParent newel curparent
  let s ← s.setRed newel true
  let s := { s with count := toInt32 (s.count + 1), size := toInt32 (s.size + size) }
  let s ← s.setContent newel (some content) size
  s.treeBalanceAfterAdd newel

/-- `TreeAdd` on a tree with one index; the size is an `int`. What it returns is the content that
was replaced. `nodeMem` says whether there is memory for a node. -/
def treeAdd (s : PahoTree α) (content : α) (size : ℤ) (nodeMem : Bool) :
    Option (PahoTree α × Option α) := do
  let (curparent, curnode, left, result) ←
    s.treeAddLoop key (key content) (s.next + 1) none s.root false 1
  if result = 0 then s.replace (← curnode) content (toInt32 size)
  else some (← s.attach curparent left content (toInt32 size) nodeMem, none)

/-! ### Searching -/

/-- The loop of `TreeFindIndex1`. -/
def treeFindLoop (s : PahoTree α) (k : κ) : ℕ → Option ℕ → Option (Option ℕ)
  | 0, _ => none
  | _ + 1, none => some none
  | fuel + 1, some curnode => do
    let n ← s.nodes curnode
    let result := ptrCompare (key (← n.content)) k
    if result = 0 then some (some curnode)
    else s.treeFindLoop k fuel (n.child (decide (result > 0)))

/-- `TreeFind`, and `TreeFindContentIndex` for the key of a content. -/
def treeFind (s : PahoTree α) (k : κ) : Option (Option ℕ) :=
  s.treeFindLoop key k (s.next + 1) s.root

end Compare

/-! ### Going from one node to the next -/

/-- The loop of `TreeMinimum`: to the left as far as it goes. -/
def treeMinimumLoop (s : PahoTree α) : ℕ → ℕ → Option ℕ
  | 0, _ => none
  | fuel + 1, curnode => do
    match (← s.nodes curnode).child false with
    | some left => s.treeMinimumLoop fuel left
    | none => some curnode

/-- `TreeMinimum`. -/
def treeMinimum (s : PahoTree α) : Option ℕ → Option (Option ℕ)
  | none => some none
  | some curnode => (s.treeMinimumLoop (s.next + 1) curnode).map some

/-- The loop of `TreeSuccessor`: up from a right child until it is a left one. -/
def treeSuccessorLoop (s : PahoTree α) : ℕ → ℕ → Option ℕ → Option (Option ℕ)
  | 0, _, _ => none
  | _ + 1, _, none => some none
  | fuel + 1, curnode, some curparent => do
    let p ← s.nodes curparent
    if p.child true = some curnode then s.treeSuccessorLoop fuel curparent p.parent
    else some (some curparent)

/-- `TreeSuccessor`. -/
def treeSuccessor (s : PahoTree α) (curnode : ℕ) : Option (Option ℕ) := do
  let n ← s.nodes curnode
  match n.child true with
  | some right => s.treeMinimum (some right)
  | none => s.treeSuccessorLoop (s.next + 1) curnode n.parent

/-- `TreeNextElement`: the first node, or the one behind a node. -/
def treeNextElement (s : PahoTree α) : Option ℕ → Option (Option ℕ)
  | none => s.treeMinimum s.root
  | some curnode => s.treeSuccessor curnode

/-! ### Rebalancing after a removal -/

/-- A red sibling is rotated above the parent, and the sibling is another one then. -/
def siblingUp (s : PahoTree α) (curnode parent : ℕ) (sibling : Option ℕ) (which : Bool) :
    Option (PahoTree α × Option ℕ) := do
  if ← s.isRed sibling then do
    let s ← s.setRed (← sibling) false
    let s ← s.setRed parent true
    let s ← s.treeRotate parent !which
    let parent ← (← s.nodes curnode).parent
    some (s, (← s.nodes parent).child which)
  else some (s, sibling)

/-- The sibling's outer child is red: the missing black node is taken from there. -/
def borrowFar (s : PahoTree α) (parent sibling : ℕ) (which : Bool) : Option (PahoTree α × ℕ) := do
  let s ← s.setRed sibling (← s.nodes parent).red
  let s ← s.setRed parent false
  let s ← s.setRed (← (← s.nodes sibling).child which) false
  let s ← s.treeRotate parent !which
  some (s, ← s.root)

/-- The sibling has a red child, and if it is the inner one only that is rotated outwards first. -/
def borrow (s : PahoTree α) (parent sibling : ℕ) (which : Bool) : Option (PahoTree α × ℕ) := do
  let n ← s.nodes sibling
  if (← s.isRed (n.child which)) = false then do
    let s ← s.setRed (← n.child !which) false
    let s ← s.setRed sibling true
    let s ← s.treeRotate sibling which
    s.borrowFar parent (← (← s.nodes parent).child which) which
  else s.borrowFar parent sibling which

/-- The sibling is black, or null. -/
def borrowOrLift (s : PahoTree α) (parent : ℕ) (sibling : Option ℕ) (which : Bool) :
    Option (PahoTree α × ℕ) :=
  match sibling with
  | none => some (s, parent)
  | some sibling => do
    let n ← s.nodes sibling
    if (← s.isRed (n.child !which)) = false ∧ (← s.isRed (n.child which)) = false then do
      some (← s.setRed sibling true, parent)
    else s.borrow parent sibling which

/-- `TreeBARSub`: one turn of the loop of `TreeBalanceAfterRemove`. -/
def treeBARSub (s : PahoTree α) (curnode : ℕ) (which : Bool) : Option (PahoTree α × ℕ) := do
  let parent ← (← s.nodes curnode).parent
  let (s, sibling) ← s.siblingUp curnode parent ((← s.nodes parent).child which) which
  s.borrowOrLift (← (← s.nodes curnode).parent) sibling which

/-- The loop and the assignment behind it. A node without content stands for a null pointer. -/
def treeBalanceAfterRemoveLoop : ℕ → PahoTree α → ℕ → Option (PahoTree α)
  | 0, _, _ => none
  | fuel + 1, s, curnode => do
    let n ← s.nodes curnode
    if s.root ≠ some curnode ∧ n.red = false then do
      let left := (← s.nodes (← n.parent)).child false
      let isLeft := (if n.content.isSome then some curnode else none) = left
      let (s, curnode) ← s.treeBARSub curnode (decide isLeft)
      treeBalanceAfterRemoveLoop fuel s curnode
    else s.setRed curnode false

/-- `TreeBalanceAfterRemove`. -/
def treeBalanceAfterRemove (s : PahoTree α) (curnode : ℕ) : Option (PahoTree α) :=
  treeBalanceAfterRemoveLoop (s.next + 1) s curnode

/-! ### Removing -/

/-- A node with at most one child is taken out of the tree, but not freed. What is returned is the
child. -/
def unlink (s : PahoTree α) (redundant : ℕ) : Option (PahoTree α × Option ℕ) := do
  let r ← s.nodes redundant
  let curchild := r.child (decide (r.child false = none))
  let s ← s.setParentOf curchild r.parent
  some (← s.relink r.parent redundant curchild false, curchild)

/-- A black node was taken out. Where nothing took its place, a node on the stack stands in. -/
def rebalance (s : PahoTree α) (parent curchild : Option ℕ) : Option (PahoTree α) :=
  match curchild, parent with
  | some c, _ => s.treeBalanceAfterRemove c
  | none, none => some s
  | none, some p => do
    let temp := s.next
    let s := { s with
      nodes := Function.update s.nodes temp (some { zeroed with parent := some p }) }
    let s ← s.treeBalanceAfterRemove temp
    some { s with nodes := Function.update s.nodes temp none }

/-- `TreeRemoveNodeIndex`. A node with two children keeps its place and gets the content of the
next one, which goes instead. -/
def treeRemoveNode (s : PahoTree α) (curnode : ℕ) : Option (PahoTree α × Option α) := do
  let n ← s.nodes curnode
  let redundant ←
    if (n.child false).isSome ∧ (n.child true).isSome then do ← s.treeSuccessor curnode
    else some curnode
  let (s, curchild) ← s.unlink redundant
  let r ← s.nodes redundant
  let s ←
    if redundant ≠ curnode then s.setContent curnode r.content r.size
    else some s
  let s ← if r.red = false then s.rebalance r.parent curchild else some s
  let s := { s with nodes := Function.update s.nodes redundant none }
  some ({ s with size := toInt32 (s.size - n.size), count := toInt32 (s.count - 1) }, n.content)

/-- `TreeRemoveKey`, and `TreeRemove` for the key of a content. -/
def treeRemoveKey [LinearOrder κ] (key : α → κ) (s : PahoTree α) (k : κ) :
    Option (PahoTree α × Option α) := do
  match ← s.treeFind key k with
  | none => some (s, none)
  | some curnode => s.treeRemoveNode curnode

end PahoTree

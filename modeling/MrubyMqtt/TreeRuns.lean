import Mathlib.Order.Nat
import MrubyMqtt.Lib.Machine
import MrubyMqtt.TreeRemoval

/-!
# Runs of the tree

Whatever is done to a tree, one call after the other, it answers like a sorted list, no call fails
unless it needs a node and there is no memory for it, and the nodes that are allocated are those of
the tree (`run_refines`). It stays a red-black tree as long as no content is replaced in the wrong
place, and not longer (`redBlack_iff`).
-/

open Bytes ColoredTree

namespace PahoTree

variable {α κ : Type} {s : PahoTree α} {L : List ℕ} {T t : ColoredTree (TreeCell α)}

/-! ### The tree that the nodes form -/

/-- The tree below a pointer, down to some depth. -/
def shapeLoop (s : PahoTree α) : ℕ → Option ℕ → ColoredTree (TreeCell α)
  | _, none => .nil
  | 0, some _ => .nil
  | fuel + 1, some a =>
    ((s.nodes a).bind fun n ↦ n.content.map fun content ↦
      ColoredTree.node n.red (s.shapeLoop fuel (n.child false)) ⟨a, content, n.size⟩
        (s.shapeLoop fuel (n.child true))).getD .nil

/-- The tree below the root. -/
def shape (s : PahoTree α) : ColoredTree (TreeCell α) := s.shapeLoop s.next s.root

theorem shapeLoop_eq {p : Option ℕ} {fuel : ℕ} (h : Holds s.nodes p t) (hfuel : t.depth ≤ fuel) :
    s.shapeLoop fuel (ptr t) = t := by
  induction t generalizing p fuel with
  | nil => cases fuel <;> rfl
  | node red left c right ihl ihr =>
    obtain ⟨hc, hleft, hright⟩ := h
    simp only [depth] at hfuel
    obtain ⟨fuel, rfl⟩ : ∃ j, fuel = j + 1 := ⟨fuel - 1, by omega⟩
    show ((s.nodes c.addr).bind _).getD _ = _
    rw [hc]
    show ColoredTree.node red (s.shapeLoop fuel (ptr left)) c (s.shapeLoop fuel (ptr right)) = _
    rw [ihl hleft (by omega), ihr hright (by omega)]

theorem Rep.shape_eq (h : Rep s L T) : s.shape = T := by
  rw [shape, h.root]
  exact shapeLoop_eq h.holds h.depth_le

/-! ### Going through the whole tree -/

/-- The loop of `HeapScan`: the contents, from one node to the next. -/
def scanLoop (s : PahoTree α) : ℕ → Option ℕ → Option (List α)
  | 0, _ => none
  | fuel + 1, current => do
    match ← s.treeNextElement current with
    | none => some []
    | some a => do
      let content ← (← s.nodes a).content
      some (content :: (← s.scanLoop fuel (some a)))

/-- All contents, from the first node on. -/
def scan (s : PahoTree α) : Option (List α) := s.scanLoop (s.next + 1) none

/-- The node behind the first ones. -/
theorem treeNextElement_getLast {l l' : List ℕ} (h : Rep s (l ++ l') T) :
    s.treeNextElement l.getLast? = some l'.head? := by
  rcases List.eq_nil_or_concat l with rfl | ⟨l, a, rfl⟩
  · exact treeNextElement_none h
  · rw [List.concat_eq_append] at h ⊢
    rw [List.getLast?_concat]
    rw [List.append_assoc] at h
    exact treeNextElement_some h

theorem Rep.content (h : Rep s L T) {c : TreeCell α} (hc : c ∈ T.toList) :
    ∃ n, s.nodes c.addr = some n ∧ n.content = some c.content := by
  obtain ⟨l, l', hsplit⟩ := List.append_of_mem hc
  obtain ⟨path, red, left, right, rfl, -, -⟩ := exists_plug_node hsplit
  exact ⟨_, h.focus.2.1, rfl⟩

theorem Rep.split {cells cells' : List (TreeCell α)} (h : Rep s L T)
    (hcells : T.toList = cells ++ cells') :
    Rep s (cells.map TreeCell.addr ++ cells'.map TreeCell.addr) T := by
  obtain rfl := h.addrs_eq
  rwa [addrs, hcells, List.map_append] at h

theorem scanLoop_spec {cells cells' : List (TreeCell α)} (h : Rep s L T)
    (hcells : T.toList = cells ++ cells') {fuel : ℕ} (hfuel : cells'.length < fuel) :
    s.scanLoop fuel (cells.map TreeCell.addr).getLast? = some (cells'.map TreeCell.content) := by
  induction cells' generalizing cells fuel with
  | nil =>
    obtain ⟨fuel, rfl⟩ : ∃ j, fuel = j + 1 := ⟨fuel - 1, by omega⟩
    have hnext := treeNextElement_getLast (h.split hcells)
    simp only [scanLoop, Option.bind_eq_bind, hnext]
    rfl
  | cons c cells' ih =>
    obtain ⟨fuel, rfl⟩ : ∃ j, fuel = j + 1 := ⟨fuel - 1, by omega⟩
    have hnext := treeNextElement_getLast (h.split hcells)
    have hc : c ∈ T.toList := hcells ▸ List.mem_append_right _ (List.mem_cons_self ..)
    obtain ⟨n, hn, hcontent⟩ := h.content hc
    have hmore : T.toList = (cells ++ [c]) ++ cells' := by rw [hcells, List.append_cons]
    have hrest := ih hmore (Nat.lt_of_succ_lt_succ hfuel)
    rw [List.map_append, List.map_singleton, List.getLast?_concat] at hrest
    simp only [scanLoop, Option.bind_eq_bind, hnext]
    simp [hn, hcontent, hrest]

theorem scan_eq (h : Rep s L T) : s.scan = some ((items T).map Prod.fst) := by
  have hlength : T.toList.length < s.next + 1 := by
    have hL := h.length_le_next
    rw [← h.addrs_eq, addrs, List.length_map] at hL
    omega
  have hnone : T.toList = [] ++ T.toList := rfl
  rw [items, List.map_map]
  exact scanLoop_spec h hnone hlength

/-! ### Calls -/

/-- What is done to a tree. -/
inductive TreeCall (α κ : Type)
  /-- `TreeAdd`; `nodeMem` says whether there is memory for a node. -/
  | add (content : α) (size : ℤ) (nodeMem : Bool)
  /-- `TreeRemoveKey`. -/
  | removeKey (k : κ)
  /-- `TreeFind`. -/
  | find (k : κ)
  /-- `TreeNextElement`, from the first node to the last. -/
  | scan

/-- A tree, and the contents that the calls so far have returned. -/
structure TreeRun (α : Type) where
  /-- The tree. -/
  tree : PahoTree α
  /-- What each call has returned. -/
  answers : List (List α)

/-- A tree as a list of its contents with their sizes, in order. -/
def TreeRun.view (r : TreeRun α) : List (α × ℤ) × List (List α) :=
  (items r.tree.shape, r.answers)

/-- The content of the node that `TreeFind` returns. -/
def treeFindContent [LinearOrder κ] (key : α → κ) (s : PahoTree α) (k : κ) : Option (Option α) := do
  match ← s.treeFind key k with
  | none => some none
  | some a => some (← s.nodes a).content

section Compare

variable [LinearOrder κ] (key : α → κ)

/-- A call on the tree. -/
def TreeRun.step (r : TreeRun α) : TreeCall α κ → Option (TreeRun α)
  | .add content size nodeMem => do
    let (tree, replaced) ← r.tree.treeAdd key content size nodeMem
    some ⟨tree, r.answers ++ [replaced.toList]⟩
  | .removeKey k => do
    let (tree, removed) ← r.tree.treeRemoveKey key k
    some ⟨tree, r.answers ++ [removed.toList]⟩
  | .find k => do
    let found ← r.tree.treeFindContent key k
    some ⟨r.tree, r.answers ++ [found.toList]⟩
  | .scan => do
    let contents ← r.tree.scan
    some ⟨r.tree, r.answers ++ [contents]⟩

/-- The content under a key, if any. -/
def contentAt (k : κ) (l : List (α × ℤ)) : Option α :=
  (KeyedList.lookup (fun x ↦ key x.1) k l).map Prod.fst

/-- What the same call does to a sorted list. It fails where it has nowhere to put a content. -/
def listStep (l : List (α × ℤ) × List (List α)) :
    TreeCall α κ → Option (List (α × ℤ) × List (List α))
  | .add content size nodeMem =>
    if AddsTo key content nodeMem l.1 then
      some (KeyedList.place (fun x ↦ key x.1) (content, toInt32 size) l.1,
        l.2 ++ [(contentAt key (key content) l.1).toList])
    else none
  | .removeKey k =>
    some (KeyedList.remove (fun x ↦ key x.1) k l.1, l.2 ++ [(contentAt key k l.1).toList])
  | .find k => some (l.1, l.2 ++ [(contentAt key k l.1).toList])
  | .scan => some (l.1, l.2 ++ [l.1.map Prod.fst])

/-- A content is replaced at a node from which rebalancing should not start. -/
def Misplacing (r : TreeRun α) : TreeCall α κ → Prop
  | .add content _ _ => Misplaces key (key content) r.tree.shape
  | _ => False

instance decidableMisplacing (r : TreeRun α) :
    ∀ call : TreeCall α κ, Decidable (Misplacing key r call)
  | .add _ _ _ => decidableMisplaces _ _
  | .removeKey _ => instDecidableFalse
  | .find _ => instDecidableFalse
  | .scan => instDecidableFalse

/-- The machine of a tree. -/
def treeMachine : Machine (TreeRun α) (TreeCall α κ) := ⟨TreeRun.step key⟩

/-- The machine of a sorted list. -/
def listMachine : Machine (List (α × ℤ) × List (List α)) (TreeCall α κ) := ⟨listStep key⟩

end Compare

variable [LinearOrder κ] {key : α → κ}

/-- What a search returns. -/
theorem Sound.treeFind_spec (h : Sound key s L T) (k : κ) :
    s.treeFind key k = some none ∧ KeyedList.lookup (fun x ↦ key x.1) k (items T) = none ∨
      ∃ a n x, s.treeFind key k = some (some a) ∧ s.nodes a = some n ∧ n.content = some x.1 ∧
        KeyedList.lookup (fun x ↦ key x.1) k (items T) = some x := by
  have hfind : s.treeFind key k = _ := treeFind_eq h.rep
  rcases hseek : seek (toward key k) [] T with ⟨path, t⟩
  rw [hseek] at hfind
  cases h.sorted.sought hseek with
  | missing hplug hitems hplace =>
    exact .inl ⟨hfind, hitems ▸ hplace.lookup_eq⟩
  | @found red left right c hplug hitems hplace =>
    subst hplug
    refine .inr ⟨c.addr, _, (c.content, c.size), hfind, h.rep.focus.2.1, rfl, ?_⟩
    rw [hitems, hplace.lookup_eq]

theorem treeFindContent_eq (h : Sound key s L T) (k : κ) :
    s.treeFindContent key k = some (contentAt key k (items T)) := by
  rcases h.treeFind_spec k with ⟨hfind, hlookup⟩ | ⟨a, n, x, hfind, hn, hcontent, hlookup⟩
  · rw [treeFindContent, hfind, contentAt, hlookup]
    rfl
  · rw [treeFindContent, hfind, contentAt, hlookup]
    show (s.nodes a).bind _ = _
    rw [hn]
    exact congrArg some hcontent

theorem Sound.at_shape (h : Sound key s L T) : Sound key s (addrs s.shape) s.shape := by
  obtain rfl := h.rep.shape_eq
  obtain rfl := h.rep.addrs_eq
  exact h

/-- A content with a new key keeps the balance. -/
theorem Sound.treeAdd_fresh (h : Sound key s L T) (hred : RedBlack T) {content : α}
    (hnone : KeyedList.lookup (fun x ↦ key x.1) (key content) (items T) = none) (size : ℤ) :
    ∃ s', s.treeAdd key content size true = some (s', none) ∧
      Sound key s' (addrs s'.shape) s'.shape ∧ RedBlack s'.shape ∧
      items s'.shape = KeyedList.place (fun x ↦ key x.1) (content, toInt32 size) (items T) := by
  obtain ⟨s', L', T', hadd, hsound, hitems, hbalanced⟩ := treeAdd_spec h size (.inl rfl)
  obtain rfl := hsound.rep.shape_eq
  rw [hnone] at hadd
  refine ⟨s', hadd, hsound.at_shape, (hbalanced hred).2 fun hmisplaced ↦ ?_, hitems⟩
  rcases h.treeFind_spec (key content) with ⟨hfind, -⟩ | ⟨a, n, x, -, -, -, hlookup⟩
  · have hptr : ptr (seek (toward key (key content)) [] T).2 = none :=
      Option.some.inj ((treeFind_eq h.rep).symm.trans hfind)
    rw [Misplaces, hptr] at hmisplaced
    exact Bool.false_ne_true hmisplaced.1
  · cases hnone.symm.trans hlookup

theorem Sound.treeRemoveKey_eq (h : Sound key s L T) (hred : RedBlack T) (k : κ) :
    ∃ s', s.treeRemoveKey key k =
        some (s', (KeyedList.lookup (fun x ↦ key x.1) k (items T)).map Prod.fst) ∧
      Sound key s' (addrs s'.shape) s'.shape ∧ RedBlack s'.shape ∧
      items s'.shape = KeyedList.remove (fun x ↦ key x.1) k (items T) := by
  obtain ⟨s', L', T', hremove, hsound, hitems, hbalanced⟩ := treeRemoveKey_spec h k
  obtain rfl := hsound.rep.shape_eq
  exact ⟨s', hremove, hsound.at_shape, hbalanced hred, hitems⟩

theorem sound_treeInitialize : Sound key (treeInitialize : PahoTree α) [] .nil where
  rep := ⟨rfl, trivial, rfl, List.nodup_nil, nofun⟩
  sorted := List.Pairwise.nil
  others _ _ := rfl
  count := toInt32_zero.symm
  size := toInt32_zero.symm

/-- **One call** is one on the sorted list, which fails where that one does, and keeps the balance
unless it replaces a content in the wrong place. -/
theorem TreeRun.step_spec {r : TreeRun α} (h : Sound key r.tree (addrs r.tree.shape) r.tree.shape)
    (call : TreeCall α κ) :
    (r.step key call).map TreeRun.view = listStep key r.view call ∧
      ∀ r', r.step key call = some r' → Sound key r'.tree (addrs r'.tree.shape) r'.tree.shape ∧
        (RedBlack r.tree.shape → (RedBlack r'.tree.shape ↔ ¬ Misplacing key r call)) := by
  -- It is enough to say what the call leads to.
  have hdone : ∀ {r₁ : TreeRun α}, r.step key call = some r₁ →
      listStep key r.view call = some r₁.view →
      Sound key r₁.tree (addrs r₁.tree.shape) r₁.tree.shape →
      (RedBlack r.tree.shape → (RedBlack r₁.tree.shape ↔ ¬ Misplacing key r call)) →
      (r.step key call).map TreeRun.view = listStep key r.view call ∧
      ∀ r', r.step key call = some r' → Sound key r'.tree (addrs r'.tree.shape) r'.tree.shape ∧
        (RedBlack r.tree.shape → (RedBlack r'.tree.shape ↔ ¬ Misplacing key r call)) := by
    intro r₁ hstep hlist hsound hbalanced
    refine ⟨by rw [hstep, hlist]; rfl, fun r' hstep' ↦ ?_⟩
    obtain rfl : r₁ = r' := Option.some.inj (hstep.symm.trans hstep')
    exact ⟨hsound, hbalanced⟩
  cases call with
  | add content size nodeMem =>
    by_cases hadds : AddsTo key content nodeMem (items r.tree.shape)
    · obtain ⟨s', L', T', hadd, hsound, hitems, hbalanced⟩ := treeAdd_spec h size hadds
      obtain rfl := hsound.rep.shape_eq
      refine hdone (Option.bind_eq_some_iff.2 ⟨_, hadd, rfl⟩) ?_ hsound.at_shape hbalanced
      exact (if_pos hadds).trans (congrArg some (Prod.ext hitems.symm rfl))
    · have hstep : r.step key (.add content size nodeMem) = none := by
        rw [TreeRun.step, treeAdd_of_not_addsTo h size hadds]
        rfl
      have hlist : listStep key r.view (.add content size nodeMem) = none := if_neg hadds
      refine ⟨by rw [hstep, hlist]; rfl, fun r' hr' ↦ ?_⟩
      rw [hstep] at hr'
      cases hr'
  | removeKey k =>
    obtain ⟨s', L', T', hremove, hsound, hitems, hbalanced⟩ := treeRemoveKey_spec h k
    obtain rfl := hsound.rep.shape_eq
    exact hdone (Option.bind_eq_some_iff.2 ⟨_, hremove, rfl⟩)
      (congrArg some (Prod.ext hitems.symm rfl)) hsound.at_shape
      fun hred ↦ iff_of_true (hbalanced hred) id
  | find k =>
    exact hdone (Option.bind_eq_some_iff.2 ⟨_, treeFindContent_eq h k, rfl⟩) rfl h
      fun hred ↦ iff_of_true hred id
  | scan =>
    exact hdone (Option.bind_eq_some_iff.2 ⟨_, scan_eq h.rep, rfl⟩) rfl h
      fun hred ↦ iff_of_true hred id

/-- **The tree is a sorted list.** Whatever is done to a tree, it fails where a sorted list would
have nowhere to put a content, and nowhere else; each call answers as on the list; and all along the
nodes that are allocated are those of a tree with the contents of the list. -/
theorem run_refines (key : α → κ) (calls : List (TreeCall α κ)) :
    ((treeMachine key).run ⟨treeInitialize, []⟩ calls).map TreeRun.view =
        (listMachine key).run ([], []) calls ∧
      (treeMachine key).Always (fun r ↦ Sound key r.tree (addrs r.tree.shape) r.tree.shape)
        ⟨treeInitialize, []⟩ calls := by
  constructor
  · have hempty : (⟨treeInitialize, []⟩ : TreeRun α).view = ([], []) := rfl
    rw [← hempty]
    refine (treeMachine key).map_run (fun r call
      (h : Sound key r.tree (addrs r.tree.shape) r.tree.shape) ↦ ?_) sound_treeInitialize.at_shape
      calls
    obtain ⟨hview, hkeep⟩ := TreeRun.step_spec h call
    exact ⟨hview, fun r' hstep ↦ (hkeep r' hstep).1⟩
  · exact (treeMachine key).always_of_inductive
      (fun r call r' h hstep ↦ ((TreeRun.step_spec h call).2 r' hstep).1)
      sound_treeInitialize.at_shape calls

/-- **Balance.** The tree is a red-black tree all along a run exactly if no content is replaced in
the wrong place. -/
theorem redBlack_iff (key : α → κ) (calls : List (TreeCall α κ)) :
    (treeMachine key).Always (fun r ↦ RedBlack r.tree.shape) ⟨treeInitialize, []⟩ calls ↔
      (treeMachine key).EachStep (fun r call _ ↦ ¬ Misplacing key r call) ⟨treeInitialize, []⟩
        calls := by
  have hempty : RedBlack (treeInitialize : PahoTree α).shape := ⟨rfl, 0, rfl⟩
  exact (treeMachine key).always_iff_eachStep
    (fun r call r' h hstep ↦ ((TreeRun.step_spec h call).2 r' hstep).1)
    (fun r call r' h hred hstep ↦ ((TreeRun.step_spec h call).2 r' hstep).2 hred)
    sound_treeInitialize.at_shape hempty calls

/-- Six contents are enough for a wrong place. -/
example : ¬ (treeMachine id).EachStep (fun r call _ ↦ ¬ Misplacing id r call) ⟨treeInitialize, []⟩
    ([0, 1, 2, 3, 4, 5, 2].map fun k : ℕ ↦ TreeCall.add k 1 true) := by
  decide +kernel

end PahoTree

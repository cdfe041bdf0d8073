import Attos.TreeInsert

/-!
# Removal from the tree

A node with two children first swaps places with its successor. This is pointer
surgery on up to eight nodes, with a case of its own for a successor that is
the right child; in both cases the result is the old tree with the two names
exchanged (`swapWithSuccessor_renames`). After it the node has at most one
child, which takes its place (`unlink_represents`).
-/

namespace Attos

open Lib

variable {ν : Type}

namespace Tree

variable {h h' : Tree ν} {c : TreeCtx ν} {t l r s : BinaryTree ν} {p q : Option ν} {x y a b : ν}

/-! ## Facts about single nodes -/

/-- A node of the tree and what is around it. -/
theorem Represents.focus (hr : h.Represents t) (ha : a ∈ inorder t) :
    ∃ c l r, t = c.plug (.node a l r) ∧ h.Around c (some a) ∧
      h.Hangs (.node a l r) c.holeParent := by
  obtain ⟨c, l, r, rfl⟩ := TreeCtx.exists_plug ha
  obtain ⟨⟨hc, ht⟩, -⟩ := represents_plug.mp hr
  exact ⟨c, l, r, rfl, hc, ht⟩

/-- A child is in the tree and points back. -/
theorem Hangs.root (ht : h.Hangs t p) (ha : rootOf t = some a) : h.parent a = p := by
  cases t with
  | nil => cases ha
  | node b l r =>
    obtain rfl : b = a := by simpa using ha
    exact ht.1

theorem Represents.of_left (hr : h.Represents t) (ha : a ∈ inorder t) (hb : h.left a = some b) :
    b ∈ inorder t ∧ b ≠ a ∧ h.parent b = some a := by
  obtain ⟨c, l, r, rfl, -, -, hl, -, htl, -⟩ := hr.focus ha
  have hroot : rootOf l = some b := hl.symm.trans hb
  have hmem := rootOf_mem hroot
  have hn := hr.nodup
  rw [TreeCtx.inorder_plug, inorder_node] at hn ⊢
  refine ⟨by simp [hmem], ?_, htl.root hroot⟩
  rintro rfl
  simp only [List.nodup_append, List.nodup_cons, List.mem_append, List.mem_cons] at hn
  grind

theorem Represents.of_right (hr : h.Represents t) (ha : a ∈ inorder t) (hb : h.right a = some b) :
    b ∈ inorder t ∧ b ≠ a ∧ h.parent b = some a := by
  obtain ⟨c, l, r, rfl, -, -, -, hright, -, htr⟩ := hr.focus ha
  have hroot : rootOf r = some b := hright.symm.trans hb
  have hmem := rootOf_mem hroot
  have hn := hr.nodup
  rw [TreeCtx.inorder_plug, inorder_node] at hn ⊢
  refine ⟨by simp [hmem], ?_, htr.root hroot⟩
  rintro rfl
  simp only [List.nodup_append, List.nodup_cons, List.mem_append, List.mem_cons] at hn
  grind

/-- The children of a node are different. -/
theorem Represents.left_ne_right (hr : h.Represents t) (ha : a ∈ inorder t)
    (hb : h.left a = some b) : h.right a ≠ some b := by
  intro hb'
  obtain ⟨c, l, r, rfl, -, -, hl, hright, -, -⟩ := hr.focus ha
  have hmem := rootOf_mem (hl.symm.trans hb)
  have hmem' := rootOf_mem (hright.symm.trans hb')
  have hn := hr.nodup
  rw [TreeCtx.inorder_plug, inorder_node] at hn
  simp only [List.nodup_append, List.nodup_cons, List.mem_append, List.mem_cons] at hn
  grind

/-- A parent is in the tree and has the node as a child. -/
theorem Represents.of_parent (hr : h.Represents t) (hb : b ∈ inorder t) (ha : h.parent b = some a) :
    a ∈ inorder t ∧ (h.left a = some b ∨ h.right a = some b) := by
  obtain ⟨c, l, r, rfl, hc, hp, -⟩ := hr.focus hb
  rw [ha] at hp
  refine ⟨?_, ?_⟩
  · rw [TreeCtx.inorder_plug]
    have hmem := holeParent_mem hp.symm
    simp only [List.mem_append] at hmem ⊢
    tauto
  · cases c with
    | top => cases hp
    | left c d r' =>
      obtain rfl : a = d := by simpa [TreeCtx.holeParent] using hp
      exact .inl hc.2.1
    | right c d l' =>
      obtain rfl : a = d := by simpa [TreeCtx.holeParent] using hp
      exact .inr hc.2.2.1

/-- Only the root has no parent. -/
theorem Represents.root_iff (hr : h.Represents t) (hb : b ∈ inorder t) :
    h.root_ = some b ↔ h.parent b = none := by
  constructor
  · intro hroot
    exact hr.hangs.root (hr.root.symm.trans hroot)
  · intro hnone
    obtain ⟨c, l, r, rfl, hc, hp, -⟩ := hr.focus hb
    cases c with
    | top => exact hc
    | left c d r' => exact absurd (hp.symm.trans hnone) (by simp [TreeCtx.holeParent])
    | right c d l' => exact absurd (hp.symm.trans hnone) (by simp [TreeCtx.holeParent])

/-! ## Renaming -/

/-- In `h'` the node `σ a` has the pointers that `a` has in `h`, renamed. -/
def RenamedAt (σ : Equiv.Perm ν) (h h' : Tree ν) (a : ν) : Prop :=
  h'.parent (σ a) = (h.parent a).map σ ∧ h'.left (σ a) = (h.left a).map σ ∧
    h'.right (σ a) = (h.right a).map σ

theorem Hangs.rename {σ : Equiv.Perm ν} (hs : ∀ a ∈ inorder t, RenamedAt σ h h' a)
    (ht : h.Hangs t p) : h'.Hangs (t.map σ) (p.map σ) := by
  induction t generalizing p with
  | nil => trivial
  | node a l r ihl ihr =>
    obtain ⟨hp, hl, hr, htl, htr⟩ := ht
    obtain ⟨hsp, hsl, hsr⟩ := hs a (by simp)
    refine ⟨hsp.trans (by rw [hp]), hsl.trans ?_, hsr.trans ?_, ihl ?_ htl, ihr ?_ htr⟩
    · rw [hl, rootOf_map]
    · rw [hr, rootOf_map]
    · exact fun b hb => hs b (by simp [hb])
    · exact fun b hb => hs b (by simp [hb])

/-- **A renamed heap represents the renamed tree.** -/
theorem Represents.rename {σ : Equiv.Perm ν} (hr : h.Represents t)
    (hs : ∀ a ∈ inorder t, RenamedAt σ h h' a) (hroot : h'.root_ = h.root_.map σ) :
    h'.Represents (t.map σ) := by
  refine ⟨?_, Hangs.rename hs hr.hangs, ?_⟩
  · rw [hroot, hr.root, rootOf_map]
  · rw [inorder_map]
    exact hr.nodup.map σ.injective

/-! ## Exchanging a node and its successor -/

variable [DecidableEq ν]

/-- Only the pointer from the parent of `x` to `x` changes. -/
structure Redirected (h h' : Tree ν) (x : ν) (q : Option ν) : Prop where
  /-- no parent pointer changes -/
  parent : h'.parent = h.parent
  /-- nor does the root pointer -/
  root : h'.root_ = h.root_
  /-- a left child that is `x` becomes `q` -/
  left : ∀ a, h'.left a = if h.parent x = some a ∧ h.left a = some x then q else h.left a
  /-- otherwise a right child that is `x` becomes `q` -/
  right : ∀ a, h'.right a = if h.parent x = some a ∧ h.left a ≠ some x then q else h.right a

/-- **`update_parent_of`** redirects the pointer to a node that is a child of
its parent. -/
theorem updateParentOf_redirected (q : Option ν)
    (hor : ∀ p, h.parent x = some p → h.left p = some x ∨ h.right p = some x) :
    ∃ h', h.updateParentOf x q = .done h' ∧ Redirected h h' x q := by
  rw [updateParentOf]
  cases hp : h.parent x with
  | none => exact ⟨h, rfl, rfl, rfl, by simp [hp], by simp [hp]⟩
  | some p =>
    simp only
    split
    · rename_i hl
      refine ⟨_, rfl, rfl, rfl, fun a => ?_, fun a => ?_⟩
      · simp only [setLeft_left, Function.update_apply]
        grind
      · simp only [setLeft_right]
        grind
    · rename_i hl
      rw [Outcome.require_pos ((hor p hp).resolve_left hl)]
      refine ⟨_, rfl, rfl, rfl, fun a => ?_, fun a => ?_⟩
      · simp only [setRight_left]
        grind
      · simp only [setRight_right, Function.update_apply]
        grind

theorem setParentOf_parent (n : Option ν) :
    (h.setParentOf n p).parent a = if n = some a then p else h.parent a := by
  cases n with
  | none => simp [setParentOf]
  | some n => simp [setParentOf, Function.update_apply, eq_comm]

@[simp] theorem setParentOf_left (n : Option ν) : (h.setParentOf n p).left = h.left := by
  cases n <;> rfl

@[simp] theorem setParentOf_right (n : Option ν) : (h.setParentOf n p).right = h.right := by
  cases n <;> rfl

@[simp] theorem setParentOf_root (n : Option ν) : (h.setParentOf n p).root_ = h.root_ := by
  cases n <;> rfl

theorem reparentChildNodes_parent (n : ν) :
    (h.reparentChildNodes n).parent a =
      if h.left n = some a ∨ h.right n = some a then some n else h.parent a := by
  simp only [reparentChildNodes, setParentOf_parent, setParentOf_right]
  grind

@[simp] theorem reparentChildNodes_left (n : ν) : (h.reparentChildNodes n).left = h.left := by
  simp [reparentChildNodes]

@[simp] theorem reparentChildNodes_right (n : ν) : (h.reparentChildNodes n).right = h.right := by
  simp [reparentChildNodes]

@[simp] theorem reparentChildNodes_root (n : ν) : (h.reparentChildNodes n).root_ = h.root_ := by
  simp [reparentChildNodes]

/-- The two nodes have exchanged their places, but for the parent pointers of
their children. -/
structure Swapped (h h' : Tree ν) (t : BinaryTree ν) (x y : ν) : Prop where
  /-- the root pointer is not yet changed -/
  root : h'.root_ = h.root_
  /-- the left children are renamed -/
  left : ∀ a ∈ inorder t, h'.left (Equiv.swap x y a) = (h.left a).map (Equiv.swap x y)
  /-- the right children are renamed -/
  right : ∀ a ∈ inorder t, h'.right (Equiv.swap x y a) = (h.right a).map (Equiv.swap x y)
  /-- so are the parents, of nodes that are not children of the two -/
  parent : ∀ a ∈ inorder t, h.parent a ≠ some x → h.parent a ≠ some y →
    h'.parent (Equiv.swap x y a) = h.parent a


/-- Every node of the tree that points to `x` points to `q` instead. -/
theorem Redirected.of_mem (hd : Redirected h h' x q) (hr : h.Represents t) (hx : x ∈ inorder t)
    (ha : a ∈ inorder t) :
    h'.left a = (if h.left a = some x then q else h.left a) ∧
      h'.right a = if h.right a = some x then q else h.right a := by
  rw [hd.left, hd.right]
  have hleft := @Represents.of_left _ h t a x hr ha
  have hright := @Represents.of_right _ h t a x hr ha
  have hchildren := @Represents.left_ne_right _ h t a x hr ha
  have hparent := @Represents.of_parent _ h t a x hr hx
  constructor <;> grind

/-- The case of a successor that is the right child. -/
theorem swapWithChild_swapped (hr : h.Represents t) (hx : x ∈ inorder t)
    (hy : h.right x = some y) (hly : h.left y = none) :
    ∃ h', h.swapWithChild x y = .done h' ∧ Swapped h h' t x y := by
  obtain ⟨hyt, hyx, hpy⟩ := hr.of_right hx hy
  obtain ⟨h₁, hrun, hd⟩ := updateParentOf_redirected (some y)
    fun p hp => (hr.of_parent hx hp).2
  have hleft := @Represents.of_left _ h t
  have hright := @Represents.of_right _ h t
  have hchildren := @Represents.left_ne_right _ h t
  have hmem : ∀ a ∈ inorder t, h₁.left a = (if h.left a = some x then some y else h.left a) ∧
      h₁.right a = if h.right a = some x then some y else h.right a :=
    fun a ha => hd.of_mem hr hx ha
  refine ⟨(((h₁.setParent y (h₁.parent x)).swapLeft x y).setRight x (h₁.right y)).setRight y
    (some x), ?_, ?_, ?_, ?_, ?_⟩
  · simp only [swapWithChild, Outcome.require_pos hpy, hrun, Outcome.done_bind, Outcome.pure_eq]
    rfl
  · exact hd.root
  · intro a ha
    simp only [setRight_left, swapLeft, setLeft_left, setParent_left, Function.update_apply,
      Equiv.swap_apply_def]
    cases hla : h.left a <;> grind
  · intro a ha
    simp only [setRight_right, swapLeft, setLeft_right, setParent_right, Function.update_apply,
      Equiv.swap_apply_def]
    cases hla : h.right a <;> grind
  · intro a ha hpx hpy
    have hp := hd.parent
    simp only [setRight_parent, swapLeft, setLeft_parent, setParent_parent, Function.update_apply,
      Equiv.swap_apply_def]
    grind

/-- The case of a successor further down: no parent and child, and no siblings. -/
theorem swapWithDescendant_swapped (hr : h.Represents t) (hx : x ∈ inorder t) (hy : y ∈ inorder t)
    (hxy : x ≠ y) (hpx : h.parent x ≠ some y) (hpy : h.parent y ≠ some x)
    (hne : ∀ p, h.parent x = some p → h.parent y ≠ some p) :
    ∃ h', h.swapWithDescendant x y = .done h' ∧ Swapped h h' t x y := by
  obtain ⟨h₁, hrun₁, hd₁⟩ := updateParentOf_redirected (some x)
    fun p hp => (hr.of_parent hy hp).2
  have hleft := @Represents.of_left _ h t
  have hright := @Represents.of_right _ h t
  have hparent := @Represents.of_parent _ h t
  have hchildren := @Represents.left_ne_right _ h t
  have hp₁ := hd₁.parent
  have hl₁ := hd₁.left
  have hr₁ := hd₁.right
  have hor : ∀ p, h₁.parent x = some p → h₁.left p = some x ∨ h₁.right p = some x := by
    intro p hp
    rw [hp₁] at hp
    grind
  obtain ⟨h₂, hrun₂, hp₂, hroot₂, hl₂, hr₂⟩ := updateParentOf_redirected (some y) hor
  have hlx : h.left x ≠ some y := fun hl => hpy (hleft hr hx hl).2.2
  -- the two writes rename the pointers to children
  have hlmem : ∀ a ∈ inorder t, h₂.left a = (h.left a).map (Equiv.swap x y) := by
    intro a ha
    cases hla : h.left a with
    | none => grind
    | some b =>
      rw [Option.map_some, Equiv.swap_apply_def]
      grind
  have hrmem : ∀ a ∈ inorder t, h₂.right a = (h.right a).map (Equiv.swap x y) := by
    intro a ha
    cases hla : h.right a with
    | none => grind
    | some b =>
      rw [Option.map_some, Equiv.swap_apply_def]
      grind
  refine ⟨((h₂.swapLeft x y).swapRight x y).swapParent x y, ?_, ?_, ?_, ?_, ?_⟩
  · simp only [swapWithDescendant, Outcome.require_pos hlx, Outcome.require_pos hpx, hrun₁, hrun₂,
      Outcome.done_bind, Outcome.pure_eq]
  · exact hroot₂.trans hd₁.root
  · intro a ha
    rw [← hlmem a ha]
    simp only [swapParent, setParent_left, swapRight, setRight_left, swapLeft, setLeft_left,
      Function.update_apply, Equiv.swap_apply_def]
    grind
  · intro a ha
    rw [← hrmem a ha]
    simp only [swapParent, setParent_right, swapRight, setRight_right, swapLeft, setLeft_right,
      Function.update_apply, Equiv.swap_apply_def]
    grind
  · intro a ha hpx hpy
    simp only [swapParent, setParent_parent, swapRight, setRight_parent, swapLeft, setLeft_parent,
      Function.update_apply, Equiv.swap_apply_def]
    grind

/-- Once their children point to them, everything is renamed. -/
theorem Swapped.renamedAt (hs : Swapped h h' t x y) (hr : h.Represents t) (hx : x ∈ inorder t)
    (hy : y ∈ inorder t) (ha : a ∈ inorder t) :
    RenamedAt (Equiv.swap x y) h ((h'.reparentChildNodes x).reparentChildNodes y) a := by
  have hinj : ∀ q : Option ν, q.map (Equiv.swap x y) = some (Equiv.swap x y a) ↔ q = some a := by
    intro q
    cases q <;> simp
  have hlx := hs.left x hx
  have hrx := hs.right x hx
  have hly := hs.left y hy
  have hry := hs.right y hy
  rw [Equiv.swap_apply_left] at hlx hrx
  rw [Equiv.swap_apply_right] at hly hry
  refine ⟨?_, ?_, ?_⟩
  · have hp := hs.parent a ha
    have hof := fun b => @Represents.of_parent _ h t b a hr ha
    have hleft := fun b => @Represents.of_left _ h t b a hr
    have hright := fun b => @Represents.of_right _ h t b a hr
    simp only [reparentChildNodes_parent, reparentChildNodes_left, reparentChildNodes_right, hlx,
      hrx, hly, hry, hinj]
    cases hpa : h.parent a with
    | none => grind
    | some b =>
      rw [Option.map_some, Equiv.swap_apply_def]
      grind
  · simpa using hs.left a ha
  · simpa using hs.right a ha

/-- **Swapping a node with its successor renames the tree.** -/
theorem swapWithSuccessor_renames (hr : h.Represents t) (hx : x ∈ inorder t) (hy : y ∈ inorder t)
    (hxy : x ≠ y) (hly : h.left y = none) (hpy : h.parent y ≠ none)
    (hpar : h.right x = some y ∨ h.parent x ≠ some y ∧ h.parent y ≠ some x ∧
      ∀ p, h.parent x = some p → h.parent y ≠ some p) :
    ∃ h', h.swapWithSuccessor x y = .done h' ∧ h'.Represents (t.map (Equiv.swap x y)) ∧
      ∀ a ∈ inorder t, RenamedAt (Equiv.swap x y) h h' a := by
  have hplaces : ∃ h', h.swapPlaces x y = .done h' ∧ Swapped h h' t x y := by
    rw [swapPlaces]
    split
    · rename_i hry
      exact swapWithChild_swapped hr hx hry hly
    · rename_i hry
      obtain ⟨hpx, hpy, hne⟩ := hpar.resolve_left hry
      exact swapWithDescendant_swapped hr hx hy hxy hpx hpy hne
  obtain ⟨h₁, hrun, hs⟩ := hplaces
  have hren : ∀ a ∈ inorder t,
      RenamedAt (Equiv.swap x y) h ((h₁.reparentChildNodes x).reparentChildNodes y) a :=
    fun a ha => hs.renamedAt hr hx hy ha
  have hroot : ((h₁.reparentChildNodes x).reparentChildNodes y).root_ = h.root_ := by
    rw [reparentChildNodes_root, reparentChildNodes_root, hs.root]
  have hyroot : h.root_ ≠ some y := fun hy' => hpy ((hr.root_iff hy).mp hy')
  by_cases hrx : h.root_ = some x
  · refine ⟨{ (h₁.reparentChildNodes x).reparentChildNodes y with root_ := some y }, ?_,
      hr.rename hren (by simp [hrx]), hren⟩
    simp only [swapWithSuccessor, hrun, Outcome.done_bind, Outcome.pure_eq, hroot, if_pos hrx]
  · refine ⟨(h₁.reparentChildNodes x).reparentChildNodes y, ?_, hr.rename hren ?_, hren⟩
    · simp only [swapWithSuccessor, hrun, Outcome.done_bind, Outcome.pure_eq, hroot, if_neg hrx]
    · rw [hroot]
      cases hroot' : h.root_ with
      | none => rfl
      | some z =>
        have hzx : z ≠ x := fun hz => hrx (hroot'.trans (by rw [hz]))
        have hzy : z ≠ y := fun hz => hyroot (hroot'.trans (by rw [hz]))
        rw [Option.map_some, Equiv.swap_apply_of_ne_of_ne hzx hzy]

/-! ## The minimum of a subtree -/

omit [DecidableEq ν] in
/-- **`minimum_node`** finds the leftmost node. It is the node it starts from or
has a parent in the subtree. -/
theorem minimumLoop_computes (ht : h.Hangs (.node a l r) p) (c : TreeCtx ν) :
    ∃ (c' : TreeCtx ν) (y : ν) (s : BinaryTree ν),
      c.plug (.node a l r) = c'.plug (.node y .nil s) ∧ c'.before = c.before ∧
      (y = a ∧ c'.holeParent = c.holeParent ∨ ∃ p ∈ inorder (.node a l r), c'.holeParent = some p) ∧
      Computes (fun fuel => minimumLoop fuel h a) (some y) := by
  induction l generalizing a r p c with
  | nil =>
    refine ⟨c, a, r, rfl, rfl, .inl ⟨rfl, rfl⟩, .step rfl (fun fuel => ?_) (.of_done fun _ => rfl)⟩
    rw [minimumLoop, ht.2.1]
    rfl
  | node b l r' ihl _ =>
    obtain ⟨c', y, s, hplug, hbefore, hpar, hcomp⟩ := ihl ht.2.2.2.1 (c.left a r)
    refine ⟨c', y, s, hplug, hbefore, .inr ?_, .step rfl (fun fuel => ?_) hcomp⟩
    · rcases hpar with ⟨-, hpar⟩ | ⟨p, hp, hpar⟩
      · exact ⟨a, by simp, hpar⟩
      · refine ⟨p, ?_, hpar⟩
        rw [inorder_node]
        exact List.mem_append_left _ hp
    · rw [minimumLoop, ht.2.1]
      rfl

/-! ## Unlinking a node with at most one child -/

omit [DecidableEq ν] in
/-- The root pointer points to a node around a hole that is not the root. -/
theorem Around.root_mem (hc : h.Around c q) : c = .top ∧ h.root_ = q ∨
    ∃ b ∈ c.before ++ c.after, h.root_ = some b := by
  induction c generalizing q with
  | top => exact .inl ⟨rfl, hc⟩
  | left c a r ih =>
    right
    rcases ih hc.2.2.2.2 with ⟨-, hroot⟩ | ⟨b, hb, hroot⟩
    · exact ⟨a, by simp [TreeCtx.after], hroot⟩
    · refine ⟨b, ?_, hroot⟩
      simp only [TreeCtx.before, TreeCtx.after, List.mem_append, List.mem_cons] at hb ⊢
      tauto
  | right c a l ih =>
    right
    rcases ih hc.2.2.2.2 with ⟨-, hroot⟩ | ⟨b, hb, hroot⟩
    · exact ⟨a, by simp [TreeCtx.before], hroot⟩
    · refine ⟨b, ?_, hroot⟩
      simp only [TreeCtx.before, TreeCtx.after, List.mem_append, List.mem_cons] at hb ⊢
      tauto

/-- The writes of `unlink` to a node in a hole: the link of the hole, the parent
of the replacement and the parent of the node. -/
theorem unlink_eq (hc : h.Around c (some x)) (hx : x ∉ c.before ++ c.after)
    (hp : h.parent x = c.holeParent) (hl : h.left x = none) (hr : h.right x = none) :
    h.unlink x q = .done
      (((h.store (holeLink c) q).setParentOf q c.holeParent).setParent x none) := by
  have hroot : c ≠ .top → h.root_ ≠ some x := by
    intro htop hroot
    rcases hc.root_mem with ⟨hctop, -⟩ | ⟨b, hb, hb'⟩
    · exact htop hctop
    · rw [hroot] at hb'
      cases hb'
      exact hx hb
  simp only [unlink, Outcome.require_pos hl, Outcome.require_pos hr, Outcome.done_bind,
    Outcome.pure_eq, updateParentOf, hp]
  cases c with
  | top =>
    have hroot' : h.root_ = some x := hc
    simp only [TreeCtx.holeParent, hp, Outcome.done_bind, setParentOf_root, hroot', if_true]
    cases q <;> rfl
  | left c d r =>
    have hd : h.left d = some x := hc.2.1
    simp only [TreeCtx.holeParent, if_pos hd, Outcome.done_bind, setParentOf_root, setLeft_root,
      if_neg (hroot (by simp)), setLeft_parent, hp]
    rfl
  | right c d l =>
    have hd : h.right d = some x := hc.2.2.1
    have hd' : h.left d ≠ some x := by
      intro hl'
      refine hx (List.mem_append_left _ ?_)
      have hmem := rootOf_mem (hc.2.1.symm.trans hl')
      simp [TreeCtx.before, hmem]
    simp only [TreeCtx.holeParent, if_neg hd', Outcome.require_pos hd, Outcome.done_bind,
      setParentOf_root, setRight_root, if_neg (hroot (by simp)), setRight_parent, hp]
    rfl

/-- A subtree whose root gets a new parent hangs there. -/
theorem Hangs.reparent (ht : h.Hangs t p) (hn : (inorder t).Nodup) :
    (h.setParentOf (rootOf t) q).Hangs t q := by
  cases t with
  | nil => trivial
  | node a l r =>
    obtain ⟨-, hl, hr, htl, htr⟩ := ht
    rw [inorder_node, List.nodup_append, List.nodup_cons] at hn
    refine ⟨Function.update_self .., hl, hr, htl.congr fun b hb => ?_, htr.congr fun b hb => ?_⟩
    · exact sameAt_setParent (hn.2.2 b hb a (by simp))
    · refine sameAt_setParent ?_
      rintro rfl
      exact hn.2.1.1 hb

theorem sameAt_setParentOf (ha : q ≠ some a) : SameAt h (h.setParentOf q p) a := by
  cases q with
  | none => exact ⟨rfl, rfl, rfl⟩
  | some n => exact sameAt_setParent fun han => ha (by rw [han])

/-- **After `unlink` the child of the node hangs in its place**, and the node is
in no tree. -/
theorem unlink_represents (hc : h.Around c (some x)) (hs : h.Hangs s p)
    (hp : h.parent x = c.holeParent) (hl : h.left x = none) (hr : h.right x = none)
    (hx : x ∉ c.before ++ inorder s ++ c.after) (hn : (c.before ++ inorder s ++ c.after).Nodup) :
    ∃ h', h.unlink x (rootOf s) = .done h' ∧ h'.Represents (c.plug s) ∧ h'.Detached x := by
  have hxc : x ∉ c.before ++ c.after := by
    simp only [List.mem_append] at hx ⊢
    tauto
  have hxs : x ∉ inorder s := by
    simp only [List.mem_append] at hx
    tauto
  have hcn : (c.before ++ c.after).Nodup := by
    simp only [List.nodup_append, List.mem_append] at hn ⊢
    grind
  have hsn : (inorder s).Nodup := by
    simp only [List.nodup_append] at hn
    exact hn.1.2.1
  have hdisj : ∀ b ∈ c.before ++ c.after, b ∉ inorder s := by
    simp only [List.nodup_append, List.mem_append] at hn ⊢
    grind
  have hown : c.holeParent ≠ some x := fun hp' => hxc (holeParent_mem hp')
  refine ⟨_, unlink_eq hc hxc hp hl hr, represents_plug.mpr ⟨⟨?_, ?_⟩, hn⟩, ?_, ?_, ?_⟩
  · refine (hc.store hcn).congr (fun b hb => ?_) (setParentOf_root _)
    have hbs : rootOf s ≠ some b := fun hroot => hdisj b hb (rootOf_mem hroot)
    have hbx : b ≠ x := fun hbx => hxc (hbx ▸ hb)
    exact (sameAt_setParentOf hbs).trans (sameAt_setParent hbx)
  · have hstore : (h.store (holeLink c) (rootOf s)).Hangs s p :=
      hs.congr fun b hb => sameAt_store fun hp' => hdisj b (holeParent_mem hp') hb
    refine (hstore.reparent hsn).congr fun b hb => sameAt_setParent ?_
    rintro rfl
    exact hxs hb
  · exact Function.update_self ..
  · rw [setParent_left, setParentOf_left, (sameAt_store hown).2.1, hl]
  · rw [setParent_right, setParentOf_right, (sameAt_store hown).2.2, hr]

/-! ## Removal -/

/-- Erasing an element that occurs once. -/
theorem erase_middle {l₁ l₂ : List ν} (hx : x ∉ l₁) : (l₁ ++ x :: l₂).erase x = l₁ ++ l₂ := by
  rw [List.erase_append_right _ hx, List.erase_cons_head]

/-- A node with at most one child is cut off from it and unlinked. -/
theorem removeLoop_represents (hr : h.Represents t) (hx : x ∈ inorder t)
    (hchild : h.left x = none ∨ h.right x = none) :
    ∃ h₁ q h' t', (∀ fuel, h.removeLoop x (fuel + 1) = .done (h₁, q)) ∧
      h₁.unlink x q = .done h' ∧ h'.Represents t' ∧ inorder t' = (inorder t).erase x ∧
      h'.Detached x := by
  obtain ⟨c, l, r, rfl, hc, hp, hl, hright, htl, htr⟩ := hr.focus hx
  have hn := hr.nodup
  rw [TreeCtx.inorder_plug, inorder_node] at hn ⊢
  have hxmem : x ∉ c.before ∧ x ∉ inorder l ∧ x ∉ inorder r ∧ x ∉ c.after := by
    simp only [List.nodup_append, List.nodup_cons, List.mem_append, List.mem_cons] at hn
    grind
  obtain ⟨hxb, hxl, hxr, hxa⟩ := hxmem
  have hxc : ∀ b ∈ c.before ++ c.after, b ≠ x := by
    rintro b hb rfl
    simp only [List.mem_append] at hb
    tauto
  by_cases hleft : rootOf l = none
  · -- the right child takes the place of the node
    rw [rootOf_eq_none] at hleft
    subst hleft
    have hrest : c.before ++ (inorder .nil ++ x :: inorder r) ++ c.after =
        c.before ++ x :: (inorder r ++ c.after) := by simp
    rw [hrest] at hn ⊢
    obtain ⟨h', hrun, hrep, hdet⟩ := @unlink_represents _ (h.setRight x none) c r (some x) x _
      (hc.congr (fun b hb => sameAt_setRight (hxc b hb)) (setRight_root h x none))
      (htr.congr fun b hb => sameAt_setRight fun hbx => hxr (hbx ▸ hb)) hp hl
      (Function.update_self ..) (by simp [hxb, hxr, hxa])
      (by
        rw [List.append_assoc]
        exact (List.nodup_cons.mp (List.nodup_middle.mp hn)).2)
    refine ⟨h.setRight x none, rootOf r, h', c.plug r, fun fuel => ?_, hrun, hrep, ?_, hdet⟩
    · rw [removeLoop, hl, hright]
      cases r with
      | nil =>
        have hsame : h.setRight x none = h := by
          rw [setRight, Function.update_eq_self_iff.mpr hright.symm]
        simp [hsame]
      | node b rl rr => rfl
    · rw [TreeCtx.inorder_plug, erase_middle hxb, List.append_assoc]
  · -- there is no right child: the left child does
    have hnone : rootOf r = none := by
      rcases hchild with hchild | hchild
      · exact absurd (hl.symm.trans hchild) hleft
      · exact hright.symm.trans hchild
    rw [rootOf_eq_none] at hnone
    subst hnone
    have hrest : c.before ++ (inorder l ++ x :: inorder .nil) ++ c.after =
        (c.before ++ inorder l) ++ x :: c.after := by simp
    rw [hrest] at hn ⊢
    obtain ⟨h', hrun, hrep, hdet⟩ := @unlink_represents _ (h.setLeft x none) c l (some x) x _
      (hc.congr (fun b hb => sameAt_setLeft (hxc b hb)) (setLeft_root h x none))
      (htl.congr fun b hb => sameAt_setLeft fun hbx => hxl (hbx ▸ hb)) hp
      (Function.update_self ..) hright (by simp [hxb, hxl, hxa])
      (List.nodup_cons.mp (List.nodup_middle.mp hn)).2
    refine ⟨h.setLeft x none, rootOf l, h', c.plug l, fun fuel => ?_, hrun, hrep, ?_, hdet⟩
    · rw [removeLoop, hl, hright]
      cases l with
      | nil => exact absurd rfl hleft
      | node b ll lr => rfl
    · rw [TreeCtx.inorder_plug, erase_middle (by simp [hxb, hxl])]

/-- The sequence without `x` is the same before and after it is exchanged with
its successor. -/
theorem erase_map_swap {l₁ l₂ : List ν} (hn : (l₁ ++ x :: y :: l₂).Nodup) :
    ((l₁ ++ x :: y :: l₂).map (Equiv.swap x y)).erase x = (l₁ ++ x :: y :: l₂).erase x := by
  have hid : ∀ l : List ν, x ∉ l → y ∉ l → l.map (Equiv.swap x y) = l := by
    intro l hx hy
    refine List.map_congr_left (fun a ha => ?_) |>.trans (List.map_id l)
    exact Equiv.swap_apply_of_ne_of_ne (fun hax => hx (hax ▸ ha)) fun hay => hy (hay ▸ ha)
  simp only [List.nodup_append, List.nodup_cons, List.mem_cons] at hn
  have hx₁ : x ∉ l₁ := fun h => hn.2.2 x h x (.inl rfl) rfl
  have hy₁ : y ∉ l₁ := fun h => hn.2.2 y h y (.inr (.inl rfl)) rfl
  have hx₂ : x ∉ l₂ := fun h => hn.2.1.1 (.inr h)
  have hxy : x ≠ y := fun h => hn.2.1.1 (.inl h)
  rw [List.map_append, List.map_cons, List.map_cons, Equiv.swap_apply_left, Equiv.swap_apply_right,
    hid l₁ hx₁ hy₁, hid l₂ hx₂ hn.2.1.2.1, erase_middle hx₁]
  have hcons : l₁ ++ y :: x :: l₂ = (l₁ ++ [y]) ++ x :: l₂ := by simp
  rw [hcons, erase_middle (by simp [hx₁, hxy])]
  simp

/-- What is known of the successor of a node with two children. -/
structure Successor (h : Tree ν) (t : BinaryTree ν) (x y : ν) : Prop where
  /-- it is in the tree -/
  mem : y ∈ inorder t
  /-- it is another node -/
  ne : x ≠ y
  /-- it has no left child -/
  left : h.left y = none
  /-- it has a parent -/
  parent : h.parent y ≠ none
  /-- it is the right child, or no relative -/
  apart : h.right x = some y ∨ h.parent x ≠ some y ∧ h.parent y ≠ some x ∧
    ∀ p, h.parent x = some p → h.parent y ≠ some p
  /-- it comes next -/
  next : ∃ l₁ l₂, inorder t = l₁ ++ x :: y :: l₂

omit [DecidableEq ν] in
/-- The leftmost node of the right subtree is the successor. -/
theorem Represents.successor {rx : ν} (hr : h.Represents t) (hx : x ∈ inorder t)
    (hrx : h.right x = some rx) :
    ∃ y, Successor h t x y ∧ Computes (fun fuel => minimumLoop fuel h rx) (some y) := by
  obtain ⟨c, l, r, rfl, hc, hp, hl, hright, htl, htr⟩ := hr.focus hx
  obtain ⟨b, rl, rr, rfl⟩ : ∃ b rl rr, r = .node b rl rr := by
    cases r with
    | nil => cases hright.symm.trans hrx
    | node b rl rr => exact ⟨b, rl, rr, rfl⟩
  obtain rfl : b = rx := by simpa using hright.symm.trans hrx
  obtain ⟨c', y, s, hplug, hbefore, hpar, hcomp⟩ := minimumLoop_computes htr (c.right x l)
  rw [TreeCtx.plug] at hplug
  have hr' := hr
  rw [hplug] at hr'
  obtain ⟨⟨hc', hpy, hly, hry, -⟩, hn'⟩ := represents_plug.mp hr'
  have hord : inorder (c.plug (.node x l (.node b rl rr))) =
      (c.before ++ inorder l) ++ x :: y :: (inorder s ++ c'.after) := by
    rw [hplug, TreeCtx.inorder_plug, hbefore, TreeCtx.before]
    simp
  have hy : y ∈ inorder (c.plug (.node x l (.node b rl rr))) := by simp [hord]
  have hn := hr.nodup
  have hxy : x ≠ y := by
    rw [hord] at hn
    simp only [List.nodup_append, List.nodup_cons, List.mem_cons] at hn
    exact fun hxy => hn.2.1.1 (.inl hxy)
  have hparent : ∃ p, h.parent y = some p := by
    rcases hpar with ⟨-, hpar⟩ | ⟨p, -, hpar⟩
    · exact ⟨x, hpy.trans hpar⟩
    · exact ⟨p, hpy.trans hpar⟩
  refine ⟨y, ⟨hy, hxy, hly, ?_, ?_, _, _, hord⟩, hcomp⟩
  · obtain ⟨p, hp⟩ := hparent
    simp [hp]
  · rcases hpar with ⟨rfl, -⟩ | ⟨p, hpmem, hpar⟩
    · exact .inl hrx
    right
    rw [TreeCtx.inorder_plug, inorder_node] at hn
    have hpc : p ∉ c.before ++ c.after ∧ p ≠ x := by
      simp only [List.nodup_append, List.nodup_cons, List.mem_append, List.mem_cons] at hn hpmem ⊢
      grind
    rw [hpy, hpar]
    refine ⟨fun hpx => ?_, by simp [hpc.2], fun q hq hqp => ?_⟩
    · -- the node comes before its successor, whose children come after it
      rcases (hr.of_parent hx hpx).2 with hxl | hxr
      · simp [hly] at hxl
      · have hxs := rootOf_mem (hry.symm.trans hxr)
        have hxb : x ∈ c'.before := by simp [hbefore, TreeCtx.before]
        simp only [List.nodup_append, inorder_node, List.mem_append, List.mem_cons] at hn'
        exact hn'.1.2.2 x hxb x (.inr (.inr hxs)) rfl
    · obtain rfl : p = q := by simpa using hqp
      exact hpc.1 (holeParent_mem (hp.symm.trans hq))

/-- **`remove` takes exactly the node out of the sequence**, and leaves it in no
tree. -/
theorem Represents.remove (hr : h.Represents t) (hx : x ∈ inorder t) :
    ∃ h' t', Computes (fun fuel => h.remove fuel x) h' ∧ h'.Represents t' ∧
      inorder t' = (inorder t).erase x ∧ h'.Detached x := by
  rcases hlx : h.left x with _ | lx
  · obtain ⟨h₁, q, h', t', hloop, hunlink, hrep, hord, hdet⟩ :=
      removeLoop_represents hr hx (.inl hlx)
    refine ⟨h', t', .step rfl (fun fuel => ?_) (.of_done fun _ => rfl), hrep, hord, hdet⟩
    simp only [Tree.remove, hloop, Outcome.done_bind, hunlink]
  rcases hrx : h.right x with _ | rx
  · obtain ⟨h₁, q, h', t', hloop, hunlink, hrep, hord, hdet⟩ :=
      removeLoop_represents hr hx (.inr hrx)
    refine ⟨h', t', .step rfl (fun fuel => ?_) (.of_done fun _ => rfl), hrep, hord, hdet⟩
    simp only [Tree.remove, hloop, Outcome.done_bind, hunlink]
  -- two children: swap places with the successor, which leaves at most one
  obtain ⟨y, hs, hmin⟩ := hr.successor hx hrx
  obtain ⟨h₁, hswap, hr₁, hren⟩ :=
    swapWithSuccessor_renames hr hx hs.mem hs.ne hs.left hs.parent hs.apart
  have hx₁ : x ∈ inorder (t.map (Equiv.swap x y)) := by
    rw [inorder_map]
    exact List.mem_map.mpr ⟨y, hs.mem, Equiv.swap_apply_right x y⟩
  have hlx₁ : h₁.left x = none := by
    have hly := (hren y hs.mem).2.1
    rwa [Equiv.swap_apply_right, hs.left] at hly
  obtain ⟨h₂, q, h', t', hloop, hunlink, hrep, hord, hdet⟩ :=
    removeLoop_represents hr₁ hx₁ (.inl hlx₁)
  refine ⟨h', t', ?_, hrep, ?_, hdet⟩
  · have hloop₁ : Computes (fun fuel => h₁.removeLoop x fuel) (h₂, q) :=
      .step rfl hloop (.of_done fun _ => rfl)
    have hloop₀ : Computes (fun fuel => h.removeLoop x fuel) (h₂, q) := by
      have hseq : Computes (fun fuel => minimumLoop fuel h rx >>= fun o =>
          Outcome.requireSome o >>= fun successor =>
            h.swapWithSuccessor x successor >>= fun t => t.removeLoop x fuel) (h₂, q) := by
        refine hmin.bind ?_
        simpa only [Outcome.requireSome_some, hswap, Outcome.done_bind] using hloop₁
      refine .step rfl (fun fuel => ?_) hseq
      rw [removeLoop, hlx, hrx]
      simp only [successorNode, hrx, minimumNode]
    refine hloop₀.bind (.of_done fun _ => ?_)
    exact hunlink
  · obtain ⟨l₁, l₂, hl⟩ := hs.next
    have hn := hr.nodup
    rw [hl] at hn
    rw [hord, inorder_map, hl, erase_map_swap hn]

end Tree

end Attos

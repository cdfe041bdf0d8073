import Attos.Lib.BinaryTrees
import Attos.Lib.Computes
import Attos.Tree

/-!
# What the pointers of a tree represent

The nodes reachable from the root pointer form a binary tree if every node
points to the roots of its subtrees and these point back (`Represents`). The
same is said of a subtree (`Hangs`) and of the rest of the tree around it
(`Around`), so that the effect of a pointer write is one of its owner alone:
nodes whose pointers did not change still represent what they did
(`Hangs.congr`, `Around.congr`), and a write to the link that a hole hangs from
changes what hangs there (`Around.store`).
-/

namespace Attos

open Lib

variable {ν : Type}

/-- The link that the hole of a context hangs from. -/
def holeLink : TreeCtx ν → TreeLink ν
  | .top => .root
  | .left _ a _ => .left a
  | .right _ a _ => .right a

namespace Tree

/-- The nodes of `t` form the subtree `t` below the node `p`. -/
def Hangs (h : Tree ν) : BinaryTree ν → Option ν → Prop
  | .nil, _ => True
  | .node a l r, p => h.parent a = p ∧ h.left a = rootOf l ∧ h.right a = rootOf r ∧
      h.Hangs l (some a) ∧ h.Hangs r (some a)

/-- The nodes of `c` form the tree around a hole in which `q` is. -/
def Around (h : Tree ν) : TreeCtx ν → Option ν → Prop
  | .top, q => h.root_ = q
  | .left c a r, q => h.parent a = c.holeParent ∧ h.left a = q ∧ h.right a = rootOf r ∧
      h.Hangs r (some a) ∧ h.Around c (some a)
  | .right c a l, q => h.parent a = c.holeParent ∧ h.left a = rootOf l ∧ h.right a = q ∧
      h.Hangs l (some a) ∧ h.Around c (some a)

/-- **The nodes reachable from the root form the binary tree `t`.** Every node
is in one place, the root has no parent, and pointers to children and to
parents agree. -/
structure Represents (h : Tree ν) (t : BinaryTree ν) : Prop where
  /-- the root pointer -/
  root : h.root_ = rootOf t
  /-- the pointers of the nodes -/
  hangs : h.Hangs t none
  /-- no node occurs twice -/
  nodup : (inorder t).Nodup

/-- The three pointers of a node are the same in both heaps. -/
def SameAt (h h' : Tree ν) (a : ν) : Prop :=
  h'.parent a = h.parent a ∧ h'.left a = h.left a ∧ h'.right a = h.right a

variable {h h' : Tree ν} {c : TreeCtx ν} {t : BinaryTree ν} {p q : Option ν}

/-- A subtree whose nodes did not change still hangs where it did. -/
theorem Hangs.congr (hs : ∀ a ∈ inorder t, SameAt h h' a) (ht : h.Hangs t p) : h'.Hangs t p := by
  induction t generalizing p with
  | nil => trivial
  | node a l r ihl ihr =>
    obtain ⟨hp, hl, hr, htl, htr⟩ := ht
    obtain ⟨hsp, hsl, hsr⟩ := hs a (by simp)
    refine ⟨hsp.trans hp, hsl.trans hl, hsr.trans hr, ihl ?_ htl, ihr ?_ htr⟩
    · exact fun b hb => hs b (by simp [hb])
    · exact fun b hb => hs b (by simp [hb])

/-- The pointers determine the subtree. -/
theorem Hangs.unique {t' : BinaryTree ν} {p' : Option ν} (ht : h.Hangs t p) (ht' : h.Hangs t' p')
    (hroot : rootOf t = rootOf t') : t = t' := by
  induction t generalizing t' p p' with
  | nil => exact (rootOf_eq_none.mp hroot.symm).symm
  | node a l r ihl ihr =>
    cases t' with
    | nil => cases hroot
    | node b l' r' =>
      obtain rfl : a = b := by simpa using hroot
      obtain ⟨-, hl, hr, htl, htr⟩ := ht
      obtain ⟨-, hl', hr', htl', htr'⟩ := ht'
      rw [ihl htl htl' (hl.symm.trans hl'), ihr htr htr' (hr.symm.trans hr')]

/-- They determine the tree. -/
theorem Represents.unique {t' : BinaryTree ν} (ht : h.Represents t) (ht' : h.Represents t') :
    t = t' := ht.hangs.unique ht'.hangs (ht.root.symm.trans ht'.root)

/-- The tree around a hole also stays where it is. -/
theorem Around.congr (hs : ∀ a ∈ c.before ++ c.after, SameAt h h' a) (hroot : h'.root_ = h.root_)
    (hc : h.Around c q) : h'.Around c q := by
  induction c generalizing q with
  | top => exact hroot.trans hc
  | left c a r ih =>
    obtain ⟨hp, hl, hr, htr, hc⟩ := hc
    obtain ⟨hsp, hsl, hsr⟩ := hs a (by simp [TreeCtx.after])
    refine ⟨hsp.trans hp, hsl.trans hl, hsr.trans hr, htr.congr ?_, ih ?_ hc⟩
    · exact fun b hb => hs b (by simp [TreeCtx.after, hb])
    · intro b hb
      refine hs b ?_
      simp only [TreeCtx.before, TreeCtx.after, List.mem_append, List.mem_cons] at hb ⊢
      tauto
  | right c a l ih =>
    obtain ⟨hp, hl, hr, htl, hc⟩ := hc
    obtain ⟨hsp, hsl, hsr⟩ := hs a (by simp [TreeCtx.before])
    refine ⟨hsp.trans hp, hsl.trans hl, hsr.trans hr, htl.congr ?_, ih ?_ hc⟩
    · exact fun b hb => hs b (by simp [TreeCtx.before, hb])
    · intro b hb
      refine hs b ?_
      simp only [TreeCtx.before, TreeCtx.after, List.mem_append, List.mem_cons] at hb ⊢
      tauto

/-- **A tree is what hangs in a hole and what is around it.** -/
theorem hangs_plug : h.root_ = rootOf (c.plug t) ∧ h.Hangs (c.plug t) none ↔
    h.Around c (rootOf t) ∧ h.Hangs t c.holeParent := by
  induction c generalizing t with
  | top => exact Iff.rfl
  | left c a r ih =>
    rw [TreeCtx.plug, ih]
    constructor
    · rintro ⟨hc, hp, hl, hr, htl, htr⟩
      exact ⟨⟨hp, hl, hr, htr, hc⟩, htl⟩
    · rintro ⟨⟨hp, hl, hr, htr, hc⟩, htl⟩
      exact ⟨hc, hp, hl, hr, htl, htr⟩
  | right c a l ih =>
    rw [TreeCtx.plug, ih]
    constructor
    · rintro ⟨hc, hp, hl, hr, htl, htr⟩
      exact ⟨⟨hp, hl, hr, htl, hc⟩, htr⟩
    · rintro ⟨⟨hp, hl, hr, htl, hc⟩, htr⟩
      exact ⟨hc, hp, hl, hr, htl, htr⟩

/-- A tree is represented if both its parts are in place. -/
theorem represents_plug : h.Represents (c.plug t) ↔
    (h.Around c (rootOf t) ∧ h.Hangs t c.holeParent) ∧ (c.before ++ inorder t ++ c.after).Nodup := by
  rw [← hangs_plug, ← TreeCtx.inorder_plug]
  exact ⟨fun ⟨hr, ht, hn⟩ => ⟨⟨hr, ht⟩, hn⟩, fun ⟨⟨hr, ht⟩, hn⟩ => ⟨hr, ht, hn⟩⟩

/-- The parent of a hole is a node around it. -/
theorem holeParent_mem {a : ν} (ha : c.holeParent = some a) : a ∈ c.before ++ c.after := by
  cases c with
  | top => cases ha
  | left c b r =>
    obtain rfl : b = a := by simpa [TreeCtx.holeParent] using ha
    simp [TreeCtx.after]
  | right c b l =>
    obtain rfl : b = a := by simpa [TreeCtx.holeParent] using ha
    simp [TreeCtx.before]

theorem SameAt.trans {h'' : Tree ν} {a : ν} (h₁ : SameAt h h' a) (h₂ : SameAt h' h'' a) :
    SameAt h h'' a :=
  ⟨h₂.1.trans h₁.1, h₂.2.1.trans h₁.2.1, h₂.2.2.trans h₁.2.2⟩

/-! ## Writes -/

variable [DecidableEq ν]

@[simp] theorem setParent_parent (h : Tree ν) (n : ν) (p : Option ν) :
    (h.setParent n p).parent = Function.update h.parent n p := rfl

@[simp] theorem setParent_left (h : Tree ν) (n : ν) (p : Option ν) :
    (h.setParent n p).left = h.left := rfl

@[simp] theorem setParent_right (h : Tree ν) (n : ν) (p : Option ν) :
    (h.setParent n p).right = h.right := rfl

@[simp] theorem setParent_root (h : Tree ν) (n : ν) (p : Option ν) :
    (h.setParent n p).root_ = h.root_ := rfl

@[simp] theorem setLeft_parent (h : Tree ν) (n : ν) (p : Option ν) :
    (h.setLeft n p).parent = h.parent := rfl

@[simp] theorem setLeft_left (h : Tree ν) (n : ν) (p : Option ν) :
    (h.setLeft n p).left = Function.update h.left n p := rfl

@[simp] theorem setLeft_right (h : Tree ν) (n : ν) (p : Option ν) :
    (h.setLeft n p).right = h.right := rfl

@[simp] theorem setLeft_root (h : Tree ν) (n : ν) (p : Option ν) :
    (h.setLeft n p).root_ = h.root_ := rfl

@[simp] theorem setRight_parent (h : Tree ν) (n : ν) (p : Option ν) :
    (h.setRight n p).parent = h.parent := rfl

@[simp] theorem setRight_left (h : Tree ν) (n : ν) (p : Option ν) :
    (h.setRight n p).left = h.left := rfl

@[simp] theorem setRight_right (h : Tree ν) (n : ν) (p : Option ν) :
    (h.setRight n p).right = Function.update h.right n p := rfl

@[simp] theorem setRight_root (h : Tree ν) (n : ν) (p : Option ν) :
    (h.setRight n p).root_ = h.root_ := rfl

/-- A node other than `n` keeps its pointers when those of `n` change. -/
theorem sameAt_setParent {a n : ν} (ha : a ≠ n) : SameAt h (h.setParent n p) a :=
  ⟨Function.update_of_ne ha _ _, rfl, rfl⟩

theorem sameAt_setLeft {a n : ν} (ha : a ≠ n) : SameAt h (h.setLeft n p) a :=
  ⟨rfl, Function.update_of_ne ha _ _, rfl⟩

theorem sameAt_setRight {a n : ν} (ha : a ≠ n) : SameAt h (h.setRight n p) a :=
  ⟨rfl, rfl, Function.update_of_ne ha _ _⟩

/-- A write to the link of a hole changes no node but the parent of the hole. -/
theorem sameAt_store {a : ν} (ha : c.holeParent ≠ some a) :
    SameAt h (h.store (holeLink c) q) a := by
  cases c with
  | top => exact ⟨rfl, rfl, rfl⟩
  | left c b r => exact sameAt_setLeft fun hab => ha (by rw [hab]; rfl)
  | right c b l => exact sameAt_setRight fun hab => ha (by rw [hab]; rfl)

/-- The parents of the nodes do not change. -/
@[simp] theorem store_parent (h : Tree ν) (link : TreeLink ν) (q : Option ν) :
    (h.store link q).parent = h.parent := by
  cases link <;> rfl

/-- **A write to the link of a hole** replaces what hangs there. -/
theorem Around.store {q' : Option ν} (hc : h.Around c q) (hn : (c.before ++ c.after).Nodup) :
    (h.store (holeLink c) q').Around c q' := by
  cases c with
  | top => rfl
  | left c a r =>
    obtain ⟨hp, -, hr, htr, hc⟩ := hc
    simp only [TreeCtx.before, TreeCtx.after] at hn
    have hne : ∀ b ∈ inorder r ++ (c.before ++ c.after), b ≠ a := by
      intro b hb hba
      subst hba
      simp only [List.nodup_append, List.nodup_cons, List.mem_append, List.mem_cons] at hn hb
      grind
    refine ⟨hp, Function.update_self .., hr, htr.congr ?_, hc.congr ?_ (setLeft_root h a q')⟩
    · exact fun b hb => sameAt_setLeft (hne b (by simp [hb]))
    · exact fun b hb => sameAt_setLeft (hne b (List.mem_append_right _ hb))
  | right c a l =>
    obtain ⟨hp, hl, -, htl, hc⟩ := hc
    simp only [TreeCtx.before, TreeCtx.after] at hn
    have hne : ∀ b ∈ inorder l ++ (c.before ++ c.after), b ≠ a := by
      intro b hb hba
      subst hba
      simp only [List.nodup_append, List.nodup_cons, List.mem_append, List.mem_cons] at hn hb
      grind
    refine ⟨hp, hl, Function.update_self .., htl.congr ?_, hc.congr ?_ (setRight_root h a q')⟩
    · exact fun b hb => sameAt_setRight (hne b (by simp [hb]))
    · exact fun b hb => sameAt_setRight (hne b (List.mem_append_right _ hb))

end Tree

end Attos

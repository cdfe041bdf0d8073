import Mathlib.Data.Tree.Basic
import Mathlib.Tactic

/-!
# Binary trees with a hole

The in-order sequence of a binary tree, and the tree around a subtree: a
context, which is the path from the hole up to the root with what hangs off it.
A tree with a subtree at the hole has the sequence `before`, the sequence of
the subtree and `after` (`inorder_plug`).
-/

namespace Lib

universe u v

variable {α : Type u} {β : Type v}

open BinaryTree (nil node)

/-- The values from left to right. -/
def inorder : BinaryTree α → List α
  | .nil => []
  | .node a l r => inorder l ++ a :: inorder r

/-- The value at the root. -/
def rootOf : BinaryTree α → Option α
  | .nil => none
  | .node a _ _ => some a

@[simp] theorem inorder_nil : inorder (.nil : BinaryTree α) = [] := rfl

@[simp] theorem inorder_node (a : α) (l r : BinaryTree α) :
    inorder (node a l r) = inorder l ++ a :: inorder r := rfl

@[simp] theorem rootOf_nil : rootOf (.nil : BinaryTree α) = none := rfl

@[simp] theorem rootOf_node (a : α) (l r : BinaryTree α) : rootOf (node a l r) = some a := rfl

theorem inorder_map (f : α → β) (t : BinaryTree α) : inorder (t.map f) = (inorder t).map f := by
  induction t with
  | nil => rfl
  | node a l r ihl ihr => simp [BinaryTree.map, ihl, ihr]

theorem rootOf_map (f : α → β) (t : BinaryTree α) : rootOf (t.map f) = (rootOf t).map f := by
  cases t <;> rfl

theorem rootOf_mem {t : BinaryTree α} {a : α} (h : rootOf t = some a) : a ∈ inorder t := by
  cases t with
  | nil => cases h
  | node b l r =>
    obtain rfl : b = a := by simpa using h
    simp

theorem rootOf_eq_none {t : BinaryTree α} : rootOf t = none ↔ t = .nil := by
  cases t <;> simp

/-- A binary tree with a hole in place of a subtree, seen from the hole. -/
inductive TreeCtx (α : Type u) : Type u where
  /-- the hole is at the root -/
  | top : TreeCtx α
  /-- the hole is the left child of `a`, whose right child is `r` -/
  | left (c : TreeCtx α) (a : α) (r : BinaryTree α) : TreeCtx α
  /-- the hole is the right child of `a`, whose left child is `l` -/
  | right (c : TreeCtx α) (a : α) (l : BinaryTree α) : TreeCtx α

namespace TreeCtx

/-- Put a tree into the hole. -/
def plug : TreeCtx α → BinaryTree α → BinaryTree α
  | top, t => t
  | left c a r, t => c.plug (node a t r)
  | right c a l, t => c.plug (node a l t)

/-- The values before the hole. -/
def before : TreeCtx α → List α
  | top => []
  | left c _ _ => c.before
  | right c a l => c.before ++ inorder l ++ [a]

/-- The values after the hole. -/
def after : TreeCtx α → List α
  | top => []
  | left c a r => a :: inorder r ++ c.after
  | right c _ _ => c.after

/-- The parent of what is put into the hole. -/
def holeParent : TreeCtx α → Option α
  | top => none
  | left _ a _ => some a
  | right _ a _ => some a

/-- **The sequence around a hole.** -/
theorem inorder_plug (c : TreeCtx α) (t : BinaryTree α) :
    inorder (c.plug t) = c.before ++ inorder t ++ c.after := by
  induction c generalizing t with
  | top => simp [plug, before, after]
  | left c a r ih => simp [plug, before, after, ih]
  | right c a l ih => simp [plug, before, after, ih]

/-- A value in a tree is the root of a subtree. -/
theorem exists_plug {t : BinaryTree α} {a : α} (h : a ∈ inorder t) :
    ∃ c l r, t = plug c (node a l r) := by
  have hin : ∀ (c : TreeCtx α) (t : BinaryTree α), a ∈ inorder t →
      ∃ c' l r, c.plug t = plug c' (node a l r) := by
    intro c t
    induction t generalizing c with
    | nil => simp
    | node b l r ihl ihr =>
      intro hmem
      rw [inorder_node, List.mem_append, List.mem_cons] at hmem
      rcases hmem with hl | rfl | hr
      · exact ihl (c.left b r) hl
      · exact ⟨c, l, r, rfl⟩
      · exact ihr (c.right b l) hr
  exact hin top t h

end TreeCtx

end Lib

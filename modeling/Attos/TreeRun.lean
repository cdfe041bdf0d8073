import Attos.Lib.Reach
import Attos.TreeRemove

/-!
# Runs of the tree

A run starts with an empty tree and inserts nodes that are in no tree and
removes nodes of the tree, in any order; in between, the nodes that are not in
the tree can be changed at will. Next to the tree the run keeps the list of its
nodes, as the two operations are meant to change it.
-/

namespace Attos

open Lib

namespace Tree

variable {ν : Type} [DecidableEq ν] (lt : ν → ν → Prop) [DecidableRel lt]

/-- A tree and the list of its nodes. -/
structure Run (ν : Type) : Type where
  /-- the tree -/
  tree : Tree ν
  /-- its nodes, in order -/
  list : List ν

/-- An empty tree. -/
def Run.Init (s : Run ν) : Prop := s.tree.root_ = none ∧ s.list = []

/-- An operation on the tree returns, or nodes outside the tree change. -/
inductive Run.Step : Run ν → Run ν → Prop where
  /-- a detached node is inserted -/
  | insert {h h' : Tree ν} {l : List ν} {n : ν} {fuel : ℕ} :
      n ∉ l → h.Detached n → h.insert lt fuel n = .done h' →
      Step ⟨h, l⟩ ⟨h', insertOrdered lt n l⟩
  /-- a node of the tree is removed -/
  | remove {h h' : Tree ν} {l : List ν} {n : ν} {fuel : ℕ} :
      n ∈ l → h.remove fuel n = .done h' → Step ⟨h, l⟩ ⟨h', l.erase n⟩
  /-- other nodes change -/
  | other {h h' : Tree ν} {l : List ν} :
      (∀ a ∈ l, SameAt h h' a) → h'.root_ = h.root_ → Step ⟨h, l⟩ ⟨h', l⟩

/-- The states of all runs. -/
abbrev Reachable : Run ν → Prop := Reach Run.Init (Run.Step lt)

/-- The pointers of the nodes in `l` agree with each other. -/
structure Consistent (h : Tree ν) (l : List ν) : Prop where
  /-- the root is a node without parent -/
  root : ∀ a, h.root_ = some a → a ∈ l ∧ h.parent a = none
  /-- a left child points back -/
  left : ∀ a ∈ l, ∀ b, h.left a = some b → b ∈ l ∧ h.parent b = some a
  /-- a right child points back -/
  right : ∀ a ∈ l, ∀ b, h.right a = some b → b ∈ l ∧ h.parent b = some a
  /-- a node is a child of its parent -/
  parent : ∀ b ∈ l, ∀ a, h.parent b = some a → a ∈ l ∧ (h.left a = some b ∨ h.right a = some b)

variable {lt}

omit [DecidableEq ν] in
theorem Represents.consistent {h : Tree ν} {t : BinaryTree ν} (hr : h.Represents t) :
    h.Consistent (inorder t) where
  root a ha := by
    have hmem : a ∈ inorder t := rootOf_mem (hr.root.symm.trans ha)
    exact ⟨hmem, (hr.root_iff hmem).mp ha⟩
  left a ha b hb := ⟨(hr.of_left ha hb).1, (hr.of_left ha hb).2.2⟩
  right a ha b hb := ⟨(hr.of_right ha hb).1, (hr.of_right ha hb).2.2⟩
  parent b hb a ha := hr.of_parent hb ha

/-- The invariant: the pointers form a binary tree whose sequence is the list,
and the list is ordered. -/
structure Inv (lt : ν → ν → Prop) (s : Run ν) (t : BinaryTree ν) : Prop where
  /-- the pointers form the tree -/
  represents : s.tree.Represents t
  /-- with the sequence of the run -/
  list : inorder t = s.list
  /-- which is ordered -/
  ordered : Ordered lt s.list

namespace Inv

variable [IsStrictWeakOrder ν lt] {s : Run ν} {t : BinaryTree ν} {h' : Tree ν} {n : ν} {fuel : ℕ}

omit [DecidableEq ν] [DecidableRel lt] [IsStrictWeakOrder ν lt] in
theorem init (h : Run.Init s) : Inv lt s .nil := by
  obtain ⟨hroot, hlist⟩ := h
  refine ⟨⟨hroot, trivial, List.nodup_nil⟩, hlist.symm, ?_⟩
  rw [hlist]
  exact List.Pairwise.nil

/-- **An insertion** puts the node where the list says. -/
theorem insert (hi : Inv lt s t) (hn : n ∉ s.list) (hd : s.tree.Detached n)
    (hrun : s.tree.insert lt fuel n = .done h') :
    ∃ t', Inv lt ⟨h', insertOrdered lt n s.list⟩ t' := by
  obtain ⟨h'', t', hcomp, hrep, hlist⟩ :=
    hi.represents.insert (by rw [hi.list]; exact hi.ordered) (by rw [hi.list]; exact hn) hd
  obtain rfl := hcomp.eq_of_done hrun
  exact ⟨t', hrep, hlist.trans (by rw [hi.list]), hi.ordered.insertOrdered⟩

omit [DecidableRel lt] [IsStrictWeakOrder ν lt] in
/-- **A removal** takes the node out of the list. -/
theorem remove (hi : Inv lt s t) (hn : n ∈ s.list) (hrun : s.tree.remove fuel n = .done h') :
    ∃ t', Inv lt ⟨h', s.list.erase n⟩ t' := by
  obtain ⟨h'', t', hcomp, hrep, hlist, -⟩ := hi.represents.remove (by rw [hi.list]; exact hn)
  obtain rfl := hcomp.eq_of_done hrun
  refine ⟨t', hrep, hlist.trans (by rw [hi.list]), ?_⟩
  exact hi.ordered.sublist List.erase_sublist

omit [DecidableEq ν] [DecidableRel lt] [IsStrictWeakOrder ν lt] in
/-- Nodes outside the tree do not matter. -/
theorem other (hi : Inv lt s t) (hs : ∀ a ∈ s.list, SameAt s.tree h' a)
    (hroot : h'.root_ = s.tree.root_) : Inv lt ⟨h', s.list⟩ t := by
  refine ⟨⟨hroot.trans hi.represents.root, hi.represents.hangs.congr ?_, hi.represents.nodup⟩,
    hi.list, hi.ordered⟩
  rw [hi.list]
  exact hs

end Inv

/-- Every reachable state satisfies the invariant. -/
theorem reachable_inv [IsStrictWeakOrder ν lt] {s : Run ν} (hs : Reachable lt s) :
    ∃ t, Inv lt s t := by
  refine Reach.invariant (fun s => ∃ t, Inv lt s t) hs (fun s h => ⟨_, Inv.init h⟩) ?_
  rintro s s' ⟨t, hi⟩ hstep
  cases hstep with
  | insert hn hd hrun => exact hi.insert hn hd hrun
  | remove hn hrun => exact hi.remove hn hrun
  | other hsame hroot => exact ⟨t, hi.other hsame hroot⟩

/-- **The tree implements the list.** In every reachable state the pointers form
a binary tree whose in-order sequence is the list of the run, without
duplicates and in order, and they agree with each other. A detached node can be
inserted and a node of the tree can be removed, and the removed node is detached
again. -/
theorem tree_implements_list [IsStrictWeakOrder ν lt] {s : Run ν} (hs : Reachable lt s) :
    (∃ t, s.tree.Represents t ∧ inorder t = s.list) ∧ s.tree.Consistent s.list ∧
      s.list.Nodup ∧ Ordered lt s.list ∧
      (∀ n ∉ s.list, s.tree.Detached n → ∃ h', Computes (fun fuel => s.tree.insert lt fuel n) h') ∧
      ∀ n ∈ s.list, ∃ h', Computes (fun fuel => s.tree.remove fuel n) h' ∧ h'.Detached n := by
  obtain ⟨t, hi⟩ := reachable_inv hs
  have hcons := hi.represents.consistent
  have hnodup := hi.represents.nodup
  rw [hi.list] at hcons hnodup
  refine ⟨⟨t, hi.represents, hi.list⟩, hcons, hnodup, hi.ordered, fun n hn hd => ?_, fun n hn => ?_⟩
  · obtain ⟨h', -, hcomp, -⟩ :=
      hi.represents.insert (by rw [hi.list]; exact hi.ordered) (by rw [hi.list]; exact hn) hd
    exact ⟨h', hcomp⟩
  · obtain ⟨h', -, hcomp, -, -, hdet⟩ := hi.represents.remove (by rw [hi.list]; exact hn)
    exact ⟨h', hcomp, hdet⟩

/-- An order with equal elements: numbers by their tens. -/
def TensLt (a b : ℕ) : Prop := a / 10 < b / 10

instance : DecidableRel TensLt := fun a b => inferInstanceAs (Decidable (a / 10 < b / 10))

instance : IsStrictWeakOrder ℕ TensLt where
  irrefl a := lt_irrefl (a / 10)
  trans a b c hab hbc := lt_trans (hab : a / 10 < b / 10) hbc
  incomp_trans a b c := by
    unfold TensLt
    omega

/-- Insert 20, 10, 30 and 25, which is equal to 20, and remove 20. -/
theorem tree_implements_list_tens :
    ∃ s : Run ℕ, s.list = [10, 25, 30] ∧
      (∃ t, s.tree.Represents t ∧ inorder t = s.list) ∧ s.tree.Consistent s.list ∧
      s.list.Nodup ∧ Ordered TensLt s.list ∧
      (∀ n ∉ s.list, s.tree.Detached n →
        ∃ h', Computes (fun fuel => s.tree.insert TensLt fuel n) h') ∧
      ∀ n ∈ s.list, ∃ h', Computes (fun fuel => s.tree.remove fuel n) h' ∧ h'.Detached n := by
  have hs₀ : Reachable TensLt ⟨⟨fun _ => none, fun _ => none, fun _ => none, none⟩, []⟩ :=
    .start ⟨rfl, rfl⟩
  have hs₁ : Reachable TensLt ⟨_, [20]⟩ :=
    hs₀.step (@Run.Step.insert ℕ _ _ _ _ _ _ 20 5 (by decide) ⟨rfl, rfl, rfl⟩ rfl)
  have hs₂ : Reachable TensLt ⟨_, [10, 20]⟩ :=
    hs₁.step (@Run.Step.insert ℕ _ _ _ _ _ _ 10 5 (by decide) ⟨rfl, rfl, rfl⟩ rfl)
  have hs₃ : Reachable TensLt ⟨_, [10, 20, 30]⟩ :=
    hs₂.step (@Run.Step.insert ℕ _ _ _ _ _ _ 30 5 (by decide) ⟨rfl, rfl, rfl⟩ rfl)
  have hs₄ : Reachable TensLt ⟨_, [10, 20, 25, 30]⟩ :=
    hs₃.step (@Run.Step.insert ℕ _ _ _ _ _ _ 25 5 (by decide) ⟨rfl, rfl, rfl⟩ rfl)
  have hs₅ : Reachable TensLt ⟨_, [10, 25, 30]⟩ :=
    hs₄.step (@Run.Step.remove ℕ _ _ _ _ _ _ 20 5 (by decide) rfl)
  exact ⟨_, rfl, tree_implements_list hs₅⟩

end Tree

end Attos

import Attos.TreeRemove

/-!
# Going through the tree

`begin` finds the first node of the sequence of a tree, and `successor_node`
finds the next one: below the node if it has a right child, and above it
otherwise.
-/

namespace Attos

open Lib BinaryTree

namespace Tree

variable {ν : Type} [DecidableEq ν] {h : Tree ν} {c : TreeCtx ν} {t : BinaryTree ν} {b x : ν}
  {l₁ l₂ : List ν}

/-- **The upward search** finds the first node after the hole. -/
theorem climbLoop_computes (hc : h.Around c (some b)) (hb : h.parent b = c.holeParent)
    (hn : (c.before ++ b :: c.after).Nodup) :
    Computes (fun fuel => climbLoop fuel h b) c.after.head? := by
  induction c generalizing b with
  | top =>
    refine .step rfl (fun fuel => ?_) (.of_done fun _ => rfl)
    rw [climbLoop, hb]
    rfl
  | left c a r =>
    -- `b` is the left child of `a`, and not its right child
    have hright : h.right a ≠ some b := by
      rw [hc.2.2.1]
      intro hr
      have hmem := rootOf_mem hr
      have hafter := (List.nodup_cons.mp (List.nodup_append.mp hn).2.1).1
      exact hafter (by simp [TreeCtx.after, hmem])
    refine .step rfl (fun fuel => ?_) (.of_done fun _ => rfl)
    rw [climbLoop, hb]
    simp only [TreeCtx.holeParent, hright, if_false, hc.2.1, Outcome.require_true,
      Outcome.done_bind]
    rfl
  | right c a l ih =>
    have hn' : (c.before ++ a :: c.after).Nodup := by
      refine hn.sublist ?_
      simp [TreeCtx.before, TreeCtx.after]
    refine .step rfl (fun fuel => ?_) (ih hc.2.2.2.2 hc.1 hn')
    rw [climbLoop, hb]
    simp only [TreeCtx.holeParent, hc.2.2.1, if_true]

/-- **`successor_node` finds the next node.** -/
theorem Represents.successorNode (hr : h.Represents t) (hx : inorder t = l₁ ++ x :: l₂) :
    Computes (fun fuel => h.successorNode fuel (some x)) l₂.head? := by
  have hmem : x ∈ inorder t := by simp [hx]
  have hn := hr.nodup
  rw [hx] at hn
  have hx₁ : x ∉ l₁ ∧ x ∉ l₂ := by
    simp only [List.nodup_append, List.nodup_cons, List.mem_cons] at hn
    exact ⟨fun h => hn.2.2 x h x (.inl rfl) rfl, hn.2.1.1⟩
  cases hright : h.right x with
  | some rx =>
    obtain ⟨y, hs, hmin⟩ := hr.successor hmem hright
    obtain ⟨l₁', l₂', hnext⟩ := hs.next
    rw [hx] at hnext
    obtain ⟨-, -, rfl⟩ := (List.append_cons_inj_of_notMem hx₁.1 hx₁.2).mp hnext
    simpa [Tree.successorNode, hright, minimumNode] using hmin
  | none =>
    obtain ⟨c, l, r, rfl, hc, hp, -, hr', -⟩ := hr.focus hmem
    obtain rfl : r = .nil := rootOf_eq_none.mp (hr'.symm.trans hright)
    have hord : inorder (c.plug (.node x l .nil)) = (c.before ++ inorder l) ++ x :: c.after := by
      rw [TreeCtx.inorder_plug]
      simp
    rw [hx] at hord
    obtain ⟨-, -, rfl⟩ := (List.append_cons_inj_of_notMem hx₁.1 hx₁.2).mp hord
    have hn' : (c.before ++ x :: c.after).Nodup := by
      have hnodup := hr.nodup
      rw [TreeCtx.inorder_plug] at hnodup
      refine hnodup.sublist ?_
      simp
    simpa [Tree.successorNode, hright] using climbLoop_computes hc hp hn'

omit [DecidableEq ν] in
/-- **`begin` finds the first node.** -/
theorem Represents.begin (hr : h.Represents t) :
    Computes (fun fuel => h.begin fuel) (inorder t).head? := by
  cases t with
  | nil =>
    refine .of_done fun fuel => ?_
    rw [Tree.begin, hr.root]
    rfl
  | node a l r =>
    obtain ⟨c, y, s, hplug, hbefore, -, hcomp⟩ := minimumLoop_computes hr.hangs .top
    have hord : inorder (.node a l r) = y :: (inorder s ++ c.after) := by
      have hseq := congrArg inorder hplug
      rw [TreeCtx.plug, TreeCtx.inorder_plug, hbefore] at hseq
      simpa [TreeCtx.before] using hseq
    rw [hord]
    simpa [Tree.begin, hr.root, minimumNode] using hcomp

/-- **`remove` leaves a tree alone** if the node is in no tree. -/
theorem Represents.remove_of_notMem {fuel : ℕ} {h' : Tree ν} (hr : h.Represents t)
    (hx : x ∉ inorder t) (hd : h.Detached x) (hrun : h.remove fuel x = .done h') : h' = h := by
  have hroot : h.root_ ≠ some x := fun heq => hx (rootOf_mem (hr.root.symm.trans heq))
  cases fuel with
  | zero => cases hrun
  | succ fuel =>
    have hrun' : h.setParent x none = h' := by
      simpa [Tree.remove, removeLoop, unlink, updateParentOf, setParentOf, hd.left, hd.right,
        hd.parent, hroot] using hrun
    have hparent : Function.update h.parent x none = h.parent := by
      rw [← hd.parent, Function.update_eq_self]
    rw [← hrun', setParent, hparent]

end Tree

end Attos

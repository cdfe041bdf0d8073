import Attos.TreeRep
import Mathlib.Order.Defs.Unbundled

/-!
# Insertion into the tree

`do_insert` walks from the root to an empty link and stores the new node there.
In a tree that is sorted, the elements that the walk leaves on its left are not
greater than the new one, and those on its right are greater. So the new
element comes behind all elements that are not greater, and equal elements stay
in the order they were inserted in.
-/

namespace Attos

open Lib

variable {ν : Type} (lt : ν → ν → Prop) [DecidableRel lt]

/-- The list does not descend. -/
def Ordered (l : List ν) : Prop := l.Pairwise fun a b => ¬ lt b a

/-- The new element after all elements that are not greater. -/
def insertOrdered (n : ν) (l : List ν) : List ν :=
  l.filter (fun b => ¬ lt n b) ++ n :: l.filter fun b => lt n b

variable {lt}

/-- The position of the new element is known once the two parts are. -/
theorem insertOrdered_append {n : ν} {l₁ l₂ : List ν} (h₁ : ∀ b ∈ l₁, ¬ lt n b)
    (h₂ : ∀ b ∈ l₂, lt n b) : insertOrdered lt n (l₁ ++ l₂) = l₁ ++ n :: l₂ := by
  have hf₁ : l₁.filter (fun b => ¬ lt n b) = l₁ := List.filter_eq_self.mpr (by simpa using h₁)
  have hf₂ : l₂.filter (fun b => ¬ lt n b) = [] := List.filter_eq_nil_iff.mpr (by simpa using h₂)
  have hg₁ : l₁.filter (fun b => lt n b) = [] := List.filter_eq_nil_iff.mpr (by simpa using h₁)
  have hg₂ : l₂.filter (fun b => lt n b) = l₂ := List.filter_eq_self.mpr (by simpa using h₂)
  rw [insertOrdered, List.filter_append, List.filter_append, hf₁, hf₂, hg₁, hg₂,
    List.append_nil, List.nil_append]

theorem mem_insertOrdered {n b : ν} {l : List ν} : b ∈ insertOrdered lt n l ↔ b = n ∨ b ∈ l := by
  simp only [insertOrdered, List.mem_append, List.mem_cons, List.mem_filter, decide_eq_true_eq]
  by_cases hb : lt n b <;> simp [hb, or_comm]

section Order

variable [IsStrictWeakOrder ν lt]

/-- What is not less than something that is not less than `c` is not less than
`c`. -/
theorem not_lt_trans {a b c : ν} (hab : ¬ lt a b) (hbc : ¬ lt b c) : ¬ lt a c := by
  intro hac
  by_cases hcb : lt c b
  · exact hab (trans_of lt hac hcb)
  · by_cases hba : lt b a
    · exact hbc (trans_of lt hba hac)
    · exact (IsStrictWeakOrder.incomp_trans a b c ⟨hab, hba⟩ ⟨hbc, hcb⟩).1 hac

theorem lt_of_lt_of_not_lt {a b c : ν} (hab : lt a b) (hcb : ¬ lt c b) : lt a c := by
  by_contra hac
  exact not_lt_trans hac hcb hab

/-- Insertion keeps the list ordered. -/
theorem Ordered.insertOrdered {n : ν} {l : List ν} (h : Ordered lt l) :
    Ordered lt (insertOrdered lt n l) := by
  rw [Ordered, Attos.insertOrdered]
  refine List.pairwise_append.mpr ⟨h.filter _, List.pairwise_cons.mpr ⟨?_, h.filter _⟩, ?_⟩
  · intro b hb hbn
    have hnb : lt n b := by simpa using (List.mem_filter.mp hb).2
    exact irrefl_of lt n (trans_of lt hnb hbn)
  · intro a ha b hb
    have hna : ¬ lt n a := by simpa using (List.mem_filter.mp ha).2
    rcases List.mem_cons.mp hb with rfl | hb
    · exact hna
    · have hnb : lt n b := by simpa using (List.mem_filter.mp hb).2
      exact fun hba => hna (trans_of lt hnb hba)

end Order

namespace Tree

variable {h : Tree ν} {c : TreeCtx ν} {t : BinaryTree ν} {q : Option ν} {n : ν}

/-- What the link of a hole points to. -/
theorem Around.load (hc : h.Around c q) : h.load (holeLink c) = q := by
  cases c with
  | top => exact hc
  | left c a r => exact hc.2.1
  | right c a l => exact hc.2.2.1

/-- **The descent of `do_insert`** ends in an empty link of the tree. In an ordered tree
this lies to the right of all elements that are not greater and to the left of all others. -/
theorem insertLoop_computes (hc : h.Around c (rootOf t)) (ht : h.Hangs t c.holeParent) :
    ∃ c', c.plug t = c'.plug .nil ∧
      Computes (fun fuel => insertLoop lt n fuel h (holeLink c) c.holeParent)
        (holeLink c', c'.holeParent) ∧
      (IsStrictWeakOrder ν lt → Ordered lt (inorder t) → (∀ b ∈ c.before, ¬ lt n b) →
        (∀ b ∈ c.after, lt n b) → (∀ b ∈ c'.before, ¬ lt n b) ∧ ∀ b ∈ c'.after, lt n b) := by
  induction t generalizing c with
  | nil =>
    refine ⟨c, rfl, .step rfl (fun fuel => ?_) (.of_done fun _ => rfl), fun _ _ hb ha => ⟨hb, ha⟩⟩
    rw [insertLoop, hc.load, rootOf_nil]
  | node a l r ihl ihr =>
    obtain ⟨hp, hl, hr, htl, htr⟩ := ht
    have hstep : ∀ fuel, insertLoop lt n (fuel + 1) h (holeLink c) c.holeParent =
        insertLoop lt n fuel h (if lt n a then .left a else .right a) (some a) := fun fuel => by
      rw [insertLoop, hc.load, rootOf_node]
    by_cases hna : lt n a
    · obtain ⟨c', hplug, hcomp, hord⟩ := @ihl (c.left a r) ⟨hp, hl, hr, htr, hc⟩ htl
      refine ⟨c', hplug, .step rfl (fun fuel => ?_) hcomp, fun hlt ho hbefore hafter => ?_⟩
      · rw [hstep, if_pos hna]
        rfl
      -- the elements of the right subtree are greater too
      obtain ⟨hol, hor, -⟩ := List.pairwise_append.mp ho
      obtain ⟨har, -⟩ := List.pairwise_cons.mp hor
      refine hord hlt hol hbefore ?_
      simp only [TreeCtx.after, List.cons_append, List.mem_cons, List.mem_append]
      rintro b (rfl | hb | hb)
      · exact hna
      · exact lt_of_lt_of_not_lt hna (har b hb)
      · exact hafter b hb
    · obtain ⟨c', hplug, hcomp, hord⟩ := @ihr (c.right a l) ⟨hp, hl, hr, htl, hc⟩ htr
      refine ⟨c', hplug, .step rfl (fun fuel => ?_) hcomp, fun hlt ho hbefore hafter => ?_⟩
      · rw [hstep, if_neg hna]
        rfl
      -- the elements of the left subtree are not greater either
      obtain ⟨-, hor, hlr⟩ := List.pairwise_append.mp ho
      refine hord hlt (List.pairwise_cons.mp hor).2 ?_ hafter
      simp only [TreeCtx.before, List.append_assoc, List.mem_append, List.mem_singleton]
      rintro b (hb | hb | rfl)
      · exact hbefore b hb
      · exact not_lt_trans hna (hlr b hb a (List.mem_cons_self ..))
      · exact hna

/-- A node that is in no tree. -/
structure Detached (h : Tree ν) (n : ν) : Prop where
  /-- no parent -/
  parent : h.parent n = none
  /-- no left child -/
  left : h.left n = none
  /-- no right child -/
  right : h.right n = none

/-- **`insert` stores the node** in the empty link that the descent ends in. -/
theorem Represents.insert_hole [DecidableEq ν] (hr : h.Represents (c.plug .nil))
    (hn : n ∉ c.before ++ c.after) (hd : h.Detached n)
    (hloop : Computes (fun fuel => insertLoop lt n fuel h .root none) (holeLink c, c.holeParent)) :
    ∃ h', Computes (fun fuel => h.insert lt fuel n) h' ∧ h'.Represents (c.plug (.node n .nil .nil)) := by
  obtain ⟨⟨hc, -⟩, hnodup⟩ := represents_plug.mp hr
  rw [inorder_nil, List.append_nil] at hnodup
  have hown : c.holeParent ≠ some n := fun hp => hn (holeParent_mem hp)
  have hc' : (h.setParent n c.holeParent).Around c none := by
    refine hc.congr (fun b hbc => sameAt_setParent ?_) rfl
    exact fun hbn => hn (hbn ▸ hbc)
  have hsame := @sameAt_store _ (h.setParent n c.holeParent) c (some n) _ n hown
  refine ⟨(h.setParent n c.holeParent).store (holeLink c) (some n), ?_,
    represents_plug.mpr ⟨⟨hc'.store hnodup, ?_, ?_, ?_, trivial, trivial⟩, ?_⟩⟩
  · have hrest : Computes (fun _ : ℕ => (.done
        ((h.setParent n c.holeParent).store (holeLink c) (some n)) : Outcome (Tree ν))) _ :=
      .of_done fun _ => rfl
    simp only [Tree.insert, hd.parent, hd.left, hd.right, Outcome.require_pos, Outcome.done_bind]
    exact hloop.bind hrest
  · rw [hsame.1]
    exact Function.update_self ..
  · exact hsame.2.1.trans hd.left
  · exact hsame.2.2.trans hd.right
  · simp only [inorder_node, inorder_nil, List.nil_append, List.append_assoc, List.singleton_append]
    exact List.nodup_middle.mpr (List.nodup_cons.mpr ⟨hn, hnodup⟩)

/-- **`insert` puts the node somewhere in the sequence.** -/
theorem Represents.insert_links [DecidableEq ν] (hr : h.Represents t) (hn : n ∉ inorder t)
    (hd : h.Detached n) :
    ∃ h' t' l₁ l₂, Computes (fun fuel => h.insert lt fuel n) h' ∧ h'.Represents t' ∧
      inorder t = l₁ ++ l₂ ∧ inorder t' = l₁ ++ n :: l₂ := by
  obtain ⟨c, hplug, hloop, -⟩ := @insertLoop_computes _ lt _ h .top t n hr.root hr.hangs
  rw [TreeCtx.plug] at hplug
  subst hplug
  rw [TreeCtx.inorder_plug, inorder_nil, List.append_nil] at hn ⊢
  obtain ⟨h', hinsert, hrep⟩ := hr.insert_hole hn hd hloop
  refine ⟨h', _, c.before, c.after, hinsert, hrep, rfl, ?_⟩
  rw [TreeCtx.inorder_plug]
  simp

variable [IsStrictWeakOrder ν lt] [DecidableEq ν]

/-- **`insert` puts the node in order.** -/
theorem Represents.insert (hr : h.Represents t) (ho : Ordered lt (inorder t))
    (hn : n ∉ inorder t) (hd : h.Detached n) :
    ∃ h' t', Computes (fun fuel => h.insert lt fuel n) h' ∧ h'.Represents t' ∧
      inorder t' = insertOrdered lt n (inorder t) := by
  obtain ⟨c, hplug, hloop, hord⟩ := @insertLoop_computes _ lt _ h .top t n hr.root hr.hangs
  obtain ⟨hb, ha⟩ := hord inferInstance ho (by simp [TreeCtx.before]) (by simp [TreeCtx.after])
  simp only [TreeCtx.plug] at hplug
  subst hplug
  rw [TreeCtx.inorder_plug, inorder_nil, List.append_nil] at hn ⊢
  obtain ⟨h', hinsert, hrep⟩ := hr.insert_hole hn hd hloop
  refine ⟨h', _, hinsert, hrep, ?_⟩
  rw [TreeCtx.inorder_plug, insertOrdered_append hb ha]
  simp

end Tree

end Attos

import Attos.TreeIterate
import Attos.TreeRun

/-!
# Searching and iterating

In a reachable tree an iterator visits every node once, in order (`iteration`). The two
bounds of a key split the sequence where the comparisons with the key change, and the
iterator visits exactly the equivalent elements between them (`key_bounds`). Elements that are
equal in the order of the tree are visited in the order in which they were inserted
(`Inserted.filter_eq`); a key can be equivalent to elements that are not equal, and these
come in the order of the tree.
-/

namespace Attos

open Lib BinaryTree

variable {ν : Type}

namespace Tree

section Descent

variable {h : Tree ν} {t : BinaryTree ν} {p res : Option ν}

/-- **The descent of `lower_bound`** finds the first node that is not less than the key, and
keeps the best result so far if there is none. -/
theorem lowerBoundLoop_computes {less : ν → Prop} [DecidablePred less] (ht : h.Hangs t p)
    (hless : (inorder t).Pairwise fun a b => less b → less a) :
    Computes (fun fuel => lowerBoundLoop less fuel h (rootOf t) res)
      (((inorder t).find? fun a => ¬ less a).or res) := by
  induction t generalizing p res with
  | nil => exact .step rfl (fun _ => rfl) (.of_done fun _ => rfl)
  | node a l r ihl ihr =>
    obtain ⟨-, hl, hr, htl, htr⟩ := ht
    obtain ⟨hbefore, hafter, hacross⟩ := List.pairwise_append.mp hless
    by_cases ha : less a
    · -- the elements on the left are less than the key, too
      have hleft : (inorder l).find? (fun b => ¬ less b) = none := by
        rw [List.find?_eq_none]
        intro b hb
        have hb' := hacross b hb a (List.mem_cons_self ..) ha
        simpa using hb'
      have hfirst : (inorder (.node a l r)).find? (fun b => ¬ less b) =
          (inorder r).find? fun b => ¬ less b := by
        rw [inorder_node, List.find?_append, hleft, Option.none_or, List.find?_cons_of_neg (by simpa using ha)]
      rw [hfirst]
      refine .step rfl (fun fuel => ?_) (ihr htr (List.pairwise_cons.mp hafter).2)
      rw [rootOf_node, lowerBoundLoop, if_pos ha, hr]
    · have hfirst : ((inorder (.node a l r)).find? fun b => ¬ less b).or res =
          ((inorder l).find? fun b => ¬ less b).or (some a) := by
        rw [inorder_node, List.find?_append, List.find?_cons_of_pos (by simpa using ha), Option.or_assoc,
          Option.some_or]
      rw [hfirst]
      refine .step rfl (fun fuel => ?_) (ihl htl hbefore)
      rw [rootOf_node, lowerBoundLoop, if_neg ha, hl]

/-- **The descent of `upper_bound`** is that of `lower_bound` for the elements that are not
greater than the key. -/
theorem upperBoundLoop_eq {greater : ν → Prop} [DecidablePred greater] (fuel : ℕ) (n : Option ν) :
    upperBoundLoop greater fuel h n res = lowerBoundLoop (fun a => ¬ greater a) fuel h n res := by
  induction fuel generalizing n res with
  | zero => rfl
  | succ fuel ih =>
    cases n with
    | none => rfl
    | some n =>
      rw [upperBoundLoop, lowerBoundLoop]
      by_cases hn : greater n
      · rw [if_pos hn, if_neg (not_not.mpr hn), ih]
      · rw [if_neg hn, if_pos hn, ih]

end Descent

/-! ## Iteration -/

section Visit

variable [DecidableEq ν] {h : Tree ν} {t : BinaryTree ν} {l₁ l l₂ : List ν}

/-- **The loop over a part of the sequence** visits its nodes, in order. -/
theorem Represents.visit (hr : h.Represents t) (ht : inorder t = l₁ ++ l ++ l₂) :
    Computes (fun fuel => h.visit l₂.head? fuel (l ++ l₂).head?) l := by
  induction l generalizing l₁ with
  | nil =>
    refine .step rfl (fun fuel => ?_) (.of_done fun _ => rfl)
    rw [List.nil_append, Tree.visit, if_pos rfl]
  | cons n l ih =>
    have hn : some n ≠ l₂.head? := by
      intro hlast
      have hnodup := hr.nodup
      rw [ht, List.append_assoc, List.cons_append] at hnodup
      have hmem : n ∈ l₂ := List.mem_of_head? hlast.symm
      exact (List.nodup_cons.mp (List.nodup_append.mp hnodup).2.1).1 (List.mem_append_right l hmem)
    have hnext : Computes (fun fuel => h.successorNode fuel (some n)) (l ++ l₂).head? :=
      hr.successorNode (by rw [ht, List.append_assoc, List.cons_append])
    have hrest := @ih (l₁ ++ [n]) (by rw [ht, List.append_assoc, List.append_assoc, List.append_assoc]; rfl)
    have hpass : Computes (fun fuel => h.successorNode fuel (some n) >>= fun next =>
        h.visit l₂.head? fuel next >>= fun rest => Outcome.done (n :: rest)) (n :: l) :=
      hnext.bind (g := fun fuel next => h.visit l₂.head? fuel next >>= fun rest => Outcome.done (n :: rest))
        (hrest.bind (g := fun _ rest => Outcome.done (n :: rest)) (.of_done fun _ => rfl))
    refine .step rfl (fun fuel => ?_) hpass
    rw [List.cons_append, List.head?_cons, Tree.visit, if_neg hn]
    rfl

/-- **The loop over the tree** visits every node once, in order. -/
theorem Represents.visitAll (hr : h.Represents t) : Computes (fun fuel => h.visitAll fuel) (inorder t) := by
  have hall := @Represents.visit ν _ h t [] (inorder t) [] hr (by simp)
  rw [List.append_nil] at hall
  exact hr.begin.bind (g := fun fuel it => h.visit none fuel it) hall

end Visit

/-! ## The order of insertion -/

section Insertion

variable [DecidableEq ν] (lt : ν → ν → Prop) [DecidableRel lt]

/-- The nodes of a tree in the order in which they were inserted. -/
inductive Inserted : Run ν → List ν → Prop where
  /-- an empty tree -/
  | start {s : Run ν} : s.Init → Inserted s []
  /-- a detached node is inserted -/
  | insert {h h' : Tree ν} {l order : List ν} {n : ν} {fuel : ℕ} : Inserted ⟨h, l⟩ order → n ∉ l →
      h.Detached n → h.insert lt fuel n = .done h' → Inserted ⟨h', insertOrdered lt n l⟩ (order ++ [n])
  /-- a node of the tree is removed -/
  | remove {h h' : Tree ν} {l order : List ν} {n : ν} {fuel : ℕ} : Inserted ⟨h, l⟩ order → n ∈ l →
      h.remove fuel n = .done h' → Inserted ⟨h', l.erase n⟩ (order.erase n)
  /-- other nodes change -/
  | other {h h' : Tree ν} {l order : List ν} : Inserted ⟨h, l⟩ order → (∀ a ∈ l, SameAt h h' a) →
      h'.root_ = h.root_ → Inserted ⟨h', l⟩ order

variable {lt} {s : Run ν} {order : List ν}

theorem Inserted.reachable (h : Inserted lt s order) : Reachable lt s := by
  induction h with
  | start hinit => exact .start hinit
  | insert _ hn hd hrun ih => exact ih.step (.insert hn hd hrun)
  | remove _ hn hrun ih => exact ih.step (.remove hn hrun)
  | other _ hsame hroot ih => exact ih.step (.other hsame hroot)

/-- Every reachable tree has such an order. -/
theorem exists_inserted (hs : Reachable lt s) : ∃ order, Inserted lt s order := by
  induction hs with
  | start hinit => exact ⟨[], .start hinit⟩
  | step _ hstep ih =>
    obtain ⟨order, hi⟩ := ih
    cases hstep with
    | insert hn hd hrun => exact ⟨_, hi.insert hn hd hrun⟩
    | remove hn hrun => exact ⟨_, hi.remove hn hrun⟩
    | other hsame hroot => exact ⟨_, hi.other hsame hroot⟩

/-- Two elements are equal in the order of the tree. -/
def Equal (lt : ν → ν → Prop) (a b : ν) : Prop := ¬ lt a b ∧ ¬ lt b a

instance (a b : ν) : Decidable (Equal lt a b) := inferInstanceAs (Decidable (_ ∧ _))

omit [DecidableEq ν] in
/-- A new element comes behind the elements that are equal to it. -/
theorem filter_insertOrdered [IsStrictWeakOrder ν lt] (n a : ν) (l : List ν) :
    (insertOrdered lt n l).filter (Equal lt a) =
      l.filter (Equal lt a) ++ [n].filter (Equal lt a) := by
  rw [insertOrdered, List.filter_append, ← List.singleton_append, List.filter_append, List.filter_filter,
    List.filter_filter]
  by_cases hna : lt n a
  · have hn : [n].filter (Equal lt a) = [] := by simp [Equal, hna]
    have hbefore : l.filter (fun b => decide (Equal lt a b) && decide (¬ lt n b)) = [] := by
      rw [List.filter_eq_nil_iff]
      intro b _ hb
      simp only [Bool.and_eq_true, decide_eq_true_eq] at hb
      exact hb.2 (lt_of_lt_of_not_lt hna hb.1.2)
    have hafter : l.filter (fun b => decide (Equal lt a b) && decide (lt n b)) = l.filter (Equal lt a) := by
      refine List.filter_congr fun b _ => ?_
      rw [Bool.and_eq_left_iff_imp, decide_eq_true_eq, decide_eq_true_eq]
      exact fun hb => lt_of_lt_of_not_lt hna hb.2
    rw [hn, hbefore, hafter, List.append_nil]
    rfl
  · have hbefore : l.filter (fun b => decide (Equal lt a b) && decide (¬ lt n b)) = l.filter (Equal lt a) := by
      refine List.filter_congr fun b _ => ?_
      rw [Bool.and_eq_left_iff_imp, decide_eq_true_eq, decide_eq_true_eq]
      exact fun hb => not_lt_trans hna hb.1
    have hafter : l.filter (fun b => decide (Equal lt a b) && decide (lt n b)) = [] := by
      rw [List.filter_eq_nil_iff]
      intro b _ hb
      simp only [Bool.and_eq_true, decide_eq_true_eq] at hb
      exact not_lt_trans hna hb.1.1 hb.2
    rw [hbefore, hafter, List.append_nil]

/-- **Equal elements are in the order of insertion.** -/
theorem Inserted.filter_eq [IsStrictWeakOrder ν lt] (h : Inserted lt s order) (a : ν) :
    s.list.filter (Equal lt a) = order.filter (Equal lt a) := by
  induction h with
  | start hinit => rw [hinit.2]
  | insert _ _ _ _ ih => rw [filter_insertOrdered, List.filter_append, ih]
  | remove _ _ _ ih => rw [← List.erase_filter, ← List.erase_filter, ih]
  | other _ _ _ ih => exact ih

end Insertion

/-! ## Reachable trees -/

section Reachable

variable [DecidableEq ν] {lt : ν → ν → Prop} [DecidableRel lt] {s : Run ν} {order : List ν}

/-- The pointers of a reachable tree form a binary tree of its nodes, whatever the
comparison. -/
theorem reachable_represents (hs : Reachable lt s) :
    ∃ t, s.tree.Represents t ∧ (inorder t).Perm s.list := by
  refine Reach.invariant (fun s => ∃ t, s.tree.Represents t ∧ (inorder t).Perm s.list) hs ?_ ?_
  · rintro s ⟨hroot, hlist⟩
    rw [hlist]
    exact ⟨.nil, ⟨hroot, trivial, List.nodup_nil⟩, .nil⟩
  · rintro s s' ⟨t, hr, hperm⟩ hstep
    cases hstep with
    | @insert h h' l n fuel hn hd hrun =>
      have hnew : n ∉ inorder t := fun hmem => hn (hperm.mem_iff.mp hmem)
      obtain ⟨h'', t', l₁, l₂, hcomp, hrep, hlist, hlist'⟩ :=
        @Represents.insert_links ν lt _ h t n _ hr hnew hd
      obtain rfl := hcomp.eq_of_done hrun
      refine ⟨t', hrep, ?_⟩
      rw [hlist] at hperm
      rw [hlist']
      have hsplit : (insertOrdered lt n l).Perm (n :: l) := by
        have hparts := List.filter_append_perm (fun b => decide (lt n b)) l
        refine List.perm_middle.trans ((List.perm_append_comm.trans ?_).cons n)
        simpa using hparts
      exact List.perm_middle.trans ((hperm.cons n).trans hsplit.symm)
    | @remove h h' l n fuel hn hrun =>
      obtain ⟨h'', t', hcomp, hrep, hlist, -⟩ := hr.remove (hperm.mem_iff.mpr hn)
      obtain rfl := hcomp.eq_of_done hrun
      refine ⟨t', hrep, ?_⟩
      rw [hlist]
      exact hperm.erase n
    | other hsame hroot =>
      refine ⟨t, ⟨hroot.trans hr.root, hr.hangs.congr fun a ha => ?_, hr.nodup⟩, hperm⟩
      exact hsame a (hperm.mem_iff.mp ha)

/-- **Iteration.** The pointers of a reachable tree form a binary tree; `begin` is its first
node in order, `successor_node` finds the next one of every node and the null pointer for
the last, and so the iterator visits every node once, in order, and ends. -/
theorem iteration (hs : Reachable lt s) :
    ∃ t, s.tree.Represents t ∧ (inorder t).Nodup ∧ (inorder t).Perm s.list ∧
      Computes (fun fuel => s.tree.begin fuel) (inorder t).head? ∧
      (∀ l₁ n l₂, inorder t = l₁ ++ n :: l₂ →
        Computes (fun fuel => s.tree.successorNode fuel (some n)) l₂.head?) ∧
      Computes (fun fuel => s.tree.visitAll fuel) (inorder t) := by
  obtain ⟨t, hr, hperm⟩ := reachable_represents hs
  exact ⟨t, hr, hr.nodup, hperm, hr.begin, fun _ _ _ ht => hr.successorNode ht, hr.visitAll⟩

/-- The inserted nodes are those of the tree. -/
theorem Inserted.mem_iff [IsStrictWeakOrder ν lt] (h : Inserted lt s order) (a : ν) : a ∈ order ↔ a ∈ s.list := by
  have hself : Equal lt a a := ⟨irrefl_of lt a, irrefl_of lt a⟩
  have horder : a ∈ order ↔ a ∈ order.filter (Equal lt a) := by simp [hself]
  rw [horder, ← h.filter_eq a]
  simp [hself]

/-- The comparisons with a key are consistent with the order of a sequence: the elements less
than the key come first, and those greater come last. -/
structure KeyConsistent (less greater : ν → Prop) (l : List ν) : Prop where
  /-- what comes before a lesser element is less -/
  less : l.Pairwise fun a b => less b → less a
  /-- what comes before an element that is not greater is not greater -/
  notGreater : l.Pairwise fun a b => ¬ greater b → ¬ greater a

omit [DecidableEq ν] in
/-- A list in which the elements with a property come first -/
theorem filter_append_filter_not {q : ν → Prop} [DecidablePred q] {l : List ν}
    (h : l.Pairwise fun a b => q b → q a) : l.filter (fun a => q a) ++ l.filter (fun a => ¬ q a) = l := by
  induction l with
  | nil => rfl
  | cons a l ih =>
    obtain ⟨ha, hl⟩ := List.pairwise_cons.mp h
    by_cases hq : q a
    · rw [List.filter_cons_of_pos (by simpa using hq), List.filter_cons_of_neg (by simpa using hq),
        List.cons_append, ih hl]
    · have hnone : (a :: l).filter (fun b => q b) = [] := by
        rw [List.filter_eq_nil_iff]
        intro b hb hqb
        rw [decide_eq_true_eq] at hqb
        obtain rfl | hb := List.mem_cons.mp hb
        · exact hq hqb
        · exact hq (ha b hb hqb)
      have hall : (a :: l).filter (fun b => ¬ q b) = a :: l := by
        rw [List.filter_eq_self]
        intro b hb
        rw [decide_eq_true_eq]
        obtain rfl | hb := List.mem_cons.mp hb
        · exact hq
        · exact fun hqb => hq (ha b hb hqb)
      rw [hnone, hall, List.nil_append]

section Key

variable {less greater : ν → Prop} [DecidablePred less] [DecidablePred greater] {l : List ν}

omit [DecidableEq ν] in
/-- **The parts of the sequence** before, between and behind the bounds of a key -/
theorem KeyConsistent.split (h : KeyConsistent less greater l) (hless : ∀ a ∈ l, less a → ¬ greater a) :
    l = l.filter (fun a => less a) ++ l.filter (fun a => ¬ less a ∧ ¬ greater a) ++
        l.filter (fun a => greater a) ∧
      l.find? (fun a => ¬ less a) =
        (l.filter (fun a => ¬ less a ∧ ¬ greater a) ++ l.filter fun a => greater a).head? := by
  have hrest := filter_append_filter_not (h.notGreater.filter fun a => ¬ less a)
  have hmid : (l.filter fun a => ¬ less a).filter (fun a => ¬ greater a) =
      l.filter fun a => ¬ less a ∧ ¬ greater a := by
    rw [List.filter_filter]
    refine List.filter_congr fun a _ => ?_
    simp [Bool.and_comm]
  have hlast : (l.filter fun a => ¬ less a).filter (fun a => ¬ ¬ greater a) = l.filter fun a => greater a := by
    rw [List.filter_filter]
    refine List.filter_congr fun a ha => ?_
    have hna := hless a ha
    by_cases hg : greater a
    · have hl : ¬ less a := fun hl => hna hl hg
      simp [hg, hl]
    · simp [hg]
  rw [hmid, hlast] at hrest
  constructor
  · rw [List.append_assoc, hrest, filter_append_filter_not h.less]
  · rw [hrest, List.head?_filter]

/-- **The bounds of a key.** In a reachable tree, for a key that is consistent with its order,
`lower_bound` finds the first element that is not less than the key and `upper_bound` the first
one that is greater, or the end if there is none. The iterator visits exactly the equivalent
elements between them, in the order of the tree; among them, equal elements of the tree are in
the order in which they were inserted. -/
theorem key_bounds [IsStrictWeakOrder ν lt] (h : Inserted lt s order) (hkey : KeyConsistent less greater s.list) :
    Computes (fun fuel => s.tree.lowerBound less fuel) (s.list.find? fun a => ¬ less a) ∧
      Computes (fun fuel => s.tree.upperBound greater fuel) (s.list.find? fun a => greater a) ∧
      ((∀ a ∈ s.list, less a → ¬ greater a) → ∃ visited,
        Computes (fun fuel => s.tree.visitEqual less greater fuel) visited ∧
          visited = s.list.filter (fun a => ¬ less a ∧ ¬ greater a) ∧
          (∀ a, visited.filter (Equal lt a) =
            (order.filter fun a => ¬ less a ∧ ¬ greater a).filter (Equal lt a)) ∧
          ((∀ a ∈ visited, ∀ b ∈ visited, Equal lt a b) →
            visited = order.filter fun a => ¬ less a ∧ ¬ greater a)) := by
  obtain ⟨t, hr, hlist, -⟩ := reachable_inv h.reachable
  have hlower : Computes (fun fuel => s.tree.lowerBound less fuel) (s.list.find? fun a => ¬ less a) := by
    have hdescent := @lowerBoundLoop_computes ν s.tree t none none less _ hr.hangs
      (by rw [hlist]; exact hkey.less)
    rw [← hr.root, hlist, Option.or_none] at hdescent
    exact hdescent
  have hupper : Computes (fun fuel => s.tree.upperBound greater fuel) (s.list.find? fun a => greater a) := by
    have hdescent := @lowerBoundLoop_computes ν s.tree t none none (fun a => ¬ greater a) _ hr.hangs
      (by rw [hlist]; exact hkey.notGreater)
    rw [← hr.root, hlist, Option.or_none] at hdescent
    simpa only [upperBound, upperBoundLoop_eq, not_not] using hdescent
  refine ⟨hlower, hupper, fun hless => ⟨_, ?_, rfl, fun a => ?_, fun hequal => ?_⟩⟩
  · obtain ⟨hsplit, hfirst⟩ := hkey.split hless
    have hvisit := hr.visit (hlist.trans hsplit)
    rw [← hfirst, List.head?_filter] at hvisit
    have hfrom := hupper.bind (g := fun fuel last => s.tree.visit last fuel (s.list.find? fun a => ¬ less a)) hvisit
    exact hlower.bind (g := fun fuel first => s.tree.upperBound greater fuel >>= fun last =>
      s.tree.visit last fuel first) hfrom
  · rw [List.filter_comm, h.filter_eq a, List.filter_comm]
  · have hmem : ∀ a, a ∈ order.filter (fun a => ¬ less a ∧ ¬ greater a) ↔
        a ∈ s.list.filter fun a => ¬ less a ∧ ¬ greater a := by
      intro a
      rw [List.mem_filter, List.mem_filter, h.mem_iff]
    rcases hvisited : s.list.filter fun a => ¬ less a ∧ ¬ greater a with _ | ⟨a, rest⟩
    · refine (List.eq_nil_iff_forall_not_mem.mpr fun a ha => ?_).symm
      have hnil := (hmem a).mp ha
      rw [hvisited] at hnil
      cases hnil
    · rw [← hvisited]
      have ha : a ∈ s.list.filter fun a => ¬ less a ∧ ¬ greater a := by
        rw [hvisited]
        exact List.mem_cons_self ..
      have hall : (s.list.filter fun a => ¬ less a ∧ ¬ greater a).filter (Equal lt a) =
          s.list.filter fun a => ¬ less a ∧ ¬ greater a := by
        rw [List.filter_eq_self]
        exact fun b hb => decide_eq_true (hequal a ha b hb)
      have hall' : (order.filter fun a => ¬ less a ∧ ¬ greater a).filter (Equal lt a) =
          order.filter fun a => ¬ less a ∧ ¬ greater a := by
        rw [List.filter_eq_self]
        exact fun b hb => decide_eq_true (hequal a ha b ((hmem b).mp hb))
      rw [← hall, ← hall', List.filter_comm, h.filter_eq a, List.filter_comm]

end Key

end Reachable

/-! ## Two runs -/

/-- Insert 20, 10, 30 and 25, which is equal to 20, and remove 20. -/
theorem inserted_tens : ∃ s : Run ℕ, Inserted TensLt s [10, 30, 25] ∧ s.list = [10, 25, 30] := by
  have hs₀ : Inserted TensLt ⟨⟨fun _ => none, fun _ => none, fun _ => none, none⟩, []⟩ [] :=
    .start ⟨rfl, rfl⟩
  have hs₁ : Inserted TensLt ⟨_, [20]⟩ [20] :=
    @Inserted.insert ℕ _ _ _ _ _ _ _ 20 5 hs₀ (by decide) ⟨rfl, rfl, rfl⟩ rfl
  have hs₂ : Inserted TensLt ⟨_, [10, 20]⟩ [20, 10] :=
    @Inserted.insert ℕ _ _ _ _ _ _ _ 10 5 hs₁ (by decide) ⟨rfl, rfl, rfl⟩ rfl
  have hs₃ : Inserted TensLt ⟨_, [10, 20, 30]⟩ [20, 10, 30] :=
    @Inserted.insert ℕ _ _ _ _ _ _ _ 30 5 hs₂ (by decide) ⟨rfl, rfl, rfl⟩ rfl
  have hs₄ : Inserted TensLt ⟨_, [10, 20, 25, 30]⟩ [20, 10, 30, 25] :=
    @Inserted.insert ℕ _ _ _ _ _ _ _ 25 5 hs₃ (by decide) ⟨rfl, rfl, rfl⟩ rfl
  have hs₅ : Inserted TensLt ⟨_, [10, 25, 30]⟩ [10, 30, 25] :=
    @Inserted.remove ℕ _ _ _ _ _ _ _ 20 5 hs₄ (by decide) rfl
  exact ⟨_, hs₅, rfl⟩

theorem iteration_tens : ∃ s : Run ℕ, s.list = [10, 25, 30] ∧
    ∃ t, s.tree.Represents t ∧ (inorder t).Nodup ∧ (inorder t).Perm s.list ∧
      Computes (fun fuel => s.tree.begin fuel) (inorder t).head? ∧
      (∀ l₁ n l₂, inorder t = l₁ ++ n :: l₂ →
        Computes (fun fuel => s.tree.successorNode fuel (some n)) l₂.head?) ∧
      Computes (fun fuel => s.tree.visitAll fuel) (inorder t) := by
  obtain ⟨s, hs, hlist⟩ := inserted_tens
  exact ⟨s, hlist, iteration hs.reachable⟩

/-- Search for the tens from 20 to 30. -/
theorem bounds_tens : ∃ s : Run ℕ, s.list = [10, 25, 30] ∧
    Computes (fun fuel => s.tree.lowerBound (fun a => a < 20) fuel) (some 25) ∧
      Computes (fun fuel => s.tree.upperBound (fun a => 30 ≤ a) fuel) (some 30) ∧
      Computes (fun fuel => s.tree.visitEqual (fun a => a < 20) (fun a => 30 ≤ a) fuel) [25] := by
  obtain ⟨s, hs, hlist⟩ := inserted_tens
  have hkey : KeyConsistent (fun a => a < 20) (fun a => 30 ≤ a) s.list := by
    rw [hlist]
    exact ⟨by decide, by decide⟩
  obtain ⟨hlower, hupper, hvisit⟩ := key_bounds hs hkey
  obtain ⟨visited, hcomp, hvisited, -⟩ := hvisit (by rw [hlist]; decide)
  rw [hlist] at hlower hupper hvisited
  subst hvisited
  exact ⟨s, hlist, hlower, hupper, hcomp⟩

/-- A key can be equivalent to elements that are not equal in the tree: 25 was inserted before
21, and the iterator visits 21 first. -/
theorem bounds_order : ¬ ∀ (lt : ℕ → ℕ → Prop) [DecidableRel lt] [IsStrictWeakOrder ℕ lt] (s : Run ℕ)
    (order : List ℕ) (less greater : ℕ → Prop) [DecidablePred less] [DecidablePred greater],
    Inserted lt s order → KeyConsistent less greater s.list → (∀ a ∈ s.list, less a → ¬ greater a) →
      Computes (fun fuel => s.tree.visitEqual less greater fuel)
        (order.filter fun a => ¬ less a ∧ ¬ greater a) := by
  intro h
  have horder : IsStrictWeakOrder ℕ (· < ·) := by
    constructor
    intro a b c hab hbc
    omega
  have hs₀ : Inserted (fun a b : ℕ => a < b) ⟨⟨fun _ => none, fun _ => none, fun _ => none, none⟩, []⟩ [] :=
    .start ⟨rfl, rfl⟩
  have hs₁ : Inserted (· < ·) ⟨_, [25]⟩ [25] :=
    @Inserted.insert ℕ _ _ _ _ _ _ _ 25 5 hs₀ (by decide) ⟨rfl, rfl, rfl⟩ rfl
  have hs₂ : Inserted (· < ·) ⟨_, [21, 25]⟩ [25, 21] :=
    @Inserted.insert ℕ _ _ _ _ _ _ _ 21 5 hs₁ (by decide) ⟨rfl, rfl, rfl⟩ rfl
  have hcomp := h (· < ·) _ _ (fun a => a < 20) (fun a => 30 ≤ a) hs₂ ⟨by decide, by decide⟩ (by decide)
  have hvisit : [25, 21] = [21, 25] := hcomp.eq_of_done (n := 10) rfl
  revert hvisit
  decide

end Tree

end Attos

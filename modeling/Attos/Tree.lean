import Attos.Lib.Outcome
import Mathlib.Logic.Function.Basic

/-!
# The intrusive tree

The binary search tree of `attos/tree.h`. Its nodes are embedded in the
containers they order, carry pointers to their parent and their children, and
are linked and unlinked by pointer surgery alone.

A node is named by a value of a type `ν`; a pointer is an `Option ν`, with `none`
for the null pointer. Loops carry a fuel argument. An assertion aborts when it
fails, as it does in the tests; the kernel compiles assertions out, which makes
no difference to a run in which none of them fails.
-/

namespace Attos

open Lib

variable {ν : Type} [DecidableEq ν]

/-- The nodes in memory and the root pointer of a tree. -/
structure Tree (ν : Type) : Type where
  /-- `n->parent` -/
  parent : ν → Option ν
  /-- `n->left` -/
  left : ν → Option ν
  /-- `n->right` -/
  right : ν → Option ν
  /-- the root of the tree -/
  root_ : Option ν

/-- The address of a pointer to a node: a `tree_node**`. -/
inductive TreeLink (ν : Type) : Type where
  /-- `&root_` -/
  | root : TreeLink ν
  /-- `&n->left` -/
  | left : ν → TreeLink ν
  /-- `&n->right` -/
  | right : ν → TreeLink ν
  deriving DecidableEq

namespace Tree

/-- `n->parent = p` -/
def setParent (t : Tree ν) (n : ν) (p : Option ν) : Tree ν :=
  { t with parent := Function.update t.parent n p }

/-- `n->left = p` -/
def setLeft (t : Tree ν) (n : ν) (p : Option ν) : Tree ν :=
  { t with left := Function.update t.left n p }

/-- `n->right = p` -/
def setRight (t : Tree ν) (n : ν) (p : Option ν) : Tree ν :=
  { t with right := Function.update t.right n p }

/-- `*link` -/
def load (t : Tree ν) : TreeLink ν → Option ν
  | .root => t.root_
  | .left n => t.left n
  | .right n => t.right n

/-- `*link = p` -/
def store (t : Tree ν) : TreeLink ν → Option ν → Tree ν
  | .root, p => { t with root_ := p }
  | .left n, p => t.setLeft n p
  | .right n, p => t.setRight n p

/-! ## Iteration -/

/-- The loop of `minimum_node`, from the node `n` on. -/
def minimumLoop : ℕ → Tree ν → ν → Outcome (Option ν)
  | 0, _, _ => .running
  | fuel + 1, t, n =>
    match t.left n with
    | some l => minimumLoop fuel t l
    | none => .done (some n)

/-- The leftmost node below `n`. -/
def minimumNode (fuel : ℕ) (t : Tree ν) : Option ν → Outcome (Option ν)
  | none => .done none
  | some n => minimumLoop fuel t n

/-- The upward search of `successor_node`. -/
def climbLoop : ℕ → Tree ν → ν → Outcome (Option ν)
  | 0, _, _ => .running
  | fuel + 1, t, n =>
    match t.parent n with
    | none => .done none
    | some p =>
      if t.right p = some n then
        climbLoop fuel t p
      else do
        Outcome.require (t.left p = some n)
        pure (some p)

/-- The next node in order. -/
def successorNode (fuel : ℕ) (t : Tree ν) : Option ν → Outcome (Option ν)
  | none => .done none
  | some n =>
    match t.right n with
    | some r => minimumNode fuel t (some r)
    | none => climbLoop fuel t n

/-- `begin()` -/
def begin (fuel : ℕ) (t : Tree ν) : Outcome (Option ν) := minimumNode fuel t t.root_

/-- The loop `for (; it != last; ++it)`, and the nodes that it visits. -/
def visit (last : Option ν) : ℕ → Tree ν → Option ν → Outcome (List ν)
  | 0, _, _ => .running
  | fuel + 1, t, it =>
    if it = last then
      .done []
    else do
      let n ← Outcome.requireSome it
      let next ← t.successorNode fuel (some n)
      let rest ← visit last fuel t next
      pure (n :: rest)

/-- The loop over a tree, `for (auto& c : t)`. -/
def visitAll (fuel : ℕ) (t : Tree ν) : Outcome (List ν) := do
  let it ← t.begin fuel
  t.visit none fuel it

/-! ## Searching -/

/-- The descent of `lower_bound`: `less n` is `compare(n, k)`, and `res` the best
result so far. -/
def lowerBoundLoop (less : ν → Prop) [DecidablePred less] :
    ℕ → Tree ν → Option ν → Option ν → Outcome (Option ν)
  | 0, _, _, _ => .running
  | fuel + 1, t, n, res =>
    match n with
    | none => .done res
    | some n =>
      if less n then lowerBoundLoop less fuel t (t.right n) res
      else lowerBoundLoop less fuel t (t.left n) (some n)

/-- `lower_bound` -/
def lowerBound (less : ν → Prop) [DecidablePred less] (fuel : ℕ) (t : Tree ν) : Outcome (Option ν) :=
  lowerBoundLoop less fuel t t.root_ none

/-- The descent of `upper_bound`: `greater n` is `compare(k, n)`. -/
def upperBoundLoop (greater : ν → Prop) [DecidablePred greater] :
    ℕ → Tree ν → Option ν → Option ν → Outcome (Option ν)
  | 0, _, _, _ => .running
  | fuel + 1, t, n, res =>
    match n with
    | none => .done res
    | some n =>
      if greater n then upperBoundLoop greater fuel t (t.left n) (some n)
      else upperBoundLoop greater fuel t (t.right n) res

/-- `upper_bound` -/
def upperBound (greater : ν → Prop) [DecidablePred greater] (fuel : ℕ) (t : Tree ν) :
    Outcome (Option ν) :=
  upperBoundLoop greater fuel t t.root_ none

/-- The loop from `lower_bound` to `upper_bound`. -/
def visitEqual (less greater : ν → Prop) [DecidablePred less] [DecidablePred greater] (fuel : ℕ)
    (t : Tree ν) : Outcome (List ν) := do
  let first ← t.lowerBound less fuel
  let last ← t.upperBound greater fuel
  t.visit last fuel first

/-! ## Insertion -/

/-- The descent of `do_insert`: the link to store the node in and the parent. -/
def insertLoop (lt : ν → ν → Prop) [DecidableRel lt] (node : ν) :
    ℕ → Tree ν → TreeLink ν → Option ν → Outcome (TreeLink ν × Option ν)
  | 0, _, _, _ => .running
  | fuel + 1, t, link, parent =>
    match t.load link with
    | none => .done (link, parent)
    | some p =>
      insertLoop lt node fuel t (if lt node p then .left p else .right p) (some p)

/-- `do_insert` at the root. -/
def insert (lt : ν → ν → Prop) [DecidableRel lt] (fuel : ℕ) (t : Tree ν) (node : ν) :
    Outcome (Tree ν) := do
  Outcome.require (t.parent node = none)
  Outcome.require (t.left node = none)
  Outcome.require (t.right node = none)
  let (link, parent) ← insertLoop lt node fuel t .root none
  pure ((t.setParent node parent).store link (some node))

/-! ## Removal -/

/-- Let the parent of the removed node point to its replacement. -/
def updateParentOf (t : Tree ν) (removedNode : ν) (replacementNode : Option ν) :
    Outcome (Tree ν) :=
  match t.parent removedNode with
  | none => .done t
  | some p =>
    if t.left p = some removedNode then
      .done (t.setLeft p replacementNode)
    else do
      Outcome.require (t.right p = some removedNode)
      pure (t.setRight p replacementNode)

/-- Set the parent of a node that a pointer points to. -/
def setParentOf (t : Tree ν) (n : Option ν) (p : Option ν) : Tree ν :=
  match n with
  | some n => t.setParent n p
  | none => t

/-- Let the children of the node point to it. -/
def reparentChildNodes (t : Tree ν) (n : ν) : Tree ν :=
  let t := t.setParentOf (t.left n) (some n)
  t.setParentOf (t.right n) (some n)

/-- `std::swap(a->left, b->left)` -/
def swapLeft (t : Tree ν) (a b : ν) : Tree ν := (t.setLeft a (t.left b)).setLeft b (t.left a)

/-- `std::swap(a->right, b->right)` -/
def swapRight (t : Tree ν) (a b : ν) : Tree ν := (t.setRight a (t.right b)).setRight b (t.right a)

/-- `std::swap(a->parent, b->parent)` -/
def swapParent (t : Tree ν) (a b : ν) : Tree ν :=
  (t.setParent a (t.parent b)).setParent b (t.parent a)

/-- Swap places with a successor that is the right child. -/
def swapWithChild (t : Tree ν) (node successor : ν) : Outcome (Tree ν) := do
  Outcome.require (t.parent successor = some node)
  let t ← t.updateParentOf node (some successor)
  let t := t.setParent successor (t.parent node)
  let t := t.swapLeft node successor
  let t := t.setRight node (t.right successor)
  pure (t.setRight successor (some node))

/-- Swap places with a successor further down. -/
def swapWithDescendant (t : Tree ν) (node successor : ν) : Outcome (Tree ν) := do
  Outcome.require (t.left node ≠ some successor)
  Outcome.require (t.parent node ≠ some successor)
  let t ← t.updateParentOf successor (some node)
  let t ← t.updateParentOf node (some successor)
  let t := t.swapLeft node successor
  let t := t.swapRight node successor
  pure (t.swapParent node successor)

/-- Swap places with the successor. -/
def swapPlaces (t : Tree ν) (node successor : ν) : Outcome (Tree ν) :=
  if t.right node = some successor then t.swapWithChild node successor
  else t.swapWithDescendant node successor

/-- Swap places with the successor, and adjust the children and the root. -/
def swapWithSuccessor (t : Tree ν) (node successor : ν) : Outcome (Tree ν) := do
  let t ← t.swapPlaces node successor
  let t := t.reparentChildNodes node
  let t := t.reparentChildNodes successor
  pure (if t.root_ = some node then { t with root_ := some successor } else t)

/-- The search loop of `remove`: move the node down until it has at most one
child, and cut this child off. -/
def removeLoop (node : ν) : ℕ → Tree ν → Outcome (Tree ν × Option ν)
  | 0, _ => .running
  | fuel + 1, t =>
    match t.left node, t.right node with
    | some _, some _ => do
      let successor ← t.successorNode fuel (some node)
      let successor ← Outcome.requireSome successor
      let t ← t.swapWithSuccessor node successor
      removeLoop node fuel t
    | some l, none => .done (t.setLeft node none, some l)
    | none, some r => .done (t.setRight node none, some r)
    | none, none => .done (t, none)

/-- Let the parent, the replacement and the root forget the node. -/
def unlink (t : Tree ν) (node : ν) (replacementNode : Option ν) : Outcome (Tree ν) := do
  Outcome.require (t.left node = none)
  Outcome.require (t.right node = none)
  let t ← t.updateParentOf node replacementNode
  let t := t.setParentOf replacementNode (t.parent node)
  let t := if t.root_ = some node then { t with root_ := replacementNode } else t
  pure (t.setParent node none)

/-- Take the node out of the tree. -/
def remove (fuel : ℕ) (t : Tree ν) (node : ν) : Outcome (Tree ν) := do
  let (t, replacementNode) ← t.removeLoop node fuel
  t.unlink node replacementNode

end Tree

end Attos

import Attos.Lib.Outcome
import Attos.Lib.Word
import Mathlib.Logic.Function.Basic

/-!
# The simple heap

`simple_heap` of `attos/mem.cpp`: a first-fit allocator whose free blocks form
a singly linked list, sorted by address, that lives inside the free blocks
themselves. A free block at address `p` keeps its size in the word at `p` and
the pointer to the next free block in the word at `p + 8`; the list ends in
`end_of_list`, the address `~0`.

Memory is the function from the address of a 64-bit word to its value. Every
loop over the list carries a fuel argument of `maxNodes`, which no list of
disjoint nodes in a 64-bit address space can use up.
-/

namespace Attos

open Lib

/-- `sizeof(free_node)`: the size word and the next pointer. -/
def nodeSize : ℕ := 16

/-- The pointer that ends the free list. -/
def endOfList : ℕ := 2 ^ 64 - 1

/-- More nodes than fit in the address space; the fuel of the list loops. -/
def maxNodes : ℕ := 2 ^ 60

/-- A heap over the memory `[base_, end_)`. -/
structure SimpleHeap : Type where
  /-- the first managed address -/
  base_ : ℕ
  /-- the address after the last managed one -/
  end_ : ℕ
  /-- the first free node -/
  free_ : ℕ
  /-- the 64-bit word stored at each address -/
  mem : ℕ → ℕ

/-- A place that holds a node pointer: the `fp` of `alloc`. -/
inductive Link : Type where
  /-- the member `free_` -/
  | head : Link
  /-- the `next` field of a node -/
  | next : ℕ → Link

namespace SimpleHeap

/-- `f->size` -/
def size (h : SimpleHeap) (f : ℕ) : ℕ := h.mem f

/-- `f->next` -/
def next (h : SimpleHeap) (f : ℕ) : ℕ := h.mem (f + 8)

/-- `f->size = v` -/
def setSize (h : SimpleHeap) (f v : ℕ) : SimpleHeap :=
  { h with mem := Function.update h.mem f v }

/-- `f->next = v` -/
def setNext (h : SimpleHeap) (f v : ℕ) : SimpleHeap :=
  { h with mem := Function.update h.mem (f + 8) v }

/-- `*fp` -/
def load (h : SimpleHeap) : Link → ℕ
  | .head => h.free_
  | .next f => h.next f

/-- `*fp = v` -/
def store (h : SimpleHeap) : Link → ℕ → SimpleHeap
  | .head, v => { h with free_ := v }
  | .next f, v => h.setNext f v

/-- Merge the node `f` with the nodes that directly follow it in memory. -/
def coalesceFrom : ℕ → SimpleHeap → ℕ → Outcome SimpleHeap
  | 0, _, _ => .running
  | n + 1, h, f =>
    if f ≠ endOfList ∧ h.next f ≠ endOfList ∧ u64 (f + h.size f) = h.next f then
      let h := h.setSize f (u64 (h.size f + h.size (h.next f)))
      let h := h.setNext f (h.next (h.next f))
      coalesceFrom n h f
    else
      .done h

/-- The node just before the insertion point of `newFree`, searched from
`prev` on. -/
def findPrev (h : SimpleHeap) (newFree : ℕ) : ℕ → ℕ → Outcome ℕ
  | 0, _ => .running
  | n + 1, prev =>
    if h.next prev ≠ endOfList ∧ h.next prev < newFree then
      h.findPrev newFree n (h.next prev)
    else
      .done prev

/-- Put the block into the free list and coalesce from the insertion point. -/
def insertFree (h : SimpleHeap) (ptr size : ℕ) : Outcome SimpleHeap :=
  let h := (h.setSize ptr size).setNext ptr endOfList
  if h.free_ = endOfList ∨ ptr < h.free_ then
    let h := h.setNext ptr h.free_
    coalesceFrom maxNodes { h with free_ := ptr } ptr
  else do
    let prev ← h.findPrev ptr maxNodes h.free_
    let h := h.setNext ptr (h.next prev)
    let h := h.setNext prev ptr
    coalesceFrom maxNodes h prev

/-- The constructor, over the memory contents `mem`. -/
def new (mem : ℕ → ℕ) (base length : ℕ) : Outcome SimpleHeap := do
  Outcome.require (length ≥ nodeSize)
  Outcome.require (length % nodeSize = 0)
  insertFree ⟨base, u64 (base + length), endOfList, mem⟩ base length

/-- The first link, from `fp` on, to a node of at least `size` bytes, or the
last link of the list. -/
def findFit (h : SimpleHeap) (size : ℕ) : ℕ → Link → Outcome Link
  | 0, _ => .running
  | n + 1, fp =>
    if h.load fp ≠ endOfList ∧ h.size (h.load fp) < size then
      h.findFit size n (.next (h.load fp))
    else
      .done fp

/-- Take `size` bytes from the front of the block `*fp` (the second half of
`alloc`). -/
def takeFrom (h : SimpleHeap) (fp : Link) (size : ℕ) : Outcome (ℕ × SimpleHeap) := do
  Outcome.require (h.load fp ≠ endOfList)
  let res := h.load fp
  let nextFree := u64 (res + size / nodeSize * nodeSize)
  let freeSize := sub64 (h.size res) size
  if freeSize ≠ 0 then
    let h := h.setSize nextFree freeSize
    let h := h.setNext nextFree (h.next res)
    .done (res, h.store fp nextFree)
  else
    .done (res, h.store fp (h.next res))

/-- Take `size` bytes from the first block that is large enough. -/
def alloc (h : SimpleHeap) (size : ℕ) : Outcome (ℕ × SimpleHeap) := do
  let fp ← h.findFit size maxNodes .head
  h.takeFrom fp size

/-- Give back the block at `ptr`. -/
def free (h : SimpleHeap) (ptr size : ℕ) : Outcome SimpleHeap := do
  Outcome.require (h.base_ ≤ ptr ∧ u64 (ptr + size) ≤ h.end_)
  h.insertFree ptr size

/-- The check of the destructor: everything has been given back. -/
def destroy (h : SimpleHeap) : Outcome Unit :=
  Outcome.require (h.free_ = h.base_ ∧ h.size h.free_ = sub64 h.end_ h.base_)

end SimpleHeap

end Attos

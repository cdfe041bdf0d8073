import Attos.Aml.ParseState

/-!
# AML parse trees

A node that stands for a term or for an operation owns only its children (`Term`).
The nodes of objects also own a registration in the name space, which they get rid
of when they are destroyed (`Node`). After the constructor the registration is that
of the node itself, except that the registration of a container can be one that is
ignored: then the container was merged into another one, to which it is linked.

The heap knows of the nodes that own a registration, since only those are reached by
pointers from outside of the tree. They are numbered in the order in which they are
made.
-/

namespace Attos.Aml

open Lib Outcome

/-- The classes of node without a registration that a term can have: `simple_node`,
`text_node`, `const_node`, `buffer_node`, `package_node`, `op_node_base` and
`method_call_node`. A pointer to a child that can be null is an option. -/
inductive Term : Type where
  /-- `simple_node` -/
  | simple (op : Opcode)
  /-- `text_node` -/
  | text (op : Opcode) (name : Name)
  /-- `const_node`: the value and the number of its bytes -/
  | const (value size : ℕ)
  /-- `buffer_node` -/
  | buffer (bufferSize : Option Term) (data : List UInt8)
  /-- `package_node` -/
  | package (nodes : List Term)
  /-- `op_node_base`: the arguments and the target -/
  | op (name : String) (args : List (Option Term)) (target : Option Term)
  /-- `method_call_node` -/
  | methodCall (method : NodePtr) (args : List Term)

/-- `op` of a term -/
def Term.opcode : Term → Opcode
  | simple code => code
  | text code _ => code
  | const _ _ => .constant
  | buffer _ _ => .buffer
  | package _ => .package
  | op _ _ _ => .invalid
  | methodCall _ _ => .methodCall

/-- A node of the parse tree. -/
inductive Node : Type where
  /-- a term -/
  | term (t : Term)
  /-- `method_node` -/
  | method (this : NodePtr) (name : Name) (flags : UInt8) (statements : ParseState)
  /-- `name_node` -/
  | name (this : NodePtr) (name : Name) (obj : Term)
  /-- `named_field_node` -/
  | namedField (this : NodePtr) (name : Name) (len : ℕ)
  /-- `field_node` -/
  | field (name : Name) (flags : UInt8) (fields : List Node)
  /-- `op_region_node` -/
  | opRegion (name : Name) (space : UInt8) (offset len : Option Term)
  /-- `if_node` -/
  | if_ (predicate : Term) (ifStatements : List Node) (elseStatements : Option (List Node))
  /-- `while_node` -/
  | while_ (predicate : Term) (statements : List Node)
  /-- `mutex_node` -/
  | mutex (name : Name) (flags : UInt8)
  /-- `create_field_node` -/
  | createField (this : NodePtr) (type : Opcode) (name : Name) (buffer index : Option Term)
  /-- `container_node`, and whether its registration is ignored -/
  | container (this : NodePtr) (ignored : Bool) (op : Opcode) (nodes : List Node)

/-- `op` of a node -/
def Node.opcode : Node → Opcode
  | term t => t.opcode
  | method _ _ _ _ => .method
  | name _ _ _ => .name
  | namedField _ _ _ => .namedField
  | field _ _ _ => .field
  | opRegion _ _ _ _ => .invalid
  | if_ _ _ _ => .invalid
  | while_ _ _ => .invalid
  | mutex _ _ => .invalid
  | createField _ type _ _ _ => type
  | container _ _ code _ => code

/-- What is read of a node through a pointer to it. -/
structure NodeInfo : Type where
  /-- `op` -/
  op : Opcode
  /-- `is_container` -/
  isContainer : Bool
  /-- `flags_` of a method -/
  flags_ : UInt8
  /-- `next_` of a container -/
  next_ : Option NodePtr
  /-- `prev_` of a container -/
  prev_ : Option NodePtr

/-- `arg_count` of a method -/
def NodeInfo.argCount (n : NodeInfo) : ℕ := (n.flags_ &&& 0x07).toNat

/-- A node that is neither a method nor a container. -/
def NodeInfo.plain (op : Opcode) : NodeInfo := ⟨op, false, 0, none, none⟩

/-- The state that the parser changes. -/
structure World : Type where
  /-- the name space -/
  ns : NameSpace
  /-- the nodes that are alive -/
  nodes : NodePtr → Option NodeInfo
  /-- the number of nodes that were made -/
  made : NodePtr

namespace World

/-- The node that a pointer points to. -/
def get (w : World) (p : NodePtr) : Outcome NodeInfo := requireSome (w.nodes p)

/-- Change a node. -/
def set (w : World) (p : NodePtr) (n : NodeInfo) : World :=
  { w with nodes := Function.update w.nodes p (some n) }

/-- End the life of a node. -/
def kill (w : World) (p : NodePtr) : World :=
  { w with nodes := Function.update w.nodes p none }

/-- Make a node. -/
def make (w : World) (n : NodeInfo) : World :=
  { w with nodes := Function.update w.nodes w.made (some n), made := w.made + 1 }

/-- Make a node that owns a registration, and provide the node for it. -/
def makeRegistered (w : World) (reg : ScopeRegistration) (n : NodeInfo) : Outcome (World × NodePtr) := do
  let this := w.made
  let (_, ns) ← w.ns.provide reg this n.op
  pure ({ w.make n with ns := ns }, this)

/-- Open a scope. -/
def openScope (w : World) (name : Name) : Outcome (ScopeRegistration × World) := do
  let (reg, ns) ← w.ns.openScope name
  pure (reg, { w with ns := ns })

/-- `mark_dead` -/
def markDead (w : World) (reg : ScopeRegistration) : Outcome (ScopeRegistration × World) := do
  -- the address of `dead_scope_` is not used
  let (reg, ns) ← w.ns.provide reg 0 .deadScope
  pure (reg, { w with ns := ns })

/-- `make_container_node`. The node is not provided for a registration that is already
ignored. -/
def makeContainer (w : World) (reg : ScopeRegistration) (op : Opcode) :
    Outcome (World × NodePtr × Bool) :=
  let info : NodeInfo := ⟨op, true, 0, none, none⟩
  if reg.node_ = .ignore then
    pure (w.make info, w.made, true)
  else do
    let (w, this) ← w.makeRegistered reg info
    pure (w, this, false)

/-- The loop of `merge` to the last container that is linked to one -/
def lastLinked (w : World) : ℕ → NodePtr → Outcome NodePtr
  | 0, _ => running
  | fuel + 1, before => do
      let n ← w.get before
      match n.next_ with
      | none => pure before
      | some next => w.lastLinked fuel next

/-- `merge` -/
def merge (w : World) (fuel : ℕ) (this other : NodePtr) : Outcome World := do
  let o ← w.get other
  require (o.isContainer = true)
  require (o.op = .scope ∨ o.op = .device)
  let n ← w.get this
  require (n.op = .scope ∨ n.op = .device)
  require (n.prev_ = none)
  require (o.prev_ = none)
  require (o.next_ = none)
  let before ← w.lastLinked fuel this
  let b ← w.get before
  let w := w.set before { b with next_ := some other }
  pure (w.set other { o with prev_ := some before })

/-- `prev_->next_ = next_` in the destructor of `container_node` -/
def relinkPrev (w : World) (this : NodePtr) (n : NodeInfo) : Outcome World :=
  match n.prev_ with
  | none => pure w
  | some prev => do
      let m ← w.get prev
      require (m.next_ = some this)
      pure (w.set prev { m with next_ := n.next_ })

/-- `next_->prev_ = prev_` in the destructor of `container_node` -/
def relinkNext (w : World) (this : NodePtr) (n : NodeInfo) : Outcome World :=
  match n.next_ with
  | none => pure w
  | some next => do
      let m ← w.get next
      require (m.prev_ = some this)
      pure (w.set next { m with prev_ := n.prev_ })

/-- The destructor of `container_node` takes the container out of the list that it is
linked in. The life of the container ends when its destructor starts. -/
def unlink (w : World) (this : NodePtr) (ignored : Bool) : Outcome World := do
  let n ← w.get this
  require (n.prev_ = none ∨ ignored = true)
  let w ← (w.kill this).relinkPrev this n
  w.relinkNext this n

/-- The end of the registration of a node. -/
def release (w : World) (this : NodePtr) : Outcome World := do
  let ns ← w.ns.destroyRegistration ⟨[], .node this⟩
  pure { w with ns := ns }

end World

mutual

/-- The destructors of the nodes. Members are destroyed in the opposite order of
their declaration. -/
def Node.destroy : Node → World → Outcome World
  | .term _, w => pure w
  | .method this _ _ _, w => (w.kill this).release this
  | .name this _ _, w => (w.kill this).release this
  | .namedField this _ _, w => (w.kill this).release this
  | .field _ _ fields, w => destroyAll fields w
  | .opRegion _ _ _ _, w => pure w
  | .if_ _ ifStatements none, w => destroyAll ifStatements w
  | .if_ _ ifStatements (some elseStatements), w => do
      let w ← destroyAll elseStatements w
      destroyAll ifStatements w
  | .while_ _ statements, w => destroyAll statements w
  | .mutex _ _, w => pure w
  | .createField this _ _ _ _, w => (w.kill this).release this
  | .container this ignored _ nodes, w => do
      let w ← w.unlink this ignored
      let w ← destroyAll nodes w
      if ignored then pure w else w.release this

/-- A vector of nodes is destroyed from its end. -/
def destroyAll : List Node → World → Outcome World
  | [], w => pure w
  | n :: nodes, w => do
      let w ← destroyAll nodes w
      n.destroy w

end

mutual

/-- The nodes of a tree that own a registration, and whether they are containers. -/
def Node.owners : Node → List (NodePtr × Bool)
  | .term _ => []
  | .method this _ _ _ => [(this, false)]
  | .name this _ _ => [(this, false)]
  | .namedField this _ _ => [(this, false)]
  | .field _ _ fields => ownersAll fields
  | .opRegion _ _ _ _ => []
  | .if_ _ ifStatements none => ownersAll ifStatements
  | .if_ _ ifStatements (some elseStatements) => ownersAll ifStatements ++ ownersAll elseStatements
  | .while_ _ statements => ownersAll statements
  | .mutex _ _ => []
  | .createField this _ _ _ _ => [(this, false)]
  | .container this _ _ nodes => ownersAll nodes ++ [(this, true)]

/-- The nodes in a list of trees that own a registration. -/
def ownersAll : List Node → List (NodePtr × Bool)
  | [] => []
  | n :: nodes => n.owners ++ ownersAll nodes

end

mutual

/-- The registered nodes of a tree, in the order in which they are registered. -/
def Node.registered : Node → List NodePtr
  | .term _ => []
  | .method this _ _ _ => [this]
  | .name this _ _ => [this]
  | .namedField this _ _ => [this]
  | .field _ _ fields => registeredAll fields
  | .opRegion _ _ _ _ => []
  | .if_ _ ifStatements none => registeredAll ifStatements
  | .if_ _ ifStatements (some elseStatements) =>
      registeredAll ifStatements ++ registeredAll elseStatements
  | .while_ _ statements => registeredAll statements
  | .mutex _ _ => []
  | .createField this _ _ _ _ => [this]
  | .container this ignored _ nodes => registeredAll nodes ++ if ignored then [] else [this]

/-- The registered nodes in a list of trees. -/
def registeredAll : List Node → List NodePtr
  | [] => []
  | n :: nodes => n.registered ++ registeredAll nodes

end

end Attos.Aml

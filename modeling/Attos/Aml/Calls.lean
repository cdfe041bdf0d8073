import Attos.Aml.ParseObject
import Attos.Aml.Views

/-!
# The calls of the AML parser

Which calls a parse function makes, and with which views. Most constructs are a sequence
of pieces behind an opcode (`Piece`), with a package around them or not, and are listed in
tables. The others (the arguments of a method, the elements of lists, an else branch) have
rules of their own in `Calls`.

Where a piece begins depends on what the pieces before it returned, so that `Calls` refers
to the results of the parse functions.
-/

namespace Attos.Aml

open Lib Outcome

/-! ## Results -/

/-- The parse functions for terms. -/
def ParseFunction.isTerm : ParseFunction → Bool
  | argOrLocal | superName | dataObject | dataRefObject | target | op _ _ _ | index | type6Opcode
  | type2Opcode | termArg => true
  | _ => false

/-- The parse functions for lists. -/
def ParseFunction.isList : ParseFunction → Bool
  | fieldList | objectList | termList => true
  | _ => false

/-- A call of a parse function for terms. -/
def ParseFunction.term (mem : Memory) (fuel : ℕ) (f : ParseFunction) (w : World)
    (data : ParseState) : Outcome (ParseState × Option Term) :=
  match f with
  | argOrLocal => parseArgOrLocal mem data
  | superName => parseSuperName mem w fuel data
  | dataObject => parseDataObject mem w fuel data
  | dataRefObject => parseDataRefObject mem w fuel data
  | target => parseTarget mem w fuel data
  | op arity name tgt => parseOp mem w arity name tgt fuel data
  | index => parseIndex mem w fuel data
  | type6Opcode => parseType6Opcode mem w fuel data
  | type2Opcode => parseType2Opcode mem w fuel data
  | termArg => parseTermArg mem w fuel data
  | _ => abort

/-- The trees that a term makes. -/
def termTrees (t : Option Term) : Option (List Node) := t.map fun t => [.term t]

/-- The trees that one node makes. -/
def nodeTrees (n : Option Node) : Option (List Node) := n.map fun n => [n]

/-- A call of a parse function: no trees, if there is no node. -/
def ParseFunction.result (mem : Memory) (fuel : ℕ) (f : ParseFunction) : Parse (List Node) :=
  match f with
  | pkgLength => fun w data => do
      let (data, _) ← parsePkgLength mem data
      pure (w, data, some [])
  | nameString => fun w data => do
      let (data, _) ← parseNameString mem data
      pure (w, data, some [])
  | fieldFlags => fun w data => do
      let (_, data) ← parseFieldFlags mem data
      pure (w, data, some [])
  | namedField => fun w data => do
      let (w, data, n) ← parseNamedField mem w data
      pure (w, data, nodeTrees n)
  | termObj => fun w data => do
      let (w, data, n) ← parseTermObj mem fuel w data
      pure (w, data, nodeTrees n)
  | fieldList => parseFieldList mem fuel
  | objectList => parseObjectList mem fuel
  | termList => parseTermList mem fuel
  | f => fun w data => do
      let (data, t) ← f.term mem fuel w data
      pure (w, data, termTrees t)

/-- A call: the function, the world and the view it is given. -/
structure Call : Type where
  /-- the function -/
  f : ParseFunction
  /-- the name space and the heap -/
  w : World
  /-- the view -/
  data : ParseState

/-- What a call returns. -/
def Returns (mem : Memory) (c : Call) (w : World) (d : ParseState) (r : Option (List Node)) : Prop :=
  ∃ fuel, c.f.result mem fuel c.w c.data = done (w, d, r)

/-! ## Pieces -/

/-- What a function does when a call that it makes returns no node. -/
inductive Check : Type where
  /-- it returns no node either, or it aborts -/
  | tested
  /-- it makes a node without this child -/
  | unchecked
  /-- the child is a target, which can be missing -/
  | optional
  /-- it does not use what the call returns -/
  | dropped
  deriving DecidableEq

/-- A piece of a construct. -/
inductive Piece : Type where
  /-- a call -/
  | call (f : ParseFunction) (check : Check)
  /-- a number of bytes -/
  | bytes (n : ℕ)
  /-- a name, for which a scope is opened -/
  | scope

/-- The operands of an operator. -/
def operands (n : ℕ) : List Piece := List.replicate n (.call .termArg .tested)

/-- The operators, behind their opcode. -/
def operatorPieces : Opcode → List Piece
  | .add => [.call (.op 2 "add" true) .tested]
  | .concat => [.call (.op 2 "concat" true) .tested]
  | .subtract => [.call (.op 2 "subtract" true) .tested]
  | .increment => [.call (.op 1 "increment" false) .tested]
  | .decrement => [.call (.op 1 "decrement" false) .tested]
  | .divide => [.call .termArg .unchecked, .call .termArg .unchecked, .call .target .dropped,
      .call .target .optional]
  | .multiply => [.call (.op 2 "multiply" true) .tested]
  | .shiftLeft => [.call (.op 2 "shiftleft" true) .tested]
  | .shiftRight => [.call (.op 2 "shiftright" true) .tested]
  | .and => [.call (.op 2 "and" true) .tested]
  | .or => [.call (.op 2 "or" true) .tested]
  | .xor => [.call (.op 2 "xor" true) .tested]
  | .not => [.call (.op 1 "not" true) .tested]
  | .findSetLeftBit => [.call (.op 1 "find_set_left_bit" true) .tested]
  | .findSetRightBit => [.call (.op 1 "find_set_right_bit" true) .tested]
  | .derefOf => [.call .termArg .unchecked]
  | .sizeOf => [.call (.op 1 "sizeof" false) .tested]
  | .index => [.call .index .tested]
  | .objectType => [.call (.op 1 "ObjectType" false) .tested]
  | .land => [.call (.op 2 "land" false) .tested]
  | .lor => [.call (.op 2 "lor" false) .tested]
  | .lequal => [.call (.op 2 "lequal" false) .tested]
  | .lgreater => [.call (.op 2 "lgreater" false) .tested]
  | .lless => [.call (.op 2 "lless" false) .tested]
  | .mid => [.call (.op 3 "mid" true) .tested]
  | .condRefOf => [.call .superName .unchecked, .call .target .optional]
  | .sleep => [.call .termArg .unchecked]
  | .acquire => [.call .superName .unchecked, .bytes 2]
  | .release => [.call .superName .unchecked]
  | _ => []

/-- A negation, by the opcode behind its opcode. -/
def negationPieces : Opcode → List Piece
  | .lequal => [.bytes 1, .call (.op 2 "lnotequal" false) .tested]
  | .lgreater => [.bytes 1, .call (.op 2 "lnotgreater" false) .tested]
  | .lless => [.bytes 1, .call (.op 2 "lnotless" false) .tested]
  | _ => [.call .termArg .tested]

/-- The objects without a package, behind their opcode. -/
def objectPieces : Opcode → List Piece
  | .name => [.scope, .call .dataRefObject .tested]
  | .store => [.call .termArg .tested, .call .superName .optional]
  | .notify => [.call .superName .optional, .call .termArg .unchecked]
  | .createDwordField | .createWordField | .createByteField | .createBitField | .createQwordField =>
      [.call .termArg .unchecked, .call .termArg .unchecked, .call .nameString .tested]
  | .return_ => [.call .termArg .tested]
  | .mutex => [.call .nameString .tested, .bytes 1]
  | .createField => [.call .termArg .unchecked, .call .termArg .dropped, .call .termArg .unchecked,
      .call .nameString .tested]
  | .fatal => [.bytes 1, .bytes 4, .call .termArg .unchecked]
  | .opRegion => [.call .nameString .tested, .bytes 1, .call .termArg .unchecked,
      .call .termArg .unchecked]
  | _ => []

/-- The objects with a package, inside of it. The scope of a processor and of a power
resource is opened behind the bytes, which makes no difference to the calls. -/
def packagePieces : Opcode → Option (List Piece)
  | .scope => some [.scope, .call .termList .tested]
  | .method => some [.scope, .bytes 1]
  | .if_ => some [.call .termArg .tested, .call .termList .tested]
  | .while_ => some [.call .termArg .tested, .call .termList .tested]
  | .field => some [.call .nameString .tested, .call .fieldFlags .tested, .call .fieldList .tested]
  | .device => some [.scope, .call .objectList .tested]
  | .processor => some [.scope, .bytes 1, .bytes 4, .bytes 1, .call .objectList .tested]
  | .powerRes => some [.scope, .bytes 1, .bytes 2, .call .objectList .tested]
  | .thermalZone => some [.scope, .call .objectList .tested]
  | .indexField => some [.call .nameString .tested, .call .nameString .tested,
      .call .fieldFlags .tested, .call .fieldList .tested]
  | _ => none

/-- The pieces of a function that does not look at the view itself. -/
def ParseFunction.body : ParseFunction → List Piece
  | dataRefObject => [.call .dataObject .tested]
  | op arity _ tgt => operands arity ++ if tgt then [.call .target .optional] else []
  | index => [.call (.op 2 "index" true) .tested]
  | namedField => [.bytes 4, .call .pkgLength .tested]
  | _ => []

/-- The pieces behind an opcode. -/
def ParseFunction.behind : ParseFunction → Opcode → List Piece
  | type6Opcode, .index => [.call .index .tested]
  | type2Opcode, code => operatorPieces code
  | termObj, code => if isType2Opcode code then [] else objectPieces code
  | _, _ => []

/-- The pieces in the package behind an opcode. -/
def ParseFunction.inPackage : ParseFunction → Opcode → Option (List Piece)
  | dataObject, .buffer => some [.call .termArg .unchecked]
  | dataObject, .package => some [.bytes 1]
  | termObj, code => if isType2Opcode code then none else packagePieces code
  | _, _ => none

/-- The function that is called by the first byte. -/
def ParseFunction.dispatch : ParseFunction → UInt8 → Option ParseFunction
  | termArg, c =>
      if isArgOrLocal c then some argOrLocal
      else if isDataObject (Opcode.ofNat c.toNat) then some dataObject
      else some type2Opcode
  | superName, c =>
      if isArgOrLocal c then some argOrLocal
      else if isNameStringStart c then some nameString
      else if isType6Opcode (Opcode.ofNat c.toNat) then some type6Opcode
      else none
  | target, c => if c = 0 then none else some superName
  | type2Opcode, c => if isNameStringStart c then some nameString else none
  | _, _ => none

/-- The function that is called for an element of a package. -/
def packageElement (c : UInt8) : ParseFunction :=
  if isNameStringStart c then .nameString else .dataRefObject

variable (mem : Memory)

/-- A call is made among pieces that begin with a view. -/
inductive Among : List Piece → World → ParseState → Check → Call → Prop where
  /-- it is the first piece -/
  | here {f : ParseFunction} {k : Check} {ps : List Piece} {w : World} {data : ParseState} :
      Among (.call f k :: ps) w data k ⟨f, w, data⟩
  /-- it comes after a call -/
  | call {f : ParseFunction} {k k' : Check} {ps : List Piece} {w w' : World} {data d : ParseState}
      {r : Option (List Node)} {c : Call} : Returns mem ⟨f, w, data⟩ w' d r →
        (k = .tested → r ≠ none) → Among ps w' d k' c → Among (.call f k :: ps) w data k' c
  /-- it comes after bytes -/
  | bytes {n : ℕ} {k : Check} {ps : List Piece} {w : World} {data d : ParseState} {c : Call} :
      data.skip n = done d → Among ps w d k c → Among (.bytes n :: ps) w data k c
  /-- it is the name of a scope -/
  | name {ps : List Piece} {w : World} {data : ParseState} :
      Among (.scope :: ps) w data .tested ⟨.nameString, w, data⟩
  /-- it comes after the name of a scope -/
  | scope {k : Check} {ps : List Piece} {w w' : World} {data d : ParseState} {name : Name}
      {reg : ScopeRegistration} {c : Call} : parseNameString mem data = done (d, name) →
        w.openScope name = done (reg, w') → Among ps w' d k c → Among (.scope :: ps) w data k c

/-- The elements before a view of a package are parsed. -/
inductive Elements (w : World) (data : ParseState) : ParseState → Prop where
  /-- none -/
  | start : Elements w data data
  /-- one more -/
  | next {d d' : ParseState} {c : UInt8} {w' : World} {r : List Node} : Elements w data d →
      d.peek mem = done c → Returns mem ⟨packageElement c, w, d⟩ w' d' (some r) →
        Elements w data d'

/-- The objects of a list before a view are parsed. -/
inductive Objects (w : World) (data : ParseState) : World → ParseState → Prop where
  /-- none -/
  | start : Objects w data w data
  /-- one more -/
  | next {w₁ w₂ : World} {d₁ d₂ : ParseState} {r : List Node} : Objects w data w₁ d₁ →
      d₁.begin_ ≠ d₁.end_ → Returns mem ⟨.termObj, w₁, d₁⟩ w₂ d₂ (some r) → Objects w data w₂ d₂

/-- The fields of a list before a view are parsed. -/
inductive Fields (w : World) (data : ParseState) : World → ParseState → Prop where
  /-- none -/
  | start : Fields w data w data
  /-- one more, which is reserved -/
  | reserved {w₁ w₂ : World} {d₁ d₂ d₃ : ParseState} {r : Option (List Node)} :
      Fields w data w₁ d₁ → d₁.consume mem = done (0, d₂) →
        Returns mem ⟨.pkgLength, w₁, d₂⟩ w₂ d₃ r → Fields w data w₂ d₃
  /-- one more, which is an access field -/
  | access {w₁ : World} {d₁ d₂ d₃ : ParseState} : Fields w data w₁ d₁ →
      d₁.consume mem = done (1, d₂) → d₂.skip 2 = done d₃ → Fields w data w₁ d₃
  /-- one more, which is named -/
  | named {w₁ w₂ : World} {d₁ d₂ : ParseState} {c : UInt8} {r : Option (List Node)} :
      Fields w data w₁ d₁ → d₁.peek mem = done c → isLeadNameChar c →
        Returns mem ⟨.namedField, w₁, d₁⟩ w₂ d₂ r → Fields w data w₂ d₂

/-- The view behind an if branch and the opcode of its else. -/
inductive ElseBranch (w : World) (data : ParseState) : World → ParseState → Prop where
  /-- the else branch comes behind the package -/
  | intro {op : Opcode} {d pkg d₁ d₂ d₃ : ParseState} {w₁ w₂ : World} {p ns : List Node} :
      data.consumeOpcode mem = done (.if_, d) → adjustWithPkgLength mem d = done pkg →
        Returns mem ⟨.termArg, w, pkg⟩ w₁ d₁ (some p) →
        Returns mem ⟨.termList, w₁, d₁⟩ w₂ d₂ (some ns) →
        (d.movedTo pkg.end_).startsWithElse mem = done true →
        (d.movedTo pkg.end_).consumeOpcode mem = done (op, d₃) → ElseBranch w data w₂ d₃

/-- **The calls that a call makes**, and what happens when they return no node. -/
inductive Calls : Check → Call → Call → Prop where
  /-- the first byte says which function is called -/
  | first {f f' : ParseFunction} {w : World} {data : ParseState} {c : UInt8} :
      data.peek mem = done c → f.dispatch c = some f' → Calls .tested ⟨f, w, data⟩ ⟨f', w, data⟩
  /-- the function only calls others -/
  | body {f : ParseFunction} {w : World} {data : ParseState} {k : Check} {c : Call} :
      Among mem f.body w data k c → Calls k ⟨f, w, data⟩ c
  /-- the pieces behind an opcode -/
  | behind {f : ParseFunction} {w : World} {data d : ParseState} {code : Opcode} {k : Check}
      {c : Call} : data.consumeOpcode mem = done (code, d) → Among mem (f.behind code) w d k c →
        Calls k ⟨f, w, data⟩ c
  /-- a negation -/
  | negation {w : World} {data d : ParseState} {next : Opcode} {k : Check} {c : Call} :
      data.consumeOpcode mem = done (.lnot, d) → d.peekOpcode mem = done next →
        Among mem (negationPieces next) w d k c → Calls k ⟨.type2Opcode, w, data⟩ c
  /-- the arguments of a method -/
  | argument {w : World} {data d : ParseState} {c₀ : UInt8} {name : Name} {n : NodePtr}
      {node : NodeInfo} {k : Check} {c : Call} : data.peek mem = done c₀ → isNameStringStart c₀ →
        parseNameString mem data = done (d, name) → w.ns.lookupNode name = done (some n) →
        w.get n = done node → node.op = .method →
        Among mem (operands node.argCount) w d k c → Calls k ⟨.type2Opcode, w, data⟩ c
  /-- an object that is an operator -/
  | operator {w : World} {data : ParseState} {code : Opcode} : data.peekOpcode mem = done code →
      isType2Opcode code → Calls .tested ⟨.termObj, w, data⟩ ⟨.type2Opcode, w, data⟩
  /-- the length of a package -/
  | pkgLength {f : ParseFunction} {w : World} {data d : ParseState} {code : Opcode}
      {ps : List Piece} : data.consumeOpcode mem = done (code, d) → f.inPackage code = some ps →
        Calls .tested ⟨f, w, data⟩ ⟨.pkgLength, w, d⟩
  /-- the pieces in a package -/
  | inPackage {f : ParseFunction} {w : World} {data d pkg : ParseState} {code : Opcode}
      {ps : List Piece} {k : Check} {c : Call} : data.consumeOpcode mem = done (code, d) →
        f.inPackage code = some ps → adjustWithPkgLength mem d = done pkg → Among mem ps w pkg k c →
        Calls k ⟨f, w, data⟩ c
  /-- an element of a package -/
  | element {w : World} {data d pkg d₁ d₂ : ParseState} {n c : UInt8} :
      data.consumeOpcode mem = done (.package, d) → adjustWithPkgLength mem d = done pkg →
        pkg.consume mem = done (n, d₁) → Elements mem w d₁ d₂ → d₂.peek mem = done c →
        Calls .tested ⟨.dataObject, w, data⟩ ⟨packageElement c, w, d₂⟩
  /-- an object of a list -/
  | object {f : ParseFunction} {w w₁ : World} {data d₁ : ParseState} :
      f = .termList ∨ f = .objectList → Objects mem w data w₁ d₁ → d₁.begin_ ≠ d₁.end_ →
        Calls .tested ⟨f, w, data⟩ ⟨.termObj, w₁, d₁⟩
  /-- the length of a reserved field -/
  | reserved {w w₁ : World} {data d₁ d₂ : ParseState} : Fields mem w data w₁ d₁ →
      d₁.consume mem = done (0, d₂) → Calls .tested ⟨.fieldList, w, data⟩ ⟨.pkgLength, w₁, d₂⟩
  /-- a named field of a list -/
  | named {w w₁ : World} {data d₁ : ParseState} {c : UInt8} : Fields mem w data w₁ d₁ →
      d₁.peek mem = done c → isLeadNameChar c →
        Calls .tested ⟨.fieldList, w, data⟩ ⟨.namedField, w₁, d₁⟩
  /-- the length of an else branch -/
  | elseLength {w w₁ : World} {data d : ParseState} : ElseBranch mem w data w₁ d →
      Calls .tested ⟨.termObj, w, data⟩ ⟨.pkgLength, w₁, d⟩
  /-- the statements of an else branch -/
  | elseList {w w₁ : World} {data d pkg : ParseState} : ElseBranch mem w data w₁ d →
      adjustWithPkgLength mem d = done pkg →
        Calls .tested ⟨.termObj, w, data⟩ ⟨.termList, w₁, pkg⟩

/-- The calls that a call leads to, itself included. -/
abbrev Reaches : Call → Call → Prop := Relation.ReflTransGen fun c c' => ∃ k, Calls mem k c c'

end Attos.Aml

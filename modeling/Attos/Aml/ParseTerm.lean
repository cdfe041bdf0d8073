import Attos.Aml.Nodes

/-!
# Parsing AML terms

The parse functions below `parse_term_obj`. They look names up in the name space but
do not change it, and the nodes that they make own no registration. A parse function
returns the state behind what it parsed and the node, or no node when a name in it
cannot be resolved.

The functions call each other without a bound on the depth, and every call takes one
unit of fuel.
-/

namespace Attos.Aml

open Lib Outcome

/-- `parse_list`. The elements are nodes of any kind, `op` is their opcode and
`destroy` the destructor of a vector of them. -/
def parseList {σ α : Type} (op : α → Opcode) (destroy : List α → σ → Outcome σ)
    (p : σ → ParseState → Outcome (σ × ParseState × Option α)) :
    ℕ → σ → ParseState → List α → Outcome (σ × ParseState × Option (List α))
  | 0, _, _, _ => running
  | fuel + 1, w, state, objs =>
      if state.begin_ = state.end_ then
        pure (w, state, some objs)
      else do
        let (w, state, res) ← p w state
        match res with
        | none => do
            let w ← destroy objs w
            pure (w, state, none)
        | some obj =>
            if op obj ≠ .deadScope then
              parseList op destroy p fuel w state (objs ++ [obj])
            else do
              let w ← destroy [obj] w
              parseList op destroy p fuel w state objs

/-- The loops over a number of arguments, which stop at the first one that has no
node -/
def parseArgs (parseTermArg : ParseState → Outcome (ParseState × Option Term)) :
    ℕ → ParseState → Outcome (ParseState × Option (List Term))
  | 0, data => pure (data, some [])
  | n + 1, data => do
      let (data, arg) ← parseTermArg data
      match arg with
      | none => pure (data, none)
      | some arg => do
          let (data, args) ← parseArgs parseTermArg n data
          pure (data, args.map fun args => arg :: args)

/-- `is_type6_opcode` -/
def isType6Opcode (op : Opcode) : Prop := op = .derefOf ∨ op = .index

instance (op : Opcode) : Decidable (isType6Opcode op) :=
  inferInstanceAs (Decidable (op = .derefOf ∨ op = .index))

/-- `is_data_object` -/
def isDataObject (op : Opcode) : Prop :=
  op ∈ [.zero, .one, .ones, .byte, .word, .dword, .string, .qword, .buffer, .package]

instance (op : Opcode) : Decidable (isDataObject op) :=
  inferInstanceAs (Decidable (op ∈ [.zero, .one, .ones, .byte, .word, .dword, .string, .qword, .buffer,
    .package]))

/-- The opcodes of operators -/
def operators : List Opcode :=
  [.add, .concat, .subtract, .increment, .decrement, .multiply, .divide, .shiftLeft, .shiftRight,
   .and, .or, .xor, .not, .findSetLeftBit, .findSetRightBit, .derefOf, .sizeOf, .index, .objectType,
   .land, .lor, .lnot, .lequal, .lgreater, .lless, .mid, .condRefOf, .sleep, .acquire, .release]

/-- `is_type2_opcode` -/
def isType2Opcode (op : Opcode) : Prop :=
  op ∈ operators ∨ op.toNat ≤ 0xff ∧ isNameStringStart (UInt8.ofNat op.toNat)

instance (op : Opcode) : Decidable (isType2Opcode op) :=
  inferInstanceAs (Decidable (op ∈ operators ∨ op.toNat ≤ 0xff ∧
    isNameStringStart (UInt8.ofNat op.toNat)))

/-- `parse_arg_or_local` -/
def parseArgOrLocal (mem : Memory) (data : ParseState) : Outcome (ParseState × Option Term) := do
  let (op, data) ← data.consumeOpcode mem
  require (¬ op.isExtended ∧ isArgOrLocal (UInt8.ofNat op.toNat))
  pure (data, some (.simple op))

mutual

/-- `parse_term_arg` -/
def parseTermArg (mem : Memory) (w : World) : ℕ → ParseState → Outcome (ParseState × Option Term)
  | 0, _ => running
  | fuel + 1, data => do
      let first ← data.peek mem
      if isArgOrLocal first then
        parseArgOrLocal mem data
      else if isDataObject (Opcode.ofNat first.toNat) then
        parseDataObject mem w fuel data
      else
        parseType2Opcode mem w fuel data

/-- `parse_data_object` -/
def parseDataObject (mem : Memory) (w : World) : ℕ → ParseState → Outcome (ParseState × Option Term)
  | 0, _ => running
  | fuel + 1, data => do
      let (op, data) ← data.consumeOpcode mem
      require (isDataObject op)
      match op with
      | .zero => pure (data, some (.const 0 1))
      | .one => pure (data, some (.const 1 1))
      | .ones => pure (data, some (.const 0xff 1))
      | .byte => do
          let (b, data) ← data.consume mem
          pure (data, some (.const b.toNat 1))
      | .word => do
          let (value, data) ← data.consumeNumber mem 2
          pure (data, some (.const value 2))
      | .dword => do
          let (value, data) ← data.consumeNumber mem 4
          pure (data, some (.const value 4))
      | .qword => do
          let (value, data) ← data.consumeNumber mem 8
          pure (data, some (.const value 8))
      | .string => do
          let text ← mem.readString fuel data.begin_
          let data ← data.skip (u32 (text.length + 1))
          pure (data, some (.text .string text))
      | .buffer => do
          let pkgData ← adjustWithPkgLength mem data
          let (rest, bufferSize) ← parseTermArg mem w fuel pkgData
          let bytes ← mem.read rest.begin_ rest.size
          pure (data.movedTo pkgData.end_, some (.buffer bufferSize bytes))
      | .package => do
          let pkgData ← adjustWithPkgLength mem data
          let (numElements, elementData) ← pkgData.consume mem
          let (_, _, elements) ← parseList Term.opcode (fun _ u => pure u)
            (fun u data => do
              let (data, element) ← parsePackageElement mem w fuel data
              pure (u, data, element)) fuel () elementData []
          let elements ← requireSome elements
          require (elements = [] ∨ numElements.toNat = elements.length)
          pure (data.movedTo pkgData.end_, some (.package elements))
      | _ => do
          hexdump mem (sub64 data.begin_ 2) (min (data.size + 2) 64)
          abort

/-- The elements of a package in `parse_data_object` -/
def parsePackageElement (mem : Memory) (w : World) :
    ℕ → ParseState → Outcome (ParseState × Option Term)
  | 0, _ => running
  | fuel + 1, data => do
      if isNameStringStart (← data.peek mem) then do
        let (data, name) ← parseNameString mem data
        pure (data, some (.text .packageElement name))
      else
        parseDataRefObject mem w fuel data

/-- `parse_data_ref_object` -/
def parseDataRefObject (mem : Memory) (w : World) :
    ℕ → ParseState → Outcome (ParseState × Option Term)
  | 0, _ => running
  | fuel + 1, data => parseDataObject mem w fuel data

/-- `parse_super_name` -/
def parseSuperName (mem : Memory) (w : World) : ℕ → ParseState → Outcome (ParseState × Option Term)
  | 0, _ => running
  | fuel + 1, data => do
      let first ← data.peek mem
      if isArgOrLocal first then
        parseArgOrLocal mem data
      else if isNameStringStart first then do
        let (data, name) ← parseNameString mem data
        pure (data, some (.text .nameLookup name))
      else if isType6Opcode (Opcode.ofNat first.toNat) then
        parseType6Opcode mem w fuel data
      else do
        hexdump mem (sub64 data.begin_ 10) (min 32 (data.size + 10))
        abort

/-- `parse_target` -/
def parseTarget (mem : Memory) (w : World) : ℕ → ParseState → Outcome (ParseState × Option Term)
  | 0, _ => running
  | fuel + 1, data => do
      if (← data.peek mem) = 0 then do
        let (_, data) ← data.consume mem
        pure (data, some (.simple .nullName))
      else
        parseSuperName mem w fuel data

/-- `op_node_base::parse` -/
def parseOp (mem : Memory) (w : World) (arity : ℕ) (name : String) (target : Bool) :
    ℕ → ParseState → Outcome (ParseState × Option Term)
  | 0, _ => running
  | fuel + 1, state => do
      let (state, args) ← parseArgs (parseTermArg mem w fuel) arity state
      match args with
      | none => pure (state, none)
      | some args =>
          if target then do
            let (state, tgt) ← parseTarget mem w fuel state
            pure (state, some (.op name (args.map some) tgt))
          else
            pure (state, some (.op name (args.map some) none))

/-- `parse_index` -/
def parseIndex (mem : Memory) (w : World) : ℕ → ParseState → Outcome (ParseState × Option Term)
  | 0, _ => running
  | fuel + 1, data => parseOp mem w 2 "index" true fuel data

/-- `parse_type6_opcode` -/
def parseType6Opcode (mem : Memory) (w : World) : ℕ → ParseState → Outcome (ParseState × Option Term)
  | 0, _ => running
  | fuel + 1, data => do
      let (op, data) ← data.consumeOpcode mem
      require (isType6Opcode op)
      require (op = .index)
      parseIndex mem w fuel data

/-- `parse_type2_opcode` -/
def parseType2Opcode (mem : Memory) (w : World) : ℕ → ParseState → Outcome (ParseState × Option Term)
  | 0, _ => running
  | fuel + 1, data => do
      if isNameStringStart (← data.peek mem) then do
        let (data, name) ← parseNameString mem data
        match ← w.ns.lookupNode name with
        | none => pure (data, none)
        | some n => do
            let node ← w.get n
            if node.op ≠ .method then
              pure (data, some (.text .nameLookup name))
            else do
              let (data, args) ← parseArgs (parseTermArg mem w fuel) node.argCount data
              pure (data, args.map fun args => .methodCall n args)
      else do
        let (op, data) ← data.consumeOpcode mem
        if ¬ isType2Opcode op then do
          hexdump mem data.begin_ (min 32 data.size)
          abort
        else match op with
        | .add => parseOp mem w 2 "add" true fuel data
        | .concat => parseOp mem w 2 "concat" true fuel data
        | .subtract => parseOp mem w 2 "subtract" true fuel data
        | .increment => parseOp mem w 1 "increment" false fuel data
        | .decrement => parseOp mem w 1 "decrement" false fuel data
        | .divide => do
            let (data, dividend) ← parseTermArg mem w fuel data
            let (data, divisor) ← parseTermArg mem w fuel data
            let (data, _) ← parseTarget mem w fuel data
            let (data, quotient) ← parseTarget mem w fuel data
            pure (data, some (.op "divide" [dividend, divisor] quotient))
        | .multiply => parseOp mem w 2 "multiply" true fuel data
        | .shiftLeft => parseOp mem w 2 "shiftleft" true fuel data
        | .shiftRight => parseOp mem w 2 "shiftright" true fuel data
        | .and => parseOp mem w 2 "and" true fuel data
        | .or => parseOp mem w 2 "or" true fuel data
        | .xor => parseOp mem w 2 "xor" true fuel data
        | .not => parseOp mem w 1 "not" true fuel data
        | .findSetLeftBit => parseOp mem w 1 "find_set_left_bit" true fuel data
        | .findSetRightBit => parseOp mem w 1 "find_set_right_bit" true fuel data
        | .derefOf => do
            let (data, arg) ← parseTermArg mem w fuel data
            pure (data, some (.op "deref_of" [arg] none))
        | .sizeOf => parseOp mem w 1 "sizeof" false fuel data
        | .index => parseIndex mem w fuel data
        | .objectType => parseOp mem w 1 "ObjectType" false fuel data
        | .land => parseOp mem w 2 "land" false fuel data
        | .lor => parseOp mem w 2 "lor" false fuel data
        | .lnot => do
            let next ← data.peekOpcode mem
            if next = .lequal then do
              let (_, data) ← data.consume mem
              parseOp mem w 2 "lnotequal" false fuel data
            else if next = .lgreater then do
              let (_, data) ← data.consume mem
              parseOp mem w 2 "lnotgreater" false fuel data
            else if next = .lless then do
              let (_, data) ← data.consume mem
              parseOp mem w 2 "lnotless" false fuel data
            else do
              let (data, arg) ← parseTermArg mem w fuel data
              pure (data, arg.map fun arg => .op "lnot" [some arg] none)
        | .lequal => parseOp mem w 2 "lequal" false fuel data
        | .lgreater => parseOp mem w 2 "lgreater" false fuel data
        | .lless => parseOp mem w 2 "lless" false fuel data
        | .mid => parseOp mem w 3 "mid" true fuel data
        | .condRefOf => do
            let (data, name) ← parseSuperName mem w fuel data
            let (data, target) ← parseTarget mem w fuel data
            pure (data, some (.op "cond_ref_of" [name] target))
        | .sleep => do
            let (data, msectime) ← parseTermArg mem w fuel data
            pure (data, some (.op "sleep" [msectime] none))
        | .acquire => do
            let (data, arg) ← parseSuperName mem w fuel data
            let (timeout, data) ← data.consumeNumber mem 2
            pure (data, some (.op "acquire" [arg, some (.const timeout 2)] none))
        | .release => do
            let (data, arg) ← parseSuperName mem w fuel data
            pure (data, some (.op "release" [arg] none))
        | _ => do
            hexdump mem (sub64 data.begin_ 2) (min (data.size + 2) 64)
            abort

end

end Attos.Aml

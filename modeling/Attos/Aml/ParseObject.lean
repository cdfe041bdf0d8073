import Attos.Aml.ParseTerm

/-!
# Parsing AML objects

`parse_term_obj` and the functions that use it. They open a scope for an object
before its contents are parsed, and the constructor of its node closes it. What was
parsed for a node that is not returned is destroyed.

Each case of `parse_term_obj` is a function of its own, with the functions that it
calls back as arguments.
-/

namespace Attos.Aml

open Lib Outcome

/-- A parse function that may change the name space. -/
abbrev Parse (α : Type) := World → ParseState → Outcome (World × ParseState × Option α)

/-- A parse function for terms among those for objects. -/
def liftTerm (parseTerm : World → ParseState → Outcome (ParseState × Option Term)) : Parse Node :=
  fun w data => do
    let (data, t) ← parseTerm w data
    pure (w, data, t.map Node.term)

section Fields

variable (mem : Memory)

/-- `parse_field_flags` -/
def parseFieldFlags (data : ParseState) : Outcome (UInt8 × ParseState) := data.consume mem

/-- `parse_named_field` -/
def parseNamedField : Parse Node := fun w data => do
  require (4 ≤ data.size)
  require ((← validNameseg mem data.begin_) = true)
  let name ← mem.read data.begin_ 4
  let data ← data.skip 4
  let (data, len) ← parsePkgLength mem data
  let (reg, w) ← w.openScope name
  let (w, this) ← w.makeRegistered reg (.plain .namedField)
  pure (w, data, some (.namedField this name len))

/-- `parse_field_list` -/
def parseFieldListFrom : ℕ → List Node → Parse (List Node)
  | 0, _ => fun _ _ => running
  | fuel + 1, elements => fun w data =>
      if data.begin_ = data.end_ then
        pure (w, data, some elements)
      else do
        let first ← data.peek mem
        if first = 0 then do
          let (_, data) ← data.consume mem
          let (data, _) ← parsePkgLength mem data
          parseFieldListFrom fuel (elements ++ [.term (.simple .reservedField)]) w data
        else if first = 1 then do
          let (_, data) ← data.consume mem
          let (_, data) ← data.consume mem
          let (_, data) ← data.consume mem
          parseFieldListFrom fuel (elements ++ [.term (.simple .accessField)]) w data
        else if isLeadNameChar first then do
          let (w, data, namedField) ← parseNamedField mem w data
          parseFieldListFrom fuel (elements ++ namedField.toList) w data
        else
          abort

/-- `parse_field_list` from an empty list of elements -/
def parseFieldList (fuel : ℕ) : Parse (List Node) := parseFieldListFrom mem fuel []

end Fields

section Cases

variable (mem : Memory) (fuel : ℕ) (parseTermList parseObjectList : Parse (List Node))

/-- `DefName := NameOp NameString DataRefObject` -/
def parseDefName : Parse Node := fun w data => do
  let (data, name) ← parseNameString mem data
  let (reg, w) ← w.openScope name
  let (data, dataRefObject) ← parseDataRefObject mem w fuel data
  let (w, this) ← w.makeRegistered reg (.plain .name)
  let obj ← requireSome dataRefObject
  pure (w, data, some (.name this name obj))

/-- `DefScope := ScopeOp PkgLength NameString TermList`. The name is looked up while the
scope is open. -/
def parseDefScope : Parse Node := fun w data => do
  let pkgData ← adjustWithPkgLength mem data
  let (rest, name) ← parseNameString mem pkgData
  let (reg, w) ← w.openScope name
  let (w, rest, termList) ← parseTermList w rest
  let termList ← requireSome termList
  require (pkgData.end_ = rest.begin_)
  let n ← w.ns.lookupNode name
  match n with
  | none => do
      let (w, this, ignored) ← w.makeContainer reg .scope
      pure (w, data.movedTo pkgData.end_, some (.container this ignored .scope termList))
  | some n => do
      let (reg, w) ← w.markDead reg
      let (w, this, ignored) ← w.makeContainer reg .scope
      let node ← w.get n
      require (node.isContainer = true)
      let w ← w.merge fuel n this
      pure (w, data.movedTo pkgData.end_, some (.container this ignored .scope termList))

/-- `DefMethod := MethodOp PkgLength NameString MethodFlags TermList` -/
def parseDefMethod : Parse Node := fun w data => do
  let pkgData ← adjustWithPkgLength mem data
  let (pkgData, name) ← parseNameString mem pkgData
  let (reg, w) ← w.openScope name
  let (methodFlags, pkgData) ← pkgData.consume mem
  let (w, this) ← w.makeRegistered reg ⟨.method, false, methodFlags, none, none⟩
  pure (w, data.movedTo pkgData.end_, some (.method this name methodFlags pkgData))

/-- `DefStore := StoreOp TermArg SuperName` -/
def parseDefStore : Parse Node := fun w data => do
  let (data, arg) ← parseTermArg mem w fuel data
  match arg with
  | none => pure (w, data, none)
  | some arg => do
      let (data, name) ← parseSuperName mem w fuel data
      pure (w, data, some (.term (.op "store" [some arg] name)))

/-- `DefNotify := NotifyOp NotifyObject NotifyValue` -/
def parseDefNotify : Parse Node := fun w data => do
  let (data, obj) ← parseSuperName mem w fuel data
  let (data, value) ← parseTermArg mem w fuel data
  pure (w, data, some (.term (.op "notify" [value] obj)))

/-- `DefCreateDWordField` and the like `:= Op SourceBuff ByteIndex NameString` -/
def parseDefCreateFieldOf (op : Opcode) : Parse Node := fun w data => do
  let (data, sourceBuffer) ← parseTermArg mem w fuel data
  let (data, byteIndex) ← parseTermArg mem w fuel data
  let (data, name) ← parseNameString mem data
  let (reg, w) ← w.openScope name
  let (w, this) ← w.makeRegistered reg (.plain op)
  pure (w, data, some (.createField this op name sourceBuffer byteIndex))

/-- Whether an else branch follows. -/
def ParseState.startsWithElse (data : ParseState) : Outcome Bool :=
  if data.begin_ = data.end_ then
    pure false
  else do
    let op ← data.peekOpcode mem
    pure (decide (op = .else_))

/-- `DefIfElse := IfOp PkgLength Predicate TermList DefElse` -/
def parseDefIfElse : Parse Node := fun w data => do
  let pkgData ← adjustWithPkgLength mem data
  let (rest, predicate) ← parseTermArg mem w fuel pkgData
  match predicate with
  | none => pure (w, rest, none)
  | some predicate => do
      let (w, rest, ifStatements) ← parseTermList w rest
      match ifStatements with
      | none => pure (w, rest, none)
      | some ifStatements => do
          let data := data.movedTo pkgData.end_
          let hasElse ← data.startsWithElse mem
          if hasElse then do
            let (_, data) ← data.consumeOpcode mem
            let elsePkg ← adjustWithPkgLength mem data
            let (w, rest, elseStatements) ← parseTermList w elsePkg
            match elseStatements with
            | none => do
                let w ← destroyAll ifStatements w
                pure (w, rest, none)
            | some elseStatements =>
                pure (w, data.movedTo elsePkg.end_,
                  some (.if_ predicate ifStatements (some elseStatements)))
          else
            pure (w, data, some (.if_ predicate ifStatements none))

/-- `DefWhile := WhileOp PkgLength Predicate TermList` -/
def parseDefWhile : Parse Node := fun w data => do
  let pkgData ← adjustWithPkgLength mem data
  let (rest, predicate) ← parseTermArg mem w fuel pkgData
  match predicate with
  | none => pure (w, rest, none)
  | some predicate => do
      let (w, rest, statements) ← parseTermList w rest
      match statements with
      | none => pure (w, rest, none)
      | some statements =>
          pure (w, data.movedTo pkgData.end_, some (.while_ predicate statements))

/-- `DefReturn := ReturnOp ArgObject` -/
def parseDefReturn : Parse Node := fun w data => do
  let (data, arg) ← parseTermArg mem w fuel data
  pure (w, data, arg.map fun arg => .term (.op "return" [some arg] none))

/-- `DefMutex := MutexOp NameString SyncFlags` -/
def parseDefMutex : Parse Node := fun w data => do
  let (data, name) ← parseNameString mem data
  let (flags, data) ← data.consume mem
  -- the constructor of `mutex_node`
  require (flags &&& 0xf0 = 0)
  pure (w, data, some (.mutex name flags))

/-- `DefCreateField := CreateFieldOp SourceBuff BitIndex NumBits NameString` -/
def parseDefCreateField : Parse Node := fun w data => do
  let (data, sourceBuffer) ← parseTermArg mem w fuel data
  let (data, _) ← parseTermArg mem w fuel data
  let (data, numBits) ← parseTermArg mem w fuel data
  let (data, name) ← parseNameString mem data
  pure (w, data, some (.term (.op "CreateField" [sourceBuffer, numBits] (some (.text .nameLookup name)))))

/-- `DefFatal := FatalOp FatalType FatalCode FatalArg` -/
def parseDefFatal : Parse Node := fun w data => do
  let (type, data) ← data.consume mem
  let (code, data) ← data.consumeNumber mem 4
  let (data, arg) ← parseTermArg mem w fuel data
  pure (w, data, some (.term (.op "Fatal" [some (.const type.toNat 1), some (.const code 4), arg] none)))

/-- `DefOpRegion := OpRegionOp NameString RegionSpace RegionOffset RegionLen` -/
def parseDefOpRegion : Parse Node := fun w data => do
  let (data, name) ← parseNameString mem data
  let (regionSpace, data) ← data.consume mem
  let (data, regionOffset) ← parseTermArg mem w fuel data
  let (data, regionLen) ← parseTermArg mem w fuel data
  pure (w, data, some (.opRegion name regionSpace regionOffset regionLen))

/-- `DefField := FieldOp PkgLength NameString FieldFlags FieldList` -/
def parseDefField : Parse Node := fun w data => do
  let pkgData ← adjustWithPkgLength mem data
  let (rest, name) ← parseNameString mem pkgData
  let (fieldFlags, rest) ← parseFieldFlags mem rest
  let (w, _, fieldList) ← parseFieldList mem fuel w rest
  pure (w, data.movedTo pkgData.end_, fieldList.map fun fields => .field name fieldFlags fields)

/-- `DefIndexField := IndexFieldOp PkgLength NameString NameString FieldFlags FieldList` -/
def parseDefIndexField : Parse Node := fun w data => do
  let pkgData ← adjustWithPkgLength mem data
  let (rest, name) ← parseNameString mem pkgData
  let (rest, _) ← parseNameString mem rest
  let (fieldFlags, rest) ← parseFieldFlags mem rest
  let (w, rest, fieldList) ← parseFieldList mem fuel w rest
  pure (w, data.movedTo rest.begin_, fieldList.map fun fields => .field name fieldFlags fields)

/-- The objects that contain an object list. Some have a header between their name and
the list. -/
def parseDefContainer (op : Opcode) (header : ParseState → Outcome ParseState) : Parse Node :=
  fun w data => do
    let pkgData ← adjustWithPkgLength mem data
    let (rest, name) ← parseNameString mem pkgData
    let rest ← header rest
    let (reg, w) ← w.openScope name
    let (w, _, objectList) ← parseObjectList w rest
    let objectList ← requireSome objectList
    let (w, this, ignored) ← w.makeContainer reg op
    pure (w, data.movedTo pkgData.end_, some (.container this ignored op objectList))

/-- `DefDevice := DeviceOp PkgLength NameString ObjectList` -/
def parseDefDevice : Parse Node := parseDefContainer mem parseObjectList .device pure

/-- `DefProcessor := ProcessorOp PkgLength NameString ProcID PblkAddr PblkLen ObjectList` -/
def parseDefProcessor : Parse Node := parseDefContainer mem parseObjectList .processor fun data => do
  let (_, data) ← data.consume mem
  let (_, data) ← data.consumeNumber mem 4
  let (_, data) ← data.consume mem
  pure data

/-- `DefPowerRes := PowerResOp PkgLength NameString SystemLevel ResourceOrder ObjectList` -/
def parseDefPowerRes : Parse Node := parseDefContainer mem parseObjectList .powerRes fun data => do
  let (_, data) ← data.consume mem
  let (_, data) ← data.consumeNumber mem 2
  pure data

/-- `DefThermalZone := ThermalZoneOp PkgLength NameString ObjectList` -/
def parseDefThermalZone : Parse Node := parseDefContainer mem parseObjectList .thermalZone pure

/-- The cases of `parse_term_obj` behind the opcode -/
def parseObject (op : Opcode) : Parse Node :=
  match op with
  | .name => parseDefName mem fuel
  | .scope => parseDefScope mem fuel parseTermList
  | .method => parseDefMethod mem
  | .store => parseDefStore mem fuel
  | .notify => parseDefNotify mem fuel
  | .createDwordField => parseDefCreateFieldOf mem fuel op
  | .createWordField => parseDefCreateFieldOf mem fuel op
  | .createByteField => parseDefCreateFieldOf mem fuel op
  | .createBitField => parseDefCreateFieldOf mem fuel op
  | .createQwordField => parseDefCreateFieldOf mem fuel op
  | .if_ => parseDefIfElse mem fuel parseTermList
  | .while_ => parseDefWhile mem fuel parseTermList
  | .noop => fun w data => pure (w, data, some (.term (.simple op)))
  | .return_ => parseDefReturn mem fuel
  | .mutex => parseDefMutex mem
  | .createField => parseDefCreateField mem fuel
  | .fatal => parseDefFatal mem fuel
  | .opRegion => parseDefOpRegion mem fuel
  | .field => parseDefField mem fuel
  | .device => parseDefDevice mem parseObjectList
  | .processor => parseDefProcessor mem parseObjectList
  | .powerRes => parseDefPowerRes mem parseObjectList
  | .thermalZone => parseDefThermalZone mem parseObjectList
  | .indexField => parseDefIndexField mem fuel
  | _ => fun _ data => do
      hexdump mem (data.begin_ - if op.isExtended then 2 else 1) (min 32 data.size)
      abort

end Cases

mutual

/-- `parse_term_obj` -/
def parseTermObj (mem : Memory) : ℕ → Parse Node
  | 0 => fun _ _ => running
  | fuel + 1 => fun w data => do
      let op ← data.peekOpcode mem
      if isType2Opcode op then
        liftTerm (fun w => parseType2Opcode mem w fuel) w data
      else do
        let (_, data) ← data.consumeOpcode mem
        parseObject mem fuel (parseTermList mem fuel) (parseObjectList mem fuel) op w data

/-- `parse_object_list` -/
def parseObjectList (mem : Memory) : ℕ → Parse (List Node)
  | 0 => fun _ _ => running
  | fuel + 1 => fun w state =>
      parseList Node.opcode destroyAll (parseTermObj mem fuel) fuel w state []

/-- `parse_term_list` -/
def parseTermList (mem : Memory) : ℕ → Parse (List Node)
  | 0 => fun _ _ => running
  | fuel + 1 => fun w state =>
      parseList Node.opcode destroyAll (parseTermObj mem fuel) fuel w state []

end

/-- `do_eval` of a method. The body is parsed again and the tree is printed, which
changes nothing; then it is destroyed. -/
def evalMethod (mem : Memory) (fuel : ℕ) (w : World) (statements : ParseState) : Outcome World := do
  let (w, _, res) ← parseTermList mem fuel w statements
  let nodes ← requireSome res
  destroyAll nodes w

/-- The parse functions. -/
inductive ParseFunction : Type where
  /-- `parse_pkg_length` -/
  | pkgLength
  /-- `parse_name_string` -/
  | nameString
  /-- `parse_arg_or_local` -/
  | argOrLocal
  /-- `parse_super_name` -/
  | superName
  /-- `parse_data_object` -/
  | dataObject
  /-- `parse_data_ref_object` -/
  | dataRefObject
  /-- `parse_target` -/
  | target
  /-- `op_node_base::parse`: `parse_unary_op`, `parse_binary_op` and so on -/
  | op (arity : ℕ) (name : String) (target : Bool)
  /-- `parse_index` -/
  | index
  /-- `parse_type6_opcode` -/
  | type6Opcode
  /-- `parse_type2_opcode` -/
  | type2Opcode
  /-- `parse_term_arg` -/
  | termArg
  /-- `parse_field_flags` -/
  | fieldFlags
  /-- `parse_named_field` -/
  | namedField
  /-- `parse_field_list` -/
  | fieldList
  /-- `parse_term_obj` -/
  | termObj
  /-- `parse_object_list` -/
  | objectList
  /-- `parse_term_list` -/
  | termList

/-- The trees that a parse function returns: none, or one, or those of a list. -/
def returned {α : Type} (nodes : α → List Node) (r : Option α) : List Node := (r.map nodes).getD []

/-- Parse, and keep the trees of the result. -/
def Parse.trees {α : Type} (nodes : α → List Node) (p : Parse α) (w : World) (data : ParseState) :
    Outcome (World × ParseState × List Node) := do
  let (w, data, r) ← p w data
  pure (w, data, returned nodes r)

/-- A call of a parse function, with the trees that it returns. -/
def ParseFunction.run (mem : Memory) (fuel : ℕ) : ParseFunction → World → ParseState →
    Outcome (World × ParseState × List Node)
  | pkgLength => fun w data => do
      let (data, _) ← parsePkgLength mem data
      pure (w, data, [])
  | nameString => fun w data => do
      let (data, _) ← parseNameString mem data
      pure (w, data, [])
  | fieldFlags => fun w data => do
      let (_, data) ← parseFieldFlags mem data
      pure (w, data, [])
  | argOrLocal => (liftTerm fun _ => parseArgOrLocal mem).trees fun n => [n]
  | superName => (liftTerm fun w => parseSuperName mem w fuel).trees fun n => [n]
  | dataObject => (liftTerm fun w => parseDataObject mem w fuel).trees fun n => [n]
  | dataRefObject => (liftTerm fun w => parseDataRefObject mem w fuel).trees fun n => [n]
  | target => (liftTerm fun w => parseTarget mem w fuel).trees fun n => [n]
  | op arity name tgt => (liftTerm fun w => parseOp mem w arity name tgt fuel).trees fun n => [n]
  | index => (liftTerm fun w => parseIndex mem w fuel).trees fun n => [n]
  | type6Opcode => (liftTerm fun w => parseType6Opcode mem w fuel).trees fun n => [n]
  | type2Opcode => (liftTerm fun w => parseType2Opcode mem w fuel).trees fun n => [n]
  | termArg => (liftTerm fun w => parseTermArg mem w fuel).trees fun n => [n]
  | namedField => (parseNamedField mem).trees fun n => [n]
  | fieldList => (parseFieldList mem fuel).trees id
  | termObj => (parseTermObj mem fuel).trees fun n => [n]
  | objectList => (parseObjectList mem fuel).trees id
  | termList => (parseTermList mem fuel).trees id

end Attos.Aml

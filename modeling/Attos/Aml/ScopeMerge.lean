import Attos.Aml.NameResolution
import Attos.Aml.ObjectSources

/-!
# Merging a scope into a container

A `Scope` block whose name is found by `lookup_node` is merged into the container that it
finds (`MergedBlock`). Its contents are bound under the current scope followed by the name of
the block, whatever container is found, and the lookup runs while this scope is still open.
-/

namespace Attos.Aml

open Lib Outcome ParseState

/-- An object is bound under a name, and a lookup of the name finds it. -/
structure NameSpace.BoundUnder (ns : NameSpace) (this : NodePtr) (name : Name) : Prop where
  /-- the binding of the object -/
  registered : ns.findBindingOf this = some ⟨name, this⟩
  /-- the binding of the name -/
  found : ns.findBinding name = some ⟨name, this⟩

/-- The object at the front of a view, of which the node was made, is declared with a name.
The fields of a field list are declared beside the field object. -/
inductive Declares (mem : Memory) (data : ParseState) : Node → NodePtr → Name → Prop where
  /-- `Name` -/
  | name {this : NodePtr} {name : Name} {obj : Term} : Declares mem data (.name this name obj) this name
  /-- `Method` -/
  | method {this : NodePtr} {name : Name} {flags : UInt8} {statements : ParseState} :
      Declares mem data (.method this name flags statements) this name
  /-- `CreateDWordField` and the like -/
  | createField {this : NodePtr} {op : Opcode} {name : Name} {buffer index : Option Term} :
      Declares mem data (.createField this op name buffer index) this name
  /-- a field of `Field` or `IndexField` -/
  | namedField {this : NodePtr} {name fieldName : Name} {len : ℕ} {flags : UInt8} {fields : List Node} :
      .namedField this name len ∈ fields → Declares mem data (.field fieldName flags fields) this name
  /-- an object that contains other ones, unless it is merged itself -/
  | container {this : NodePtr} {name : Name} {code : Opcode} {nodes : List Node} {d pkg rest : ParseState} :
      data.consumeOpcode mem = done (code, d) → adjustWithPkgLength mem d = done pkg →
        parseNameString mem pkg = done (rest, name) → Declares mem data (.container this false code nodes) this name

/-- An object is declared directly in a list of objects. -/
def DeclaredIn (mem : Memory) (w : World) (data : ParseState) (this : NodePtr) (name : Name) : Prop :=
  ∃ w₁ d₁ w₂ d₂ n, Objects mem w data w₁ d₁ ∧ d₁.begin_ ≠ d₁.end_ ∧
    Returns mem ⟨.termObj, w₁, d₁⟩ w₂ d₂ (some [n]) ∧ Declares mem d₁ n this name

variable {mem : Memory} {fuel m : ℕ} {w w' w₁ w₂ : World} {d d' data : ParseState} {reg : ScopeRegistration}
  {this : NodePtr} {name cur : Name} {seg : NameSeg} {info : NodeInfo} {n : Node} {code : Opcode}

/-! ## Bindings -/

theorem NameSpace.BoundUnder.append {ns ns' : NameSpace} (h : ns.BoundUnder this name) {bs : List Binding}
    (hbs : ns'.bindings_ = ns.bindings_ ++ bs) : ns'.BoundUnder this name := by
  obtain ⟨hregistered, hfound⟩ := h
  constructor
  · rw [findBindingOf, hbs, List.find?_append, ← findBindingOf, hregistered]
    rfl
  · rw [findBinding, hbs, List.find?_append, ← findBinding, hfound]
    rfl

/-- A node that is made is bound under the current scope. -/
theorem makeRegistered_boundUnder (hw : w.Sound) (h : w.makeRegistered reg info = done (w', this))
    (hop : info.op ≠ .deadScope) : w'.ns.BoundUnder this w.ns.curNamespace_ := by
  obtain ⟨⟨reg', ns⟩, hprovide, h⟩ := bind_eq_done.1 h
  cases h
  obtain ⟨-, ⟨-, hnone, -, rfl⟩ | ⟨hdead, -⟩⟩ := NameSpace.provide_eq_done.1 hprovide
  · have hfresh : w.ns.findBindingOf w.made = none := by
      rw [NameSpace.findBindingOf, List.find?_eq_none]
      intro b hb
      have hlt := hw.lt_made (hw.alive hb)
      simpa using hlt.ne
    constructor
    · rw [NameSpace.findBindingOf, List.find?_append, ← NameSpace.findBindingOf, hfresh]
      simp
    · rw [NameSpace.findBinding, List.find?_append, ← NameSpace.findBinding, hnone]
      simp
  · exact absurd hdead hop

/-- A single segment opens a scope in the current one. -/
theorem openScope_seg (h : w.openScope seg.bytes = done (reg, w')) :
    reg = ⟨w.ns.curNamespace_, .null⟩ ∧
      w' = { w with ns := ⟨w.ns.curNamespace_ ++ seg.bytes, w.ns.bindings_⟩ } := by
  obtain ⟨⟨reg', ns⟩, hopen, h⟩ := bind_eq_done.1 h
  cases h
  obtain ⟨-, -, rfl, rfl⟩ := NameSpace.openScope_eq_done.1 hopen
  have hroot : seg.bytes.head? ≠ some rootChar := by simpa [NameSeg.bytes] using seg.valid.1.ne_root
  rw [if_neg hroot, if_neg hroot]
  exact ⟨rfl, rfl⟩

theorem openScope_sound (hw : w.Sound) (h : w.openScope name = done (reg, w')) : w'.Sound := by
  obtain ⟨cur, -, rfl⟩ := World.openScope_eq_done h
  exact hw.enter cur

/-- A node is made for the scope of a segment after its contents were parsed. -/
theorem boundUnder_of_contents {os : List (NodePtr × Bool)} {rs : List NodePtr}
    (hopen : w.openScope seg.bytes = done (reg, w₁)) (hparses : w₁.Parses w₂ os rs)
    (hmake : w₂.makeRegistered reg info = done (w', this)) (hop : info.op ≠ .deadScope) :
    w'.ns.BoundUnder this (w.ns.curNamespace_ ++ seg.bytes) := by
  obtain ⟨-, rfl⟩ := openScope_seg hopen
  have hbound := makeRegistered_boundUnder hparses.sound hmake hop
  rwa [hparses.current] at hbound

/-! ## Objects -/

section Objects

variable (hw : w.Sound)

include hw

theorem parseDefName_boundUnder (hn : Declares mem data n this seg.bytes)
    (h : parseDefName mem fuel w d = done (w', d', some n)) :
    w'.ns.BoundUnder this (w.ns.curNamespace_ ++ seg.bytes) := by
  obtain ⟨⟨d₁, name⟩, -, h⟩ := bind_eq_done.1 h
  obtain ⟨⟨reg, w₁⟩, hopen, h⟩ := bind_eq_done.1 h
  obtain ⟨⟨d₂, obj⟩, -, h⟩ := bind_eq_done.1 h
  obtain ⟨⟨w₂, this⟩, hmake, h⟩ := bind_eq_done.1 h
  obtain ⟨obj, -, h⟩ := bind_eq_done.1 h
  cases h
  cases hn
  exact boundUnder_of_contents hopen (.refl (openScope_sound hw hopen)) hmake (by decide)

theorem parseDefMethod_boundUnder (hn : Declares mem data n this seg.bytes)
    (h : parseDefMethod mem w d = done (w', d', some n)) :
    w'.ns.BoundUnder this (w.ns.curNamespace_ ++ seg.bytes) := by
  obtain ⟨pkg, -, h⟩ := bind_eq_done.1 h
  obtain ⟨⟨d₁, name⟩, -, h⟩ := bind_eq_done.1 h
  obtain ⟨⟨reg, w₁⟩, hopen, h⟩ := bind_eq_done.1 h
  obtain ⟨⟨methodFlags, d₂⟩, -, h⟩ := bind_eq_done.1 h
  obtain ⟨⟨w₂, this⟩, hmake, h⟩ := bind_eq_done.1 h
  cases h
  cases hn
  exact boundUnder_of_contents hopen (.refl (openScope_sound hw hopen)) hmake nofun

theorem parseDefCreateFieldOf_boundUnder (hop : code ≠ .deadScope) (hn : Declares mem data n this seg.bytes)
    (h : parseDefCreateFieldOf mem fuel code w d = done (w', d', some n)) :
    w'.ns.BoundUnder this (w.ns.curNamespace_ ++ seg.bytes) := by
  obtain ⟨⟨d₁, sourceBuffer⟩, -, h⟩ := bind_eq_done.1 h
  obtain ⟨⟨d₂, byteIndex⟩, -, h⟩ := bind_eq_done.1 h
  obtain ⟨⟨d₃, name⟩, -, h⟩ := bind_eq_done.1 h
  obtain ⟨⟨reg, w₁⟩, hopen, h⟩ := bind_eq_done.1 h
  obtain ⟨⟨w₂, this⟩, hmake, h⟩ := bind_eq_done.1 h
  cases h
  cases hn
  exact boundUnder_of_contents hopen (.refl (openScope_sound hw hopen)) hmake hop

theorem parseNamedField_boundUnder {len : ℕ}
    (h : parseNamedField mem w d = done (w', d', some (.namedField this seg.bytes len))) :
    w'.ns.BoundUnder this (w.ns.curNamespace_ ++ seg.bytes) := by
  obtain ⟨-, h⟩ := require_bind_eq_done.1 h
  obtain ⟨_, -, h⟩ := bind_eq_done.1 h
  obtain ⟨-, h⟩ := require_bind_eq_done.1 h
  obtain ⟨name, -, h⟩ := bind_eq_done.1 h
  obtain ⟨d₁, -, h⟩ := bind_eq_done.1 h
  obtain ⟨⟨d₂, len⟩, -, h⟩ := bind_eq_done.1 h
  obtain ⟨⟨reg, w₁⟩, hopen, h⟩ := bind_eq_done.1 h
  obtain ⟨⟨w₂, this⟩, hmake, h⟩ := bind_eq_done.1 h
  cases h
  exact boundUnder_of_contents hopen (.refl (openScope_sound hw hopen)) hmake (by decide)

/-- The fields of a list are bound when the list is returned. -/
theorem parseFieldListFrom_boundUnder {elements fields : List Node} (hcur : w.ns.curNamespace_ = cur)
    (helements : ∀ this seg len, .namedField this (NameSeg.bytes seg) len ∈ elements →
      w.ns.BoundUnder this (cur ++ seg.bytes))
    (h : parseFieldListFrom mem fuel elements w d = done (w', d', some fields)) :
    ∀ this seg len, .namedField this (NameSeg.bytes seg) len ∈ fields →
      w'.ns.BoundUnder this (cur ++ seg.bytes) := by
  induction fuel generalizing elements w d with
  | zero => cases h
  | succ fuel ih =>
    rw [parseFieldListFrom] at h
    dsimp only at h
    split at h
    · cases h
      exact helements
    have hsimple (op : Opcode) : ∀ this seg len, .namedField this (NameSeg.bytes seg) len ∈
        elements ++ [.term (.simple op)] → w.ns.BoundUnder this (cur ++ seg.bytes) := by
      intro this seg len hmem
      exact helements this seg len (by simpa using hmem)
    obtain ⟨first, -, h⟩ := bind_eq_done.1 h
    split at h
    · obtain ⟨_, -, h⟩ := bind_eq_done.1 h
      obtain ⟨_, -, h⟩ := bind_eq_done.1 h
      exact ih hw hcur (hsimple _) h
    split at h
    · obtain ⟨_, -, h⟩ := bind_eq_done.1 h
      obtain ⟨_, -, h⟩ := bind_eq_done.1 h
      obtain ⟨_, -, h⟩ := bind_eq_done.1 h
      exact ih hw hcur (hsimple _) h
    split at h
    · obtain ⟨⟨w₁, d₁, field⟩, hfield, h⟩ := bind_eq_done.1 h
      have hparses := parseNamedField_disciplined hw hfield
      obtain ⟨bs, hbs, -⟩ := hparses.bindings
      refine ih hparses.sound (hparses.current.trans hcur) (fun this seg len hmem => ?_) h
      obtain hmem | hmem := List.mem_append.1 hmem
      · exact (helements this seg len hmem).append hbs
      · obtain rfl : field = some (.namedField this seg.bytes len) := by
          cases field with
          | none => cases hmem
          | some field => exact congrArg some (List.mem_singleton.1 hmem).symm
        rw [← hcur]
        exact parseNamedField_boundUnder hw hfield
    · cases h

theorem parseDefField_boundUnder (hn : Declares mem data n this seg.bytes)
    (h : parseDefField mem fuel w d = done (w', d', some n)) :
    w'.ns.BoundUnder this (w.ns.curNamespace_ ++ seg.bytes) := by
  obtain ⟨pkg, -, h⟩ := bind_eq_done.1 h
  obtain ⟨_, -, h⟩ := bind_eq_done.1 h
  obtain ⟨_, -, h⟩ := bind_eq_done.1 h
  obtain ⟨⟨w₁, d₁, fieldList⟩, hlist, h⟩ := bind_eq_done.1 h
  cases fieldList with
  | none => cases h
  | some fieldList =>
    cases h
    cases hn with
    | namedField hmem => exact parseFieldListFrom_boundUnder hw rfl (by simp) hlist this seg _ hmem

theorem parseDefIndexField_boundUnder (hn : Declares mem data n this seg.bytes)
    (h : parseDefIndexField mem fuel w d = done (w', d', some n)) :
    w'.ns.BoundUnder this (w.ns.curNamespace_ ++ seg.bytes) := by
  obtain ⟨pkg, -, h⟩ := bind_eq_done.1 h
  obtain ⟨_, -, h⟩ := bind_eq_done.1 h
  obtain ⟨_, -, h⟩ := bind_eq_done.1 h
  obtain ⟨_, -, h⟩ := bind_eq_done.1 h
  obtain ⟨⟨w₁, d₁, fieldList⟩, hlist, h⟩ := bind_eq_done.1 h
  cases fieldList with
  | none => cases h
  | some fieldList =>
    cases h
    cases hn with
    | namedField hmem => exact parseFieldListFrom_boundUnder hw rfl (by simp) hlist this seg _ hmem

omit hw in
/-- A container that is not merged -/
theorem makeContainer_boundUnder {ignored : Bool} {os : List (NodePtr × Bool)} {rs : List NodePtr}
    (hopen : w.openScope seg.bytes = done (reg, w₁)) (hparses : w₁.Parses w₂ os rs)
    (hmake : w₂.makeContainer reg code = done (w', this, ignored)) (hop : code ≠ .deadScope) :
    w'.ns.BoundUnder this (w.ns.curNamespace_ ++ seg.bytes) := by
  have hreg := (openScope_seg hopen).1
  rw [World.makeContainer, if_neg (by simp [hreg])] at hmake
  obtain ⟨⟨w₃, p⟩, hrun, h⟩ := bind_eq_done.1 hmake
  cases h
  exact boundUnder_of_contents hopen hparses hrun hop

theorem parseDefContainer_boundUnder {header : ParseState → Outcome ParseState}
    {objectList : Parse (List Node)} (hlist : Disciplined id objectList) (hdead : code ≠ .deadScope)
    (hop : data.consumeOpcode mem = done (code, d)) (hn : Declares mem data n this seg.bytes)
    (h : parseDefContainer mem objectList code header w d = done (w', d', some n)) :
    w'.ns.BoundUnder this (w.ns.curNamespace_ ++ seg.bytes) := by
  obtain ⟨pkg, hadjust, h⟩ := bind_eq_done.1 h
  obtain ⟨⟨d₁, name⟩, hparse, h⟩ := bind_eq_done.1 h
  obtain ⟨d₂, -, h⟩ := bind_eq_done.1 h
  obtain ⟨⟨reg, w₁⟩, hopen, h⟩ := bind_eq_done.1 h
  obtain ⟨⟨w₂, d₃, list⟩, hrun, h⟩ := bind_eq_done.1 h
  obtain ⟨list, -, h⟩ := bind_eq_done.1 h
  obtain ⟨⟨w₃, this, ignored⟩, hmake, h⟩ := bind_eq_done.1 h
  cases h
  cases hn with
  | container hop' hadjust' hparse' =>
    cases hop.symm.trans hop'
    cases hadjust.symm.trans hadjust'
    cases hparse.symm.trans hparse'
    exact makeContainer_boundUnder hopen (hlist (openScope_sound hw hopen) hrun) hmake hdead

theorem parseDefScope_boundUnder {termList : Parse (List Node)} (hlist : Disciplined id termList)
    (hop : data.consumeOpcode mem = done (.scope, d)) (hn : Declares mem data n this seg.bytes)
    (h : parseDefScope mem fuel termList w d = done (w', d', some n)) :
    w'.ns.BoundUnder this (w.ns.curNamespace_ ++ seg.bytes) := by
  obtain ⟨pkg, hadjust, h⟩ := bind_eq_done.1 h
  obtain ⟨⟨d₁, name⟩, hparse, h⟩ := bind_eq_done.1 h
  obtain ⟨⟨reg, w₁⟩, hopen, h⟩ := bind_eq_done.1 h
  obtain ⟨⟨w₂, d₃, list⟩, hrun, h⟩ := bind_eq_done.1 h
  obtain ⟨list, -, h⟩ := bind_eq_done.1 h
  obtain ⟨-, h⟩ := require_bind_eq_done.1 h
  obtain ⟨found, -, h⟩ := bind_eq_done.1 h
  cases found with
  | none =>
    obtain ⟨⟨w₃, this, ignored⟩, hmake, h⟩ := bind_eq_done.1 h
    cases h
    cases hn with
    | container hop' hadjust' hparse' =>
      cases hop.symm.trans hop'
      cases hadjust.symm.trans hadjust'
      cases hparse.symm.trans hparse'
      exact makeContainer_boundUnder hopen (hlist (openScope_sound hw hopen) hrun) hmake nofun
  | some found =>
    -- the container is merged, so that its registration is ignored
    obtain ⟨⟨reg', w₃⟩, hdead, h⟩ := bind_eq_done.1 h
    obtain ⟨⟨w₄, this, ignored⟩, hmake, h⟩ := bind_eq_done.1 h
    obtain ⟨_, -, h⟩ := bind_eq_done.1 h
    obtain ⟨_, -, h⟩ := bind_eq_done.1 h
    obtain ⟨_, -, h⟩ := bind_eq_done.1 h
    cases h
    rw [World.makeContainer, if_pos (World.markDead_eq_done hdead).1] at hmake
    cases hmake
    cases hn

omit hw in
theorem parseDefIfElse_node {termList : Parse (List Node)}
    (h : parseDefIfElse mem fuel termList w d = done (w', d', some n)) :
    ∃ predicate ifStatements elseStatements, n = .if_ predicate ifStatements elseStatements := by
  obtain ⟨pkg, -, h⟩ := bind_eq_done.1 h
  obtain ⟨⟨_, predicate⟩, -, h⟩ := bind_eq_done.1 h
  cases predicate with
  | none => cases h
  | some predicate =>
    obtain ⟨⟨_, _, ifStatements⟩, -, h⟩ := bind_eq_done.1 h
    cases ifStatements with
    | none => cases h
    | some ifStatements =>
      obtain ⟨hasElse, -, h⟩ := bind_eq_done.1 h
      cases hasElse with
      | false =>
        cases h
        exact ⟨_, _, _, rfl⟩
      | true =>
        obtain ⟨_, -, h⟩ := bind_eq_done.1 h
        obtain ⟨_, -, h⟩ := bind_eq_done.1 h
        obtain ⟨⟨_, _, elseStatements⟩, -, h⟩ := bind_eq_done.1 h
        cases elseStatements with
        | none =>
          obtain ⟨_, -, h⟩ := bind_eq_done.1 h
          cases h
        | some elseStatements =>
          cases h
          exact ⟨_, _, _, rfl⟩

omit hw in
theorem parseDefWhile_node {termList : Parse (List Node)}
    (h : parseDefWhile mem fuel termList w d = done (w', d', some n)) :
    ∃ predicate statements, n = .while_ predicate statements := by
  obtain ⟨pkg, -, h⟩ := bind_eq_done.1 h
  obtain ⟨⟨_, predicate⟩, -, h⟩ := bind_eq_done.1 h
  cases predicate with
  | none => cases h
  | some predicate =>
    obtain ⟨⟨_, _, statements⟩, -, h⟩ := bind_eq_done.1 h
    cases statements with
    | none => cases h
    | some statements =>
      cases h
      exact ⟨_, _, rfl⟩

/-- **An object is bound under the current scope followed by its own segment.** -/
theorem parseObject_boundUnder (hop : data.consumeOpcode mem = done (code, d))
    (h : parseObject mem fuel (parseTermList mem fuel) (parseObjectList mem fuel) code w d =
      done (w', d', some n)) (hn : Declares mem data n this seg.bytes) :
    w'.ns.BoundUnder this (w.ns.curNamespace_ ++ seg.bytes) := by
  obtain ⟨-, hobjects, hterms⟩ := parse_disciplined mem fuel
  rw [parseObject.eq_def] at h
  split at h
  case h_1 => exact parseDefName_boundUnder hw hn h
  case h_2 => exact parseDefScope_boundUnder hw hterms hop hn h
  case h_3 => exact parseDefMethod_boundUnder hw hn h
  case h_19 => exact parseDefField_boundUnder hw hn h
  case h_20 => exact parseDefContainer_boundUnder hw hobjects (by decide) hop hn h
  case h_21 => exact parseDefContainer_boundUnder hw hobjects (by decide) hop hn h
  case h_22 => exact parseDefContainer_boundUnder hw hobjects (by decide) hop hn h
  case h_23 => exact parseDefContainer_boundUnder hw hobjects (by decide) hop hn h
  case h_24 => exact parseDefIndexField_boundUnder hw hn h
  -- the others declare nothing
  case h_4 =>
    obtain ⟨⟨d₁, arg⟩, -, h⟩ := bind_eq_done.1 h
    cases arg with
    | none => cases h
    | some arg =>
      obtain ⟨⟨d₂, name⟩, -, h⟩ := bind_eq_done.1 h
      cases h
      cases hn
  case h_5 =>
    obtain ⟨⟨d₁, obj⟩, -, h⟩ := bind_eq_done.1 h
    obtain ⟨⟨d₂, value⟩, -, h⟩ := bind_eq_done.1 h
    cases h
    cases hn
  case h_11 =>
    obtain ⟨predicate, ifStatements, elseStatements, rfl⟩ := parseDefIfElse_node h
    cases hn
  case h_12 =>
    obtain ⟨predicate, statements, rfl⟩ := parseDefWhile_node h
    cases hn
  case h_13 =>
    cases h
    cases hn
  case h_14 =>
    obtain ⟨⟨d₁, arg⟩, -, h⟩ := bind_eq_done.1 h
    cases arg with
    | none => cases h
    | some arg =>
      cases h
      cases hn
  case h_15 =>
    obtain ⟨⟨d₁, name⟩, -, h⟩ := bind_eq_done.1 h
    obtain ⟨⟨flags, d₂⟩, -, h⟩ := bind_eq_done.1 h
    obtain ⟨-, h⟩ := require_bind_eq_done.1 h
    cases h
    cases hn
  case h_16 =>
    obtain ⟨⟨d₁, sourceBuffer⟩, -, h⟩ := bind_eq_done.1 h
    obtain ⟨⟨d₂, bitIndex⟩, -, h⟩ := bind_eq_done.1 h
    obtain ⟨⟨d₃, numBits⟩, -, h⟩ := bind_eq_done.1 h
    obtain ⟨⟨d₄, name⟩, -, h⟩ := bind_eq_done.1 h
    cases h
    cases hn
  case h_17 =>
    obtain ⟨⟨type, d₁⟩, -, h⟩ := bind_eq_done.1 h
    obtain ⟨⟨code, d₂⟩, -, h⟩ := bind_eq_done.1 h
    obtain ⟨⟨d₃, arg⟩, -, h⟩ := bind_eq_done.1 h
    cases h
    cases hn
  case h_18 =>
    obtain ⟨⟨d₁, name⟩, -, h⟩ := bind_eq_done.1 h
    obtain ⟨⟨regionSpace, d₂⟩, -, h⟩ := bind_eq_done.1 h
    obtain ⟨⟨d₃, regionOffset⟩, -, h⟩ := bind_eq_done.1 h
    obtain ⟨⟨d₄, regionLen⟩, -, h⟩ := bind_eq_done.1 h
    cases h
    cases hn
  case h_25 =>
    obtain ⟨_, -, h⟩ := bind_eq_done.1 h
    cases h
  all_goals exact parseDefCreateFieldOf_boundUnder hw (by decide) hn h

theorem parseTermObj_boundUnder (hn : Declares mem data n this seg.bytes)
    (h : parseTermObj mem fuel w data = done (w', d', some n)) :
    w'.ns.BoundUnder this (w.ns.curNamespace_ ++ seg.bytes) := by
  obtain _ | fuel := fuel
  · rw [parseTermObj] at h
    cases h
  rw [parseTermObj] at h
  obtain ⟨code, hpeek, h⟩ := bind_eq_done.1 h
  split at h
  case isTrue =>
    obtain ⟨⟨d₁, t⟩, -, h⟩ := bind_eq_done.1 h
    cases t with
    | none => cases h
    | some t =>
      cases h
      cases hn
  case isFalse =>
    obtain ⟨⟨code', d₁⟩, hop, h⟩ := bind_eq_done.1 h
    cases hpeek.symm.trans (consumeOpcode_eq_done hop).1
    exact parseObject_boundUnder hw hop h hn

end Objects

/-! ## Lists -/

/-- Where the objects of a list are parsed, the scope is the current one, and the bindings
stay until the list is returned. -/
structure Inside (w w₁ w' : World) : Prop where
  /-- the invariant holds -/
  sound : w₁.Sound
  /-- the current scope is that of the list -/
  current : w₁.ns.curNamespace_ = w.ns.curNamespace_
  /-- the bindings stay -/
  bindings : ∃ bs, w'.ns.bindings_ = w₁.ns.bindings_ ++ bs

theorem parseObjects_inside {nodes objs : List Node} (hw : w.Sound) (hdata : data.begin_ ≤ data.end_)
    (h : parseList Node.opcode destroyAll (parseTermObj mem fuel) m w data objs = done (w', d', some nodes)) :
    ∀ w₁ d₁, Objects mem w data w₁ d₁ → Inside w w₁ w' := by
  induction m generalizing w data objs with
  | zero => cases h
  | succ m ih =>
    rw [parseList] at h
    split at h
    case isTrue hend =>
      cases h
      intro w₁ d₁ hobjects
      obtain ⟨rfl, rfl⟩ | ⟨hne, -⟩ := objects_cons hobjects
      · exact ⟨hw, rfl, [], (List.append_nil _).symm⟩
      · exact absurd hend hne
    case isFalse hne =>
      obtain ⟨⟨w₂, d₂, res⟩, hfirst, h⟩ := bind_eq_done.1 h
      have hreturns := returns_termObj hfirst
      have hparses := (parse_disciplined mem fuel).1 hw hfirst
      cases res with
      | none =>
        obtain ⟨_, -, h⟩ := bind_eq_done.1 h
        cases h
      | some obj =>
        have halive : obj.opcode ≠ .deadScope :=
          (hreturns.extent hdata).alive [obj] rfl obj (List.mem_singleton_self _)
        have hd₂ : Rest data d₂ := hreturns.rest hdata
        dsimp only at h
        rw [if_pos halive] at h
        have hrest := ih hparses.sound hd₂.le_end h
        intro w₁ d₁ hobjects
        obtain ⟨rfl, rfl⟩ | ⟨-, w₃, d₃, ns₃, hreturns₃, hobjects₃⟩ := objects_cons hobjects
        · obtain ⟨bs, hbs, -⟩ := hparses.bindings
          obtain ⟨bs', hbs'⟩ := (hrest w₂ d₂ .start).bindings
          exact ⟨hw, rfl, bs ++ bs', by rw [hbs', hbs, List.append_assoc]⟩
        · obtain ⟨rfl, rfl, -⟩ := hreturns.unique hreturns₃ hdata
          have hinside := hrest w₁ d₁ hobjects₃
          exact ⟨hinside.sound, hinside.current.trans hparses.current, hinside.bindings⟩

theorem returns_termList_inside {nodes : List Node} (hw : w.Sound) (hdata : data.begin_ ≤ data.end_)
    (h : Returns mem ⟨.termList, w, data⟩ w' d' (some nodes)) (hobjects : Objects mem w data w₁ d) :
    Inside w w₁ w' := by
  obtain ⟨fuel, h⟩ := h
  obtain _ | fuel := fuel
  · rw [ParseFunction.result, parseTermList] at h
    cases h
  · rw [ParseFunction.result, parseTermList] at h
    exact parseObjects_inside hw hdata h w₁ d hobjects

/-- **What is declared directly in a list of objects is bound under the scope of the list.** -/
theorem DeclaredIn.boundUnder {nodes : List Node} (h : DeclaredIn mem w data this seg.bytes) (hw : w.Sound)
    (hdata : data.begin_ ≤ data.end_) (hlist : Returns mem ⟨.termList, w, data⟩ w' d' (some nodes)) :
    w'.ns.BoundUnder this (w.ns.curNamespace_ ++ seg.bytes) := by
  obtain ⟨w₁, d₁, w₂, d₂, n, hobjects, hne, hreturns, hn⟩ := h
  have hinside := returns_termList_inside hw hdata hlist hobjects
  obtain ⟨bs, hbs⟩ := (returns_termList_inside hw hdata hlist (.next hobjects hne hreturns)).bindings
  obtain ⟨fuel, hrun⟩ := hreturns
  obtain ⟨⟨w₃, d₃, n'⟩, hrun, h⟩ := bind_eq_done.1 hrun
  cases n' with
  | none => cases h
  | some n' =>
    cases h
    have hbound := parseTermObj_boundUnder hinside.sound hn hrun
    rw [hinside.current] at hbound
    exact hbound.append hbs

/-! ## Blocks -/

/-- **A `Scope` block that is merged into a container**, with what the parser has when it
parses the contents and when it looks the name of the block up. -/
structure MergedBlock (mem : Memory) (scope : NamePath) (name : AcpiName) : Type where
  /-- the world before the block -/
  before : World
  /-- the view of the block -/
  data : ParseState
  /-- it is a view -/
  valid : data.begin_ ≤ data.end_
  /-- the name space and the heap are in order -/
  sound : before.Sound
  /-- the scope that encloses the block -/
  current : before.ns.curNamespace_ = scope.bytes
  /-- what is behind the opcode -/
  behindOpcode : ParseState
  /-- the opcode -/
  opcode : data.consumeOpcode mem = done (.scope, behindOpcode)
  /-- the package -/
  pkg : ParseState
  /-- its length -/
  package : adjustWithPkgLength mem behindOpcode = done pkg
  /-- the contents -/
  content : ParseState
  /-- the name of the block -/
  named : parseNameString mem pkg = done (content, name.bytes)
  /-- the registration -/
  reg : ScopeRegistration
  /-- the world in which the contents are parsed -/
  inside : World
  /-- the scope is opened -/
  opened : before.openScope name.bytes = done (reg, inside)
  /-- the world behind the contents -/
  atEnd : World
  /-- the view behind the contents -/
  rest : ParseState
  /-- the trees of the contents -/
  nodes : List Node
  /-- the contents are parsed -/
  parsed : Returns mem ⟨.termList, inside, content⟩ atEnd rest (some nodes)
  /-- the binding of the container -/
  container : Binding
  /-- the container is found -/
  found : atEnd.ns.lookupBinding name.bytes = done (some container)
  /-- the world behind the block -/
  after : World
  /-- the view behind the block -/
  behind : ParseState
  /-- the node of the block, whose registration is ignored -/
  this : NodePtr
  /-- the block is merged -/
  returned : Returns mem ⟨.termObj, before, data⟩ after behind (some [.container this true .scope nodes])

namespace AcpiName

/-- The scope that is opened for a block. -/
def opened (scope : NamePath) : AcpiName → NamePath
  | single seg => scope ++ [seg]
  | parent _ path => scope ++ path
  | multi first second rest => scope ++ first :: second :: rest
  | rooted path => path

/-- The lookup of the name in the scope of the block ends where it would end in the enclosing
scope, and if something is declared in the block it ends at the name of the block. -/
def Direct (ns : NameSpace) (scope : NamePath) (declares : Prop) : AcpiName → Prop
  | single seg => bound ns (scope ++ [seg] ++ [seg]) = none ∧ (bound ns (scope ++ [seg]) ≠ none ∨ ¬ declares)
  | parent _ _ => True
  | multi _ _ _ => scope = []
  | rooted _ => True

end AcpiName

theorem merge_ns {p q : NodePtr} (h : w.merge fuel p q = done w') : w'.ns = w.ns := by
  obtain ⟨o, -, h⟩ := bind_eq_done.1 h
  obtain ⟨-, h⟩ := require_bind_eq_done.1 h
  obtain ⟨-, h⟩ := require_bind_eq_done.1 h
  obtain ⟨n, -, h⟩ := bind_eq_done.1 h
  obtain ⟨-, h⟩ := require_bind_eq_done.1 h
  obtain ⟨-, h⟩ := require_bind_eq_done.1 h
  obtain ⟨-, h⟩ := require_bind_eq_done.1 h
  obtain ⟨-, h⟩ := require_bind_eq_done.1 h
  obtain ⟨before, -, h⟩ := bind_eq_done.1 h
  obtain ⟨b, -, h⟩ := bind_eq_done.1 h
  cases h
  rfl

namespace MergedBlock

open AcpiName

variable {scope : NamePath} {name : AcpiName} (B : MergedBlock mem scope name)

/-- The name of a scope has no parent prefix, and the scope is opened. -/
theorem inside_eq : (∀ levels path, name ≠ .parent levels path) ∧
    B.reg = ⟨B.before.ns.curNamespace_, .null⟩ ∧
    B.inside = { B.before with ns := ⟨(name.opened scope).bytes, B.before.ns.bindings_⟩ } := by
  obtain ⟨⟨reg, ns⟩, hopen, h⟩ := bind_eq_done.1 B.opened
  have hpair := done.inj h
  have hreg : reg = B.reg := congrArg Prod.fst hpair
  have hinside : { B.before with ns := ns } = B.inside := congrArg Prod.snd hpair
  rw [← hreg, ← hinside]
  obtain ⟨hparent, -, rfl, rfl⟩ := NameSpace.openScope_eq_done.1 hopen
  refine ⟨fun levels path hname => ?_, rfl, ?_⟩
  · rw [hname] at hparent
    exact hparent rfl
  · rw [B.current]
    cases name with
    | single seg =>
      have hroot : seg.bytes.head? ≠ some rootChar := by simpa [NameSeg.bytes] using seg.valid.1.ne_root
      simp [AcpiName.bytes, AcpiName.opened, hroot]
    | parent levels path => exact absurd rfl hparent
    | multi first second rest =>
      have hroot : first.lead ≠ rootChar := first.valid.1.ne_root
      simp [AcpiName.bytes, AcpiName.opened, NameSeg.bytes, hroot]
    | rooted path => simp [AcpiName.bytes, AcpiName.opened]

theorem inside_sound : B.inside.Sound := openScope_sound B.sound B.opened

theorem inside_current : B.inside.ns.curNamespace_ = (name.opened scope).bytes := by
  rw [B.inside_eq.2.2]

theorem content_valid : B.content.begin_ ≤ B.content.end_ := by
  have hd := shorter_of_consumeOpcode B.valid B.opcode
  have hpkg := package_of_adjustWithPkgLength hd.le_end B.package
  exact (shorter_of_parseNameString hpkg.le_end B.named).le_end

/-- The scope is still open when the name of the block is looked up. -/
theorem parses : B.inside.Parses B.atEnd (ownersAll B.nodes) (registeredAll B.nodes) := by
  obtain ⟨fuel, h⟩ := B.parsed
  exact (parse_disciplined mem fuel).2.2 B.inside_sound h

theorem atEnd_current : B.atEnd.ns.curNamespace_ = (name.opened scope).bytes :=
  B.parses.current.trans B.inside_current

/-- The bindings are not changed when the block is merged. -/
theorem after_bindings : B.after.ns.bindings_ = B.atEnd.ns.bindings_ := by
  obtain ⟨fuel, h⟩ := B.returned
  obtain ⟨⟨w', d', n⟩, hrun, h⟩ := bind_eq_done.1 h
  obtain ⟨fuel, hrun⟩ := parseObject_of_parseTermObj B.opcode (by decide) hrun
  obtain ⟨pkg, hadjust, hrun⟩ := bind_eq_done.1 hrun
  cases B.package.symm.trans hadjust
  obtain ⟨⟨d₁, name'⟩, hparse, hrun⟩ := bind_eq_done.1 hrun
  cases B.named.symm.trans hparse
  obtain ⟨⟨reg, w₁⟩, hopen, hrun⟩ := bind_eq_done.1 hrun
  cases B.opened.symm.trans hopen
  obtain ⟨⟨w₂, d₂, list⟩, hlist, hrun⟩ := bind_eq_done.1 hrun
  obtain ⟨rfl, -, -⟩ := B.parsed.unique (returns_termList hlist) B.content_valid
  obtain ⟨nodes, -, hrun⟩ := bind_eq_done.1 hrun
  obtain ⟨-, hrun⟩ := require_bind_eq_done.1 hrun
  obtain ⟨found, hfound, hrun⟩ := bind_eq_done.1 hrun
  obtain ⟨b, hlookup, hb⟩ := bind_eq_done.1 hfound
  cases B.found.symm.trans hlookup
  cases hb
  obtain ⟨⟨reg', w₃⟩, hdead, hrun⟩ := bind_eq_done.1 hrun
  obtain ⟨⟨w₄, this, ignored⟩, hmake, hrun⟩ := bind_eq_done.1 hrun
  obtain ⟨_, -, hrun⟩ := bind_eq_done.1 hrun
  obtain ⟨-, hrun⟩ := require_bind_eq_done.1 hrun
  obtain ⟨w₅, hmerge, hrun⟩ := bind_eq_done.1 hrun
  have hmade : w₄.ns.bindings_ = B.atEnd.ns.bindings_ := by
    obtain ⟨hignore, rfl⟩ := World.markDead_eq_done hdead
    rw [World.makeContainer, if_pos hignore] at hmake
    cases hmake
    rfl
  have hw' : w₅ = w' := congrArg Prod.fst (done.inj hrun)
  have hafter : w' = B.after := congrArg Prod.fst (done.inj h)
  rw [← hafter, ← hw', merge_ns hmerge, hmade]

/-- What is declared directly in the block is bound under its scope. -/
theorem boundUnder {this : NodePtr} {seg : NameSeg} (h : DeclaredIn mem B.inside B.content this seg.bytes) :
    B.after.ns.BoundUnder this ((name.opened scope).bytes ++ seg.bytes) := by
  have hbound := h.boundUnder B.inside_sound B.content_valid B.parsed
  rw [B.inside_current] at hbound
  exact hbound.append (by rw [B.after_bindings, List.append_nil])

end MergedBlock

/-! ## What a block is merged into -/

namespace AcpiName

variable {ns : NameSpace} {scope : NamePath} {b : Binding}

theorem searchScopes_name (h : searchScopes (bound ns) scope [seg] = some b) :
    ∃ outer, outer <+: scope ∧ b.name = NamePath.bytes (outer ++ [seg]) := by
  induction scope using List.reverseRecOn with
  | nil =>
    rw [searchScopes_nil] at h
    exact ⟨[], List.prefix_refl _, NameSpace.findBinding_name h⟩
  | append_singleton scope a ih =>
    rw [searchScopes_concat] at h
    cases hb : bound ns (scope ++ [a] ++ [seg]) with
    | none =>
      rw [hb, Option.none_or] at h
      obtain ⟨outer, houter, hname⟩ := ih h
      exact ⟨outer, houter.trans (List.prefix_append _ _), hname⟩
    | some b' =>
      rw [hb] at h
      cases h
      exact ⟨scope ++ [a], List.prefix_refl _, NameSpace.findBinding_name hb⟩

/-- An object that is found upwards has a name that is not longer than that of an object in
the scope. -/
theorem searchScopes_length (h : searchScopes (bound ns) scope [seg] = some b) :
    b.name.length ≤ 4 * (scope.length + 1) := by
  obtain ⟨outer, houter, hname⟩ := searchScopes_name h
  have hle := houter.length_le
  rw [hname, NamePath.bytes_length, List.length_append, List.length_singleton]
  omega

theorem bound_length {path : NamePath} (h : bound ns path = some b) : b.name.length = 4 * path.length := by
  rw [NameSpace.findBinding_name h, NamePath.bytes_length]

/-- A name is found in the scope itself, or further outwards. -/
theorem searchScopes_eq_none_or (h : searchScopes (bound ns) scope [seg] = some b) :
    bound ns (scope ++ [seg]) = some b ∨
      bound ns (scope ++ [seg]) = none ∧ b.name.length ≤ 4 * scope.length := by
  obtain rfl | ⟨scope, a, rfl⟩ := List.eq_nil_or_concat' scope
  · rw [searchScopes_nil] at h
    exact .inl h
  · rw [searchScopes_concat] at h
    cases hb : bound ns (scope ++ [a] ++ [seg]) with
    | none =>
      rw [hb, Option.none_or] at h
      have hlen := searchScopes_length h
      exact .inr ⟨rfl, by simpa using hlen⟩
    | some b' =>
      rw [hb] at h
      exact .inl h

end AcpiName

namespace MergedBlock

open AcpiName

variable {scope : NamePath} {name : AcpiName} (B : MergedBlock mem scope name)

/-- Something is declared directly in the block by a single segment. -/
def Declaring : Prop := ∃ (this : NodePtr) (seg : NameSeg), DeclaredIn mem B.inside B.content this seg.bytes

/-- What is declared directly in the block is bound under the name of the container. -/
def ContentsBound : Prop :=
  ∀ (this : NodePtr) (seg : NameSeg), DeclaredIn mem B.inside B.content this seg.bytes →
    B.after.ns.BoundUnder this (B.container.name ++ seg.bytes)

/-- The contents are bound under the name of the container if it is the name of the block,
or if there are none. -/
theorem contentsBound_iff : B.ContentsBound ↔
    B.container.name = (name.opened scope).bytes ∨ ¬ B.Declaring := by
  constructor
  · intro h
    by_contra hnot
    rw [not_or, not_not] at hnot
    obtain ⟨hname, this, seg, hdeclared⟩ := hnot
    have hcontainer := (h this seg hdeclared).registered
    have hblock := (B.boundUnder hdeclared).registered
    rw [hcontainer, Option.some.injEq, Binding.mk.injEq] at hblock
    exact hname (List.append_cancel_right hblock.1)
  · rintro (hname | hnot) this seg hdeclared
    · rw [hname]
      exact B.boundUnder hdeclared
    · exact absurd ⟨this, seg, hdeclared⟩ hnot

/-- **When a block is merged into the right container.** -/
theorem merged_iff : B.ContentsBound ∧ name.resolve B.before.ns scope = done (some B.container) ↔
    name.resolve B.before.ns scope = name.resolve B.atEnd.ns scope ∧
      name.Direct B.atEnd.ns scope B.Declaring := by
  rw [B.contentsBound_iff]
  have hcur := B.atEnd_current
  have hfound := B.found
  cases name with
  | single seg =>
    have hblock : B.atEnd.ns.curNamespace_ = NamePath.bytes (scope ++ [seg]) := hcur
    rw [AcpiName.bytes, lookupBinding_single hblock, done.injEq, searchScopes_concat] at hfound
    simp only [resolve, pure_eq, done.injEq, Direct, AcpiName.opened]
    cases hshadow : AcpiName.bound B.atEnd.ns (scope ++ [seg] ++ [seg]) with
    | some b =>
      -- an object in the block is found
      rw [hshadow, Option.some_or, Option.some.injEq] at hfound
      have hlen := bound_length hshadow
      rw [hfound] at hlen
      simp only [List.length_append, List.length_singleton] at hlen
      refine iff_of_false (fun h => ?_) fun h => ?_
      · have hle := searchScopes_length h.2
        omega
      · cases h.2.1
    | none =>
      rw [hshadow, Option.none_or] at hfound
      rw [hfound, and_comm, and_iff_right rfl]
      refine and_congr_right fun _ => or_congr_left ?_
      obtain hblock | ⟨hnone, hlen⟩ := searchScopes_eq_none_or hfound
      · rw [hblock]
        exact iff_of_true (NameSpace.findBinding_name hblock) (by simp)
      · refine iff_of_false (fun hname => ?_) (not_not.2 hnone)
        rw [hname, NamePath.bytes_length, List.length_append, List.length_singleton] at hlen
        omega
  | parent levels path => exact absurd rfl (B.inside_eq.1 levels path)
  | multi first second rest =>
    rw [lookupBinding_multi, done.injEq] at hfound
    simp only [resolve, pure_eq, done.injEq, Direct, AcpiName.opened]
    have hlen := bound_length hfound
    constructor
    · rintro ⟨-, hresolve⟩
      have hlen' := bound_length hresolve
      rw [List.length_append] at hlen'
      obtain rfl : scope = [] := List.length_eq_zero_iff.1 (by omega)
      exact ⟨hresolve.trans hfound.symm, rfl⟩
    · rintro ⟨hresolve, rfl⟩
      exact ⟨.inl (NameSpace.findBinding_name hfound), hresolve.trans hfound⟩
  | rooted path =>
    rw [lookupBinding_rooted, done.injEq] at hfound
    simp only [resolve, pure_eq, done.injEq, Direct, AcpiName.opened, and_true, hfound]
    exact and_iff_right (.inl (NameSpace.findBinding_name hfound))

end MergedBlock

/-! ## Names -/

section Names

variable {a b : ℕ} {l : List UInt8}

/-- The characters of a segment that is valid -/
theorem nameSeg_of_validNameseg (h : validNameseg mem a = done true) (hread : mem.read a 4 = done l) :
    ∃ seg : NameSeg, l = seg.bytes := by
  obtain ⟨c₀, h₀, h⟩ := bind_eq_done.1 h
  split at h
  · cases h
  case isFalse hc₀ =>
    obtain ⟨c₁, h₁, h⟩ := bind_eq_done.1 h
    split at h
    · cases h
    case isFalse hc₁ =>
      obtain ⟨c₂, h₂, h⟩ := bind_eq_done.1 h
      split at h
      · cases h
      case isFalse hc₂ =>
        obtain ⟨c₃, h₃, h⟩ := bind_eq_done.1 h
        have hc₃ : isNameChar c₃ := of_decide_eq_true (done.inj h)
        simp only [Memory.read, h₀, h₁, h₂, h₃, done_bind, pure_eq, done.injEq, Nat.add_assoc,
          Nat.reduceAdd] at hread
        exact ⟨⟨c₀, c₁, c₂, c₃, not_not.1 hc₀, not_not.1 hc₁, not_not.1 hc₂, hc₃⟩, hread.symm⟩

theorem read_add (h : mem.read a (m + b) = done l) :
    ∃ l₁ l₂, mem.read a m = done l₁ ∧ mem.read (a + m) b = done l₂ ∧ l = l₁ ++ l₂ := by
  induction m generalizing a l with
  | zero =>
    rw [Nat.zero_add] at h
    exact ⟨[], l, rfl, h, rfl⟩
  | succ m ih =>
    rw [Nat.succ_add] at h
    obtain ⟨c, hc, h⟩ := bind_eq_done.1 h
    obtain ⟨l', hread, h⟩ := bind_eq_done.1 h
    cases h
    obtain ⟨l₁, l₂, h₁, h₂, rfl⟩ := ih hread
    refine ⟨c :: l₁, l₂, ?_, ?_, rfl⟩
    · rw [Memory.read, hc, done_bind, h₁]
      rfl
    · rwa [Nat.add_assoc, Nat.add_comm 1 m] at h₂

theorem parseNameSegs_path (h : parseNameSegs mem m d = done (d', l)) : ∃ path : NamePath, l = path.bytes := by
  induction m generalizing d l with
  | zero =>
    cases h
    exact ⟨[], rfl⟩
  | succ m ih =>
    obtain ⟨v, hvalid, h⟩ := bind_eq_done.1 h
    obtain ⟨hv, h⟩ := require_bind_eq_done.1 h
    obtain ⟨seg, hread, h⟩ := bind_eq_done.1 h
    obtain ⟨d₁, -, h⟩ := bind_eq_done.1 h
    obtain ⟨⟨d₂, rest⟩, hrest, h⟩ := bind_eq_done.1 h
    cases h
    obtain ⟨seg, rfl⟩ := nameSeg_of_validNameseg (hv ▸ hvalid) hread
    obtain ⟨path, rfl⟩ := ih hrest
    exact ⟨seg :: path, rfl⟩

theorem parseNamePath_path (h : parseNamePath mem d = done (d', l)) : ∃ path : NamePath, l = path.bytes := by
  obtain ⟨⟨type, d₁⟩, -, h⟩ := bind_eq_done.1 h
  dsimp only at h
  split at h
  · cases h
    exact ⟨[], rfl⟩
  split at h
  · obtain ⟨v₁, hvalid₁, h⟩ := bind_eq_done.1 h
    obtain ⟨hv₁, h⟩ := require_bind_eq_done.1 h
    obtain ⟨v₂, hvalid₂, h⟩ := bind_eq_done.1 h
    obtain ⟨hv₂, h⟩ := require_bind_eq_done.1 h
    obtain ⟨segs, hread, h⟩ := bind_eq_done.1 h
    obtain ⟨d₂, -, h⟩ := bind_eq_done.1 h
    cases h
    obtain ⟨l₁, l₂, h₁, h₂, rfl⟩ := read_add (m := 4) (b := 4) hread
    obtain ⟨seg₁, rfl⟩ := nameSeg_of_validNameseg (hv₁ ▸ hvalid₁) h₁
    obtain ⟨seg₂, rfl⟩ := nameSeg_of_validNameseg (hv₂ ▸ hvalid₂) h₂
    exact ⟨[seg₁, seg₂], rfl⟩
  split at h
  · obtain ⟨⟨segCount, d₂⟩, -, h⟩ := bind_eq_done.1 h
    obtain ⟨-, h⟩ := require_bind_eq_done.1 h
    exact parseNameSegs_path h
  split at h
  case isTrue hlead =>
    obtain ⟨⟨c₁, d₂⟩, -, h⟩ := bind_eq_done.1 h
    obtain ⟨⟨c₂, d₃⟩, -, h⟩ := bind_eq_done.1 h
    obtain ⟨⟨c₃, d₄⟩, -, h⟩ := bind_eq_done.1 h
    obtain ⟨hchars, h⟩ := require_bind_eq_done.1 h
    cases h
    exact ⟨[⟨type, c₁, c₂, c₃, hlead, hchars⟩], rfl⟩
  case isFalse => cases h

theorem parseParentPrefixes_replicate (h : parseParentPrefixes mem m d = done (d', l)) :
    ∃ levels, l = List.replicate levels parentPrefixChar := by
  induction m generalizing d l with
  | zero =>
    rw [parseParentPrefixes] at h
    obtain ⟨c, -, h⟩ := bind_eq_done.1 h
    split at h
    · cases h
    · cases h
      exact ⟨0, rfl⟩
  | succ m ih =>
    rw [parseParentPrefixes] at h
    obtain ⟨c, hpeek, h⟩ := bind_eq_done.1 h
    split at h
    case isTrue hc =>
      obtain ⟨⟨c', d₁⟩, hconsume, h⟩ := bind_eq_done.1 h
      obtain ⟨⟨d₂, l'⟩, hrest, h⟩ := bind_eq_done.1 h
      cases h
      obtain ⟨levels, rfl⟩ := ih hrest
      obtain ⟨hc', -⟩ := consume_eq_done hconsume
      cases hc'.symm.trans (peek_eq_done hpeek)
      exact ⟨levels + 1, by rw [List.replicate_succ, hc]⟩
    case isFalse =>
      cases h
      exact ⟨0, rfl⟩

/-- **The names that are parsed** are the null name and the forms of a name that is used. -/
theorem parseNameString_form (h : parseNameString mem d = done (d', name)) :
    name = [] ∨ ∃ form : AcpiName, name = form.bytes := by
  rw [parseNameString] at h
  obtain ⟨c, hpeek, h⟩ := bind_eq_done.1 h
  dsimp only at h
  split at h
  case isTrue hroot =>
    obtain ⟨⟨c', d₁⟩, hconsume, h⟩ := bind_eq_done.1 h
    obtain ⟨⟨d₂, start⟩, hstart, h⟩ := bind_eq_done.1 h
    obtain ⟨⟨d₃, l⟩, hpath, h⟩ := bind_eq_done.1 h
    cases h
    cases hstart
    obtain ⟨path, rfl⟩ := parseNamePath_path hpath
    obtain ⟨hc', -⟩ := consume_eq_done hconsume
    cases hc'.symm.trans (peek_eq_done hpeek)
    exact .inr ⟨.rooted path, by rw [hroot]; rfl⟩
  case isFalse =>
    obtain ⟨⟨d₁, start⟩, hstart, h⟩ := bind_eq_done.1 h
    obtain ⟨⟨d₂, l⟩, hpath, h⟩ := bind_eq_done.1 h
    cases h
    obtain ⟨path, rfl⟩ := parseNamePath_path hpath
    obtain ⟨levels, rfl⟩ := parseParentPrefixes_replicate hstart
    obtain _ | levels := levels
    · obtain _ | ⟨seg, _ | ⟨second, rest⟩⟩ := path
      · exact .inl rfl
      · exact .inr ⟨.single seg, List.append_nil _⟩
      · exact .inr ⟨.multi seg second rest, rfl⟩
    · exact .inr ⟨.parent levels path, rfl⟩

end Names

/-- **Every block that is merged** has the null name or is a `MergedBlock`. -/
theorem MergedBlock.exists_of_returns {scope : NamePath} {nodes : List Node} (hw : w.Sound)
    (hdata : data.begin_ ≤ data.end_) (hcur : w.ns.curNamespace_ = scope.bytes)
    (hop : data.consumeOpcode mem = done (.scope, d))
    (h : Returns mem ⟨.termObj, w, data⟩ w' d' (some [.container this true .scope nodes])) :
    (∃ pkg content, adjustWithPkgLength mem d = done pkg ∧ parseNameString mem pkg = done (content, [])) ∨
      ∃ (name : AcpiName) (B : MergedBlock mem scope name),
        B.before = w ∧ B.data = data ∧ B.after = w' ∧ B.behind = d' ∧ B.this = this ∧ B.nodes = nodes := by
  obtain ⟨fuel, hrun⟩ := id h
  obtain ⟨⟨w₁, d₁, n⟩, hrun, hn⟩ := bind_eq_done.1 hrun
  obtain ⟨fuel, hrun⟩ := parseObject_of_parseTermObj hop (by decide) hrun
  obtain ⟨pkg, hadjust, hrun⟩ := bind_eq_done.1 hrun
  obtain ⟨⟨content, block⟩, hparse, hrun⟩ := bind_eq_done.1 hrun
  obtain ⟨⟨reg, inside⟩, hopen, hrun⟩ := bind_eq_done.1 hrun
  obtain ⟨⟨atEnd, rest, list⟩, hlist, hrun⟩ := bind_eq_done.1 hrun
  obtain ⟨list, hlist', hrun⟩ := bind_eq_done.1 hrun
  obtain ⟨-, hrun⟩ := require_bind_eq_done.1 hrun
  obtain ⟨found, hfound, hrun⟩ := bind_eq_done.1 hrun
  cases requireSome_eq_done.1 hlist'
  obtain ⟨b, hlookup, hb⟩ := bind_eq_done.1 hfound
  cases b with
  | none =>
    -- the registration of a container that is not merged is not ignored
    cases hb
    obtain ⟨⟨w₃, this', ignored⟩, hmake, hrun⟩ := bind_eq_done.1 hrun
    cases hrun
    cases hn
    obtain rfl : reg = ⟨w.ns.curNamespace_, .null⟩ := by
      obtain ⟨⟨reg', ns⟩, hns, hreg⟩ := bind_eq_done.1 hopen
      cases hreg
      exact (NameSpace.openScope_eq_done.1 hns).2.2.1
    rw [World.makeContainer, if_neg (by simp)] at hmake
    obtain ⟨_, -, hmake⟩ := bind_eq_done.1 hmake
    cases hmake
  | some b =>
    cases hb
    have hnodes : list = nodes := by
      obtain ⟨_, -, hrun⟩ := bind_eq_done.1 hrun
      obtain ⟨⟨w₄, this', ignored⟩, -, hrun⟩ := bind_eq_done.1 hrun
      obtain ⟨_, -, hrun⟩ := bind_eq_done.1 hrun
      obtain ⟨_, -, hrun⟩ := bind_eq_done.1 hrun
      obtain ⟨_, -, hrun⟩ := bind_eq_done.1 hrun
      cases hrun
      cases hn
      rfl
    subst hnodes
    obtain rfl | ⟨name, rfl⟩ := parseNameString_form hparse
    · exact .inl ⟨pkg, content, hadjust, hparse⟩
    · exact .inr ⟨name, ⟨w, data, hdata, hw, hcur, d, hop, pkg, hadjust, content, hparse, reg, inside, hopen,
        atEnd, rest, list, returns_termList hlist, b, hlookup, w', d', this, h⟩, rfl, rfl, rfl, rfl, rfl, rfl⟩

/-! ## A block that is merged into another object's container -/

section Example

/-- `Scope(ABCD) { Name(IJKL, One) }` -/
def scopeCode : List UInt8 := [0x10, 0x0b, 0x41, 0x42, 0x43, 0x44, 0x08, 0x49, 0x4a, 0x4b, 0x4c, 0x01]

/-- `ABCD` -/
def segAbcd : NameSeg := ⟨0x41, 0x42, 0x43, 0x44, by decide⟩

/-- `EFGH` -/
def segEfgh : NameSeg := ⟨0x45, 0x46, 0x47, 0x48, by decide⟩

/-- `IJKL` -/
def segIjkl : NameSeg := ⟨0x49, 0x4a, 0x4b, 0x4c, by decide⟩

/-- In the contents of `EFGH`, behind `Device(ABCD) {}` in the root -/
def scopeCodeWorld : World :=
  { (⟨⟨[], []⟩, fun _ => none, 0⟩ : World).make ⟨.device, true, 0, none, none⟩ with
    ns := ⟨segEfgh.bytes, [⟨segAbcd.bytes, 0⟩]⟩ }

theorem scopeCodeWorld_sound : scopeCodeWorld.Sound := by
  have hempty : (⟨⟨[], []⟩, fun _ => none, 0⟩ : World).Sound := World.Sound.init []
  have hdevice := (World.Parses.refl (hempty.enter segAbcd.bytes)).makeRegistered rfl
    (n := ⟨.device, true, 0, none, none⟩) (by decide) rfl rfl
  exact hdevice.sound.enter segEfgh.bytes

/-- The block is merged into `ABCD`, which is found in the root. -/
def scopeCodeBlock : MergedBlock (.ofList scopeCode) [segEfgh] (.single segAbcd) where
  before := scopeCodeWorld
  data := ⟨0, 12⟩
  valid := by decide
  sound := scopeCodeWorld_sound
  current := rfl
  behindOpcode := ⟨1, 12⟩
  opcode := rfl
  pkg := ⟨2, 12⟩
  package := rfl
  content := ⟨6, 12⟩
  named := rfl
  reg := _
  inside := _
  opened := rfl
  atEnd := _
  rest := ⟨12, 12⟩
  nodes := _
  parsed := ⟨10, rfl⟩
  container := ⟨segAbcd.bytes, 0⟩
  found := rfl
  after := _
  behind := ⟨12, 12⟩
  this := 2
  returned := ⟨10, rfl⟩

theorem scopeCodeBlock_declares :
    DeclaredIn (.ofList scopeCode) scopeCodeBlock.inside scopeCodeBlock.content 1 segIjkl.bytes :=
  ⟨_, _, _, ⟨12, 12⟩, .name 1 segIjkl.bytes (.const 1 1), .start, by decide, ⟨10, rfl⟩, .name⟩

/-- `IJKL` is bound under `EFGH.ABCD`. -/
theorem scopeCodeBlock_misplaced : ¬ ∀ (mem : Memory) (scope : NamePath) (name : AcpiName)
    (B : MergedBlock mem scope name),
    B.ContentsBound ∧ name.resolve B.before.ns scope = done (some B.container) := by
  intro h
  have hcontents := (h _ _ _ scopeCodeBlock).1
  have hbound := (hcontents 1 segIjkl scopeCodeBlock_declares).registered
  revert hbound
  decide

end Example

end Attos.Aml

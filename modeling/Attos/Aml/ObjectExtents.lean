import Attos.Aml.TermExtents

/-!
# What the parse functions for objects leave of their view

The same as for terms, for `parse_term_obj` and the functions that use it. An object with
a package leaves what comes behind the package. The operations on the name space and the
heap in between are the same in both runs.
-/

namespace Attos.Aml

open Lib Outcome ParseState

/-! ## The name space and the heap -/

namespace World

variable {w w' : World} {reg : ScopeRegistration} {n : NodeInfo} {this : NodePtr} {op : Opcode}

theorem provide_ends (ns : NameSpace) (reg : ScopeRegistration) (n : NodePtr) (op : Opcode) :
    (ns.provide reg n op).Ends := by
  refine require_ends.bind fun _ _ => ?_
  dsimp only
  split
  · exact (require_ends.bind fun _ _ => done_ends _).bind fun _ _ => done_ends _
  · exact done_ends _

theorem makeRegistered_ends (w : World) (reg : ScopeRegistration) (n : NodeInfo) :
    (w.makeRegistered reg n).Ends :=
  (provide_ends _ _ _ _).bind fun _ _ => done_ends _

theorem openScope_made {name : Name} (h : w.openScope name = done (reg, w')) : w'.made = w.made := by
  obtain ⟨cur, -, rfl⟩ := openScope_eq_done h
  rfl

theorem makeRegistered_made (h : w.makeRegistered reg n = done (w', this)) :
    w'.made = w.made + 1 := by
  obtain ⟨⟨_, ns⟩, -, h⟩ := bind_eq_done.1 h
  cases h
  rfl

theorem makeContainer_ends (w : World) (reg : ScopeRegistration) (op : Opcode) :
    (w.makeContainer reg op).Ends := by
  rw [makeContainer]
  dsimp only
  split
  · exact done_ends _
  · exact (makeRegistered_ends _ _ _).bind fun _ _ => done_ends _

theorem makeContainer_made {ignored : Bool} (h : w.makeContainer reg op = done (w', this, ignored)) :
    w'.made = w.made + 1 := by
  rw [makeContainer] at h
  dsimp only at h
  split at h
  · cases h
    rfl
  · obtain ⟨⟨w₁, this₁⟩, hmake, h⟩ := bind_eq_done.1 h
    cases h
    exact makeRegistered_made hmake

theorem release_ends (w : World) (p : NodePtr) : (w.release p).Ends := by
  refine Ends.bind ?_ fun _ _ => done_ends _
  rw [NameSpace.destroyRegistration]
  refine Ends.bind ?_ fun _ _ => done_ends _
  cases w.ns.findBindingOf p with
  | none =>
    intro h
    cases h
  | some b => exact done_ends b

theorem unlink_ends (w : World) (p : NodePtr) (ignored : Bool) : (w.unlink p ignored).Ends := by
  refine (w.get_ends p).bind fun n _ => require_ends.bind fun _ _ => Ends.bind ?_ fun w' _ => ?_
  · rw [relinkPrev]
    split
    · exact done_ends _
    · exact (get_ends _ _).bind fun _ _ => require_ends.bind fun _ _ => done_ends _
  · rw [relinkNext]
    split
    · exact done_ends _
    · exact (get_ends _ _).bind fun _ _ => require_ends.bind fun _ _ => done_ends _

end World

mutual

/-- A destructor comes to an end. -/
theorem Node.destroy_ends : ∀ (n : Node) (w : World), (n.destroy w).Ends
  | .term _, _ => done_ends _
  | .method this _ _ _, w => (w.kill this).release_ends this
  | .name this _ _, w => (w.kill this).release_ends this
  | .namedField this _ _, w => (w.kill this).release_ends this
  | .field _ _ fields, w => destroyAll_ends fields w
  | .opRegion _ _ _ _, _ => done_ends _
  | .if_ _ ifStatements none, w => destroyAll_ends ifStatements w
  | .if_ _ ifStatements (some elseStatements), w =>
      (destroyAll_ends elseStatements w).bind fun w _ => destroyAll_ends ifStatements w
  | .while_ _ statements, w => destroyAll_ends statements w
  | .mutex _ _, _ => done_ends _
  | .createField this _ _ _ _, w => (w.kill this).release_ends this
  | .container this ignored _ nodes, w =>
      (w.unlink_ends this ignored).bind fun w _ => (destroyAll_ends nodes w).bind fun w _ => by
        cases ignored
        · exact w.release_ends this
        · exact done_ends _

/-- The destructors of a vector come to an end. -/
theorem destroyAll_ends : ∀ (nodes : List Node) (w : World), (destroyAll nodes w).Ends
  | [], _ => done_ends _
  | n :: nodes, w => (destroyAll_ends nodes w).bind fun w _ => Node.destroy_ends n w

end

namespace World

variable {w : World} {p other : NodePtr} {fuel fuel' : ℕ} {good exact enough : Prop}

/-- The way to the last container of a list, with two amounts of fuel. It comes to an end
since the list runs upwards. -/
theorem lastLinked_alike (hfuel : fuel ≤ fuel') (hexact : exact → fuel = fuel')
    (henough : enough → w.Sound ∧ p < w.made ∧ w.made ≤ fuel + p) :
    Alike good exact enough (fun _ => True) (w.lastLinked fuel p) (w.lastLinked fuel' p) := by
  induction fuel generalizing fuel' p with
  | zero =>
    refine .running (fun h => ?_) fun h => ?_
    · rw [← hexact h]
      rfl
    · obtain ⟨-, hlt, hle⟩ := henough h
      rw [Nat.zero_add] at hle
      exact absurd hlt (not_lt.2 hle)
  | succ fuel ih =>
    obtain _ | fuel' := fuel'
    · exact absurd hfuel (by simp)
    refine (Alike.of_eq (p := fun _ => True) (fun _ _ => trivial) (w.get_ends p)).bind
      fun n hn _ => ?_
    rw [get_eq_done] at hn
    cases hnext : n.next_ with
    | none => exact .pure trivial
    | some next =>
      refine ih (Nat.le_of_succ_le_succ hfuel) (fun h => Nat.succ_injective (hexact h)) fun h => ?_
      obtain ⟨hw, -, hle⟩ := henough h
      have hlink : w.next p = some next := (next_of_nodes hn).trans hnext
      have hlt : p < next := hw.linked.lists.lt_of_next hlink
      have hmade : next < w.made := hw.lt_made (by rw [(hw.linked.containers hlink).2]; simp)
      exact ⟨hw, hmade, by simp only [NodePtr] at *; omega⟩

/-- `merge` -/
theorem merge_alike (hfuel : fuel ≤ fuel') (hexact : exact → fuel = fuel')
    (henough : enough → w.Sound ∧ p < w.made ∧ w.made ≤ fuel + p) :
    Alike good exact enough (fun w' => w'.made = w.made) (w.merge fuel p other)
      (w.merge fuel' p other) := by
  have hget (q : NodePtr) : Alike good exact enough (fun _ => True) (w.get q) (w.get q) :=
    .of_eq (fun _ _ => trivial) (w.get_ends q)
  refine (hget other).bind fun o _ _ => Alike.require.bind fun _ _ _ =>
    Alike.require.bind fun _ _ _ => (hget p).bind fun n _ _ => Alike.require.bind fun _ _ _ =>
    Alike.require.bind fun _ _ _ => Alike.require.bind fun _ _ _ =>
    Alike.require.bind fun _ _ _ => ?_
  exact (lastLinked_alike hfuel hexact henough).bind fun before _ _ =>
    (hget before).bind fun b _ _ => .pure rfl

end World

/-! ## Objects -/

/-- The calls of `parse_term_obj` with some fuel are alike. -/
def ObjectsAlike (mem mem' : Memory) (lo hi top : ℕ) (exact : Prop) (fuel fuel' : ℕ) : Prop :=
  ∀ w data, Within lo hi data →
    Alike (Good mem mem' ⟨.termObj, w, data⟩) exact (Enough mem top ⟨.termObj, w, data⟩ fuel)
      (fun r => Extent ⟨.termObj, w, data⟩ r.1 r.2.1 (nodeTrees r.2.2)) (parseTermObj mem fuel w data)
      (parseTermObj mem' fuel' w data)

/-- The calls of a function for lists of objects are alike. -/
def ListsAlike (mem mem' : Memory) (lo hi top : ℕ) (exact : Prop) (f : ParseFunction) (fuel : ℕ)
    (p p' : Parse (List Node)) : Prop :=
  ∀ w data, Within lo hi data →
    Alike (Good mem mem' ⟨f, w, data⟩) exact (Enough mem top ⟨f, w, data⟩ fuel)
      (fun r => Extent ⟨f, w, data⟩ r.1 r.2.1 r.2.2) (p w data) (p' w data)

/-- An object is parsed behind its opcode. -/
structure Opened (mem : Memory) (lo hi : ℕ) (data : ParseState) (code : Opcode) (d : ParseState) :
    Prop where
  /-- the opcode -/
  opcode : data.consumeOpcode mem = done (code, d)
  /-- what is behind it -/
  shorter : Shorter data d
  /-- the view lies in the region -/
  within : Within lo hi data
  /-- the object is no operator -/
  object : ¬ isType2Opcode code

section Objects

variable {mem mem' : Memory} {lo hi top fuel fuel' m n : ℕ} {exact : Prop} {c : Call}
  {ps : List Piece} {w w' : World} {data d : ParseState} {code : Opcode} {k : Check}

/-- The pieces behind the opcode of an object -/
theorem Opened.flat (h : Opened mem lo hi data code d) :
    At mem lo hi 6 ⟨.termObj, w, data⟩ (objectPieces code) w d := by
  have hat := At.behind (w := w) (f := .termObj) h.opcode h.within h.shorter
  rwa [ParseFunction.behind, if_neg h.object] at hat

/-- The pieces in the package of an object -/
theorem Opened.package (h : Opened mem lo hi data code d) {pkg : ParseState}
    (hps : packagePieces code = some ps) (hadjust : adjustWithPkgLength mem d = done pkg)
    (hpkg : Package d pkg) : At mem lo hi 6 ⟨.termObj, w, data⟩ ps w pkg :=
  .inPackage h.opcode (by rw [ParseFunction.inPackage, if_neg h.object, hps]) hadjust h.within
    h.shorter hpkg

theorem Opened.inside (h : Opened mem lo hi data code d) : Within lo hi d :=
  h.within.rest h.shorter.toRest

/-- The name of a scope or an object -/
theorem At.name (hat : At mem lo hi m c ps w d) (hname : Among mem ps w d k ⟨.nameString, w, d⟩)
    (hagree : ∀ a, lo ≤ a → a < hi → mem' a = mem a) :
    Alike (Good mem mem' c) exact (Enough mem top c fuel) (fun r => Shorter d r.1)
      (parseNameString mem d) (parseNameString mem' d) :=
  parseNameString_alike (settingOf hagree) hat.within fun hgood =>
    (hgood.call (hat.calls k _ hname)).self

/-- Behind a name -/
theorem At.afterName {name : Name} {d' : ParseState}
    (hat : At mem lo hi m c (.call .nameString k :: ps) w d)
    (hparse : parseNameString mem d = done (d', name)) (hd : Shorter d d') :
    At mem lo hi m c ps w d' := by
  have hsize := hd.size_lt
  have hless := hat.less
  have hreturns : Returns mem ⟨.nameString, w, d⟩ w d' (some []) := by
    refine ⟨0, ?_⟩
    simp only [ParseFunction.result, hparse, done_bind]
    rfl
  exact ⟨fun k' c' hc' => hat.calls k' c' (.call hreturns (fun _ => (by simp)) hc'),
    hat.within.rest hd.toRest, hat.sound, by omega⟩

/-- Behind the name of a scope -/
theorem At.scope {name : Name} {d' : ParseState} {reg : ScopeRegistration}
    (hat : At mem lo hi m c (.scope :: ps) w d)
    (hparse : parseNameString mem d = done (d', name)) (hd : Shorter d d')
    (hopen : w.openScope name = done (reg, w')) : At mem lo hi m c ps w' d' := by
  have hsize := hd.size_lt
  have hless := hat.less
  refine ⟨fun k c' hc' => hat.calls k c' (.scope hparse hopen hc'), hat.within.rest hd.toRest,
    fun h => ?_, ?_⟩
  · obtain ⟨cur, rfl, rfl⟩ := World.openScope_eq_done hopen
    exact (hat.sound h).enter cur
  · obtain ⟨cur, rfl, rfl⟩ := World.openScope_eq_done hopen
    change 8 * d'.size + w.made + m ≤ _
    omega

/-- **A call for a list of objects.** -/
theorem At.list {f : ParseFunction} {p p' : Parse (List Node)}
    (hat : At mem lo hi m c (.call f k :: ps) w d)
    (lists : ListsAlike mem mem' lo hi top exact f fuel p p') (hrank : f.rank < m) :
    Alike (Good mem mem' c) exact (Enough mem top c (fuel + 1))
      (fun r => Extent ⟨f, w, d⟩ r.1 r.2.1 r.2.2) (p w d) (p' w d) := by
  have hless := hat.less
  exact (lists w d hat.within).weaken (fun h => h.call (hat.calls k _ .here))
    fun h => h.call (hat.sound h.sound) (by simp only [bound]; omega)

/-- What is left of a call for an object that returns a node -/
theorem Extent.object {obj : Node} (hd : Shorter data d)
    (hmade : w'.made + d.size ≤ w.made + data.size) (halive : obj.opcode ≠ .deadScope) :
    Extent ⟨.termObj, w, data⟩ w' d (nodeTrees (some obj)) where
  within := ⟨hd.begin_le, hd.le_end, hd.end_eq.le⟩
  begin_lt _ := hd.begin_lt
  end_eq _ := hd.end_eq
  exhausted h := by cases h
  made _ := hmade
  alive ns hns n hn := by
    cases hns
    obtain rfl := List.mem_singleton.1 hn
    exact halive

/-- What is left of a call for an object that makes at most one node -/
theorem Extent.flat {obj : Node} (hd : Shorter data d) (hmade : w'.made ≤ w.made + 1)
    (halive : obj.opcode ≠ .deadScope) : Extent ⟨.termObj, w, data⟩ w' d (nodeTrees (some obj)) :=
  .object hd (by
    have hsize : d.size < data.size := hd.size_lt
    simp only [NodePtr] at *
    omega) halive

/-- What is left of a call for an object that returns no node -/
theorem Extent.failed (hd : Within data.begin_ data.end_ d) (hlt : data.begin_ < d.begin_) :
    Extent ⟨.termObj, w, data⟩ w' d (nodeTrees none) :=
  ⟨hd, fun _ => hlt, fun h => (by simp [ParseFunction.isTerm, nodeTrees] at h), nofun,
    fun h => absurd rfl h, nofun⟩

theorem ParseState.Within.trans (h : Within lo hi data) (hd : Within data.begin_ data.end_ d) : Within lo hi d :=
  ⟨h.lo_le.trans hd.lo_le, hd.le_end, hd.le_hi.trans h.le_hi⟩

theorem Package.inside {pkg : ParseState} (h : Package d pkg) : Within pkg.begin_ pkg.end_ pkg :=
  ⟨le_rfl, h.le_end, le_rfl⟩

theorem Package.size_add_lt {pkg : ParseState} (h : Package d pkg) :
    pkg.size + (d.movedTo pkg.end_).size < d.size := by
  obtain ⟨hlt, hle, hend⟩ := h
  simp only [size, movedTo]
  omega

/-- A package object returns no node. -/
theorem Opened.failed {pkg : ParseState} (h : Opened mem lo hi data code d) (hpkg : Package d pkg)
    {rest : ParseState} (hrest : Within pkg.begin_ pkg.end_ rest) :
    Extent ⟨.termObj, w, data⟩ w' rest (nodeTrees none) := by
  have hdata : Within data.begin_ data.end_ data := ⟨le_rfl, h.within.le_end, le_rfl⟩
  have hbegin := h.shorter.begin_lt.trans hpkg.begin_lt
  exact .failed ((hpkg.within (hdata.rest h.shorter.toRest)).trans hrest) (hbegin.trans_le hrest.lo_le)

/-- A package object returns what is behind the package. -/
theorem Opened.behind {pkg : ParseState} (h : Opened mem lo hi data code d) (hpkg : Package d pkg)
    (hmade : w'.made ≤ w.made + pkg.size + 1) {obj : Node} (halive : obj.opcode ≠ .deadScope) :
    Extent ⟨.termObj, w, data⟩ w' (d.movedTo pkg.end_) (nodeTrees (some obj)) := by
  refine .object (h.shorter.trans hpkg.shorter) ?_ halive
  have hsize : d.size < data.size := h.shorter.size_lt
  have hrest := hpkg.size_add_lt
  simp only [NodePtr] at *
  omega

/-- The fuel is enough for a loop over what is in the package. -/
theorem Opened.size_lt {pkg : ParseState} (h : Opened mem lo hi data code d) (hpkg : Package d pkg)
    {rest : ParseState} (hrest : Shorter pkg rest)
    (henough : Enough mem top ⟨.termObj, w, data⟩ (fuel + 1)) : rest.size < fuel := by
  have hsize : d.size < data.size := h.shorter.size_lt
  have hsize' := hpkg.size_lt
  have hrest' := hrest.size_lt
  have hle := henough.le
  simp only [bound] at hle
  omega

/-- The cases of `parse_term_obj` with the rest of a view behind the opcode are alike. -/
abbrev CaseAlike (mem mem' : Memory) (top : ℕ) (exact : Prop) (fuel : ℕ) (w : World)
    (data d : ParseState) (p p' : Parse Node) : Prop :=
  Alike (Good mem mem' ⟨.termObj, w, data⟩) exact (Enough mem top ⟨.termObj, w, data⟩ (fuel + 1))
    (fun r => Extent ⟨.termObj, w, data⟩ r.1 r.2.1 (nodeTrees r.2.2)) (p w d) (p' w d)

section Cases

/-- An operation of the name space or the heap that is the same in both runs -/
theorem unchanged {α : Type} {good enough : Prop} {x : Outcome α} (h : x.Ends) :
    Alike good exact enough (fun _ => True) x x := .of_eq (fun _ _ => trivial) h

/-- The opcode of an else branch is looked for. -/
theorem startsWithElse_alike {good enough : Prop} (S : Setting mem mem' lo hi top enough)
    (hd : Within lo hi d) :
    Alike good exact enough (fun _ => True) (d.startsWithElse mem) (d.startsWithElse mem') :=
  .ite (fun _ => .pure trivial) fun _ => (peekOpcode_alike S hd).bind fun _ _ _ => .pure trivial

variable (hagree : ∀ a, lo ≤ a → a < hi → mem' a = mem a)
  (ih : TermsAlike mem mem' lo hi top exact fuel fuel')

section Terms

include ih

/-- `DefStore` -/
theorem parseDefStore_alike (h : Opened mem lo hi data .store d) :
    CaseAlike mem mem' top exact fuel w data d (parseDefStore mem fuel) (parseDefStore mem' fuel') := by
  have hat : At mem lo hi 6 ⟨.termObj, w, data⟩
    [.call .termArg .tested, .call .superName .optional] w d := h.flat
  refine (hat.term ih rfl (by decide)).bind fun ⟨d₁, arg⟩ _ ⟨h₁, hat₁⟩ => ?_
  have hd₁ := h.shorter.trans_rest h₁.rest
  cases arg with
  | none => exact .pure (.failed ⟨hd₁.begin_le, hd₁.le_end, hd₁.end_eq.le⟩ hd₁.begin_lt)
  | some arg =>
    refine ((hat₁ nofun).term ih rfl (by decide)).bind fun ⟨d₂, name⟩ _ ⟨h₂, _⟩ => .pure ?_
    exact .flat (hd₁.trans_rest h₂.rest) (Nat.le_succ _) (by simp [Node.opcode, Term.opcode])

/-- `DefNotify` -/
theorem parseDefNotify_alike (h : Opened mem lo hi data .notify d) :
    CaseAlike mem mem' top exact fuel w data d (parseDefNotify mem fuel) (parseDefNotify mem' fuel') := by
  have hat : At mem lo hi 6 ⟨.termObj, w, data⟩
    [.call .superName .optional, .call .termArg .unchecked] w d := h.flat
  refine (hat.term ih rfl (by decide)).bind fun ⟨d₁, obj⟩ _ ⟨h₁, hat₁⟩ => ?_
  refine ((hat₁ nofun).term ih rfl (by decide)).bind fun ⟨d₂, value⟩ _ ⟨h₂, _⟩ => .pure ?_
  exact .flat (h.shorter.trans_rest (h₁.rest.trans h₂.rest)) (Nat.le_succ _)
    (by simp [Node.opcode, Term.opcode])

/-- `DefReturn` -/
theorem parseDefReturn_alike (h : Opened mem lo hi data .return_ d) :
    CaseAlike mem mem' top exact fuel w data d (parseDefReturn mem fuel) (parseDefReturn mem' fuel') := by
  have hat : At mem lo hi 6 ⟨.termObj, w, data⟩ [.call .termArg .tested] w d := h.flat
  refine (hat.term ih rfl (by decide)).bind fun ⟨d₁, arg⟩ _ ⟨h₁, _⟩ => .pure ?_
  have hd₁ := h.shorter.trans_rest h₁.rest
  cases arg with
  | none => exact .failed ⟨hd₁.begin_le, hd₁.le_end, hd₁.end_eq.le⟩ hd₁.begin_lt
  | some arg => exact .flat hd₁ (Nat.le_succ _) (by simp [Node.opcode, Term.opcode])

end Terms

section Reads

include hagree

/-- `DefMethod` -/
theorem parseDefMethod_alike (h : Opened mem lo hi data .method d) :
    CaseAlike mem mem' top exact fuel w data d (parseDefMethod mem) (parseDefMethod mem') := by
  refine (adjustWithPkgLength_alike (settingOf hagree) h.inside).bind fun pkg hadjust hpkg => ?_
  have hat : At mem lo hi 6 ⟨.termObj, w, data⟩ [.scope, .bytes 1] w pkg :=
    h.package rfl hadjust hpkg
  refine (hat.name .name hagree).bind fun ⟨d₁, name⟩ hparse h₁ => ?_
  refine (unchanged (w.openScope_ends name)).bind fun ⟨reg, w₁⟩ hopen _ => ?_
  refine (consume_alike (settingOf hagree) (hat.scope hparse h₁ hopen).within).bind
    fun ⟨methodFlags, d₂⟩ _ h₂ => ?_
  refine (unchanged (w₁.makeRegistered_ends reg _)).bind fun ⟨w₂, this⟩ hmake _ => .pure ?_
  have hend : d₂.end_ = pkg.end_ := (h₁.trans h₂).end_eq
  refine .flat (hend ▸ h.shorter.trans hpkg.shorter) ?_ (by simp [Node.opcode])
  rw [World.makeRegistered_made hmake, World.openScope_made hopen]

/-- `DefMutex` -/
theorem parseDefMutex_alike (h : Opened mem lo hi data .mutex d) :
    CaseAlike mem mem' top exact fuel w data d (parseDefMutex mem) (parseDefMutex mem') := by
  have hat : At mem lo hi 6 ⟨.termObj, w, data⟩ [.call .nameString .tested, .bytes 1] w d := h.flat
  refine (hat.name .here hagree).bind fun ⟨d₁, name⟩ hparse h₁ => ?_
  refine (consume_alike (settingOf hagree) (hat.afterName hparse h₁).within).bind
    fun ⟨flags, d₂⟩ _ h₂ => Alike.require.bind fun _ _ _ => .pure ?_
  exact .flat (h.shorter.trans (h₁.trans h₂)) (Nat.le_succ _) (by simp [Node.opcode])

end Reads

section Packages

include hagree

/-- The objects that contain an object list -/
theorem parseDefContainer_alike {op : Opcode} (bs : List Piece) {header header' : ParseState → Outcome ParseState}
    (objects : ListsAlike mem mem' lo hi top exact .objectList fuel (parseObjectList mem fuel)
      (parseObjectList mem' fuel')) (h : Opened mem lo hi data op d)
    (hps : packagePieces op = some (.scope :: (bs ++ [.call .objectList .tested])))
    (hop : op ≠ .deadScope)
    (hheader : ∀ d, Within lo hi d →
      Alike (Good mem mem' ⟨.termObj, w, data⟩) exact (Enough mem top ⟨.termObj, w, data⟩ (fuel + 1))
        (fun d' => Rest d d' ∧ ∀ w₁, At mem lo hi 6 ⟨.termObj, w, data⟩
          (bs ++ [.call .objectList .tested]) w₁ d →
            At mem lo hi 6 ⟨.termObj, w, data⟩ [.call .objectList .tested] w₁ d')
        (header d) (header' d)) :
    CaseAlike mem mem' top exact fuel w data d (parseDefContainer mem (parseObjectList mem fuel) op header)
      (parseDefContainer mem' (parseObjectList mem' fuel') op header') := by
  refine (adjustWithPkgLength_alike (settingOf hagree) h.inside).bind fun pkg hadjust hpkg => ?_
  have hat : At mem lo hi 6 ⟨.termObj, w, data⟩ (.scope :: (bs ++ [.call .objectList .tested])) w pkg :=
    h.package hps hadjust hpkg
  refine (hat.name .name hagree).bind fun ⟨d₁, name⟩ hparse h₁ => ?_
  refine (hheader d₁ (hat.within.rest h₁.toRest)).bind fun d₂ _ ⟨h₂, hat₂⟩ => ?_
  refine (unchanged (w.openScope_ends name)).bind fun ⟨reg, w₁⟩ hopen _ => ?_
  refine ((hat₂ w₁ (hat.scope hparse h₁ hopen)).list objects (by decide)).bind
    fun ⟨w₂, d₃, list⟩ _ h₃ => ?_
  refine (Alike.requireSome (p := fun l => list = some l) fun _ h => h).bind fun nodes _ hlist => ?_
  refine (unchanged (World.makeContainer_ends _ _ _)).bind fun ⟨w₃, this, ignored⟩ hmake _ => ?_
  refine .pure (h.behind hpkg ?_ (by simpa [Node.opcode] using hop))
  have hmade : w₂.made + d₃.size ≤ w₁.made + d₂.size := h₃.made (by rw [hlist]; nofun)
  have hsize : d₂.size < pkg.size := (h₁.trans_rest h₂).size_lt
  rw [World.openScope_made hopen] at hmade
  rw [World.makeContainer_made hmake]
  simp only [NodePtr] at *
  omega

/-- `parse_named_field` -/
theorem parseNamedField_alike (hdata : Within lo hi data) :
    Alike (Good mem mem' c) exact (Enough mem top c fuel)
      (fun r => Extent ⟨.namedField, w, data⟩ r.1 r.2.1 (nodeTrees r.2.2) ∧ r.2.2 ≠ none)
      (parseNamedField mem w data) (parseNamedField mem' w data) := by
  have S : Setting mem mem' lo hi top (Enough mem top c fuel) := settingOf hagree
  refine Alike.require.bind fun _ _ hsize => ?_
  rw [size] at hsize
  have hfour : data.begin_ + 4 ≤ hi := by
    have hle := hdata.le_hi
    omega
  refine (validNameseg_alike_of_le S hdata.lo_le hfour).bind fun _ _ _ => Alike.require.bind fun _ _ _ => ?_
  refine (S.read hdata.lo_le hfour).bind fun name _ _ => ?_
  refine (skip_alike hdata.le_end).bind ?_
  rintro d₁ _ ⟨h₁, hbegin⟩
  refine (parsePkgLength_alike S (hdata.rest h₁)).bind ?_
  rintro ⟨d₂, len⟩ _ h₂
  refine (unchanged (w.openScope_ends name)).bind ?_
  rintro ⟨reg, w₁⟩ hopen _
  refine (unchanged (World.makeRegistered_ends _ _ _)).bind ?_
  rintro ⟨w₂, this⟩ hmake _
  refine .pure ?_
  have hd := h₁.trans_shorter h₂
  refine ⟨⟨⟨hd.begin_le, hd.le_end, hd.end_eq.le⟩, fun _ => hd.begin_lt, fun _ => hd.end_eq, (by rintro ⟨⟩),
    fun _ => ?_, fun ns hns n hn => ?_⟩, by rintro ⟨⟩⟩
  · rw [World.makeRegistered_made hmake, World.openScope_made hopen]
    have hsize : d₂.size < data.size := hd.size_lt
    simp only [NodePtr] at *
    omega
  · cases hns
    obtain rfl := List.mem_singleton.1 hn
    simp [Node.opcode]

/-- `parse_field_list` from some elements on -/
theorem parseFieldListFrom_alike {elements : List Node} {w₀ : World} {data₀ : ParseState}
    (hfuel : fuel ≤ fuel') (hexact : exact → fuel = fuel')
    (henough : Enough mem top c n → data.size < fuel) (hdata : Within lo hi data)
    (hrest : Rest data₀ data) (hmade : w.made + data.size ≤ w₀.made + data₀.size)
    (halive : ∀ n ∈ elements, n.opcode ≠ .deadScope) :
    Alike (Good mem mem' c) exact (Enough mem top c n)
      (fun r => Extent ⟨.fieldList, w₀, data₀⟩ r.1 r.2.1 r.2.2 ∧ r.2.2 ≠ none)
      (parseFieldListFrom mem fuel elements w data) (parseFieldListFrom mem' fuel' elements w data) := by
  have S : Setting mem mem' lo hi top (Enough mem top c n) := settingOf hagree
  induction fuel generalizing fuel' elements w data with
  | zero =>
    refine .running (fun h => ?_) fun h => absurd (henough h) (Nat.not_lt_zero _)
    rw [← hexact h]
    rfl
  | succ fuel ih =>
    obtain _ | fuel' := fuel'
    · exact absurd hfuel (by simp)
    -- the fields behind one that was parsed
    have hnext {elements : List Node} {w₁ : World} {d : ParseState} (hd : Shorter data d)
        (hmade₁ : w₁.made + d.size ≤ w.made + data.size)
        (halive : ∀ n ∈ elements, n.opcode ≠ .deadScope) :
        Alike (Good mem mem' c) exact (Enough mem top c n)
          (fun r => Extent ⟨.fieldList, w₀, data₀⟩ r.1 r.2.1 r.2.2 ∧ r.2.2 ≠ none)
          (parseFieldListFrom mem fuel elements w₁ d) (parseFieldListFrom mem' fuel' elements w₁ d) := by
      refine ih (Nat.le_of_succ_le_succ hfuel) (fun h => Nat.succ_injective (hexact h)) (fun h => ?_)
        (hdata.rest hd.toRest) (hrest.trans hd.toRest) (hmade₁.trans hmade) halive
      have hsize : d.size < data.size := hd.size_lt
      have hlt := henough h
      omega
    have hsnoc {op : Opcode} (hop : op ≠ .deadScope) :
        ∀ n ∈ elements ++ [Node.term (.simple op)], n.opcode ≠ .deadScope := by
      intro n hn
      obtain hn | hn := List.mem_append.1 hn
      · exact halive n hn
      · obtain rfl := List.mem_singleton.1 hn
        exact hop
    refine .ite (fun hend => .pure ?_) fun _ => ?_
    · exact ⟨⟨⟨hrest.begin_le, hrest.le_end, hrest.end_eq.le⟩, nofun, fun _ => hrest.end_eq,
        fun _ _ => hend, fun _ => hmade, fun ns hns => by cases hns; exact halive⟩, nofun⟩
    refine (peek_alike S hdata).bind fun first _ _ => .ite (fun _ => ?_) fun _ => .ite (fun _ => ?_)
      fun _ => .ite (fun _ => ?_) fun _ => .abort
    · refine (consume_alike S hdata).bind fun ⟨_, d₁⟩ _ h₁ => ?_
      refine (parsePkgLength_alike S (hdata.rest h₁.toRest)).bind fun ⟨d₂, _⟩ _ h₂ => ?_
      have hd := h₁.trans h₂
      exact hnext hd (Nat.add_le_add_left hd.toRest.size_le _) (hsnoc (by decide))
    · refine (consume_alike S hdata).bind fun ⟨_, d₁⟩ _ h₁ => ?_
      refine (consume_alike S (hdata.rest h₁.toRest)).bind fun ⟨_, d₂⟩ _ h₂ => ?_
      have hd₂ := h₁.trans h₂
      refine (consume_alike S (hdata.rest hd₂.toRest)).bind fun ⟨_, d₃⟩ _ h₃ => ?_
      have hd := hd₂.trans h₃
      exact hnext hd (Nat.add_le_add_left hd.toRest.size_le _) (hsnoc (by decide))
    · refine (parseNamedField_alike hagree hdata).bind fun ⟨w₁, d₁, field⟩ _ ⟨h₁, hsome⟩ => ?_
      have hne : nodeTrees field ≠ none := by
        cases field with
        | none => exact absurd rfl hsome
        | some field => nofun
      refine hnext ⟨⟨(h₁.begin_lt rfl).le, h₁.within.le_end, h₁.end_eq (.inl hne)⟩, h₁.begin_lt rfl⟩
        (h₁.made hne) fun n hn => ?_
      obtain hn | hn := List.mem_append.1 hn
      · exact halive n hn
      · cases field with
        | none => cases hn
        | some field =>
          rw [List.mem_singleton.1 hn]
          exact h₁.alive [field] rfl field (List.mem_singleton_self _)

/-- `DefScope` -/
theorem parseDefScope_alike (hfuel : fuel ≤ fuel') (hexact : exact → fuel = fuel')
    (lists : ListsAlike mem mem' lo hi top exact .termList fuel (parseTermList mem fuel)
      (parseTermList mem' fuel')) (h : Opened mem lo hi data .scope d) :
    CaseAlike mem mem' top exact fuel w data d (parseDefScope mem fuel (parseTermList mem fuel))
      (parseDefScope mem' fuel' (parseTermList mem' fuel')) := by
  refine (adjustWithPkgLength_alike (settingOf hagree) h.inside).bind fun pkg hadjust hpkg => ?_
  have hat : At mem lo hi 6 ⟨.termObj, w, data⟩ [.scope, .call .termList .tested] w pkg :=
    h.package rfl hadjust hpkg
  refine (hat.name .name hagree).bind ?_
  rintro ⟨d₁, name⟩ hparse h₁
  refine (unchanged (w.openScope_ends name)).bind ?_
  rintro ⟨reg, w₁⟩ hopen _
  refine ((hat.scope hparse h₁ hopen).list lists (by decide)).bind ?_
  rintro ⟨w₂, d₂, list⟩ hrun h₂
  refine (Alike.requireSome (p := fun l => list = some l) fun _ h => h).bind fun nodes _ hlist => ?_
  refine Alike.require.bind fun _ _ _ => ?_
  refine (unchanged (w₂.ns.lookupNode_ends name)).bind fun n hlookup _ => ?_
  have hmade : w₂.made + d₂.size ≤ w₁.made + d₁.size := h₂.made (by rw [hlist]; simp)
  have hsize₁ : d₁.size < pkg.size := h₁.size_lt
  rw [World.openScope_made hopen] at hmade
  cases n with
  | none =>
    refine (unchanged (World.makeContainer_ends _ _ _)).bind ?_
    rintro ⟨w₃, this, ignored⟩ hmake _
    refine .pure (h.behind hpkg ?_ (by simp [Node.opcode]))
    rw [World.makeContainer_made hmake]
    simp only [NodePtr] at *
    omega
  | some n =>
    refine (unchanged ((World.provide_ends _ _ _ _).bind fun _ _ => done_ends _)).bind ?_
    rintro ⟨reg', w₃⟩ hdead _
    refine (unchanged (World.makeContainer_ends _ _ _)).bind ?_
    rintro ⟨w₄, this, ignored⟩ hmake _
    refine (unchanged (World.get_ends _ _)).bind fun node _ _ => Alike.require.bind fun _ _ _ => ?_
    obtain ⟨hignore, rfl⟩ := World.markDead_eq_done hdead
    rw [World.makeContainer, if_pos hignore] at hmake
    cases hmake
    refine (World.merge_alike hfuel hexact fun henough => ?_).bind fun w₅ _ hmerge => ?_
    · -- the list of containers is not longer than the heap
      have hw₂ : w₂.Sound :=
        ((parse_disciplined mem fuel).2.2 ((hat.scope hparse h₁ hopen).sound henough.sound) hrun).sound
      have hn : n < w₂.made := by
        obtain ⟨b, hb, rfl⟩ := NameSpace.lookupNode_mem hlookup
        exact hw₂.lt_made (hw₂.alive hb)
      refine ⟨(hw₂.enter _).make rfl rfl, Nat.lt_succ_of_lt hn, ?_⟩
      have hle := henough.le
      have hsize : d.size < data.size := h.shorter.size_lt
      have hsize' := hpkg.size_lt
      simp only [bound, World.make, NodePtr] at *
      omega
    · refine .pure (h.behind hpkg ?_ (by simp [Node.opcode]))
      rw [hmerge]
      simp only [World.make, NodePtr] at *
      omega

/-- `DefField` -/
theorem parseDefField_alike (hfuel : fuel ≤ fuel') (hexact : exact → fuel = fuel')
    (h : Opened mem lo hi data .field d) :
    CaseAlike mem mem' top exact fuel w data d (parseDefField mem fuel) (parseDefField mem' fuel') := by
  refine (adjustWithPkgLength_alike (settingOf hagree) h.inside).bind fun pkg hadjust hpkg => ?_
  have hat : At mem lo hi 6 ⟨.termObj, w, data⟩ [.call .nameString .tested, .call .fieldFlags .tested,
    .call .fieldList .tested] w pkg := h.package rfl hadjust hpkg
  refine (hat.name .here hagree).bind fun ⟨d₁, name⟩ _ h₁ => ?_
  have hd₁ := hat.within.rest h₁.toRest
  refine (consume_alike (settingOf hagree) hd₁).bind fun ⟨fieldFlags, d₂⟩ _ h₂ => ?_
  have hd₂ := h₁.trans h₂
  refine (parseFieldListFrom_alike hagree hfuel hexact (h.size_lt hpkg hd₂) (hd₁.rest h₂.toRest)
    (.refl hd₂.le_end) le_rfl (by simp)).bind fun ⟨w₁, d₃, fieldList⟩ _ ⟨h₃, hsome⟩ => .pure ?_
  cases fieldList with
  | none => exact absurd rfl hsome
  | some fields =>
    refine h.behind hpkg ?_ (by simp [Node.opcode])
    have hmade : w₁.made + d₃.size ≤ w.made + d₂.size := h₃.made nofun
    have hsize := hd₂.size_lt
    simp only [NodePtr] at *
    omega

/-- `DefIndexField`: the field list ends at the end of the package. -/
theorem parseDefIndexField_alike (hfuel : fuel ≤ fuel') (hexact : exact → fuel = fuel')
    (h : Opened mem lo hi data .indexField d) :
    CaseAlike mem mem' top exact fuel w data d (parseDefIndexField mem fuel)
      (parseDefIndexField mem' fuel') := by
  refine (adjustWithPkgLength_alike (settingOf hagree) h.inside).bind fun pkg hadjust hpkg => ?_
  have hat : At mem lo hi 6 ⟨.termObj, w, data⟩ [.call .nameString .tested, .call .nameString .tested,
    .call .fieldFlags .tested, .call .fieldList .tested] w pkg := h.package rfl hadjust hpkg
  refine (hat.name .here hagree).bind fun ⟨d₁, name⟩ hparse h₁ => ?_
  have hat₁ := hat.afterName hparse h₁
  refine (hat₁.name .here hagree).bind fun ⟨d₂, _⟩ _ h₂ => ?_
  have hd₂ := hat₁.within.rest h₂.toRest
  refine (consume_alike (settingOf hagree) hd₂).bind fun ⟨fieldFlags, d₃⟩ _ h₃ => ?_
  have hd₃ := (h₁.trans h₂).trans h₃
  refine (parseFieldListFrom_alike hagree hfuel hexact (h.size_lt hpkg hd₃) (hd₂.rest h₃.toRest)
    (.refl hd₃.le_end) le_rfl (by simp)).bind fun ⟨w₁, d₄, fieldList⟩ _ ⟨h₄, hsome⟩ => .pure ?_
  cases fieldList with
  | none => exact absurd rfl hsome
  | some fields =>
    have hend : d₄.begin_ = pkg.end_ :=
      (h₄.exhausted rfl nofun).trans ((h₄.end_eq (.inl nofun)).trans hd₃.end_eq)
    have hbehind : Extent ⟨.termObj, w, data⟩ w₁ (d.movedTo pkg.end_)
        (nodeTrees (some (.field name fieldFlags fields))) := by
      refine h.behind hpkg ?_ (by simp [Node.opcode])
      have hmade : w₁.made + d₄.size ≤ w.made + d₃.size := h₄.made nofun
      have hsize := hd₃.size_lt
      simp only [NodePtr] at *
      omega
    rwa [← hend] at hbehind

end Packages

include hagree ih

/-- `DefName` -/
theorem parseDefName_alike (h : Opened mem lo hi data .name d) :
    CaseAlike mem mem' top exact fuel w data d (parseDefName mem fuel) (parseDefName mem' fuel') := by
  have hat : At mem lo hi 6 ⟨.termObj, w, data⟩ [.scope, .call .dataRefObject .tested] w d := h.flat
  refine (hat.name .name hagree).bind fun ⟨d₁, name⟩ hparse h₁ => ?_
  refine (unchanged (w.openScope_ends name)).bind fun ⟨reg, w₁⟩ hopen _ => ?_
  refine ((hat.scope hparse h₁ hopen).term ih rfl (by decide)).bind fun ⟨d₂, obj⟩ _ ⟨h₂, _⟩ => ?_
  refine (unchanged (w₁.makeRegistered_ends reg _)).bind fun ⟨w₂, this⟩ hmake _ => ?_
  refine (Alike.requireSome (p := fun _ => True) fun _ _ => trivial).bind fun obj _ _ => .pure ?_
  refine .flat (h.shorter.trans (h₁.trans_rest h₂.rest)) ?_ (by simp [Node.opcode])
  rw [World.makeRegistered_made hmake, World.openScope_made hopen]

/-- `DefCreateDWordField` and the like -/
theorem parseDefCreateFieldOf_alike {op : Opcode} (h : Opened mem lo hi data op d)
    (hps : objectPieces op = [.call .termArg .unchecked, .call .termArg .unchecked,
      .call .nameString .tested]) (hop : op ≠ .deadScope) :
    CaseAlike mem mem' top exact fuel w data d (parseDefCreateFieldOf mem fuel op)
      (parseDefCreateFieldOf mem' fuel' op) := by
  have hat : At mem lo hi 6 ⟨.termObj, w, data⟩ (objectPieces op) w d := h.flat
  rw [hps] at hat
  refine (hat.term ih rfl (by decide)).bind fun ⟨d₁, sourceBuffer⟩ _ ⟨h₁, hat₁⟩ => ?_
  refine ((hat₁ nofun).term ih rfl (by decide)).bind fun ⟨d₂, byteIndex⟩ _ ⟨h₂, hat₂⟩ => ?_
  refine ((hat₂ nofun).name .here hagree).bind fun ⟨d₃, name⟩ _ h₃ => ?_
  refine (unchanged (w.openScope_ends name)).bind fun ⟨reg, w₁⟩ hopen _ => ?_
  refine (unchanged (w₁.makeRegistered_ends reg _)).bind fun ⟨w₂, this⟩ hmake _ => .pure ?_
  refine .flat (h.shorter.trans_rest (h₁.rest.trans (h₂.rest.trans h₃.toRest))) ?_ hop
  rw [World.makeRegistered_made hmake, World.openScope_made hopen]

/-- `DefCreateField` -/
theorem parseDefCreateField_alike (h : Opened mem lo hi data .createField d) :
    CaseAlike mem mem' top exact fuel w data d (parseDefCreateField mem fuel)
      (parseDefCreateField mem' fuel') := by
  have hat : At mem lo hi 6 ⟨.termObj, w, data⟩ [.call .termArg .unchecked, .call .termArg .dropped,
    .call .termArg .unchecked, .call .nameString .tested] w d := h.flat
  refine (hat.term ih rfl (by decide)).bind fun ⟨d₁, sourceBuffer⟩ _ ⟨h₁, hat₁⟩ => ?_
  refine ((hat₁ nofun).term ih rfl (by decide)).bind fun ⟨d₂, _⟩ _ ⟨h₂, hat₂⟩ => ?_
  refine ((hat₂ nofun).term ih rfl (by decide)).bind fun ⟨d₃, numBits⟩ _ ⟨h₃, hat₃⟩ => ?_
  refine ((hat₃ nofun).name .here hagree).bind fun ⟨d₄, name⟩ _ h₄ => .pure ?_
  exact .flat (h.shorter.trans_rest (h₁.rest.trans (h₂.rest.trans (h₃.rest.trans h₄.toRest))))
    (Nat.le_succ _) (by simp [Node.opcode, Term.opcode])

/-- `DefFatal` -/
theorem parseDefFatal_alike (h : Opened mem lo hi data .fatal d) :
    CaseAlike mem mem' top exact fuel w data d (parseDefFatal mem fuel) (parseDefFatal mem' fuel') := by
  have hat : At mem lo hi 6 ⟨.termObj, w, data⟩ [.bytes 1, .bytes 4, .call .termArg .unchecked] w d :=
    h.flat
  refine (consume_alike (settingOf hagree) hat.within).bind fun ⟨type, d₁⟩ hconsume h₁ => ?_
  have hat₁ := hat.bytes (skip_of_consume hconsume)
  refine (consumeNumber_alike (settingOf hagree) hat₁.within).bind fun ⟨code, d₂⟩ hconsume h₂ => ?_
  have hat₂ := hat₁.bytes (skip_of_consumeNumber hconsume)
  refine (hat₂.term ih rfl (by decide)).bind fun ⟨d₃, arg⟩ _ ⟨h₃, _⟩ => .pure ?_
  exact .flat (h.shorter.trans_rest (h₁.toRest.trans (h₂.trans h₃.rest))) (Nat.le_succ _)
    (by simp [Node.opcode, Term.opcode])

/-- `DefOpRegion` -/
theorem parseDefOpRegion_alike (h : Opened mem lo hi data .opRegion d) :
    CaseAlike mem mem' top exact fuel w data d (parseDefOpRegion mem fuel)
      (parseDefOpRegion mem' fuel') := by
  have hat : At mem lo hi 6 ⟨.termObj, w, data⟩ [.call .nameString .tested, .bytes 1,
    .call .termArg .unchecked, .call .termArg .unchecked] w d := h.flat
  refine (hat.name .here hagree).bind fun ⟨d₁, name⟩ hparse h₁ => ?_
  have hat₁ := hat.afterName hparse h₁
  refine (consume_alike (settingOf hagree) hat₁.within).bind fun ⟨regionSpace, d₂⟩ hconsume h₂ => ?_
  have hat₂ := hat₁.bytes (skip_of_consume hconsume)
  refine (hat₂.term ih rfl (by decide)).bind fun ⟨d₃, regionOffset⟩ _ ⟨h₃, hat₃⟩ => ?_
  refine ((hat₃ nofun).term ih rfl (by decide)).bind fun ⟨d₄, regionLen⟩ _ ⟨h₄, _⟩ => .pure ?_
  exact .flat (h.shorter.trans_rest (h₁.toRest.trans (h₂.toRest.trans (h₃.rest.trans h₄.rest))))
    (Nat.le_succ _) (by simp [Node.opcode])

/-- `DefWhile` -/
theorem parseDefWhile_alike
    (lists : ListsAlike mem mem' lo hi top exact .termList fuel (parseTermList mem fuel)
      (parseTermList mem' fuel')) (h : Opened mem lo hi data .while_ d) :
    CaseAlike mem mem' top exact fuel w data d (parseDefWhile mem fuel (parseTermList mem fuel))
      (parseDefWhile mem' fuel' (parseTermList mem' fuel')) := by
  refine (adjustWithPkgLength_alike (settingOf hagree) h.inside).bind fun pkg hadjust hpkg => ?_
  have hat : At mem lo hi 6 ⟨.termObj, w, data⟩
    [.call .termArg .tested, .call .termList .tested] w pkg := h.package rfl hadjust hpkg
  refine (hat.term ih rfl (by decide)).bind fun ⟨d₁, predicate⟩ _ ⟨h₁, hat₁⟩ => ?_
  have hd₁ := hpkg.inside.rest h₁.rest
  cases predicate with
  | none => exact .pure (h.failed hpkg hd₁)
  | some predicate =>
    refine ((hat₁ fun _ => nofun).list lists (by decide)).bind fun ⟨w₁, d₂, statements⟩ _ h₂ => ?_
    cases statements with
    | none => exact .pure (h.failed hpkg (hd₁.trans h₂.within))
    | some statements =>
      refine .pure (h.behind hpkg ?_ (by simp [Node.opcode]))
      have hmade : w₁.made + d₂.size ≤ w.made + d₁.size := h₂.made nofun
      have hsize := h₁.rest.size_le
      simp only [NodePtr] at *
      omega

/-- `DefIfElse` -/
theorem parseDefIfElse_alike
    (lists : ListsAlike mem mem' lo hi top exact .termList fuel (parseTermList mem fuel)
      (parseTermList mem' fuel')) (h : Opened mem lo hi data .if_ d) :
    CaseAlike mem mem' top exact fuel w data d (parseDefIfElse mem fuel (parseTermList mem fuel))
      (parseDefIfElse mem' fuel' (parseTermList mem' fuel')) := by
  refine (adjustWithPkgLength_alike (settingOf hagree) h.inside).bind fun pkg hadjust hpkg => ?_
  have hat : At mem lo hi 6 ⟨.termObj, w, data⟩
    [.call .termArg .tested, .call .termList .tested] w pkg := h.package rfl hadjust hpkg
  refine (hat.term ih rfl (by decide)).bind ?_
  rintro ⟨d₁, predicate⟩ hpred ⟨h₁, hat₁⟩
  have hd₁ := hpkg.inside.rest h₁.rest
  cases predicate with
  | none => exact .pure (h.failed hpkg hd₁)
  | some predicate =>
    refine ((hat₁ fun _ => (by simp)).list lists (by decide)).bind ?_
    rintro ⟨w₁, d₂, ifStatements⟩ hif h₂
    cases ifStatements with
    | none => exact .pure (h.failed hpkg (hd₁.trans h₂.within))
    | some ifStatements =>
      have hmade : w₁.made + d₂.size ≤ w.made + d₁.size := h₂.made (by simp)
      have hsize₁ := h₁.rest.size_le
      have hbehind : Within lo hi (d.movedTo pkg.end_) := h.inside.rest hpkg.shorter.toRest
      refine (startsWithElse_alike (settingOf hagree) hbehind).bind fun hasElse hstarts _ =>
        .ite (fun helse => ?_) fun _ => .pure (h.behind hpkg ?_ (by simp [Node.opcode]))
      · obtain rfl : hasElse = true := helse
        refine (consumeOpcode_alike (settingOf hagree) hbehind).bind ?_
        rintro ⟨op, d₃⟩ hopElse hd₃
        have hin₃ := hbehind.rest hd₃.toRest
        refine (adjustWithPkgLength_alike (settingOf hagree) hin₃).bind fun elsePkg hadjust' hpkg' => ?_
        have hbranch : ElseBranch mem w data w₁ d₃ :=
          .intro h.opcode hadjust (returns_term rfl hpred) ⟨fuel, hif⟩ hstarts hopElse
        have hsize : d.size < data.size := h.shorter.size_lt
        have hsize₃ : d₃.size < (d.movedTo pkg.end_).size := hd₃.size_lt
        have hrest := hpkg.size_add_lt
        have hat' : At mem lo hi 6 ⟨.termObj, w, data⟩ [.call .termList .tested] w₁ elsePkg := by
          refine ⟨fun k c hc => ?_, hpkg'.within hin₃, fun hw => ?_, ?_⟩
          · cases hc with
            | here => exact .elseList hbranch hadjust'
            | call _ _ hc => cases hc
          · exact ((parse_disciplined mem fuel).2.2 hw hif).sound
          · have hsize' := hpkg'.size_lt
            simp only [NodePtr, ParseFunction.rank] at *
            omega
        refine (hat'.list lists (by decide)).bind ?_
        rintro ⟨w₂, d₄, elseStatements⟩ _ h₄
        cases elseStatements with
        | none =>
          refine (unchanged (destroyAll_ends _ _)).bind fun w₃ _ _ => .pure ?_
          have hdata : Within data.begin_ data.end_ data := ⟨le_rfl, h.within.le_end, le_rfl⟩
          have hshort := h.shorter.trans (hpkg.shorter.trans hd₃)
          refine .failed ((hpkg'.within (hdata.rest hshort.toRest)).trans h₄.within) ?_
          exact (hshort.begin_lt.trans hpkg'.begin_lt).trans_le h₄.within.lo_le
        | some elseStatements =>
          refine .pure (.object ?_ ?_ (by simp [Node.opcode]))
          · exact h.shorter.trans (hpkg.shorter.trans (hd₃.trans hpkg'.shorter))
          · have hmade' : w₂.made + d₄.size ≤ w₁.made + elsePkg.size := h₄.made (by simp)
            have hrest' := hpkg'.size_add_lt
            simp only [NodePtr] at *
            omega
      · simp only [NodePtr] at *
        omega

/-- The cases of `parse_term_obj` -/
theorem parseObject_alike (hfuel : fuel ≤ fuel') (hexact : exact → fuel = fuel')
    (lists : ListsAlike mem mem' lo hi top exact .termList fuel (parseTermList mem fuel)
      (parseTermList mem' fuel'))
    (objects : ListsAlike mem mem' lo hi top exact .objectList fuel (parseObjectList mem fuel)
      (parseObjectList mem' fuel')) (h : Opened mem lo hi data code d) :
    CaseAlike mem mem' top exact fuel w data d
      (parseObject mem fuel (parseTermList mem fuel) (parseObjectList mem fuel) code)
      (parseObject mem' fuel' (parseTermList mem' fuel') (parseObjectList mem' fuel') code) := by
  have S : Setting mem mem' lo hi top (Enough mem top ⟨.termObj, w, data⟩ (fuel + 1)) := settingOf hagree
  rw [parseObject.eq_def, parseObject.eq_def]
  split
  case h_1 => exact parseDefName_alike hagree ih h
  case h_2 => exact parseDefScope_alike hagree hfuel hexact lists h
  case h_3 => exact parseDefMethod_alike hagree h
  case h_4 => exact parseDefStore_alike ih h
  case h_5 => exact parseDefNotify_alike ih h
  case h_6 => exact parseDefCreateFieldOf_alike hagree ih h rfl (by simp)
  case h_7 => exact parseDefCreateFieldOf_alike hagree ih h rfl (by simp)
  case h_8 => exact parseDefCreateFieldOf_alike hagree ih h rfl (by simp)
  case h_9 => exact parseDefCreateFieldOf_alike hagree ih h rfl (by simp)
  case h_10 => exact parseDefCreateFieldOf_alike hagree ih h rfl (by simp)
  case h_11 => exact parseDefIfElse_alike hagree ih lists h
  case h_12 => exact parseDefWhile_alike hagree ih lists h
  case h_13 => exact .pure (.flat h.shorter (Nat.le_succ _) (by simp [Node.opcode, Term.opcode]))
  case h_14 => exact parseDefReturn_alike ih h
  case h_15 => exact parseDefMutex_alike hagree h
  case h_16 => exact parseDefCreateField_alike hagree ih h
  case h_17 => exact parseDefFatal_alike hagree ih h
  case h_18 => exact parseDefOpRegion_alike hagree ih h
  case h_19 => exact parseDefField_alike hagree hfuel hexact h
  case h_20 =>
    exact parseDefContainer_alike hagree [] objects h rfl (by simp) fun d hd =>
      .pure ⟨.refl hd.le_end, fun _ hat => hat⟩
  case h_21 =>
    refine parseDefContainer_alike hagree [.bytes 1, .bytes 4, .bytes 1] objects h rfl (by simp)
      fun d hd => ?_
    refine (consume_alike S hd).bind ?_
    rintro ⟨_, d₁⟩ h₁ hd₁
    refine (consumeNumber_alike S (hd.rest hd₁.toRest)).bind ?_
    rintro ⟨_, d₂⟩ h₂ hd₂
    refine (consume_alike S ((hd.rest hd₁.toRest).rest hd₂)).bind ?_
    rintro ⟨_, d₃⟩ h₃ hd₃
    refine .pure ?_
    refine ⟨hd₁.toRest.trans (hd₂.trans hd₃.toRest), fun w₁ hat => ?_⟩
    exact ((hat.bytes (skip_of_consume h₁)).bytes (skip_of_consumeNumber h₂)).bytes (skip_of_consume h₃)
  case h_22 =>
    refine parseDefContainer_alike hagree [.bytes 1, .bytes 2] objects h rfl (by simp)
      fun d hd => ?_
    refine (consume_alike S hd).bind ?_
    rintro ⟨_, d₁⟩ h₁ hd₁
    refine (consumeNumber_alike S (hd.rest hd₁.toRest)).bind ?_
    rintro ⟨_, d₂⟩ h₂ hd₂
    refine .pure ?_
    refine ⟨hd₁.toRest.trans hd₂, fun w₁ hat => ?_⟩
    exact (hat.bytes (skip_of_consume h₁)).bytes (skip_of_consumeNumber h₂)
  case h_23 =>
    exact parseDefContainer_alike hagree [] objects h rfl (by simp) fun d hd =>
      .pure ⟨.refl hd.le_end, fun _ hat => hat⟩
  case h_24 => exact parseDefIndexField_alike hagree hfuel hexact h
  case h_25 =>
    refine (hexdump_alike S fun _ => .inr fun _ => ?_).bind fun _ _ _ => .abort
    obtain ⟨-, hend, hbegin⟩ := consumeOpcode_eq_done h.opcode
    have hin := h.inside
    obtain ⟨hlo, hle, hhi⟩ := hin
    have hlo' := h.within.lo_le
    have hmin : min 32 d.size ≤ d.size := Nat.min_le_right _ _
    have hsize : d.size = d.end_ - d.begin_ := rfl
    rw [hbegin, Nat.add_sub_cancel]
    exact ⟨hlo', by omega⟩

end Cases

/-- `parse_list` over objects, from some of them on -/
theorem parseObjects_alike {f : ParseFunction} {w₀ : World} {data₀ : ParseState} {objs : List Node}
    {n' : ℕ} (hf : f = .termList ∨ f = .objectList)
    (objects : ObjectsAlike mem mem' lo hi top exact fuel fuel') (hn : n ≤ n') (hexact : exact → n = n')
    (henough : Enough mem top ⟨f, w₀, data₀⟩ (fuel + 1) → d.size < n) (hin : Within lo hi d)
    (hrest : Rest data₀ d) (hobjects : Objects mem w₀ data₀ w d) (hsound : w₀.Sound → w.Sound)
    (hmade : w.made + d.size ≤ w₀.made + data₀.size) (halive : ∀ n ∈ objs, n.opcode ≠ .deadScope) :
    Alike (Good mem mem' ⟨f, w₀, data₀⟩) exact (Enough mem top ⟨f, w₀, data₀⟩ (fuel + 1))
      (fun r => Extent ⟨f, w₀, data₀⟩ r.1 r.2.1 r.2.2)
      (parseList Node.opcode destroyAll (parseTermObj mem fuel) n w d objs)
      (parseList Node.opcode destroyAll (parseTermObj mem' fuel') n' w d objs) := by
  have hconsumes : f.consumes = false := by obtain rfl | rfl := hf <;> rfl
  have hrank : f.rank = 4 := by obtain rfl | rfl := hf <;> rfl
  induction n generalizing n' w d objs with
  | zero =>
    refine .running (fun h => ?_) fun h => absurd (henough h) (Nat.not_lt_zero _)
    rw [← hexact h]
    rfl
  | succ n ih =>
    obtain _ | n' := n'
    · exact absurd hn (by simp)
    refine .ite (fun hend => .pure ?_) fun hne => ?_
    · exact ⟨⟨hrest.begin_le, hrest.le_end, hrest.end_eq.le⟩, fun h => by simp [hconsumes] at h,
        fun _ => hrest.end_eq, fun _ _ => hend, fun _ => hmade, fun ns hns => by cases hns; exact halive⟩
    have hsize := hrest.size_le
    refine ((objects w d hin).weaken (fun h => h.call (.object hf hobjects hne)) fun h => ?_).bind
      fun ⟨w₁, d₁, obj⟩ hrun h₁ => ?_
    · refine h.call (hsound h.sound) ?_
      simp only [bound, ParseFunction.rank, NodePtr] at *
      omega
    cases obj with
    | none =>
      refine (unchanged (destroyAll_ends _ _)).bind fun w₂ _ _ => .pure ?_
      have hdata : Within data₀.begin_ data₀.end_ d := ⟨hrest.begin_le, hrest.le_end, hrest.end_eq.le⟩
      refine ⟨hdata.trans h₁.within, fun h => by simp [hconsumes] at h, fun h => ?_, fun _ h => absurd rfl h,
        fun h => absurd rfl h, (by simp)⟩
      obtain rfl | rfl := hf <;> exact absurd h (by simp [ParseFunction.isTerm])
    | some obj =>
      have hobj : obj.opcode ≠ .deadScope := h₁.alive [obj] rfl obj (List.mem_singleton_self _)
      have hd₁ : Shorter d d₁ :=
        ⟨⟨(h₁.begin_lt rfl).le, h₁.within.le_end, h₁.end_eq (.inl (by rintro ⟨⟩))⟩, h₁.begin_lt rfl⟩
      have hlt := hd₁.size_lt
      have hreturns : Returns mem ⟨.termObj, w, d⟩ w₁ d₁ (some [obj]) := by
        refine ⟨fuel, ?_⟩
        simp only [ParseFunction.result, hrun, done_bind]
        rfl
      dsimp only
      rw [if_pos hobj, if_pos hobj]
      refine ih (Nat.le_of_succ_le_succ hn) (fun h => Nat.succ_injective (hexact h)) (fun h => ?_)
        (hin.rest hd₁.toRest) (hrest.trans hd₁.toRest) (.next hobjects hne hreturns)
        (fun h => ((parse_disciplined mem fuel).1 (hsound h) hrun).sound) ((h₁.made (by rintro ⟨⟩)).trans hmade) ?_
      · have hsize := henough h
        omega
      · intro n hn
        obtain hn | hn := List.mem_append.1 hn
        · exact halive n hn
        · rw [List.mem_singleton.1 hn]
          exact hobj

/-- `parse_term_obj` -/
theorem parseTermObj_alike (hagree : ∀ a, lo ≤ a → a < hi → mem' a = mem a) (hfuel : fuel ≤ fuel')
    (hexact : exact → fuel = fuel') (ih : TermsAlike mem mem' lo hi top exact fuel fuel')
    (lists : ListsAlike mem mem' lo hi top exact .termList fuel (parseTermList mem fuel)
      (parseTermList mem' fuel'))
    (objects : ListsAlike mem mem' lo hi top exact .objectList fuel (parseObjectList mem fuel)
      (parseObjectList mem' fuel')) :
    ObjectsAlike mem mem' lo hi top exact (fuel + 1) (fuel' + 1) := by
  intro w data hdata
  rw [parseTermObj, parseTermObj]
  refine (peekOpcode_alike (settingOf hagree) hdata).bind fun op hpeek _ => .ite (fun htype2 => ?_)
    fun htype2 => ?_
  · have hcalls : Calls mem .tested ⟨.termObj, w, data⟩ ⟨.type2Opcode, w, data⟩ :=
      .operator hpeek htype2
    have hterm : Alike (Good mem mem' ⟨.termObj, w, data⟩) exact
        (Enough mem top ⟨.termObj, w, data⟩ (fuel + 1)) _ _ _ :=
      (ih .type2Opcode w data rfl hdata).weaken (fun h => h.call hcalls)
        fun h => h.call h.sound (by simp [bound, ParseFunction.rank])
    refine hterm.bind ?_
    rintro ⟨d, t⟩ _ h
    refine .pure ?_
    have hd := h.shorter rfl
    cases t with
    | none => exact .failed ⟨hd.begin_le, hd.le_end, hd.end_eq.le⟩ hd.begin_lt
    | some t => exact .flat hd (Nat.le_succ _) (h.alive t rfl)
  · refine (consumeOpcode_alike (settingOf hagree) hdata).bind ?_
    rintro ⟨op', d⟩ hop hd
    obtain ⟨hpeek', -, -⟩ := consumeOpcode_eq_done hop
    cases hpeek.symm.trans hpeek'
    exact parseObject_alike hagree ih hfuel hexact lists objects ⟨hop, hd, hdata, htype2⟩

/-- **The calls for objects are alike**, by induction on the depth of the calls. -/
theorem objects_alike (hagree : ∀ a, lo ≤ a → a < hi → mem' a = mem a) (hfuel : fuel ≤ fuel')
    (hexact : exact → fuel = fuel') :
    ObjectsAlike mem mem' lo hi top exact fuel fuel' ∧
      ListsAlike mem mem' lo hi top exact .termList fuel (parseTermList mem fuel)
        (parseTermList mem' fuel') ∧
      ListsAlike mem mem' lo hi top exact .objectList fuel (parseObjectList mem fuel)
        (parseObjectList mem' fuel') := by
  induction fuel generalizing fuel' with
  | zero =>
    refine ⟨fun w data _ => ?_, fun w data _ => ?_, fun w data _ => ?_⟩
    · rw [parseTermObj]
      exact .running (fun h => by rw [← hexact h, parseTermObj]) fun h => absurd h.le (by simp [bound])
    · rw [parseTermList]
      exact .running (fun h => by rw [← hexact h, parseTermList]) fun h => absurd h.le (by simp [bound])
    · rw [parseObjectList]
      exact .running (fun h => by rw [← hexact h, parseObjectList]) fun h => absurd h.le (by simp [bound])
  | succ fuel ih =>
    obtain _ | fuel' := fuel'
    · exact absurd hfuel (by simp)
    have hfuel := Nat.le_of_succ_le_succ hfuel
    have hexact := fun h => Nat.succ_injective (hexact h)
    obtain ⟨objects, terms, containers⟩ := ih hfuel hexact
    -- the loop over the objects of a list
    have hlist {f : ParseFunction} {w : World} {data : ParseState}
        (hf : f = .termList ∨ f = .objectList) (hdata : Within lo hi data) :
        Alike (Good mem mem' ⟨f, w, data⟩) exact (Enough mem top ⟨f, w, data⟩ (fuel + 1))
          (fun r => Extent ⟨f, w, data⟩ r.1 r.2.1 r.2.2)
          (parseList Node.opcode destroyAll (parseTermObj mem fuel) fuel w data [])
          (parseList Node.opcode destroyAll (parseTermObj mem' fuel') fuel' w data []) := by
      refine parseObjects_alike hf objects hfuel hexact (fun h => ?_) hdata (.refl hdata.le_end) .start id
        le_rfl (by simp)
      have hle := h.le
      simp only [bound] at hle
      omega
    refine ⟨parseTermObj_alike hagree hfuel hexact (terms_alike hagree hfuel hexact).1 terms containers,
      fun w data hdata => ?_, fun w data hdata => ?_⟩
    · rw [parseTermList, parseTermList]
      exact hlist (.inl rfl) hdata
    · rw [parseObjectList, parseObjectList]
      exact hlist (.inr rfl) hdata

end Objects

end Attos.Aml

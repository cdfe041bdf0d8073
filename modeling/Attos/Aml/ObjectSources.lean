import Attos.Aml.TermSources

/-!
# What the trees of objects come from

The same as for terms, for `parse_term_obj` and the functions that use it. A list returns its
objects after all of their calls returned nodes, so that the calls behind an object are looked
at from the view behind it on.
-/

namespace Attos.Aml

open Lib Outcome ParseState

variable {mem : Memory} {c c' : Call} {w w' : World} {d d' data : ParseState} {r : Option (List Node)}
  {k : Check} {ps : List Piece} {f : ParseFunction} {fuel n : ℕ} {t : Option Term}

variable {rs : List (Check × Option (List Node))}

/-! ## Cases of `parse_term_obj` -/

section Results

variable {ns : List Node}

theorem returns_termList (h : parseTermList mem fuel w d = done (w', d', r)) :
    Returns mem ⟨.termList, w, d⟩ w' d' r := ⟨fuel, h⟩

theorem returns_objectList (h : parseObjectList mem fuel w d = done (w', d', r)) :
    Returns mem ⟨.objectList, w, d⟩ w' d' r := ⟨fuel, h⟩

theorem returns_fieldList (h : parseFieldList mem fuel w d = done (w', d', r)) :
    Returns mem ⟨.fieldList, w, d⟩ w' d' r := ⟨fuel, h⟩

theorem returns_fieldFlags {flags : UInt8} (w : World) (h : parseFieldFlags mem d = done (flags, d')) :
    Returns mem ⟨.fieldFlags, w, d⟩ w d' (some []) := by
  refine ⟨0, ?_⟩
  simp only [ParseFunction.result, h, done_bind]
  rfl

end Results

section Objects

variable {code : Opcode} (hop : data.consumeOpcode mem = done (code, d)) (htype2 : ¬ isType2Opcode code)
  (hdata : data.begin_ ≤ data.end_)

include hop htype2

/-- The calls of an object without a package -/
theorem calls_iff_flat (hps : packagePieces code = none) (k : Check) (c' : Call) :
    Calls mem k ⟨.termObj, w, data⟩ c' ↔ Among mem (objectPieces code) w d k c' := by
  have hbehind : ParseFunction.termObj.behind code = objectPieces code := if_neg htype2
  rw [← hbehind]
  refine ⟨fun h => ?_, .behind (f := .termObj) hop⟩
  obtain hamong | ⟨ps, hps', -⟩ | ⟨hf, -⟩ | ⟨-, rfl, -⟩ := calls_of_construct (.inr ⟨rfl, htype2⟩) hop h
  · exact hamong
  · rw [ParseFunction.inPackage, if_neg htype2, hps] at hps'
    cases hps'
  · cases hf
  · cases hps

omit hop in
theorem inPackage_eq : ParseFunction.termObj.inPackage code = packagePieces code := if_neg htype2

/-- The calls of an object with a package -/
theorem calls_of_object {pkg : ParseState} (hps : packagePieces code = some ps)
    (hadjust : adjustWithPkgLength mem d = done pkg) (h : Calls mem k ⟨.termObj, w, data⟩ c') :
    Among mem ps w pkg k c' ∨ Harmless mem c' ∨ (code = .if_ ∧ ∃ w₁ d₁, ElseBranch mem w data w₁ d₁ ∧
      k = .tested ∧ (c' = ⟨.pkgLength, w₁, d₁⟩ ∨
        ∃ pkg, adjustWithPkgLength mem d₁ = done pkg ∧ c' = ⟨.termList, w₁, pkg⟩)) := by
  obtain hamong | ⟨ps', hps', rfl | ⟨pkg', hadjust', hamong⟩⟩ | ⟨hf, -⟩ | ⟨-, hif⟩ :=
    calls_of_construct (.inr ⟨rfl, htype2⟩) hop h
  · rw [ParseFunction.behind, if_neg htype2, objectPieces_of_package (by rw [hps]; rfl)] at hamong
    cases hamong
  · exact .inr (.inl (harmless_pkgLength hadjust))
  · rw [inPackage_eq htype2, hps] at hps'
    cases hps'
    cases hadjust.symm.trans hadjust'
    exact .inl hamong
  · cases hf
  · exact .inr (.inr hif)

include hdata

/-- Pieces without a package -/
theorem Sourced.of_flat {ns : List Node} (hps : packagePieces code = none)
    (hran : Ran mem (objectPieces code) w d rs) (hns : nodesComplete ns ↔ ∀ kr ∈ rs, Keeps kr.1 kr.2) :
    Sourced mem ⟨.termObj, w, data⟩ (some ns) := by
  have hcalls (k : Check) (c' : Call) := calls_iff_flat (w := w) hop htype2 hps k c'
  exact .of_pieces (not_unresolved nofun) hdata (shorter_of_consumeOpcode hdata hop).le_end
    (fun k c' => (hcalls k c').2) (fun k c' h => .inl ((hcalls k c').1 h)) hran hns

/-- Pieces in a package -/
theorem Sourced.of_package {pkg : ParseState} {ns : List Node} (hps : packagePieces code = some ps)
    (hif : code ≠ .if_) (hadjust : adjustWithPkgLength mem d = done pkg)
    (hran : Ran mem ps w pkg rs) (hns : nodesComplete ns ↔ ∀ kr ∈ rs, Keeps kr.1 kr.2) :
    Sourced mem ⟨.termObj, w, data⟩ (some ns) := by
  have hpkg := package_of_adjustWithPkgLength (shorter_of_consumeOpcode hdata hop).le_end hadjust
  refine .of_pieces (not_unresolved nofun) hdata hpkg.le_end
    (fun k c' => .inPackage hop ((inPackage_eq htype2).trans hps) hadjust) (fun k c' h => ?_) hran hns
  refine (calls_of_object hop htype2 hps hadjust h).imp_right fun h => h.resolve_right ?_
  exact fun ⟨hcode, _⟩ => hif hcode

end Objects

section Cases

variable {n : Option Node} {m : ℕ}

section Flat

variable (hdata : data.begin_ ≤ data.end_)

include hdata

theorem parseDefName_sourced (hop : data.consumeOpcode mem = done (.name, d))
    (h : parseDefName mem fuel w d = done (w', d', n)) : Sourced mem ⟨.termObj, w, data⟩ (nodeTrees n) := by
  obtain ⟨⟨d₁, name⟩, hparse, h⟩ := bind_eq_done.1 h
  obtain ⟨⟨reg, w₁⟩, hopen, h⟩ := bind_eq_done.1 h
  obtain ⟨⟨d₂, obj⟩, hobj, h⟩ := bind_eq_done.1 h
  obtain ⟨⟨w₂, this⟩, -, h⟩ := bind_eq_done.1 h
  obtain ⟨obj, hsome, h⟩ := bind_eq_done.1 h
  rw [requireSome_eq_done] at hsome
  subst hsome
  cases h
  have hreturns : Returns mem ⟨.dataRefObject, w₁, d₁⟩ w₁ d' (termTrees (some obj)) := returns_term rfl hobj
  refine .of_flat hop (by decide) hdata rfl (.scope hparse hopen (.call hreturns (fun _ => nofun) .nil)) ?_
  simp [Node.Complete]

theorem parseDefStore_sourced (hop : data.consumeOpcode mem = done (.store, d))
    (h : parseDefStore mem fuel w d = done (w', d', n)) : Sourced mem ⟨.termObj, w, data⟩ (nodeTrees n) := by
  obtain ⟨⟨d₁, arg⟩, harg, h⟩ := bind_eq_done.1 h
  have hreturns : Returns mem ⟨.termArg, w, d⟩ w d₁ (termTrees arg) := returns_term rfl harg
  cases arg with
  | none =>
    cases h
    exact .of_failed ((calls_iff_flat hop (by decide) rfl _ _).2 .here) hreturns
  | some arg =>
    obtain ⟨⟨d₂, name⟩, hname, h⟩ := bind_eq_done.1 h
    cases h
    have hreturns' : Returns mem ⟨.superName, w, d₁⟩ w d' (termTrees name) := returns_term rfl hname
    refine .of_flat hop (by decide) hdata rfl (.call hreturns (fun _ => nofun) (.call hreturns' nofun .nil)) ?_
    simp

theorem parseDefNotify_sourced (hop : data.consumeOpcode mem = done (.notify, d))
    (h : parseDefNotify mem fuel w d = done (w', d', n)) : Sourced mem ⟨.termObj, w, data⟩ (nodeTrees n) := by
  obtain ⟨⟨d₁, obj⟩, hobj, h⟩ := bind_eq_done.1 h
  obtain ⟨⟨d₂, value⟩, hvalue, h⟩ := bind_eq_done.1 h
  cases h
  have hreturns : Returns mem ⟨.superName, w, d⟩ w d₁ (termTrees obj) := returns_term rfl hobj
  have hreturns' : Returns mem ⟨.termArg, w, d₁⟩ w d' (termTrees value) := returns_term rfl hvalue
  refine .of_flat hop (by decide) hdata rfl (.call hreturns nofun (.call hreturns' nofun .nil)) ?_
  simp [and_comm]

theorem parseDefCreateFieldOf_sourced {code : Opcode} (hop : data.consumeOpcode mem = done (code, d))
    (htype2 : ¬ isType2Opcode code) (hflat : packagePieces code = none)
    (hps : objectPieces code = [.call .termArg .unchecked, .call .termArg .unchecked,
      .call .nameString .tested])
    (h : parseDefCreateFieldOf mem fuel code w d = done (w', d', n)) :
    Sourced mem ⟨.termObj, w, data⟩ (nodeTrees n) := by
  obtain ⟨⟨d₁, sourceBuffer⟩, hbuffer, h⟩ := bind_eq_done.1 h
  obtain ⟨⟨d₂, byteIndex⟩, hindex, h⟩ := bind_eq_done.1 h
  obtain ⟨⟨d₃, name⟩, hparse, h⟩ := bind_eq_done.1 h
  obtain ⟨⟨reg, w₁⟩, -, h⟩ := bind_eq_done.1 h
  obtain ⟨⟨w₂, this⟩, -, h⟩ := bind_eq_done.1 h
  cases h
  have hreturns : Returns mem ⟨.termArg, w, d⟩ w d₁ (termTrees sourceBuffer) := returns_term rfl hbuffer
  have hreturns' : Returns mem ⟨.termArg, w, d₁⟩ w d₂ (termTrees byteIndex) := returns_term rfl hindex
  have hran : Ran mem (objectPieces code) w d [(.unchecked, termTrees sourceBuffer),
      (.unchecked, termTrees byteIndex), (.tested, some [])] := by
    rw [hps]
    exact .call hreturns nofun (.call hreturns' nofun
      (.call (returns_nameString w hparse) (fun _ => nofun) .nil))
  refine .of_flat hop htype2 hdata hflat hran ?_
  simp [Node.Complete]

theorem parseDefReturn_sourced (hop : data.consumeOpcode mem = done (.return_, d))
    (h : parseDefReturn mem fuel w d = done (w', d', n)) : Sourced mem ⟨.termObj, w, data⟩ (nodeTrees n) := by
  obtain ⟨⟨d₁, arg⟩, harg, h⟩ := bind_eq_done.1 h
  cases h
  have hreturns : Returns mem ⟨.termArg, w, d⟩ w d' (termTrees arg) := returns_term rfl harg
  cases arg with
  | none => exact .of_failed ((calls_iff_flat hop (by decide) rfl _ _).2 .here) hreturns
  | some arg =>
    refine .of_flat hop (by decide) hdata rfl (.call hreturns (fun _ => nofun) .nil) ?_
    simp

theorem parseDefMutex_sourced (hop : data.consumeOpcode mem = done (.mutex, d))
    (h : parseDefMutex mem w d = done (w', d', n)) : Sourced mem ⟨.termObj, w, data⟩ (nodeTrees n) := by
  obtain ⟨⟨d₁, name⟩, hparse, h⟩ := bind_eq_done.1 h
  obtain ⟨⟨flags, d₂⟩, hflags, h⟩ := bind_eq_done.1 h
  obtain ⟨-, h⟩ := require_bind_eq_done.1 h
  cases h
  refine .of_flat hop (by decide) hdata rfl (.call (returns_nameString w hparse) (fun _ => nofun)
    (.bytes (skip_of_consume hflags) .nil)) ?_
  simp [Node.Complete]

theorem parseDefCreateField_sourced (hop : data.consumeOpcode mem = done (.createField, d))
    (h : parseDefCreateField mem fuel w d = done (w', d', n)) :
    Sourced mem ⟨.termObj, w, data⟩ (nodeTrees n) := by
  obtain ⟨⟨d₁, sourceBuffer⟩, hbuffer, h⟩ := bind_eq_done.1 h
  obtain ⟨⟨d₂, bitIndex⟩, hindex, h⟩ := bind_eq_done.1 h
  obtain ⟨⟨d₃, numBits⟩, hbits, h⟩ := bind_eq_done.1 h
  obtain ⟨⟨d₄, name⟩, hparse, h⟩ := bind_eq_done.1 h
  cases h
  have hreturns : Returns mem ⟨.termArg, w, d⟩ w d₁ (termTrees sourceBuffer) := returns_term rfl hbuffer
  have hreturns₁ : Returns mem ⟨.termArg, w, d₁⟩ w d₂ (termTrees bitIndex) := returns_term rfl hindex
  have hreturns₂ : Returns mem ⟨.termArg, w, d₂⟩ w d₃ (termTrees numBits) := returns_term rfl hbits
  refine .of_flat hop (by decide) hdata rfl (.call hreturns nofun (.call hreturns₁ nofun
    (.call hreturns₂ nofun (.call (returns_nameString w hparse) (fun _ => nofun) .nil)))) ?_
  simp

theorem parseDefFatal_sourced (hop : data.consumeOpcode mem = done (.fatal, d))
    (h : parseDefFatal mem fuel w d = done (w', d', n)) : Sourced mem ⟨.termObj, w, data⟩ (nodeTrees n) := by
  obtain ⟨⟨type, d₁⟩, htype, h⟩ := bind_eq_done.1 h
  obtain ⟨⟨code, d₂⟩, hcode, h⟩ := bind_eq_done.1 h
  obtain ⟨⟨d₃, arg⟩, harg, h⟩ := bind_eq_done.1 h
  cases h
  have hreturns : Returns mem ⟨.termArg, w, d₂⟩ w d' (termTrees arg) := returns_term rfl harg
  refine .of_flat hop (by decide) hdata rfl (.bytes (skip_of_consume htype)
    (.bytes (skip_of_consumeNumber hcode) (.call hreturns nofun .nil))) ?_
  simp

theorem parseDefOpRegion_sourced (hop : data.consumeOpcode mem = done (.opRegion, d))
    (h : parseDefOpRegion mem fuel w d = done (w', d', n)) :
    Sourced mem ⟨.termObj, w, data⟩ (nodeTrees n) := by
  obtain ⟨⟨d₁, name⟩, hparse, h⟩ := bind_eq_done.1 h
  obtain ⟨⟨regionSpace, d₂⟩, hspace, h⟩ := bind_eq_done.1 h
  obtain ⟨⟨d₃, regionOffset⟩, hoffset, h⟩ := bind_eq_done.1 h
  obtain ⟨⟨d₄, regionLen⟩, hlen, h⟩ := bind_eq_done.1 h
  cases h
  have hreturns : Returns mem ⟨.termArg, w, d₂⟩ w d₃ (termTrees regionOffset) := returns_term rfl hoffset
  have hreturns' : Returns mem ⟨.termArg, w, d₃⟩ w d' (termTrees regionLen) := returns_term rfl hlen
  refine .of_flat hop (by decide) hdata rfl (.call (returns_nameString w hparse) (fun _ => nofun)
    (.bytes (skip_of_consume hspace) (.call hreturns nofun (.call hreturns' nofun .nil)))) ?_
  simp [Node.Complete]

end Flat

section Packages

variable (hdata : data.begin_ ≤ data.end_)

include hdata

theorem parseDefScope_sourced (hop : data.consumeOpcode mem = done (.scope, d))
    (h : parseDefScope mem m (parseTermList mem fuel) w d = done (w', d', n)) :
    Sourced mem ⟨.termObj, w, data⟩ (nodeTrees n) := by
  obtain ⟨pkg, hadjust, h⟩ := bind_eq_done.1 h
  obtain ⟨⟨d₁, name⟩, hparse, h⟩ := bind_eq_done.1 h
  obtain ⟨⟨reg, w₁⟩, hopen, h⟩ := bind_eq_done.1 h
  obtain ⟨⟨w₂, d₂, list⟩, hlist, h⟩ := bind_eq_done.1 h
  obtain ⟨nodes, hsome, h⟩ := bind_eq_done.1 h
  have hreturns := returns_termList hlist
  rw [requireSome_eq_done.1 hsome] at hreturns
  -- the container has the nodes of the list, whether it is merged or not
  have hcontainer {this : NodePtr} {ignored : Bool} :
      Sourced mem ⟨.termObj, w, data⟩ (some [.container this ignored .scope nodes]) := by
    refine .of_package hop (by decide) hdata rfl (by decide) hadjust
      (.scope hparse hopen (.call hreturns (fun _ => nofun) .nil)) ?_
    simp [Node.Complete]
  obtain ⟨-, h⟩ := require_bind_eq_done.1 h
  obtain ⟨found, -, h⟩ := bind_eq_done.1 h
  cases found with
  | none =>
    obtain ⟨_, -, h⟩ := bind_eq_done.1 h
    cases h
    exact hcontainer
  | some found =>
    obtain ⟨_, -, h⟩ := bind_eq_done.1 h
    obtain ⟨_, -, h⟩ := bind_eq_done.1 h
    obtain ⟨_, -, h⟩ := bind_eq_done.1 h
    obtain ⟨_, -, h⟩ := bind_eq_done.1 h
    obtain ⟨_, -, h⟩ := bind_eq_done.1 h
    cases h
    exact hcontainer

theorem parseDefMethod_sourced (hop : data.consumeOpcode mem = done (.method, d))
    (h : parseDefMethod mem w d = done (w', d', n)) : Sourced mem ⟨.termObj, w, data⟩ (nodeTrees n) := by
  obtain ⟨pkg, hadjust, h⟩ := bind_eq_done.1 h
  obtain ⟨⟨d₁, name⟩, hparse, h⟩ := bind_eq_done.1 h
  obtain ⟨⟨reg, w₁⟩, hopen, h⟩ := bind_eq_done.1 h
  obtain ⟨⟨flags, d₂⟩, hconsume, h⟩ := bind_eq_done.1 h
  obtain ⟨⟨_, this⟩, -, h⟩ := bind_eq_done.1 h
  cases h
  refine .of_package hop (by decide) hdata rfl (by decide) hadjust
    (.scope hparse hopen (.bytes (skip_of_consume hconsume) .nil)) ?_
  simp [Node.Complete]

theorem parseDefWhile_sourced (hop : data.consumeOpcode mem = done (.while_, d))
    (h : parseDefWhile mem m (parseTermList mem fuel) w d = done (w', d', n)) :
    Sourced mem ⟨.termObj, w, data⟩ (nodeTrees n) := by
  obtain ⟨pkg, hadjust, h⟩ := bind_eq_done.1 h
  obtain ⟨⟨d₁, predicate⟩, hpred, h⟩ := bind_eq_done.1 h
  have hin {k : Check} {c' : Call} (h : Among mem [.call .termArg .tested, .call .termList .tested] w pkg k c') :
      Calls mem k ⟨.termObj, w, data⟩ c' :=
    .inPackage hop ((inPackage_eq (by decide)).trans rfl) hadjust h
  have hreturns : Returns mem ⟨.termArg, w, pkg⟩ w d₁ (termTrees predicate) := returns_term rfl hpred
  cases predicate with
  | none =>
    cases h
    exact .of_failed (hin .here) hreturns
  | some predicate =>
    obtain ⟨⟨w₁, d₂, statements⟩, hlist, h⟩ := bind_eq_done.1 h
    have hreturns' := returns_termList hlist
    cases statements with
    | none =>
      cases h
      exact .of_failed (hin (.call hreturns (fun _ => nofun) .here)) hreturns'
    | some statements =>
      cases h
      refine .of_package hop (by decide) hdata rfl (by decide) hadjust
        (.call hreturns (fun _ => nofun) (.call hreturns' (fun _ => nofun) .nil)) ?_
      simp [Node.Complete]

theorem parseDefField_sourced (hop : data.consumeOpcode mem = done (.field, d))
    (h : parseDefField mem fuel w d = done (w', d', n)) : Sourced mem ⟨.termObj, w, data⟩ (nodeTrees n) := by
  obtain ⟨pkg, hadjust, h⟩ := bind_eq_done.1 h
  obtain ⟨⟨d₁, name⟩, hparse, h⟩ := bind_eq_done.1 h
  obtain ⟨⟨flags, d₂⟩, hflags, h⟩ := bind_eq_done.1 h
  obtain ⟨⟨w₁, d₃, fields⟩, hlist, h⟩ := bind_eq_done.1 h
  have hname := returns_nameString w hparse
  have hflags := returns_fieldFlags w hflags
  have hreturns := returns_fieldList hlist
  cases fields with
  | none =>
    cases h
    refine .of_failed (.inPackage hop ((inPackage_eq (by decide)).trans rfl) hadjust ?_) hreturns
    exact .call hname (fun _ => nofun) (.call hflags (fun _ => nofun) .here)
  | some fields =>
    cases h
    refine .of_package hop (by decide) hdata rfl (by decide) hadjust (.call hname (fun _ => nofun)
      (.call hflags (fun _ => nofun) (.call hreturns (fun _ => nofun) .nil))) ?_
    simp [Node.Complete]

theorem parseDefIndexField_sourced (hop : data.consumeOpcode mem = done (.indexField, d))
    (h : parseDefIndexField mem fuel w d = done (w', d', n)) :
    Sourced mem ⟨.termObj, w, data⟩ (nodeTrees n) := by
  obtain ⟨pkg, hadjust, h⟩ := bind_eq_done.1 h
  obtain ⟨⟨d₁, name⟩, hparse₁, h⟩ := bind_eq_done.1 h
  obtain ⟨⟨d₂, _⟩, hparse₂, h⟩ := bind_eq_done.1 h
  obtain ⟨⟨flags, d₃⟩, hflags, h⟩ := bind_eq_done.1 h
  obtain ⟨⟨w₁, d₄, fields⟩, hlist, h⟩ := bind_eq_done.1 h
  have hname₁ := returns_nameString w hparse₁
  have hname₂ := returns_nameString w hparse₂
  have hflags := returns_fieldFlags w hflags
  have hreturns := returns_fieldList hlist
  cases fields with
  | none =>
    cases h
    refine .of_failed (.inPackage hop ((inPackage_eq (by decide)).trans rfl) hadjust ?_) hreturns
    exact .call hname₁ (fun _ => nofun) (.call hname₂ (fun _ => nofun) (.call hflags (fun _ => nofun) .here))
  | some fields =>
    cases h
    refine .of_package hop (by decide) hdata rfl (by decide) hadjust (.call hname₁ (fun _ => nofun)
      (.call hname₂ (fun _ => nofun) (.call hflags (fun _ => nofun) (.call hreturns (fun _ => nofun) .nil)))) ?_
    simp [Node.Complete]

theorem parseDefContainer_sourced {code : Opcode} (bs : List Piece) {header : ParseState → Outcome ParseState}
    (hop : data.consumeOpcode mem = done (code, d)) (htype2 : ¬ isType2Opcode code) (hif : code ≠ .if_)
    (hps : packagePieces code = some (.scope :: (bs ++ [.call .objectList .tested])))
    (hheader : ∀ d d' w rs, header d = done d' → Ran mem [.call .objectList .tested] w d' rs →
      Ran mem (bs ++ [.call .objectList .tested]) w d rs)
    (h : parseDefContainer mem (parseObjectList mem fuel) code header w d = done (w', d', n)) :
    Sourced mem ⟨.termObj, w, data⟩ (nodeTrees n) := by
  obtain ⟨pkg, hadjust, h⟩ := bind_eq_done.1 h
  obtain ⟨⟨d₁, name⟩, hparse, h⟩ := bind_eq_done.1 h
  obtain ⟨d₂, hbytes, h⟩ := bind_eq_done.1 h
  obtain ⟨⟨reg, w₁⟩, hopen, h⟩ := bind_eq_done.1 h
  obtain ⟨⟨w₂, d₃, list⟩, hlist, h⟩ := bind_eq_done.1 h
  obtain ⟨nodes, hsome, h⟩ := bind_eq_done.1 h
  obtain ⟨⟨w₃, this, ignored⟩, -, h⟩ := bind_eq_done.1 h
  cases h
  rw [requireSome_eq_done.1 hsome] at hlist
  refine .of_package hop htype2 hdata hps hif hadjust (.scope hparse hopen
    (hheader d₁ d₂ w₁ _ hbytes (.call (returns_objectList hlist) (fun _ => nofun) .nil))) ?_
  simp [Node.Complete]

theorem parseDefIfElse_sourced (hop : data.consumeOpcode mem = done (.if_, d))
    (h : parseDefIfElse mem m (parseTermList mem fuel) w d = done (w', d', n)) :
    Sourced mem ⟨.termObj, w, data⟩ (nodeTrees n) := by
  have hun : ¬ Unresolved mem ⟨.termObj, w, data⟩ := not_unresolved nofun
  have htype2 : ¬ isType2Opcode .if_ := by decide
  obtain ⟨pkg, hadjust, h⟩ := bind_eq_done.1 h
  obtain ⟨⟨d₁, predicate⟩, hpred, h⟩ := bind_eq_done.1 h
  have hpkg := package_of_adjustWithPkgLength (shorter_of_consumeOpcode hdata hop).le_end hadjust
  have hin {k : Check} {c' : Call} (h : Among mem [.call .termArg .tested, .call .termList .tested] w pkg k c') :
      Calls mem k ⟨.termObj, w, data⟩ c' :=
    .inPackage hop ((inPackage_eq htype2).trans rfl) hadjust h
  have hreturns : Returns mem ⟨.termArg, w, pkg⟩ w d₁ (termTrees predicate) := returns_term rfl hpred
  cases predicate with
  | none =>
    cases h
    exact .of_failed (hin .here) hreturns
  | some predicate =>
    obtain ⟨⟨w₁, d₂, ifStatements⟩, hlist, h⟩ := bind_eq_done.1 h
    have hreturns₁ := returns_termList hlist
    cases ifStatements with
    | none =>
      cases h
      exact .of_failed (hin (.call hreturns (fun _ => nofun) .here)) hreturns₁
    | some ifStatements =>
      have hran : Ran mem [.call .termArg .tested, .call .termList .tested] w pkg
          [(.tested, some [.term predicate]), (.tested, some ifStatements)] :=
        .call hreturns (fun _ => nofun) (.call hreturns₁ (fun _ => nofun) .nil)
      obtain ⟨hasElse, hstarts, h⟩ := bind_eq_done.1 h
      cases hasElse with
      | false =>
        cases h
        refine .of_pieces hun hdata hpkg.le_end (fun _ _ => hin) (fun k c' h => ?_) hran ?_
        · refine (calls_of_object hop htype2 rfl hadjust h).imp_right fun h => h.resolve_right ?_
          rintro ⟨-, w₂, d₃, ⟨hop', hadjust', -, -, hstarts', -⟩, -⟩
          cases hop.symm.trans hop'
          cases hadjust.symm.trans hadjust'
          cases hstarts.symm.trans hstarts'
        · simp [Node.Complete]
      | true =>
        obtain ⟨⟨op, d₃⟩, hop₃, h⟩ := bind_eq_done.1 h
        obtain ⟨elsePkg, hadjust₃, h⟩ := bind_eq_done.1 h
        obtain ⟨⟨w₂, d₄, elseStatements⟩, hlist₂, h⟩ := bind_eq_done.1 h
        have hreturns₂ := returns_termList hlist₂
        have hbranch : ElseBranch mem w data w₁ d₃ := ⟨hop, hadjust, hreturns, hreturns₁, hstarts, hop₃⟩
        cases elseStatements with
        | none =>
          obtain ⟨_, -, h⟩ := bind_eq_done.1 h
          cases h
          exact .of_failed (.elseList hbranch hadjust₃) hreturns₂
        | some elseStatements =>
          cases h
          refine .of_results hun hdata ([(.tested, some [.term predicate]), (.tested, some ifStatements)] ++
            [(.tested, some elseStatements)]) (fun kr hmem => ?_) (fun r hmem => ?_)
            (fun k c' h => ?_) ?_
          · obtain hmem | hmem := List.mem_append.1 hmem
            · obtain ⟨c', w', d', hamong, h⟩ := hran.result hmem
              exact ⟨c', w', d', hin hamong, h⟩
            · obtain rfl := List.mem_singleton.1 hmem
              exact ⟨_, _, _, .elseList hbranch hadjust₃, hreturns₂⟩
          · rintro rfl
            simp at hmem
          · obtain hamong | h | ⟨-, w₃, d₅, hbranch', rfl, hc'⟩ := calls_of_object hop htype2 rfl hadjust h
            · refine (hran.among hpkg.le_end hamong).imp_left fun ⟨w', d', r, h, hmem⟩ => ?_
              exact ⟨w', d', r, h, List.mem_append_left _ hmem⟩
            · exact .inr h
            · obtain ⟨rfl, rfl⟩ := hbranch.unique hbranch' hdata
              obtain rfl | ⟨pkg', hadjust', rfl⟩ := hc'
              · exact .inr (harmless_pkgLength hadjust₃)
              · cases hadjust₃.symm.trans hadjust'
                exact .inl ⟨_, _, _, hreturns₂, by simp⟩
          · simp [Node.Complete]

/-- **The cases of `parse_term_obj`** -/
theorem parseObject_sourced {code : Opcode} (hop : data.consumeOpcode mem = done (code, d))
    (htype2 : ¬ isType2Opcode code)
    (h : parseObject mem fuel (parseTermList mem fuel) (parseObjectList mem fuel) code w d =
      done (w', d', n)) : Sourced mem ⟨.termObj, w, data⟩ (nodeTrees n) := by
  have hfields (hps : objectPieces code = [.call .termArg .unchecked, .call .termArg .unchecked,
      .call .nameString .tested]) (hflat : packagePieces code = none)
      (h : parseDefCreateFieldOf mem fuel code w d = done (w', d', n)) :
      Sourced mem ⟨.termObj, w, data⟩ (nodeTrees n) :=
    parseDefCreateFieldOf_sourced hdata hop htype2 hflat hps h
  have hplain (d d' : ParseState) (w : World) (rs : List (Check × Option (List Node)))
      (h : (pure d : Outcome ParseState) = done d') (hran : Ran mem [.call .objectList .tested] w d' rs) :
      Ran mem ([] ++ [.call .objectList .tested]) w d rs := by
    cases h
    exact hran
  rw [parseObject.eq_def] at h
  split at h
  case h_1 => exact parseDefName_sourced hdata hop h
  case h_2 => exact parseDefScope_sourced hdata hop h
  case h_3 => exact parseDefMethod_sourced hdata hop h
  case h_4 => exact parseDefStore_sourced hdata hop h
  case h_5 => exact parseDefNotify_sourced hdata hop h
  case h_11 => exact parseDefIfElse_sourced hdata hop h
  case h_12 => exact parseDefWhile_sourced hdata hop h
  case h_13 =>
    cases h
    exact .of_flat hop htype2 hdata rfl .nil (by simp)
  case h_14 => exact parseDefReturn_sourced hdata hop h
  case h_15 => exact parseDefMutex_sourced hdata hop h
  case h_16 => exact parseDefCreateField_sourced hdata hop h
  case h_17 => exact parseDefFatal_sourced hdata hop h
  case h_18 => exact parseDefOpRegion_sourced hdata hop h
  case h_19 => exact parseDefField_sourced hdata hop h
  case h_20 => exact parseDefContainer_sourced hdata [] hop htype2 (by simp) rfl hplain h
  case h_21 =>
    refine parseDefContainer_sourced hdata [.bytes 1, .bytes 4, .bytes 1] hop htype2 (by simp) rfl
      (fun d d' w rs h hran => ?_) h
    obtain ⟨⟨_, d₁⟩, h₁, h⟩ := bind_eq_done.1 h
    obtain ⟨⟨_, d₂⟩, h₂, h⟩ := bind_eq_done.1 h
    obtain ⟨⟨_, d₃⟩, h₃, h⟩ := bind_eq_done.1 h
    cases h
    exact .bytes (skip_of_consume h₁) (.bytes (skip_of_consumeNumber h₂) (.bytes (skip_of_consume h₃) hran))
  case h_22 =>
    refine parseDefContainer_sourced hdata [.bytes 1, .bytes 2] hop htype2 (by simp) rfl
      (fun d d' w rs h hran => ?_) h
    obtain ⟨⟨_, d₁⟩, h₁, h⟩ := bind_eq_done.1 h
    obtain ⟨⟨_, d₂⟩, h₂, h⟩ := bind_eq_done.1 h
    cases h
    exact .bytes (skip_of_consume h₁) (.bytes (skip_of_consumeNumber h₂) hran)
  case h_23 => exact parseDefContainer_sourced hdata [] hop htype2 (by simp) rfl hplain h
  case h_24 => exact parseDefIndexField_sourced hdata hop h
  case h_25 =>
    obtain ⟨_, -, h⟩ := bind_eq_done.1 h
    cases h
  all_goals exact hfields rfl rfl h

end Packages

end Cases

/-! ## Lists -/

section Lists

variable (hdata : data.begin_ ≤ data.end_)

include hdata

theorem parseTermObj_sourced {n : Option Node} (h : parseTermObj mem fuel w data = done (w', d, n)) :
    Sourced mem ⟨.termObj, w, data⟩ (nodeTrees n) := by
  obtain _ | fuel := fuel
  · rw [parseTermObj] at h
    cases h
  rw [parseTermObj] at h
  obtain ⟨code, hpeek, h⟩ := bind_eq_done.1 h
  split at h
  case isTrue htype2 =>
    obtain ⟨⟨d₁, t⟩, hterm, h⟩ := bind_eq_done.1 h
    cases h
    have hreturns : Returns mem ⟨.type2Opcode, w, data⟩ w d (nodeTrees (t.map Node.term)) := by
      have hterm : Returns mem ⟨.type2Opcode, w, data⟩ w d (termTrees t) := returns_term rfl hterm
      cases t <;> exact hterm
    refine .same (not_unresolved (by simp)) hdata (.operator hpeek htype2) (fun k c'' h => ?_) hreturns
    cases h with
    | first _ hdispatch => cases hdispatch
    | body hamong => cases hamong
    | behind hop hamong =>
      cases hpeek.symm.trans (consumeOpcode_eq_done hop).1
      rw [ParseFunction.behind, if_pos htype2] at hamong
      cases hamong
    | operator => exact ⟨rfl, rfl⟩
    | pkgLength hop hps =>
      cases hpeek.symm.trans (consumeOpcode_eq_done hop).1
      rw [ParseFunction.inPackage, if_pos htype2] at hps
      cases hps
    | inPackage hop hps =>
      cases hpeek.symm.trans (consumeOpcode_eq_done hop).1
      rw [ParseFunction.inPackage, if_pos htype2] at hps
      cases hps
    | object hlist => obtain h | h := hlist <;> cases h
    | elseLength hbranch =>
      obtain ⟨hop, -⟩ := hbranch
      cases hpeek.symm.trans (consumeOpcode_eq_done hop).1
      exact absurd htype2 (by decide)
    | elseList hbranch =>
      obtain ⟨hop, -⟩ := hbranch
      cases hpeek.symm.trans (consumeOpcode_eq_done hop).1
      exact absurd htype2 (by decide)
  case isFalse htype2 =>
    obtain ⟨⟨code', d₁⟩, hop, h⟩ := bind_eq_done.1 h
    cases hpeek.symm.trans (consumeOpcode_eq_done hop).1
    exact parseObject_sourced hdata hop htype2 h

omit hdata in
/-- The calls of a list are those for its objects. -/
theorem calls_of_list (hf : f = .termList ∨ f = .objectList) (h : Calls mem k ⟨f, w, data⟩ c') :
    k = .tested ∧ ∃ w₁ d₁, Objects mem w data w₁ d₁ ∧ d₁.begin_ ≠ d₁.end_ ∧ c' = ⟨.termObj, w₁, d₁⟩ := by
  cases h with
  | first _ hdispatch => obtain rfl | rfl := hf <;> cases hdispatch
  | body hamong => obtain rfl | rfl := hf <;> cases hamong
  | behind _ hamong => obtain rfl | rfl := hf <;> cases hamong
  | pkgLength _ hps => obtain rfl | rfl := hf <;> cases hps
  | inPackage _ hps => obtain rfl | rfl := hf <;> cases hps
  | object _ hobjects hne => exact ⟨rfl, _, _, hobjects, hne, rfl⟩
  | _ => obtain h | h := hf <;> cases h

omit hdata in
theorem Objects.cons {w₁ w₂ : World} {d₁ : ParseState} {ns : List Node} (hne : data.begin_ ≠ data.end_)
    (hreturns : Returns mem ⟨.termObj, w, data⟩ w₁ d₁ (some ns)) (h : Objects mem w₁ d₁ w₂ d) :
    Objects mem w data w₂ d := by
  induction h with
  | start => exact .next .start hne hreturns
  | next _ hne' hreturns' ih => exact .next ih hne' hreturns'

omit hdata in
/-- The objects of a list from a view on: the first one, and those behind it -/
theorem objects_cons {w₂ : World} (h : Objects mem w data w₂ d) : w₂ = w ∧ d = data ∨
    data.begin_ ≠ data.end_ ∧ ∃ w₁ d₁ ns, Returns mem ⟨.termObj, w, data⟩ w₁ d₁ (some ns) ∧
      Objects mem w₁ d₁ w₂ d := by
  induction h with
  | start => exact .inl ⟨rfl, rfl⟩
  | next hobjects hne hreturns ih =>
    obtain ⟨rfl, rfl⟩ | ⟨hne₁, w₁, d₁, ns, hreturns₁, hobjects₁⟩ := ih
    · exact .inr ⟨hne, _, _, _, hreturns, .start⟩
    · exact .inr ⟨hne₁, w₁, d₁, ns, hreturns₁, .next hobjects₁ hne hreturns⟩

/-- The loop over the objects of a list returns none, or all of its calls returned nodes. -/
theorem parseObjects_complete {objs : List Node}
    (h : parseList Node.opcode destroyAll (parseTermObj mem fuel) n w data objs = done (w', d, r)) :
    (r = none → ∃ w₁ d₁ w₂ d₂, Objects mem w data w₁ d₁ ∧ d₁.begin_ ≠ d₁.end_ ∧
      Returns mem ⟨.termObj, w₁, d₁⟩ w₂ d₂ none) ∧
    (∀ ns, r = some ns →
      (∀ w₁ d₁, Objects mem w data w₁ d₁ → d₁.begin_ ≠ d₁.end_ →
        ∃ w₂ d₂ ns, Returns mem ⟨.termObj, w₁, d₁⟩ w₂ d₂ (some ns)) ∧
      (nodesComplete ns ↔ nodesComplete objs ∧ ∀ w₁ d₁ w₂ d₂ r, Objects mem w data w₁ d₁ →
        d₁.begin_ ≠ d₁.end_ → Returns mem ⟨.termObj, w₁, d₁⟩ w₂ d₂ r → Keeps .tested r)) := by
  induction n generalizing w data objs with
  | zero => cases h
  | succ n ih =>
    rw [parseList] at h
    split at h
    case isTrue hend =>
      have hnone {w₁ : World} {d₁ : ParseState} (hobjects : Objects mem w data w₁ d₁)
          (hne : d₁.begin_ ≠ d₁.end_) : False := by
        have hrest := hobjects.rest hdata
        have hle := hrest.begin_le
        have hle' := hrest.le_end
        have heq := hrest.end_eq
        omega
      cases h
      refine ⟨(by simp), fun ns hns => ?_⟩
      cases hns
      exact ⟨fun w₁ d₁ hobjects hne => (hnone hobjects hne).elim, (and_iff_left fun w₁ d₁ w₂ d₂ r hobjects hne =>
        (hnone hobjects hne).elim).symm⟩
    case isFalse hne =>
      obtain ⟨⟨w₁, d₁, res⟩, hfirst, h⟩ := bind_eq_done.1 h
      have hreturns := returns_termObj hfirst
      cases res with
      | none =>
        obtain ⟨_, -, h⟩ := bind_eq_done.1 h
        cases h
        exact ⟨fun _ => ⟨w, data, w₁, d, .start, hne, hreturns⟩, (by simp)⟩
      | some obj =>
        have halive : obj.opcode ≠ .deadScope :=
          (hreturns.extent hdata).alive [obj] rfl obj (List.mem_singleton_self _)
        have hd₁ : Rest data d₁ := hreturns.rest hdata
        dsimp only at h
        rw [if_pos halive] at h
        obtain ⟨hfailed, hsome⟩ := ih hd₁.le_end h
        refine ⟨fun hr => ?_, fun ns hns => ⟨fun w₂ d₂ hobjects hne₂ => ?_, ?_⟩⟩
        · obtain ⟨w₂, d₂, w₃, d₃, hobjects, hne₂, hreturns₂⟩ := hfailed hr
          exact ⟨w₂, d₂, w₃, d₃, .cons hne hreturns hobjects, hne₂, hreturns₂⟩
        · obtain ⟨rfl, rfl⟩ | ⟨-, w₃, d₃, ns₃, hreturns₃, hobjects₃⟩ := objects_cons hobjects
          · exact ⟨_, _, _, hreturns⟩
          · obtain ⟨rfl, rfl, -⟩ := hreturns.unique hreturns₃ hdata
            exact (hsome ns hns).1 w₂ d₂ hobjects₃ hne₂
        · rw [(hsome ns hns).2, nodesComplete_append]
          constructor
          · rintro ⟨⟨hobjs, hobj⟩, hkeeps⟩
            refine ⟨hobjs, fun w₂ d₂ w₄ d₄ r hobjects hne₂ hreturns₂ => ?_⟩
            obtain ⟨rfl, rfl⟩ | ⟨-, w₃, d₃, ns₃, hreturns₃, hobjects₃⟩ := objects_cons hobjects
            · obtain ⟨-, -, rfl⟩ := hreturns.unique hreturns₂ hdata
              exact hobj
            · obtain ⟨rfl, rfl, -⟩ := hreturns.unique hreturns₃ hdata
              exact hkeeps w₂ d₂ w₄ d₄ r hobjects₃ hne₂ hreturns₂
          · rintro ⟨hobjs, hkeeps⟩
            refine ⟨⟨hobjs, hkeeps w data w₁ d₁ _ .start hne hreturns⟩,
              fun w₂ d₂ w₄ d₄ r hobjects hne₂ hreturns₂ => ?_⟩
            exact hkeeps w₂ d₂ w₄ d₄ r (.cons hne hreturns hobjects) hne₂ hreturns₂

theorem parseList_sourced (hf : f = .termList ∨ f = .objectList)
    (h : parseList Node.opcode destroyAll (parseTermObj mem fuel) n w data [] = done (w', d, r)) :
    Sourced mem ⟨f, w, data⟩ r := by
  have hcall {w₁ : World} {d₁ : ParseState} (hobjects : Objects mem w data w₁ d₁) (hne : d₁.begin_ ≠ d₁.end_) :
      Calls mem .tested ⟨f, w, data⟩ ⟨.termObj, w₁, d₁⟩ := .object hf hobjects hne
  obtain ⟨hfailed, hsome⟩ := parseObjects_complete hdata h
  cases r with
  | none =>
    obtain ⟨w₁, d₁, w₂, d₂, hobjects, hne, hreturns⟩ := hfailed rfl
    exact .of_failed (hcall hobjects hne) hreturns
  | some ns =>
    obtain ⟨hreturn, hcomplete⟩ := hsome ns rfl
    refine ⟨nofun, fun _ => not_unresolved ?_, fun _ k c' h => ?_, fun ns' hns' => ?_⟩
    · obtain rfl | rfl := hf <;> nofun
    · obtain ⟨-, w₁, d₁, hobjects, hne, rfl⟩ := calls_of_list hf h
      obtain ⟨w₂, d₂, ns₂, hreturns⟩ := hreturn w₁ d₁ hobjects hne
      exact ⟨w₂, d₂, some ns₂, hreturns, fun _ => nofun⟩
    · cases hns'
      refine (hcomplete.trans (and_iff_right trivial)).trans ⟨fun hkeeps k c' w₂ d₂ r h hreturns => ?_,
        fun hkeeps w₁ d₁ w₂ d₂ r hobjects hne hreturns => hkeeps _ _ w₂ d₂ r (hcall hobjects hne) hreturns⟩
      obtain ⟨rfl, w₁, d₁, hobjects, hne, rfl⟩ := calls_of_list hf h
      exact hkeeps w₁ d₁ w₂ d₂ r hobjects hne hreturns

/-! ## Fields -/

theorem parseNamedField_sourced {n : Option Node} (h : parseNamedField mem w data = done (w', d, n)) :
    (∃ n', n = some n' ∧ n'.Complete) ∧ Sourced mem ⟨.namedField, w, data⟩ (nodeTrees n) := by
  obtain ⟨-, h⟩ := require_bind_eq_done.1 h
  obtain ⟨_, -, h⟩ := bind_eq_done.1 h
  obtain ⟨-, h⟩ := require_bind_eq_done.1 h
  obtain ⟨name, -, h⟩ := bind_eq_done.1 h
  obtain ⟨d₁, hskip, h⟩ := bind_eq_done.1 h
  obtain ⟨⟨d₂, len⟩, hlen, h⟩ := bind_eq_done.1 h
  obtain ⟨⟨reg, w₁⟩, -, h⟩ := bind_eq_done.1 h
  obtain ⟨⟨w₂, this⟩, -, h⟩ := bind_eq_done.1 h
  cases h
  refine ⟨⟨_, rfl, trivial⟩, .of_harmless (not_unresolved nofun) hdata (fun k c' h => ?_) ⟨trivial, trivial⟩⟩
  have hreturns : Returns mem ⟨.pkgLength, w, d₁⟩ w d (some []) := by
    refine ⟨0, ?_⟩
    simp only [ParseFunction.result, hlen, done_bind]
    rfl
  cases h with
  | first _ hdispatch => cases hdispatch
  | body hamong =>
    cases hamong with
    | bytes hskip' hamong =>
      cases hskip.symm.trans hskip'
      cases hamong with
      | here => exact ⟨w, d, [], hreturns, trivial⟩
      | call _ _ hamong => cases hamong
  | behind _ hamong => cases hamong
  | pkgLength _ hps => cases hps
  | inPackage _ hps => cases hps
  | object hlist => obtain h | h := hlist <;> cases h

omit hdata in
/-- The fields of a list from a view on: the first one, and those behind it -/
theorem fields_cons {w₂ : World} (h : Fields mem w data w₂ d) : w₂ = w ∧ d = data ∨
    (∃ d₁ w₁ d₂ r, data.consume mem = done (0, d₁) ∧ Returns mem ⟨.pkgLength, w, d₁⟩ w₁ d₂ r ∧
      Fields mem w₁ d₂ w₂ d) ∨
    (∃ d₁ d₂, data.consume mem = done (1, d₁) ∧ d₁.skip 2 = done d₂ ∧ Fields mem w d₂ w₂ d) ∨
    ∃ b w₁ d₁ r, data.peek mem = done b ∧ isLeadNameChar b ∧ Returns mem ⟨.namedField, w, data⟩ w₁ d₁ r ∧
      Fields mem w₁ d₁ w₂ d := by
  induction h with
  | start => exact .inl ⟨rfl, rfl⟩
  | reserved _ hconsume hreturns ih =>
    obtain ⟨rfl, rfl⟩ | ⟨d₁, w₁, d₂, r, hc, hr, hf⟩ | ⟨d₁, d₂, hc, hs, hf⟩ | ⟨b, w₁, d₁, r, hb, hl, hr, hf⟩ := ih
    · exact .inr (.inl ⟨_, _, _, _, hconsume, hreturns, .start⟩)
    · exact .inr (.inl ⟨d₁, w₁, d₂, r, hc, hr, .reserved hf hconsume hreturns⟩)
    · exact .inr (.inr (.inl ⟨d₁, d₂, hc, hs, .reserved hf hconsume hreturns⟩))
    · exact .inr (.inr (.inr ⟨b, w₁, d₁, r, hb, hl, hr, .reserved hf hconsume hreturns⟩))
  | access _ hconsume hskip ih =>
    obtain ⟨rfl, rfl⟩ | ⟨d₁, w₁, d₂, r, hc, hr, hf⟩ | ⟨d₁, d₂, hc, hs, hf⟩ | ⟨b, w₁, d₁, r, hb, hl, hr, hf⟩ := ih
    · exact .inr (.inr (.inl ⟨_, _, hconsume, hskip, .start⟩))
    · exact .inr (.inl ⟨d₁, w₁, d₂, r, hc, hr, .access hf hconsume hskip⟩)
    · exact .inr (.inr (.inl ⟨d₁, d₂, hc, hs, .access hf hconsume hskip⟩))
    · exact .inr (.inr (.inr ⟨b, w₁, d₁, r, hb, hl, hr, .access hf hconsume hskip⟩))
  | named _ hpeek hlead hreturns ih =>
    obtain ⟨rfl, rfl⟩ | ⟨d₁, w₁, d₂, r, hc, hr, hf⟩ | ⟨d₁, d₂, hc, hs, hf⟩ | ⟨b, w₁, d₁, r, hb, hl, hr, hf⟩ := ih
    · exact .inr (.inr (.inr ⟨_, _, _, _, hpeek, hlead, hreturns, .start⟩))
    · exact .inr (.inl ⟨d₁, w₁, d₂, r, hc, hr, .named hf hpeek hlead hreturns⟩)
    · exact .inr (.inr (.inl ⟨d₁, d₂, hc, hs, .named hf hpeek hlead hreturns⟩))
    · exact .inr (.inr (.inr ⟨b, w₁, d₁, r, hb, hl, hr, .named hf hpeek hlead hreturns⟩))

omit hdata in
/-- The calls for the field at the front of a view are harmless. -/
structure FieldParsed (mem : Memory) (w : World) (data : ParseState) : Prop where
  /-- the length of a reserved field -/
  reserved : ∀ d, data.consume mem = done (0, d) → Harmless mem ⟨.pkgLength, w, d⟩
  /-- a named field -/
  named : ∀ b, data.peek mem = done b → isLeadNameChar b → Harmless mem ⟨.namedField, w, data⟩

/-- The loop over the fields of a list returns them, after all of their calls returned. -/
theorem parseFieldListFrom_complete {elements : List Node} (helements : nodesComplete elements)
    (h : parseFieldListFrom mem fuel elements w data = done (w', d, r)) :
    (∃ ns, r = some ns ∧ nodesComplete ns) ∧
      ∀ w₁ d₁, Fields mem w data w₁ d₁ → FieldParsed mem w₁ d₁ := by
  induction fuel generalizing elements w data with
  | zero => cases h
  | succ fuel ih =>
    rw [parseFieldListFrom] at h
    dsimp only at h
    split at h
    case isTrue hend =>
      cases h
      refine ⟨⟨elements, rfl, helements⟩, fun w₁ d₁ hfields => ?_⟩
      have hrest := hfields.rest hdata
      have hbegin := hrest.begin_le
      have hle := hrest.le_end
      have heq := hrest.end_eq
      constructor
      · intro d₂ hconsume
        obtain ⟨-, -, hlt⟩ := consume_eq_done hconsume
        omega
      · intro b hb
        have hsize := (require_bind_eq_done.1 hb).1
        rw [size] at hsize
        omega
    case isFalse hne =>
      obtain ⟨first, hfirst, h⟩ := bind_eq_done.1 h
      have hbyte {b : UInt8} {d₁ : ParseState} (h : data.consume mem = done (b, d₁)) : b = first := by
        obtain ⟨hb, -⟩ := consume_eq_done h
        cases hb.symm.trans (peek_eq_done hfirst)
        rfl
      split at h
      case isTrue hzero =>
        obtain ⟨⟨b, d₁⟩, hconsume, h⟩ := bind_eq_done.1 h
        obtain ⟨⟨d₂, len⟩, hlen, h⟩ := bind_eq_done.1 h
        have hd₁ := shorter_of_consume hconsume
        have hreturns : Returns mem ⟨.pkgLength, w, d₁⟩ w d₂ (some []) := by
          refine ⟨0, ?_⟩
          simp only [ParseFunction.result, hlen, done_bind]
          rfl
        have hnotLead {b : UInt8} (hb : data.peek mem = done b) : ¬ isLeadNameChar b := by
          cases hfirst.symm.trans hb
          rw [hzero]
          decide
        obtain ⟨hns, hrest⟩ := ih (hreturns.rest hd₁.le_end).le_end
          (nodesComplete_snoc helements (n := .term (.simple _)) trivial) h
        refine ⟨hns, fun w₁ d₃ hfields => ?_⟩
        obtain ⟨rfl, rfl⟩ | ⟨d₄, w₄, d₅, r', hconsume', hreturns', hfields'⟩ | ⟨d₄, d₅, hconsume', -⟩ |
          ⟨b', _, _, _, hb', hlead, -⟩ := fields_cons hfields
        · refine ⟨fun d₄ hconsume' => ?_, fun b' hb' hlead => absurd hlead (hnotLead hb')⟩
          cases hconsume.symm.trans hconsume'
          exact ⟨_, d₂, [], hreturns, trivial⟩
        · cases hconsume.symm.trans hconsume'
          obtain ⟨rfl, rfl, -⟩ := hreturns.unique hreturns' hd₁.le_end
          exact hrest w₁ d₃ hfields'
        · exact absurd ((hbyte hconsume').trans hzero) (by decide)
        · exact absurd hlead (hnotLead hb')
      case isFalse hnonzero =>
        split at h
        case isTrue hone =>
          obtain ⟨⟨b, d₁⟩, hconsume, h⟩ := bind_eq_done.1 h
          obtain ⟨⟨b₂, d₂⟩, hconsume₂, h⟩ := bind_eq_done.1 h
          obtain ⟨⟨b₃, d₃⟩, hconsume₃, h⟩ := bind_eq_done.1 h
          have hd := ((shorter_of_consume hconsume).trans (shorter_of_consume hconsume₂)).trans
            (shorter_of_consume hconsume₃)
          have hnotLead {b : UInt8} (hb : data.peek mem = done b) : ¬ isLeadNameChar b := by
            cases hfirst.symm.trans hb
            rw [hone]
            decide
          obtain ⟨hns, hrest⟩ := ih hd.le_end (nodesComplete_snoc helements (n := .term (.simple _)) trivial) h
          refine ⟨hns, fun w₁ d₄ hfields => ?_⟩
          obtain ⟨rfl, rfl⟩ | ⟨d₅, w₅, d₆, r', hconsume', -⟩ | ⟨d₅, d₆, hconsume', hskip, hfields'⟩ |
            ⟨b', _, _, _, hb', hlead, -⟩ := fields_cons hfields
          · refine ⟨fun d₅ hconsume' => ?_, fun b' hb' hlead => absurd hlead (hnotLead hb')⟩
            exact absurd (hbyte hconsume').symm hnonzero
          · exact absurd (hbyte hconsume').symm hnonzero
          · cases hconsume.symm.trans hconsume'
            obtain ⟨-, rfl, -⟩ := consume_eq_done hconsume₂
            obtain ⟨-, rfl, -⟩ := consume_eq_done hconsume₃
            obtain ⟨-, hskip⟩ := require_bind_eq_done.1 hskip
            cases hskip
            exact hrest w₁ d₄ hfields'
          · exact absurd hlead (hnotLead hb')
        case isFalse hnotOne =>
          split at h
          case isTrue hlead =>
            obtain ⟨⟨w₁, d₁, field⟩, hfield, h⟩ := bind_eq_done.1 h
            obtain ⟨⟨n, rfl, hn⟩, -⟩ := parseNamedField_sourced hdata hfield
            have hreturns : Returns mem ⟨.namedField, w, data⟩ w₁ d₁ (some [n]) := by
              refine ⟨0, ?_⟩
              simp only [ParseFunction.result, hfield, done_bind]
              rfl
            obtain ⟨hns, hrest⟩ := ih (hreturns.rest hdata).le_end
              (nodesComplete_snoc helements hn) h
            refine ⟨hns, fun w₂ d₂ hfields => ?_⟩
            obtain ⟨rfl, rfl⟩ | ⟨d₃, w₃, d₄, r', hconsume', -⟩ | ⟨d₃, d₄, hconsume', -⟩ |
              ⟨b', w₃, d₃, r', hb', -, hreturns', hfields'⟩ := fields_cons hfields
            · refine ⟨fun d₅ hconsume' => absurd (hbyte hconsume').symm hnonzero, fun b' hb' hlead => ?_⟩
              exact ⟨w₁, d₁, [n], hreturns, hn, trivial⟩
            · exact absurd (hbyte hconsume').symm hnonzero
            · exact absurd (hbyte hconsume').symm hnotOne
            · obtain ⟨rfl, rfl, -⟩ := hreturns.unique hreturns' hdata
              exact hrest w₂ d₂ hfields'
          case isFalse => cases h

theorem parseFieldList_sourced (h : parseFieldList mem fuel w data = done (w', d, r)) :
    Sourced mem ⟨.fieldList, w, data⟩ r := by
  obtain ⟨⟨ns, rfl, hns⟩, hfields⟩ := parseFieldListFrom_complete hdata nodesComplete_nil h
  refine .of_harmless (not_unresolved nofun) hdata (fun k c' h => ?_) hns
  cases h with
  | first _ hdispatch => cases hdispatch
  | body hamong => cases hamong
  | behind _ hamong => cases hamong
  | pkgLength _ hps => cases hps
  | inPackage _ hps => cases hps
  | object hlist => obtain h | h := hlist <;> cases h
  | reserved hf hconsume => exact (hfields _ _ hf).reserved _ hconsume
  | named hf hb hlead => exact (hfields _ _ hf).named _ hb hlead

omit hdata in
/-- **The results of a call come from those of its calls.** -/
theorem Returns.sourced (h : Returns mem c w d r) (hc : c.data.begin_ ≤ c.data.end_) : Sourced mem c r := by
  obtain ⟨fuel, h⟩ := h
  obtain ⟨f, w₀, data⟩ := c
  have hleaf (hf : f.rank = 0) (hr : r = some []) : Sourced mem ⟨f, w₀, data⟩ r := by
    rw [hr]
    refine .of_harmless (not_unresolved ?_) hc (fun k c' hcalls => absurd hcalls (not_calls_of_rank hf)) trivial
    rintro rfl
    cases hf
  have hterm (hf : f.isTerm = true)
      (h : (f.term mem fuel w₀ data >>= fun r => pure (w₀, r.1, termTrees r.2)) = done (w, d, r)) :
      Sourced mem ⟨f, w₀, data⟩ r := by
    obtain ⟨⟨d₁, t⟩, hrun, h⟩ := bind_eq_done.1 h
    cases h
    exact term_sourced hc hf hrun
  cases f with
  | pkgLength | nameString | fieldFlags =>
    obtain ⟨_, -, h⟩ := bind_eq_done.1 h
    cases h
    exact hleaf rfl rfl
  | namedField =>
    obtain ⟨⟨w₁, d₁, n⟩, hrun, h⟩ := bind_eq_done.1 h
    cases h
    exact (parseNamedField_sourced hc hrun).2
  | fieldList => exact parseFieldList_sourced hc h
  | termObj =>
    obtain ⟨⟨w₁, d₁, n⟩, hrun, h⟩ := bind_eq_done.1 h
    cases h
    exact parseTermObj_sourced hc hrun
  | objectList =>
    obtain _ | fuel := fuel
    · rw [ParseFunction.result, parseObjectList] at h
      cases h
    · rw [ParseFunction.result, parseObjectList] at h
      exact parseList_sourced hc (.inr rfl) h
  | termList =>
    obtain _ | fuel := fuel
    · rw [ParseFunction.result, parseTermList] at h
      cases h
    · rw [ParseFunction.result, parseTermList] at h
      exact parseList_sourced hc (.inl rfl) h
  | _ => exact hterm rfl h

end Lists

end Attos.Aml

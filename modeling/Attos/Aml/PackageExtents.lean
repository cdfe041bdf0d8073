import Attos.Aml.CallExtents

/-!
# The extents of packages

A construct with a package (`PackageOf`) parses its content from the view of the package,
and goes on behind it. A conditional has a second package for its else branch. The length of
a package counts from the begin of the length.

When a function returns no node, its caller does not parse on from the state that is
returned. Then that state may be one in a package that the function failed in
(`failedPredicate`).
-/

namespace Attos.Aml

open Lib Outcome ParseState

/-- The packages of a construct, each with the view behind its opcode. -/
inductive PackageOf (mem : Memory) (c : Call) : ParseState → ParseState → Prop where
  /-- the package behind the opcode of the construct -/
  | construct {code : Opcode} {d pkg : ParseState} : c.data.consumeOpcode mem = done (code, d) →
      (c.f.inPackage code).isSome → adjustWithPkgLength mem d = done pkg → PackageOf mem c d pkg
  /-- the package of an else branch, behind that of the if branch -/
  | else_ {op : Opcode} {d pkg d₁ elsePkg : ParseState} : c.f = .termObj →
      c.data.consumeOpcode mem = done (.if_, d) → adjustWithPkgLength mem d = done pkg →
      (d.movedTo pkg.end_).startsWithElse mem = done true →
      (d.movedTo pkg.end_).consumeOpcode mem = done (op, d₁) →
      adjustWithPkgLength mem d₁ = done elsePkg → PackageOf mem c d₁ elsePkg

variable {mem : Memory} {fuel : ℕ} {c c' : Call} {w w' : World} {data d d' pkg : ParseState} {k : Check}
  {code : Opcode} {termList objectList : Parse (List Node)} {n : Node}

/-! ## Where parsing goes on -/

/-- An object without a conditional goes on behind its package. -/
def Resumes (mem : Memory) (d d' : ParseState) : Prop :=
  ∃ pkg, adjustWithPkgLength mem d = done pkg ∧ d' = d.movedTo pkg.end_

theorem parseDefScope_resumes (h : parseDefScope mem fuel termList w d = done (w', d', some n)) :
    Resumes mem d d' := by
  obtain ⟨pkg, hadjust, h⟩ := bind_eq_done.1 h
  obtain ⟨_, -, h⟩ := bind_eq_done.1 h
  obtain ⟨_, -, h⟩ := bind_eq_done.1 h
  obtain ⟨_, -, h⟩ := bind_eq_done.1 h
  obtain ⟨_, -, h⟩ := bind_eq_done.1 h
  obtain ⟨_, -, h⟩ := bind_eq_done.1 h
  obtain ⟨found, -, h⟩ := bind_eq_done.1 h
  cases found with
  | none =>
    obtain ⟨_, -, h⟩ := bind_eq_done.1 h
    cases h
    exact ⟨pkg, hadjust, rfl⟩
  | some found =>
    obtain ⟨_, -, h⟩ := bind_eq_done.1 h
    obtain ⟨_, -, h⟩ := bind_eq_done.1 h
    obtain ⟨_, -, h⟩ := bind_eq_done.1 h
    obtain ⟨_, -, h⟩ := bind_eq_done.1 h
    obtain ⟨_, -, h⟩ := bind_eq_done.1 h
    cases h
    exact ⟨pkg, hadjust, rfl⟩

/-- The body of a method is the rest of its package. -/
theorem parseDefMethod_resumes (hd : d.begin_ ≤ d.end_)
    (h : parseDefMethod mem w d = done (w', d', some n)) :
    ∃ pkg, adjustWithPkgLength mem d = done pkg ∧ d' = d.movedTo pkg.end_ ∧
      ∃ this name flags statements, n = .method this name flags statements ∧ Shorter pkg statements := by
  obtain ⟨pkg, hadjust, h⟩ := bind_eq_done.1 h
  obtain ⟨⟨d₁, name⟩, hparse, h⟩ := bind_eq_done.1 h
  obtain ⟨_, -, h⟩ := bind_eq_done.1 h
  obtain ⟨⟨flags, d₂⟩, hconsume, h⟩ := bind_eq_done.1 h
  obtain ⟨⟨_, this⟩, -, h⟩ := bind_eq_done.1 h
  cases h
  have hpkg := package_of_adjustWithPkgLength hd hadjust
  have hshort := (shorter_of_parseNameString hpkg.le_end hparse).trans (shorter_of_consume hconsume)
  exact ⟨pkg, hadjust, congrArg d.movedTo hshort.end_eq, this, name, flags, d₂, rfl, hshort⟩

theorem parseDefWhile_resumes (h : parseDefWhile mem fuel termList w d = done (w', d', some n)) :
    Resumes mem d d' := by
  obtain ⟨pkg, hadjust, h⟩ := bind_eq_done.1 h
  obtain ⟨⟨_, predicate⟩, -, h⟩ := bind_eq_done.1 h
  cases predicate with
  | none => cases h
  | some predicate =>
    obtain ⟨⟨_, _, statements⟩, -, h⟩ := bind_eq_done.1 h
    cases statements with
    | none => cases h
    | some statements =>
      cases h
      exact ⟨pkg, hadjust, rfl⟩

theorem parseDefField_resumes (h : parseDefField mem fuel w d = done (w', d', some n)) :
    Resumes mem d d' := by
  obtain ⟨pkg, hadjust, h⟩ := bind_eq_done.1 h
  obtain ⟨_, -, h⟩ := bind_eq_done.1 h
  obtain ⟨_, -, h⟩ := bind_eq_done.1 h
  obtain ⟨⟨_, _, fieldList⟩, -, h⟩ := bind_eq_done.1 h
  cases fieldList with
  | none => cases h
  | some fields =>
    cases h
    exact ⟨pkg, hadjust, rfl⟩

/-- The field list of an index field ends at the end of the package. -/
theorem parseDefIndexField_resumes (hd : d.begin_ ≤ d.end_)
    (h : parseDefIndexField mem fuel w d = done (w', d', some n)) : Resumes mem d d' := by
  obtain ⟨pkg, hadjust, h⟩ := bind_eq_done.1 h
  obtain ⟨⟨d₁, _⟩, hparse₁, h⟩ := bind_eq_done.1 h
  obtain ⟨⟨d₂, _⟩, hparse₂, h⟩ := bind_eq_done.1 h
  obtain ⟨⟨_, d₃⟩, hconsume, h⟩ := bind_eq_done.1 h
  obtain ⟨⟨_, d₄, fieldList⟩, hfields, h⟩ := bind_eq_done.1 h
  have hpkg := package_of_adjustWithPkgLength hd hadjust
  have hd₁ := shorter_of_parseNameString hpkg.le_end hparse₁
  have hd₂ := hd₁.trans (shorter_of_parseNameString hd₁.le_end hparse₂)
  have hd₃ := hd₂.trans (shorter_of_consume hconsume)
  have hd₄ := parseFieldListFrom_exhausted hd₃.le_end hfields
  cases fieldList with
  | none => cases h
  | some fields =>
    cases h
    exact ⟨pkg, hadjust, by rw [hd₄, hd₃.end_eq]⟩

theorem parseDefContainer_resumes {header : ParseState → Outcome ParseState}
    (h : parseDefContainer mem objectList code header w d = done (w', d', some n)) : Resumes mem d d' := by
  obtain ⟨pkg, hadjust, h⟩ := bind_eq_done.1 h
  obtain ⟨_, -, h⟩ := bind_eq_done.1 h
  obtain ⟨_, -, h⟩ := bind_eq_done.1 h
  obtain ⟨_, -, h⟩ := bind_eq_done.1 h
  obtain ⟨_, -, h⟩ := bind_eq_done.1 h
  obtain ⟨_, -, h⟩ := bind_eq_done.1 h
  obtain ⟨_, -, h⟩ := bind_eq_done.1 h
  cases h
  exact ⟨pkg, hadjust, rfl⟩

/-- A conditional goes on behind its package, or behind that of its else branch. -/
theorem parseDefIfElse_resumes (h : parseDefIfElse mem fuel termList w d = done (w', d', some n)) :
    ∃ pkg, adjustWithPkgLength mem d = done pkg ∧
      ((d.movedTo pkg.end_).startsWithElse mem = done false ∧ d' = d.movedTo pkg.end_ ∨
        (d.movedTo pkg.end_).startsWithElse mem = done true ∧
          ∃ op d₁ elsePkg, (d.movedTo pkg.end_).consumeOpcode mem = done (op, d₁) ∧
            adjustWithPkgLength mem d₁ = done elsePkg ∧ d' = d₁.movedTo elsePkg.end_) := by
  obtain ⟨pkg, hadjust, h⟩ := bind_eq_done.1 h
  obtain ⟨⟨_, predicate⟩, -, h⟩ := bind_eq_done.1 h
  cases predicate with
  | none => cases h
  | some predicate =>
    obtain ⟨⟨_, _, ifStatements⟩, -, h⟩ := bind_eq_done.1 h
    cases ifStatements with
    | none => cases h
    | some ifStatements =>
      obtain ⟨hasElse, hstarts, h⟩ := bind_eq_done.1 h
      cases hasElse with
      | false =>
        cases h
        exact ⟨pkg, hadjust, .inl ⟨hstarts, rfl⟩⟩
      | true =>
        obtain ⟨⟨op, d₁⟩, hop, h⟩ := bind_eq_done.1 h
        obtain ⟨elsePkg, hadjust', h⟩ := bind_eq_done.1 h
        obtain ⟨⟨_, _, elseStatements⟩, -, h⟩ := bind_eq_done.1 h
        cases elseStatements with
        | none =>
          obtain ⟨_, -, h⟩ := bind_eq_done.1 h
          cases h
        | some elseStatements =>
          cases h
          exact ⟨pkg, hadjust, .inr ⟨hstarts, op, d₁, elsePkg, hop, hadjust', rfl⟩⟩

/-- The cases of `parse_term_obj` with a package -/
theorem parseObject_resumes (hd : d.begin_ ≤ d.end_) (hpkg : (packagePieces code).isSome)
    (hif : code ≠ .if_)
    (h : parseObject mem fuel termList objectList code w d = done (w', d', some n)) :
    Resumes mem d d' := by
  rw [parseObject.eq_def] at h
  split at h
  case h_2 => exact parseDefScope_resumes h
  case h_3 =>
    obtain ⟨pkg, hadjust, hresume, -⟩ := parseDefMethod_resumes hd h
    exact ⟨pkg, hadjust, hresume⟩
  case h_11 => exact absurd rfl hif
  case h_12 => exact parseDefWhile_resumes h
  case h_19 => exact parseDefField_resumes h
  case h_20 => exact parseDefContainer_resumes h
  case h_21 => exact parseDefContainer_resumes h
  case h_22 => exact parseDefContainer_resumes h
  case h_23 => exact parseDefContainer_resumes h
  case h_24 => exact parseDefIndexField_resumes hd h
  case h_25 =>
    obtain ⟨_, -, h⟩ := bind_eq_done.1 h
    cases h
  all_goals cases hpkg

/-- The bytes of a buffer are the rest of its package, and a package goes on behind it. -/
theorem parseDataObject_resumes {t : Term} (hop : data.consumeOpcode mem = done (code, d))
    (hdata : data.begin_ ≤ data.end_) (hpkg : (ParseFunction.dataObject.inPackage code).isSome)
    (h : parseDataObject mem w fuel data = done (d', some t)) :
    ∃ pkg, adjustWithPkgLength mem d = done pkg ∧ d' = d.movedTo pkg.end_ ∧
      (code = .buffer → ∃ bufferSize bytes rest, t = .buffer bufferSize bytes ∧ Rest pkg rest ∧
        mem.read rest.begin_ rest.size = done bytes) := by
  obtain _ | fuel := fuel
  · rw [parseDataObject] at h
    cases h
  rw [parseDataObject] at h
  obtain ⟨⟨code', d₁⟩, hop', h⟩ := bind_eq_done.1 h
  cases hop.symm.trans hop'
  obtain ⟨-, -, h⟩ := bind_eq_done.1 h
  have hd := shorter_of_consumeOpcode hdata hop
  dsimp only at h
  split at h
  case h_9 =>
    obtain ⟨pkg, hadjust, h⟩ := bind_eq_done.1 h
    obtain ⟨⟨rest, size⟩, hsize, h⟩ := bind_eq_done.1 h
    obtain ⟨bytes, hread, h⟩ := bind_eq_done.1 h
    cases h
    have hin := package_of_adjustWithPkgLength hd.le_end hadjust
    have hreturns : Returns mem ⟨.termArg, w, pkg⟩ w rest (termTrees size) := returns_term rfl hsize
    have hextent := hreturns.extent hin.le_end
    refine ⟨pkg, hadjust, rfl, fun _ => ⟨size, bytes, rest, rfl, ?_, hread⟩⟩
    exact ⟨hextent.within.lo_le, hextent.within.le_end, hextent.end_eq (.inr rfl)⟩
  case h_10 =>
    obtain ⟨pkg, hadjust, h⟩ := bind_eq_done.1 h
    obtain ⟨_, -, h⟩ := bind_eq_done.1 h
    obtain ⟨_, -, h⟩ := bind_eq_done.1 h
    obtain ⟨_, -, h⟩ := bind_eq_done.1 h
    obtain ⟨_, -, h⟩ := bind_eq_done.1 h
    cases h
    exact ⟨pkg, hadjust, rfl, (by simp)⟩
  case h_11 =>
    obtain ⟨_, -, h⟩ := bind_eq_done.1 h
    cases h
  all_goals cases hpkg

/-! ## Where the content is parsed -/

theorem objectPieces_of_package (h : (packagePieces code).isSome) : objectPieces code = [] := by
  cases code <;> first | rfl | cases h

/-- The functions that parse constructs with a package -/
theorem function_of_package {f : ParseFunction} (h : (f.inPackage code).isSome) :
    f = .dataObject ∨ f = .termObj ∧ ¬ isType2Opcode code ∧ (packagePieces code).isSome := by
  cases f with
  | dataObject => exact .inl rfl
  | termObj =>
    simp only [ParseFunction.inPackage] at h
    split at h
    · cases h
    · exact .inr ⟨rfl, ‹_›, h⟩
  | _ => cases h

/-- A package lies in the view of its construct. -/
theorem PackageOf.within (h : PackageOf mem c d pkg) (hdata : c.data.begin_ ≤ c.data.end_) :
    Shorter c.data d ∧ Package d pkg := by
  cases h with
  | construct hop _ hadjust =>
    have hd := shorter_of_consumeOpcode hdata hop
    exact ⟨hd, package_of_adjustWithPkgLength hd.le_end hadjust⟩
  | else_ _ hop hadjust _ hop' hadjust' =>
    have hd := shorter_of_consumeOpcode hdata hop
    have hpkg := package_of_adjustWithPkgLength hd.le_end hadjust
    have hd₁ := (hd.trans hpkg.shorter).trans (shorter_of_consumeOpcode hpkg.shorter.le_end hop')
    exact ⟨hd₁, package_of_adjustWithPkgLength hd₁.le_end hadjust'⟩

/-- The length of a package counts from its own begin. -/
theorem adjustWithPkgLength_eq_done (h : adjustWithPkgLength mem d = done pkg) :
    ∃ rest len, parsePkgLength mem d = done (rest, len) ∧ pkg = ⟨rest.begin_, d.begin_ + len⟩ := by
  obtain ⟨b, hpeek, h⟩ := bind_eq_done.1 h
  obtain ⟨⟨rest, len⟩, hlen, h⟩ := bind_eq_done.1 h
  obtain ⟨hbytes, h⟩ := require_bind_eq_done.1 h
  obtain ⟨-, h⟩ := require_bind_eq_done.1 h
  cases h
  have hbegin := parsePkgLength_begin hlen (peek_eq_done hpeek)
  refine ⟨rest, len, hlen, congrArg _ ?_⟩
  rw [hbegin]
  omega

theorem PackageOf.eq_length (h : PackageOf mem c d pkg) :
    ∃ rest len, parsePkgLength mem d = done (rest, len) ∧ pkg = ⟨rest.begin_, d.begin_ + len⟩ := by
  cases h with
  | construct _ _ hadjust => exact adjustWithPkgLength_eq_done hadjust
  | else_ _ _ _ _ _ hadjust => exact adjustWithPkgLength_eq_done hadjust

/-- An object that is no operator is parsed behind its opcode. -/
theorem parseObject_of_parseTermObj {r : World × ParseState × Option Node}
    (hop : data.consumeOpcode mem = done (code, d)) (htype2 : ¬ isType2Opcode code)
    (h : parseTermObj mem fuel w data = done r) :
    ∃ fuel, parseObject mem fuel (parseTermList mem fuel) (parseObjectList mem fuel) code w d = done r := by
  obtain _ | fuel := fuel
  · rw [parseTermObj] at h
    cases h
  rw [parseTermObj] at h
  dsimp only at h
  rw [(consumeOpcode_eq_done hop).1, done_bind, if_neg htype2, hop, done_bind] at h
  exact ⟨fuel, h⟩

section Construct

variable (hop : c.data.consumeOpcode mem = done (code, d)) (hps : (c.f.inPackage code).isSome)
  (hdata : c.data.begin_ ≤ c.data.end_)

include hop hps hdata

/-- **The calls of a construct with a package** have views in one of its packages, apart from
those that parse a length. -/
theorem Calls.content (h : Calls mem k c c') :
    c'.f = .pkgLength ∨ ∃ d₁ pkg, PackageOf mem c d₁ pkg ∧ Within pkg.begin_ pkg.end_ c'.data := by
  have hf := function_of_package hps
  cases h with
  | first _ hdispatch => obtain rfl | ⟨rfl, -⟩ := hf <;> cases hdispatch
  | body hamong => obtain rfl | ⟨rfl, -⟩ := hf <;> cases hamong
  | behind hop' hamong =>
    cases hop.symm.trans hop'
    obtain rfl | ⟨rfl, htype2, hpieces⟩ := hf
    · cases hamong
    · rw [ParseFunction.behind, if_neg htype2, objectPieces_of_package hpieces] at hamong
      cases hamong
  | negation => obtain h | ⟨h, -⟩ := hf <;> cases h
  | argument => obtain h | ⟨h, -⟩ := hf <;> cases h
  | operator hpeek htype2 =>
    obtain h | ⟨-, htype2', -⟩ := hf
    · cases h
    · cases hpeek.symm.trans (consumeOpcode_eq_done hop).1
      exact absurd htype2 htype2'
  | pkgLength => exact .inl rfl
  | inPackage hop' hps' hadjust hamong =>
    have hd := shorter_of_consumeOpcode hdata hop'
    have hpkg := package_of_adjustWithPkgLength hd.le_end hadjust
    exact .inr ⟨_, _, .construct hop' (by rw [hps']; rfl) hadjust, hamong.within hpkg.le_end⟩
  | element hop' hadjust hconsume helements _ =>
    have hd := shorter_of_consumeOpcode hdata hop'
    have hpkg := package_of_adjustWithPkgLength hd.le_end hadjust
    have hd₁ := shorter_of_consume hconsume
    exact .inr ⟨_, _, .construct hop' rfl hadjust,
      (Within.refl hpkg.le_end).rest (hd₁.toRest.trans (helements.rest hd₁.le_end))⟩
  | object hlist =>
    obtain rfl | rfl := hlist <;> obtain h | ⟨h, -⟩ := hf <;> cases h
  | reserved => obtain h | ⟨h, -⟩ := hf <;> cases h
  | named => obtain h | ⟨h, -⟩ := hf <;> cases h
  | elseLength => exact .inl rfl
  | elseList hbranch hadjust' =>
    have hd := hbranch.shorter hdata
    obtain ⟨hop', hadjust, -, -, hstarts, hop''⟩ := hbranch
    exact .inr ⟨_, _, .else_ rfl hop' hadjust hstarts hop'' hadjust',
      .refl (package_of_adjustWithPkgLength hd.le_end hadjust').le_end⟩

omit hdata in
/-- A construct that is no conditional with an else branch has one package. -/
theorem PackageOf.unique {d₂ pkg₂ : ParseState} (hadjust : adjustWithPkgLength mem d = done pkg)
    (helse : code = .if_ → (d.movedTo pkg.end_).startsWithElse mem ≠ done true)
    (h : PackageOf mem c d₂ pkg₂) : pkg₂ = pkg := by
  cases h with
  | construct hop₂ _ hadjust₂ =>
    cases hop.symm.trans hop₂
    cases hadjust.symm.trans hadjust₂
    rfl
  | else_ _ hop₂ hadjust₂ hstarts =>
    cases hop.symm.trans hop₂
    cases hadjust.symm.trans hadjust₂
    exact absurd hstarts (helse rfl)

/-- **Parsing goes on behind the last package of a construct.** -/
theorem Returns.resumes {ns : List Node} (h : Returns mem c w' d' (some ns)) :
    ∃ d₁ pkg, PackageOf mem c d₁ pkg ∧ d' = ⟨pkg.end_, c.data.end_⟩ ∧
      (∀ d₂ pkg₂, PackageOf mem c d₂ pkg₂ → pkg₂.end_ ≤ pkg.end_) ∧
      (code = .method → ∃ this name flags statements, ns = [.method this name flags statements] ∧
        Within pkg.begin_ pkg.end_ statements ∧ statements.end_ = pkg.end_) ∧
      (code = .buffer → ∃ bufferSize bytes a, ns = [.term (.buffer bufferSize bytes)] ∧
        pkg.begin_ ≤ a ∧ a ≤ pkg.end_ ∧ mem.read a (pkg.end_ - a) = done bytes) := by
  have hd := shorter_of_consumeOpcode hdata hop
  obtain ⟨f, w, data⟩ := c
  obtain ⟨fuel, h⟩ := h
  obtain rfl | ⟨rfl, htype2, hpieces⟩ := function_of_package hps
  · obtain ⟨⟨d₀, t⟩, hrun, h⟩ := bind_eq_done.1 h
    cases t with
    | none => cases h
    | some t =>
      cases h
      obtain ⟨pkg, hadjust, rfl, hbytes⟩ := parseDataObject_resumes hop hdata hps hrun
      refine ⟨d, pkg, .construct hop hps hadjust, congrArg _ hd.end_eq, fun d₂ pkg₂ hpkg₂ => ?_,
        ?_, fun hbuffer => ?_⟩
      · cases hpkg₂ with
        | construct hop₂ _ hadjust₂ =>
          cases hop.symm.trans hop₂
          cases hadjust.symm.trans hadjust₂
          exact le_rfl
        | else_ hf => cases hf
      · rintro rfl
        cases hps
      · obtain ⟨bufferSize, bytes, rest, rfl, hrest, hread⟩ := hbytes hbuffer
        rw [size, hrest.end_eq] at hread
        exact ⟨bufferSize, bytes, rest.begin_, rfl, hrest.begin_le, hrest.le_end.trans hrest.end_eq.le,
          hread⟩
  · obtain ⟨⟨w₀, d₀, n⟩, hrun, h⟩ := bind_eq_done.1 h
    cases n with
    | none => cases h
    | some n =>
      cases h
      have hbuffer : code ≠ .buffer := by
        rintro rfl
        cases hpieces
      obtain ⟨fuel, hrun⟩ := parseObject_of_parseTermObj hop htype2 hrun
      by_cases hif : code = .if_
      · subst hif
        obtain ⟨pkg, hadjust, ⟨hstarts, rfl⟩ | ⟨hstarts, op, d₁, elsePkg, hop', hadjust', rfl⟩⟩ :=
          parseDefIfElse_resumes hrun
        · refine ⟨d, pkg, .construct hop hps hadjust, congrArg _ hd.end_eq, fun d₂ pkg₂ hpkg₂ => ?_,
            (by simp), (by simp)⟩
          rw [hpkg₂.unique hop hps hadjust fun _ h => by rw [hstarts] at h; cases h]
        · have hpkg := package_of_adjustWithPkgLength hd.le_end hadjust
          have hd₁ := shorter_of_consumeOpcode hpkg.shorter.le_end hop'
          have helse := package_of_adjustWithPkgLength hd₁.le_end hadjust'
          refine ⟨d₁, elsePkg, .else_ rfl hop hadjust hstarts hop' hadjust',
            congrArg _ (hd₁.end_eq.trans hd.end_eq), fun d₂ pkg₂ hpkg₂ => ?_, (by simp), (by simp)⟩
          cases hpkg₂ with
          | construct hop₂ _ hadjust₂ =>
            cases hop.symm.trans hop₂
            cases hadjust.symm.trans hadjust₂
            exact hd₁.begin_lt.le.trans (helse.begin_lt.le.trans helse.le_end)
          | else_ _ hop₂ hadjust₂ _ hop₂' hadjust₂' =>
            cases hop.symm.trans hop₂
            cases hadjust.symm.trans hadjust₂
            cases hop'.symm.trans hop₂'
            cases hadjust'.symm.trans hadjust₂'
            exact le_rfl
      by_cases hmethod : code = .method
      · subst hmethod
        obtain ⟨pkg, hadjust, rfl, this, name, flags, statements, rfl, hshort⟩ :=
          parseDefMethod_resumes hd.le_end hrun
        refine ⟨d, pkg, .construct hop hps hadjust, congrArg _ hd.end_eq, fun d₂ pkg₂ hpkg₂ => ?_,
          fun _ => ⟨this, name, flags, statements, rfl, ?_, hshort.end_eq⟩, (by simp)⟩
        · rw [hpkg₂.unique hop hps hadjust (by simp)]
        · exact (Within.refl (hshort.begin_le.trans (hshort.le_end.trans hshort.end_eq.le))).rest hshort.toRest
      · obtain ⟨pkg, hadjust, rfl⟩ := parseObject_resumes hd.le_end hpieces hif hrun
        refine ⟨d, pkg, .construct hop hps hadjust, congrArg _ hd.end_eq, fun d₂ pkg₂ hpkg₂ => ?_,
          fun h => absurd h hmethod, fun h => absurd h hbuffer⟩
        rw [hpkg₂.unique hop hps hadjust fun h => absurd h hif]

end Construct

/-- **The extents of packages.** What a parse function returns lies in its view, and has the
same end unless a function for objects returned no node. In every construct with a package
that is reached, at any depth, the length counts from its own begin, everything that is parsed
for the content lies in the package, and a construct that returns a node goes on at the end of
its last package. -/
theorem package_extents (mem : Memory) {c : Call} (hdata : c.data.begin_ ≤ c.data.end_) :
    (∀ w d r, Returns mem c w d r → Within c.data.begin_ c.data.end_ d ∧
      (r ≠ none ∨ c.f.isTerm = true → d.end_ = c.data.end_)) ∧
    ∀ c₁, Reaches mem c c₁ →
      (∀ d pkg, PackageOf mem c₁ d pkg → Within d.begin_ c₁.data.end_ pkg ∧
        ∃ rest len, parsePkgLength mem d = done (rest, len) ∧ pkg = ⟨rest.begin_, d.begin_ + len⟩) ∧
      ∀ code d, c₁.data.consumeOpcode mem = done (code, d) → (c₁.f.inPackage code).isSome →
        (∀ k c₂, Calls mem k c₁ c₂ → c₂.f = .pkgLength ∨ ∃ d₁ pkg, PackageOf mem c₁ d₁ pkg ∧
          ∀ c₃, Reaches mem c₂ c₃ → Within pkg.begin_ pkg.end_ c₃.data) ∧
        ∀ w' d' ns, Returns mem c₁ w' d' (some ns) →
          ∃ d₁ pkg, PackageOf mem c₁ d₁ pkg ∧ d' = ⟨pkg.end_, c₁.data.end_⟩ ∧
            (∀ d₂ pkg₂, PackageOf mem c₁ d₂ pkg₂ → pkg₂.end_ ≤ pkg.end_) ∧
            (code = .method → ∃ this name flags statements, ns = [.method this name flags statements] ∧
              Within pkg.begin_ pkg.end_ statements ∧ statements.end_ = pkg.end_) ∧
            (code = .buffer → ∃ bufferSize bytes a, ns = [.term (.buffer bufferSize bytes)] ∧
              pkg.begin_ ≤ a ∧ a ≤ pkg.end_ ∧ mem.read a (pkg.end_ - a) = done bytes) := by
  refine ⟨fun w d r h => ⟨(h.extent hdata).within, (h.extent hdata).end_eq⟩, fun c₁ hreach => ?_⟩
  have hdata₁ := (hreach.within hdata).le_end
  refine ⟨fun d pkg hpkg => ?_, fun code d hop hps => ⟨fun k c₂ hcalls => ?_, fun w' d' ns h => ?_⟩⟩
  · obtain ⟨hd, hin⟩ := hpkg.within hdata₁
    exact ⟨⟨hin.begin_lt.le, hin.le_end, hin.end_le.trans hd.end_eq.le⟩, hpkg.eq_length⟩
  · refine (hcalls.content hop hps hdata₁).imp_right fun ⟨d₁, pkg, hpkg, hin⟩ => ⟨d₁, pkg, hpkg, ?_⟩
    exact fun c₃ hreach' => hin.trans (hreach'.within hin.le_end)
  · exact h.resumes hop hps hdata₁

/-- `If(ABCD) {} Noop` -/
def failedPredicate : List UInt8 := [0xa0, 0x05, 0x41, 0x42, 0x43, 0x44, 0xa3]

/-- Where the name of a predicate is not bound, the view that is returned ends at the end of
the package. -/
theorem failedPredicate_end : ∃ w' d, Returns (.ofList failedPredicate)
    ⟨.termObj, ⟨⟨[], []⟩, fun _ => none, 0⟩, ⟨0, 7⟩⟩ w' d none ∧ d.end_ ≠ 7 :=
  ⟨_, ⟨6, 6⟩, ⟨10, rfl⟩, by decide⟩

/-- `Device(DEV0) { Name(ABCD, One) }` -/
def deviceCall : Call := ⟨.termObj, ⟨⟨[], []⟩, fun _ => none, 0⟩, ⟨0, 13⟩⟩

/-- The device goes on at the end of its package, whose length counts from its own begin, and all that is parsed
behind the length lies in it. -/
theorem package_extents_device : ∃ w' d' ns, Returns (.ofList deviceCode) deviceCall w' d' (some ns) ∧ Within 0 13 d' ∧
    (∃ d pkg rest len, PackageOf (.ofList deviceCode) deviceCall d pkg ∧
      parsePkgLength (.ofList deviceCode) d = done (rest, len) ∧ pkg = ⟨rest.begin_, d.begin_ + len⟩ ∧
      d' = ⟨pkg.end_, 13⟩) ∧
    ∀ k c₂, Calls (.ofList deviceCode) k deviceCall c₂ → c₂.f = .pkgLength ∨
      ∃ d₁ pkg, PackageOf (.ofList deviceCode) deviceCall d₁ pkg ∧
        ∀ c₃, Reaches (.ofList deviceCode) c₂ c₃ → Within pkg.begin_ pkg.end_ c₃.data := by
  have hreturns : Returns (.ofList deviceCode) deviceCall _ ⟨13, 13⟩ (some _) := ⟨10, rfl⟩
  have hdata : deviceCall.data.begin_ ≤ deviceCall.data.end_ := by decide
  obtain ⟨hextent, hpackages⟩ := package_extents (.ofList deviceCode) hdata
  obtain ⟨hlength, hconstruct⟩ := hpackages _ .refl
  obtain ⟨hcalls, hend⟩ := hconstruct .device ⟨2, 13⟩ rfl rfl
  obtain ⟨d, pkg, hpkg, hresumes, -⟩ := hend _ _ _ hreturns
  obtain ⟨-, rest, len, hparse, heq⟩ := hlength d pkg hpkg
  exact ⟨_, _, _, hreturns, (hextent _ _ _ hreturns).1, ⟨d, pkg, rest, len, hpkg, hparse, heq, hresumes⟩, hcalls⟩

end Attos.Aml

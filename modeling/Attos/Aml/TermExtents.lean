import Attos.Aml.Calls
import Attos.Aml.Discipline

/-!
# What the AML parse functions leave of their view

What holds of every call of a parse function (`Extent`): how much of the view is left, how
many nodes were made, and that the rest has the same end unless a list failed. In the same
induction two runs are compared (`Alike`), in memories that agree on the view. They have
the same outcome if no call that is reached looks at bytes outside its view (`Overruns`),
and they come to an end if there is enough fuel for the call (`bound`).

There is one lemma for each parse function. It follows the function, and uses the induction
hypothesis for the calls that the function makes (`At.term`).
-/

namespace Attos.Aml

open Lib Outcome ParseState

/-! ## What is proved of a call -/

/-- The function takes at least one byte. -/
def ParseFunction.consumes : ParseFunction → Bool
  | fieldList | objectList | termList => false
  | op arity _ tgt => decide (0 < arity) || tgt
  | _ => true

/-- A call of a function with the same view has a smaller rank. -/
def ParseFunction.rank : ParseFunction → ℕ
  | pkgLength | nameString | argOrLocal | fieldFlags => 0
  | dataObject | type6Opcode | namedField => 1
  | superName | dataRefObject | type2Opcode | fieldList => 2
  | target | termArg | termObj => 3
  | op _ _ _ | objectList | termList => 4
  | index => 5

theorem ParseFunction.rank_lt (f : ParseFunction) : f.rank < 6 := by
  cases f <;> simp [rank]

/-- Fuel that is enough for a call. -/
def bound (top : ℕ) (c : Call) : ℕ := 8 * c.data.size + c.w.made + c.f.rank + top + 8

/-- There is enough fuel for a call in a finite memory. -/
def Enough (mem : Memory) (top : ℕ) (c : Call) (fuel : ℕ) : Prop :=
  mem.Finite top ∧ c.w.Sound ∧ bound top c ≤ fuel

/-- A string does not end in the view behind its opcode. -/
def Unterminated (mem : Memory) (data : ParseState) : Prop :=
  ∃ d, data.consumeOpcode mem = done (.string, d) ∧
    ∀ a, d.begin_ ≤ a → a < d.end_ → ∃ c, mem a = done c ∧ c ≠ 0

/-- The first byte of a super name is wrong, and what is dumped for that begins before the
view. -/
def DumpsBefore (mem : Memory) (data : ParseState) : Prop :=
  ∃ c, data.peek mem = done c ∧ ParseFunction.dispatch .superName c = none ∧
    sub64 data.begin_ 10 + min 32 (data.size + 10) + 15 < 2 ^ 64

/-- The call itself looks at bytes outside of its view. -/
def Overruns (mem : Memory) (c : Call) : Prop :=
  match c.f with
  | .nameString => TruncatedDual mem c.data
  | .dataObject => Unterminated mem c.data
  | .superName => DumpsBefore mem c.data
  | _ => False

/-- No call that is reached looks at bytes outside of its view, unless the memories are
the same anyway. -/
def Good (mem mem' : Memory) (c : Call) : Prop :=
  ∀ c', Reaches mem c c' → mem = mem' ∨ ¬ Overruns mem c'

/-- What a call for a term leaves. -/
structure TermExtent (f : ParseFunction) (data d : ParseState) (t : Option Term) : Prop where
  /-- the rest of the view -/
  rest : Rest data d
  /-- which is shorter -/
  begin_lt : f.consumes = true → data.begin_ < d.begin_
  /-- the node counts as an element of a list -/
  alive : ∀ u, t = some u → u.opcode ≠ .deadScope

/-- What a call leaves. -/
structure Extent (c : Call) (w' : World) (d : ParseState) (r : Option (List Node)) : Prop where
  /-- it lies in the view -/
  within : Within c.data.begin_ c.data.end_ d
  /-- something was taken from the view -/
  begin_lt : c.f.consumes = true → c.data.begin_ < d.begin_
  /-- the end is the same -/
  end_eq : r ≠ none ∨ c.f.isTerm = true → d.end_ = c.data.end_
  /-- nothing is left by a list -/
  exhausted : c.f.isList = true → r ≠ none → d.begin_ = d.end_
  /-- every node takes a byte -/
  made : r ≠ none → w'.made + d.size ≤ c.w.made + c.data.size
  /-- the nodes count as elements of a list -/
  alive : ∀ ns, r = some ns → ∀ n ∈ ns, n.opcode ≠ .deadScope

theorem TermExtent.shorter {f : ParseFunction} {data d : ParseState} {t : Option Term}
    (h : TermExtent f data d t) (hf : f.consumes = true) : Shorter data d :=
  ⟨h.rest, h.begin_lt hf⟩

/-- The pieces that are left of a call, in the view behind those that were parsed. Calls of
functions of a rank below `n` need less fuel. -/
structure At (mem : Memory) (lo hi n : ℕ) (c : Call) (ps : List Piece) (w : World)
    (d : ParseState) : Prop where
  /-- the pieces belong to the call -/
  calls : ∀ k c', Among mem ps w d k c' → Calls mem k c c'
  /-- the view lies in the region -/
  within : Within lo hi d
  /-- the world is in order -/
  sound : c.w.Sound → w.Sound
  /-- calls need less fuel -/
  less : 8 * d.size + w.made + n ≤ 8 * c.data.size + c.w.made + c.f.rank

section Good

variable {mem mem' : Memory} {top fuel : ℕ} {c c' : Call} {k : Check}

theorem Good.call (h : Good mem mem' c) (hc : Calls mem k c c') : Good mem mem' c' :=
  fun c'' hreach => h c'' (.head ⟨k, hc⟩ hreach)

theorem Good.self (h : Good mem mem' c) : mem = mem' ∨ ¬ Overruns mem c := h c .refl

theorem Enough.finite (h : Enough mem top c fuel) : mem.Finite top := h.1

theorem Enough.sound (h : Enough mem top c fuel) : c.w.Sound := h.2.1

theorem Enough.le (h : Enough mem top c fuel) : bound top c ≤ fuel := h.2.2

/-- A call of the function leaves enough fuel. -/
theorem Enough.call (h : Enough mem top c (fuel + 1)) (hw : c'.w.Sound)
    (hlt : bound top c' < bound top c) : Enough mem top c' fuel :=
  ⟨h.finite, hw, Nat.le_of_lt_succ (hlt.trans_le h.le)⟩

end Good

/-- Two memories for a call that agree on a region. -/
theorem settingOf {mem mem' : Memory} {lo hi top fuel : ℕ} {c : Call}
    (hagree : ∀ a, lo ≤ a → a < hi → mem' a = mem a) :
    Setting mem mem' lo hi top (Enough mem top c fuel) :=
  ⟨hagree, Enough.finite⟩

/-! ## The name space and the heap

None of their operations uses fuel, except for the way to the last container of a list. -/

section Ends

variable {w : World} {name : Name}

theorem skipParents_ends (scope name : Name) : (skipParents scope name).Ends := by
  induction name generalizing scope with
  | nil => exact done_ends _
  | cons c name ih =>
    rw [skipParents]
    split
    · split
      · exact ih _
      · nofun
    · exact done_ends _

theorem NameSpace.lookupNode_ends (ns : NameSpace) (name : Name) : (ns.lookupNode name).Ends := by
  refine Ends.bind ?_ fun _ _ => done_ends _
  rw [lookupBinding]
  split
  · exact done_ends _
  · split
    · exact (skipParents_ends _ _).bind fun _ _ => done_ends _
    · split <;> exact done_ends _

theorem World.get_ends (w : World) (p : NodePtr) : (w.get p).Ends := by
  rw [World.get]
  cases w.nodes p with
  | none => nofun
  | some n => exact done_ends n

theorem World.openScope_ends (w : World) (name : Name) : (w.openScope name).Ends := by
  refine Ends.bind (require_ends.bind fun _ _ => require_ends.bind fun _ _ => done_ends _)
    fun _ _ => done_ends _

end Ends

/-! ## Terms -/

/-- The calls for terms with some fuel are alike. -/
def TermsAlike (mem mem' : Memory) (lo hi top : ℕ) (exact : Prop) (fuel fuel' : ℕ) : Prop :=
  ∀ f w data, f.isTerm = true → Within lo hi data →
    Alike (Good mem mem' ⟨f, w, data⟩) exact (Enough mem top ⟨f, w, data⟩ fuel)
      (fun r => TermExtent f data r.1 r.2) (f.term mem fuel w data) (f.term mem' fuel' w data)

theorem returns_term {mem : Memory} {fuel : ℕ} {f : ParseFunction} {w : World}
    {data d : ParseState} {t : Option Term} (hf : f.isTerm = true)
    (h : f.term mem fuel w data = done (d, t)) : Returns mem ⟨f, w, data⟩ w d (termTrees t) := by
  refine ⟨fuel, ?_⟩
  cases f <;> first
    | (simp only [ParseFunction.result, h, done_bind]; rfl)
    | (simp only [ParseFunction.isTerm] at hf; cases hf)

theorem termTrees_ne_none {t : Option Term} : termTrees t ≠ none ↔ t ≠ none := by
  cases t <;> simp [termTrees]

section Terms

variable {mem mem' : Memory} {lo hi top fuel fuel' m n : ℕ} {exact : Prop} {c : Call}
  {ps : List Piece} {w : World} {data d : ParseState} {f : ParseFunction} {k : Check}

/-- **A call for a term.** -/
theorem At.term (hat : At mem lo hi m c (.call f k :: ps) w d)
    (ih : TermsAlike mem mem' lo hi top exact fuel fuel') (hf : f.isTerm = true)
    (hrank : f.rank < m) :
    Alike (Good mem mem' c) exact (Enough mem top c (fuel + 1))
      (fun r => TermExtent f d r.1 r.2 ∧ ((k = .tested → r.2 ≠ none) → At mem lo hi m c ps w r.1))
      (f.term mem fuel w d) (f.term mem' fuel' w d) := by
  have hless := hat.less
  refine ((ih f w d hf hat.within).weaken (fun h => h.call (hat.calls k _ .here))
    fun h => h.call (hat.sound h.sound) (by simp only [bound]; omega)).imp ?_
  rintro ⟨d', t⟩ hrun hextent
  refine ⟨hextent, fun htested => ⟨fun k' c' hc' => hat.calls k' c' ?_, hat.within.rest hextent.rest,
    hat.sound, ?_⟩⟩
  · exact .call (returns_term hf hrun) (fun hk => termTrees_ne_none.2 (htested hk)) hc'
  · have hsize := hextent.rest.size_le
    omega

/-- The pieces behind an opcode -/
theorem At.behind {code : Opcode} {f : ParseFunction} (hop : data.consumeOpcode mem = done (code, d))
    (hdata : Within lo hi data) (hd : Shorter data d) :
    At mem lo hi 6 ⟨f, w, data⟩ (f.behind code) w d := by
  have hsize := hd.size_lt
  exact ⟨fun k c hc => .behind hop hc, hdata.rest hd.toRest, id, by simp only; omega⟩

/-- The pieces in a package -/
theorem At.inPackage {code : Opcode} {f : ParseFunction} {pkg : ParseState}
    (hop : data.consumeOpcode mem = done (code, d)) (hps : f.inPackage code = some ps)
    (hadjust : adjustWithPkgLength mem d = done pkg) (hdata : Within lo hi data)
    (hd : Shorter data d) (hpkg : Package d pkg) : At mem lo hi 6 ⟨f, w, data⟩ ps w pkg := by
  have hsize := hd.size_lt
  have hsize' := hpkg.size_lt
  exact ⟨fun k c hc => .inPackage hop hps hadjust hc, hpkg.within (hdata.rest hd.toRest), id,
    by simp only; omega⟩

/-- Bytes are taken. -/
theorem At.bytes {d' : ParseState} (hat : At mem lo hi m c (.bytes n :: ps) w d)
    (hskip : d.skip n = done d') : At mem lo hi m c ps w d' := by
  have hrest := (skip_spec hskip hat.within.le_end).1
  have hsize := hrest.size_le
  have hless := hat.less
  exact ⟨fun k c' hc' => hat.calls k c' (.bytes hskip hc'), hat.within.rest hrest, hat.sound,
    by omega⟩

/-- What is left does not depend on which function was called. -/
theorem TermExtent.of {f f' : ParseFunction} {t : Option Term} (h : TermExtent f data d t)
    (hf : f.consumes = true) : TermExtent f' data d t :=
  ⟨h.rest, fun _ => h.begin_lt hf, h.alive⟩

/-- Behind something that was taken -/
theorem TermExtent.behind {f f' : ParseFunction} {t : Option Term} (h : TermExtent f d data t)
    {d₀ : ParseState} (hd : Shorter d₀ d) : TermExtent f' d₀ data t :=
  ⟨hd.toRest.trans h.rest, fun _ => hd.begin_lt.trans_le h.rest.begin_le, h.alive⟩

/-- A node that is returned behind something that was taken -/
theorem TermExtent.some {f : ParseFunction} {t : Term} (h : Shorter data d)
    (ht : t.opcode ≠ .deadScope) : TermExtent f data d (some t) :=
  ⟨h.toRest, fun _ => h.begin_lt, fun u hu => by cases hu; exact ht⟩

/-- No node is returned. -/
theorem TermExtent.none {f : ParseFunction} (h : Shorter data d) : TermExtent f data d none :=
  ⟨h.toRest, fun _ => h.begin_lt, fun _ hu => by cases hu⟩

/-- `parse_arg_or_local` -/
theorem parseArgOrLocal_alike {good enough : Prop} (S : Setting mem mem' lo hi top enough)
    (hdata : Within lo hi data) :
    Alike good exact enough (fun r => TermExtent .argOrLocal data r.1 r.2)
      (parseArgOrLocal mem data) (parseArgOrLocal mem' data) := by
  refine (consumeOpcode_alike S hdata).bind fun ⟨op, d⟩ _ hd => ?_
  refine Alike.require.bind fun _ _ hop => .pure (.some hd ?_)
  rintro rfl
  exact absurd hop (by decide)

/-- A call for a term with the view of its caller, the result of which is returned -/
theorem TermsAlike.same (ih : TermsAlike mem mem' lo hi top exact fuel fuel') (f : ParseFunction)
    {f₀ : ParseFunction} (hf : f.isTerm = true ∧ f.consumes = true)
    (hcalls : Calls mem k ⟨f₀, w, data⟩ ⟨f, w, data⟩) (hdata : Within lo hi data)
    (hrank : f.rank < f₀.rank) :
    Alike (Good mem mem' ⟨f₀, w, data⟩) exact (Enough mem top ⟨f₀, w, data⟩ (fuel + 1))
      (fun r => TermExtent f₀ data r.1 r.2) (f.term mem fuel w data)
      (f.term mem' fuel' w data) :=
  ((ih f w data hf.1 hdata).weaken (fun h => h.call hcalls)
    fun h => h.call h.sound (by simp only [bound]; omega)).imp fun _ _ h => h.of hf.2

/-- The loop over a number of arguments -/
theorem At.args (hat : At mem lo hi m c (operands n ++ ps) w d)
    (ih : TermsAlike mem mem' lo hi top exact fuel fuel') (hm : 3 < m) :
    Alike (Good mem mem' c) exact (Enough mem top c (fuel + 1))
      (fun r => Rest d r.1 ∧ (0 < n ∨ r.2 = none → d.begin_ < r.1.begin_) ∧
        (r.2 ≠ none → At mem lo hi m c ps w r.1))
      (parseArgs (parseTermArg mem w fuel) n d) (parseArgs (parseTermArg mem' w fuel') n d) := by
  induction n generalizing d with
  | zero => exact .pure ⟨.refl hat.within.le_end, by simp, fun _ => hat⟩
  | succ n ih' =>
    have hat : At mem lo hi m c (.call .termArg .tested :: (operands n ++ ps)) w d := hat
    refine (hat.term ih rfl hm).bind fun ⟨d₁, arg⟩ _ ⟨hextent, hat₁⟩ => ?_
    have hshort := hextent.shorter rfl
    cases arg with
    | none => exact .pure ⟨hshort.toRest, fun _ => hshort.begin_lt, fun h => absurd rfl h⟩
    | some arg =>
      refine (ih' (hat₁ fun _ => nofun)).bind fun ⟨d₂, args⟩ _ ⟨hrest, _, hat₂⟩ => .pure ?_
      refine ⟨hshort.toRest.trans hrest, fun _ => hshort.begin_lt.trans_le hrest.begin_le, fun h => ?_⟩
      exact hat₂ fun hnone => h (congrArg (Option.map _) hnone)

theorem negationPieces_of_ne {next : Opcode} (h₁ : next ≠ .lequal) (h₂ : next ≠ .lgreater)
    (h₃ : next ≠ .lless) : negationPieces next = [.call .termArg .tested] := by
  rw [negationPieces.eq_def]
  split <;> first | contradiction | rfl

/-- A negation behind its opcode -/
theorem parseNegation_alike {next : Opcode} {d : ParseState}
    (hagree : ∀ a, lo ≤ a → a < hi → mem' a = mem a)
    (ih : TermsAlike mem mem' lo hi top exact fuel fuel')
    (hat : At mem lo hi 6 ⟨.type2Opcode, w, data⟩ (negationPieces next) w d) (hd : Shorter data d)
    {name : String}
    (hpieces : negationPieces next = [.bytes 1, .call (.op 2 name false) .tested]) :
    Alike (Good mem mem' ⟨.type2Opcode, w, data⟩) exact
      (Enough mem top ⟨.type2Opcode, w, data⟩ (fuel + 1))
      (fun r => TermExtent .type2Opcode data r.1 r.2)
      (do let (_, d) ← d.consume mem; parseOp mem w 2 name false fuel d)
      (do let (_, d) ← d.consume mem'; parseOp mem' w 2 name false fuel' d) := by
  rw [hpieces] at hat
  refine (consume_alike (settingOf hagree) hat.within).bind fun ⟨b, d₁⟩ hconsume hd₁ => ?_
  exact ((hat.bytes (skip_of_consume hconsume)).term ih rfl (by simp [ParseFunction.rank])).imp fun r _ h =>
    h.1.behind (hd.trans hd₁)

/-- The elements of packages with some fuel are alike. -/
def ElementsAlike (mem mem' : Memory) (lo hi top : ℕ) (exact : Prop) (fuel fuel' : ℕ) : Prop :=
  ∀ w d, Within lo hi d →
    Alike (∀ b, d.peek mem = done b → Good mem mem' ⟨packageElement b, w, d⟩) exact
      (mem.Finite top ∧ w.Sound ∧ bound top ⟨.dataRefObject, w, d⟩ < fuel)
      (fun r => TermExtent .termArg d r.1 r.2 ∧ ∀ t, r.2 = some t →
        ∃ b ns, d.peek mem = done b ∧ Returns mem ⟨packageElement b, w, d⟩ w r.1 (some ns))
      (parsePackageElement mem w fuel d) (parsePackageElement mem' w fuel' d)

/-- An element of a package -/
theorem parsePackageElement_alike (hagree : ∀ a, lo ≤ a → a < hi → mem' a = mem a)
    (ih : TermsAlike mem mem' lo hi top exact fuel fuel') :
    ElementsAlike mem mem' lo hi top exact (fuel + 1) (fuel' + 1) := by
  intro w d hin
  have S : Setting mem mem' lo hi top
      (mem.Finite top ∧ w.Sound ∧ bound top ⟨.dataRefObject, w, d⟩ < fuel + 1) :=
    ⟨hagree, fun h => h.1⟩
  rw [parsePackageElement, parsePackageElement]
  refine (peek_alike S hin).bind fun b hb _ => .ite (fun hname => ?_) fun hname => ?_
  · have helement : packageElement b = .nameString := by rw [packageElement, if_pos hname]
    refine (parseNameString_alike S hin fun hgood => ?_).bind fun ⟨d', name⟩ hparse hd =>
      .pure ⟨.some hd (by simp [Term.opcode]), fun t ht => ⟨b, [], hb, 0, ?_⟩⟩
    · have hself := (hgood b hb).self
      rwa [helement] at hself
    · rw [helement]
      simp only [ParseFunction.result, hparse, done_bind]
      rfl
  · have helement : packageElement b = .dataRefObject := by rw [packageElement, if_neg hname]
    refine ((ih .dataRefObject w d rfl hin).weaken (fun h => ?_) fun h =>
      ⟨h.1, h.2.1, Nat.le_of_lt_succ h.2.2⟩).imp fun ⟨d', t⟩ hrun h => ⟨h.of rfl, fun t' ht => ?_⟩
    · have hgood := h b hb
      rwa [helement] at hgood
    · have hreturns := returns_term rfl hrun
      cases ht
      exact ⟨b, _, hb, helement ▸ hreturns⟩

/-- The elements of a package from a view on -/
theorem parsePackageElements_alike {d₀ : ParseState} {elements : List Term} {n' : ℕ} {enough : Prop}
    (el : ElementsAlike mem mem' lo hi top exact fuel fuel') (hn : n ≤ n')
    (hexact : exact → n = n') (hsize : enough → d.size < n)
    (henough : ∀ d', d'.size ≤ d.size → enough →
      mem.Finite top ∧ w.Sound ∧ bound top ⟨.dataRefObject, w, d'⟩ < fuel)
    (hcalls : ∀ d' b, Elements mem w d₀ d' → d'.peek mem = done b →
      Calls mem .tested c ⟨packageElement b, w, d'⟩)
    (helements : Elements mem w d₀ d) (hin : Within lo hi d) :
    Alike (Good mem mem' c) exact enough (fun _ => True)
      (parseList Term.opcode (fun _ u => pure u)
        (fun u data => do
          let (data, element) ← parsePackageElement mem w fuel data
          pure (u, data, element)) n () d elements)
      (parseList Term.opcode (fun _ u => pure u)
        (fun u data => do
          let (data, element) ← parsePackageElement mem' w fuel' data
          pure (u, data, element)) n' () d elements) := by
  induction n generalizing n' d elements with
  | zero =>
    refine .running (fun h => ?_) fun h => absurd (hsize h) (Nat.not_lt_zero _)
    rw [← hexact h]
    rfl
  | succ n ihn =>
    obtain _ | n' := n'
    · exact absurd hn (by simp)
    refine .ite (fun _ => .pure trivial) fun _ => ?_
    have hfirst : Alike (Good mem mem' c) exact enough _ _ _ := (el w d hin).weaken
      (fun h b hb => h.call (hcalls d b helements hb)) (henough d le_rfl)
    have hparse : Alike (Good mem mem' c) exact enough
        (fun r : Unit × ParseState × Option Term => Shorter d r.2.1 ∧ ∀ t, r.2.2 = some t →
          Elements mem w d₀ r.2.1)
        (do let (data, element) ← parsePackageElement mem w fuel d; pure ((), data, element))
        (do let (data, element) ← parsePackageElement mem' w fuel' d; pure ((), data, element)) := by
      refine hfirst.bind fun ⟨d', t⟩ _ ⟨hextent, hret⟩ => .pure ⟨hextent.shorter rfl, fun t' ht => ?_⟩
      obtain ⟨b, ns, hb, hreturns⟩ := hret t' ht
      exact .next helements hb hreturns
    refine hparse.bind fun ⟨_, d', t⟩ _ ⟨hd', hnext⟩ => ?_
    have hlt : d'.size < d.size := hd'.size_lt
    cases t with
    | none => exact .pure trivial
    | some t =>
      have hrec (elements' : List Term) : Alike (Good mem mem' c) exact enough (fun _ => True)
          (parseList Term.opcode (fun _ u => pure u)
            (fun u data => do
              let (data, element) ← parsePackageElement mem w fuel data
              pure (u, data, element)) n () d' elements')
          (parseList Term.opcode (fun _ u => pure u)
            (fun u data => do
              let (data, element) ← parsePackageElement mem' w fuel' data
              pure (u, data, element)) n' () d' elements') := ihn (Nat.le_of_succ_le_succ hn)
        (fun h => Nat.succ_injective (hexact h)) (fun h => by have := hsize h; omega)
        (fun d'' hd'' => henough d'' (hd''.trans hlt.le)) (hnext t rfl) (hin.rest hd'.toRest)
      exact .ite (fun _ => hrec _) fun _ => hrec _

/-- The first opcode is an operator, if it is no name. -/
theorem operator_of_isType2Opcode {first : UInt8} {op : Opcode} (hfirst : data.peek mem = done first)
    (hname : ¬ isNameStringStart first) (hop : data.consumeOpcode mem = done (op, d))
    (htype2 : isType2Opcode op) : op ∈ operators := by
  refine htype2.resolve_right fun ⟨hbyte, hstart⟩ => ?_
  have hpeek := (consumeOpcode_eq_done hop).1
  obtain ⟨first', hfirst', hpeek⟩ := bind_eq_done.1 hpeek
  cases hfirst.symm.trans hfirst'
  split at hpeek
  case isTrue hext =>
    obtain ⟨-, hpeek⟩ := require_bind_eq_done.1 hpeek
    obtain ⟨second, -, hpeek⟩ := bind_eq_done.1 hpeek
    cases hpeek
    have hcode : first.toNat = 0x5b := by
      rw [← Opcode.toNat_ofNat first.toNat, hext]
      rfl
    rw [Opcode.toNat_ofNat, hcode] at hbyte
    exact absurd (Nat.left_le_or.trans hbyte) (by decide)
  case isFalse hext =>
    cases hpeek
    rw [Opcode.toNat_ofNat, UInt8.ofNat_toNat] at hstart
    exact hname hstart

section Cases

variable (hagree : ∀ a, lo ≤ a → a < hi → mem' a = mem a)
  (ih : TermsAlike mem mem' lo hi top exact fuel fuel') (hdata : Within lo hi data)

include ih hdata

/-- `parse_data_ref_object` -/
theorem parseDataRefObject_alike :
    Alike (Good mem mem' ⟨.dataRefObject, w, data⟩) exact
      (Enough mem top ⟨.dataRefObject, w, data⟩ (fuel + 1))
      (fun r => TermExtent .dataRefObject data r.1 r.2) (parseDataRefObject mem w (fuel + 1) data)
      (parseDataRefObject mem' w (fuel' + 1) data) := by
  rw [parseDataRefObject, parseDataRefObject]
  exact ih.same .dataObject (by decide) (.body .here) hdata (by decide)

/-- `parse_index` -/
theorem parseIndex_alike :
    Alike (Good mem mem' ⟨.index, w, data⟩) exact (Enough mem top ⟨.index, w, data⟩ (fuel + 1))
      (fun r => TermExtent .index data r.1 r.2) (parseIndex mem w (fuel + 1) data)
      (parseIndex mem' w (fuel' + 1) data) := by
  rw [parseIndex, parseIndex]
  exact ih.same (.op 2 "index" true) (by decide) (.body .here) hdata (by decide)

/-- `op_node_base::parse` -/
theorem parseOp_alike {arity : ℕ} {name : String} {tgt : Bool} :
    Alike (Good mem mem' ⟨.op arity name tgt, w, data⟩) exact
      (Enough mem top ⟨.op arity name tgt, w, data⟩ (fuel + 1))
      (fun r => TermExtent (.op arity name tgt) data r.1 r.2)
      (parseOp mem w arity name tgt (fuel + 1) data)
      (parseOp mem' w arity name tgt (fuel' + 1) data) := by
  have hat : At mem lo hi 4 ⟨.op arity name tgt, w, data⟩
      (operands arity ++ if tgt then [.call .target .optional] else []) w data :=
    ⟨fun k c hc => .body hc, hdata, id, le_rfl⟩
  rw [parseOp, parseOp]
  refine (hat.args ih (by decide)).bind fun ⟨d, args⟩ _ ⟨hrest, hlt, hat₁⟩ => ?_
  cases args with
  | none =>
    exact .pure ⟨hrest, fun _ => hlt (.inr rfl), fun u hu => by cases hu⟩
  | some args =>
    refine .ite (fun htgt => ?_) fun htgt => ?_
    · have hat₂ := hat₁ nofun
      rw [if_pos htgt] at hat₂
      refine (hat₂.term ih rfl (by decide)).bind fun ⟨d₁, t⟩ _ ⟨hextent, _⟩ => .pure ?_
      have hshort := hrest.trans_shorter (hextent.shorter rfl)
      exact .some hshort (by simp [Term.opcode])
    · refine .pure ⟨hrest, fun hcons => hlt (.inl ?_), fun u hu => by cases hu; simp [Term.opcode]⟩
      simpa [ParseFunction.consumes, htgt] using hcons

/-- An operator behind its opcode -/
theorem parseOperator_alike {op : Opcode} {d : ParseState}
    (hop : data.consumeOpcode mem = done (op, d)) (hd : Shorter data d) {ar : ℕ} {name : String}
    {tgt : Bool} (hpieces : operatorPieces op = [.call (.op ar name tgt) .tested]) :
    Alike (Good mem mem' ⟨.type2Opcode, w, data⟩) exact
      (Enough mem top ⟨.type2Opcode, w, data⟩ (fuel + 1))
      (fun r => TermExtent .type2Opcode data r.1 r.2) (parseOp mem w ar name tgt fuel d)
      (parseOp mem' w ar name tgt fuel' d) := by
  have hat := At.behind (w := w) (f := .type2Opcode) hop hdata hd
  rw [ParseFunction.behind, hpieces] at hat
  exact (hat.term ih rfl (by simp [ParseFunction.rank])).imp fun r _ h => h.1.behind hd

include hagree

/-- `parse_term_arg` -/
theorem parseTermArg_alike :
    Alike (Good mem mem' ⟨.termArg, w, data⟩) exact (Enough mem top ⟨.termArg, w, data⟩ (fuel + 1))
      (fun r => TermExtent .termArg data r.1 r.2) (parseTermArg mem w (fuel + 1) data)
      (parseTermArg mem' w (fuel' + 1) data) := by
  rw [parseTermArg, parseTermArg]
  refine (peek_alike (settingOf hagree) hdata).bind fun first hfirst _ => .ite (fun harg => ?_)
    fun harg => .ite (fun hobj => ?_) fun hobj => ?_
  · exact (parseArgOrLocal_alike (settingOf hagree) hdata).imp fun _ _ h => h.of rfl
  · refine ih.same .dataObject (by decide) (.first hfirst ?_) hdata (by decide)
    simp [ParseFunction.dispatch, harg, hobj]
  · refine ih.same .type2Opcode (by decide) (.first hfirst ?_) hdata (by decide)
    simp [ParseFunction.dispatch, harg, hobj]

/-- `parse_super_name` -/
theorem parseSuperName_alike :
    Alike (Good mem mem' ⟨.superName, w, data⟩) exact
      (Enough mem top ⟨.superName, w, data⟩ (fuel + 1))
      (fun r => TermExtent .superName data r.1 r.2) (parseSuperName mem w (fuel + 1) data)
      (parseSuperName mem' w (fuel' + 1) data) := by
  rw [parseSuperName, parseSuperName]
  refine (peek_alike (settingOf hagree) hdata).bind fun first hfirst _ => .ite (fun harg => ?_)
    fun harg => .ite (fun hname => ?_) fun hname => .ite (fun hop => ?_) fun hop => ?_
  · exact (parseArgOrLocal_alike (settingOf hagree) hdata).imp fun _ _ h => h.of rfl
  · refine (parseNameString_alike (settingOf hagree) hdata fun hgood => ?_).bind
      fun ⟨d, name⟩ _ hd => .pure (.some hd (by simp [Term.opcode]))
    have hcalls : Calls mem .tested ⟨.superName, w, data⟩ ⟨.nameString, w, data⟩ :=
      .first hfirst (by simp [ParseFunction.dispatch, harg, hname])
    exact (hgood.call hcalls).self
  · refine ih.same .type6Opcode (by decide) (.first hfirst ?_) hdata (by decide)
    simp [ParseFunction.dispatch, harg, hname, hop]
  · refine (hexdump_alike (settingOf hagree) fun hgood => ?_).bind fun _ _ _ => .abort
    refine hgood.self.imp_right fun hcut hlt => absurd ⟨first, hfirst, ?_, hlt⟩ hcut
    simp [ParseFunction.dispatch, harg, hname, hop]

/-- `parse_target` -/
theorem parseTarget_alike :
    Alike (Good mem mem' ⟨.target, w, data⟩) exact (Enough mem top ⟨.target, w, data⟩ (fuel + 1))
      (fun r => TermExtent .target data r.1 r.2) (parseTarget mem w (fuel + 1) data)
      (parseTarget mem' w (fuel' + 1) data) := by
  rw [parseTarget, parseTarget]
  refine (peek_alike (settingOf hagree) hdata).bind fun first hfirst _ => .ite (fun hzero => ?_)
    fun hzero => ?_
  · exact (consume_alike (settingOf hagree) hdata).bind fun ⟨_, d⟩ _ hd =>
      .pure (.some hd (by simp [Term.opcode]))
  · refine ih.same .superName (by decide) (.first hfirst ?_) hdata (by decide)
    simp [ParseFunction.dispatch, hzero]

/-- `parse_type6_opcode` -/
theorem parseType6Opcode_alike :
    Alike (Good mem mem' ⟨.type6Opcode, w, data⟩) exact
      (Enough mem top ⟨.type6Opcode, w, data⟩ (fuel + 1))
      (fun r => TermExtent .type6Opcode data r.1 r.2) (parseType6Opcode mem w (fuel + 1) data)
      (parseType6Opcode mem' w (fuel' + 1) data) := by
  rw [parseType6Opcode, parseType6Opcode]
  refine (consumeOpcode_alike (settingOf hagree) hdata).bind fun ⟨op, d⟩ hop hd => ?_
  refine Alike.require.bind fun _ _ _ => Alike.require.bind fun _ _ hindex => ?_
  obtain rfl := hindex
  have hat : At mem lo hi 6 ⟨.type6Opcode, w, data⟩ [.call .index .tested] w d :=
    At.behind hop hdata hd
  exact (hat.term ih rfl (by decide)).imp fun r _ h => h.1.behind hd

/-- `parse_type2_opcode` -/
theorem parseType2Opcode_alike :
    Alike (Good mem mem' ⟨.type2Opcode, w, data⟩) exact
      (Enough mem top ⟨.type2Opcode, w, data⟩ (fuel + 1))
      (fun r => TermExtent .type2Opcode data r.1 r.2) (parseType2Opcode mem w (fuel + 1) data)
      (parseType2Opcode mem' w (fuel' + 1) data) := by
  rw [parseType2Opcode, parseType2Opcode]
  refine (peek_alike (settingOf hagree) hdata).bind fun first hfirst _ => .ite (fun hname => ?_)
    fun hname => ?_
  · have hcalls : Calls mem .tested ⟨.type2Opcode, w, data⟩ ⟨.nameString, w, data⟩ :=
      .first hfirst (by simp [ParseFunction.dispatch, hname])
    refine (parseNameString_alike (settingOf hagree) hdata fun hgood => (hgood.call hcalls).self).bind ?_
    rintro ⟨d, name⟩ hparse hd
    refine (Alike.of_eq (p := fun _ => True) (fun _ _ => trivial) (w.ns.lookupNode_ends name)).bind
      fun n hlookup _ => ?_
    cases n with
    | none => exact .pure (.none hd)
    | some n =>
      refine (Alike.of_eq (p := fun _ => True) (fun _ _ => trivial) (w.get_ends n)).bind
        fun node hnode _ => .ite (fun _ => .pure (.some hd (by simp [Term.opcode]))) fun hmethod => ?_
      have hsize : d.size < data.size := hd.size_lt
      have hat : At mem lo hi 6 ⟨.type2Opcode, w, data⟩ (operands node.argCount ++ []) w d :=
        ⟨fun k c hc => .argument hfirst hname hparse hlookup hnode (not_not.1 hmethod)
          (by rwa [List.append_nil] at hc), hdata.rest hd.toRest, id, by simp only; omega⟩
      refine (hat.args ih (by decide)).bind ?_
      rintro ⟨d₁, args⟩ _ ⟨hrest, _⟩
      refine .pure ?_
      have hshort := hd.trans_rest hrest
      cases args with
      | none => exact .none hshort
      | some args => exact .some hshort (by simp [Term.opcode])
  · refine (consumeOpcode_alike (settingOf hagree) hdata).bind fun ⟨op, d⟩ hop hd => .ite (fun _ => ?_)
      fun htype2 => ?_
    · refine (hexdump_alike (settingOf hagree) fun _ => .inr fun _ => ?_).bind fun _ _ _ => .abort
      have hin : Within lo hi d := hdata.rest hd.toRest
      obtain ⟨hlo, hle, hhi⟩ := hin
      exact ⟨hlo, by simp only [size]; omega⟩
    have hat := At.behind (w := w) (f := .type2Opcode) hop hdata hd
    split
    case h_6 =>
      refine (hat.term ih rfl (by decide)).bind ?_
      rintro ⟨d₁, dividend⟩ _ ⟨h₁, hat₁⟩
      refine ((hat₁ (by simp)).term ih rfl (by decide)).bind ?_
      rintro ⟨d₂, divisor⟩ _ ⟨h₂, hat₂⟩
      refine ((hat₂ (by simp)).term ih rfl (by decide)).bind ?_
      rintro ⟨d₃, _⟩ _ ⟨h₃, hat₃⟩
      refine ((hat₃ (by simp)).term ih rfl (by decide)).bind ?_
      rintro ⟨d₄, quotient⟩ _ ⟨h₄, _⟩
      refine .pure ?_
      exact .some (hd.trans_rest (h₁.rest.trans (h₂.rest.trans (h₃.rest.trans h₄.rest))))
        (by simp [Term.opcode])
    case h_16 =>
      refine (hat.term ih rfl (by decide)).bind ?_
      rintro ⟨d₁, arg⟩ _ ⟨h₁, _⟩
      refine .pure ?_
      exact .some (hd.trans_rest h₁.rest) (by simp [Term.opcode])
    case h_18 => exact (hat.term ih rfl (by decide)).imp fun r _ h => h.1.behind hd
    case h_22 =>
      refine (peekOpcode_alike (settingOf hagree) hat.within).bind fun next hnext _ => ?_
      have hsize : d.size < data.size := hd.size_lt
      have hneg : At mem lo hi 6 ⟨.type2Opcode, w, data⟩ (negationPieces next) w d :=
        ⟨fun k c hc => .negation hop hnext hc, hat.within, id, by simp only; omega⟩
      refine .ite (fun h => ?_) fun h₁ => .ite (fun h => ?_) fun h₂ => .ite (fun h => ?_) fun h₃ => ?_
      · obtain rfl := h
        exact parseNegation_alike hagree ih hneg hd rfl
      · obtain rfl := h
        exact parseNegation_alike hagree ih hneg hd rfl
      · obtain rfl := h
        exact parseNegation_alike hagree ih hneg hd rfl
      · rw [negationPieces_of_ne h₁ h₂ h₃] at hneg
        refine (hneg.term ih rfl (by decide)).bind ?_
        rintro ⟨d₁, arg⟩ _ ⟨h, _⟩
        refine .pure ?_
        have hshort := hd.trans_rest h.rest
        cases arg with
        | none => exact .none hshort
        | some arg => exact .some hshort (by simp [Term.opcode])
    case h_27 =>
      refine (hat.term ih rfl (by decide)).bind ?_
      rintro ⟨d₁, name⟩ _ ⟨h₁, hat₁⟩
      refine ((hat₁ (by simp)).term ih rfl (by decide)).bind ?_
      rintro ⟨d₂, tgt⟩ _ ⟨h₂, _⟩
      refine .pure ?_
      exact .some (hd.trans_rest (h₁.rest.trans h₂.rest)) (by simp [Term.opcode])
    case h_28 =>
      refine (hat.term ih rfl (by decide)).bind ?_
      rintro ⟨d₁, arg⟩ _ ⟨h₁, _⟩
      refine .pure ?_
      exact .some (hd.trans_rest h₁.rest) (by simp [Term.opcode])
    case h_29 =>
      refine (hat.term ih rfl (by decide)).bind ?_
      rintro ⟨d₁, arg⟩ _ ⟨h₁, hat₁⟩
      refine (consumeNumber_alike (settingOf hagree) (hat₁ (by simp)).within).bind ?_
      rintro ⟨_, d₂⟩ _ h₂
      exact .pure (.some (hd.trans_rest (h₁.rest.trans h₂)) (by simp [Term.opcode]))
    case h_30 =>
      refine (hat.term ih rfl (by decide)).bind ?_
      rintro ⟨d₁, arg⟩ _ ⟨h₁, _⟩
      refine .pure ?_
      exact .some (hd.trans_rest h₁.rest) (by simp [Term.opcode])
    case h_31 =>
      have hoperator : op ∈ operators :=
        operator_of_isType2Opcode hfirst hname hop (not_not.1 htype2)
      simp_all [operators]
    all_goals exact parseOperator_alike ih hdata hop hd rfl

/-- `parse_data_object` -/
theorem parseDataObject_alike (hfuel : fuel ≤ fuel') (hexact : exact → fuel = fuel')
    (el : ElementsAlike mem mem' lo hi top exact fuel fuel') :
    Alike (Good mem mem' ⟨.dataObject, w, data⟩) exact
      (Enough mem top ⟨.dataObject, w, data⟩ (fuel + 1))
      (fun r => TermExtent .dataObject data r.1 r.2) (parseDataObject mem w (fuel + 1) data)
      (parseDataObject mem' w (fuel' + 1) data) := by
  rw [parseDataObject, parseDataObject]
  refine (consumeOpcode_alike (settingOf hagree) hdata).bind ?_
  rintro ⟨op, d⟩ hop hd
  refine Alike.require.bind fun _ _ hobject => ?_
  have hin : Within lo hi d := hdata.rest hd.toRest
  have hsize : d.size < data.size := hd.size_lt
  dsimp only
  split
  case h_1 => exact .pure (.some hd (by simp [Term.opcode]))
  case h_2 => exact .pure (.some hd (by simp [Term.opcode]))
  case h_3 => exact .pure (.some hd (by simp [Term.opcode]))
  case h_4 =>
    exact (consume_alike (settingOf hagree) hin).bind fun _ _ h =>
      .pure (.some (hd.trans h) (by simp [Term.opcode]))
  case h_5 =>
    exact (consumeNumber_alike (settingOf hagree) hin).bind fun _ _ h =>
      .pure (.some (hd.trans_rest h) (by simp [Term.opcode]))
  case h_6 =>
    exact (consumeNumber_alike (settingOf hagree) hin).bind fun _ _ h =>
      .pure (.some (hd.trans_rest h) (by simp [Term.opcode]))
  case h_7 =>
    exact (consumeNumber_alike (settingOf hagree) hin).bind fun _ _ h =>
      .pure (.some (hd.trans_rest h) (by simp [Term.opcode]))
  case h_8 =>
    refine (readString_alike (settingOf hagree) hfuel hexact (fun h => ?_) hin.lo_le
      fun hgood => ?_).bind fun text _ _ => ?_
    · have hle := h.le
      simp only [bound] at hle
      omega
    · refine hgood.self.imp_right fun hterm => ?_
      by_contra hnone
      refine hterm ⟨d, hop, fun a hlo hhi => ?_⟩
      by_contra hbyte
      refine hnone ⟨a - d.begin_, ?_, fun c hc => ?_⟩
      · rw [Nat.add_sub_cancel' hlo]
        exact hhi.trans_le hin.le_hi
      · rw [Nat.add_sub_cancel' hlo] at hc
        by_contra hne
        exact hbyte ⟨c, hc, hne⟩
    · exact (skip_alike hin.le_end).bind fun d₁ _ h =>
        .pure (.some (hd.trans_rest h.1) (by simp [Term.opcode]))
  case h_9 =>
    refine (adjustWithPkgLength_alike (settingOf hagree) hin).bind fun pkg hadjust hpkg => ?_
    have hat : At mem lo hi 6 ⟨.dataObject, w, data⟩ [.call .termArg .unchecked] w pkg :=
      .inPackage hop rfl hadjust hdata hd hpkg
    refine (hat.term ih rfl (by decide)).bind ?_
    rintro ⟨rest, bufferSize⟩ _ ⟨h, hat₁⟩
    have hrest : Within lo hi rest := (hat₁ (by simp)).within
    obtain ⟨hlo, hle, hhi⟩ := hrest
    have hend : rest.begin_ + rest.size ≤ hi := by
      rw [size]
      omega
    refine ((settingOf hagree).read hlo hend).bind fun bytes _ _ => .pure ?_
    exact .some (hd.trans hpkg.shorter) (by simp [Term.opcode])
  case h_10 =>
    refine (adjustWithPkgLength_alike (settingOf hagree) hin).bind fun pkg hadjust hpkg => ?_
    have hpkgin := hpkg.within hin
    have hpkgsize := hpkg.size_lt
    refine (consume_alike (settingOf hagree) hpkgin).bind ?_
    rintro ⟨numElements, d₁⟩ hnum hd₁
    have hd₁size : d₁.size < pkg.size := hd₁.size_lt
    refine (parsePackageElements_alike el hfuel hexact (fun h => ?_) (fun d' hd' h => ?_)
      (fun d' b helements hb => .element hop hadjust hnum helements hb) .start
      (hpkgin.rest hd₁.toRest)).bind fun _ _ _ => ?_
    · have hle := h.le
      simp only [bound] at hle
      omega
    · have hle := h.le
      refine ⟨h.finite, h.sound, ?_⟩
      simp only [bound, ParseFunction.rank] at hle ⊢
      omega
    · refine (Alike.requireSome (p := fun _ => True) fun _ _ => trivial).bind fun elements _ _ => ?_
      exact Alike.require.bind fun _ _ _ =>
        .pure (.some (hd.trans hpkg.shorter) (by simp [Term.opcode]))
  case h_11 =>
    simp_all [isDataObject]

end Cases

/-- **The calls for terms are alike**, by induction on the depth of the calls. -/
theorem terms_alike (hagree : ∀ a, lo ≤ a → a < hi → mem' a = mem a) (hfuel : fuel ≤ fuel')
    (hexact : exact → fuel = fuel') :
    TermsAlike mem mem' lo hi top exact fuel fuel' ∧
      ElementsAlike mem mem' lo hi top exact fuel fuel' := by
  induction fuel generalizing fuel' with
  | zero =>
    refine ⟨fun f w data hf hdata => ?_, fun w d _ => ?_⟩
    · have hout (h : f.term mem 0 w data = running)
          (h' : exact → f.term mem' fuel' w data = running) :
          Alike (Good mem mem' ⟨f, w, data⟩) exact (Enough mem top ⟨f, w, data⟩ 0)
            (fun r => TermExtent f data r.1 r.2) (f.term mem 0 w data)
            (f.term mem' fuel' w data) := by
        rw [h]
        exact .running h' fun h => absurd h.le (by simp [bound])
      cases f with
      | argOrLocal => exact parseArgOrLocal_alike (settingOf hagree) hdata
      | superName | dataObject | dataRefObject | target | op | index | type6Opcode | type2Opcode
        | termArg => exact hout rfl fun h => by rw [← hexact h]; rfl
      | _ => simp only [ParseFunction.isTerm] at hf; cases hf
    · exact .running (fun h => by rw [← hexact h]; rfl) fun h => absurd h.2.2 (Nat.not_lt_zero _)
  | succ fuel ih =>
    obtain _ | fuel' := fuel'
    · exact absurd hfuel (by simp)
    have hfuel := Nat.le_of_succ_le_succ hfuel
    have hexact := fun h => Nat.succ_injective (hexact h)
    obtain ⟨ih, el⟩ := ih hfuel hexact
    refine ⟨fun f w data hf hdata => ?_, parsePackageElement_alike hagree ih⟩
    cases f with
    | argOrLocal => exact parseArgOrLocal_alike (settingOf hagree) hdata
    | superName => exact parseSuperName_alike hagree ih hdata
    | dataObject => exact parseDataObject_alike hagree ih hdata hfuel hexact el
    | dataRefObject => exact parseDataRefObject_alike ih hdata
    | target => exact parseTarget_alike hagree ih hdata
    | op arity name tgt => exact parseOp_alike ih hdata
    | index => exact parseIndex_alike ih hdata
    | type6Opcode => exact parseType6Opcode_alike hagree ih hdata
    | type2Opcode => exact parseType2Opcode_alike hagree ih hdata
    | termArg => exact parseTermArg_alike hagree ih hdata
    | _ => simp only [ParseFunction.isTerm] at hf; cases hf

end Terms

end Attos.Aml

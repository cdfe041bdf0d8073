import Attos.Aml.ObjectExtents

/-!
# The extent and the end of a call

Every parse function comes to an end, and what it returns is determined by its call. The
views of the calls that it makes lie in its own view, and along a cycle of calls they get
strictly shorter.
-/

namespace Attos.Aml

open Lib Outcome ParseState

variable {mem mem' : Memory} {lo hi top fuel fuel' : ℕ} {exact : Prop} {c c' c'' : Call} {w w' : World}
  {data d d' : ParseState} {r r' : Option (List Node)} {k : Check} {ps : List Piece} {f : ParseFunction}

/-! ## All parse functions -/

theorem ParseFunction.isList_of_isTerm (hf : f.isTerm = true) : f.isList = false := by
  cases f <;> first | rfl | cases hf

/-- A function for terms among all parse functions -/
theorem TermExtent.extent {t : Option Term} (h : TermExtent f data d t) (hf : f.isTerm = true) :
    Extent ⟨f, w, data⟩ w d (termTrees t) where
  within := ⟨h.rest.begin_le, h.rest.le_end, h.rest.end_eq.le⟩
  begin_lt := h.begin_lt
  end_eq _ := h.rest.end_eq
  exhausted hlist := by
    rw [ParseFunction.isList_of_isTerm hf] at hlist
    cases hlist
  made _ := Nat.add_le_add_left h.rest.size_le _
  alive ns hns n hn := by
    cases t with
    | none => cases hns
    | some t =>
      cases hns
      rw [List.mem_singleton.1 hn]
      exact h.alive t rfl

/-- **The calls of a parse function are alike.** -/
theorem result_alike (hagree : ∀ a, lo ≤ a → a < hi → mem' a = mem a) (hfuel : fuel ≤ fuel')
    (hexact : exact → fuel = fuel') (hdata : Within lo hi data) :
    Alike (Good mem mem' ⟨f, w, data⟩) exact (Enough mem top ⟨f, w, data⟩ fuel)
      (fun r => Extent ⟨f, w, data⟩ r.1 r.2.1 r.2.2) (f.result mem fuel w data)
      (f.result mem' fuel' w data) := by
  have S : Setting mem mem' lo hi top (Enough mem top ⟨f, w, data⟩ fuel) := settingOf hagree
  have hleaf {f : ParseFunction} {d : ParseState} (hd : Shorter data d) (hf : f.isList = false) :
      Extent ⟨f, w, data⟩ w d (some []) :=
    ⟨⟨hd.begin_le, hd.le_end, hd.end_eq.le⟩, fun _ => hd.begin_lt, fun _ => hd.end_eq,
      fun h => by simp [hf] at h, fun _ => Nat.add_le_add_left hd.toRest.size_le _,
      fun ns hns => by cases hns; simp⟩
  obtain ⟨objects, terms, containers⟩ : ObjectsAlike mem mem' lo hi top exact fuel fuel' ∧ _ ∧ _ :=
    objects_alike hagree hfuel hexact
  have hterm (hf : f.isTerm = true) :
      Alike (Good mem mem' ⟨f, w, data⟩) exact (Enough mem top ⟨f, w, data⟩ fuel)
        (fun r => Extent ⟨f, w, data⟩ r.1 r.2.1 r.2.2)
        (f.term mem fuel w data >>= fun r => pure (w, r.1, termTrees r.2))
        (f.term mem' fuel' w data >>= fun r => pure (w, r.1, termTrees r.2)) :=
    ((terms_alike hagree hfuel hexact).1 f w data hf hdata).bind fun _ _ h => .pure (h.extent hf)
  cases f with
  | pkgLength => exact (parsePkgLength_alike S hdata).bind fun _ _ hd => .pure (hleaf hd rfl)
  | nameString =>
    exact (parseNameString_alike S hdata fun h => h.self).bind fun _ _ hd => .pure (hleaf hd rfl)
  | fieldFlags => exact (consume_alike S hdata).bind fun _ _ hd => .pure (hleaf hd rfl)
  | namedField => exact (parseNamedField_alike hagree hdata).bind fun _ _ h => .pure h.1
  | termObj => exact (objects w data hdata).bind fun _ _ h => .pure h
  | fieldList =>
    refine (parseFieldListFrom_alike hagree hfuel hexact (fun h => ?_) hdata (.refl hdata.le_end)
      le_rfl (by simp)).imp fun _ _ h => h.1
    have hle := h.le
    simp only [bound] at hle
    omega
  | objectList => exact containers w data hdata
  | termList => exact terms w data hdata
  | argOrLocal | superName | dataObject | dataRefObject | target | op | index | type6Opcode | type2Opcode
    | termArg => exact hterm rfl

/-- A call in one memory, with two amounts of fuel -/
theorem result_alike_self (f : ParseFunction) (w : World) (hdata : data.begin_ ≤ data.end_)
    (hfuel : fuel ≤ fuel') :
    Alike True (fuel = fuel') (Enough mem top ⟨f, w, data⟩ fuel)
      (fun r => Extent ⟨f, w, data⟩ r.1 r.2.1 r.2.2) (f.result mem fuel w data)
      (f.result mem fuel' w data) :=
  (result_alike (fun _ _ _ => rfl) hfuel id ⟨le_rfl, hdata, le_rfl⟩).weaken (fun _ _ _ => .inl rfl) id

/-- A call that comes to an end does the same with more fuel. -/
theorem result_mono (hdata : data.begin_ ≤ data.end_) (hfuel : fuel ≤ fuel')
    (hends : (f.result mem fuel w data).Ends) :
    f.result mem fuel' w data = f.result mem fuel w data := by
  have h : Alike True (fuel = fuel') (Enough mem 0 ⟨f, w, data⟩ fuel) _ _ _ :=
    result_alike_self f w hdata hfuel
  exact h.same trivial (.inr hends)

/-- **What a call leaves** -/
theorem Returns.extent (h : Returns mem c w d r) (hdata : c.data.begin_ ≤ c.data.end_) :
    Extent c w d r := by
  obtain ⟨fuel, h⟩ := h
  have halike : Alike True (fuel = fuel) (Enough mem 0 c fuel) _ _ _ :=
    result_alike_self c.f c.w hdata le_rfl
  exact halike.post _ h

/-- A call returns one result only. -/
theorem Returns.unique (h : Returns mem c w d r) (h' : Returns mem c w' d' r')
    (hdata : c.data.begin_ ≤ c.data.end_) : w = w' ∧ d = d' ∧ r = r' := by
  obtain ⟨fuel, h⟩ := h
  obtain ⟨fuel', h'⟩ := h'
  have hmax := result_mono hdata (Nat.le_max_left fuel fuel') (by rw [h]; exact done_ends _)
  have hmax' := result_mono hdata (Nat.le_max_right fuel fuel') (by rw [h']; exact done_ends _)
  rw [hmax', h, h'] at hmax
  cases hmax
  exact ⟨rfl, rfl, rfl⟩

/-- **Every call comes to an end** in a finite memory. -/
theorem result_ends (hmem : mem.Finite top) (hw : w.Sound) (hdata : data.begin_ ≤ data.end_)
    (hfuel : bound top ⟨f, w, data⟩ ≤ fuel) : (f.result mem fuel w data).Ends :=
  (result_alike_self f w hdata le_rfl).ends ⟨hmem, hw, hfuel⟩

theorem Memory.ofList_finite (bytes : List UInt8) : (Memory.ofList bytes).Finite bytes.length where
  answers a := by
    rw [Memory.ofList]
    cases bytes[a]? with
    | none => nofun
    | some b => exact done_ends b
  faults a ha := by rw [Memory.ofList, List.getElem?_eq_none ha]

/-! ## The views of the calls -/

/-- A view in one memory -/
theorem Setting.refl (mem : Memory) (lo hi : ℕ) : Setting mem mem lo hi 0 False :=
  ⟨fun _ _ _ => rfl, False.elim⟩

theorem ParseState.Within.refl (h : data.begin_ ≤ data.end_) : Within data.begin_ data.end_ data :=
  ⟨le_rfl, h, le_rfl⟩

theorem shorter_of_consume {b : UInt8} (h : data.consume mem = done (b, d)) : Shorter data d := by
  obtain ⟨-, rfl, hlt⟩ := consume_eq_done h
  exact ⟨⟨Nat.le_succ _, hlt, rfl⟩, Nat.lt_succ_self _⟩

section Leaves

variable (hdata : data.begin_ ≤ data.end_)

include hdata

theorem shorter_of_consumeOpcode {op : Opcode} (h : data.consumeOpcode mem = done (op, d)) :
    Shorter data d := by
  have hop : Alike True True False _ _ _ :=
    consumeOpcode_alike (Setting.refl mem data.begin_ data.end_) (.refl hdata)
  exact hop.post _ h

theorem shorter_of_parseNameString {name : Name} (h : parseNameString mem data = done (d, name)) :
    Shorter data d := by
  have hname : Alike True True False _ _ _ :=
    parseNameString_alike (Setting.refl mem data.begin_ data.end_) (.refl hdata) fun _ => .inl rfl
  exact hname.post _ h

theorem package_of_adjustWithPkgLength (h : adjustWithPkgLength mem data = done d) : Package data d := by
  have hpkg : Alike True True False _ _ _ :=
    adjustWithPkgLength_alike (Setting.refl mem data.begin_ data.end_) (.refl hdata)
  exact hpkg.post _ h

end Leaves

theorem ParseState.Within.size_le (h : Within data.begin_ data.end_ d) : d.size ≤ data.size := by
  obtain ⟨hlo, hle, hhi⟩ := h
  simp only [size]
  omega

/-- A package lies in the view that it is at the front of. -/
theorem Package.in_view (h : Package data d) : Within data.begin_ data.end_ d :=
  ⟨h.begin_lt.le, h.le_end, h.end_le⟩

/-- A call that returns trees leaves what remains of its view. -/
theorem Returns.rest {ns : List Node} (h : Returns mem c w d (some ns))
    (hdata : c.data.begin_ ≤ c.data.end_) : Rest c.data d := by
  have hextent := h.extent hdata
  exact ⟨hextent.within.lo_le, hextent.within.le_end, hextent.end_eq (.inl nofun)⟩

/-- The calls among some pieces have views in the view that the pieces begin with. -/
theorem Among.within (h : Among mem ps w d k c) (hd : d.begin_ ≤ d.end_) :
    Within d.begin_ d.end_ c.data := by
  induction h with
  | here => exact .refl hd
  | name => exact .refl hd
  | call hreturns _ _ ih =>
    have hwithin := (hreturns.extent hd).within
    exact hwithin.trans (ih hwithin.le_end)
  | bytes hskip _ ih =>
    obtain ⟨hrest, -⟩ := skip_spec hskip hd
    have hwithin := (Within.refl hd).rest hrest
    exact hwithin.trans (ih hwithin.le_end)
  | scope hparse _ _ ih =>
    have hwithin := (Within.refl hd).rest (shorter_of_parseNameString hd hparse).toRest
    exact hwithin.trans (ih hwithin.le_end)

/-- The function of a call among some pieces is one of them, or a name for a scope. -/
theorem Among.function (h : Among mem ps w d k c) :
    .call c.f k ∈ ps ∨ c.f = .nameString ∧ .scope ∈ ps := by
  induction h with
  | here => exact .inl (List.mem_cons_self ..)
  | name => exact .inr ⟨rfl, List.mem_cons_self ..⟩
  | call _ _ _ ih | bytes _ _ ih | scope _ _ _ ih =>
    exact ih.imp (List.mem_cons_of_mem _) (And.imp_right (List.mem_cons_of_mem _))

/-- A function that does not look at the view itself calls functions of a smaller rank. -/
theorem rank_lt_of_body {f' : ParseFunction} (h : .call f' k ∈ f.body) : f'.rank < f.rank := by
  cases f with
  | op arity name tgt =>
    obtain h | h := List.mem_append.1 h
    · obtain ⟨-, h⟩ := List.mem_replicate.1 h
      cases h
      simp [ParseFunction.rank]
    · cases tgt with
      | false => cases h
      | true =>
        cases List.mem_singleton.1 h
        simp [ParseFunction.rank]
  | dataRefObject | index =>
    cases List.mem_singleton.1 h
    decide
  | namedField =>
    obtain h | h := List.mem_pair.1 h
    · cases h
    · cases h
      decide
  | _ => cases h

theorem scope_notMem_body : .scope ∉ f.body := by
  cases f with
  | op arity name tgt => cases tgt <;> simp [ParseFunction.body, operands]
  | _ => simp [ParseFunction.body]

/-- A function that is called by the first byte has a smaller rank. -/
theorem rank_lt_of_dispatch {f' : ParseFunction} {b : UInt8} (h : f.dispatch b = some f') :
    f'.rank < f.rank := by
  cases f with
  | termArg | superName | target | type2Opcode =>
    simp only [ParseFunction.dispatch] at h
    split_ifs at h <;> cases h <;> decide
  | _ => cases h

theorem Elements.rest {data d : ParseState} (h : Elements mem w data d) (hdata : data.begin_ ≤ data.end_) :
    Rest data d := by
  induction h with
  | start => exact .refl hdata
  | next _ _ hreturns ih => exact ih.trans (hreturns.rest ih.le_end)

theorem Objects.rest {data d : ParseState} (h : Objects mem w data w' d) (hdata : data.begin_ ≤ data.end_) :
    Rest data d := by
  induction h with
  | start => exact .refl hdata
  | next _ _ hreturns ih => exact ih.trans (hreturns.rest ih.le_end)

/-- The elements of a field list are always there. -/
theorem Returns.ne_none (h : Returns mem c w d r) (hdata : c.data.begin_ ≤ c.data.end_)
    (hf : c.f = .pkgLength ∨ c.f = .namedField) : r ≠ none := by
  obtain ⟨fuel, h⟩ := h
  obtain ⟨f, w₀, data⟩ := c
  obtain rfl | rfl := hf
  · obtain ⟨_, -, h⟩ := bind_eq_done.1 h
    cases h
    nofun
  · obtain ⟨⟨w₁, d₁, n⟩, hrun, h⟩ := bind_eq_done.1 h
    cases h
    have hfield : Alike (Good mem mem ⟨.namedField, w₀, data⟩) True
        (Enough mem 0 ⟨.namedField, w₀, data⟩ 0) _ _ _ :=
      parseNamedField_alike (w := w₀) (fun _ _ _ => rfl) (.refl hdata)
    have hsome := (hfield.post _ hrun).2
    cases n with
    | none => exact absurd rfl hsome
    | some n => nofun

theorem Returns.rest_of_element (h : Returns mem c w d r) (hdata : c.data.begin_ ≤ c.data.end_)
    (hf : c.f = .pkgLength ∨ c.f = .namedField) : Rest c.data d := by
  have hextent := h.extent hdata
  exact ⟨hextent.within.lo_le, hextent.within.le_end, hextent.end_eq (.inl (h.ne_none hdata hf))⟩

theorem Fields.rest {data d : ParseState} (h : Fields mem w data w' d) (hdata : data.begin_ ≤ data.end_) :
    Rest data d := by
  induction h with
  | start => exact .refl hdata
  | reserved _ hconsume hreturns ih =>
    have hrest := ih.trans (shorter_of_consume hconsume).toRest
    exact hrest.trans (hreturns.rest_of_element hrest.le_end (.inl rfl))
  | access _ hconsume hskip ih =>
    have hrest := ih.trans (shorter_of_consume hconsume).toRest
    exact hrest.trans (skip_spec hskip hrest.le_end).1
  | named _ _ _ hreturns ih => exact ih.trans (hreturns.rest_of_element ih.le_end (.inr rfl))

/-- The else branch comes behind the package of its if branch. -/
theorem ElseBranch.shorter {data d : ParseState} (h : ElseBranch mem w data w' d)
    (hdata : data.begin_ ≤ data.end_) : Shorter data d := by
  obtain ⟨hop, hadjust, -, -, -, hop'⟩ := h
  have hd := shorter_of_consumeOpcode hdata hop
  have hpkg := package_of_adjustWithPkgLength hd.le_end hadjust
  exact (hd.trans hpkg.shorter).trans (shorter_of_consumeOpcode hpkg.shorter.le_end hop')

/-- A call comes before another one: its view contains that of the other one, and is longer
unless the other one has a smaller rank. -/
structure Before (c c' : Call) : Prop where
  /-- the view of the other call lies in its view -/
  within : Within c.data.begin_ c.data.end_ c'.data
  /-- the other call is a smaller one -/
  less : c'.data.size < c.data.size ∨ c'.f.rank < c.f.rank

theorem Before.of_rank (h : Within c.data.begin_ c.data.end_ c'.data) (hrank : c'.f.rank < c.f.rank) :
    Before c c' := ⟨h, .inr hrank⟩

/-- The view of the other call lies behind something that was taken. -/
theorem Before.of_shorter (h : Shorter c.data d) (hc : Within d.begin_ d.end_ c'.data) : Before c c' := by
  have hsize := h.size_lt
  obtain ⟨hlo, hle, hhi⟩ := hc
  refine ⟨⟨h.begin_le.trans hlo, hle, hhi.trans h.end_eq.le⟩, .inl ?_⟩
  simp only [size] at *
  omega

theorem Before.trans (h : Before c c') (h' : Before c' c'') : Before c c'' := by
  refine ⟨h.within.trans h'.within, ?_⟩
  have hsize : c'.data.size ≤ c.data.size := h.within.size_le
  have hsize' : c''.data.size ≤ c'.data.size := h'.within.size_le
  have hless := h.less
  have hless' := h'.less
  omega

/-- **A call comes before the calls that it makes.** -/
theorem Calls.before (h : Calls mem k c c') (hdata : c.data.begin_ ≤ c.data.end_) : Before c c' := by
  cases h with
  | first _ hdispatch => exact .of_rank (.refl hdata) (rank_lt_of_dispatch hdispatch)
  | body hamong =>
    refine .of_rank (hamong.within hdata) ?_
    obtain hf | ⟨-, hscope⟩ := hamong.function
    · exact rank_lt_of_body hf
    · exact absurd hscope scope_notMem_body
  | behind hop hamong =>
    have hd := shorter_of_consumeOpcode hdata hop
    exact .of_shorter hd (hamong.within hd.le_end)
  | negation hop _ hamong =>
    have hd := shorter_of_consumeOpcode hdata hop
    exact .of_shorter hd (hamong.within hd.le_end)
  | argument _ _ hparse _ _ _ hamong =>
    have hd := shorter_of_parseNameString hdata hparse
    exact .of_shorter hd (hamong.within hd.le_end)
  | operator => exact .of_rank (.refl hdata) (by simp [ParseFunction.rank])
  | pkgLength hop _ =>
    have hd := shorter_of_consumeOpcode hdata hop
    exact .of_shorter hd (.refl hd.le_end)
  | inPackage hop _ hadjust hamong =>
    have hd := shorter_of_consumeOpcode hdata hop
    have hpkg := package_of_adjustWithPkgLength hd.le_end hadjust
    exact .of_shorter hd (hpkg.in_view.trans (hamong.within hpkg.le_end))
  | element hop hadjust hconsume helements _ =>
    have hd := shorter_of_consumeOpcode hdata hop
    have hpkg := package_of_adjustWithPkgLength hd.le_end hadjust
    have hd₁ := shorter_of_consume hconsume
    exact .of_shorter hd (hpkg.in_view.rest (hd₁.toRest.trans (helements.rest hd₁.le_end)))
  | object hf hobjects _ =>
    refine .of_rank ((Within.refl hdata).rest (hobjects.rest hdata)) ?_
    obtain rfl | rfl := hf <;> simp [ParseFunction.rank]
  | reserved hfields hconsume =>
    have hrest := (hfields.rest hdata).trans (shorter_of_consume hconsume).toRest
    exact .of_rank ((Within.refl hdata).rest hrest) (by simp [ParseFunction.rank])
  | named hfields _ _ =>
    exact .of_rank ((Within.refl hdata).rest (hfields.rest hdata)) (by simp [ParseFunction.rank])
  | elseLength hbranch =>
    have hd := hbranch.shorter hdata
    exact .of_shorter hd (.refl hd.le_end)
  | elseList hbranch hadjust =>
    have hd := hbranch.shorter hdata
    exact .of_shorter hd (package_of_adjustWithPkgLength hd.le_end hadjust).in_view

/-- The view of a call that is reached lies in the view of the first call. -/
theorem Reaches.within (h : Reaches mem c c') (hdata : c.data.begin_ ≤ c.data.end_) :
    Within c.data.begin_ c.data.end_ c'.data := by
  induction h with
  | refl => exact .refl hdata
  | tail _ hcalls ih =>
    obtain ⟨k, hcalls⟩ := hcalls
    exact ih.trans (hcalls.before ih.le_end).within

/-- The same along a path of calls -/
theorem before_of_path (h : Relation.TransGen (fun c c' => ∃ k, Calls mem k c c') c c')
    (hdata : c.data.begin_ ≤ c.data.end_) : Before c c' := by
  induction h with
  | single hcalls =>
    obtain ⟨k, hcalls⟩ := hcalls
    exact hcalls.before hdata
  | tail _ hcalls ih =>
    obtain ⟨k, hcalls⟩ := hcalls
    exact ih.trans (hcalls.before ih.within.le_end)

/-! ## Loops -/

/-- The functions are the same: an operator is parsed by the same function, whatever its
name is. -/
def ParseFunction.Same : ParseFunction → ParseFunction → Prop
  | op _ _ _, op _ _ _ => True
  | f, f' => f = f'

theorem ParseFunction.Same.rank_eq {f f' : ParseFunction} (h : f.Same f') : f'.rank = f.rank := by
  unfold Same at h
  split at h
  · rfl
  · rw [h]

section Lists

variable {σ α : Type} {op : α → Opcode} {destroy : List α → σ → Outcome σ}
  {p : σ → ParseState → Outcome (σ × ParseState × Option α)} {s s' : σ} {objs : List α}

/-- A list that is returned ends at the end of its view, if its elements do not change
the end. -/
theorem parseList_exhausted {ns : List α} (hdata : data.begin_ ≤ data.end_)
    (hp : ∀ ⦃s s' d d'⦄ ⦃obj : α⦄, d.begin_ ≤ d.end_ → p s d = done (s', d', some obj) → Rest d d')
    (h : parseList op destroy p fuel s data objs = done (s', d, some ns)) :
    d = ⟨data.end_, data.end_⟩ := by
  induction fuel generalizing s data objs with
  | zero => cases h
  | succ fuel ih =>
    rw [parseList] at h
    split at h
    case isTrue hend =>
      cases h
      rw [← hend]
      exact congrArg (ParseState.mk _) hend.symm
    · obtain ⟨⟨s₁, d₁, res⟩, hrun, h⟩ := bind_eq_done.1 h
      cases res with
      | none =>
        obtain ⟨_, -, h⟩ := bind_eq_done.1 h
        cases h
      | some obj =>
        have hrest := hp hdata hrun
        rw [← hrest.end_eq]
        dsimp only at h
        split at h
        · exact ih hrest.le_end h
        · obtain ⟨_, -, h⟩ := bind_eq_done.1 h
          exact ih hrest.le_end h

end Lists

/-- **A round of `parse_field_list` takes at least a byte.** -/
theorem parseFieldListFrom_round {elements : List Node} {res : World × ParseState × Option (List Node)}
    (hdata : data.begin_ ≤ data.end_) (hne : data.begin_ ≠ data.end_)
    (h : parseFieldListFrom mem (fuel + 1) elements w data = done res) :
    ∃ elements' w' d, Shorter data d ∧ parseFieldListFrom mem fuel elements' w' d = done res := by
  rw [parseFieldListFrom] at h
  dsimp only at h
  rw [if_neg hne] at h
  obtain ⟨first, -, h⟩ := bind_eq_done.1 h
  split at h
  · obtain ⟨⟨_, d₁⟩, hconsume, h⟩ := bind_eq_done.1 h
    obtain ⟨⟨d₂, len⟩, hlen, h⟩ := bind_eq_done.1 h
    have hd₁ := shorter_of_consume hconsume
    have hreturns : Returns mem ⟨.pkgLength, w, d₁⟩ w d₂ (some []) := by
      refine ⟨0, ?_⟩
      simp only [ParseFunction.result, hlen, done_bind]
      rfl
    exact ⟨_, _, d₂, hd₁.trans_rest (hreturns.rest hd₁.le_end), h⟩
  split at h
  · obtain ⟨⟨_, d₁⟩, hconsume₁, h⟩ := bind_eq_done.1 h
    obtain ⟨⟨_, d₂⟩, hconsume₂, h⟩ := bind_eq_done.1 h
    obtain ⟨⟨_, d₃⟩, hconsume₃, h⟩ := bind_eq_done.1 h
    have hd := (shorter_of_consume hconsume₁).trans (shorter_of_consume hconsume₂)
    exact ⟨_, _, d₃, hd.trans (shorter_of_consume hconsume₃), h⟩
  split at h
  · obtain ⟨⟨w₁, d₁, n⟩, hfield, h⟩ := bind_eq_done.1 h
    have hreturns : Returns mem ⟨.namedField, w, data⟩ w₁ d₁ (nodeTrees n) := by
      refine ⟨0, ?_⟩
      simp only [ParseFunction.result, hfield, done_bind]
      rfl
    exact ⟨_, _, d₁, ⟨hreturns.rest_of_element hdata (.inr rfl), (hreturns.extent hdata).begin_lt rfl⟩, h⟩
  · cases h

/-- `parse_field_list` ends at the end of its view. -/
theorem parseFieldListFrom_exhausted {elements : List Node} (hdata : data.begin_ ≤ data.end_)
    (h : parseFieldListFrom mem fuel elements w data = done (w', d, r)) :
    d = ⟨data.end_, data.end_⟩ := by
  induction fuel generalizing elements w data with
  | zero => cases h
  | succ fuel ih =>
    by_cases hend : data.begin_ = data.end_
    · rw [parseFieldListFrom] at h
      dsimp only at h
      rw [if_pos hend] at h
      cases h
      rw [← hend]
      exact congrArg (ParseState.mk _) hend.symm
    · obtain ⟨_, _, d₁, hd₁, h⟩ := parseFieldListFrom_round hdata hend h
      rw [← hd₁.end_eq]
      exact ih hd₁.le_end h

/-- An element of a package -/
theorem parsePackageElement_termExtent {t : Option Term} (hdata : data.begin_ ≤ data.end_)
    (h : parsePackageElement mem w fuel data = done (d, t)) : TermExtent .termArg data d t := by
  have helements : TermsAlike mem mem data.begin_ data.end_ 0 True fuel fuel ∧
      ElementsAlike mem mem data.begin_ data.end_ 0 True fuel fuel :=
    terms_alike (fun _ _ _ => rfl) le_rfl fun _ => rfl
  exact ((helements.2 w data (.refl hdata)).post _ h).1

theorem parsePackageElement_extent {t : Option Term} (hdata : data.begin_ ≤ data.end_)
    (h : parsePackageElement mem w fuel data = done (d, t)) : Shorter data d :=
  (parsePackageElement_termExtent hdata h).shorter rfl

/-- An object -/
theorem returns_termObj {n : Option Node} (h : parseTermObj mem fuel w data = done (w', d, n)) :
    Returns mem ⟨.termObj, w, data⟩ w' d (nodeTrees n) := by
  refine ⟨fuel, ?_⟩
  simp only [ParseFunction.result, h, done_bind]
  rfl

/-- **The parser terminates.** Every parse function returns or aborts, whatever the bytes
are and whatever is in the name space. When a function is called again before it has
returned, its view is strictly shorter. An element of a list takes at least a byte, so that
a list that is returned ends at the end of its view. -/
theorem parser_terminates {mem : Memory} {top : ℕ} (hmem : mem.Finite top) {w : World} (hw : w.Sound)
    {data : ParseState} (hdata : data.begin_ ≤ data.end_) :
    (∀ f : ParseFunction, ∃ n, (f.result mem n w data).Ends ∧
      ∀ fuel, n ≤ fuel → f.result mem fuel w data = f.result mem n w data) ∧
    (∀ f c', Relation.TransGen (fun c c' => ∃ k, Calls mem k c c') ⟨f, w, data⟩ c' → f.Same c'.f →
      c'.data.size < data.size) ∧
    (∀ fuel w' d n, parseTermObj mem fuel w data = done (w', d, n) → data.begin_ < d.begin_) ∧
    (∀ fuel d t, parsePackageElement mem w fuel data = done (d, t) → data.begin_ < d.begin_) ∧
    (∀ fuel elements res, data.begin_ ≠ data.end_ →
      parseFieldListFrom mem (fuel + 1) elements w data = done res → ∃ elements' w' d,
        data.begin_ < d.begin_ ∧ d.end_ = data.end_ ∧
          parseFieldListFrom mem fuel elements' w' d = done res) ∧
    (∀ fuel w' d ns, parseTermList mem fuel w data = done (w', d, some ns) ∨
      parseObjectList mem fuel w data = done (w', d, some ns) → d = ⟨data.end_, data.end_⟩) ∧
    (∀ n fuel d ns, parseList Term.opcode (fun _ u => pure u)
      (fun u data => do
        let (data, element) ← parsePackageElement mem w fuel data
        pure (u, data, element)) n () data [] = done ((), d, some ns) → d = ⟨data.end_, data.end_⟩) ∧
    ∀ fuel w' d r, parseFieldList mem fuel w data = done (w', d, r) → d = ⟨data.end_, data.end_⟩ := by
  refine ⟨fun f => ?_, fun f c' hpath hsame => ?_, fun fuel w' d n h => ?_,
    fun fuel d t h => (parsePackageElement_extent hdata h).begin_lt, fun fuel elements res hne h => ?_,
    fun fuel w' d ns h => ?_, fun n fuel d ns h => ?_,
    fun fuel w' d r h => parseFieldListFrom_exhausted hdata h⟩
  · have hends : (f.result mem (bound top ⟨f, w, data⟩) w data).Ends := result_ends hmem hw hdata le_rfl
    exact ⟨_, hends, fun fuel hfuel => result_mono hdata hfuel hends⟩
  · exact (before_of_path hpath hdata).less.resolve_right fun hlt => hlt.ne hsame.rank_eq
  · exact ((returns_termObj h).extent hdata).begin_lt rfl
  · obtain ⟨elements', w', d, hd, h⟩ := parseFieldListFrom_round hdata hne h
    exact ⟨elements', w', d, hd.begin_lt, hd.end_eq, h⟩
  · have hobjects {fuel w} {objs : List Node}
        (h : parseList Node.opcode destroyAll (parseTermObj mem fuel) fuel w data objs =
          done (w', d, some ns)) : d = ⟨data.end_, data.end_⟩ :=
      parseList_exhausted hdata (fun _ _ _ _ _ hd h => (returns_termObj h).rest hd) h
    obtain _ | fuel := fuel
    · rw [parseTermList, parseObjectList] at h
      obtain h | h := h <;> cases h
    · rw [parseTermList, parseObjectList] at h
      exact hobjects (or_self_iff.1 h)
  · refine parseList_exhausted hdata (fun _ _ d d' _ hd h => ?_) h
    obtain ⟨⟨d₁, t⟩, hrun, h⟩ := bind_eq_done.1 h
    cases h
    exact (parsePackageElement_extent hd hrun).toRest

/-- The name space is empty and the byte string is that of a device. -/
theorem parser_terminates_device : ∃ n,
    (ParseFunction.termList.result (.ofList deviceCode) n ⟨⟨[], []⟩, fun _ => none, 0⟩ ⟨0, 13⟩).Ends ∧
    ∀ fuel, n ≤ fuel →
      ParseFunction.termList.result (.ofList deviceCode) fuel ⟨⟨[], []⟩, fun _ => none, 0⟩ ⟨0, 13⟩ =
        ParseFunction.termList.result (.ofList deviceCode) n ⟨⟨[], []⟩, fun _ => none, 0⟩ ⟨0, 13⟩ :=
  (parser_terminates (Memory.ofList_finite deviceCode) (.init [])
    (show (⟨0, 13⟩ : ParseState).begin_ ≤ (⟨0, 13⟩ : ParseState).end_ by decide)).1 .termList

end Attos.Aml

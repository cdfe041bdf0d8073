import Attos.Aml.CallExtents

/-!
# Reads outside of a view

A call reads inside its view (`ReadsInside`) if its outcome does not depend on what an access
to an address outside does, not even on whether the access faults or never answers. The parse
functions read inside their views unless one of them gets a view that it overruns
(`Overruns`): a dual name path or a string that is cut off, or the begin of no super name, for
which it dumps what is before the view.
-/

namespace Attos.Aml

open Lib Outcome ParseState

/-- The outcome of a call is the same in every memory that agrees on its view. -/
def ReadsInside (mem : Memory) (c : Call) : Prop :=
  ∀ (mem' : Memory) (fuel : ℕ), (∀ a, c.data.begin_ ≤ a → a < c.data.end_ → mem' a = mem a) →
    c.f.result mem' fuel c.w c.data = c.f.result mem fuel c.w c.data

/-- An access that does not return: it faults or never answers. -/
def stop {α : Type} (answers : Bool) : Outcome α := if answers then abort else running

/-- A memory that holds nothing but the bytes of a view. -/
def Memory.cut (mem : Memory) (data : ParseState) (answers : Bool) : Memory := fun a =>
  if data.begin_ ≤ a ∧ a < data.end_ then mem a else stop answers

variable {mem : Memory} {c : Call} {w : World} {data d : ParseState} {answers : Bool} {a n fuel : ℕ}

@[simp] theorem stop_bind {α β : Type} (f : α → Outcome β) : (stop answers >>= f) = stop answers := by
  cases answers <;> rfl

theorem cut_of_mem (hlo : data.begin_ ≤ a) (hhi : a < data.end_) :
    mem.cut data answers a = mem a := if_pos ⟨hlo, hhi⟩

theorem cut_of_end_le (h : data.end_ ≤ a) : mem.cut data answers a = stop answers :=
  if_neg fun ⟨_, hhi⟩ => absurd h (not_le.2 hhi)

theorem cut_of_lt_begin (h : a < data.begin_) : mem.cut data answers a = stop answers :=
  if_neg fun ⟨hlo, _⟩ => absurd h (not_lt.2 hlo)

/-- A call that stops at an access outside of its view does not read inside of it. -/
theorem not_readsInside_of_stop (fuel : ℕ)
    (h : ∀ answers, c.f.result (mem.cut c.data answers) fuel c.w c.data = stop answers) :
    ¬ ReadsInside mem c := by
  intro hinside
  have hagree (answers : Bool) : c.f.result mem fuel c.w c.data = stop answers := by
    rw [← h answers]
    exact (hinside _ fuel fun a hlo hhi => cut_of_mem hlo hhi).symm
  have hsame := (hagree true).symm.trans (hagree false)
  cases hsame

/-! ## Names -/

section Bytes

variable {b : UInt8} (hlt : data.begin_ < data.end_) (hb : mem data.begin_ = done b)

include hlt hb

theorem peek_of_lt : data.peek mem = done b := by
  have hsize : data.size ≠ 0 := by
    rw [size]
    omega
  rw [peek, require_pos hsize, done_bind, hb]

theorem consume_of_lt : data.consume mem = done (b, ⟨data.begin_ + 1, data.end_⟩) := by
  have hsize : 1 ≤ data.size := by
    rw [size]
    omega
  rw [consume, skip, require_pos hsize, done_bind, pure_eq, done_bind, hb, done_bind]
  rfl

end Bytes

/-- The characters before one that cannot be read are valid. -/
theorem validNameseg_stop {k : ℕ} (hk : k < 4) (hvalid : ∀ j < k, ∃ c, mem (a + j) = done c ∧ isSegChar j c)
    (hstop : mem (a + k) = stop answers) : validNameseg mem a = stop answers := by
  have hchar (j : ℕ) (hj : j < k) : ∃ c, mem (a + j) = done c ∧ isSegChar j c := hvalid j hj
  rw [validNameseg]
  match k, hk with
  | 0, _ =>
    rw [Nat.add_zero] at hstop
    rw [hstop, stop_bind]
  | 1, _ =>
    obtain ⟨c₀, h₀, hc₀⟩ := hchar 0 (by decide)
    rw [Nat.add_zero] at h₀
    have hlead : isLeadNameChar c₀ := hc₀
    rw [h₀, done_bind, if_neg (not_not.2 hlead), hstop, stop_bind]
  | 2, _ =>
    obtain ⟨c₀, h₀, hc₀⟩ := hchar 0 (by decide)
    obtain ⟨c₁, h₁, hc₁⟩ := hchar 1 (by decide)
    rw [Nat.add_zero] at h₀
    have hlead : isLeadNameChar c₀ := hc₀
    have hname₁ : isNameChar c₁ := hc₁
    rw [h₀, done_bind, if_neg (not_not.2 hlead), h₁, done_bind, if_neg (not_not.2 hname₁), hstop, stop_bind]
  | 3, _ =>
    obtain ⟨c₀, h₀, hc₀⟩ := hchar 0 (by decide)
    obtain ⟨c₁, h₁, hc₁⟩ := hchar 1 (by decide)
    obtain ⟨c₂, h₂, hc₂⟩ := hchar 2 (by decide)
    rw [Nat.add_zero] at h₀
    have hlead : isLeadNameChar c₀ := hc₀
    have hname₁ : isNameChar c₁ := hc₁
    have hname₂ : isNameChar c₂ := hc₂
    rw [h₀, done_bind, if_neg (not_not.2 hlead), h₁, done_bind, if_neg (not_not.2 hname₁), h₂, done_bind,
      if_neg (not_not.2 hname₂), hstop, stop_bind]

/-- A segment of valid characters -/
theorem validNameseg_valid (hvalid : ∀ j < 4, ∃ c, mem (a + j) = done c ∧ isSegChar j c) :
    validNameseg mem a = done true := by
  obtain ⟨c₀, h₀, hc₀⟩ := hvalid 0 (by decide)
  obtain ⟨c₁, h₁, hc₁⟩ := hvalid 1 (by decide)
  obtain ⟨c₂, h₂, hc₂⟩ := hvalid 2 (by decide)
  obtain ⟨c₃, h₃, hc₃⟩ := hvalid 3 (by decide)
  rw [Nat.add_zero] at h₀
  have hlead : isLeadNameChar c₀ := hc₀
  have hname₁ : isNameChar c₁ := hc₁
  have hname₂ : isNameChar c₂ := hc₂
  have hname₃ : isNameChar c₃ := hc₃
  rw [validNameseg, h₀, done_bind, if_neg (not_not.2 hlead), h₁, done_bind, if_neg (not_not.2 hname₁), h₂,
    done_bind, if_neg (not_not.2 hname₂), h₃, done_bind, decide_eq_true hname₃]
  rfl

/-- The part of a name behind its prefixes, where a dual name path is cut off -/
theorem parseNamePath_stop (hlt : d.begin_ < d.end_) (hdual : mem d.begin_ = done dualNamePathStart)
    (htrunc : TruncatedSegs mem ⟨d.begin_ + 1, d.end_⟩)
    (hstop : mem d.end_ = stop answers) : parseNamePath mem d = stop answers := by
  obtain ⟨hshort, hvalid⟩ := htrunc
  dsimp only at hshort hvalid
  rw [parseNamePath, consume_of_lt hlt hdual, done_bind]
  dsimp only
  rw [if_neg (by decide), if_pos rfl]
  -- the number of characters before the end
  obtain ⟨k, hk⟩ := Nat.exists_eq_add_of_le (Nat.succ_le_of_lt hlt)
  rw [Nat.succ_eq_add_one] at hk
  by_cases hfirst : k < 4
  · have hseg : validNameseg mem (d.begin_ + 1) = stop answers := by
      refine validNameseg_stop hfirst (fun j hj => ?_) (hk ▸ hstop)
      obtain ⟨c, hc, hseg⟩ := hvalid j (by omega)
      exact ⟨c, hc, by rwa [Nat.mod_eq_of_lt (by omega)] at hseg⟩
    rw [hseg, stop_bind]
  · have hseg : validNameseg mem (d.begin_ + 1) = done true := by
      refine validNameseg_valid fun j hj => ?_
      obtain ⟨c, hc, hseg⟩ := hvalid j (by omega)
      exact ⟨c, hc, by rwa [Nat.mod_eq_of_lt hj] at hseg⟩
    have hseg' : validNameseg mem (d.begin_ + 1 + 4) = stop answers := by
      have hsub : d.begin_ + 1 + 4 + (k - 4) = d.end_ := by omega
      refine validNameseg_stop (k := k - 4) (by omega) (fun j hj => ?_) (hsub ▸ hstop)
      obtain ⟨c, hc, hseg⟩ := hvalid (4 + j) (by omega)
      rw [← Nat.add_assoc] at hc
      refine ⟨c, hc, ?_⟩
      rwa [Nat.add_mod_left, Nat.mod_eq_of_lt (by omega)] at hseg
    rw [hseg, done_bind, require_pos rfl, done_bind, hseg', stop_bind]

/-- The loop over the parent prefixes ends behind them. -/
theorem parseParentPrefixes_prefixed (hd : Rest data d) (hn : d.begin_ - data.begin_ ≤ n)
    (hparent : ∀ a, data.begin_ ≤ a → a < d.begin_ → mem a = done parentPrefixChar) (hlt : d.begin_ < d.end_)
    {b : UInt8} (hb : mem d.begin_ = done b) (hne : b ≠ parentPrefixChar) :
    ∃ start, parseParentPrefixes mem n data = done (d, start) := by
  have hend := hd.end_eq
  induction n generalizing data with
  | zero =>
    obtain rfl : data = d := by
      have hbegin : data.begin_ = d.begin_ := le_antisymm hd.begin_le (by omega)
      cases data
      cases d
      exact congrArg₂ _ hbegin hend.symm
    rw [parseParentPrefixes, peek_of_lt hlt hb, done_bind, if_neg hne]
    exact ⟨[], rfl⟩
  | succ n ih =>
    obtain hbegin | hbegin := eq_or_lt_of_le hd.begin_le
    · obtain rfl : data = d := by
        cases data
        cases d
        exact congrArg₂ _ hbegin hend.symm
      rw [parseParentPrefixes, peek_of_lt hlt hb, done_bind, if_neg hne]
      exact ⟨[], rfl⟩
    · have hdata : data.begin_ < data.end_ := by omega
      have hfirst := hparent data.begin_ le_rfl hbegin
      obtain ⟨start, hrest⟩ := @ih ⟨data.begin_ + 1, data.end_⟩ ⟨hbegin, hd.le_end, hend⟩
        (by dsimp only; omega) (fun a hlo hhi => hparent a (Nat.le_of_succ_le hlo) hhi) hend
      rw [parseParentPrefixes, peek_of_lt hdata hfirst, done_bind, if_pos rfl, consume_of_lt hdata hfirst,
        done_bind]
      dsimp only
      rw [hrest]
      exact ⟨_, rfl⟩

/-- A dual name path that is cut off is read on behind the end of the view. -/
theorem parseNameString_stop (h : TruncatedDual mem data) :
    parseNameString (mem.cut data answers) data = stop answers := by
  obtain ⟨d, hd, hparents, hlt, hdual, hshort, hvalid⟩ := h
  have hend := hd.end_eq
  have hin {a : ℕ} (hlo : data.begin_ ≤ a) (hhi : a < d.end_) : mem.cut data answers a = mem a :=
    cut_of_mem hlo (hhi.trans_eq hend)
  have hpath : parseNamePath (mem.cut data answers) d = stop answers := by
    refine parseNamePath_stop hlt ((hin hd.begin_le hlt).trans hdual) ⟨hshort, fun j hj => ?_⟩
      (cut_of_end_le hend.ge)
    obtain ⟨c, hc, hseg⟩ := hvalid j hj
    have hbegin := hd.begin_le
    exact ⟨c, (hin (by dsimp only; omega) hj).trans hc, hseg⟩
  have hdata : data.begin_ < data.end_ := hd.begin_le.trans_lt (hlt.trans_eq hend)
  rw [parseNameString]
  obtain ⟨hbegin, hroot⟩ | hparent := hparents
  · have hfirst : mem.cut data answers data.begin_ = done rootChar :=
      (cut_of_mem le_rfl hdata).trans hroot
    have hrest : d = ⟨data.begin_ + 1, data.end_⟩ := by
      cases d
      exact congrArg₂ _ hbegin hend
    rw [peek_of_lt hdata hfirst, done_bind, if_pos rfl, consume_of_lt hdata hfirst]
    simp only [done_bind, pure_eq]
    rw [← hrest, hpath, stop_bind]
  · have hfirst : ∃ b, mem.cut data answers data.begin_ = done b ∧ b ≠ rootChar := by
      obtain hbegin | hbegin := eq_or_lt_of_le hd.begin_le
      · exact ⟨dualNamePathStart, by rw [cut_of_mem le_rfl hdata, hbegin, hdual], by decide⟩
      · exact ⟨parentPrefixChar, by rw [cut_of_mem le_rfl hdata, hparent _ le_rfl hbegin], by decide⟩
    obtain ⟨b, hb, hne⟩ := hfirst
    obtain ⟨start, hstart⟩ : ∃ start, parseParentPrefixes (mem.cut data answers) data.size data =
        done (d, start) := by
      refine parseParentPrefixes_prefixed hd ?_ (fun a hlo hhi => ?_) hlt ((hin hd.begin_le hlt).trans hdual)
        (by decide)
      · rw [size]
        have hle := hd.le_end
        omega
      · exact (hin hlo (hhi.trans hlt)).trans (hparent a hlo hhi)
    rw [peek_of_lt hdata hb, done_bind, if_neg hne, hstart]
    simp only [done_bind]
    rw [hpath, stop_bind]

/-! ## Strings and dumps -/

/-- A string without an end is read on behind the end of the view. -/
theorem readString_stop {stopAt : ℕ} (hle : a ≤ stopAt) (hfuel : stopAt - a < fuel)
    (hbytes : ∀ a', a ≤ a' → a' < stopAt → ∃ c, mem a' = done c ∧ c ≠ 0)
    (hstop : mem stopAt = stop answers) : mem.readString fuel a = stop answers := by
  induction fuel generalizing a with
  | zero => exact absurd hfuel (Nat.not_lt_zero _)
  | succ fuel ih =>
    rw [Memory.readString]
    obtain rfl | hlt := eq_or_lt_of_le hle
    · rw [hstop, stop_bind]
    · obtain ⟨c, hc, hne⟩ := hbytes a le_rfl hlt
      have hrest := ih (a := a + 1) hlt (by omega) fun a' hlo hhi => hbytes a' (Nat.le_of_succ_le hlo) hhi
      rw [hc, done_bind, if_neg hne, hrest, stop_bind]

/-- A dump from an address that cannot be read -/
theorem hexdump_stop (hlt : a + n + 15 < 2 ^ 64) (hn : 0 < n) (hstop : mem a = stop answers) :
    hexdump mem a n = stop answers := by
  obtain ⟨n, rfl⟩ := Nat.exists_eq_succ_of_ne_zero hn.ne'
  rw [hexdump, if_pos hlt, Memory.read, hstop, stop_bind, stop_bind]

theorem consumeOpcode_cut (hdata : data.begin_ ≤ data.end_) :
    data.consumeOpcode (mem.cut data answers) = data.consumeOpcode mem := by
  have hsetting : Setting mem (mem.cut data answers) data.begin_ data.end_ 0 False :=
    ⟨fun _ hlo hhi => cut_of_mem hlo hhi, False.elim⟩
  have hop : Alike True True False _ _ _ := consumeOpcode_alike hsetting (.refl hdata)
  exact hop.same trivial (.inl trivial)

/-- A string that does not end in the view -/
theorem parseDataObject_stop_of_unterminated (hdata : data.begin_ ≤ data.end_) (h : Unterminated mem data) :
    parseDataObject (mem.cut data answers) w (data.size + 1) data = stop answers := by
  obtain ⟨d, hop, hbytes⟩ := h
  have hd := shorter_of_consumeOpcode hdata hop
  have hend := hd.end_eq
  rw [← consumeOpcode_cut hdata] at hop
  rw [parseDataObject, hop, done_bind]
  dsimp only
  rw [require_pos (by decide), done_bind]
  have hstring : (mem.cut data answers).readString data.size d.begin_ = stop answers := by
    have hsize : d.size < data.size := hd.size_lt
    refine readString_stop hd.le_end hsize (fun a hlo hhi => ?_) (cut_of_end_le hend.ge)
    obtain ⟨c, hc, hne⟩ := hbytes a hlo hhi
    exact ⟨c, by rw [cut_of_mem (hd.begin_le.trans hlo) (hhi.trans_eq hend), hc], hne⟩
  rw [hstring, stop_bind]

/-- A first byte that no super name has -/
theorem parseSuperName_stop (h : DumpsBefore mem data) :
    parseSuperName (mem.cut data answers) w (fuel + 1) data = stop answers := by
  obtain ⟨c, hpeek, hdispatch, hlt⟩ := h
  have hlt' : data.begin_ < data.end_ := Nat.lt_of_sub_ne_zero (require_bind_eq_done.1 hpeek).1
  have hfirst : mem.cut data answers data.begin_ = done c :=
    (cut_of_mem le_rfl hlt').trans (peek_eq_done hpeek)
  simp only [ParseFunction.dispatch] at hdispatch
  split_ifs at hdispatch with harg hname hop
  have hbefore : sub64 data.begin_ 10 < data.begin_ := by
    simp only [sub64, u64, size] at hlt ⊢
    omega
  have hlen : 0 < min 32 (data.size + 10) := by omega
  rw [parseSuperName, peek_of_lt hlt' hfirst, done_bind, if_neg harg, if_neg hname, if_neg hop,
    hexdump_stop hlt hlen (cut_of_lt_begin hbefore), stop_bind]

/-- **A call that overruns its view does not read inside of it.** -/
theorem Overruns.not_readsInside (h : Overruns mem c) (hdata : c.data.begin_ ≤ c.data.end_) :
    ¬ ReadsInside mem c := by
  obtain ⟨f, w, data⟩ := c
  cases f with
  | nameString =>
    refine not_readsInside_of_stop 0 fun answers => ?_
    simp only [ParseFunction.result]
    rw [parseNameString_stop h, stop_bind]
  | dataObject =>
    refine not_readsInside_of_stop (data.size + 1) fun answers => ?_
    simp only [ParseFunction.result, ParseFunction.term]
    rw [parseDataObject_stop_of_unterminated hdata h, stop_bind]
  | superName =>
    refine not_readsInside_of_stop 1 fun answers => ?_
    simp only [ParseFunction.result, ParseFunction.term]
    rw [parseSuperName_stop h, stop_bind]
  | _ => exact absurd h not_false

/-- **Reading inside of the views.** All calls of a parse read inside of their views if and
only if none of them gets a view that it overruns. -/
theorem reads_inside_iff (mem : Memory) {c : Call} (hdata : c.data.begin_ ≤ c.data.end_) :
    (∀ c', Reaches mem c c' → ReadsInside mem c') ↔ ∀ c', Reaches mem c c' → ¬ Overruns mem c' := by
  constructor
  · intro hinside c' hreach hoverruns
    exact hoverruns.not_readsInside (hreach.within hdata).le_end (hinside c' hreach)
  · intro hgood c' hreach mem' fuel hagree
    have halike : Alike (Good mem mem' c') True (Enough mem 0 c' fuel) _ _ _ :=
      result_alike hagree le_rfl (fun _ => rfl) (.refl (hreach.within hdata).le_end)
    exact halike.same (fun c'' hreach' => .inr (hgood c'' (hreach.trans hreach'))) (.inl trivial)

/-- The condition for the byte string of a device -/
theorem reads_inside_device : (∀ c', Reaches (.ofList deviceCode)
      ⟨.termList, ⟨⟨[], []⟩, fun _ => none, 0⟩, ⟨0, 13⟩⟩ c' → ReadsInside (.ofList deviceCode) c') ↔
    ∀ c', Reaches (.ofList deviceCode) ⟨.termList, ⟨⟨[], []⟩, fun _ => none, 0⟩, ⟨0, 13⟩⟩ c' →
      ¬ Overruns (.ofList deviceCode) c' :=
  reads_inside_iff (.ofList deviceCode) (by decide)

/-- `Name(` and the begin of a dual name path, of which three characters are missing. -/
def truncatedName : List UInt8 := [0x08, 0x2e, 0x41, 0x42, 0x43, 0x44, 0x45]

/-- The parser is given seven bytes and looks at an eighth one. -/
theorem truncatedName_overruns : ¬ ∀ c', Reaches (.ofList truncatedName)
    ⟨.termList, ⟨⟨[], []⟩, fun _ => none, 0⟩, ⟨0, 7⟩⟩ c' → ReadsInside (.ofList truncatedName) c' := by
  intro hinside
  have hobject : Calls (.ofList truncatedName) .tested
      ⟨.termList, ⟨⟨[], []⟩, fun _ => none, 0⟩, ⟨0, 7⟩⟩
      ⟨.termObj, ⟨⟨[], []⟩, fun _ => none, 0⟩, ⟨0, 7⟩⟩ := .object (.inl rfl) .start (by decide)
  have hop : (⟨0, 7⟩ : ParseState).consumeOpcode (.ofList truncatedName) = done (.name, ⟨1, 7⟩) := rfl
  have hname : Calls (.ofList truncatedName) .tested
      ⟨.termObj, ⟨⟨[], []⟩, fun _ => none, 0⟩, ⟨0, 7⟩⟩
      ⟨.nameString, ⟨⟨[], []⟩, fun _ => none, 0⟩, ⟨1, 7⟩⟩ := .behind hop .name
  refine Overruns.not_readsInside ?_ (by decide)
    (hinside _ (.tail (.single ⟨.tested, hobject⟩) ⟨.tested, hname⟩))
  refine ⟨⟨1, 7⟩, ⟨le_rfl, by decide, rfl⟩, .inr fun a hlo hhi => absurd hlo (not_le.2 hhi), by decide, rfl,
    by decide, fun j hj => ?_⟩
  have hlt : j < 5 := by
    dsimp only at hj
    omega
  interval_cases j <;> exact ⟨_, rfl, by decide⟩

end Attos.Aml

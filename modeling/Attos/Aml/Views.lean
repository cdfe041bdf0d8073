import Attos.Aml.ParseState
import Attos.Lib.Alike

/-!
# Reading from a view

What the functions on a `parse_state` leave of their view (`Rest`), and which bytes
they look at. Two memories that agree on a region of addresses cannot be told apart by
a function whose view lies in the region, unless it looks at bytes outside its view.
Only `parse_name_string` can do so here: the segments of a dual name path are looked at
before it is checked that the view holds eight bytes (`TruncatedDual`).
-/

namespace Attos.Aml

open Lib Outcome

namespace ParseState

/-- `d` is what remains of a view. -/
structure Rest (data d : ParseState) : Prop where
  /-- it begins in the view -/
  begin_le : data.begin_ ≤ d.begin_
  /-- it is a view -/
  le_end : d.begin_ ≤ d.end_
  /-- it has the same end -/
  end_eq : d.end_ = data.end_

/-- `d` is what remains when something was taken from the view. -/
structure Shorter (data d : ParseState) : Prop extends Rest data d where
  /-- it begins later -/
  begin_lt : data.begin_ < d.begin_

/-- The view lies in a region of addresses. -/
structure Within (lo hi : ℕ) (data : ParseState) : Prop where
  /-- it does not begin before -/
  lo_le : lo ≤ data.begin_
  /-- it is a view -/
  le_end : data.begin_ ≤ data.end_
  /-- it does not end behind -/
  le_hi : data.end_ ≤ hi

variable {data d d' : ParseState} {lo hi : ℕ}

theorem Rest.refl (h : data.begin_ ≤ data.end_) : Rest data data := ⟨le_rfl, h, rfl⟩

theorem Rest.trans (h : Rest data d) (h' : Rest d d') : Rest data d' :=
  ⟨h.begin_le.trans h'.begin_le, h'.le_end, h'.end_eq.trans h.end_eq⟩

theorem Shorter.trans_rest (h : Shorter data d) (h' : Rest d d') : Shorter data d' :=
  ⟨h.toRest.trans h', h.begin_lt.trans_le h'.begin_le⟩

theorem Rest.trans_shorter (h : Rest data d) (h' : Shorter d d') : Shorter data d' :=
  ⟨h.trans h'.toRest, h.begin_le.trans_lt h'.begin_lt⟩

theorem Shorter.trans (h : Shorter data d) (h' : Shorter d d') : Shorter data d' :=
  h.trans_rest h'.toRest

theorem Rest.size_le (h : Rest data d) : d.size ≤ data.size := by
  have hb := h.begin_le
  have he := h.end_eq
  rw [size, size, he]
  exact Nat.sub_le_sub_left hb _

theorem Shorter.size_lt (h : Shorter data d) : d.size < data.size := by
  have hb := h.begin_lt
  have hle := h.le_end
  have he := h.end_eq
  simp only [size] at *
  omega

theorem Within.rest (h : Within lo hi data) (hd : Rest data d) : Within lo hi d :=
  ⟨h.lo_le.trans hd.begin_le, hd.le_end, hd.end_eq.trans_le h.le_hi⟩

end ParseState

open ParseState

/-- Every access of a memory comes to an end, and there is nothing from an address on. -/
structure Memory.Finite (mem : Memory) (top : ℕ) : Prop where
  /-- an access comes to an end -/
  answers : ∀ a, (mem a).Ends
  /-- an access behind the memory faults -/
  faults : ∀ a, top ≤ a → mem a = .abort

/-- Two memories that agree on a region. The first one is finite when there is to be enough
fuel. -/
structure Setting (mem mem' : Memory) (lo hi top : ℕ) (enough : Prop) : Prop where
  /-- they agree on the region -/
  agree : ∀ a, lo ≤ a → a < hi → mem' a = mem a
  /-- the first one is finite -/
  finite : enough → mem.Finite top

section Bytes

variable {mem mem' : Memory} {lo hi top : ℕ} {good exact enough : Prop} {data d : ParseState} {a n : ℕ}

/-- A byte that is the same in both memories is read. -/
theorem Setting.byte_of (S : Setting mem mem' lo hi top enough) (h : good → mem' a = mem a) :
    Alike good exact enough (fun _ => True) (mem a) (mem' a) :=
  ⟨fun _ _ => trivial, fun hg _ => h hg, fun he => (S.finite he).answers a⟩

/-- Bytes that are the same in both memories are read. -/
theorem Setting.read_of (S : Setting mem mem' lo hi top enough)
    (h : good → ∀ k < n, mem' (a + k) = mem (a + k)) :
    Alike good exact enough (fun _ => True) (mem.read a n) (mem'.read a n) := by
  induction n generalizing a with
  | zero => exact .pure trivial
  | succ n ih =>
    refine (S.byte_of fun hg => h hg 0 (Nat.succ_pos n)).bind fun b _ _ => ?_
    refine (ih fun hg k hk => ?_).bind fun l _ _ => .pure trivial
    rw [Nat.add_assoc, Nat.add_comm 1 k]
    exact h hg (k + 1) (Nat.succ_lt_succ hk)

/-- A byte of the region is read. -/
theorem Setting.byte (S : Setting mem mem' lo hi top enough) (hlo : lo ≤ a) (hhi : a < hi) :
    Alike good exact enough (fun _ => True) (mem a) (mem' a) :=
  S.byte_of fun _ => S.agree a hlo hhi

/-- Bytes of the region are read. -/
theorem Setting.read (S : Setting mem mem' lo hi top enough) (hlo : lo ≤ a) (hhi : a + n ≤ hi) :
    Alike good exact enough (fun _ => True) (mem.read a n) (mem'.read a n) :=
  S.read_of fun _ k hk => S.agree _ (by omega) (by omega)

/-- `peek` -/
theorem peek_alike (S : Setting mem mem' lo hi top enough) (hdata : Within lo hi data) :
    Alike good exact enough (fun _ => data.begin_ < data.end_) (data.peek mem) (data.peek mem') := by
  refine Alike.require.bind fun _ _ hsize => ?_
  have hlt : data.begin_ < data.end_ := Nat.lt_of_sub_ne_zero hsize
  exact (S.byte hdata.lo_le (hlt.trans_le hdata.le_hi)).imp fun _ _ _ => hlt

/-- `peek_opcode` -/
theorem peekOpcode_alike (S : Setting mem mem' lo hi top enough) (hdata : Within lo hi data) :
    Alike good exact enough (fun _ => data.begin_ < data.end_) (data.peekOpcode mem)
      (data.peekOpcode mem') := by
  refine (peek_alike S hdata).bind fun b _ hlt => .ite (fun _ => ?_) fun _ => .pure hlt
  refine Alike.require.bind fun _ _ hsize => ?_
  have hlo := hdata.lo_le
  have hhi := hdata.le_hi
  rw [size] at hsize
  exact (S.byte (by omega) (by omega)).bind fun _ _ _ => .pure hlt

/-- `consume` of a number of bytes -/
theorem skip_spec (h : data.skip n = .done d) (hdata : data.begin_ ≤ data.end_) :
    Rest data d ∧ d.begin_ = data.begin_ + n := by
  obtain ⟨hn, h⟩ := require_bind_eq_done.1 h
  cases h
  rw [size] at hn
  exact ⟨⟨Nat.le_add_right _ _, by simp only; omega, rfl⟩, rfl⟩

theorem skip_alike (hdata : data.begin_ ≤ data.end_) :
    Alike good exact enough (fun d => Rest data d ∧ d.begin_ = data.begin_ + n) (data.skip n)
      (data.skip n) :=
  .of_eq (fun _ h => skip_spec h hdata) (require_ends.bind fun _ _ => done_ends _)

/-- `consume` of one byte -/
theorem consume_alike (S : Setting mem mem' lo hi top enough) (hdata : Within lo hi data) :
    Alike good exact enough (fun r => Shorter data r.2) (data.consume mem) (data.consume mem') := by
  refine (skip_alike hdata.le_end).bind fun rest _ ⟨hrest, hbegin⟩ => ?_
  have hshort : Shorter data rest := ⟨hrest, by omega⟩
  have hlt : data.begin_ < hi :=
    hshort.begin_lt.trans_le (hrest.le_end.trans (hrest.end_eq.trans_le hdata.le_hi))
  exact (S.byte hdata.lo_le hlt).bind fun b _ _ => .pure hshort

/-- `consume_word`, `consume_dword` and `consume_qword` -/
theorem consumeNumber_alike (S : Setting mem mem' lo hi top enough) (hdata : Within lo hi data) :
    Alike good exact enough (fun r => Rest data r.2) (data.consumeNumber mem n)
      (data.consumeNumber mem' n) := by
  refine (skip_alike hdata.le_end).bind fun rest _ ⟨hrest, hbegin⟩ => ?_
  have hle : data.begin_ + n ≤ hi := by
    rw [← hbegin]
    exact hrest.le_end.trans (hrest.end_eq.trans_le hdata.le_hi)
  exact (S.read hdata.lo_le hle).bind fun _ _ _ => .pure hrest

/-- `consume_opcode` -/
theorem consumeOpcode_alike (S : Setting mem mem' lo hi top enough) (hdata : Within lo hi data) :
    Alike good exact enough (fun r => Shorter data r.2) (data.consumeOpcode mem)
      (data.consumeOpcode mem') := by
  refine (peekOpcode_alike S hdata).bind fun op _ _ => ?_
  refine (consume_alike S hdata).bind fun ⟨_, d⟩ _ hd => ?_
  refine .ite (fun _ => ?_) fun _ => .pure hd
  refine (consume_alike S (hdata.rest hd.toRest)).bind fun ⟨_, d'⟩ _ hd' => ?_
  exact .pure (hd.trans hd')

/-- `parse_pkg_length`: it takes as many bytes as its first byte says. -/
theorem parsePkgLength_alike (S : Setting mem mem' lo hi top enough) (hdata : Within lo hi data) :
    Alike good exact enough (fun r => Shorter data r.1) (parsePkgLength mem data)
      (parsePkgLength mem' data) := by
  refine (consume_alike S hdata).bind fun ⟨b, d⟩ _ hd => ?_
  simp only
  split
  · exact .pure hd
  · refine (consume_alike S (hdata.rest hd.toRest)).bind fun ⟨_, d'⟩ _ hd' => ?_
    exact .pure (hd.trans hd')
  · refine (consumeNumber_alike S (hdata.rest hd.toRest)).bind fun ⟨_, d'⟩ _ hd' => ?_
    exact .pure (hd.trans_rest hd')
  · exact .abort

/-- `consume` of one byte takes the first one. -/
theorem consume_eq_done {b : UInt8} (h : data.consume mem = .done (b, d)) :
    mem data.begin_ = .done b ∧ d = ⟨data.begin_ + 1, data.end_⟩ ∧ data.begin_ < data.end_ := by
  obtain ⟨rest, hskip, h⟩ := bind_eq_done.1 h
  obtain ⟨b', hb, h⟩ := bind_eq_done.1 h
  obtain ⟨hsize, hskip⟩ := require_bind_eq_done.1 hskip
  cases hskip
  cases h
  rw [size] at hsize
  exact ⟨hb, rfl, by omega⟩

theorem skip_of_consume {b : UInt8} (h : data.consume mem = .done (b, d)) : data.skip 1 = .done d := by
  obtain ⟨rest, hskip, h⟩ := bind_eq_done.1 h
  obtain ⟨_, -, h⟩ := bind_eq_done.1 h
  cases h
  exact hskip

theorem skip_of_consumeNumber {value : ℕ} (h : data.consumeNumber mem n = .done (value, d)) :
    data.skip n = .done d := by
  obtain ⟨rest, hskip, h⟩ := bind_eq_done.1 h
  obtain ⟨_, -, h⟩ := bind_eq_done.1 h
  cases h
  exact hskip

/-- `consume_opcode` takes the opcode that `peek_opcode` sees. -/
theorem consumeOpcode_eq_done {op : Opcode} (h : data.consumeOpcode mem = .done (op, d)) :
    data.peekOpcode mem = .done op ∧ d.end_ = data.end_ ∧
      d.begin_ = data.begin_ + if op.isExtended then 2 else 1 := by
  obtain ⟨op', hpeek, h⟩ := bind_eq_done.1 h
  obtain ⟨⟨_, d₁⟩, hconsume, h⟩ := bind_eq_done.1 h
  obtain ⟨-, rfl, -⟩ := consume_eq_done hconsume
  dsimp only at h
  split at h
  case isTrue hext =>
    obtain ⟨⟨_, d₂⟩, hconsume, h⟩ := bind_eq_done.1 h
    obtain ⟨-, rfl, -⟩ := consume_eq_done hconsume
    cases h
    exact ⟨hpeek, rfl, by rw [if_pos hext]⟩
  case isFalse hext =>
    cases h
    exact ⟨hpeek, rfl, by rw [if_neg hext]⟩

theorem peek_eq_done {b : UInt8} (h : data.peek mem = .done b) : mem data.begin_ = .done b :=
  (require_bind_eq_done.1 h).2

/-- The bytes that `parse_pkg_length` takes -/
theorem parsePkgLength_begin {len : ℕ} (h : parsePkgLength mem data = .done (d, len)) {b : UInt8}
    (hb : mem data.begin_ = .done b) : d.begin_ = data.begin_ + (1 + (b.toNat >>> 6)) := by
  obtain ⟨⟨b', d₁⟩, hconsume, h⟩ := bind_eq_done.1 h
  obtain ⟨hb', rfl, -⟩ := consume_eq_done hconsume
  cases hb.symm.trans hb'
  simp only at h
  split at h
  case h_1 hlen =>
    cases h
    rw [hlen]
  case h_2 hlen =>
    obtain ⟨⟨b₁, d₂⟩, hconsume, h⟩ := bind_eq_done.1 h
    obtain ⟨-, rfl, -⟩ := consume_eq_done hconsume
    cases h
    rw [hlen]
  case h_3 hlen =>
    obtain ⟨⟨b₁, d₂⟩, hconsume, h⟩ := bind_eq_done.1 h
    obtain ⟨rest, hskip, hconsume⟩ := bind_eq_done.1 hconsume
    obtain ⟨-, hskip⟩ := require_bind_eq_done.1 hskip
    obtain ⟨_, -, hconsume⟩ := bind_eq_done.1 hconsume
    cases hskip
    cases hconsume
    cases h
    rw [hlen]
  case h_4 => cases h

/-- `pkg` is a package at the front of a view. -/
structure Package (data pkg : ParseState) : Prop where
  /-- its length comes before it -/
  begin_lt : data.begin_ < pkg.begin_
  /-- it is a view -/
  le_end : pkg.begin_ ≤ pkg.end_
  /-- it ends in the view -/
  end_le : pkg.end_ ≤ data.end_

/-- What is behind the package -/
theorem Package.shorter {pkg : ParseState} (h : Package data pkg) :
    Shorter data (data.movedTo pkg.end_) := by
  obtain ⟨hlt, hle, hend⟩ := h
  exact ⟨⟨(hlt.le.trans hle), hend, rfl⟩, hlt.trans_le hle⟩

theorem Package.within {pkg : ParseState} (h : Package data pkg) (hdata : Within lo hi data) :
    Within lo hi pkg :=
  ⟨hdata.lo_le.trans h.begin_lt.le, h.le_end, h.end_le.trans hdata.le_hi⟩

theorem Package.size_lt {pkg : ParseState} (h : Package data pkg) : pkg.size < data.size := by
  obtain ⟨hlt, hle, hend⟩ := h
  simp only [size]
  omega

/-- `adjust_with_pkg_length`: **the package lies in the view.** -/
theorem adjustWithPkgLength_alike (S : Setting mem mem' lo hi top enough) (hdata : Within lo hi data) :
    Alike good exact enough (Package data) (adjustWithPkgLength mem data)
      (adjustWithPkgLength mem' data) := by
  refine (peek_alike S hdata).bind fun b hpeek _ => ?_
  refine (parsePkgLength_alike S hdata).bind fun ⟨d, len⟩ hlen hd => ?_
  refine Alike.require.bind fun _ _ hbytes => Alike.require.bind fun _ _ hsize => ?_
  have hbegin : d.begin_ = data.begin_ + (1 + (b.toNat >>> 6)) :=
    parsePkgLength_begin hlen (peek_eq_done hpeek)
  have hle := hdata.le_end
  rw [size] at hsize
  exact .pure ⟨hd.begin_lt, by simp only; omega, by simp only; omega⟩

end Bytes

/-! ## Names -/

/-- A character at a position of a name segment -/
def isSegChar (j : ℕ) (c : UInt8) : Prop := if j = 0 then isLeadNameChar c else isNameChar c

instance (j : ℕ) (c : UInt8) : Decidable (isSegChar j c) :=
  inferInstanceAs (Decidable (if j = 0 then isLeadNameChar c else isNameChar c))

/-- The bytes of a view are valid for the two segments of a dual name path, and there are
less than eight of them. -/
def TruncatedSegs (mem : Memory) (data : ParseState) : Prop :=
  data.end_ < data.begin_ + 8 ∧
    ∀ j, data.begin_ + j < data.end_ → ∃ c, mem (data.begin_ + j) = .done c ∧ isSegChar (j % 4) c

/-- The prefix of a name lies before `d`. -/
def Prefixed (mem : Memory) (data d : ParseState) : Prop :=
  d.begin_ = data.begin_ + 1 ∧ mem data.begin_ = .done rootChar ∨
    ∀ a, data.begin_ ≤ a → a < d.begin_ → mem a = .done parentPrefixChar

/-- A name string is cut off by the end of the view within a dual name path, and all of its
characters before the end are valid. -/
def TruncatedDual (mem : Memory) (data : ParseState) : Prop :=
  ∃ d, Rest data d ∧ Prefixed mem data d ∧ d.begin_ < d.end_ ∧
    mem d.begin_ = .done dualNamePathStart ∧ TruncatedSegs mem ⟨d.begin_ + 1, d.end_⟩

section Names

variable {mem mem' : Memory} {lo hi top : ℕ} {good exact enough : Prop} {data d : ParseState} {a n : ℕ}

/-- `valid_nameseg` looks at no character behind the first one that is wrong. -/
theorem validNameseg_alike (S : Setting mem mem' lo hi top enough)
    (hstop : good → ∀ k < 4, (∀ j < k, ∃ c, mem (a + j) = .done c ∧ isSegChar j c) →
      mem' (a + k) = mem (a + k)) :
    Alike good exact enough
      (fun v => v = true → ∀ j < 4, ∃ c, mem (a + j) = .done c ∧ isSegChar j c)
      (validNameseg mem a) (validNameseg mem' a) := by
  have hzero (h : good) : mem' a = mem a := hstop h 0 (by decide) (by simp)
  refine (S.byte_of hzero).bind fun c₀ h₀ _ => .ite (fun _ => .pure (by simp)) fun hc₀ => ?_
  have hvalid₀ : ∀ j < 1, ∃ c, mem (a + j) = .done c ∧ isSegChar j c := by
    intro j hj
    obtain rfl : j = 0 := by omega
    exact ⟨c₀, h₀, not_not.1 hc₀⟩
  refine (S.byte_of fun h => hstop h 1 (by decide) hvalid₀).bind
    fun c₁ h₁ _ => .ite (fun _ => .pure (by simp)) fun hc₁ => ?_
  have hvalid₁ : ∀ j < 2, ∃ c, mem (a + j) = .done c ∧ isSegChar j c := by
    intro j hj
    obtain hj | rfl := Nat.lt_succ_iff_lt_or_eq.1 hj
    · exact hvalid₀ j hj
    · exact ⟨c₁, h₁, not_not.1 hc₁⟩
  refine (S.byte_of fun h => hstop h 2 (by decide) hvalid₁).bind
    fun c₂ h₂ _ => .ite (fun _ => .pure (by simp)) fun hc₂ => ?_
  have hvalid₂ : ∀ j < 3, ∃ c, mem (a + j) = .done c ∧ isSegChar j c := by
    intro j hj
    obtain hj | rfl := Nat.lt_succ_iff_lt_or_eq.1 hj
    · exact hvalid₁ j hj
    · exact ⟨c₂, h₂, not_not.1 hc₂⟩
  refine (S.byte_of fun h => hstop h 3 (by decide) hvalid₂).bind fun c₃ h₃ _ => .pure ?_
  intro hc₃ j hj
  obtain hj | rfl := Nat.lt_succ_iff_lt_or_eq.1 hj
  · exact hvalid₂ j hj
  · exact ⟨c₃, h₃, show isNameChar c₃ from of_decide_eq_true hc₃⟩

/-- A segment that lies in the view -/
theorem validNameseg_alike_of_le (S : Setting mem mem' lo hi top enough) (hlo : lo ≤ a)
    (hhi : a + 4 ≤ hi) :
    Alike good exact enough (fun _ => True) (validNameseg mem a) (validNameseg mem' a) :=
  (validNameseg_alike S fun _ k hk _ => S.agree _ (by omega) (by omega)).imp fun _ _ _ => trivial

/-- The segments of a multi name path lie in the view, since their number is checked. -/
theorem parseNameSegs_alike (S : Setting mem mem' lo hi top enough) (hdata : Within lo hi data)
    (hn : n * 4 ≤ data.size) :
    Alike good exact enough (fun r => Rest data r.1) (parseNameSegs mem n data)
      (parseNameSegs mem' n data) := by
  induction n generalizing data with
  | zero => exact .pure (.refl hdata.le_end)
  | succ n ih =>
    have hlo := hdata.lo_le
    have hhi := hdata.le_hi
    rw [size] at hn
    refine (validNameseg_alike_of_le S hlo (by omega)).bind fun _ _ _ => ?_
    refine Alike.require.bind fun _ _ _ => ?_
    refine (S.read hlo (by omega)).bind fun _ _ _ => ?_
    refine (skip_alike hdata.le_end).bind fun d _ ⟨hd, hbegin⟩ => ?_
    have hend := hd.end_eq
    refine (ih (hdata.rest hd) (by rw [size]; omega)).bind fun ⟨d', _⟩ _ hd' => ?_
    exact .pure (hd.trans hd')

/-- The segments of a dual name path -/
theorem dualNamePath_alike (S : Setting mem mem' lo hi top enough) (hdata : Within lo hi data)
    (hgood : good → mem = mem' ∨ ¬ TruncatedSegs mem data) :
    Alike good exact enough (fun r : ParseState × Name => Rest data r.1)
      (do
        require ((← validNameseg mem data.begin_) = true)
        require ((← validNameseg mem (data.begin_ + 4)) = true)
        let segs ← mem.read data.begin_ 8
        let data ← data.skip 8
        pure (data, segs))
      (do
        require ((← validNameseg mem' data.begin_) = true)
        require ((← validNameseg mem' (data.begin_ + 4)) = true)
        let segs ← mem'.read data.begin_ 8
        let data ← data.skip 8
        pure (data, segs)) := by
  -- a character is the same in both memories as long as those before it are valid
  have hsame (h : good) {k : ℕ} (hk : k < 8)
      (hvalid : ∀ j < k, ∃ c, mem (data.begin_ + j) = .done c ∧ isSegChar (j % 4) c) :
      mem' (data.begin_ + k) = mem (data.begin_ + k) := by
    obtain rfl | hcut := hgood h
    · rfl
    · refine S.agree _ (hdata.lo_le.trans (Nat.le_add_right _ _)) (lt_of_lt_of_le ?_ hdata.le_hi)
      by_contra hle
      exact hcut ⟨by omega, fun j hj => hvalid j (by omega)⟩
  refine (validNameseg_alike S fun h k hk hvalid => hsame h (by omega) fun j hj => ?_).bind
    fun v₁ _ hv₁ => ?_
  · obtain ⟨c, hc, hseg⟩ := hvalid j hj
    exact ⟨c, hc, by rwa [Nat.mod_eq_of_lt (by omega)]⟩
  refine Alike.require.bind fun _ _ htrue₁ => ?_
  have hfirst : ∀ j < 4, ∃ c, mem (data.begin_ + j) = .done c ∧ isSegChar (j % 4) c := by
    intro j hj
    rw [Nat.mod_eq_of_lt hj]
    exact hv₁ htrue₁ j hj
  refine (validNameseg_alike S fun h k hk hvalid => ?_).bind fun v₂ _ hv₂ => ?_
  · rw [Nat.add_assoc]
    refine hsame h (by omega) fun j hj => ?_
    by_cases hlt : j < 4
    · exact hfirst j hlt
    · obtain ⟨c, hc, hseg⟩ := hvalid (j - 4) (by omega)
      rw [Nat.add_assoc, Nat.add_sub_cancel' (not_lt.1 hlt)] at hc
      exact ⟨c, hc, by rwa [Nat.mod_eq_sub_mod (not_lt.1 hlt), Nat.mod_eq_of_lt (by omega)]⟩
  refine Alike.require.bind fun _ _ htrue₂ => ?_
  have hall : ∀ j < 8, ∃ c, mem (data.begin_ + j) = .done c ∧ isSegChar (j % 4) c := by
    intro j hj
    by_cases hlt : j < 4
    · exact hfirst j hlt
    · obtain ⟨c, hc, hseg⟩ := hv₂ htrue₂ (j - 4) (by omega)
      rw [Nat.add_assoc, Nat.add_sub_cancel' (not_lt.1 hlt)] at hc
      exact ⟨c, hc, by rwa [Nat.mod_eq_sub_mod (not_lt.1 hlt), Nat.mod_eq_of_lt (by omega)]⟩
  refine (S.read_of fun h k hk => hsame h hk fun j hj => hall j (by omega)).bind fun _ _ _ => ?_
  exact (skip_alike hdata.le_end).bind fun d _ hd => .pure hd.1

/-- The part of `parse_name_string` behind the prefixes -/
theorem parseNamePath_alike (S : Setting mem mem' lo hi top enough) (hdata : Within lo hi data)
    (hgood : good → mem = mem' ∨ ¬ (data.begin_ < data.end_ ∧
      mem data.begin_ = .done dualNamePathStart ∧
      TruncatedSegs mem ⟨data.begin_ + 1, data.end_⟩)) :
    Alike good exact enough (fun r => Shorter data r.1) (parseNamePath mem data)
      (parseNamePath mem' data) := by
  refine (consume_alike S hdata).bind fun ⟨type, d⟩ hconsume hd => ?_
  have hd' := hdata.rest hd.toRest
  obtain ⟨htype, rfl, hlt⟩ := consume_eq_done hconsume
  refine .ite (fun _ => .pure hd) fun _ => .ite (fun hdual => ?_) fun _ => .ite (fun _ => ?_) fun _ =>
    .ite (fun _ => ?_) fun _ => .abort
  · refine (dualNamePath_alike S hd' fun h => ?_).imp fun r _ hr => hd.trans_rest hr
    refine (hgood h).imp_right fun hcut htrunc => hcut ⟨hlt, ?_, htrunc⟩
    rw [htype, hdual]
  · refine (consume_alike S hd').bind fun ⟨segCount, d₁⟩ _ hd₁ => Alike.require.bind fun _ _ hsize => ?_
    exact (parseNameSegs_alike S (hd'.rest hd₁.toRest) hsize).imp fun r _ hr =>
      (hd.trans hd₁).trans_rest hr
  · refine (consume_alike S hd').bind fun ⟨c₁, d₁⟩ _ hd₁ => ?_
    refine (consume_alike S (hd'.rest hd₁.toRest)).bind fun ⟨c₂, d₂⟩ _ hd₂ => ?_
    have hd₂' := hd₁.trans hd₂
    refine (consume_alike S (hd'.rest hd₂'.toRest)).bind fun ⟨c₃, d₃⟩ _ hd₃ => ?_
    exact Alike.require.bind fun _ _ _ => .pure (hd.trans (hd₂'.trans hd₃))

/-- The loop over the parent prefixes -/
theorem parseParentPrefixes_alike (S : Setting mem mem' lo hi top enough) (hdata : Within lo hi data) :
    Alike good exact enough
      (fun r => Rest data r.1 ∧
        ∀ a, data.begin_ ≤ a → a < r.1.begin_ → mem a = .done parentPrefixChar)
      (parseParentPrefixes mem n data) (parseParentPrefixes mem' n data) := by
  induction n generalizing data with
  | zero =>
    rw [parseParentPrefixes, parseParentPrefixes]
    refine (peek_alike S hdata).bind fun c _ _ => .ite (fun _ => .abort) fun _ => .pure ?_
    exact ⟨.refl hdata.le_end, fun a hle hlt => absurd hlt (not_lt.2 hle)⟩
  | succ n ih =>
    rw [parseParentPrefixes, parseParentPrefixes]
    refine (peek_alike S hdata).bind fun c hpeek _ => .ite (fun hc => ?_) fun _ => .pure ?_
    · refine (consume_alike S hdata).bind fun ⟨c', d⟩ hconsume hd => ?_
      obtain ⟨-, rfl, -⟩ := consume_eq_done hconsume
      refine (ih (hdata.rest hd.toRest)).bind fun ⟨d', _⟩ _ ⟨hd', hprefix⟩ => .pure ?_
      refine ⟨hd.toRest.trans hd', fun a hle hlt => ?_⟩
      obtain rfl | hne := eq_or_ne a data.begin_
      · rw [peek_eq_done hpeek, hc]
      · exact hprefix a (lt_of_le_of_ne hle hne.symm) hlt
    · exact ⟨.refl hdata.le_end, fun a hle hlt => absurd hlt (not_lt.2 hle)⟩

/-- `parse_name_string` -/
theorem parseNameString_alike (S : Setting mem mem' lo hi top enough) (hdata : Within lo hi data)
    (hgood : good → mem = mem' ∨ ¬ TruncatedDual mem data) :
    Alike good exact enough (fun r => Shorter data r.1) (parseNameString mem data)
      (parseNameString mem' data) := by
  have hpath {d : ParseState} {start : Name} (hd : Rest data d) (hparents : Prefixed mem data d) :
      Alike good exact enough (fun r : ParseState × Name => Shorter data r.1)
        (parseNamePath mem d >>= fun r => pure (r.1, start ++ r.2))
        (parseNamePath mem' d >>= fun r => pure (r.1, start ++ r.2)) := by
    refine (parseNamePath_alike S (hdata.rest hd) fun h => ?_).bind fun _ _ hd' =>
      .pure (hd.trans_shorter hd')
    refine (hgood h).imp_right fun hcut hdual => hcut ?_
    obtain ⟨hlt, hdual, htrunc⟩ := hdual
    exact ⟨d, hd, hparents, hlt, hdual, htrunc⟩
  rw [parseNameString, parseNameString]
  refine (peek_alike S hdata).bind fun c hpeek _ => .ite (fun hc => ?_) fun _ => ?_
  · refine (consume_alike S hdata).bind ?_
    rintro ⟨c', d⟩ hconsume hd
    refine hpath hd.toRest (.inl ?_)
    obtain ⟨-, rfl, -⟩ := consume_eq_done hconsume
    exact ⟨rfl, hc ▸ peek_eq_done hpeek⟩
  · exact (parseParentPrefixes_alike S hdata).bind fun _ _ hd => hpath hd.1 (.inr hd.2)

end Names

/-! ## Strings and dumps -/

section Strings

variable {mem mem' : Memory} {lo hi top : ℕ} {good exact enough : Prop} {data : ParseState}
  {fuel fuel' a len : ℕ}

/-- A string is read. Its end, or a byte that cannot be read, is to lie in the region. -/
theorem readString_alike (S : Setting mem mem' lo hi top enough) (hfuel : fuel ≤ fuel')
    (hexact : exact → fuel = fuel') (henough : enough → 0 < fuel ∧ top < fuel + a) (hlo : lo ≤ a)
    (hgood : good → mem = mem' ∨ ∃ k, a + k < hi ∧ ∀ c, mem (a + k) = .done c → c = 0) :
    Alike good exact enough (fun _ => True) (mem.readString fuel a) (mem'.readString fuel' a) := by
  induction fuel generalizing fuel' a with
  | zero =>
    refine .running (fun h => ?_) fun h => absurd (henough h).1 (lt_irrefl 0)
    rw [← hexact h]
    rfl
  | succ fuel ih =>
    obtain _ | fuel' := fuel'
    · exact absurd hfuel (by simp)
    have hbyte : good → mem' a = mem a := by
      intro h
      obtain rfl | ⟨k, hk, -⟩ := hgood h
      · rfl
      · exact S.agree a hlo (lt_of_le_of_lt (Nat.le_add_right a k) hk)
    refine (S.byte_of hbyte).bind fun c hc _ => .ite (fun _ => .pure trivial) fun hne => ?_
    refine (ih (Nat.le_of_succ_le_succ hfuel) (fun h => Nat.succ_injective (hexact h)) (fun h => ?_)
      (hlo.trans (Nat.le_succ a)) fun h => ?_).bind fun _ _ _ => .pure trivial
    · obtain ⟨-, hlt⟩ := henough h
      have htop : a < top := by
        by_contra hle
        rw [(S.finite h).faults a (not_lt.1 hle)] at hc
        cases hc
      omega
    · refine (hgood h).imp_right fun ⟨k, hk, hend⟩ => ?_
      obtain _ | k := k
      · exact absurd (hend c hc) hne
      · have hadd : a + 1 + k = a + (k + 1) := by rw [Nat.add_assoc, Nat.add_comm 1 k]
        exact ⟨k, hadd ▸ hk, fun c' hc' => hend c' (hadd ▸ hc')⟩

/-- A dump of bytes of the region -/
theorem hexdump_alike (S : Setting mem mem' lo hi top enough)
    (hgood : good → mem = mem' ∨ (a + len + 15 < 2 ^ 64 → lo ≤ a ∧ a + len ≤ hi)) :
    Alike good exact enough (fun _ => True) (hexdump mem a len) (hexdump mem' a len) := by
  refine .ite (fun hlt => ?_) fun _ => .pure trivial
  refine (S.read_of fun h k hk => ?_).bind fun _ _ _ => .pure trivial
  obtain rfl | hin := hgood h
  · rfl
  · obtain ⟨hlo, hhi⟩ := hin hlt
    exact S.agree _ (by omega) (by omega)

end Strings

end Attos.Aml

import Attos.Lib.Reach
import Attos.Ps2.FixedSizeQueue

/-!
# Reading keys

The interrupts of the keyboard put scan codes in a queue, and `read_key` reads them until one is
the release of a key that it can translate. `key_available` looks for a byte in the queue that could
be a release, wherever it stands. It can stand inside of a longer scan code, or belong to a key that
has no translation; then `read_key` discards it and waits for the next interrupt
(`keyAvailable_extended`). It returns without waiting exactly if the codes at the front of the
queue are complete and the first one that is not ignored is a translated release
(`readKey_iff`).
-/

namespace Attos.Ps2

open Lib

/-- `sc_invalid` -/
def scInvalid : UInt8 := 0

/-- `scan_code_set_1_size` -/
def scanCodeSet1Size : ℕ := 0x58

/-- `scan_code_set_1` -/
def scanCodeSet1 : List UInt8 :=
  [ -- escape, the digits, backspace and tab
    scInvalid, 0x1b, 0x31, 0x32, 0x33, 0x34, 0x35, 0x36, 0x37, 0x38, 0x39, 0x30, 0x2d, 0x3d, 0x08, 0x09,
    -- from Q to enter, left control
    0x51, 0x57, 0x45, 0x52, 0x54, 0x59, 0x55, 0x49, 0x4f, 0x50, 0x5b, 0x5d, 0x0a, scInvalid,
    -- from A on, left shift
    0x41, 0x53, 0x44, 0x46, 0x47, 0x48, 0x4a, 0x4b, 0x4c, 0x3b, 0x27, 0x60, scInvalid, 0x5c,
    -- from Z on, right shift
    0x5a, 0x58, 0x43, 0x56, 0x42, 0x4e, 0x4d, 0x2c, 0x2e, 0x2f, scInvalid,
    -- keypad *, left alt, space, caps lock
    scInvalid, scInvalid, 0x20, scInvalid,
    -- f1 to f10, numlock, scroll lock
    scInvalid, scInvalid, scInvalid, scInvalid, scInvalid, scInvalid, scInvalid, scInvalid, scInvalid,
    scInvalid, scInvalid, scInvalid,
    -- the keypad
    0x37, 0x38, 0x39, 0x2d, 0x34, 0x35, 0x36, 0x2b, 0x31, 0x32, 0x33, 0x30, 0x2e,
    scInvalid, scInvalid, scInvalid, scInvalid]

/-- The array has this size. -/
theorem length_scanCodeSet1 : scanCodeSet1.length = scanCodeSet1Size := rfl

/-- The key code of a key. -/
def translate (sk : UInt8) : Option UInt8 :=
  if sk.toNat < scanCodeSet1Size then
    let k := scanCodeSet1.getD sk.toNat scInvalid
    if k ≠ scInvalid then some k else none
  else none

/-! ## The controller -/

/-- `buffer_` -/
abbrev Buffer : Type := FixedSizeQueue UInt8 32

/-- `get_scan_key`. While the queue is empty it waits for an interrupt. -/
def getScanKey (buffer : Buffer) : Outcome (UInt8 × Buffer) :=
  if buffer.empty then .running else .done buffer.pop

/-- The loop of `read_key`. -/
def readKeyLoop : ℕ → Buffer → Outcome (UInt8 × Buffer)
  | 0, _ => .running
  | fuel + 1, buffer => do
    let sk ← getScanKey buffer
    if sk.1 = 0xE0 then do
      let sk2 ← getScanKey sk.2
      readKeyLoop fuel sk2.2
    else if sk.1 = 0xE1 then do
      let sk2 ← getScanKey sk.2
      let sk3 ← getScanKey sk2.2
      readKeyLoop fuel sk3.2
    else if sk.1 &&& 0x80 = 0 then
      -- only the release of a key counts
      readKeyLoop fuel sk.2
    else
      match translate (sk.1 &&& ~~~0x80) with
      | some k => .done (k, sk.2)
      | none => readKeyLoop fuel sk.2

/-- `read_key`: the key code, and what is left in the queue. -/
def readKey (rflagIf : Bool) (fuel : ℕ) (buffer : Buffer) : Outcome (UInt8 × Buffer) := do
  Outcome.require (rflagIf = true)
  readKeyLoop fuel buffer

/-- The byte could be the release of a key. -/
def LooksReleased (c : UInt8) : Prop := c > 0x80 ∧ c < 0xE0

instance (c : UInt8) : Decidable (LooksReleased c) := inferInstanceAs (Decidable (_ ∧ _))

/-- `key_available` -/
def keyAvailable (fuel : ℕ) (buffer : Buffer) : Outcome Bool :=
  buffer.anyOf (fun c => LooksReleased c) fuel buffer.readPos_

/-- `isr`, with the bytes at the status port and at the data port. -/
def isr (status data : UInt8) (buffer : Buffer) : Outcome Buffer := do
  Outcome.require (status &&& 0x01 ≠ 0)
  if buffer.full then .done buffer else .done (buffer.push data)

/-! ## Scan codes -/

/-- The scan codes that `read_key` ignores. -/
inductive Ignored : List UInt8 → Prop where
  /-- an extended key -/
  | extended (sk2 : UInt8) : Ignored [0xE0, sk2]
  /-- the pause key -/
  | pause (sk2 sk3 : UInt8) : Ignored [0xE1, sk2, sk3]
  /-- a key is pressed -/
  | pressed {sk : UInt8} : sk &&& 0x80 = 0 → Ignored [sk]
  /-- a key without translation is released -/
  | released {sk : UInt8} : sk ≠ 0xE0 → sk ≠ 0xE1 → sk &&& 0x80 ≠ 0 → translate (sk &&& ~~~0x80) = none →
      Ignored [sk]

/-- The release of the key with the key code `k`. -/
structure Released (sk k : UInt8) : Prop where
  /-- no prefix of a longer scan code -/
  single : sk ≠ 0xE0 ∧ sk ≠ 0xE1
  /-- a release -/
  released : sk &&& 0x80 ≠ 0
  /-- its key code -/
  translated : translate (sk &&& ~~~0x80) = some k

/-- Ignored scan codes, and then the release of the key with the key code `k`, before the bytes `rest`. -/
def Reads (bytes : List UInt8) (k : UInt8) (rest : List UInt8) : Prop :=
  ∃ (codes : List (List UInt8)) (sk : UInt8), (∀ code ∈ codes, Ignored code) ∧ Released sk k ∧
    bytes = codes.flatten ++ sk :: rest

section

variable {buffer : Buffer} {c k : UInt8} {l : List UInt8}

/-- A scan code is taken from the queue. -/
theorem getScanKey_cons (h : buffer.contents = c :: l) :
    getScanKey buffer = .done (c, buffer.pop.2) ∧ buffer.pop.2.contents = l := by
  have hsize : buffer.size ≠ 0 := by
    rw [← FixedSizeQueue.length_contents, h]
    exact Nat.succ_ne_zero _
  have hempty : ¬ buffer.empty = true := by simpa [FixedSizeQueue.empty] using hsize
  rw [FixedSizeQueue.contents_pop hsize] at h
  obtain ⟨hc, hl⟩ := List.cons_eq_cons.mp h
  rw [getScanKey, if_neg hempty, ← hc]
  exact ⟨rfl, hl⟩

/-- If the queue is empty it waits. -/
theorem getScanKey_nil (h : buffer.contents = []) : getScanKey buffer = .running := by
  have hsize : buffer.size = 0 := by rw [← FixedSizeQueue.length_contents, h, List.length_nil]
  have hempty : buffer.empty = true := by simpa [FixedSizeQueue.empty] using hsize
  rw [getScanKey, if_pos hempty]

/-- What it returns was at the front of the queue. -/
theorem getScanKey_done {sk : UInt8 × Buffer} (h : getScanKey buffer = .done sk) :
    buffer.contents = sk.1 :: sk.2.contents := by
  rcases hcontents : buffer.contents with _ | ⟨c, l⟩
  · rw [getScanKey_nil hcontents] at h
    cases h
  · obtain ⟨hdone, hrest⟩ := getScanKey_cons hcontents
    obtain rfl := Outcome.done.inj (hdone.symm.trans h)
    rw [hrest]

/-- **An ignored scan code** takes one pass of the loop. -/
theorem readKeyLoop_ignored {code : List UInt8} (hcode : Ignored code) (h : buffer.contents = code ++ l) :
    ∃ rest : Buffer, rest.contents = l ∧ ∀ fuel, readKeyLoop (fuel + 1) buffer = readKeyLoop fuel rest := by
  cases hcode with
  | extended sk2 =>
    obtain ⟨hfirst, hfirst'⟩ := getScanKey_cons h
    obtain ⟨hsecond, hsecond'⟩ := getScanKey_cons hfirst'
    refine ⟨_, hsecond', fun fuel => ?_⟩
    rw [readKeyLoop, hfirst, Outcome.done_bind, if_pos rfl, hsecond, Outcome.done_bind]
  | pause sk2 sk3 =>
    obtain ⟨hfirst, hfirst'⟩ := getScanKey_cons h
    obtain ⟨hsecond, hsecond'⟩ := getScanKey_cons hfirst'
    obtain ⟨hthird, hthird'⟩ := getScanKey_cons hsecond'
    have hE0 : ¬ (0xE1 : UInt8) = 0xE0 := by decide
    refine ⟨_, hthird', fun fuel => ?_⟩
    rw [readKeyLoop, hfirst, Outcome.done_bind, if_neg hE0, if_pos rfl, hsecond, Outcome.done_bind,
      hthird, Outcome.done_bind]
  | @pressed sk hpressed =>
    obtain ⟨hfirst, hfirst'⟩ := getScanKey_cons h
    refine ⟨_, hfirst', fun fuel => ?_⟩
    have hE0 : ¬ sk = 0xE0 := by
      rintro rfl
      exact absurd hpressed (by decide)
    have hE1 : ¬ sk = 0xE1 := by
      rintro rfl
      exact absurd hpressed (by decide)
    rw [readKeyLoop, hfirst, Outcome.done_bind, if_neg hE0, if_neg hE1, if_pos hpressed]
  | released hE0 hE1 hreleased hnone =>
    obtain ⟨hfirst, hfirst'⟩ := getScanKey_cons h
    refine ⟨_, hfirst', fun fuel => ?_⟩
    rw [readKeyLoop, hfirst, Outcome.done_bind, if_neg hE0, if_neg hE1, if_neg hreleased]
    dsimp only
    rw [hnone]

/-- **A translated release** ends the loop. -/
theorem readKeyLoop_released (hreleased : Released c k) (h : buffer.contents = c :: l) (fuel : ℕ) :
    readKeyLoop (fuel + 1) buffer = .done (k, buffer.pop.2) ∧ buffer.pop.2.contents = l := by
  obtain ⟨hfirst, hfirst'⟩ := getScanKey_cons h
  refine ⟨?_, hfirst'⟩
  rw [readKeyLoop, hfirst, Outcome.done_bind, if_neg hreleased.single.1, if_neg hreleased.single.2,
    if_neg hreleased.released]
  dsimp only
  rw [hreleased.translated]

/-- Behind ignored scan codes a key is read. -/
theorem readKeyLoop_of_reads (h : Reads buffer.contents k l) :
    ∃ rest : Buffer, rest.contents = l ∧ ∃ fuel, readKeyLoop fuel buffer = .done (k, rest) := by
  obtain ⟨codes, sk, hcodes, hreleased, hcontents⟩ := h
  induction codes generalizing buffer with
  | nil =>
    obtain ⟨hdone, hrest⟩ := readKeyLoop_released hreleased hcontents 0
    exact ⟨_, hrest, 1, hdone⟩
  | cons code codes ih =>
    rw [List.flatten_cons, List.append_assoc] at hcontents
    obtain ⟨next, hnext, hpass⟩ := readKeyLoop_ignored (hcodes code List.mem_cons_self) hcontents
    obtain ⟨rest, hrest, fuel, hdone⟩ :=
      ih (fun code hcode => hcodes code (List.mem_cons_of_mem _ hcode)) hnext
    exact ⟨rest, hrest, fuel + 1, by rw [hpass, hdone]⟩

/-- One more ignored scan code -/
theorem Reads.cons {code bytes : List UInt8} (hcode : Ignored code) (h : Reads bytes k l) :
    Reads (code ++ bytes) k l := by
  obtain ⟨codes, sk, hcodes, hreleased, rfl⟩ := h
  refine ⟨code :: codes, sk, fun c hc => ?_, hreleased, by rw [List.flatten_cons, List.append_assoc]⟩
  rcases List.mem_cons.mp hc with rfl | hc
  · exact hcode
  · exact hcodes c hc

/-- A key that is read was behind ignored scan codes. -/
theorem reads_of_readKeyLoop {fuel : ℕ} {rest : Buffer} (h : readKeyLoop fuel buffer = .done (k, rest)) :
    Reads buffer.contents k rest.contents := by
  induction fuel generalizing buffer with
  | zero => cases h
  | succ fuel ih =>
    rw [readKeyLoop] at h
    obtain ⟨sk, hfirst, h⟩ := Outcome.bind_eq_done.mp h
    rw [getScanKey_done hfirst]
    split_ifs at h with hE0 hE1 hpressed
    · obtain ⟨sk2, hsecond, h⟩ := Outcome.bind_eq_done.mp h
      rw [getScanKey_done hsecond, hE0]
      exact (ih h).cons (.extended sk2.1)
    · obtain ⟨sk2, hsecond, h⟩ := Outcome.bind_eq_done.mp h
      obtain ⟨sk3, hthird, h⟩ := Outcome.bind_eq_done.mp h
      rw [getScanKey_done hsecond, getScanKey_done hthird, hE1]
      exact (ih h).cons (.pause sk2.1 sk3.1)
    · exact (ih h).cons (.pressed hpressed)
    · cases htranslated : translate (sk.1 &&& ~~~0x80) with
      | none =>
        rw [htranslated] at h
        exact (ih h).cons (.released hE0 hE1 hpressed htranslated)
      | some k' =>
        rw [htranslated] at h
        obtain ⟨rfl, rfl⟩ := Prod.mk.inj (Outcome.done.inj h)
        exact ⟨[], sk.1, by simp, ⟨⟨hE0, hE1⟩, hpressed, htranslated⟩, rfl⟩

end

/-- **`key_available`** sees every byte in the queue. -/
theorem keyAvailable_iff {buffer : Buffer} :
    (∃ fuel, keyAvailable fuel buffer = .done true) ↔ ∃ c ∈ buffer.contents, LooksReleased c := by
  have hcomputes := buffer.anyOf_contents fun c => LooksReleased c
  have hany : buffer.contents.any (fun c => decide (LooksReleased c)) = true ↔
      ∃ c ∈ buffer.contents, LooksReleased c := by
    simp only [List.any_eq_true, decide_eq_true_eq]
  constructor
  · rintro ⟨fuel, hdone⟩
    exact hany.mp (hcomputes.eq_of_done hdone)
  · intro h
    rw [hany.mpr h] at hcomputes
    exact hcomputes.exists_done

/-- **Keys that are available are read**, for every content of the queue: `read_key` returns after
`key_available` did, with the bytes that are in the queue, if and only if no byte looks like a
release, or there is a translated release behind complete scan codes that are ignored. -/
theorem readKey_iff (buffer : Buffer) :
    ((∃ fuel, keyAvailable fuel buffer = .done true) → ∃ fuel k rest,
      readKey true fuel buffer = .done (k, rest) ∧ ∃ used, buffer.contents = used ++ rest.contents) ↔
    (∀ c ∈ buffer.contents, ¬ LooksReleased c) ∨ ∃ k rest, Reads buffer.contents k rest := by
  rw [keyAvailable_iff]
  constructor
  · intro h
    by_cases hlooks : ∃ c ∈ buffer.contents, LooksReleased c
    · obtain ⟨fuel, k, rest, hdone, -⟩ := h hlooks
      exact .inr ⟨k, rest.contents, reads_of_readKeyLoop hdone⟩
    · exact .inl fun c hc hreleased => hlooks ⟨c, hc, hreleased⟩
  · rintro (hnone | ⟨k, l, hreads⟩) ⟨c, hc, hreleased⟩
    · exact absurd hreleased (hnone c hc)
    · obtain ⟨rest, rfl, fuel, hdone⟩ := readKeyLoop_of_reads hreads
      obtain ⟨codes, sk, -, -, hcontents⟩ := hreads
      exact ⟨fuel, k, rest, hdone, codes.flatten ++ [sk], by rw [hcontents, List.append_assoc]; rfl⟩

/-! ## The contents of the queue -/

/-- The positions start at zero; the elements can be anything. -/
def Init (buffer : Buffer) : Prop := buffer.readPos_ = 0 ∧ buffer.writePos_ = 0

/-- An interrupt, or a scan code is read. -/
inductive Step : Buffer → Buffer → Prop where
  /-- `isr` -/
  | interrupt {buffer buffer' : Buffer} {status data : UInt8} : isr status data buffer = .done buffer' →
      Step buffer buffer'
  /-- `get_scan_key` -/
  | read {buffer buffer' : Buffer} {sk : UInt8} : getScanKey buffer = .done (sk, buffer') →
      Step buffer buffer'

/-- The queues that occur. -/
abbrev Reachable : Buffer → Prop := Reach Init Step

/-- The queue has one of the sizes that it can have. -/
theorem fits_buffer : FixedSizeQueue.Fits 32 := ⟨5, by norm_num, by norm_num⟩

/-- An interrupt appends a byte, or drops it if the queue is full. -/
theorem isr_done {status data : UInt8} {buffer buffer' : Buffer} (hsize : buffer.size ≤ 32)
    (h : isr status data buffer = .done buffer') :
    buffer'.contents = buffer.contents ∨ buffer.size < 32 ∧ buffer'.contents = buffer.contents ++ [data] := by
  obtain ⟨-, h⟩ := Outcome.require_bind_eq_done.mp h
  split_ifs at h with hfull
  · obtain rfl := Outcome.done.inj h
    exact .inl rfl
  · obtain rfl := Outcome.done.inj h
    have hne : buffer.size ≠ 32 := by simpa [FixedSizeQueue.full] using hfull
    have hlt : buffer.size < 32 := lt_of_le_of_ne hsize hne
    exact .inr ⟨hlt, FixedSizeQueue.contents_push fits_buffer hlt⟩

/-- The queue never holds more than it has room for. -/
theorem Reachable.size_le {buffer : Buffer} (h : Reachable buffer) : buffer.size ≤ 32 := by
  refine h.invariant (fun buffer => buffer.size ≤ 32) ?_ ?_
  · rintro buffer ⟨hread, hwrite⟩
    rw [FixedSizeQueue.size, hread, hwrite]
    decide
  · intro buffer buffer' hsize hstep
    rw [← FixedSizeQueue.length_contents] at hsize ⊢
    cases hstep with
    | interrupt hisr =>
      rw [FixedSizeQueue.length_contents] at hsize
      rcases isr_done hsize hisr with hsame | ⟨hlt, hpush⟩
      · rw [hsame, FixedSizeQueue.length_contents]
        exact hsize
      · rw [hpush, List.length_append, FixedSizeQueue.length_contents]
        exact hlt
    | read hread =>
      rw [getScanKey_done hread] at hsize
      exact (Nat.le_succ _).trans hsize

/-- **Every content is possible**: any bytes can be in the queue, as long as there is room. -/
theorem exists_reachable {l : List UInt8} (h : l.length ≤ 32) :
    ∃ buffer, Reachable buffer ∧ buffer.contents = l := by
  induction l using List.reverseRecOn with
  | nil =>
    refine ⟨⟨fun _ => 0, 0, 0⟩, .start ⟨rfl, rfl⟩, ?_⟩
    rfl
  | append_singleton l c ih =>
    rw [List.length_append, List.length_singleton] at h
    obtain ⟨buffer, hreachable, hcontents⟩ := ih (Nat.le_of_succ_le h)
    have hlt : buffer.size < 32 := by
      rw [← FixedSizeQueue.length_contents, hcontents]
      exact h
    have hfull : ¬ buffer.full = true := by simpa [FixedSizeQueue.full] using hlt.ne
    have hisr : isr 0x01 c buffer = .done (buffer.push c) := by
      rw [isr, Outcome.require_pos (by decide), Outcome.done_bind, if_neg hfull]
    exact ⟨_, .step hreachable (.interrupt hisr), by
      rw [FixedSizeQueue.contents_push fits_buffer hlt, hcontents]⟩

/-- **The right control key is released.** `key_available` takes the second byte of its scan code for a
release, and `read_key` waits for ever. -/
theorem keyAvailable_extended : ∃ buffer, Reachable buffer ∧ buffer.contents = [0xE0, 0x9D] ∧
    (∃ fuel, keyAvailable fuel buffer = .done true) ∧ ∀ fuel, readKey true fuel buffer = .running := by
  obtain ⟨buffer, hreachable, hcontents⟩ := @exists_reachable [0xE0, 0x9D] (by decide)
  refine ⟨buffer, hreachable, hcontents, keyAvailable_iff.mpr ?_, fun fuel => ?_⟩
  · rw [hcontents]
    exact ⟨0x9D, by decide, by decide⟩
  · obtain ⟨rest, hrest, hpass⟩ := readKeyLoop_ignored (.extended 0x9D) hcontents
    cases fuel with
    | zero => rfl
    | succ fuel =>
      change readKeyLoop (fuel + 1) buffer = .running
      rw [hpass]
      cases fuel with
      | zero => rfl
      | succ fuel =>
        rw [readKeyLoop, getScanKey_nil hrest]
        rfl

end Attos.Ps2

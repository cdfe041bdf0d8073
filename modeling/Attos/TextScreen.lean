import Mathlib.Tactic

/-!
# The text screen

`text_screen` keeps a position on a screen of 25 lines with 80 columns and stores characters in the
screen buffer there. It begins where the cursor of the hardware is, and scrolls when the position
comes to the line behind the last one. So a position on the screen stays there (`Good.call`), but
one below it moves on downwards (`below_write`), until the screen is cleared: the screen buffer is
left exactly if the cursor is below the screen at the beginning and something is written there
(`run_good_iff`).
-/

namespace Attos.Vga

/-- `screen_width` -/
def screenWidth : ℕ := 80

/-- `screen_height` -/
def screenHeight : ℕ := 25

/-! ## The hardware -/

/-- `cursor_location_high` and `cursor_location_low`, two registers of the CRTC. -/
structure Crtc : Type where
  /-- `cursor_location_high` -/
  high : UInt8
  /-- `cursor_location_low` -/
  low : UInt8

/-- `cursor_location()` -/
def Crtc.cursorLocation (crtc : Crtc) : UInt16 := crtc.high.toUInt16 <<< 8 ||| crtc.low.toUInt16

/-- `cursor_location(location)` -/
def Crtc.setCursorLocation (location : UInt16) : Crtc where
  high := (location >>> 8).toUInt8
  low := (location &&& 0xff).toUInt8

/-- `screen_buffer`, and the indices at which it was accessed. -/
structure ScreenBuffer : Type where
  /-- the memory around it -/
  cells : ℤ → UInt16
  /-- the indices, the latest first -/
  accesses : List ℤ

namespace ScreenBuffer

/-- An assignment to an element. -/
def store (i : ℤ) (c : UInt16) (b : ScreenBuffer) : ScreenBuffer := ⟨Function.update b.cells i c, i :: b.accesses⟩

/-- An element is read and stored at another index. -/
def copy (dst src : ℤ) (b : ScreenBuffer) : ScreenBuffer := store dst (b.cells src) ⟨b.cells, src :: b.accesses⟩

/-- `move_memory`, which goes upwards. The bytes of an element are next to each other. -/
def moveMemory (dst src : ℤ) (count : ℕ) (b : ScreenBuffer) : ScreenBuffer :=
  (List.range count).foldl (fun b (i : ℕ) => b.copy (dst + i) (src + i)) b

/-- The loop of `clear_line`. -/
def clearLine (attr : UInt8) (y : ℤ) (b : ScreenBuffer) : ScreenBuffer :=
  (List.range screenWidth).foldl (fun b (i : ℕ) => b.store (i + y * screenWidth) (attr.toUInt16 <<< 8)) b

/-- Every access was to an element of the screen. -/
def InScreen (b : ScreenBuffer) : Prop := ∀ i ∈ b.accesses, 0 ≤ i ∧ i < screenWidth * screenHeight

end ScreenBuffer

/-! ## The screen -/

/-- `text_screen`. The position is an `int`; as long as it is on the screen, it cannot overflow. -/
structure TextScreen : Type where
  /-- the column -/
  x_ : ℤ
  /-- the line -/
  y_ : ℤ
  /-- the attribute of the characters -/
  attr_ : UInt8
  /-- `screen_buffer` -/
  screenBuffer : ScreenBuffer
  /-- the registers of the CRTC -/
  crtc : Crtc

namespace TextScreen

/-- The constructor. -/
def new (memory : ℤ → UInt16) (crtc : Crtc) : TextScreen where
  x_ := (crtc.cursorLocation.toNat % screenWidth : ℕ)
  y_ := (crtc.cursorLocation.toNat / screenWidth : ℕ)
  attr_ := 0x07
  screenBuffer := ⟨memory, []⟩
  crtc := crtc

/-- `clear_line` -/
def clearLine (y : ℤ) (s : TextScreen) : TextScreen := { s with screenBuffer := s.screenBuffer.clearLine s.attr_ y }

/-- `set_cursor` -/
def setCursor (s : TextScreen) : TextScreen :=
  { s with crtc := .setCursorLocation (UInt16.ofInt (s.x_ + s.y_ * screenWidth)) }

/-- `clear` -/
def clear (s : TextScreen) : TextScreen :=
  let cleared := (List.range screenHeight).foldl (fun s (i : ℕ) => s.clearLine i) s
  setCursor { cleared with x_ := 0, y_ := 0 }

/-- The lines move up by one, and the last one is cleared. -/
def scroll (s : TextScreen) : TextScreen :=
  let moved := s.screenBuffer.moveMemory 0 screenWidth (screenWidth * (screenHeight - 1))
  { s with y_ := screenHeight - 1, screenBuffer := moved.clearLine s.attr_ (screenHeight - 1) }

/-- `newline`. That it waits for the vertical sync changes nothing here. -/
def newline (s : TextScreen) : TextScreen :=
  let next := { s with y_ := s.y_ + 1 }
  { (if next.y_ = (screenHeight : ℤ) then next.scroll else next) with x_ := 0 }

/-- `put` -/
def put (s : TextScreen) (c : UInt8) : TextScreen :=
  if c = 0x0d then { s with x_ := 0 }
  else if c = 0x0a then s.newline
  else
    let cell := s.attr_.toUInt16 <<< 8 ||| c.toUInt16
    let stored :=
      { s with screenBuffer := s.screenBuffer.store (s.x_ + s.y_ * screenWidth) cell, x_ := s.x_ + 1 }
    if stored.x_ = (screenWidth : ℤ) then stored.newline else stored

/-- `write` -/
def write (data : List UInt8) (s : TextScreen) : TextScreen := (data.foldl put s).setCursor

/-- A call from outside. -/
inductive Call : Type where
  /-- `write` -/
  | write (data : List UInt8)
  /-- `clear` -/
  | clear

/-- What a call does. -/
def call (s : TextScreen) : Call → TextScreen
  | .write data => s.write data
  | .clear => s.clear

/-- One call after the other. -/
def run (s : TextScreen) (calls : List Call) : TextScreen := calls.foldl call s

/-- The position is on the screen. -/
structure OnScreen (s : TextScreen) : Prop where
  /-- the column -/
  x : 0 ≤ s.x_ ∧ s.x_ < screenWidth
  /-- the line -/
  y : 0 ≤ s.y_ ∧ s.y_ < screenHeight

/-- The position is on the screen, and nothing else was accessed. -/
structure Good (s : TextScreen) : Prop where
  /-- the position -/
  onScreen : s.OnScreen
  /-- the accesses -/
  inScreen : s.screenBuffer.InScreen

end TextScreen

/-! ## The screen buffer -/

/-- The registers hold the location that was put into them. -/
theorem Crtc.cursorLocation_setCursorLocation (location : UInt16) :
    (Crtc.setCursorLocation location).cursorLocation = location := by
  have hlt := location.toNat_lt
  have hlow : location.toNat % 256 < 2 ^ 8 := Nat.mod_lt _ (by decide)
  apply UInt16.toNat_inj.mp
  simp only [cursorLocation, setCursorLocation, UInt16.toNat_or, UInt16.toNat_shiftLeft, UInt8.toNat_toUInt16,
    UInt16.toNat_toUInt8, UInt16.toNat_shiftRight, UInt16.toNat_and]
  change (location.toNat >>> 8 % 2 ^ 8) <<< 8 % 2 ^ 16 ||| (location.toNat &&& 255) % 2 ^ 8 = location.toNat
  rw [Nat.and_two_pow_sub_one_eq_mod _ 8, Nat.mod_mod, Nat.shiftRight_eq_div_pow, Nat.mod_eq_of_lt (by omega),
    Nat.mod_eq_of_lt (by omega), ← Nat.shiftLeft_add_eq_or_of_lt hlow, Nat.shiftLeft_eq]
  exact Nat.div_add_mod' _ _

namespace ScreenBuffer

variable {b : ScreenBuffer} {attr : UInt8} {c : UInt16} {dst src i j y : ℤ}

theorem cells_store : (b.store i c).cells j = if j = i then c else b.cells j := Function.update_apply ..

theorem cells_copy : (b.copy dst src).cells j = if j = dst then b.cells src else b.cells j := cells_store

/-- A range of cells gets the same character. -/
theorem cells_fill (count : ℕ) (start : ℤ) :
    ((List.range count).foldl (fun b (j : ℕ) => b.store (j + start) c) b).cells i =
      if start ≤ i ∧ i < start + count then c else b.cells i := by
  induction count with
  | zero =>
    rw [if_neg (by omega)]
    rfl
  | succ count ih =>
    rw [List.range_succ, List.foldl_append, List.foldl_cons, List.foldl_nil, cells_store]
    by_cases hlast : i = count + start
    · rw [if_pos hlast, if_pos (by omega)]
    · rw [if_neg hlast, ih]
      congr 1
      exact propext ⟨fun h => by omega, fun h => by omega⟩

/-- A line is blank after it was cleared. -/
theorem cells_clearLine : (b.clearLine attr y).cells i =
    if y * screenWidth ≤ i ∧ i < y * screenWidth + screenWidth then attr.toUInt16 <<< 8 else b.cells i :=
  cells_fill screenWidth _

/-- The cells move down, as every cell is read before it is written. -/
theorem cells_moveMemory (h : dst ≤ src) (count : ℕ) : (b.moveMemory dst src count).cells i =
    if dst ≤ i ∧ i < dst + count then b.cells (i + (src - dst)) else b.cells i := by
  induction count generalizing i with
  | zero =>
    rw [if_neg (by omega)]
    rfl
  | succ count ih =>
    have hread : (b.moveMemory dst src count).cells (src + count) = b.cells (src + count) := by
      rw [ih, if_neg (by omega)]
    rw [moveMemory, List.range_succ, List.foldl_append, List.foldl_cons, List.foldl_nil, ← moveMemory, cells_copy, hread]
    by_cases hlast : i = dst + count
    · rw [if_pos hlast, if_pos (by omega)]
      congr 1
      omega
    · rw [if_neg hlast, ih]
      congr 1
      exact propext ⟨fun h => by omega, fun h => by omega⟩

theorem InScreen.store (h : b.InScreen) (hi : 0 ≤ i ∧ i < screenWidth * screenHeight) : (b.store i c).InScreen := by
  intro j hj
  rcases List.mem_cons.mp hj with rfl | hj
  · exact hi
  · exact h j hj

theorem InScreen.copy (h : b.InScreen) (hdst : 0 ≤ dst ∧ dst < screenWidth * screenHeight)
    (hsrc : 0 ≤ src ∧ src < screenWidth * screenHeight) : (b.copy dst src).InScreen := by
  refine InScreen.store ?_ hdst
  intro j hj
  rcases List.mem_cons.mp hj with rfl | hj
  · exact hsrc
  · exact h j hj

theorem InScreen.clearLine (h : b.InScreen) (hy : 0 ≤ y ∧ y < screenHeight) : (b.clearLine attr y).InScreen := by
  apply List.foldlRecOn _ _ h
  intro b hb i hi
  have hlt := List.mem_range.mp hi
  apply hb.store
  rw [screenWidth] at hlt ⊢
  rw [screenHeight] at hy ⊢
  omega

/-- The lines but the first are moved to the lines but the last. -/
theorem InScreen.moveMemory (h : b.InScreen) :
    (b.moveMemory 0 screenWidth (screenWidth * (screenHeight - 1))).InScreen := by
  apply List.foldlRecOn _ _ h
  intro b hb i hi
  have hlt := List.mem_range.mp hi
  rw [screenWidth, screenHeight] at hlt
  apply hb.copy
  · rw [screenWidth, screenHeight]
    omega
  · rw [screenWidth, screenHeight]
    omega

end ScreenBuffer

/-! ## The position -/

namespace TextScreen

variable {s : TextScreen} {memory : ℤ → UInt16} {crtc : Crtc} {calls : List Call} {data : List UInt8} {c : UInt8} {i : ℤ}

/-- **Scrolling** moves the lines up and leaves a blank line behind. -/
theorem cells_scroll : s.scroll.screenBuffer.cells i =
    if 0 ≤ i ∧ i < 24 * 80 then s.screenBuffer.cells (i + 80)
    else if 24 * 80 ≤ i ∧ i < 25 * 80 then s.attr_.toUInt16 <<< 8
    else s.screenBuffer.cells i := by
  rw [scroll, ScreenBuffer.cells_clearLine, ScreenBuffer.cells_moveMemory (by decide)]
  rw [screenWidth, screenHeight]
  grind

theorem setCursor_good (h : s.Good) : s.setCursor.Good := ⟨⟨h.onScreen.x, h.onScreen.y⟩, h.inScreen⟩

theorem first_column : (0 : ℤ) ≤ 0 ∧ (0 : ℤ) < screenWidth := by decide

theorem first_line : (0 : ℤ) ≤ 0 ∧ (0 : ℤ) < screenHeight := by decide

/-- The next line is on the screen if this one is. -/
theorem newline_good (hy : 0 ≤ s.y_ ∧ s.y_ < screenHeight) (h : s.screenBuffer.InScreen) : s.newline.Good := by
  rw [newline]
  by_cases hlast : s.y_ + 1 = (screenHeight : ℤ)
  · rw [if_pos hlast]
    have hline : (0 : ℤ) ≤ screenHeight - 1 ∧ (screenHeight - 1 : ℤ) < screenHeight := by decide
    exact ⟨⟨first_column, hline⟩, h.moveMemory.clearLine hline⟩
  · rw [if_neg hlast]
    have hline : 0 ≤ s.y_ + 1 ∧ s.y_ + 1 < screenHeight := by omega
    exact ⟨⟨first_column, hline⟩, h⟩

/-- **The step**: a character is stored on the screen, and the next position is there. -/
theorem put_good (h : s.Good) : (s.put c).Good := by
  obtain ⟨⟨hx, hy⟩, hin⟩ := h
  rw [put]
  by_cases hreturn : c = 0x0d
  · rw [if_pos hreturn]
    exact ⟨⟨first_column, hy⟩, hin⟩
  · rw [if_neg hreturn]
    by_cases hnewline : c = 0x0a
    · rw [if_pos hnewline]
      exact newline_good hy hin
    · rw [if_neg hnewline]
      have hstored : (s.screenBuffer.store (s.x_ + s.y_ * screenWidth)
          (s.attr_.toUInt16 <<< 8 ||| c.toUInt16)).InScreen := by
        apply hin.store
        rw [screenWidth] at hx ⊢
        rw [screenHeight] at hy ⊢
        omega
      by_cases hfull : s.x_ + 1 = (screenWidth : ℤ)
      · rw [if_pos hfull]
        exact newline_good hy hstored
      · rw [if_neg hfull]
        have hcolumn : 0 ≤ s.x_ + 1 ∧ s.x_ + 1 < screenWidth := by omega
        exact ⟨⟨hcolumn, hy⟩, hstored⟩

theorem write_good (h : s.Good) : (s.write data).Good :=
  setCursor_good (List.foldlRecOn data put h fun _ hs _ _ => put_good hs)

/-- Clearing the screen brings the position back from anywhere. -/
theorem clear_good (h : s.screenBuffer.InScreen) : s.clear.Good := by
  have hcleared : ((List.range screenHeight).foldl (fun s (i : ℕ) => s.clearLine i) s).screenBuffer.InScreen := by
    apply List.foldlRecOn (motive := fun s : TextScreen => s.screenBuffer.InScreen) _ _ h
    intro s hs i hi
    have hlt := List.mem_range.mp hi
    exact ScreenBuffer.InScreen.clearLine hs ⟨by omega, by omega⟩
  exact setCursor_good ⟨⟨first_column, first_line⟩, hcleared⟩

/-- A call keeps the position on the screen. -/
theorem Good.call (h : s.Good) (c : Call) : (s.call c).Good := by
  cases c with
  | write data => exact write_good h
  | clear => exact clear_good h.inScreen

/-- **The run**: so do all calls. -/
theorem Good.run (h : s.Good) (calls : List Call) : (s.run calls).Good :=
  List.foldlRecOn calls TextScreen.call h fun _ hs c _ => hs.call c

/-- The cursor is shown at a position on the screen. -/
theorem setCursor_cursor (h : s.OnScreen) :
    (s.setCursor.crtc.cursorLocation.toNat : ℤ) = s.x_ + s.y_ * screenWidth := by
  have hx := h.x
  have hy := h.y
  rw [setCursor, Crtc.cursorLocation_setCursorLocation]
  rw [screenWidth] at hx ⊢
  rw [screenHeight] at hy
  obtain ⟨n, hn⟩ := Int.eq_ofNat_of_zero_le (by omega : 0 ≤ s.x_ + s.y_ * (80 : ℕ))
  have hlt : n < 2 ^ 16 := by omega
  have hmod : (n : ℤ) % 2 ^ 16 = n := Int.emod_eq_of_lt (Int.natCast_nonneg n) (Int.ofNat_lt.mpr hlt)
  rw [hn, UInt16.ofInt, hmod, Int.toNat_natCast, UInt16.toNat_ofNat_of_lt' hlt]

/-- **The cursor** is at the position after every call. -/
theorem call_cursor (h : s.Good) (c : Call) :
    ((s.call c).crtc.cursorLocation.toNat : ℤ) = (s.call c).x_ + (s.call c).y_ * screenWidth := by
  cases c with
  | write data => exact setCursor_cursor (List.foldlRecOn data put h fun _ hs _ _ => put_good hs).onScreen
  | clear => exact setCursor_cursor ⟨first_column, first_line⟩

/-! ## Below the screen -/

/-- A position below the screen stays below. -/
theorem below_newline (h : screenHeight ≤ s.y_) : screenHeight ≤ s.newline.y_ := by
  rw [newline, if_neg (by simp only []; omega)]
  exact Int.le_add_one h

theorem below_put (h : screenHeight ≤ s.y_) : screenHeight ≤ (s.put c).y_ := by
  rw [put]
  split
  · exact h
  · split
    · exact below_newline h
    · simp only []
      split
      · exact below_newline h
      · exact h

theorem below_write (h : screenHeight ≤ s.y_) : screenHeight ≤ (s.write data).y_ :=
  List.foldlRecOn (motive := fun s : TextScreen => screenHeight ≤ s.y_) data put h fun _ hs _ _ => below_put hs

/-! ## From the beginning -/

theorem new_inScreen : (new memory crtc).screenBuffer.InScreen := fun _ hi => absurd hi List.not_mem_nil

theorem new_good (h : crtc.cursorLocation.toNat < screenWidth * screenHeight) : (new memory crtc).Good := by
  refine ⟨⟨⟨?_, ?_⟩, ⟨?_, ?_⟩⟩, new_inScreen⟩
  · exact Int.natCast_nonneg _
  · exact Int.ofNat_lt.mpr (Nat.mod_lt _ (by decide))
  · exact Int.natCast_nonneg _
  · exact Int.ofNat_lt.mpr (Nat.div_lt_of_lt_mul h)

theorem new_below (h : screenWidth * screenHeight ≤ crtc.cursorLocation.toNat) : screenHeight ≤ (new memory crtc).y_ :=
  Int.ofNat_le.mpr ((Nat.le_div_iff_mul_le (by decide)).mpr (Nat.mul_comm .. ▸ h))

/-- **The screen buffer** is left, or the position leaves the screen, exactly if the cursor is below
the screen at the beginning and the first call writes. -/
theorem run_good_iff (memory : ℤ → UInt16) (crtc : Crtc) (calls : List Call) :
    (∀ pre, pre <+: calls → ((new memory crtc).run pre).screenBuffer.InScreen ∧
        (pre ≠ [] → ((new memory crtc).run pre).OnScreen)) ↔
      crtc.cursorLocation.toNat < screenWidth * screenHeight ∨ ∀ data rest, calls ≠ .write data :: rest := by
  constructor
  · intro h
    by_contra hnot
    obtain ⟨hbelow, hwrite⟩ := not_or.mp hnot
    simp only [not_forall, not_not] at hwrite
    obtain ⟨data, rest, rfl⟩ := hwrite
    have honScreen := (h [.write data] ⟨rest, rfl⟩).2 (List.cons_ne_nil _ _)
    exact absurd honScreen.y.2 (Int.not_lt.mpr (below_write (new_below (Nat.not_lt.mp hbelow))))
  · intro h pre hpre
    cases pre with
    | nil => exact ⟨new_inScreen, fun hnil => absurd rfl hnil⟩
    | cons first pre =>
      have hgood : ((new memory crtc).call first).Good := by
        rcases h with hlocation | hfirst
        · exact (new_good hlocation).call first
        · cases first with
          | write data =>
            obtain ⟨rest, rfl⟩ := hpre
            exact absurd rfl (hfirst data _)
          | clear => exact clear_good new_inScreen
      exact ⟨(hgood.run pre).inScreen, fun _ => (hgood.run pre).onScreen⟩

/-- The cursor is in the line behind the last one, and a character is written. -/
theorem not_run_good : ¬ ∀ memory crtc calls pre, pre <+: calls →
    ((new memory crtc).run pre).screenBuffer.InScreen ∧ (pre ≠ [] → ((new memory crtc).run pre).OnScreen) := by
  intro h
  have hin := (h (fun _ => 0) (.setCursorLocation 2000) [.write [0x41]] [.write [0x41]] (List.prefix_refl _)).1
  exact absurd (hin 2000 (by decide)) (by decide)

end TextScreen

end Attos.Vga

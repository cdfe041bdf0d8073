import Mathlib.Tactic

/-!
# Bytes in memory and in packets

Memory is a function from addresses to bytes. A packet is a list of bytes; seen
as memory (`view`) it is zero behind its end. Multi-byte fields of packets are
read in network byte order (`be16`, `be32`), those of files and the bytes of a
machine word in the other one (`le16`, `le32`, `le64`, `byteOf`).
-/

namespace Lib

/-- The list of bytes as memory that starts at address 0. -/
def view (l : List UInt8) : ℕ → UInt8 := fun i => l.getD i 0

/-- The `n` bytes of memory from `a` on. -/
def bytesAt (m : ℕ → UInt8) (a n : ℕ) : List UInt8 := (List.range n).map fun i => m (a + i)

/-- The 16-bit number at `a`. -/
def be16 (m : ℕ → UInt8) (a : ℕ) : ℕ := (m a).toNat * 256 + (m (a + 1)).toNat

/-- The 32-bit number at `a`. -/
def be32 (m : ℕ → UInt8) (a : ℕ) : ℕ := be16 m a * 65536 + be16 m (a + 2)

/-- The 16-bit number at `a`, low byte first. -/
def le16 (m : ℕ → UInt8) (a : ℕ) : ℕ := (m a).toNat + 256 * (m (a + 1)).toNat

/-- The 32-bit number at `a`, low byte first. -/
def le32 (m : ℕ → UInt8) (a : ℕ) : ℕ := le16 m a + 65536 * le16 m (a + 2)

/-- The 64-bit number at `a`, low byte first. -/
def le64 (m : ℕ → UInt8) (a : ℕ) : ℕ := le32 m a + 2 ^ 32 * le32 m (a + 4)

/-- The byte `j` of a word, low byte first. -/
def byteOf (w : BitVec 64) (j : ℕ) : UInt8 := UInt8.ofNat (w.toNat / 256 ^ j)

/-- The word of eight bytes, low byte first. -/
def wordOf (f : ℕ → UInt8) : BitVec 64 := BitVec.ofNat 64 (le64 f 0)

/-- The two bytes of a 16-bit number. -/
def put16 (n : ℕ) : List UInt8 := [UInt8.ofNat (n / 256), UInt8.ofNat n]

/-- The four bytes of a 32-bit number. -/
def put32 (n : ℕ) : List UInt8 := put16 (n / 65536) ++ put16 n

@[simp] theorem length_put16 (n : ℕ) : (put16 n).length = 2 := rfl

@[simp] theorem length_put32 (n : ℕ) : (put32 n).length = 4 := rfl

@[simp] theorem length_bytesAt (m : ℕ → UInt8) (a n : ℕ) : (bytesAt m a n).length = n := by
  simp [bytesAt]

theorem be16_lt (m : ℕ → UInt8) (a : ℕ) : be16 m a < 2 ^ 16 := by
  have h₁ := (m a).toNat_lt
  have h₂ := (m (a + 1)).toNat_lt
  rw [be16]
  omega

theorem le16_lt (m : ℕ → UInt8) (a : ℕ) : le16 m a < 2 ^ 16 := by
  have h₁ := (m a).toNat_lt
  have h₂ := (m (a + 1)).toNat_lt
  rw [le16]
  omega

theorem le32_lt (m : ℕ → UInt8) (a : ℕ) : le32 m a < 2 ^ 32 := by
  have h₁ := le16_lt m a
  have h₂ := le16_lt m (a + 2)
  rw [le32]
  omega

theorem le64_lt (m : ℕ → UInt8) (a : ℕ) : le64 m a < 2 ^ 64 := by
  have h₁ := le32_lt m a
  have h₂ := le32_lt m (a + 4)
  rw [le64]
  omega

/-- A 64-bit number is made of eight bytes. -/
theorem le64_congr {m m' : ℕ → UInt8} {a : ℕ} (h : ∀ i < 8, m' (a + i) = m (a + i)) : le64 m' a = le64 m a := by
  have h₀ := h 0 (by decide)
  rw [Nat.add_zero] at h₀
  simp only [le64, le32, le16, Nat.add_assoc, Nat.reduceAdd, h₀, h 1 (by decide), h 2 (by decide), h 3 (by decide),
    h 4 (by decide), h 5 (by decide), h 6 (by decide), h 7 (by decide)]

/-- The bytes of a word are read back. -/
theorem byteOf_wordOf (f : ℕ → UInt8) {j : ℕ} (hj : j < 8) : byteOf (wordOf f) j = f j := by
  have hlt := le64_lt f 0
  apply UInt8.toNat_inj.mp
  rw [byteOf, wordOf, BitVec.toNat_ofNat, Nat.mod_eq_of_lt hlt, UInt8.toNat_ofNat']
  have hbyte : ∀ i, (f i).toNat < 256 := fun i => (f i).toNat_lt
  have h₀ := hbyte 0
  have h₁ := hbyte 1
  have h₂ := hbyte 2
  have h₃ := hbyte 3
  have h₄ := hbyte 4
  have h₅ := hbyte 5
  have h₆ := hbyte 6
  have h₇ := hbyte 7
  simp only [le64, le32, le16, Nat.zero_add, Nat.reduceAdd]
  interval_cases j <;> simp only [Nat.reducePow] <;> omega

/-- A 16-bit number is read back from its two bytes. -/
theorem be16_put16 (n : ℕ) (h : n < 2 ^ 16) (l : List UInt8) : be16 (view (put16 n ++ l)) 0 = n := by
  simp [be16, view, put16]
  omega

/-! ## Contents of memory -/

/-- The bytes `l` are in memory from `a` on. -/
def Stores (m : ℕ → UInt8) (a : ℕ) (l : List UInt8) : Prop := ∀ i < l.length, m (a + i) = view l i

/-- The memory after the bytes `l` are written to `a`. -/
def storeBytes (m : ℕ → UInt8) (a : ℕ) (l : List UInt8) : ℕ → UInt8 := fun i =>
  if a ≤ i ∧ i < a + l.length then view l (i - a) else m i

namespace Stores

variable {m : ℕ → UInt8} {a n : ℕ} {l l' : List UInt8} {b : UInt8}

/-- A list seen as memory has its bytes. -/
theorem view_self (l : List UInt8) : Stores (view l) 0 l := fun i _ => by rw [Nat.zero_add]

/-- Parts of the contents are next to each other. -/
theorem append_iff : Stores m a (l ++ l') ↔ Stores m a l ∧ Stores m (a + l.length) l' := by
  have hleft : ∀ i < l.length, view (l ++ l') i = view l i := fun i hi => by
    simp [view, List.getD_eq_getElem?_getD, List.getElem?_append_left hi]
  have hright : ∀ i, view (l ++ l') (l.length + i) = view l' i := fun i => by
    simp [view, List.getD_eq_getElem?_getD, List.getElem?_append_right]
  constructor
  · intro h
    refine ⟨fun i hi => ?_, fun i hi => ?_⟩
    · rw [h i (by simp; omega), hleft i hi]
    · rw [Nat.add_assoc, h (l.length + i) (by simp; omega), hright]
  · rintro ⟨h, h'⟩ i hi
    rcases Nat.lt_or_ge i l.length with hlt | hge
    · rw [h i hlt, hleft i hlt]
    · obtain ⟨j, rfl⟩ := Nat.exists_eq_add_of_le hge
      rw [← Nat.add_assoc, h' j (by simp at hi; omega), hright]

/-- The first byte. -/
theorem cons_iff : Stores m a (b :: l) ↔ m a = b ∧ Stores m (a + 1) l := by
  rw [← List.singleton_append, append_iff]
  refine and_congr ⟨fun h => h 0 (by simp), fun h i hi => ?_⟩ Iff.rfl
  obtain rfl : i = 0 := by simpa using hi
  exact h

/-- All the bytes are read. -/
theorem bytesAt_eq (h : Stores m a l) : bytesAt m a l.length = l := by
  apply List.ext_getElem (by simp)
  intro i _ hi
  simp only [bytesAt, List.getElem_map, List.getElem_range]
  rw [h i hi, view, List.getD_eq_getElem?_getD, List.getElem?_eq_getElem hi, Option.getD_some]

/-- What is stored at a place is determined by its length. -/
theorem unique (h : Stores m a l) (h' : Stores m a l') (hlength : l.length = l'.length) : l = l' := by
  rw [← h.bytesAt_eq, hlength, h'.bytesAt_eq]

/-- The bytes that were written are there. -/
theorem storeBytes_self : Stores (storeBytes m a l) a l := by
  intro i hi
  rw [storeBytes, if_pos ⟨Nat.le_add_right .., Nat.add_lt_add_left hi a⟩, Nat.add_sub_cancel_left]

/-- A 16-bit number is read. -/
theorem be16_eq (h : Stores m a (put16 n)) (hn : n < 2 ^ 16) : be16 m a = n := by
  have h₀ : m a = _ := h 0 (by simp)
  have h₁ : m (a + 1) = _ := h 1 (by simp)
  simp [view, put16] at h₀ h₁
  rw [be16, h₀, h₁]
  simp
  omega

/-- A 32-bit number is read. -/
theorem be32_eq (h : Stores m a (put32 n)) (hn : n < 2 ^ 32) : be32 m a = n := by
  obtain ⟨hhi, hlo⟩ := append_iff.mp h
  have hlo' : Stores m (a + 2) (put16 (n % 65536)) := by
    have hput : put16 (n % 65536) = put16 n := by
      simp only [put16]
      congr 1
      · apply UInt8.toNat_inj.mp
        simp
        omega
      · congr 1
        apply UInt8.toNat_inj.mp
        simp
    rw [hput]
    exact hlo
  rw [be32, hhi.be16_eq (by omega), hlo'.be16_eq (by omega)]
  omega

end Stores

end Lib

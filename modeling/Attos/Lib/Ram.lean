import Attos.Lib.Bytes

/-!
# Memory with 64-bit addresses

Addresses wrap around. A block of memory is given by its first address and its number of bytes, and
an address is in it if it is less than that number behind the first (`InBlock`). Blocks that have no
address in common are apart (`Apart`), and a store to one of them is not seen in the other one.
-/

namespace Lib

/-- Memory with 64-bit addresses. -/
abbrev Ram : Type := BitVec 64 → UInt8

/-- The address is in the block of `n` bytes at `a`. -/
def InBlock (a : BitVec 64) (n : ℕ) (x : BitVec 64) : Prop := (x - a).toNat < n

instance (a : BitVec 64) (n : ℕ) (x : BitVec 64) : Decidable (InBlock a n x) :=
  inferInstanceAs (Decidable ((x - a).toNat < n))

/-- The block of `n` bytes at `a` and the block of `k` bytes at `b` are apart. -/
def Apart (a : BitVec 64) (n : ℕ) (b : BitVec 64) (k : ℕ) : Prop := n ≤ (b - a).toNat ∧ k ≤ (a - b).toNat

namespace Ram

/-- Write `n` bytes to `a`. -/
def store (m : Ram) (a : BitVec 64) (n : ℕ) (f : ℕ → UInt8) : Ram := fun x =>
  if InBlock a n x then f (x - a).toNat else m x

/-- Write a word to `a`, low byte first. -/
def store64 (m : Ram) (a w : BitVec 64) : Ram := m.store a 8 (byteOf w)

/-- The word at `a`, low byte first. -/
def load64 (m : Ram) (a : BitVec 64) : BitVec 64 := wordOf fun i => m (a + BitVec.ofNat 64 i)

/-- The 32-bit number at `a`, low byte first. -/
def load32 (m : Ram) (a : BitVec 64) : BitVec 32 := BitVec.ofNat 32 (le32 (fun i => m (a + BitVec.ofNat 64 i)) 0)

/-- The 16-bit number at `a`, low byte first. -/
def load16 (m : Ram) (a : BitVec 64) : BitVec 16 := BitVec.ofNat 16 (le16 (fun i => m (a + BitVec.ofNat 64 i)) 0)

end Ram

section Blocks

variable {a b x : BitVec 64} {n k i j : ℕ}

/-- The byte `i` of a block. -/
theorem add_sub_toNat (a : BitVec 64) (hi : i < 2 ^ 64) : (a + BitVec.ofNat 64 i - a).toNat = i := by
  rw [BitVec.add_comm, BitVec.add_sub_cancel, BitVec.toNat_ofNat, Nat.mod_eq_of_lt hi]

theorem inBlock_add (a : BitVec 64) (hi : i < n) (hn : n ≤ 2 ^ 64) : InBlock a n (a + BitVec.ofNat 64 i) := by
  rw [InBlock, add_sub_toNat a (by omega)]
  exact hi

/-- An address of a block is one of its bytes. -/
theorem InBlock.exists_add (h : InBlock a n x) : ∃ i < n, x = a + BitVec.ofNat 64 i := by
  refine ⟨(x - a).toNat, h, ?_⟩
  rw [BitVec.ofNat_toNat, BitVec.setWidth_eq, BitVec.add_comm, BitVec.sub_add_cancel]

theorem toNat_sub_comm (a b : BitVec 64) : (a - b).toNat = (2 ^ 64 - (b - a).toNat) % 2 ^ 64 := by
  rw [← BitVec.toNat_neg]
  congr 1
  grind

/-- Blocks that are apart have no address in common. -/
theorem Apart.not_inBlock (h : Apart a n b k) (hx : InBlock b k x) : ¬ InBlock a n x := by
  rw [InBlock] at hx ⊢
  obtain ⟨hn, hk⟩ := h
  have hsum : x - a = (x - b) + (b - a) := by grind
  rw [hsum, BitVec.toNat_add]
  have hopp := toNat_sub_comm a b
  have hlt := (b - a).isLt
  omega

theorem Apart.symm (h : Apart a n b k) : Apart b k a n := ⟨h.2, h.1⟩

theorem Apart.mono {n' k' : ℕ} (h : Apart a n b k) (hn : n' ≤ n) (hk : k' ≤ k) : Apart a n' b k' :=
  ⟨hn.trans h.1, hk.trans h.2⟩

/-- Parts of blocks that are apart are apart. -/
theorem Apart.sub (h : Apart a n b k) {n' : ℕ} (hi : i + n' ≤ n) (hn : n ≤ 2 ^ 64) (hk : k ≤ 2 ^ 64) (hk' : 0 < k)
    (hn' : 0 < n') : Apart (a + BitVec.ofNat 64 i) n' b k := by
  obtain ⟨hna, hkb⟩ := h
  have hopp := toNat_sub_comm a b
  have hleft : b - (a + BitVec.ofNat 64 i) = (b - a) - BitVec.ofNat 64 i := by grind
  have hright : a + BitVec.ofNat 64 i - b = (a - b) + BitVec.ofNat 64 i := by grind
  have hi' : i % 2 ^ 64 = i := Nat.mod_eq_of_lt (by omega)
  have hlt := (b - a).isLt
  constructor
  · rw [hleft, BitVec.toNat_sub, BitVec.toNat_ofNat, hi']
    omega
  · rw [hright, BitVec.toNat_add, BitVec.toNat_ofNat, hi']
    omega

/-- Blocks below the same address are apart if one of them ends where the other one begins, or
before it. -/
theorem apart_of_le {d e : ℕ} (a : BitVec 64) (h : d + n ≤ e ∨ e + k ≤ d) (hd : d + n ≤ 2 ^ 63)
    (he : e + k ≤ 2 ^ 63) (hn : 0 < n) (hk : 0 < k) :
    Apart (a + BitVec.ofNat 64 d) n (a + BitVec.ofNat 64 e) k := by
  have hleft : a + BitVec.ofNat 64 e - (a + BitVec.ofNat 64 d) = BitVec.ofNat 64 e - BitVec.ofNat 64 d := by grind
  have hright : a + BitVec.ofNat 64 d - (a + BitVec.ofNat 64 e) = BitVec.ofNat 64 d - BitVec.ofNat 64 e := by grind
  rw [Apart, hleft, hright, BitVec.toNat_sub, BitVec.toNat_sub, BitVec.toNat_ofNat, BitVec.toNat_ofNat,
    Nat.mod_eq_of_lt (by omega : d < 2 ^ 64), Nat.mod_eq_of_lt (by omega : e < 2 ^ 64)]
  omega

/-- The same for blocks that are given by how far below an address they are. -/
theorem apart_below {d e : ℕ} (a : BitVec 64) (h : e + n ≤ d ∨ d + k ≤ e) (hd : d ≤ 2 ^ 62) (he : e ≤ 2 ^ 62)
    (hn : 0 < n) (hk : 0 < k) (hn' : n ≤ 2 ^ 62) (hk' : k ≤ 2 ^ 62) :
    Apart (a - BitVec.ofNat 64 d) n (a - BitVec.ofNat 64 e) k := by
  have hleft : a - BitVec.ofNat 64 e - (a - BitVec.ofNat 64 d) = BitVec.ofNat 64 d - BitVec.ofNat 64 e := by grind
  have hright : a - BitVec.ofNat 64 d - (a - BitVec.ofNat 64 e) = BitVec.ofNat 64 e - BitVec.ofNat 64 d := by grind
  rw [Apart, hleft, hright, BitVec.toNat_sub, BitVec.toNat_sub, BitVec.toNat_ofNat, BitVec.toNat_ofNat,
    Nat.mod_eq_of_lt (by omega : d < 2 ^ 64), Nat.mod_eq_of_lt (by omega : e < 2 ^ 64)]
  omega

/-- The block that ends `e` below an address contains the block at `d` below it. -/
theorem inBlock_below {d e : ℕ} (h : InBlock (a - BitVec.ofNat 64 d) n x) (hd : d ≤ e) (hle : e - d + n ≤ k)
    (hk : k ≤ 2 ^ 62) : InBlock (a - BitVec.ofNat 64 e) k x := by
  have hsum : x - (a - BitVec.ofNat 64 e) = (x - (a - BitVec.ofNat 64 d)) + BitVec.ofNat 64 (e - d) := by
    rw [← Nat.sub_add_cancel hd, BitVec.ofNat_add, Nat.add_sub_cancel]
    grind
  rw [InBlock] at h ⊢
  rw [hsum, BitVec.toNat_add, BitVec.toNat_ofNat, Nat.mod_eq_of_lt (by omega : e - d < 2 ^ 64)]
  omega

end Blocks

/-- The bytes of a word make the word. -/
theorem wordOf_byteOf (w : BitVec 64) : wordOf (byteOf w) = w := by
  have hlt := w.isLt
  apply BitVec.eq_of_toNat_eq
  rw [wordOf, BitVec.toNat_ofNat]
  simp only [le64, le32, le16, byteOf, UInt8.toNat_ofNat', Nat.zero_add, Nat.reduceAdd, Nat.reducePow, Nat.div_one,
    pow_zero, pow_one]
  omega

theorem wordOf_congr {f g : ℕ → UInt8} (h : ∀ i < 8, f i = g i) : wordOf f = wordOf g := by
  have heq : le64 f 0 = le64 g 0 := le64_congr fun i hi => by rw [Nat.zero_add]; exact h i hi
  rw [wordOf, wordOf, heq]

namespace Ram

variable {m m' : Ram} {a b w x : BitVec 64} {n i : ℕ} {f : ℕ → UInt8}

theorem store_of_inBlock (h : InBlock a n x) : m.store a n f x = f (x - a).toNat := if_pos h

theorem store_of_not_inBlock (h : ¬ InBlock a n x) : m.store a n f x = m x := if_neg h

/-- A word is read back. -/
@[simp] theorem load64_store64 (m : Ram) (a w : BitVec 64) : (m.store64 a w).load64 a = w := by
  rw [load64, store64]
  refine (wordOf_congr fun i hi => ?_).trans (wordOf_byteOf w)
  rw [store_of_inBlock (inBlock_add a hi (by decide)), add_sub_toNat a (by omega)]

/-- A word is determined by its bytes. -/
theorem load64_congr (h : ∀ x, InBlock a 8 x → m' x = m x) : m'.load64 a = m.load64 a :=
  wordOf_congr fun _ hi => h _ (inBlock_add a hi (by decide))

/-- A store is not seen in a block that is apart. -/
theorem store_apart {k : ℕ} (h : Apart a n b k) (hx : InBlock b k x) : m.store a n f x = m x :=
  store_of_not_inBlock (h.not_inBlock hx)

theorem load64_store_apart (h : Apart a n b 8) : (m.store a n f).load64 b = m.load64 b :=
  load64_congr fun _ hx => store_apart h hx

/-- A 32-bit number is the lower half of the word. -/
theorem load32_eq (m : Ram) (a : BitVec 64) : m.load32 a = (m.load64 a).setWidth 32 := by
  apply BitVec.eq_of_toNat_eq
  rw [load32, load64, wordOf, BitVec.toNat_setWidth, BitVec.toNat_ofNat, BitVec.toNat_ofNat, le64]
  omega

theorem load16_eq (m : Ram) (a : BitVec 64) : m.load16 a = (m.load64 a).setWidth 16 := by
  apply BitVec.eq_of_toNat_eq
  rw [load16, load64, wordOf, BitVec.toNat_setWidth, BitVec.toNat_ofNat, BitVec.toNat_ofNat, le64, le32]
  omega

/-- The first byte is the lowest one. -/
theorem load8_eq (m : Ram) (a : BitVec 64) : (m a).toBitVec = (m.load64 a).setWidth 8 := by
  have hbyte := (m a).toNat_lt
  have hzero : a + BitVec.ofNat 64 0 = a := BitVec.add_zero a
  apply BitVec.eq_of_toNat_eq
  rw [load64, wordOf, BitVec.toNat_setWidth, BitVec.toNat_ofNat, le64, le32, le16, hzero, UInt8.toNat_toBitVec]
  omega

theorem load64_store64_apart (h : Apart a 8 b 8) : (m.store64 a w).load64 b = m.load64 b :=
  load64_store_apart h

/-! ### Many words -/

section Stores

variable {ι : Type} {place value : ι → BitVec 64} {is : List ι} {j : ι}

theorem stores_of_not_inBlock (h : ∀ j ∈ is, ¬ InBlock (place j) 8 x) :
    is.foldl (fun m j => m.store64 (place j) (value j)) m x = m x := by
  induction is generalizing m with
  | nil => rfl
  | cons j is ih =>
    rw [List.foldl_cons, ih fun k hk => h k (List.mem_cons_of_mem j hk)]
    exact store_of_not_inBlock (h j List.mem_cons_self)

/-- Words that are written to places which are apart are read back. -/
theorem load64_stores (place value : ι → BitVec 64) (h : ∀ k ∈ is, k ≠ j → Apart (place k) 8 (place j) 8) (hj : j ∈ is) :
    (is.foldl (fun m j => m.store64 (place j) (value j)) m : Ram).load64 (place j) = value j := by
  induction is generalizing m with
  | nil => cases hj
  | cons k is ih =>
    rw [List.foldl_cons]
    by_cases hrest : j ∈ is
    · exact ih (fun l hl => h l (List.mem_cons_of_mem k hl)) hrest
    · obtain rfl : j = k := (List.mem_cons.mp hj).resolve_right hrest
      refine (load64_congr fun x hx => stores_of_not_inBlock fun l hl => ?_).trans (load64_store64 ..)
      exact (h l (List.mem_cons_of_mem j hl) fun heq => hrest (heq ▸ hl)).not_inBlock hx

end Stores

end Ram

end Lib

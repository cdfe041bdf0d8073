import Attos.Lib.OnesComplement
import Attos.Net.Headers

/-!
# The Internet checksum

`inet_csum` adds the 16-bit words of a buffer and folds the carries back in, so
it works modulo 65535 (`inetCsum_eq_zero_iff`), and its result is the complement
of the ones' complement sum (`inetCsum_eq_internetChecksum`). A buffer whose
checksum field was filled in has the checksum zero (`inetCsum_fill`).
-/

namespace Attos.Net

open Lib

/-- The sum of the 16-bit words of a buffer; a last odd byte is the high byte of
a word. -/
def wordSum : List UInt8 → ℕ
  | b₀ :: b₁ :: bs => b₀.toNat * 256 + b₁.toNat + wordSum bs
  | [b] => b.toNat * 256
  | [] => 0

/-- Two bytes are at most 65535. -/
theorem wordSum_le (l : List UInt8) : wordSum l ≤ 65535 * ((l.length + 1) / 2) := by
  induction l using wordSum.induct with
  | case1 b₀ b₁ bs ih =>
    have h₀ := b₀.toNat_lt
    have h₁ := b₁.toNat_lt
    simp only [wordSum, List.length_cons]
    omega
  | case2 b =>
    have h := b.toNat_lt
    simp only [wordSum, List.length_cons, List.length_nil]
    omega
  | case3 => simp [wordSum]

/-- The sum of two buffers, the first of which has whole words. -/
theorem wordSum_append {l : List UInt8} (hl : l.length % 2 = 0) (l' : List UInt8) :
    wordSum (l ++ l') = wordSum l + wordSum l' := by
  induction l using wordSum.induct with
  | case1 b₀ b₁ bs ih =>
    have hbs : bs.length % 2 = 0 := by
      simp only [List.length_cons] at hl
      omega
    simp only [List.cons_append, wordSum, ih hbs]
    omega
  | case2 b => simp at hl
  | case3 => simp [wordSum]

/-- A number is its own word. -/
theorem wordSum_put16 {n : ℕ} (hn : n < 2 ^ 16) : wordSum (put16 n) = n := by
  simp [put16, wordSum]
  omega

/-- The accumulator does not overflow. -/
theorem csumLoop_eq {l : List UInt8} {result : ℕ} (h : result + wordSum l < 2 ^ 32) :
    csumLoop l result = result + wordSum l := by
  induction l using wordSum.induct generalizing result with
  | case1 b₀ b₁ bs ih =>
    simp only [wordSum] at h
    have hlt : result + (b₀.toNat * 256 + b₁.toNat) < 2 ^ 32 :=
      lt_of_le_of_lt (Nat.add_le_add_left (Nat.le_add_right _ _) result) h
    rw [csumLoop, wordSum, u32_of_lt hlt, ih (by omega)]
    omega
  | case2 b =>
    rw [wordSum] at h
    rw [csumLoop, wordSum, u32_of_lt h]
  | case3 => rfl

/-- **Two folds are enough** to bring a sum below 2^16; the result is congruent
to the sum modulo 65535, and zero only if the sum is. -/
theorem fold_spec {s : ℕ} (hs : s < 2 ^ 32) : ∃ folded,
    (s / 2 ^ 16 + s % 2 ^ 16 + (s / 2 ^ 16 + s % 2 ^ 16) / 2 ^ 16) % 2 ^ 16 = folded ∧
      folded ≤ 65535 ∧ folded % 65535 = s % 65535 ∧ (folded = 0 ↔ s = 0) := by
  have hdiv := Nat.div_add_mod s (2 ^ 16)
  have hlt := Nat.mod_lt s (show 2 ^ 16 > 0 by norm_num)
  generalize s / 2 ^ 16 = hi at *
  generalize s % 2 ^ 16 = lo at *
  subst hdiv
  rcases Nat.lt_or_ge (hi + lo) (2 ^ 16) with hcarry | hcarry
  · exact ⟨hi + lo, by omega, by omega, by omega, by omega⟩
  · exact ⟨hi + lo - 65535, by omega, by omega, by omega, by omega⟩

/-- The checksum is the complement of the folded sum. -/
theorem inetCsum_spec {l : List UInt8} {init : ℕ} (h : init + wordSum l < 2 ^ 32) :
    ∃ folded, inetCsum l init = 65535 - folded ∧ folded ≤ 65535 ∧
      folded % 65535 = (init + wordSum l) % 65535 ∧ (folded = 0 ↔ init + wordSum l = 0) := by
  obtain ⟨folded, hfold, hspec⟩ := fold_spec h
  refine ⟨folded, ?_, hspec⟩
  rw [inetCsum, csumLoop_eq h, hfold]
  norm_num

/-- **A buffer has the checksum zero** if its sum is a multiple of 65535, and not
zero. -/
theorem inetCsum_eq_zero_iff {l : List UInt8} {init : ℕ} (h : init + wordSum l < 2 ^ 32) :
    inetCsum l init = 0 ↔ 0 < init + wordSum l ∧ (init + wordSum l) % 65535 = 0 := by
  obtain ⟨folded, hcsum, hle, hmod, hzero⟩ := inetCsum_spec h
  omega

/-- **A checksum that was filled in** at an even offset makes the checksum of
the buffer zero. -/
theorem inetCsum_fill {l l' : List UInt8} (hl : l.length % 2 = 0)
    (hlength : l.length + l'.length < 2 ^ 16) :
    inetCsum (l ++ put16 (inetCsum (l ++ put16 0 ++ l') 0) ++ l') 0 = 0 := by
  have hsum : ∀ n < 2 ^ 16, wordSum (l ++ put16 n ++ l') = wordSum l + n + wordSum l' := by
    intro n hn
    have heven : (l ++ put16 n).length % 2 = 0 := by simpa using hl
    rw [wordSum_append heven, wordSum_append hl, wordSum_put16 hn]
  have hle := wordSum_le l
  have hle' := wordSum_le l'
  have hzero := hsum 0 (by norm_num)
  obtain ⟨folded, hcsum, hfolded, hmod, hsame⟩ :=
    @inetCsum_spec (l ++ put16 0 ++ l') 0 (by omega)
  have hfill := hsum (65535 - folded) (by omega)
  rw [hcsum, inetCsum_eq_zero_iff (by omega), hfill]
  omega

/-- The 16-bit words of a buffer, high byte first; a last odd byte is padded with zero. -/
def words : List UInt8 → List ℕ
  | b₀ :: b₁ :: bs => (b₀.toNat * 256 + b₁.toNat) :: words bs
  | [b] => [b.toNat * 256]
  | [] => []

/-- The Internet checksum: the complement of the ones' complement sum of the words. -/
def internetChecksum (l : List UInt8) (init : ℕ) : ℕ := 65535 - onesSum 65535 (words l) init

theorem sum_words (l : List UInt8) : (words l).sum = wordSum l := by
  induction l using words.induct with
  | case1 b₀ b₁ bs ih => rw [words, wordSum, List.sum_cons, ih]
  | case2 b => rw [words, wordSum, List.sum_singleton]
  | case3 => rfl

theorem words_le (l : List UInt8) : ∀ a ∈ words l, a ≤ 65535 := by
  induction l using words.induct with
  | case1 b₀ b₁ bs ih =>
    have h₀ := b₀.toNat_lt
    have h₁ := b₁.toNat_lt
    intro a ha
    rw [words] at ha
    obtain rfl | ha := List.mem_cons.mp ha
    · omega
    · exact ih a ha
  | case2 b =>
    have h := b.toNat_lt
    intro a ha
    rw [words] at ha
    obtain rfl := List.mem_singleton.mp ha
    omega
  | case3 => simp [words]

theorem inetCsum_eq_internetChecksum {l : List UInt8} {init : ℕ} (hinit : init < 2 ^ 16)
    (h : init + wordSum l < 2 ^ 32) : inetCsum l init = internetChecksum l init := by
  obtain ⟨folded, hcsum, hle, hmod, hzero⟩ := inetCsum_spec h
  obtain ⟨hle', hmod', hzero'⟩ := onesSum_spec (words_le l) (Nat.le_of_lt_succ hinit)
  rw [sum_words] at hmod' hzero'
  rw [hcsum, internetChecksum, eq_of_ones hle hle' (hmod.trans hmod'.symm) (hzero.trans hzero'.symm)]

/-- A buffer whose length is a 16-bit number does not overflow the accumulator. -/
theorem wordSum_lt {l : List UInt8} {init : ℕ} (hl : l.length < 2 ^ 16) (hinit : init < 2 ^ 16) :
    init + wordSum l < 2 ^ 32 := by
  have hle := wordSum_le l
  omega

/-- **The Internet checksum.** For every buffer whose length is a 16-bit number, and every
initial value, `inet_csum` is the complement of the ones' complement sum of the words, and the
accumulator never overflows. If the word at an even offset is zero and is then replaced by the
checksum, that of the buffer becomes zero. -/
theorem inetCsum_internet (l : List UInt8) (init : ℕ) (hl : l.length < 2 ^ 16) (hinit : init < 2 ^ 16) :
    inetCsum l init = internetChecksum l init ∧
      (∀ n, csumLoop (l.take n) init = init + wordSum (l.take n) ∧ init + wordSum (l.take n) < 2 ^ 32) ∧
      ∀ l₁ l₂, l = l₁ ++ put16 0 ++ l₂ → l₁.length % 2 = 0 →
        inetCsum (l₁ ++ put16 (inetCsum l 0) ++ l₂) 0 = 0 := by
  refine ⟨inetCsum_eq_internetChecksum hinit (wordSum_lt hl hinit), fun n => ?_, ?_⟩
  · have htake : (l.take n).length < 2 ^ 16 := (List.length_take_le' n l).trans_lt hl
    have hlt := wordSum_lt htake hinit
    exact ⟨csumLoop_eq hlt, hlt⟩
  · rintro l₁ l₂ rfl heven
    refine inetCsum_fill heven ?_
    simp only [List.length_append, length_put16] at hl
    omega

/-- Five bytes, the last of which is padded, with a word for the checksum -/
theorem inetCsum_five : inetCsum [0xff, 0xfe, 0, 0, 0x01] 0 = internetChecksum [0xff, 0xfe, 0, 0, 0x01] 0 ∧
    (∀ n, csumLoop (([0xff, 0xfe, 0, 0, 0x01] : List UInt8).take n) 0 =
      0 + wordSum (([0xff, 0xfe, 0, 0, 0x01] : List UInt8).take n) ∧
      0 + wordSum (([0xff, 0xfe, 0, 0, 0x01] : List UInt8).take n) < 2 ^ 32) ∧
    inetCsum ([0xff, 0xfe] ++ put16 (inetCsum [0xff, 0xfe, 0, 0, 0x01] 0) ++ [0x01]) 0 = 0 := by
  obtain ⟨hcsum, hsum, hfill⟩ := inetCsum_internet [0xff, 0xfe, 0, 0, 0x01] 0 (by decide) (by decide)
  exact ⟨hcsum, hsum, hfill [0xff, 0xfe] [0x01] rfl rfl⟩

end Attos.Net

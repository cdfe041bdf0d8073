import Mathlib.Tactic

/-!
# Radix tables in memory

A table is a page of words; a word is absent, points to a table of the next
lower level, or is a leaf. A path of indices is looked up from the root table
down to the first word that is not a pointer.

Pages are shared by nothing in the type, so that a table has one parent is an
invariant (`Forest`): every table has a level, pointers go one level down, and
no two words point to the same table. Under it a table is reached by one path
(`Reaches.unique`), and a write to a word of a table changes exactly the lookups
whose path goes through this word (`lookup_write_off_path`,
`lookup_write_on_path`).
-/

namespace Lib

universe u v w

/-- What a word of a table says. -/
inductive Entry (P : Type u) : Type u where
  /-- nothing -/
  | absent : Entry P
  /-- the table for the next index -/
  | table : P → Entry P
  /-- the end of the lookup -/
  | leaf : Entry P
  deriving DecidableEq

namespace RadixTable

variable {P : Type u} {ι : Type v} {W : Type w} (kind : ℕ → W → Entry P)

/-- The level and the word of the leaf that the path leads to, from a table `p`
of level `n`. -/
def lookup (mem : P → ι → W) : ℕ → P → List ι → Option (ℕ × W)
  | n + 1, p, i :: is =>
    match kind (n + 1) (mem p i) with
    | .absent => none
    | .table q => lookup mem n q is
    | .leaf => some (n + 1, mem p i)
  | _, _, _ => none

/-- The path leads from the root, a table of level `n`, to a table. -/
inductive Reaches (mem : P → ι → W) (n : ℕ) (root : P) : List ι → P → Prop where
  /-- the empty path leads to the root -/
  | root : Reaches mem n root [] root
  /-- a word that is a pointer leads one level down -/
  | step {path : List ι} {i : ι} {p q : P} : Reaches mem n root path p →
      kind (n - path.length) (mem p i) = .table q → Reaches mem n root (path ++ [i]) q

/-- Tables have levels, and every table has one parent. -/
structure Forest (level : P → Option ℕ) (mem : P → ι → W) : Prop where
  /-- a pointer leads one level down -/
  child : ∀ {p q : P} {i : ι} {n : ℕ}, level p = some n → kind n (mem p i) = .table q →
    ∃ k, n = k + 1 ∧ level q = some k
  /-- two pointers to one table are the same -/
  unique : ∀ {p p' q : P} {i i' : ι} {n n' : ℕ}, level p = some n → level p' = some n' →
    kind n (mem p i) = .table q → kind n' (mem p' i') = .table q → p = p' ∧ i = i'

variable {kind} {level : P → Option ℕ} {mem mem' : P → ι → W} {n : ℕ} {root p q : P}
  {path path' is : List ι} {i : ι} {w : W}

/-- A lookup goes through a pointer. -/
theorem lookup_of_table (h : kind (n + 1) (mem p i) = .table q) :
    lookup kind mem (n + 1) p (i :: is) = lookup kind mem n q is := by
  rw [lookup, h]

/-- A lookup ends with a leaf. -/
theorem lookup_of_leaf (h : kind (n + 1) (mem p i) = .leaf) :
    lookup kind mem (n + 1) p (i :: is) = some (n + 1, mem p i) := by
  rw [lookup, h]

/-- Nothing is found behind an absent word. -/
theorem lookup_of_absent (h : kind (n + 1) (mem p i) = .absent) : lookup kind mem (n + 1) p (i :: is) = none := by
  rw [lookup, h]

/-- The level of a table is known from the path to it. -/
theorem Reaches.level_eq (h : Reaches kind mem n root path p) (hf : Forest kind level mem)
    (hroot : level root = some n) : path.length ≤ n ∧ level p = some (n - path.length) := by
  induction h with
  | root => exact ⟨Nat.zero_le _, hroot⟩
  | step _ hq ih =>
    obtain ⟨k, hk, hlevel⟩ := hf.child ih.2 hq
    rw [List.length_append, List.length_singleton]
    refine ⟨by omega, ?_⟩
    rw [hlevel]
    congr 1
    omega

/-- **One path leads to a table.** -/
theorem Reaches.unique (h : Reaches kind mem n root path p) (h' : Reaches kind mem n root path' p)
    (hf : Forest kind level mem) (hroot : level root = some n) : path = path' := by
  induction h generalizing path' with
  | root =>
    cases h' with
    | root => rfl
    | step hr hq =>
      -- the root is not one level below another table
      have hlevel := (Reaches.step hr hq).level_eq hf hroot
      rw [hroot, List.length_append, List.length_singleton] at hlevel
      simp only [Option.some.injEq] at hlevel
      omega
  | step hr hq ih =>
    have hlevel := (Reaches.step hr hq).level_eq hf hroot
    cases h' with
    | root =>
      rw [hroot, List.length_append, List.length_singleton] at hlevel
      simp only [Option.some.injEq] at hlevel
      omega
    | step hr' hq' =>
      obtain ⟨rfl, rfl⟩ := hf.unique (hr.level_eq hf hroot).2 (hr'.level_eq hf hroot).2 hq hq'
      rw [ih hr']

/-- A lookup goes through every table on its path. -/
theorem Reaches.lookup (h : Reaches kind mem n root path p) (hf : Forest kind level mem)
    (hroot : level root = some n) (is : List ι) :
    lookup kind mem n root (path ++ is) = lookup kind mem (n - path.length) p is := by
  induction h generalizing is with
  | root => rfl
  | @step path i p q hr hq ih =>
    obtain ⟨k, hk, -⟩ := hf.child (hr.level_eq hf hroot).2 hq
    have hk' : n - (path.length + 1) = k := by omega
    rw [hk] at hq
    rw [List.append_assoc, List.singleton_append, ih, hk, RadixTable.lookup, hq,
      List.length_append, List.length_singleton, hk']

/-- The first step of a lookup that ends below the table it starts at. -/
theorem lookup_descend {k : ℕ} (h : lookup kind mem (n + 1) p (i :: is) = some (k, w))
    (hk : k ≠ n + 1) : ∃ q, kind (n + 1) (mem p i) = .table q ∧
      lookup kind mem n q is = some (k, w) := by
  rw [lookup] at h
  cases hkind : kind (n + 1) (mem p i) with
  | absent => simp [hkind] at h
  | table q => exact ⟨q, rfl, by simpa [hkind] using h⟩
  | leaf =>
    simp only [hkind, Option.some.injEq, Prod.mk.injEq] at h
    exact absurd h.1.symm hk

/-! ## Changes outside the tables -/

/-- Tables whose words did not change, or became no pointers, are still a
forest. -/
theorem Forest.mono (hf : Forest kind level mem)
    (h : ∀ p n i, level p = some n → mem' p i = mem p i ∨ ∀ q, kind n (mem' p i) ≠ .table q) :
    Forest kind level mem' where
  child {p q i n} hp hq := by
    rcases h p n i hp with hsame | hnot
    · exact hf.child hp (hsame ▸ hq)
    · exact absurd hq (hnot q)
  unique {p p' q i i' n n'} hp hp' hq hq' := by
    rcases h p n i hp with hsame | hnot
    · rcases h p' n' i' hp' with hsame' | hnot'
      · exact hf.unique hp hp' (hsame ▸ hq) (hsame' ▸ hq')
      · exact absurd hq' (hnot' q)
    · exact absurd hq (hnot q)

/-- Lookups see only the tables that paths lead to. -/
theorem lookup_congr_of_reaches
    (h : ∀ path p, Reaches kind mem n root path p → ∀ i, mem' p i = mem p i) (is : List ι) :
    lookup kind mem' n root is = lookup kind mem n root is := by
  have hgen : ∀ (rest pre : List ι) (q : P), Reaches kind mem n root pre q →
      lookup kind mem' (n - pre.length) q rest = lookup kind mem (n - pre.length) q rest := by
    intro rest
    induction rest with
    | nil => intro pre q _; cases n - pre.length <;> rfl
    | cons j rest ih =>
      intro pre q hq
      have hstep : ∀ q', kind (n - pre.length) (mem q j) = .table q' →
          lookup kind mem' (n - pre.length - 1) q' rest =
            lookup kind mem (n - pre.length - 1) q' rest := by
        intro q' hq'
        have hih := ih (pre ++ [j]) q' (hq.step hq')
        rwa [List.length_append, List.length_singleton, ← Nat.sub_sub] at hih
      cases hk : n - pre.length with
      | zero => rfl
      | succ k =>
        rw [hk, Nat.add_sub_cancel] at hstep
        simp only [lookup, h pre q hq j]
        cases hkind : kind (k + 1) (mem q j) with
        | absent => rfl
        | leaf => rfl
        | table q' => exact hstep q' hkind
  exact hgen is [] root .root

/-- So in a forest they see only the tables with levels. -/
theorem lookup_congr (hf : Forest kind level mem) (hroot : level root = some n)
    (h : ∀ p n i, level p = some n → mem' p i = mem p i) (is : List ι) :
    lookup kind mem' n root is = lookup kind mem n root is :=
  lookup_congr_of_reaches (fun _ _ hp i => h _ _ i (hp.level_eq hf hroot).2) is

/-- The paths to them stay. -/
theorem Reaches.congr (hr : Reaches kind mem n root path p) (hf : Forest kind level mem)
    (hroot : level root = some n) (h : ∀ p n i, level p = some n → mem' p i = mem p i) :
    Reaches kind mem' n root path p := by
  induction hr with
  | root => exact .root
  | step hr hq ih => exact .step ih (by rw [h _ _ _ (hr.level_eq hf hroot).2]; exact hq)

/-- Paths see only the tables they lead to. -/
theorem Reaches.of_congr (hr : Reaches kind mem' n root path p)
    (h : ∀ path p, Reaches kind mem n root path p → ∀ i, mem' p i = mem p i) :
    Reaches kind mem n root path p := by
  induction hr with
  | root => exact .root
  | step _ hq ih => exact .step ih (by rwa [h _ _ ih] at hq)

/-! ## A write to a table -/

variable [DecidableEq P] [DecidableEq ι]

/-- Memory after a write of one word. -/
def write (mem : P → ι → W) (p : P) (i : ι) (w : W) : P → ι → W :=
  fun p' i' => if p' = p ∧ i' = i then w else mem p' i'

@[simp] theorem write_self (mem : P → ι → W) (p : P) (i : ι) (w : W) : write mem p i w p i = w := by
  simp [write]

theorem write_of_ne {p' : P} {i' : ι} (h : ¬ (p' = p ∧ i' = i)) :
    write mem p i w p' i' = mem p' i' := if_neg h

/-- A path that does not go through the word leads where it did. -/
theorem Reaches.write_off_path {q : P} (hq : Reaches kind mem n root path' q)
    (hp : Reaches kind mem n root path p) (hf : Forest kind level mem)
    (hroot : level root = some n) (h : ¬ path ++ [i] <+: path') :
    Reaches kind (write mem p i w) n root path' q := by
  induction hq with
  | root => exact .root
  | @step path' i' p' q hr hq ih =>
    refine .step (ih fun hpre => h (hpre.trans (List.prefix_append _ _))) ?_
    rw [write_of_ne]
    · exact hq
    · rintro ⟨rfl, rfl⟩
      exact h (by rw [hp.unique hr hf hroot])

/-- **A write changes no lookup whose path does not go through the word.** -/
theorem lookup_write_off_path (hf : Forest kind level mem) (hroot : level root = some n)
    (hp : Reaches kind mem n root path p) (h : ¬ path ++ [i] <+: is) :
    lookup kind (write mem p i w) n root is = lookup kind mem n root is := by
  have hgen : ∀ (rest pre : List ι) (q : P), Reaches kind mem n root pre q →
      ¬ path ++ [i] <+: pre ++ rest →
      lookup kind (write mem p i w) (n - pre.length) q rest =
        lookup kind mem (n - pre.length) q rest := by
    intro rest
    induction rest with
    | nil => intro pre q _ _; cases n - pre.length <;> rfl
    | cons j rest ih =>
      intro pre q hq hnot
      have hsame : write mem p i w q j = mem q j := by
        refine write_of_ne ?_
        rintro ⟨rfl, rfl⟩
        rw [hp.unique hq hf hroot] at hnot
        exact hnot ⟨rest, by simp⟩
      have hstep : ∀ q', kind (n - pre.length) (mem q j) = .table q' →
          lookup kind (write mem p i w) (n - pre.length - 1) q' rest =
            lookup kind mem (n - pre.length - 1) q' rest := by
        intro q' hq'
        have hih := ih (pre ++ [j]) q' (hq.step hq') (by rwa [List.append_assoc])
        rwa [List.length_append, List.length_singleton, ← Nat.sub_sub] at hih
      cases hk : n - pre.length with
      | zero => rfl
      | succ k =>
        rw [hk, Nat.add_sub_cancel] at hstep
        simp only [lookup, hsame]
        cases hkind : kind (k + 1) (mem q j) with
        | absent => rfl
        | leaf => rfl
        | table q' => exact hstep q' hkind
  exact hgen is [] root .root h

/-- A word that is no pointer keeps the forest. -/
theorem Forest.of_write (hf : Forest kind level mem) {m : ℕ} (hp : level p = some m)
    (hw : ∀ q, kind m w ≠ .table q) : Forest kind level (write mem p i w) := by
  refine hf.mono fun p' n' i' hp' => ?_
  by_cases hslot : p' = p ∧ i' = i
  · obtain ⟨rfl, rfl⟩ := hslot
    obtain rfl : m = n' := by simpa [hp] using hp'
    right
    rw [write_self]
    exact hw
  · exact .inl (write_of_ne hslot)

/-- **A write of a word that is no pointer** ends the lookups through it. -/
theorem lookup_write_on_path (hf : Forest kind level mem) (hroot : level root = some n)
    (hp : Reaches kind mem n root path p) (hlen : path.length < n)
    (hw : ∀ q, kind (n - path.length) w ≠ .table q) (rest : List ι) :
    lookup kind (write mem p i w) n root (path ++ i :: rest) =
      if kind (n - path.length) w = .leaf then some (n - path.length, w) else none := by
  have hf' : Forest kind level (write mem p i w) := hf.of_write (hp.level_eq hf hroot).2 hw
  have hp' : Reaches kind (write mem p i w) n root path p := by
    refine hp.write_off_path hp hf hroot fun hpre => ?_
    have hle := hpre.length_le
    simp at hle
  rw [hp'.lookup hf' hroot]
  obtain ⟨k, hk⟩ : ∃ k, n - path.length = k + 1 := ⟨n - path.length - 1, by omega⟩
  rw [hk] at hw ⊢
  rw [lookup, write_self]
  cases hkind : kind (k + 1) w with
  | absent => simp
  | leaf => simp
  | table q => exact absurd hkind (hw q)

/-- **All lookups after a write of a word that is no pointer.** -/
theorem lookup_write (hf : Forest kind level mem) (hroot : level root = some n)
    (hp : Reaches kind mem n root path p) (hlen : path.length < n)
    (hw : ∀ q, kind (n - path.length) w ≠ .table q) (is : List ι) :
    lookup kind (write mem p i w) n root is =
      if path ++ [i] <+: is then
        if kind (n - path.length) w = .leaf then some (n - path.length, w) else none
      else lookup kind mem n root is := by
  by_cases hpre : path ++ [i] <+: is
  · obtain ⟨rest, rfl⟩ := hpre
    rw [if_pos (List.prefix_append _ _), List.append_assoc]
    exact lookup_write_on_path hf hroot hp hlen hw rest
  · rw [if_neg hpre]
    exact lookup_write_off_path hf hroot hp hpre

/-! ## A new table -/

/-- **A new table with no entries** keeps the forest. -/
theorem Forest.link {k : ℕ} (hf : Forest kind level mem) (hp : level p = some (k + 1))
    (hq : level q = none) (hempty : ∀ m i, kind m (mem q i) = .absent)
    (hw : kind (k + 1) w = .table q) :
    Forest kind (Function.update level q (some k)) (write mem p i w) := by
  have hpq : p ≠ q := by
    rintro rfl
    simp [hp] at hq
  have hlevel : ∀ {r m}, level r = some m → r ≠ q := by
    rintro r m hr rfl
    simp [hq] at hr
  -- a pointer is an old one or the new one
  have hcases : ∀ {r s j m}, Function.update level q (some k) r = some m →
      kind m (RadixTable.write mem p i w r j) = .table s →
      level r = some m ∧ kind m (mem r j) = .table s ∧ ¬ (r = p ∧ j = i) ∨
        r = p ∧ j = i ∧ m = k + 1 ∧ s = q := by
    intro r s j m hr hs
    by_cases hrq : r = q
    · subst hrq
      rw [write_of_ne (fun h => hpq h.1.symm), hempty] at hs
      cases hs
    · rw [Function.update_of_ne hrq] at hr
      by_cases hslot : r = p ∧ j = i
      · obtain ⟨rfl, rfl⟩ := hslot
        obtain rfl : k + 1 = m := by simpa [hp] using hr
        rw [write_self, hw] at hs
        exact .inr ⟨rfl, rfl, rfl, by simpa using hs.symm⟩
      · rw [write_of_ne hslot] at hs
        exact .inl ⟨hr, hs, hslot⟩
  constructor
  · intro r s j m hr hs
    rcases hcases hr hs with ⟨hr', hs', -⟩ | ⟨-, -, rfl, rfl⟩
    · obtain ⟨k', hk', hs''⟩ := hf.child hr' hs'
      exact ⟨k', hk', by rw [Function.update_of_ne (hlevel hs''), hs'']⟩
    · exact ⟨k, rfl, Function.update_self ..⟩
  · intro r r' s j j' m m' hr hr' hs hs'
    rcases hcases hr hs with ⟨h₁, h₂, -⟩ | ⟨rfl, rfl, -, rfl⟩
    · rcases hcases hr' hs' with ⟨h₃, h₄, -⟩ | ⟨-, -, -, rfl⟩
      · exact hf.unique h₁ h₃ h₂ h₄
      · obtain ⟨k', -, hs''⟩ := hf.child h₁ h₂
        exact absurd rfl (hlevel hs'')
    · rcases hcases hr' hs' with ⟨h₃, h₄, -⟩ | ⟨rfl, rfl, -, -⟩
      · obtain ⟨k', -, hs''⟩ := hf.child h₃ h₄
        exact absurd rfl (hlevel hs'')
      · exact ⟨rfl, rfl⟩

/-- It changes no lookup. -/
theorem lookup_link {k : ℕ} (hf : Forest kind level mem) (hroot : level root = some n)
    (hp : Reaches kind mem n root path p) (hk : n - path.length = k + 1)
    (habsent : kind (k + 1) (mem p i) = .absent) (hq : level q = none)
    (hempty : ∀ m i, kind m (mem q i) = .absent) (hw : kind (k + 1) w = .table q)
    (is : List ι) :
    lookup kind (write mem p i w) n root is = lookup kind mem n root is := by
  by_cases hpre : path ++ [i] <+: is
  · obtain ⟨rest, rfl⟩ := hpre
    have hlevel : level p = some (k + 1) := by rw [(hp.level_eq hf hroot).2, hk]
    have hqp : q ≠ p := by
      rintro rfl
      simp [hq] at hlevel
    have hqroot : root ≠ q := by
      rintro rfl
      simp [hq] at hroot
    have hp' : Reaches kind (write mem p i w) n root path p := by
      refine hp.write_off_path hp hf hroot fun hpre => ?_
      have hle := hpre.length_le
      simp at hle
    have hnone : lookup kind (write mem p i w) k q rest = none := by
      cases k with
      | zero => rfl
      | succ k =>
        cases rest with
        | nil => rfl
        | cons j rest =>
          rw [lookup, write_of_ne (fun h => hqp h.1), hempty]
    rw [List.append_assoc, List.singleton_append, hp.lookup hf hroot,
      hp'.lookup (hf.link hlevel hq hempty hw) (by rw [Function.update_of_ne hqroot, hroot]), hk,
      lookup, lookup, write_self, hw, habsent]
    exact hnone
  · exact lookup_write_off_path hf hroot hp hpre

end RadixTable

end Lib

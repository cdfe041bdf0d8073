import Mathlib.Data.Set.Lattice
import Mathlib.Data.List.Pairwise
import Mathlib.Order.Interval.Set.Basic
import Mathlib.Tactic
import Mathlib.Order.CompletePartialOrder

/-!
# Tilings

A list of pieces tiles a set when the pieces are pairwise disjoint and their
union is the whole set. Moving pieces around (`Tiles.perm`), cutting one piece
in two and joining two pieces (`tiles_split`) keep a tiling; nothing else is
needed to reason about an allocator that hands out, takes back, cuts and joins
blocks of memory.
-/

namespace Lib

universe u v

variable {α : Type u} {ι : Type v}

/-- Two different members of a list are related one way or the other. -/
theorem rel_or_rel_of_pairwise {R : ι → ι → Prop} {l : List ι} (h : l.Pairwise R) {i j : ι}
    (hi : i ∈ l) (hj : j ∈ l) (hij : i ≠ j) : R i j ∨ R j i := by
  induction l with
  | nil => cases hi
  | cons k l ih =>
    obtain ⟨hk, hl⟩ := List.pairwise_cons.mp h
    rcases List.mem_cons.mp hi with hik | hi
    · rcases List.mem_cons.mp hj with hjk | hj
      · exact absurd (hik.trans hjk.symm) hij
      · exact Or.inl (hik ▸ hk j hj)
    · rcases List.mem_cons.mp hj with hjk | hj
      · exact Or.inr (hjk ▸ hk i hi)
      · exact ih hl hi hj

/-- The pieces in `l` are pairwise disjoint and their union is `X`. -/
structure Tiles (X : Set α) (piece : ι → Set α) (l : List ι) : Prop where
  /-- no two pieces share a point -/
  disjoint : l.Pairwise fun i j => Disjoint (piece i) (piece j)
  /-- every point of `X` lies in a piece, and no other point does -/
  cover : ∀ a, a ∈ X ↔ ∃ i ∈ l, a ∈ piece i

variable {X : Set α} {piece : ι → Set α}

namespace Tiles

/-- A tiling does not depend on the order of its pieces. -/
theorem perm {l l' : List ι} (h : Tiles X piece l) (hp : l.Perm l') : Tiles X piece l' where
  disjoint := (hp.pairwise_iff fun hd => hd.symm).mp h.disjoint
  cover a := by simp only [h.cover a, hp.mem_iff]

/-- Each piece lies inside the tiled set. -/
theorem subset {l : List ι} (h : Tiles X piece l) {i : ι} (hi : i ∈ l) : piece i ⊆ X :=
  fun a ha => (h.cover a).mpr ⟨i, hi, ha⟩

/-- A point lies in one piece only, if the pieces are listed in two parts. -/
theorem not_mem_of_append {l l' : List ι} (h : Tiles X piece (l ++ l')) {i j : ι}
    (hi : i ∈ l) (hj : j ∈ l') {a : α} (ha : a ∈ piece i) : a ∉ piece j := by
  have hd := (List.pairwise_append.mp h.disjoint).2.2 i hi j hj
  exact Set.disjoint_left.mp hd ha

end Tiles

/-- The points of the pieces in `l`. -/
def covered (piece : ι → Set α) (l : List ι) : Set α := {a | ∃ i ∈ l, a ∈ piece i}

/-- A piece that moves from the second part of a tiling to the first takes
exactly its own points along. -/
theorem Tiles.move {i : ι} {l m m' : List ι} (h : Tiles X piece (l ++ m))
    (h' : Tiles X piece (i :: l ++ m')) :
    covered piece m = covered piece m' ∪ piece i ∧ Disjoint (covered piece m') (piece i) := by
  obtain ⟨hi, -⟩ := List.pairwise_cons.mp h'.disjoint
  constructor
  · ext a
    constructor
    · rintro ⟨j, hj, ha⟩
      have hX : a ∈ X := h.subset (List.mem_append_right _ hj) ha
      obtain ⟨k, hk, hak⟩ := (h'.cover a).mp hX
      rcases List.mem_append.mp hk with hk | hk
      · rcases List.mem_cons.mp hk with rfl | hk
        · exact Or.inr hak
        · exact absurd ha (h.not_mem_of_append hk hj hak)
      · exact Or.inl ⟨k, hk, hak⟩
    · intro ha
      have hX : a ∈ X := by
        rcases ha with ⟨k, hk, hak⟩ | ha
        · exact h'.subset (List.mem_append_right _ hk) hak
        · exact h'.subset (by simp) ha
      obtain ⟨j, hj, haj⟩ := (h.cover a).mp hX
      rcases List.mem_append.mp hj with hj | hj
      · rcases ha with ⟨k, hk, hak⟩ | ha
        · exact absurd hak (h'.not_mem_of_append (List.mem_cons_of_mem _ hj) hk haj)
        · exact absurd ha (Set.disjoint_right.mp (hi j (List.mem_append_left _ hj)) haj)
      · exact ⟨j, hj, haj⟩
  · refine Set.disjoint_left.mpr ?_
    rintro a ⟨k, hk, hak⟩ ha
    exact Set.disjoint_left.mp (hi k (List.mem_append_right _ hk)) ha hak

theorem tiles_perm {l l' : List ι} (hp : l.Perm l') : Tiles X piece l ↔ Tiles X piece l' :=
  ⟨fun h => h.perm hp, fun h => h.perm hp.symm⟩

/-- Cutting a piece in two disjoint parts, or joining two parts, keeps a
tiling. -/
theorem tiles_split {i j k : ι} {l : List ι} (hu : piece i = piece j ∪ piece k)
    (hd : Disjoint (piece j) (piece k)) :
    Tiles X piece (i :: l) ↔ Tiles X piece (j :: k :: l) := by
  constructor
  · rintro ⟨hdis, hcov⟩
    obtain ⟨hi, hl⟩ := List.pairwise_cons.mp hdis
    refine ⟨?_, fun a => ?_⟩
    · refine List.pairwise_cons.mpr ⟨?_, List.pairwise_cons.mpr ⟨?_, hl⟩⟩
      · intro m hm
        rcases List.mem_cons.mp hm with rfl | hm
        · exact hd
        · exact (hi m hm).mono_left (hu ▸ Set.subset_union_left)
      · exact fun m hm => (hi m hm).mono_left (hu ▸ Set.subset_union_right)
    · simp only [hcov a, List.exists_mem_cons_iff, hu, Set.mem_union, or_assoc]
  · rintro ⟨hdis, hcov⟩
    obtain ⟨hj, hdis'⟩ := List.pairwise_cons.mp hdis
    obtain ⟨hk, hl⟩ := List.pairwise_cons.mp hdis'
    refine ⟨List.pairwise_cons.mpr ⟨fun m hm => ?_, hl⟩, fun a => ?_⟩
    · rw [hu]
      exact Disjoint.union_left (hj m (List.mem_cons_of_mem _ hm)) (hk m hm)
    · simp only [hcov a, List.exists_mem_cons_iff, hu, Set.mem_union, or_assoc]

/-- `l` and `l'` are two ways to cut the same part of a tiling: one can stand
for the other whatever the remaining pieces are. -/
def Retile (piece : ι → Set α) (l l' : List ι) : Prop :=
  ∀ (X : Set α) (r : List ι), Tiles X piece (l ++ r) ↔ Tiles X piece (l' ++ r)

namespace Retile

theorem refl (l : List ι) : Retile piece l l := fun _ _ => Iff.rfl

theorem symm {l l' : List ι} (h : Retile piece l l') : Retile piece l' l :=
  fun X r => (h X r).symm

theorem trans {l₁ l₂ l₃ : List ι} (h : Retile piece l₁ l₂) (h' : Retile piece l₂ l₃) :
    Retile piece l₁ l₃ :=
  fun X r => (h X r).trans (h' X r)

theorem of_perm {l l' : List ι} (hp : l.Perm l') : Retile piece l l' :=
  fun _ r => tiles_perm (hp.append_right r)

/-- Retiling the tail retiles the list. -/
theorem cons {l l' : List ι} (h : Retile piece l l') (i : ι) : Retile piece (i :: l) (i :: l') := by
  intro X r
  have hmid : ∀ m : List ι, (i :: m ++ r).Perm (m ++ i :: r) := fun m => List.perm_middle.symm
  rw [tiles_perm (hmid l), tiles_perm (hmid l')]
  exact h X (i :: r)

end Retile

/-! ## Blocks of consecutive numbers -/

/-- A block of consecutive addresses. -/
structure Block : Type where
  /-- the first address -/
  ptr : ℕ
  /-- how many addresses there are -/
  size : ℕ
  deriving DecidableEq

namespace Block

/-- The address after the last one. -/
def fin (b : Block) : ℕ := b.ptr + b.size

/-- The addresses of a block. -/
def bytes (b : Block) : Set ℕ := Set.Ico b.ptr b.fin

@[simp] theorem mem_bytes {b : Block} {a : ℕ} : a ∈ b.bytes ↔ b.ptr ≤ a ∧ a < b.fin := Iff.rfl

@[simp] theorem fin_mk (p n : ℕ) : (⟨p, n⟩ : Block).fin = p + n := rfl

/-- A block is the union of its first `m` addresses and the rest. -/
theorem bytes_split (p m n : ℕ) :
    (⟨p, m + n⟩ : Block).bytes = (⟨p, m⟩ : Block).bytes ∪ (⟨p + m, n⟩ : Block).bytes := by
  ext a
  simp only [Set.mem_union, mem_bytes, fin_mk]
  omega

theorem disjoint_split (p m n : ℕ) :
    Disjoint (⟨p, m⟩ : Block).bytes (⟨p + m, n⟩ : Block).bytes := by
  rw [Set.disjoint_left]
  intro a ha hb
  simp only [mem_bytes, fin_mk] at ha hb
  omega

/-- Nonempty disjoint blocks lie one after the other. -/
theorem le_or_le_of_disjoint {b c : Block} (hb : 0 < b.size) (hc : 0 < c.size)
    (h : Disjoint b.bytes c.bytes) : b.fin ≤ c.ptr ∨ c.fin ≤ b.ptr := by
  by_contra hn
  have hmax : max b.ptr c.ptr ∈ b.bytes → max b.ptr c.ptr ∉ c.bytes :=
    fun hm => Set.disjoint_left.mp h hm
  simp only [mem_bytes, fin] at hmax hn
  omega

end Block

/-- Blocks can be cut and joined at any address inside them. -/
theorem retile_split (p m n : ℕ) (l : List Block) :
    Retile Block.bytes (⟨p, m + n⟩ :: l) (⟨p, m⟩ :: ⟨p + m, n⟩ :: l) :=
  fun _ _ => tiles_split (Block.bytes_split p m n) (Block.disjoint_split p m n)

end Lib

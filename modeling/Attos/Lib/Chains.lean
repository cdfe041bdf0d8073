import Mathlib.Tactic

/-!
# Chains in a labelled graph

A search without a record of the nodes that it has visited follows every chain of edges from its
start. It comes to an end if the chains are of bounded length. In a finite graph that is so exactly
if no node that is reached lies on a cycle (`Bounded.acyclic`, `Acyclic.bounded`).
-/

namespace Lib

universe u v

variable {ν : Type u} {ε : Type v} {E : ν → ε → ν → Prop}

/-- The edges of a chain, from a node to another. -/
inductive Chain (E : ν → ε → ν → Prop) : ν → List ε → ν → Prop where
  /-- no edge -/
  | nil {a : ν} : Chain E a [] a
  /-- an edge before a chain -/
  | cons {a b c : ν} {e : ε} {p : List ε} : E a e b → Chain E b p c → Chain E a (e :: p) c

namespace Chain

variable {a b c : ν} {e : ε} {p q : List ε} {n : ℕ}

theorem append (h : Chain E a p b) (h' : Chain E b q c) : Chain E a (p ++ q) c := by
  induction h with
  | nil => exact h'
  | cons he _ ih => exact .cons he (ih h')

/-- Chains from `a` have fewer than `n` edges. -/
def Bounded (E : ν → ε → ν → Prop) (n : ℕ) (a : ν) : Prop := ∀ p b, Chain E a p b → p.length < n

/-- No chain from `a` leads to a node that has a chain to itself. -/
def Acyclic (E : ν → ε → ν → Prop) (a : ν) : Prop := ∀ p b q, Chain E a p b → Chain E b q b → q = []

theorem Bounded.pos (h : Bounded E n a) : 0 < n := h [] a .nil

/-- Chains that go on behind an edge are shorter. -/
theorem Bounded.edge (h : Bounded E (n + 1) a) (he : E a e b) : Bounded E n b := by
  intro p c hp
  exact Nat.lt_of_succ_lt_succ (h (e :: p) c (.cons he hp))

/-- The chains from `a` are bounded if those behind its edges are. -/
theorem Bounded.of_edges (h : ∀ e b, E a e b → Bounded E n b) : Bounded E (n + 1) a := by
  intro p c hp
  cases hp with
  | nil => exact Nat.succ_pos n
  | cons he hp => exact Nat.succ_lt_succ (h _ _ he _ _ hp)

theorem Bounded.mono {m : ℕ} (h : Bounded E n a) (hnm : n ≤ m) : Bounded E m a :=
  fun p b hp => (h p b hp).trans_le hnm

/-- A chain from a node to itself can be repeated. -/
theorem repeated (h : Chain E a p a) (k : ℕ) : Chain E a (List.replicate k p).flatten a := by
  induction k with
  | zero => exact .nil
  | succ k ih =>
    rw [List.replicate_succ, List.flatten_cons]
    exact h.append ih

/-- **Where chains are bounded there is no cycle.** -/
theorem Bounded.acyclic (h : Bounded E n a) : Acyclic E a := by
  intro p b q hp hq
  by_contra hne
  have hlong := h _ _ (hp.append (hq.repeated n))
  rw [List.length_append, List.length_flatten, List.map_replicate, List.sum_replicate, smul_eq_mul] at hlong
  have hpos : 1 ≤ q.length := List.length_pos_iff.mpr hne
  have hmul : n * 1 ≤ n * q.length := Nat.mul_le_mul_left n hpos
  omega

theorem Acyclic.edge (h : Acyclic E a) (he : E a e b) : Acyclic E b :=
  fun p c q hp hq => h (e :: p) c q (.cons he hp) hq

/-- The nodes of a chain are different if there is no cycle. -/
theorem exists_nodup (h : Chain E a p c) (hc : Acyclic E a) :
    ∃ l : List ν, l.length = p.length + 1 ∧ l.Nodup ∧ ∀ b ∈ l, ∃ q, Chain E a q b := by
  induction h with
  | nil => exact ⟨[_], rfl, List.nodup_singleton _, fun b hb => ⟨[], List.mem_singleton.mp hb ▸ .nil⟩⟩
  | @cons a b c e p he _ ih =>
    obtain ⟨l, hlen, hnd, hl⟩ := ih (hc.edge he)
    refine ⟨a :: l, by rw [List.length_cons, List.length_cons, hlen], List.nodup_cons.mpr ⟨?_, hnd⟩, ?_⟩
    · intro ha
      obtain ⟨q, hq⟩ := hl a ha
      cases hc [] a (e :: q) .nil (.cons he hq)
    · intro d hd
      obtain rfl | hd := List.mem_cons.mp hd
      · exact ⟨[], .nil⟩
      · obtain ⟨q, hq⟩ := hl d hd
        exact ⟨e :: q, .cons he hq⟩

/-- **Where there is no cycle, chains are bounded** by the number of nodes. -/
theorem Acyclic.bounded [Finite ν] (h : Acyclic E a) : Bounded E (Nat.card ν) a := by
  have := Fintype.ofFinite ν
  rw [Nat.card_eq_fintype_card]
  intro p b hp
  obtain ⟨l, hlen, hnd, -⟩ := hp.exists_nodup h
  rw [← Nat.succ_le_iff, Nat.succ_eq_add_one, ← hlen]
  exact hnd.length_le_card

end Chain

end Lib

import Attos.Lib.RadixTable

/-!
# Walking through radix tables

`postorder` visits all tables below a table and then the table itself. In a forest it visits the
tables that paths lead to (`mem_postorder`), each of them once (`nodup_postorder`).

A change of memory keeps the paths whose pointers stay (`Reaches.keep`). A new pointer to an empty
table adds one path (`reaches_link`), and a word that is no pointer adds none (`Reaches.of_write`,
`Reaches.of_clear`).
-/

namespace Lib

namespace RadixTable

universe u v w

variable {P : Type u} {ι : Type v} {W : Type w} {kind : ℕ → W → Entry P} {level : P → Option ℕ}
  {mem mem' : P → ι → W} {n : ℕ} {root p p' q r : P} {path path' : List ι} {i : ι} {w : W}

/-! ## Paths -/

/-- Nothing but the root is at the empty path. -/
theorem Reaches.eq_root (h : Reaches kind mem n root [] p) : p = root := by
  generalize hpath : ([] : List ι) = path at h
  cases h with
  | root => rfl
  | step => exact absurd hpath.symm (List.append_ne_nil_of_right_ne_nil _ (List.cons_ne_nil _ _))

/-- The last step of a path. -/
theorem Reaches.exists_of_append (h : Reaches kind mem n root (path ++ [i]) q) :
    ∃ p, Reaches kind mem n root path p ∧ kind (n - path.length) (mem p i) = .table q := by
  generalize hpath : path ++ [i] = full at h
  cases h with
  | root => exact absurd hpath (List.append_ne_nil_of_right_ne_nil _ (List.cons_ne_nil _ _))
  | @step path' i' p _ hp hq =>
    obtain ⟨rfl, hi⟩ := List.append_inj' hpath rfl
    obtain rfl := List.cons.inj hi |>.1
    exact ⟨p, hp, hq⟩

/-- A path leads to one table. -/
theorem Reaches.functional (h : Reaches kind mem n root path p) (h' : Reaches kind mem n root path p') :
    p = p' := by
  induction h generalizing p' with
  | root => exact h'.eq_root.symm
  | step _ hq ih =>
    obtain ⟨r, hr, hq'⟩ := h'.exists_of_append
    rw [← ih hr] at hq'
    exact Entry.table.inj (hq.symm.trans hq')

/-- A step at the front of a path. -/
theorem Reaches.cons (h : kind (n + 1) (mem root i) = .table r) (hr : Reaches kind mem n r path q) :
    Reaches kind mem (n + 1) root (i :: path) q := by
  induction hr with
  | root => exact .step .root h
  | step _ hq ih =>
    refine .step ih ?_
    rw [List.length_cons, Nat.add_sub_add_right]
    exact hq

/-- The first step of a path. -/
theorem Reaches.exists_of_cons (h : Reaches kind mem (n + 1) root (i :: path) q) :
    ∃ r, kind (n + 1) (mem root i) = .table r ∧ Reaches kind mem n r path q := by
  generalize hpath : i :: path = full at h
  induction h generalizing path with
  | root => exact absurd hpath (List.cons_ne_nil _ _)
  | @step path' j p q hp hq ih =>
    cases path' with
    | nil =>
      obtain ⟨rfl, rfl⟩ := List.cons.inj hpath
      rw [hp.eq_root] at hq
      exact ⟨q, hq, .root⟩
    | cons i' path' =>
      obtain ⟨rfl, rfl⟩ := List.cons.inj hpath
      obtain ⟨r, hr, hreach⟩ := ih rfl
      rw [List.length_cons, Nat.add_sub_add_right] at hq
      exact ⟨r, hr, hreach.step hq⟩

/-! ## All tables -/

/-- What is visited for an entry. -/
def visit (f : P → List P) : Entry P → List P
  | .table q => f q
  | .absent => []
  | .leaf => []

theorem mem_visit {f : P → List P} {e : Entry P} : q ∈ visit f e ↔ ∃ r, e = .table r ∧ q ∈ f r := by
  cases e with
  | absent => exact ⟨fun h => absurd h List.not_mem_nil, by rintro ⟨r, h, -⟩; cases h⟩
  | leaf => exact ⟨fun h => absurd h List.not_mem_nil, by rintro ⟨r, h, -⟩; cases h⟩
  | table r =>
    constructor
    · exact fun h => ⟨r, rfl, h⟩
    · rintro ⟨r', h, hq⟩
      exact (Entry.table.inj h) ▸ hq

/-- All tables that indices lead to, from a table `p` of level `n`; a table comes behind the tables
below it. -/
def postorder (kind : ℕ → W → Entry P) (indices : List ι) (mem : P → ι → W) : ℕ → P → List P
  | 0, p => [p]
  | n + 1, p =>
    (indices.flatMap fun i => visit (postorder kind indices mem n) (kind (n + 1) (mem p i))) ++ [p]

/-- **All tables are visited.** -/
theorem mem_postorder {indices : List ι} (hf : Forest kind level mem) (hroot : level root = some n) :
    q ∈ postorder kind indices mem n root ↔
      ∃ path, (∀ i ∈ path, i ∈ indices) ∧ Reaches kind mem n root path q := by
  induction n generalizing root with
  | zero =>
    rw [postorder, List.mem_singleton]
    constructor
    · rintro rfl
      exact ⟨[], fun _ hi => absurd hi List.not_mem_nil, .root⟩
    · rintro ⟨path, -, hq⟩
      have hlen := (hq.level_eq hf hroot).1
      rw [List.length_eq_zero_iff.mp (Nat.le_zero.mp hlen)] at hq
      exact hq.eq_root
  | succ n ih =>
    have hchild : ∀ {i r}, kind (n + 1) (mem root i) = .table r → level r = some n := by
      intro i r hr
      obtain ⟨k, hk, hlevel⟩ := hf.child hroot hr
      rw [hlevel, Nat.succ.inj hk]
    rw [postorder, List.mem_append, List.mem_singleton, List.mem_flatMap]
    constructor
    · rintro (⟨i, hi, hq⟩ | rfl)
      · obtain ⟨r, hkind, hq⟩ := mem_visit.mp hq
        obtain ⟨path, hpath, hr⟩ := (ih (hchild hkind)).mp hq
        exact ⟨i :: path, List.forall_mem_cons.mpr ⟨hi, hpath⟩, hr.cons hkind⟩
      · exact ⟨[], fun _ hi => absurd hi List.not_mem_nil, .root⟩
    · rintro ⟨path, hpath, hq⟩
      cases path with
      | nil => exact .inr hq.eq_root
      | cons i path =>
        obtain ⟨r, hkind, hr⟩ := hq.exists_of_cons
        obtain ⟨hi, hpath⟩ := List.forall_mem_cons.mp hpath
        exact .inl ⟨i, hi, mem_visit.mpr ⟨r, hkind, (ih (hchild hkind)).mpr ⟨path, hpath, hr⟩⟩⟩

/-- **Each of them once.** -/
theorem nodup_postorder {indices : List ι} (hindices : indices.Nodup) (hf : Forest kind level mem)
    (hroot : level root = some n) : (postorder kind indices mem n root).Nodup := by
  induction n generalizing root with
  | zero => exact List.nodup_singleton _
  | succ n ih =>
    have hchild : ∀ {i r}, kind (n + 1) (mem root i) = .table r → level r = some n := by
      intro i r hr
      obtain ⟨k, hk, hlevel⟩ := hf.child hroot hr
      rw [hlevel, Nat.succ.inj hk]
    -- what is visited for an index is below it
    have hbelow : ∀ {i q}, q ∈ visit (postorder kind indices mem n) (kind (n + 1) (mem root i)) →
        ∃ path, Reaches kind mem (n + 1) root (i :: path) q := by
      intro i q hq
      obtain ⟨r, hkind, hq⟩ := mem_visit.mp hq
      obtain ⟨path, -, hr⟩ := (mem_postorder hf (hchild hkind)).mp hq
      exact ⟨path, hr.cons hkind⟩
    rw [postorder, List.nodup_append]
    refine ⟨List.nodup_flatMap.mpr ⟨fun i _ => ?_, ?_⟩, List.nodup_singleton _, ?_⟩
    · cases hkind : kind (n + 1) (mem root i) with
      | absent => exact List.nodup_nil
      | leaf => exact List.nodup_nil
      | table r => exact ih (hchild hkind)
    · refine hindices.imp fun {i j} hij q hq hq' => ?_
      obtain ⟨path, hreach⟩ := hbelow hq
      obtain ⟨path', hreach'⟩ := hbelow hq'
      exact hij (List.cons.inj (hreach.unique hreach' hf hroot)).1
    · intro q hq r hr heq
      obtain ⟨i, -, hq⟩ := List.mem_flatMap.mp hq
      obtain ⟨path, hreach⟩ := hbelow hq
      rw [heq, List.mem_singleton.mp hr] at hreach
      exact List.cons_ne_nil _ _ (hreach.unique .root hf hroot)

/-! ## Changes of memory -/

/-- A path stays if the pointers do. -/
theorem Reaches.keep (h : Reaches kind mem n root path q)
    (hkeep : ∀ path p i r, Reaches kind mem n root path p →
      kind (n - path.length) (mem p i) = .table r → mem' p i = mem p i) :
    Reaches kind mem' n root path q := by
  induction h with
  | root => exact .root
  | step hp hq ih => exact ih.step (by rw [hkeep _ _ _ _ hp hq, hq])

/-- Words that become no pointers add no paths. -/
theorem Reaches.of_clear (h : Reaches kind mem' n root path q)
    (hclear : ∀ p i, mem' p i = mem p i ∨ ∀ m r, kind m (mem' p i) ≠ .table r) :
    Reaches kind mem n root path q := by
  induction h with
  | root => exact .root
  | @step path i p q _ hq ih =>
    rcases hclear p i with hsame | hnot
    · exact ih.step (hsame ▸ hq)
    · exact absurd hq (hnot _ _)

variable [DecidableEq P] [DecidableEq ι]

/-- Nor does a word of a table that is no pointer there. -/
theorem Reaches.of_write (h : Reaches kind (write mem p i w) n root path' q)
    (hp : Reaches kind mem n root path p) (hf : Forest kind level mem) (hroot : level root = some n)
    (hw : ∀ r, kind (n - path.length) w ≠ .table r) : Reaches kind mem n root path' q := by
  induction h with
  | root => exact .root
  | @step path' i' p' q _ hq ih =>
    by_cases hslot : p' = p ∧ i' = i
    · obtain ⟨rfl, rfl⟩ := hslot
      rw [write_self, ih.unique hp hf hroot] at hq
      exact absurd hq (hw _)
    · rw [write_of_ne hslot] at hq
      exact ih.step hq

/-- A path goes on as before if the word was no pointer. -/
theorem Reaches.write_of_not_table (h : Reaches kind mem n root path' q)
    (hp : Reaches kind mem n root path p) (hf : Forest kind level mem) (hroot : level root = some n)
    (hold : ∀ r, kind (n - path.length) (mem p i) ≠ .table r) :
    Reaches kind (write mem p i w) n root path' q := by
  refine h.keep fun path₁ p₁ i₁ r hp₁ hr => write_of_ne ?_
  rintro ⟨rfl, rfl⟩
  rw [hp₁.unique hp hf hroot] at hr
  exact hold r hr

/-- **A pointer to an empty table** adds its path. -/
theorem reaches_link {k : ℕ} (hf : Forest kind level mem) (hroot : level root = some n)
    (hp : Reaches kind mem n root path p) (hk : n - path.length = k + 1)
    (habsent : kind (k + 1) (mem p i) = .absent) (hq : level q = none)
    (hempty : ∀ m i, kind m (mem q i) = .absent) (hw : kind (k + 1) w = .table q) :
    Reaches kind (write mem p i w) n root path' r ↔
      Reaches kind mem n root path' r ∨ path' = path ++ [i] ∧ r = q := by
  have hold : ∀ r, kind (n - path.length) (mem p i) ≠ .table r := by
    intro r hr
    rw [hk, habsent] at hr
    cases hr
  have hqp : q ≠ p := by
    rintro rfl
    rw [(hp.level_eq hf hroot).2] at hq
    cases hq
  constructor
  · intro h
    induction h with
    | root => exact .inl .root
    | @step path' i' p' r hp' hr ih =>
      by_cases hslot : p' = p ∧ i' = i
      · obtain ⟨rfl, rfl⟩ := hslot
        rcases ih with ih | ⟨-, heq⟩
        · obtain rfl := ih.unique hp hf hroot
          rw [hk, write_self, hw] at hr
          exact .inr ⟨rfl, (Entry.table.inj hr).symm⟩
        · exact absurd heq.symm hqp
      · rw [write_of_ne hslot] at hr
        rcases ih with ih | ⟨-, rfl⟩
        · exact .inl (ih.step hr)
        · rw [hempty] at hr
          cases hr
  · rintro (h | ⟨rfl, rfl⟩)
    · exact h.write_of_not_table hp hf hroot hold
    · refine (hp.write_of_not_table hp hf hroot hold).step ?_
      rw [write_self, hk, hw]

end RadixTable

end Lib
